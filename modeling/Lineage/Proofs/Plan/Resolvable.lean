import Lineage.Proofs.Converter.Agreement
import Lineage.Proofs.Plan.Equipped
import Lineage.Proofs.Plan.Failure
import Lineage.Proofs.Plan.Sample

namespace Lineage

/-!
# Converters find what they need

Whatever the checks of methods and of nested types let through has the counterparts that its
converters work against.

* `Traced.Unresolved` — a specification that fails for want of a counterpart;
  `View.upField_unresolved` and its like — for want of which one,
* `View.Equipped.messageConverter` — a message whose members are equipped does not fail so,
* `View.Resolvable` — a request for a type with the counterpart that the converter works against,
  `View.resolvable_of_asked` — nothing else is asked for, if methods ask for nothing else,
* `Chain.Resolves`, `Chain.resolves_of_ofPackages` — no version of a built chain lacks a
  counterpart.
-/

/-- An error that says that something has no counterpart. -/
def ConversionError.isUnresolved : ConversionError → Bool
  | unresolved .. => true
  | _ => false

/-! ### Where counterparts are missed -/

namespace Traced

variable {α β : Type}

/-- Something has no counterpart. -/
def Unresolved (t : Traced α) : Prop := ∃ e, t.result = .error e ∧ e.isUnresolved

/-- What succeeds is resolved. -/
theorem not_unresolved_of_ok {t : Traced α} {a : α} (h : t.result = .ok a) : ¬t.Unresolved := by
  rintro ⟨e, he, -⟩
  cases h.symm.trans he

/-- Steps are unresolved if the first one is, or the second one with its result. -/
theorem unresolved_bind {x : Traced α} {f : α → Traced β} :
    (x >>= f).Unresolved ↔ x.Unresolved ∨ ∃ a, x.result = .ok a ∧ (f a).Unresolved := by
  simp only [Unresolved, bind_error]
  constructor
  · rintro ⟨e, hx | ⟨a, ha, hf⟩, hunresolved⟩
    · exact .inl ⟨e, hx, hunresolved⟩
    · exact .inr ⟨a, ha, e, hf, hunresolved⟩
  · rintro (⟨e, hx, hunresolved⟩ | ⟨a, ha, e, hf, hunresolved⟩)
    · exact ⟨e, .inl hx, hunresolved⟩
    · exact ⟨e, .inr ⟨a, ha, hf⟩, hunresolved⟩

/-- A list is unresolved if one of its elements is. -/
theorem exists_unresolved_of_mapM {f : α → Traced β} {xs : List α} (h : (xs.mapM f).Unresolved) :
    ∃ x ∈ xs, (f x).Unresolved := by
  obtain ⟨e, he, hunresolved⟩ := h
  obtain ⟨x, hx, hfails⟩ := mapM_error he
  exact ⟨x, hx, e, hfails, hunresolved⟩

/-- A look-up is unresolved if nothing is found. -/
theorem unresolved_lift_orUnresolved {found : Option α} {entity function : String} :
    (lift (View.orUnresolved found entity function)).Unresolved ↔ found = none := by
  cases found <;> simp [Unresolved, View.orUnresolved, ConversionError.isUnresolved]

end Traced

namespace View

variable {w : View}

/-- An action that does not fit is refused, but not for want of a counterpart. -/
theorem not_unresolved_action (kind : ConverterKind) (field other checked : FieldId) :
    ¬(w.action kind field other checked).Unresolved := by
  unfold action
  dsimp only
  split
  · exact Traced.not_unresolved_of_ok rfl
  · exact Traced.not_unresolved_of_ok rfl
  · exact Traced.not_unresolved_of_ok rfl
  · split
    · exact Traced.not_unresolved_of_ok rfl
    · split
      · exact Traced.not_unresolved_of_ok rfl
      · rintro ⟨e, he, hunresolved⟩
        obtain rfl := Except.error.inj he
        cases hunresolved

/-- What is made of an action, or of there being none, does not fail. -/
theorem not_unresolved_of_action {α : Type} {kind : ConverterKind} {field other checked : FieldId}
    {finish : Option Action → Traced α} (hfinish : ∀ a, ∃ x, (finish a).result = .ok x) :
    ¬(w.action kind field other checked >>= finish).Unresolved := by
  intro h
  obtain haction | ⟨action, -, h⟩ := Traced.unresolved_bind.mp h
  · exact not_unresolved_action _ _ _ _ haction
  · obtain ⟨x, hx⟩ := hfinish action
    exact Traced.not_unresolved_of_ok hx h

/-- On the way down a field is unresolved if it has no counterpart. -/
theorem downField_unresolved {h : Head} {f : Field} (hf : (w.downField h f).Unresolved) :
    ¬(h.kind = .toNext ∧ f.deprecated) ∧ downLink h.kind f.link = none := by
  unfold downField at hf
  split at hf
  · exact absurd hf (Traced.not_unresolved_of_ok rfl)
  · rename_i hlive
    obtain hlink | ⟨target, -, hf⟩ := Traced.unresolved_bind.mp hf
    · exact ⟨by simpa using hlive, Traced.unresolved_lift_orUnresolved.mp hlink⟩
    · exact absurd hf (not_unresolved_of_action fun a => by cases a <;> exact ⟨_, rfl⟩)

/-- On the way up a field is unresolved if it has no counterpart. -/
theorem upField_unresolved {h : Head} {f : Field} (hf : (w.upField h f).Unresolved) :
    upLink (w.readsPrivate h.shape f) f.link = none := by
  unfold upField at hf
  obtain hlink | ⟨source, -, hf⟩ := Traced.unresolved_bind.mp hf
  · exact Traced.unresolved_lift_orUnresolved.mp hlink
  · exact absurd hf (not_unresolved_of_action fun a => by cases a <;> exact ⟨_, rfl⟩)

/-- A variant without a counterpart has no arm. -/
theorem not_unresolved_downArm (h : Head) (v : Field) : ¬(w.downArm h v).Unresolved := by
  unfold downArm
  dsimp only
  split
  · exact Traced.not_unresolved_of_ok rfl
  · exact not_unresolved_of_action fun a => by cases a <;> exact ⟨_, rfl⟩

/-- On the way up no variant is unresolved. -/
theorem not_unresolved_upArm (h : Head) (fromPrivate : Bool) (v : Field) :
    ¬(w.upArm h fromPrivate v).Unresolved := by
  unfold upArm
  dsimp only
  split
  · exact Traced.not_unresolved_of_ok rfl
  · exact not_unresolved_of_action fun a => by cases a <;> exact ⟨_, rfl⟩

/-- A oneof without a counterpart is left out on the way down. -/
theorem not_unresolved_downOneof (h : Head) (o : Oneof) : ¬(w.downOneof h o).Unresolved := by
  unfold downOneof
  dsimp only
  split
  · exact Traced.not_unresolved_of_ok rfl
  · intro ho
    obtain harms | ⟨parts, -, ho⟩ := Traced.unresolved_bind.mp ho
    · obtain ⟨v, -, hv⟩ := Traced.exists_unresolved_of_mapM harms
      exact not_unresolved_downArm h v hv
    · exact Traced.not_unresolved_of_ok rfl ho

/-- On the way up a oneof is unresolved if it has no counterpart. -/
theorem upOneof_unresolved {h : Head} {o : Oneof} (ho : (w.upOneof h o).Unresolved) :
    upLink (h.shape == .upFromPrivate || o.deprecated) o.link = none := by
  unfold upOneof at ho
  obtain hlink | ⟨source, -, ho⟩ := Traced.unresolved_bind.mp ho
  · exact Traced.unresolved_lift_orUnresolved.mp hlink
  · obtain harms | ⟨parts, -, ho⟩ := Traced.unresolved_bind.mp ho
    · obtain ⟨v, -, hv⟩ := Traced.exists_unresolved_of_mapM harms
      exact absurd hv (not_unresolved_upArm h _ v)
    · exact absurd ho (Traced.not_unresolved_of_ok rfl)

/-- What annotations say is refused for other reasons. -/
theorem isUnresolved_of_receivers {e source : EnumId} {error : ConversionError}
    (h : w.chain.receivers e source = .error error) : error.isUnresolved = false := by
  obtain hclaims | ⟨claims, -, h⟩ := bind_eq_error.mp h
  · -- the annotation of a value names something that is refused
    obtain ⟨v, -, claims, hv⟩ := foldlM_eq_error hclaims
    obtain ⟨name, -, claims, hname⟩ := foldlM_eq_error hv
    unfold Chain.addExplicit at hname
    split at hname
    · obtain rfl := Except.error.inj hname
      rfl
    · split at hname
      · cases hname
      · split at hname
        · cases hname
        · obtain rfl := Except.error.inj hname
          rfl
  · cases h

/-- An enum converter is unresolved if its enum has no counterpart on its side. -/
theorem enumConverter_unresolved {kind : ConverterKind} {id : EnumId}
    (h : (Traced.lift (w.enumConverter kind id)).Unresolved) :
    w.side kind (w.chain.enumeration id).link = none := by
  obtain ⟨e, he, hunresolved⟩ := h
  obtain hcounterpart | ⟨counterpart, -, he⟩ := bind_eq_error.mp he
  · exact Traced.unresolved_lift_orUnresolved.mp ⟨e, hcounterpart, hunresolved⟩
  · split at he
    · cases he
    · obtain hreceivers | ⟨table, -, he⟩ := bind_eq_error.mp he
      · rw [isUnresolved_of_receivers hreceivers] at hunresolved
        cases hunresolved
      · cases he

/-! ### Requests for what has counterparts -/

/-- The step for a plain field that is equipped, on the way that the converter leads. -/
theorem Equipped.not_unresolved_field {kind : ConverterKind} {id : MessageId}
    (h : w.Equipped kind id) {f : Field} (hf : f ∈ w.chain.plainFields id) :
    ¬((if w.shape kind == .down then w.downField (w.head kind id) else w.upField (w.head kind id))
      f).Unresolved := by
  intro hunresolved
  rw [shape_beq_down] at hunresolved
  cases hdown : kind.isDown with
  | true =>
    rw [hdown] at hunresolved
    obtain ⟨hlive, hnone⟩ := downField_unresolved hunresolved
    have hsome := h.downField hdown f hf hlive
    rw [show downLink kind f.link = none from hnone] at hsome
    cases hsome
  | false =>
    rw [hdown] at hunresolved
    have hsome := h.upField hdown f hf
    rw [show upLink (w.readsPrivate (w.shape kind) f) f.link = none from
      upField_unresolved hunresolved] at hsome
    cases hsome

/-- The step for a oneof that is equipped, on the way that the converter leads. -/
theorem Equipped.not_unresolved_oneof {kind : ConverterKind} {id : MessageId}
    (h : w.Equipped kind id) {o : Oneof} (ho : o ∈ (w.chain.message id).oneofs.map w.chain.oneof) :
    ¬((if w.shape kind == .down then w.downOneof (w.head kind id) else w.upOneof (w.head kind id))
      o).Unresolved := by
  intro hunresolved
  rw [shape_beq_down] at hunresolved
  cases hdown : kind.isDown with
  | true =>
    rw [hdown] at hunresolved
    exact not_unresolved_downOneof _ o hunresolved
  | false =>
    rw [hdown] at hunresolved
    have hsome := (h.upOneof hdown o ho).1
    rw [show upLink (w.shape kind == .upFromPrivate || o.deprecated) o.link = none from
      upOneof_unresolved hunresolved] at hsome
    cases hsome

/-- A message whose members are equipped has a converter, or it fails for another reason. -/
theorem Equipped.messageConverter {kind : ConverterKind} {id : MessageId} (h : w.Equipped kind id)
    (hside : (w.side kind (w.chain.message id).link).isSome) :
    ¬(w.messageConverter kind id).Unresolved := by
  intro hm
  unfold View.messageConverter at hm
  dsimp only at hm
  split at hm
  · obtain ⟨e, he, hunresolved⟩ := hm
    obtain rfl := Except.error.inj he
    cases hunresolved
  -- step by step: the counterpart, the plain fields, the oneofs
  · obtain hlink | ⟨counterpart, -, hm⟩ := Traced.unresolved_bind.mp hm
    · rw [Traced.unresolved_lift_orUnresolved.mp hlink] at hside
      cases hside
    · obtain hfields | ⟨fields, -, hm⟩ := Traced.unresolved_bind.mp hm
      · obtain ⟨f, hf, hunresolved⟩ := Traced.exists_unresolved_of_mapM hfields
        exact h.not_unresolved_field hf hunresolved
      · obtain honeofs | ⟨oneofs, -, hm⟩ := Traced.unresolved_bind.mp hm
        · obtain ⟨o, ho, hunresolved⟩ := Traced.exists_unresolved_of_mapM honeofs
          exact h.not_unresolved_oneof ho hunresolved
        · exact Traced.not_unresolved_of_ok rfl hm

/-- A request for a type with the counterpart that its converter works against. -/
def Resolvable (w : View) (r : Request) : Prop := (w.counterpart r.kind r.subject).isSome

/-- An action asks for nothing else. -/
theorem action_asks_resolvable (kind : ConverterKind) (field other checked : FieldId) :
    (w.action kind field other checked).Asks w.Resolvable := by
  unfold action
  dsimp only
  split
  · exact .pure _
  · exact .pure _
  · exact .pure _
  · split
    · exact .pure _
    · rename_i s _
      split
      · rename_i hexpected
        obtain ⟨hsome, hcounterpart⟩ := Bool.and_eq_true_iff.mp hexpected
        have hresolvable : w.Resolvable (w.request kind s) := by
          show (w.counterpart (w.request kind s).kind s).isSome = true
          rwa [eq_of_beq hcounterpart]
        exact .bind (.ask hresolvable) fun _ => .pure _
      · exact .fail _

/-- **Nothing else is asked for**, if nothing else is asked for directly. -/
theorem resolvable_of_asked {Root : Request → Prop} (hroot : ∀ r, Root r → w.Resolvable r)
    {r : Request} (hr : w.Asked Root r) : w.Resolvable r := by
  induction hr with
  | root h => exact hroot _ h
  | nested _ hq => exact converter_asks_of_action action_asks_resolvable _ _ hq

end View

/-! ### Specifications that do not fail so -/

namespace View

variable {w : View} {count : Nat}

/-- A message can be resolved if it has a counterpart on the side of the converter. -/
theorem resolvable_message {kind : ConverterKind} {id : MessageId} :
    w.Resolvable ⟨kind, .message id⟩ ↔ (w.side kind (w.chain.message id).link).isSome := by
  simp [Resolvable, counterpart]

/-- A converter that is asked for does not fail for want of a counterpart. -/
theorem not_unresolved_converter (h : w.chain.Linked count) {r : Request} (hr : w.Resolvable r) :
    ¬(w.converter r).Unresolved := by
  obtain ⟨kind, s⟩ := r
  intro hunresolved
  unfold converter at hunresolved
  cases s with
  | message id =>
    obtain hm | ⟨x, -, hx⟩ := Traced.unresolved_bind.mp hunresolved
    · exact (equipped h (resolvable_message.mp hr)).messageConverter (resolvable_message.mp hr) hm
    · exact Traced.not_unresolved_of_ok rfl hx
  | enumeration id =>
    obtain he | ⟨x, -, hx⟩ := Traced.unresolved_bind.mp hunresolved
    · have hnone := enumConverter_unresolved he
      simp [Resolvable, counterpart, hnone] at hr
    · exact Traced.not_unresolved_of_ok rfl hx

end View

/-! ### Versions of a built chain -/

namespace Chain

variable {c : Chain} {v : Version} {count : Nat}

/-- A method that does not correspond to its target is refused as such. -/
theorem checkTypes_ne_unresolved {w : View} {m target : Method} {route : Route}
    {entity function : String} :
    w.checkTypes m route target ≠ .error (.unresolved entity function) := by
  have hcheck : ∀ (role : Role) (found : Option MessageId) (expected : MessageId),
      w.checkCorrespondence m role found expected ≠ .error (.unresolved entity function) := by
    intro role found expected
    unfold View.checkCorrespondence
    split <;> simp
  intro herror
  obtain hinput | ⟨_, -, houtput⟩ := bind_eq_error.mp herror
  · exact hcheck _ _ _ hinput
  · exact hcheck _ _ _ houtput

/-- **Roots.** What a method asks for that corresponds to its target is resolvable. -/
theorem Corresponds.resolvable {m : MethodId} (h : c.Corresponds v m)
    (hversion : (c.method m).version = v.id) :
    ∀ r ∈ (c.viewOf v).requestsOf (c.method m), (c.viewOf v).Resolvable r := by
  obtain ⟨t, -, hcheck⟩ := h
  suffices hmessages : (c.viewOf v).Resolvable ((c.viewOf v).request
        ((c.viewOf v).way (c.method m)).down (.message (c.method m).input)) ∧
      (c.viewOf v).Resolvable ((c.viewOf v).request
        ((c.viewOf v).way (c.method m)).up (.message (c.method m).output)) by
    intro r hr
    simp only [View.requestsOf, List.mem_append, List.mem_singleton, List.mem_flatMap, or_assoc]
      at hr
    obtain rfl | rfl | ⟨x, -, hr⟩ := hr
    · exact hmessages.1
    · exact hmessages.2
    · exact View.action_asks_resolvable _ _ _ _ r hr
  have hlatest : (c.viewOf v).isLatest = (c.version (c.method m).version).isLatest := by
    rw [hversion]
    rfl
  cases hbypass : (c.method m).deprecated || (c.version (c.method m).version).isLatest with
  | true =>
    -- straight to the private version, and back from there alone
    rw [show (c.viewOf v).way (c.method m) = _ from if_pos hbypass] at hcheck ⊢
    obtain ⟨hinput, houtput⟩ := checkTypes_toPrivate hcheck
    refine ⟨View.resolvable_message.mpr (Option.isSome_iff_exists.mpr ⟨_, hinput⟩),
      View.resolvable_message.mpr ?_⟩
    have hfinal : (c.viewOf v).facesNext ((c.viewOf v).effective
        (if (c.method m).deprecated then .toDeprecatedPublic else .toPublic)
        (.message (c.method m).output)) = false := by
      cases hd : (c.method m).deprecated with
      | true => simp [View.effective, View.facesNext]
      | false =>
        rw [hd, Bool.false_or] at hbypass
        cases hdeprecated : (c.viewOf v).isDeprecated (.message (c.method m).output) <;>
          simp [View.effective, View.facesNext, hdeprecated, hlatest, hbypass]
    rw [View.side, hfinal]
    exact Option.isSome_iff_exists.mpr ⟨_, houtput⟩
  | false =>
    -- to the next version, but a deprecated response is held against the private one
    rw [show (c.viewOf v).way (c.method m) = _ from if_neg (Bool.eq_false_iff.mp hbypass)]
      at hcheck ⊢
    obtain ⟨hinput, houtput⟩ := checkTypes_toNext hcheck
    obtain ⟨-, hnotLatest⟩ := Bool.or_eq_false_iff.mp hbypass
    refine ⟨View.resolvable_message.mpr (Option.isSome_iff_exists.mpr ⟨_, hinput⟩), ?_⟩
    cases hdeprecated : (c.viewOf v).isDeprecated (.message (c.method m).output) with
    | true =>
      rw [View.request_toPublic_of_deprecated hdeprecated]
      rw [if_pos (show ((c.viewOf v).chain.message _).deprecated = true from hdeprecated)]
        at houtput
      exact View.resolvable_message.mpr (Option.isSome_iff_exists.mpr ⟨_, houtput⟩)
    | false =>
      rw [View.request_of_live hdeprecated]
      rw [if_neg (show ¬((c.viewOf v).chain.message _).deprecated = true from
        Bool.eq_false_iff.mp hdeprecated)] at houtput
      have hfaces : (c.viewOf v).facesNext .toPublic = true := by
        simp [View.facesNext, hlatest, hnotLatest]
      rw [View.resolvable_message, View.side, if_pos hfaces]
      exact Option.isSome_iff_exists.mpr ⟨_, houtput⟩

/-- A public method has the method that it goes to. -/
theorem Linked.way_target_isSome (h : c.Linked count) {m : MethodId} (hm : m.index < c.methods.size)
    (hpublic : (c.method m).version.index + 1 < count) :
    ((c.viewOf v).way (c.method m)).target.isSome := by
  have hcoherent := h.coherent (n := .method m) hm hpublic
  unfold View.way
  split
  · obtain ⟨p, hp, -⟩ := hcoherent.final
    simpa [links] using Option.isSome_iff_exists.mpr ⟨p, hp⟩
  · rename_i hbypass
    obtain ⟨hlive, hnotLatest⟩ := Bool.or_eq_false_iff.mp (Bool.eq_false_iff.mpr hbypass)
    have hnext := hcoherent.next_isSome.mpr ⟨hnotLatest, by simp [bypasses, isDeprecated, hlive]⟩
    simpa [links] using hnext

/-- A version of which every link that is needed is there. -/
structure Resolves (c : Chain) (v : Version) : Prop where
  /-- The conversions of the version do not fail for want of a counterpart. -/
  never : ∀ entity function, c.conversions v ≠ .error (.unresolved entity function)
  /-- Every method has the method that it goes to. -/
  methods : v.isPrivate = false → ∀ m ∈ v.methods, ((c.viewOf v).way (c.method m)).target.isSome
  /-- Every type that the checks let through has the counterpart that its converter
      works against. -/
  types : v.isPrivate = false → ∀ r, (c.viewOf v).Asked (c.Admits v) r →
    ((c.viewOf v).counterpart r.kind r.subject).isSome
  /-- The members of every such message have the counterparts that its converter needs. -/
  members : v.isPrivate = false → ∀ kind id, (c.viewOf v).Asked (c.Admits v) ⟨kind, .message id⟩ →
    (c.viewOf v).Equipped kind id

/-- What methods lead to that are let through is resolvable. -/
theorem Linked.resolvable (h : c.Linked count) {r : Request}
    (hr : (c.viewOf v).Asked (c.Admits v) r) (hv : c.version v.id = v) :
    (c.viewOf v).Resolvable r := by
  refine View.resolvable_of_asked (fun r hr => ?_) hr
  obtain ⟨m, hm, hcorresponds, hr⟩ := hr
  have hversion := ((h.framed.wellFormed.mem_methods v.id m).mp (by rwa [hv])).2
  exact hcorresponds.resolvable hversion r hr

/-- **No counterpart is missing.** In a chain as it is built, whatever a version lets through has
    the counterparts that its converters need, so that its conversions never fail for want
    of one. -/
theorem resolves_of_ofPackages {source : AnnotationSource} {privatePackage : String}
    {packages : List PackageSchema} (h : ofPackages source privatePackage packages = .ok c)
    (hv : v ∈ c.versions.toList) : c.Resolves v := by
  have hlinked := linked_of_ofPackages h
  have hwf := hlinked.framed.wellFormed
  have hversion : v.isPrivate = false → v.id.index + 1 < c.versions.size ∧ c.version v.id = v := by
    intro hpublic
    have hmem : v ∈ c.publicVersions := List.mem_filter.mpr ⟨hv, by simp [hpublic]⟩
    exact hlinked.framed.mem_publicVersions.mp hmem
  have hmethods : v.isPrivate = false → ∀ m ∈ v.methods,
      ((c.viewOf v).way (c.method m)).target.isSome := by
    intro hpublic m hm
    obtain ⟨hlast, hid⟩ := hversion hpublic
    obtain ⟨hlt, hown⟩ := (hwf.mem_methods v.id m).mp (by rwa [hid])
    exact hlinked.way_target_isSome hlt (by rwa [hown])
  have hresolvable : v.isPrivate = false → ∀ r, (c.viewOf v).Asked (c.Admits v) r →
      (c.viewOf v).Resolvable r :=
    fun hpublic r hr => hlinked.resolvable hr (hversion hpublic).2
  constructor
  case never =>
    intro entity function herror
    unfold conversions at herror
    split at herror
    · cases herror
    · rename_i hprivate
      have hpublic : v.isPrivate = false := Bool.eq_false_iff.mpr hprivate
      obtain ⟨m, hm, hfails⟩ := publicConversions_eq_error herror
      cases hfails with
      | astray hnone =>
        have hsome := hmethods hpublic m hm
        rw [hnone] at hsome
        cases hsome
      | mismatch hcheck => exact checkTypes_ne_unresolved hcheck
      | converter _ hfails =>
        obtain ⟨r, hr, hfails⟩ := hfails
        exact View.not_unresolved_converter hlinked (hresolvable hpublic r hr) ⟨_, hfails, rfl⟩
      | input _ _ hfails => exact View.not_unresolved_action _ _ _ _ ⟨_, hfails, rfl⟩
  case methods => exact hmethods
  case types => exact hresolvable
  case members =>
    exact fun hpublic kind id hr =>
      View.equipped hlinked (View.resolvable_message.mp (hresolvable hpublic _ hr))

/-- What is checked of the sample by evaluation. -/
theorem contactPlan_publicVersions : Plan.contactPlan.chain.publicVersions.isEmpty = false := by
  decide +kernel

/-- A version with a mail address that the next version does not have. -/
theorem resolves_contact : ∃ source privatePackage packages v,
    ofPackages source privatePackage packages = .ok Plan.contactPlan.chain ∧
      v ∈ Plan.contactPlan.chain.versions.toList ∧ v.isPrivate = false ∧
      Plan.contactPlan.chain.Resolves v := by
  obtain ⟨source, privatePackage, packages, hc⟩ :=
    Plan.ofPackages_of_generate Plan.generate_contactSet
  obtain ⟨v, hv⟩ := List.isEmpty_eq_false_iff_exists_mem.mp contactPlan_publicVersions
  obtain ⟨hmem, hpublic⟩ := List.mem_filter.mp hv
  exact ⟨_, _, _, v, hc, hmem, by simpa using hpublic, resolves_of_ofPackages hc hmem⟩

end Chain

end Lineage
