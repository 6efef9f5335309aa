import Lineage.Converter.Specify
import Lineage.Proofs.Chain.Membership
import Lineage.Proofs.Outcome

namespace Lineage

/-!
# What a converter is made from

* `Traced.bind_result`, `Traced.mapM_result` — how a traced result is taken apart, and what it asks
  for,
* `View.Refers` — a nested conversion names a converter that is asked for, the one for the type of
  the field,
* `View.AssignmentFor`, `View.ArmFor`, `View.MappingFor`, `View.MessageFor` — the parts of a message
  converter and what they ask for,
* `View.messageConverter_spec`, `View.converter_spec` — what is specified is for the requested type,
* `Converter.references`, `View.mem_references` — it refers to what was asked for on the way.
-/

/-! ### Traced results -/

namespace Traced

variable {α β : Type}

@[simp] theorem pure_result (a : α) : (pure a : Traced α).result = .ok a := rfl

@[simp] theorem pure_requests (a : α) : (pure a : Traced α).requests = [] := rfl

@[simp] theorem lift_result (r : Except ConversionError α) : (lift r).result = r := rfl

@[simp] theorem lift_requests (r : Except ConversionError α) : (lift r).requests = [] := rfl

@[simp] theorem ask_result (r : Request) : (ask r).result = .ok () := rfl

@[simp] theorem ask_requests (r : Request) : (ask r).requests = [r] := rfl

@[simp] theorem fail_result (e : ConversionError) : (fail e : Traced α).result = .error e := rfl

/-- Traced computations are the same if their requests and results are. -/
theorem ext {x y : Traced α} (hq : x.requests = y.requests) (hr : x.result = y.result) : x = y := by
  cases x
  cases y
  simp_all

/-- A result of two steps. -/
theorem bind_result {x : Traced α} {f : α → Traced β} {b : β} :
    (x >>= f).result = .ok b ↔ ∃ a, x.result = .ok a ∧ (f a).result = .ok b := by
  simp only [bind]
  cases x.result with
  | error e => simp
  | ok a => simp

/-- What two steps ask for. -/
theorem bind_requests {x : Traced α} {f : α → Traced β} {a : α} (h : x.result = .ok a) :
    (x >>= f).requests = x.requests ++ (f a).requests := by
  simp [bind, h]

instance : LawfulMonad Traced := LawfulMonad.mk' Traced
  (fun x => by
    cases h : x.result <;> exact ext (by simp [Functor.map, h]) (by simp [Functor.map, h]))
  (fun a f => ext (by simp [bind]) (by simp [bind]))
  (fun x f g => by
    cases h : x.result with
    | error e => exact ext (by simp [bind, h]) (by simp [bind, h])
    | ok a =>
      cases h' : (f a).result <;> exact ext (by simp [bind, h, h']) (by simp [bind, h, h']))

/-- The results of a list of independent steps, and what they ask for. -/
theorem mapM_result {f : α → Traced β} {xs : List α} {ys : List β}
    (h : (xs.mapM f).result = .ok ys) :
    List.Forall₂ (fun x y => (f x).result = .ok y) xs ys ∧
      (xs.mapM f).requests = xs.flatMap fun x => (f x).requests := by
  induction xs generalizing ys with
  | nil =>
    rw [List.mapM_nil] at h ⊢
    obtain rfl := Except.ok.inj h
    exact ⟨.nil, rfl⟩
  | cons x xs ih =>
    rw [List.mapM_cons] at h ⊢
    obtain ⟨y, hy, h⟩ := bind_result.mp h
    obtain ⟨rest, hrest, h⟩ := bind_result.mp h
    obtain rfl := Except.ok.inj h
    obtain ⟨hall, hasked⟩ := ih hrest
    refine ⟨.cons hy hall, ?_⟩
    rw [bind_requests hy, bind_requests hrest, hasked, List.flatMap_cons, pure_requests,
      List.append_nil]

/-- What a step has made, if anything, with what it has asked for; nothing made, nothing asked. -/
def Yields {γ : Type} (made : Option γ) (Made : γ → List Request → Prop) (asked : List Request) :
    Prop :=
  (made = none ∧ asked = []) ∨ ∃ x, made = some x ∧ Made x asked

/-- What is yielded is made from what was asked for. -/
theorem Yields.of_some {γ : Type} {made : Option γ} {Made : γ → List Request → Prop}
    {asked : List Request} (h : Yields made Made asked) {x : γ} (hx : made = some x) :
    Made x asked := by
  obtain ⟨hnone, -⟩ | ⟨y, hy, hmade⟩ := h
  · cases hnone.symm.trans hx
  · obtain rfl := Option.some.inj (hy.symm.trans hx)
    exact hmade

/-- **What a list of steps makes.** Everything made is made by one of the steps, and everything
    asked for is asked for by a step that makes something. -/
theorem mapM_yields {γ : Type} {f : α → Traced β} {part : β → Option γ}
    {Made : α → γ → List Request → Prop} {xs : List α} {ys : List β}
    (h : (xs.mapM f).result = .ok ys)
    (hstep : ∀ x y, (f x).result = .ok y → Yields (part y) (Made x) (f x).requests) :
    (∀ z ∈ ys.filterMap part, ∃ x ∈ xs, ∃ asked ⊆ (xs.mapM f).requests, Made x z asked) ∧
      ∀ q ∈ (xs.mapM f).requests, ∃ x ∈ xs, ∃ z ∈ ys.filterMap part, ∃ asked, q ∈ asked ∧
        Made x z asked := by
  obtain ⟨hall, hasked⟩ := mapM_result h
  -- step by step: what the first step makes and asks for, and what the others do
  rw [hasked]
  clear h hasked
  induction hall with
  | nil => simp
  | @cons x y xs ys hy hall ih =>
    obtain ⟨ihMade, ihAsked⟩ := ih
    constructor
    · intro z hmem
      obtain ⟨y', hy', hz⟩ := List.mem_filterMap.mp hmem
      obtain rfl | hy' := List.mem_cons.mp hy'
      · exact ⟨x, by simp, _, by simp, (hstep x y' hy).of_some hz⟩
      · obtain ⟨x', hx', asked, hsub, hmade⟩ := ihMade z (List.mem_filterMap.mpr ⟨y', hy', hz⟩)
        exact ⟨x', List.mem_cons_of_mem _ hx', asked,
          fun q hq => List.mem_append_right _ (hsub hq), hmade⟩
    · intro q hq
      obtain hq | hq := List.mem_append.mp (List.flatMap_cons ▸ hq)
      · obtain ⟨-, hnone⟩ | ⟨z, hz, hmade⟩ := hstep x y hy
        · rw [hnone] at hq
          cases hq
        · exact ⟨x, by simp, z, List.mem_filterMap.mpr ⟨y, by simp, hz⟩, _, hq, hmade⟩
      · obtain ⟨x', hx', z, hz, asked, hq, hmade⟩ := ihAsked q hq
        obtain ⟨y', hy', hz⟩ := List.mem_filterMap.mp hz
        exact ⟨x', List.mem_cons_of_mem _ hx', z,
          List.mem_filterMap.mpr ⟨y', List.mem_cons_of_mem _ hy', hz⟩, asked, hq, hmade⟩

end Traced

/-- The type that a converter is for. -/
def Converter.subject : Converter → Subject
  | message m => .message m.message
  | enumeration e => .enumeration e.enumeration

/-- The request that a converter answers. -/
def Converter.request (x : Converter) : Request := ⟨x.kind, x.subject⟩

/-- The converter that an action refers to. -/
def Action.function? : Action → Option String
  | copy => none
  | convert r => some r.function

@[simp] theorem Action.function?_copy : Action.copy.function? = none := rfl

@[simp] theorem Action.function?_convert (r : ConverterRef) :
    (Action.convert r).function? = some r.function := rfl

/-- The converters that a converter refers to, one for each conversion, in their order. -/
def Converter.references : Converter → List String
  | message x => x.assignments.filterMap (·.action.function?)
      ++ x.oneofs.flatMap fun g => g.arms.filterMap (·.action.function?)
  | enumeration _ => []

/-- The name of the public variant that an arm is for. -/
def VariantArm.publicName (a : VariantArm) (kind : ConverterKind) : String :=
  if kind.isDown then a.source else a.target

namespace View

variable {w : View}

/-- The name of a requested converter. -/
def nameOf (w : View) (r : Request) : String := (w.reference r).function

/-! ### Nested conversions -/

/-- An action for a field, and what it asks for: the converter of the field's type that it names. -/
inductive Refers (w : View) (f : FieldId) : Action → List Request → Prop
  | copy : Refers w f .copy []
  | convert {s : Subject} (kind : ConverterKind)
      (h : subjectOf (w.chain.field f).typeRef = some s) :
      Refers w f (.convert (w.reference (w.request kind s))) [w.request kind s]

/-- Without an action nothing is asked for; an action refers to what was asked for. -/
theorem action_result {kind : ConverterKind} {f other checked : FieldId} {a : Option Action}
    (h : (w.action kind f other checked).result = .ok a) :
    (a = none ∧ (w.action kind f other checked).requests = []) ∨
      ∃ action, a = some action ∧ w.Refers f action (w.action kind f other checked).requests := by
  unfold action at h ⊢
  dsimp only at h ⊢
  -- copied, unconvertible, or converted by a converter that works against the other type
  split at h
  · obtain rfl := Except.ok.inj h
    exact .inr ⟨.copy, rfl, .copy⟩
  · obtain rfl := Except.ok.inj h
    exact .inr ⟨.copy, rfl, .copy⟩
  · obtain rfl := Except.ok.inj h
    exact .inl ⟨rfl, rfl⟩
  · split at h
    · obtain rfl := Except.ok.inj h
      exact .inl ⟨rfl, rfl⟩
    · rename_i s hs
      split at h
      · rename_i hexpected
        obtain rfl := Except.ok.inj h
        simp only [hexpected, if_true]
        exact .inr ⟨_, rfl, .convert kind hs⟩
      · cases h

/-- An action refers to what it asks for. -/
theorem Refers.function {f : FieldId} {a : Action} {asked : List Request}
    (h : w.Refers f a asked) : asked.map w.nameOf = a.function?.toList := by
  cases h <;> rfl

/-! ### Parts of message converters -/

/-- An assignment for a field, with what it asks for. -/
def AssignmentFor (w : View) (f : Field) (a : Assignment) (asked : List Request) : Prop :=
  a.field = f.id ∧ w.Refers f.id a.action asked

/-- A field on the way down yields its own assignment at most. -/
theorem downField_yields {h : Head} {f : Field} {part : FieldPart}
    (hok : (w.downField h f).result = .ok part) :
    Traced.Yields part.assignment (w.AssignmentFor f) (w.downField h f).requests := by
  unfold downField at hok ⊢
  split at hok
  · obtain rfl := Except.ok.inj hok
    rename_i hskip
    rw [if_pos hskip]
    exact .inl ⟨rfl, rfl⟩
  · rename_i hskip
    rw [if_neg hskip]
    obtain ⟨target, htarget, hok⟩ := Traced.bind_result.mp hok
    obtain ⟨action, haction, hok⟩ := Traced.bind_result.mp hok
    rw [Traced.bind_requests htarget, Traced.bind_requests haction]
    obtain ⟨rfl, hnone⟩ | ⟨action, rfl, hrefers⟩ := action_result haction
    · obtain rfl := Except.ok.inj hok
      exact .inl ⟨rfl, by simp [hnone]⟩
    · obtain rfl := Except.ok.inj hok
      exact .inr ⟨_, rfl, rfl, by simpa using hrefers⟩

/-- A field on the way up yields its own assignment at most. -/
theorem upField_yields {h : Head} {f : Field} {part : FieldPart}
    (hok : (w.upField h f).result = .ok part) :
    Traced.Yields part.assignment (w.AssignmentFor f) (w.upField h f).requests := by
  unfold upField at hok ⊢
  dsimp only at hok ⊢
  obtain ⟨source, hsource, hok⟩ := Traced.bind_result.mp hok
  obtain ⟨action, haction, hok⟩ := Traced.bind_result.mp hok
  rw [Traced.bind_requests hsource, Traced.bind_requests haction]
  obtain ⟨rfl, hnone⟩ | ⟨action, rfl, hrefers⟩ := action_result haction
  · obtain rfl := Except.ok.inj hok
    exact .inl ⟨rfl, by simp [hnone]⟩
  · obtain rfl := Except.ok.inj hok
    exact .inr ⟨_, rfl, rfl, by simpa using hrefers⟩

/-- An arm for a variant, with what it asks for. -/
def ArmFor (w : View) (kind : ConverterKind) (v : Field) (a : VariantArm)
    (asked : List Request) : Prop :=
  a.publicName kind = v.name ∧ w.Refers v.id a.action asked

/-- A variant on the way down yields its own arm at most. -/
theorem downArm_yields {h : Head} {v : Field} {part : ArmPart} (hdown : h.kind.isDown)
    (hok : (w.downArm h v).result = .ok part) :
    Traced.Yields part.arm? (w.ArmFor h.kind v) (w.downArm h v).requests := by
  unfold downArm at hok ⊢
  dsimp only at hok ⊢
  split at hok
  · obtain rfl := Except.ok.inj hok
    exact .inl ⟨rfl, rfl⟩
  · obtain ⟨action, haction, hok⟩ := Traced.bind_result.mp hok
    rw [Traced.bind_requests haction]
    obtain ⟨rfl, hnone⟩ | ⟨action, rfl, hrefers⟩ := action_result haction
    · obtain rfl := Except.ok.inj hok
      exact .inl ⟨rfl, by simp [hnone]⟩
    · obtain rfl := Except.ok.inj hok
      exact .inr ⟨_, rfl, by simp [VariantArm.publicName, hdown], by simpa using hrefers⟩

/-- A variant on the way up yields its own arm at most. -/
theorem upArm_yields {h : Head} {fromPrivate : Bool} {v : Field} {part : ArmPart}
    (hup : h.kind.isDown = false) (hok : (w.upArm h fromPrivate v).result = .ok part) :
    Traced.Yields part.arm? (w.ArmFor h.kind v) (w.upArm h fromPrivate v).requests := by
  unfold upArm at hok ⊢
  dsimp only at hok ⊢
  split at hok
  · obtain rfl := Except.ok.inj hok
    exact .inl ⟨rfl, rfl⟩
  · obtain ⟨action, haction, hok⟩ := Traced.bind_result.mp hok
    rw [Traced.bind_requests haction]
    obtain ⟨rfl, hnone⟩ | ⟨action, rfl, hrefers⟩ := action_result haction
    · obtain rfl := Except.ok.inj hok
      exact .inl ⟨rfl, by simp [hnone]⟩
    · obtain rfl := Except.ok.inj hok
      exact .inr ⟨_, rfl, by simp [VariantArm.publicName, hup], by simpa using hrefers⟩

/-- The mapping of a oneof, with what its arms ask for. -/
structure MappingFor (w : View) (kind : ConverterKind) (o : Oneof) (g : OneofMapping)
    (asked : List Request) : Prop where
  oneof : g.oneof = o.id
  arms : ∀ a ∈ g.arms, ∃ v ∈ o.fields.map w.chain.field, ∃ own ⊆ asked, w.ArmFor kind v a own
  asked : ∀ q ∈ asked, ∃ v ∈ o.fields.map w.chain.field, ∃ a ∈ g.arms, ∃ own, q ∈ own ∧
    w.ArmFor kind v a own

/-- A oneof on the way down yields its own mapping at most. -/
theorem downOneof_yields {h : Head} {o : Oneof} {part : OneofPart} (hdown : h.kind.isDown)
    (hok : (w.downOneof h o).result = .ok part) :
    Traced.Yields part.mapping (w.MappingFor h.kind o) (w.downOneof h o).requests := by
  unfold downOneof at hok ⊢
  dsimp only at hok ⊢
  split at hok
  · obtain rfl := Except.ok.inj hok
    exact .inl ⟨rfl, rfl⟩
  · obtain ⟨parts, hparts, hok⟩ := Traced.bind_result.mp hok
    rw [Traced.bind_requests hparts]
    obtain rfl := Except.ok.inj hok
    obtain ⟨harms, hasked⟩ := Traced.mapM_yields hparts fun v part => downArm_yields hdown
    refine .inr ⟨_, rfl, rfl, ?_, ?_⟩
    · simpa using harms
    · simpa using hasked

/-- A oneof on the way up yields its own mapping at most. -/
theorem upOneof_yields {h : Head} {o : Oneof} {part : OneofPart} (hup : h.kind.isDown = false)
    (hok : (w.upOneof h o).result = .ok part) :
    Traced.Yields part.mapping (w.MappingFor h.kind o) (w.upOneof h o).requests := by
  unfold upOneof at hok ⊢
  dsimp only at hok ⊢
  obtain ⟨source, hsource, hok⟩ := Traced.bind_result.mp hok
  obtain ⟨parts, hparts, hok⟩ := Traced.bind_result.mp hok
  rw [Traced.bind_requests hsource, Traced.bind_requests hparts]
  obtain rfl := Except.ok.inj hok
  obtain ⟨harms, hasked⟩ := Traced.mapM_yields hparts fun v part => upArm_yields hup
  refine .inr ⟨_, rfl, rfl, ?_, ?_⟩
  · simpa using harms
  · simpa using hasked

/-! ### Converters -/

@[simp] theorem shape_eq_down (w : View) (kind : ConverterKind) :
    w.shape kind = .down ↔ kind.isDown := by
  unfold shape
  cases kind.isDown <;> simp
  split <;> simp

/-- Which parts a converter is put together from depends on its kind alone. -/
theorem shape_beq_down (w : View) (kind : ConverterKind) :
    (w.shape kind == .down) = kind.isDown := by
  rw [Bool.eq_iff_iff, beq_iff_eq, shape_eq_down]

/-- The step for a plain field, on the way that the converter leads. -/
theorem field_yields {kind : ConverterKind} {h : Head} {f : Field} {part : FieldPart}
    (hok : ((if w.shape kind == .down then w.downField h else w.upField h) f).result = .ok part) :
    Traced.Yields part.assignment (w.AssignmentFor f)
      ((if w.shape kind == .down then w.downField h else w.upField h) f).requests := by
  rw [shape_beq_down] at hok ⊢
  cases hdown : kind.isDown with
  | true =>
    rw [hdown] at hok
    exact downField_yields hok
  | false =>
    rw [hdown] at hok
    exact upField_yields hok

/-- The step for a oneof, on the way that the converter leads. -/
theorem oneof_yields {kind : ConverterKind} {h : Head} {o : Oneof} {part : OneofPart}
    (hok : ((if w.shape kind == .down then w.downOneof h else w.upOneof h) o).result = .ok part)
    (hkind : h.kind = kind) :
    Traced.Yields part.mapping (w.MappingFor kind o)
      ((if w.shape kind == .down then w.downOneof h else w.upOneof h) o).requests := by
  subst hkind
  rw [shape_beq_down] at hok ⊢
  cases hdown : h.kind.isDown with
  | true =>
    rw [hdown] at hok
    exact downOneof_yields hdown hok
  | false =>
    rw [hdown] at hok
    exact upOneof_yields hdown hok

/-- A converter that reads the private record alone works against the private type. -/
theorem facesNext_of_upFromPrivate {kind : ConverterKind} (h : w.shape kind = .upFromPrivate) :
    ¬w.facesNext kind := by
  unfold shape at h
  split at h
  · cases h
  · split at h
    · cases h
    · assumption

/-- A converter that reads the next version's record works against its type. -/
theorem facesNext_of_upFromNext {kind : ConverterKind} (h : w.shape kind = .upFromNext) :
    w.facesNext kind := by
  unfold shape at h
  split at h
  · cases h
  · split at h
    · assumption
    · cases h

/-- The converter of a kind for a message, with what it asks for. -/
structure MessageFor (w : View) (k : ConverterKind) (id : MessageId) (x : MessageConverter)
    (asked : List Request) : Prop where
  message : x.message = id
  kind : x.kind = k
  function : x.function = k.functionName (w.chain.message id).localName
  shape : x.shape = w.shape k
  counterpart : w.side k (w.chain.message id).link = some x.counterpart
  privateMessage : x.privateMessage =
    if w.shape k = .upFromNext then (w.chain.message id).link.final else none
  assignments : ∀ a ∈ x.assignments, ∃ f ∈ w.chain.plainFields id, ∃ own ⊆ asked,
    w.AssignmentFor f a own
  oneofs : ∀ g ∈ x.oneofs, ∃ o ∈ (w.chain.message id).oneofs.map w.chain.oneof, ∃ own ⊆ asked,
    w.MappingFor k o g own
  asked : ∀ q ∈ asked,
    (∃ f ∈ w.chain.plainFields id, ∃ a ∈ x.assignments, ∃ own, q ∈ own ∧
      w.AssignmentFor f a own) ∨
    ∃ o ∈ (w.chain.message id).oneofs.map w.chain.oneof, ∃ g ∈ x.oneofs, ∃ own, q ∈ own ∧
      w.MappingFor k o g own

/-- A counterpart is resolved if it was found. -/
theorem orUnresolved_eq_ok {α : Type} {found : Option α} {entity function : String} {a : α} :
    orUnresolved found entity function = .ok a ↔ found = some a := by
  cases found <;> simp [orUnresolved]

/-- A message converter is that of its message, and asks for what it refers to. -/
theorem messageConverter_spec {kind : ConverterKind} {id : MessageId} {x : MessageConverter}
    (hok : (w.messageConverter kind id).result = .ok x) :
    w.MessageFor kind id x (w.messageConverter kind id).requests := by
  unfold messageConverter at hok ⊢
  dsimp only at hok ⊢
  split at hok
  · cases hok
  · rename_i hlive
    rw [if_neg hlive]
    obtain ⟨counterpart, hcounterpart, hok⟩ := Traced.bind_result.mp hok
    obtain ⟨fields, hfields, hok⟩ := Traced.bind_result.mp hok
    obtain ⟨oneofs, honeofs, hok⟩ := Traced.bind_result.mp hok
    rw [Traced.bind_requests hcounterpart, Traced.bind_requests hfields,
      Traced.bind_requests honeofs]
    obtain rfl := Except.ok.inj hok
    obtain ⟨hassigned, haskedFields⟩ := Traced.mapM_yields hfields fun _ _ => field_yields
    obtain ⟨hmapped, haskedOneofs⟩ := Traced.mapM_yields honeofs fun _ _ hok =>
      oneof_yields hok rfl
    -- what belongs to a member belongs to the message, which asks for what its members ask for
    constructor
    case counterpart => exact orUnresolved_eq_ok.mp hcounterpart
    case privateMessage => simp
    case assignments =>
      intro a ha
      obtain ⟨f, hf, own, hsub, hfor⟩ := hassigned a ha
      exact ⟨f, hf, own, fun q hq =>
        List.mem_append_right _ (List.mem_append_left _ (hsub hq)), hfor⟩
    case oneofs =>
      intro g hg
      obtain ⟨o, ho, own, hsub, hfor⟩ := hmapped g hg
      exact ⟨o, ho, own, fun q hq =>
        List.mem_append_right _ (List.mem_append_right _ (List.mem_append_left _ (hsub hq))), hfor⟩
    case asked =>
      intro q hq
      simp only [Traced.lift_requests, Traced.pure_requests, List.nil_append, List.append_nil,
        List.mem_append] at hq
      exact hq.imp (haskedFields q) (haskedOneofs q)
    all_goals rfl

/-- An enum converter is that of its enum, with the counterpart on its side. -/
theorem enumConverter_eq_ok {kind : ConverterKind} {id : EnumId} {e : EnumConverter}
    {table : Option ReceiveTable} (hok : w.enumConverter kind id = .ok (e, table)) :
    e.enumeration = id ∧ e.kind = kind ∧
      e.function = kind.functionName (w.chain.enumeration id).localName ∧
      w.side kind (w.chain.enumeration id).link = some e.counterpart := by
  unfold enumConverter at hok
  dsimp only at hok
  obtain ⟨counterpart, hcounterpart, hok⟩ := bind_eq_ok.mp hok
  rw [orUnresolved_eq_ok] at hcounterpart
  split at hok
  · obtain ⟨rfl, -⟩ := Prod.mk.inj (pure_eq_ok.mp hok)
    exact ⟨rfl, rfl, rfl, hcounterpart⟩
  · obtain ⟨receivers, -, hok⟩ := bind_eq_ok.mp hok
    obtain ⟨rfl, -⟩ := Prod.mk.inj (pure_eq_ok.mp hok)
    exact ⟨rfl, rfl, rfl, hcounterpart⟩

/-- The converter that a request asks for is a message converter only for a message. -/
theorem converter_message {r : Request} {x : MessageConverter} {table : Option ReceiveTable}
    (hok : (w.converter r).result = .ok (.message x, table)) :
    r.subject = .message x.message ∧
      w.MessageFor r.kind x.message x (w.converter r).requests := by
  obtain ⟨kind, s⟩ := r
  unfold converter at hok ⊢
  cases s with
  | message m =>
    obtain ⟨y, hy, hok⟩ := Traced.bind_result.mp hok
    obtain ⟨hconverter, -⟩ := Prod.mk.inj (Except.ok.inj hok)
    obtain rfl := Converter.message.inj hconverter
    have hspec := messageConverter_spec hy
    dsimp only
    rw [Traced.bind_requests hy, Traced.pure_requests, List.append_nil]
    exact ⟨by rw [hspec.message], by rwa [hspec.message]⟩
  | enumeration e =>
    obtain ⟨⟨y, t⟩, -, hok⟩ := Traced.bind_result.mp hok
    cases (Prod.mk.inj (Except.ok.inj hok)).1

/-- The converter of an enum asks for no other converter. -/
theorem converter_enumeration {r : Request} {x : EnumConverter} {table : Option ReceiveTable}
    (hok : (w.converter r).result = .ok (.enumeration x, table)) :
    (w.converter r).requests = [] := by
  obtain ⟨kind, s⟩ := r
  unfold converter at hok ⊢
  cases s with
  | message m =>
    obtain ⟨y, -, hok⟩ := Traced.bind_result.mp hok
    cases (Prod.mk.inj (Except.ok.inj hok)).1
  | enumeration e =>
    obtain ⟨y, hy, -⟩ := Traced.bind_result.mp hok
    dsimp only
    rw [Traced.bind_requests hy]
    rfl

/-- A message converter refers to what it asks for. -/
theorem MessageFor.mem_references {kind : ConverterKind} {id : MessageId} {x : MessageConverter}
    {asked : List Request} (h : w.MessageFor kind id x asked) {n : String} :
    n ∈ (Converter.message x).references ↔ n ∈ asked.map w.nameOf := by
  -- what is referred to is conveyed by a member, and a member asks for just what it refers to
  constructor
  · intro hn
    obtain hn | hn := List.mem_append.mp hn
    · obtain ⟨a, ha, hfunction⟩ := List.mem_filterMap.mp hn
      obtain ⟨f, -, own, hsub, -, hrefers⟩ := h.assignments a ha
      have hown : n ∈ own.map w.nameOf := by simp [hrefers.function, hfunction]
      exact List.map_subset _ hsub hown
    · obtain ⟨g, hg, hn⟩ := List.mem_flatMap.mp hn
      obtain ⟨a, ha, hfunction⟩ := List.mem_filterMap.mp hn
      obtain ⟨o, -, asked', hsub, hmapping⟩ := h.oneofs g hg
      obtain ⟨v, -, own, hsub', -, hrefers⟩ := hmapping.arms a ha
      have hown : n ∈ own.map w.nameOf := by simp [hrefers.function, hfunction]
      exact List.map_subset _ (List.Subset.trans hsub' hsub) hown
  · intro hn
    obtain ⟨q, hq, rfl⟩ := List.mem_map.mp hn
    obtain ⟨f, -, a, ha, own, hown, -, hrefers⟩ | ⟨o, -, g, hg, asked', hq', hmapping⟩ :=
      h.asked q hq
    · have hfunction : w.nameOf q ∈ a.action.function?.toList :=
        hrefers.function ▸ List.mem_map_of_mem hown
      exact List.mem_append_left _ (List.mem_filterMap.mpr ⟨a, ha, Option.mem_toList.mp hfunction⟩)
    · obtain ⟨v, -, a, ha, own, hown, -, hrefers⟩ := hmapping.asked q hq'
      have hfunction : w.nameOf q ∈ a.action.function?.toList :=
        hrefers.function ▸ List.mem_map_of_mem hown
      exact List.mem_append_right _ (List.mem_flatMap.mpr ⟨g, hg,
        List.mem_filterMap.mpr ⟨a, ha, Option.mem_toList.mp hfunction⟩⟩)

/-- **A converter refers to what was asked for while it was specified**, and to nothing else. -/
theorem mem_references {r : Request} {x : Converter} {table : Option ReceiveTable}
    (hok : (w.converter r).result = .ok (x, table)) {n : String} :
    n ∈ x.references ↔ n ∈ (w.converter r).requests.map w.nameOf := by
  cases x with
  | message x => exact (converter_message hok).2.mem_references
  | enumeration x => simp [Converter.references, converter_enumeration hok]

/-- The converter that a request asks for answers the request, under its name. -/
theorem converter_spec {r : Request} {x : Converter} {table : Option ReceiveTable}
    (hok : (w.converter r).result = .ok (x, table)) :
    r = x.request ∧ x.function = w.nameOf r := by
  cases x with
  | message x =>
    obtain ⟨hsubject, hspec⟩ := converter_message hok
    have hrequest : r = (Converter.message x).request := by
      rw [Converter.request, Converter.kind, Converter.subject, hspec.kind, ← hsubject]
    refine ⟨hrequest, ?_⟩
    rw [nameOf, reference, hsubject]
    exact hspec.function
  | enumeration x =>
    obtain ⟨kind, s⟩ := r
    unfold converter at hok
    cases s with
    | message m =>
      obtain ⟨y, -, hok⟩ := Traced.bind_result.mp hok
      cases (Prod.mk.inj (Except.ok.inj hok)).1
    | enumeration e =>
      obtain ⟨⟨y, t⟩, hy, hok⟩ := Traced.bind_result.mp hok
      obtain ⟨hconverter, -⟩ := Prod.mk.inj (Except.ok.inj hok)
      obtain rfl := Converter.enumeration.inj hconverter
      obtain ⟨rfl, rfl, hfunction, -⟩ := enumConverter_eq_ok hy
      exact ⟨rfl, hfunction⟩

/-- The converter for a message is a message converter. -/
theorem converter_of_message {kind : ConverterKind} {m : MessageId} {x : Converter}
    {table : Option ReceiveTable} (h : (w.converter ⟨kind, .message m⟩).result = .ok (x, table)) :
    ∃ y, x = .message y ∧ (w.messageConverter kind m).result = .ok y ∧
      (w.converter ⟨kind, .message m⟩).requests = (w.messageConverter kind m).requests := by
  unfold converter at h ⊢
  obtain ⟨y, hy, hok⟩ := Traced.bind_result.mp h
  obtain ⟨hconverter, -⟩ := Prod.mk.inj (Except.ok.inj hok)
  dsimp only
  rw [Traced.bind_requests hy, Traced.pure_requests, List.append_nil]
  exact ⟨y, hconverter.symm, hy, rfl⟩

/-- A converter of a message is the one of its kind for its message. -/
theorem messageConverter_of_converter {x : MessageConverter} {table : Option ReceiveTable}
    (h : (w.converter ⟨x.kind, .message x.message⟩).result = .ok (.message x, table)) :
    (w.messageConverter x.kind x.message).result = .ok x ∧
      (w.converter ⟨x.kind, .message x.message⟩).requests
        = (w.messageConverter x.kind x.message).requests := by
  obtain ⟨y, hy, hok, hrequests⟩ := converter_of_message h
  obtain rfl := Converter.message.inj hy
  exact ⟨hok, hrequests⟩

/-- The converter for an enum is an enum converter. -/
theorem converter_of_enumeration {kind : ConverterKind} {e : EnumId} {x : Converter}
    {table : Option ReceiveTable}
    (h : (w.converter ⟨kind, .enumeration e⟩).result = .ok (x, table)) :
    ∃ y, x = .enumeration y ∧ w.enumConverter kind e = .ok (y, table) := by
  unfold converter at h
  obtain ⟨⟨y, t⟩, hy, hok⟩ := Traced.bind_result.mp h
  obtain ⟨rfl, rfl⟩ := Prod.mk.inj (Except.ok.inj hok)
  exact ⟨y, rfl, hy⟩

end View

end Lineage
