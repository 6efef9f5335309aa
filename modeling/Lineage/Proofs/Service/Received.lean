import Lineage.Proofs.Service.Origin
import Lineage.Proofs.Service.Up

namespace Lineage

/-!
# Members that must be received

Whether a conversion up delivers what it demands.  The demands are checked on the records that are
read, before anything is written.

* `View.Arrives` — a member is there where it is received from, `View.FieldArrives`,
  `View.OneofArrives` — what that means for plain fields and oneofs, `View.Missing` — a member must
  be received and is not there,
* `Service.exists_refused` — a conversion that misses something is refused, and names something that
  it misses,
* `Service.convertWithin_isEmpty` — what is not empty becomes something that is not empty; with
  that, `Service.isSet_of_runUp` — plain fields are delivered,
* `View.mappings_target` — every oneof has one mapping; with that, `Service.get?_oneof_up` — what is
  written for a oneof,
* `Service.Makes` — what arms make of a variant, `Service.DeliversOneof` — with that, what is
  delivered for a oneof,
* `Service.Delivers` — the law,
* `Service.delivers_of_generate` — it holds for every conversion up of a plan that is generated,
* `Service.not_delivers_client` — a oneof that must be received, and arrives, without being
  delivered.
-/

open Service

/-- The traversal of a list is refused if an element is, for the first one that is. -/
theorem forM_cases {ε α : Type} {f : α → Except ε Unit} (xs : List α) :
    xs.forM f = .ok () ∧ (∀ x ∈ xs, f x = .ok ()) ∨
      ∃ x ∈ xs, ∃ e, f x = .error e ∧ xs.forM f = .error e := by
  induction xs with
  | nil => exact .inl ⟨rfl, by simp⟩
  | cons x xs ih =>
    have hstep : (x :: xs).forM f = f x >>= fun _ => xs.forM f := rfl
    cases hx : f x with
    | error e => exact .inr ⟨x, List.mem_cons_self, e, hx, by rw [hstep, hx]; rfl⟩
    | ok u =>
      rw [hx] at hstep
      obtain ⟨hok, hall⟩ | ⟨y, hy, e, hye, herror⟩ := ih
      · exact .inl ⟨hstep.trans hok, List.forall_mem_cons.mpr ⟨hx, hall⟩⟩
      · exact .inr ⟨y, List.mem_cons_of_mem _ hy, e, hye, hstep.trans herror⟩

namespace View

/-! ### What must arrive -/

/-- The record that a member is received from on the way up. -/
def upRecord (fromPrivate : Bool) (next : Option Record) (final : Record) : Option Record :=
  if fromPrivate then some final else next

/-- The counterpart of a member is there, on the record that the member is received from. -/
def Arrives {Id : Type} (there : Record → Id → Bool) (fromPrivate : Bool) (l : Link Id)
    (next : Option Record) (final : Record) : Prop :=
  ∃ r s, upRecord fromPrivate next final = some r ∧ upLink fromPrivate l = some s ∧ there r s = true

/-- Whether a oneof is read from the private record on the way up. -/
def oneofReadsPrivate (shape : Shape) (o : Oneof) : Bool := shape == .upFromPrivate || o.deprecated

variable (w : View) (x : MessageConverter) (next : Option Record) (final : Record)

/-- The counterpart of a plain field is set, and not empty. -/
def FieldArrives (f : Field) : Prop :=
  Arrives (fun r s => r.isSet (w.chain.field s).name) (w.readsPrivate x.shape f) f.link next final

/-- Some variant of the counterpart of a oneof is set. -/
def OneofArrives (o : Oneof) : Prop :=
  Arrives (fun r s => (r.get? (w.chain.oneof s).name).isSome) (oneofReadsPrivate x.shape o) o.link
    next final

/-- A member must be received and does not arrive. -/
inductive Missing : String → Prop
  | field {f : Field} (hf : f ∈ w.chain.plainFields x.message) (hrequired : f.receiveRequired)
      (hmissing : ¬ w.FieldArrives x next final f) : Missing f.name
  | oneof {o : Oneof} (ho : o ∈ (w.chain.message x.message).oneofs.map w.chain.oneof)
      (hrequired : o.receiveRequired) (hmissing : ¬ w.OneofArrives x next final o) : Missing o.name

end View

namespace Service

variable {w : View} {x : MessageConverter} {convert : Convert} {next : Option Record}
  {final out : Record}

/-! ### What is checked -/

/-- What is picked is the record that a member is received from. -/
theorem pick_upSide {function : String} {fromPrivate : Bool} {r : Record} :
    pick function next final (View.upSide fromPrivate) = .ok r ↔
      View.upRecord fromPrivate next final = some r := by
  cases fromPrivate with
  | true => simp [pick, View.upSide, View.upRecord]
  | false => exact pick_ofNext

/-- A check of a member asks whether it arrives. -/
theorem checkReceived_cases {Id : Type} {there : Record → Id → Bool} {fromPrivate : Bool}
    {l : Link Id} {s : Id} (hs : View.upLink fromPrivate l = some s)
    (hgiven : fromPrivate = false → next.isSome) {q : RequiredCheck}
    (hside : q.side = View.upSide fromPrivate) (hthere : ∀ r, isReceived r q = there r s)
    (function : String) :
    checkReceived function next final q = .ok () ∧ View.Arrives there fromPrivate l next final ∨
      checkReceived function next final q = .error (.required q.publicName) ∧
        ¬ View.Arrives there fromPrivate l next final := by
  obtain ⟨r, hr⟩ : ∃ r, View.upRecord fromPrivate next final = some r := by
    cases fromPrivate with
    | true => exact ⟨final, rfl⟩
    | false => exact Option.isSome_iff_exists.mp (hgiven rfl)
  rw [checkReceived_eq (hside ▸ pick_upSide.mpr hr), hthere]
  cases hset : there r s with
  | true => exact .inl ⟨rfl, r, s, hr, hs, hset⟩
  | false =>
    refine .inr ⟨rfl, ?_⟩
    rintro ⟨r', s', hr', hs', hset'⟩
    obtain rfl := Option.some.inj (hr.symm.trans hr')
    obtain rfl := Option.some.inj (hs.symm.trans hs')
    cases hset.symm.trans hset'

section
variable (hok : (w.messageConverter x.kind x.message).result = .ok x) (hup : x.kind.isDown = false)
  (hnext : x.shape = .upFromNext → next.isSome)
include hok hup hnext

/-- What does not read the private record alone reads the next version's one. -/
theorem next_isSome (h : x.shape ≠ .upFromPrivate) : next.isSome := by
  refine hnext ?_
  rw [(View.messageConverter_spec hok).shape] at h ⊢
  exact (View.shape_of_up hup).resolve_right h

/-- The check of a field passes if the field arrives, and otherwise names it. -/
theorem checkReceived_field {f : Field} {q : RequiredCheck}
    (hq : w.ReceivesField (w.shape x.kind) f q) :
    checkReceived x.function next final q = .ok () ∧ w.FieldArrives x next final f ∨
      checkReceived x.function next final q = .error (.required f.name) ∧
        ¬ w.FieldArrives x next final f := by
  rw [← (View.messageConverter_spec hok).shape] at hq
  obtain ⟨s, hs, rfl⟩ := hq
  refine checkReceived_cases hs (fun hreads => ?_) rfl (fun _ => rfl) _
  refine next_isSome hok hup hnext fun hshape => ?_
  simp [View.readsPrivate, hshape] at hreads

/-- The check of a oneof passes if the oneof arrives, and otherwise names it. -/
theorem checkReceived_oneof {o : Oneof} {q : RequiredCheck}
    (hq : w.ReceivesOneof (w.shape x.kind) o q) :
    checkReceived x.function next final q = .ok () ∧ w.OneofArrives x next final o ∨
      checkReceived x.function next final q = .error (.required o.name) ∧
        ¬ w.OneofArrives x next final o := by
  rw [← (View.messageConverter_spec hok).shape] at hq
  obtain ⟨s, hs, rfl⟩ := hq
  refine checkReceived_cases hs (fun hreads => ?_) rfl (fun _ => rfl) _
  refine next_isSome hok hup hnext fun hshape => ?_
  simp [hshape] at hreads

/-- **Something that is missing.** A conversion up that misses a member is refused, and names one
    that it misses. -/
theorem exists_refused {name : String} (hmissing : w.Missing x next final name) :
    ∃ name', w.Missing x next final name' ∧
      runUp convert x next final = .error (.required name') := by
  have hparts := View.messageConverter_up hok hup
  obtain ⟨-, hall⟩ | ⟨q, hq, e, hcheck, hrefused⟩ :=
    forM_cases (f := checkReceived x.function next final) x.required
  · -- every member that must be received is checked
    exfalso
    cases hmissing with
    | field hf hrequired hmissing =>
      obtain ⟨q, hq, hreceives⟩ := hparts.checksField _ hf hrequired
      obtain ⟨-, harrives⟩ | ⟨herror, -⟩ := checkReceived_field hok hup hnext hreceives
      · exact hmissing harrives
      · cases (hall q hq).symm.trans herror
    | oneof ho hrequired hmissing =>
      obtain ⟨q, hq, hreceives⟩ := hparts.checksOneof _ ho hrequired
      obtain ⟨-, harrives⟩ | ⟨herror, -⟩ := checkReceived_oneof hok hup hnext hreceives
      · exact hmissing harrives
      · cases (hall q hq).symm.trans herror
  · -- the check that is not passed is that of such a member
    have hrun : runUp convert x next final = .error e := by
      unfold runUp
      rw [hrefused]
      rfl
    obtain ⟨f, hf, hrequired, hreceives⟩ | ⟨o, ho, hrequired, hreceives⟩ := hparts.checked q hq
    · obtain ⟨hpassed, -⟩ | ⟨herror, hmissing⟩ := checkReceived_field hok hup hnext hreceives
      · cases hpassed.symm.trans hcheck
      · obtain rfl := Except.error.inj (herror.symm.trans hcheck)
        exact ⟨f.name, .field hf hrequired hmissing, hrun⟩
    · obtain ⟨hpassed, -⟩ | ⟨herror, hmissing⟩ := checkReceived_oneof hok hup hnext hreceives
      · cases hpassed.symm.trans hcheck
      · obtain rfl := Except.error.inj (herror.symm.trans hcheck)
        exact ⟨o.name, .oneof ho hrequired hmissing, hrun⟩

/-- A conversion up that succeeds misses nothing. -/
theorem not_missing (hrun : runUp convert x next final = .ok out) (name : String) :
    ¬ w.Missing x next final name := by
  intro hmissing
  obtain ⟨name', -, hrefused⟩ :
      ∃ name', _ ∧ runUp convert x next final = .error (.required name') :=
    exists_refused hok hup hnext hmissing
  cases hrun.symm.trans hrefused

end

/-! ### Plain fields -/

/-- What a named converter makes is a record or a name, and never empty. -/
theorem convertNamed_isEmpty {vp : VersionPlan} {function : String} {v u : Value}
    {besides : Option Value} (h : convertNamed vp convert function v besides = .ok u) :
    u.isEmpty = false := by
  unfold convertNamed at h
  split at h
  · obtain ⟨_, -, rfl⟩ := map_eq_ok.mp h
    rfl
  · obtain ⟨_, -, rfl⟩ := map_eq_ok.mp h
    rfl
  · cases h
  · cases h

/-- What is not empty becomes something that is not empty. -/
theorem convertWithin_isEmpty {vp : VersionPlan} {n : Nat} {a : Action} {v u : Value}
    {besides : Option Value} (h : convertWithin vp n a v besides = .ok u) (hv : v.isEmpty = false) :
    u.isEmpty = false := by
  cases a with
  | copy =>
    rw [convertWithin_copy] at h
    exact Except.ok.inj h ▸ hv
  | convert reference =>
    cases n with
    | zero => cases h
    | succ n =>
      by_cases hlist : ∃ items, v = .list items
      · -- a list keeps its length
        obtain ⟨items, rfl⟩ := hlist
        rw [convertWithin_list] at h
        obtain ⟨us, hus, rfl⟩ := map_eq_ok.mp h
        obtain ⟨hnone, -⟩ | ⟨_, first, -, hfirst, -⟩ := convertItems_getElem? hus 0
        · cases items with
          | nil => cases hv
          | cons => cases hnone
        · cases us with
          | nil => cases hfirst
          | cons => rfl
      · have hnamed :
            convertNamed vp (convertWithin vp n) reference.function v besides = .ok u := by
          cases v <;> first | exact h | exact absurd ⟨_, rfl⟩ hlist
        exact convertNamed_isEmpty hnamed

/-- **Plain fields are delivered**: one that arrives, and is not unconverted, is set and
    not empty. -/
theorem isSet_of_runUp (hok : (w.messageConverter x.kind x.message).result = .ok x)
    (hup : x.kind.isDown = false) (hmembers : w.chain.UniqueMembers) {vp : VersionPlan} {n : Nat}
    (hrun : runUp (convertWithin vp n) x next final = .ok out) {f : Field}
    (hf : f ∈ w.chain.plainFields x.message) (hleft : f.name ∉ x.unconverted)
    (harrives : w.FieldArrives x next final f) : out.isSet f.name := by
  obtain ⟨i, hi, -, rfl⟩ := Chain.mem_plainFields.mp hf
  obtain ⟨_, -, -, hnot⟩ | ⟨a, ha, hassigns⟩ := (View.messageConverter_up hok hup).fields _ hf
  · exact absurd hnot hleft
  obtain ⟨source, hpick, hget⟩ := get?_up hmembers hok hup hrun hi ha hassigns
  obtain ⟨r, s, hr, hs, hset⟩ := harrives
  rw [(View.messageConverter_spec hok).shape] at hr hs
  -- the assignment reads what is checked
  obtain ⟨s', hs', hsource, -⟩ := hassigns.source
  obtain rfl := Option.some.inj (hs.symm.trans hs')
  rw [hassigns.side] at hpick
  obtain rfl := Option.some.inj (hr.symm.trans (pick_upSide.mp hpick))
  simp only [Record.isSet, ← hsource] at hset ⊢
  obtain ⟨hnone, -⟩ | ⟨v, u, hv, hu, hconvert⟩ := hget
  · rw [hnone] at hset
    cases hset
  · rw [hv, Option.any_some, Bool.not_eq_true'] at hset
    rw [hu, Option.any_some, convertWithin_isEmpty hconvert hset]
    rfl

end Service

/-! ### Oneofs -/

/-- Every oneof has one mapping, in the order of the oneofs. -/
theorem View.mappings_target {w : View} {kind : ConverterKind} {id : MessageId}
    {x : MessageConverter} (hok : (w.messageConverter kind id).result = .ok x)
    (hup : kind.isDown = false) :
    x.oneofs.map (·.target) = (w.chain.message id).oneofs.map fun o => (w.chain.oneof o).name := by
  obtain ⟨fields, oneofs, hparts⟩ := messageConverter_parts hok
  obtain ⟨-, heach, -⟩ := hparts.upward hup
  have htargets : ∀ {os : List Oneof} {parts : List OneofPart},
      List.Forall₂ (fun o part => (w.upOneof (w.head kind id) o).result = .ok part) os parts →
      (parts.filterMap (·.mapping)).map (·.target) = os.map (·.name) := by
    intro os parts hall
    induction hall with
    | nil => rfl
    | cons hpart _ ih =>
      obtain ⟨-, g, hg, hmaps⟩ := upOneof_cases hpart (List.Subset.refl _)
      rw [List.filterMap_cons_some hg, List.map_cons, List.map_cons, ih, hmaps.target]
  rw [hparts.mappings, htargets heach, List.map_map]
  rfl

namespace Service

variable {w : View} {x : MessageConverter} {convert : Convert} {next : Option Record}
  {final out : Record}

/-- The variant that the entry of a oneof sets. -/
def Value.variant? : Value → Option String
  | oneof variant _ => some variant
  | _ => none

/-- What a mapping makes of the entry of a oneof: the variant that an arm leads to, if there is an
    arm for the variant that is set. -/
inductive Makes (g : OneofMapping) (entry : Value) : Option Value → Prop
  | arm {a : VariantArm} (ha : a ∈ g.arms) (hvariant : entry.variant? = some a.source) (u : Value) :
    Makes g entry (some (.oneof a.target u))
  | nothing (hnone : ∀ a ∈ g.arms, entry.variant? ≠ some a.source) : Makes g entry none

/-- What a mapping writes on the way up. -/
theorem makes_of_mappedUp {function : String} {g : OneofMapping} {made : Option Mutation}
    {r : Record} {entry : Value} (h : mappedUp convert function next final g = .ok made)
    (hpick : pick function next final g.side = .ok r) (hget : r.get? g.source = some entry) :
    Makes g entry (made.map Prod.snd) := by
  obtain ⟨_, hpick', h⟩ := bind_eq_ok.mp h
  obtain rfl := Except.ok.inj (hpick.symm.trans hpick')
  cases hselect : selectArm g r with
  | none =>
    rw [hselect] at h
    obtain rfl := pure_eq_ok.mp h
    refine .nothing fun a ha hvariant => ?_
    -- an arm for the variant would have been selected
    cases entry with
    | oneof variant v =>
      obtain ⟨_, -, -, hselect'⟩ := selectArm_eq hget ha (Option.some.inj hvariant).symm
      cases hselect.symm.trans hselect'
    | _ => cases hvariant
  | some selected =>
    obtain ⟨a, v⟩ := selected
    obtain ⟨ha, hget'⟩ := selectArm_eq_some hselect
    obtain rfl := Option.some.inj (hget.symm.trans hget')
    rw [hselect] at h
    obtain ⟨u, -, h⟩ := bind_eq_ok.mp h
    obtain rfl := pure_eq_ok.mp h
    exact .arm ha rfl u

/-- **What a conversion up writes** under the name of a oneof is what its mapping writes. -/
theorem get?_oneof_up {kind : ConverterKind} {id : MessageId}
    (hok : (w.messageConverter kind id).result = .ok x) (hup : kind.isDown = false)
    (hmembers : w.chain.UniqueMembers) (hrun : runUp convert x next final = .ok out) {o : OneofId}
    (ho : o ∈ (w.chain.message id).oneofs) {g : OneofMapping} (hg : g ∈ x.oneofs)
    (htarget : g.target = (w.chain.oneof o).name) :
    ∃ made, mappedUp convert x.function next final g = .ok made ∧
      out.get? g.target = made.map Prod.snd := by
  have hmapped : ∃ made, mappedUp convert x.function next final g = .ok made := by
    rw [runUp_eq] at hrun
    obtain ⟨_, -, hrun⟩ := bind_eq_ok.mp hrun
    obtain ⟨_, -, hrun⟩ := bind_eq_ok.mp hrun
    obtain ⟨os, hos, -⟩ := bind_eq_ok.mp hrun
    obtain ⟨made, -, hmade⟩ := forall₂_exists_right (mapM_eq_ok.mp hos) hg
    exact ⟨made, hmade⟩
  have hnodup : (x.oneofs.map (·.target)).Nodup := by
    rw [View.mappings_target hok hup]
    exact (List.nodup_append.mp (hmembers.nodup id)).2.1
  obtain ⟨made, hmade⟩ := hmapped
  obtain ⟨ws, rfl, -, -, hws⟩ := runUp_eq_ok hrun
  -- what is written under the name is written by this mapping
  have howner : ∀ u, (g.target, u) ∈ ws → made = some (g.target, u) := by
    intro u hu
    obtain ⟨a, ha, hwrite⟩ | ⟨g', hg', hwrite⟩ := (hws _).mp hu
    · obtain ⟨_, hplain, hassigns⟩ := (View.messageConverter_up hok hup).assigned a ha
      obtain ⟨f, hf, -, rfl⟩ := Chain.mem_plainFields.mp hplain
      have hname := hassigns.target.symm.trans (assignedUp_target hwrite)
      exact absurd (hname.trans htarget) (hmembers.field_ne_oneof hf ho)
    · obtain rfl := List.inj_on_of_nodup_map hnodup hg' hg (mappedUp_target hwrite)
      exact Except.ok.inj (hmade.symm.trans hwrite)
  refine ⟨made, hmade, ?_⟩
  cases hcase : made with
  | none =>
    cases hout : (({ message := x.publicName } : Record).write ws).get? g.target with
    | none => rfl
    | some u => cases hcase.symm.trans (howner u (Record.mem_of_get?_write hout))
  | some y =>
    obtain ⟨name, u⟩ := y
    rw [hcase] at hmade
    obtain rfl : g.target = name := mappedUp_target hmade
    refine Record.get?_write_eq ((hws _).mpr (.inr ⟨g, hg, hmade⟩)) fun u' hu' => ?_
    exact (Prod.mk.inj (Option.some.inj ((howner u' hu').symm.trans hcase))).2

/-- What a conversion up delivers for a oneof, for an entry that sets some variant of the
    counterpart. -/
structure DeliversOneof (w : View) (x : MessageConverter) (o : Oneof) (entry : Value)
    (out : Record) : Prop where
  /-- It is set by the arm for the variant, if its mapping has one, and otherwise it is absent. -/
  made : ∃ g ∈ x.oneofs, g.target = o.name ∧ Makes g entry (out.get? o.name)
  /-- What it is set to is a variant whose counterpart is set. -/
  counterpart : ∀ variant u, out.get? o.name = some (.oneof variant u) →
    ∃ f ∈ o.fields.map w.chain.field, f.name = variant ∧
      ∃ s, View.upLink (View.oneofReadsPrivate x.shape o) f.link = some s ∧
        entry.variant? = some (w.chain.field s).name
  /-- It is set if the variant is the counterpart of one that is converted, and that is not
      deprecated unless the oneof is read from the private record. -/
  delivered : ∀ f ∈ o.fields.map w.chain.field, f.name ∉ x.unconverted →
    (View.oneofReadsPrivate x.shape o = false → f.deprecated = false) →
    ∀ s, View.upLink (View.oneofReadsPrivate x.shape o) f.link = some s →
      entry.variant? = some (w.chain.field s).name → (out.get? o.name).isSome

/-- What the mapping of a oneof makes is what is delivered for it. -/
theorem deliversOneof_of_makes {asked : List Request} {o : Oneof} {g : OneofMapping}
    (hg : g ∈ x.oneofs) (hshape : x.shape = w.shape x.kind)
    (hmaps : w.MapsUp (w.head x.kind x.message) asked x.unconverted o g) {entry : Value}
    (hmakes : Makes g entry (out.get? o.name)) : DeliversOneof w x o entry out := by
  refine ⟨⟨g, hg, hmaps.target, hmakes⟩, fun variant u hout => ?_,
    fun f hf hleft hlive s hs hvariant => ?_⟩
  · rw [hout] at hmakes
    cases hmakes with
    | arm ha hvariant =>
      obtain ⟨f, hf, harms⟩ := hmaps.armed _ ha
      obtain ⟨s, hs, hname, -⟩ := harms.source
      rw [hshape]
      exact ⟨f, hf, harms.target.symm, s, hs, hname ▸ hvariant⟩
  · rw [hshape] at hlive hs
    obtain (⟨hnext, hdeprecated⟩ | hnone) | hmem | ⟨a, ha, harms⟩ := hmaps.variants f hf
    · cases (hlive hnext).symm.trans hdeprecated
    · cases hnone.symm.trans hs
    · exact absurd hmem hleft
    · -- there is an arm for the variant, so that it is not left out
      obtain ⟨s', hs', hname, -⟩ := harms.source
      obtain rfl := Option.some.inj (hs.symm.trans hs')
      rw [Option.isSome_iff_ne_none]
      intro hout
      rw [hout] at hmakes
      cases hmakes with
      | nothing hnone => exact hnone a ha (hvariant.trans (congrArg some hname.symm))

/-- **Oneofs** that arrive are delivered as far as there are arms. -/
theorem deliversOneof_of_runUp (hok : (w.messageConverter x.kind x.message).result = .ok x)
    (hup : x.kind.isDown = false) (hmembers : w.chain.UniqueMembers)
    (hrun : runUp convert x next final = .ok out) {o : Oneof}
    (ho : o ∈ (w.chain.message x.message).oneofs.map w.chain.oneof)
    (harrives : w.OneofArrives x next final o) :
    ∃ r s entry, View.upRecord (View.oneofReadsPrivate x.shape o) next final = some r ∧
      View.upLink (View.oneofReadsPrivate x.shape o) o.link = some s ∧
      r.get? (w.chain.oneof s).name = some entry ∧ DeliversOneof w x o entry out := by
  have hshape := (View.messageConverter_spec hok).shape
  obtain ⟨i, hi, rfl⟩ := List.mem_map.mp ho
  obtain ⟨g, hg, hmaps⟩ := (View.messageConverter_up hok hup).oneofs _ ho
  obtain ⟨made, hmade, hout⟩ := get?_oneof_up hok hup hmembers hrun hi hg hmaps.target
  obtain ⟨r, s, hr, hs, hset⟩ := harrives
  obtain ⟨entry, hentry⟩ := Option.isSome_iff_exists.mp hset
  refine ⟨r, s, entry, hr, hs, hentry, deliversOneof_of_makes hg hshape hmaps ?_⟩
  -- the mapping reads what is checked
  rw [hshape] at hr hs
  obtain ⟨s', hs', hsource⟩ := hmaps.source
  obtain rfl := Option.some.inj (hs.symm.trans hs')
  rw [← hmaps.target, hout]
  exact makes_of_mappedUp hmade (hmaps.side ▸ pick_upSide.mpr hr) (hsource ▸ hentry)

/-! ### The law -/

/-- What a conversion up does about the members that must be received. -/
structure Delivers (w : View) (vp : VersionPlan) (function : String) (x : MessageConverter)
    (next : Option Record) (final : Record) : Prop where
  /-- If some of them is missing, there is no output, and the status names one that is. -/
  refused : ∀ name, w.Missing x next final name → ∃ name', w.Missing x next final name' ∧
    convertUp vp function next final = .error (.required name')
  /-- Plain fields are set, and not empty, unless they are unconverted. -/
  fields : w.chain.UniqueMembers → ∀ out, convertUp vp function next final = .ok out →
    ∀ f ∈ w.chain.plainFields x.message, f.receiveRequired → f.name ∉ x.unconverted →
      out.isSet f.name
  /-- Oneofs are set where they are received from, and delivered from there. -/
  oneofs : w.chain.UniqueMembers → ∀ out, convertUp vp function next final = .ok out →
    ∀ o ∈ (w.chain.message x.message).oneofs.map w.chain.oneof, o.receiveRequired →
      ∃ r s entry, View.upRecord (View.oneofReadsPrivate x.shape o) next final = some r ∧
        View.upLink (View.oneofReadsPrivate x.shape o) o.link = some s ∧
        r.get? (w.chain.oneof s).name = some entry ∧ DeliversOneof w x o entry out

/-- **Members that must be received.** In a plan that is generated, a conversion up for which some
    of them is missing is refused as an invalid argument.  One that succeeds has found them all; if
    the names of the members of each message are different, it has set the plain fields to what is
    not empty, and every oneof for whose variant it has an arm. -/
theorem delivers_of_generate {set : DescriptorSet} {config : Config} {plan : Plan}
    (h : Plan.generate set config = .ok plan) {vp : VersionPlan} (hvp : vp ∈ plan.versions)
    {function : String} (hx : vp.converter? function = some (.message x))
    (hup : x.kind.isDown = false) {next : Option Record}
    (hnext : x.shape = .upFromNext → next.isSome) (final : Record) :
    Delivers (plan.viewOf vp) vp function x next final := by
  obtain ⟨hok, -⟩ := ((Plan.generated_of_generate h).specifies hvp).message hx
  have hconvert := convertUp_eq hx hok hup next final
  constructor
  case refused =>
    intro name hmissing
    rw [hconvert]
    exact exists_refused hok hup hnext hmissing
  case fields =>
    intro hmembers out hrun f hf hrequired hleft
    rw [hconvert] at hrun
    refine isSet_of_runUp hok hup hmembers hrun hf hleft ?_
    by_contra hmissing
    exact not_missing hok hup hnext hrun _ (.field hf hrequired hmissing)
  case oneofs =>
    intro hmembers out hrun o ho hrequired
    rw [hconvert] at hrun
    refine deliversOneof_of_runUp hok hup hmembers hrun ho ?_
    by_contra hmissing
    exact not_missing hok hup hnext hrun _ (.oneof ho hrequired hmissing)

/-! ### Samples -/

/-- A package whose clients have some names, and a contact of some variants. -/
def clientFile (package : String) (names variants : List String) (locations : List Location) :
    FileDescriptor :=
  let client := package ++ ".Client"
  { name := package ++ ".proto"
    package
    messages := [
      { name := "Client"
        oneofs := if variants.isEmpty then [] else [{ name := "contact" }]
        fields := names.map (Plan.noteField · "TYPE_STRING") ++ variants.map fun v =>
          { Plan.noteField v "TYPE_STRING" with oneofIndex := some 0 } }]
    services := [{
      name := "Service"
      methods := [{ name := "Get", inputType := client, outputType := client }] }]
    locations }

/-- A client must have a name, which the second version does not have, and a contact, which is a
    mail address in the first version and may be a phone number in the others. -/
def clientSet : DescriptorSet :=
  { files := [
      clientFile "v1" ["name"] ["mail"] [
        { path := [4, 0, 2, 0],
          leading := some "gen:svc deprecated\ngen:svc receive required=true" },
        { path := [4, 0, 8, 0], leading := some "gen:svc receive required=true" }],
      clientFile "v2" [] ["mail", "phone"] [], clientFile "private" ["name"] ["mail", "phone"] []] }

/-- A client has two fields of one name, the first of which must be received. -/
def twinSet : DescriptorSet :=
  { files := [
      clientFile "v1" ["name", "name"] [] [
        { path := [4, 0, 2, 0],
          leading := some "gen:svc receive required=true\ngen:svc delegate name=first" },
        { path := [4, 0, 2, 1], leading := some "gen:svc delegate name=last" }],
      clientFile "private" ["first", "last"] [] []] }

/-- The plan of the clients. -/
def clientPlan : Plan := (Plan.generate clientSet {}).toOption.getD {}

/-- The plan of the clients with two fields of one name. -/
def twinPlan : Plan := (Plan.generate twinSet {}).toOption.getD {}

/-- A client of some version. -/
def clientRecord (package : String) (fields : List (String × Value)) : Record :=
  { message := package ++ ".Client", fields }

/-- A contact of some variant. -/
def contactEntry (variant : String) : String × Value := ("contact", .oneof variant (.str "x"))

/-- The conversion of a client up succeeds, and passes a check. -/
def convertsClient (next : Option Record) (final : Record)
    (check : MessageConverter → Record → Bool) (vp : VersionPlan) : Bool :=
  match vp.converter? "ToPublicClient", convertUp vp "ToPublicClient" next final with
  | some (.message x), .ok out => !x.kind.isDown && check x out
  | _, _ => false

/-- A conversion that passes a check is one of a version of the sample. -/
theorem exists_client {plan : Plan} {check : MessageConverter → Record → Bool}
    (h : plan.versions.any (convertsClient next final check) = true) :
    ∃ vp ∈ plan.versions, ∃ x out,
      vp.converter? "ToPublicClient" = some (.message x) ∧ x.kind.isDown = false ∧
        convertUp vp "ToPublicClient" next final = .ok out ∧ check x out = true := by
  obtain ⟨vp, hvp, hclient⟩ := List.any_eq_true.mp h
  unfold convertsClient at hclient
  split at hclient
  · rename_i x out hx hout
    obtain ⟨hup, hcheck⟩ := Bool.and_eq_true_iff.mp hclient
    exact ⟨vp, hvp, x, out, hx, by simpa using hup, hout, hcheck⟩
  · cases hclient

set_option maxRecDepth 10000 in
/-- What is checked of the samples by evaluation. -/
theorem clientPlan_checked : (Plan.generate clientSet {}).toOption.isSome = true ∧
    (Plan.generate twinSet {}).toOption.isSome = true ∧ clientPlan.chain.UniqueMembers ∧
    clientPlan.versions.any (convertsClient (some (clientRecord "v2" [contactEntry "mail"]))
      (clientRecord "private" [contactEntry "mail", ("name", .str "n")]) fun x out =>
        x.shape == .upFromNext && out.isSet "name" &&
          (out.get? "contact").bind Value.variant? == some "mail") = true ∧
    clientPlan.versions.any (convertsClient (some (clientRecord "v2" [contactEntry "phone"]))
      (clientRecord "private" [contactEntry "phone", ("name", .str "n")]) fun x out =>
        x.shape == .upFromNext && (clientPlan.chain.message x.message).oneofs.any fun o =>
          (clientPlan.chain.oneof o).receiveRequired &&
            (out.get? (clientPlan.chain.oneof o).name).isNone) = true ∧
    twinPlan.versions.any (convertsClient none
      (clientRecord "private" [("first", .str "f"), ("last", .str "")]) fun x out =>
        (twinPlan.chain.plainFields x.message).any fun f =>
          f.receiveRequired && !x.unconverted.contains f.name && !out.isSet f.name) = true := by
  decide +kernel

/-- A client with a name, which is read from the private record, and a mail address, which is read
    from the next version's one. -/
theorem delivers_client :
    Plan.generate clientSet {} = .ok clientPlan ∧ clientPlan.chain.UniqueMembers ∧
    ∃ vp ∈ clientPlan.versions, ∃ x out, vp.converter? "ToPublicClient" = some (.message x) ∧
      x.kind.isDown = false ∧ x.shape = .upFromNext ∧
      convertUp vp "ToPublicClient" (some (clientRecord "v2" [contactEntry "mail"]))
        (clientRecord "private" [contactEntry "mail", ("name", .str "n")]) = .ok out ∧
      out.isSet "name" ∧ (out.get? "contact").bind Value.variant? = some "mail" ∧
      Delivers (clientPlan.viewOf vp) vp "ToPublicClient" x
        (some (clientRecord "v2" [contactEntry "mail"]))
        (clientRecord "private" [contactEntry "mail", ("name", .str "n")]) := by
  obtain ⟨hsome, -, hmembers, hany, -⟩ := clientPlan_checked
  have hplan := Plan.eq_ok_of_isSome hsome
  obtain ⟨vp, hvp, x, out, hx, hup, hout, hcheck⟩ := exists_client hany
  simp only [Bool.and_eq_true, beq_iff_eq] at hcheck
  obtain ⟨⟨hshape, hset⟩, hvariant⟩ := hcheck
  exact ⟨hplan, hmembers, vp, hvp, x, out, hx, hup, hshape, hout, hset, hvariant,
    delivers_of_generate hplan hvp hx hup (fun _ => rfl) _⟩

/-- **A oneof that arrives need not be delivered**: a client whose contact is a phone number has
    none in the first version, which has no arm for that.  Nor need a plain field be, if another one
    has its name: the last one counts. -/
theorem not_delivers_client :
    (Plan.generate clientSet {} = .ok clientPlan ∧ clientPlan.chain.UniqueMembers ∧
      ∃ vp ∈ clientPlan.versions, ∃ x out, vp.converter? "ToPublicClient" = some (.message x) ∧
        x.kind.isDown = false ∧ x.shape = .upFromNext ∧
        convertUp vp "ToPublicClient" (some (clientRecord "v2" [contactEntry "phone"]))
          (clientRecord "private" [contactEntry "phone", ("name", .str "n")]) = .ok out ∧
        ∃ o ∈ (clientPlan.chain.message x.message).oneofs,
          (clientPlan.chain.oneof o).receiveRequired ∧
            out.get? (clientPlan.chain.oneof o).name = none) ∧
    Plan.generate twinSet {} = .ok twinPlan ∧
      ∃ vp ∈ twinPlan.versions, ∃ x out, vp.converter? "ToPublicClient" = some (.message x) ∧
        x.kind.isDown = false ∧
        convertUp vp "ToPublicClient" none
          (clientRecord "private" [("first", .str "f"), ("last", .str "")]) = .ok out ∧
        ∃ f ∈ twinPlan.chain.plainFields x.message, f.receiveRequired ∧ f.name ∉ x.unconverted ∧
          out.isSet f.name = false := by
  obtain ⟨hsome, hsome', hmembers, -, hany, hany'⟩ := clientPlan_checked
  obtain ⟨vp, hvp, x, out, hx, hup, hout, hcheck⟩ := exists_client hany
  obtain ⟨hshape, hlost⟩ := Bool.and_eq_true_iff.mp hcheck
  obtain ⟨o, ho, hrequired⟩ := List.any_eq_true.mp hlost
  obtain ⟨vp', hvp', x', out', hx', hup', hout', hcheck'⟩ := exists_client hany'
  obtain ⟨f, hf, hfield⟩ := List.any_eq_true.mp hcheck'
  simp only [Bool.and_eq_true, Option.isNone_iff_eq_none] at hrequired
  simp only [Bool.and_eq_true, Bool.not_eq_true', List.contains_eq_mem, decide_eq_false_iff_not]
    at hfield
  exact ⟨⟨Plan.eq_ok_of_isSome hsome, hmembers, vp, hvp, x, out, hx, hup, beq_iff_eq.mp hshape,
      hout, o, ho, hrequired⟩,
    Plan.eq_ok_of_isSome hsome', vp', hvp', x', out', hx', hup', hout', f, hf, hfield.1.1,
      hfield.1.2,
    hfield.2⟩

end Service

end Lineage
