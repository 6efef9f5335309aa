import Lineage.Proofs.Service.Access
import Lineage.Proofs.Service.Down
import Lineage.Proofs.Service.Typing
import Lineage.Proofs.Sorted

namespace Lineage

/-!
# Values that come back

A value that is converted down and up again is the same value, unless something that must be
received is missing.

* `Service.Restores` — a result that is one value under a condition and a refusal of the argument
  otherwise; `Restores.bind`, `Restores.mapM`, `Restores.convertItems` — steps that restore, one
  after the other,
* `Service.Undoes` — a conversion down of a value that is undone by one up,
* `Service.UndoneBelow` — conversions of records that nest less deep than some depth are undone,
* `Service.exists_undoes` — then so are those of values that may hold such records.
-/

namespace Service

/-- Writing keeps the fields in order. -/
theorem Record.sorted_write {r : Record} (h : r.fields.Pairwise (·.1 < ·.1)) (ws : List Mutation) :
    (r.write ws).fields.Pairwise (·.1 < ·.1) := by
  induction ws generalizing r with
  | nil => exact h
  | cons x ws ih => exact ih (Sorted.pairwise_insert h x.1 x.2)

/-- What is found under the names of what is written, as writes. -/
theorem Record.mem_found {α : Type} {r : Record} {xs : List α} {target : α → String} {name : String}
    {v : Value} : (name, v) ∈ (xs.map fun a => (r.get? (target a)).map (target a, ·)).reduceOption ↔
      (∃ a ∈ xs, target a = name) ∧ r.get? name = some v := by
  rw [List.reduceOption_mem_iff, List.mem_map]
  constructor
  · rintro ⟨a, ha, hentry⟩
    obtain ⟨u, hu, hpair⟩ := Option.map_eq_some_iff.mp hentry
    obtain ⟨rfl, rfl⟩ := Prod.mk.inj hpair
    exact ⟨⟨a, ha, rfl⟩, hu⟩
  · rintro ⟨⟨a, ha, rfl⟩, hget⟩
    exact ⟨a, ha, by rw [hget]; rfl⟩

/-- All that a record holds, written into an empty one, is the record. -/
theorem Record.write_eq_self {r : Record} (h : r.fields.Pairwise (·.1 < ·.1)) {ws : List Mutation}
    (hmem : ∀ name v, (name, v) ∈ ws ↔ r.get? name = some v) :
    ({ message := r.message } : Record).write ws = r := by
  have hfields : (({ message := r.message } : Record).write ws).fields = r.fields := by
    refine Sorted.eq_of_get? (Record.sorted_write .nil ws) h fun name => ?_
    show (({ message := r.message } : Record).write ws).get? name = r.get? name
    obtain ⟨v, hv, hget⟩ | ⟨hno, hget⟩ := Record.get?_write { message := r.message } ws name
    · rw [hget, (hmem name v).mp hv]
    · rw [hget]
      cases hr : r.get? name with
      | none => rfl
      | some v => exact absurd rfl (hno _ ((hmem name v).mpr hr))
  exact congrArg₂ Record.mk (Record.write_message _ ws) hfields

/-! ### How deep values nest -/

/-- An item nests no deeper than its list. -/
theorem Value.depth_le_of_mem {v : Value} {items : List Value} (h : v ∈ items) :
    v.depth ≤ Value.depthOfItems items := by
  induction items with
  | nil => cases h
  | cons x rest ih =>
    rw [Value.depthOfItems]
    obtain rfl | h := List.mem_cons.mp h
    · exact le_max_left _ _
    · exact le_max_of_le_right (ih h)

/-- The value of a field nests no deeper than its record. -/
theorem Value.depth_le_of_mem_fields {e : String × Value} {fields : List (String × Value)}
    (h : e ∈ fields) : e.2.depth ≤ Value.depthOfFields fields := by
  induction fields with
  | nil => cases h
  | cons x rest ih =>
    rw [Value.depthOfFields]
    obtain rfl | h := List.mem_cons.mp h
    · exact le_max_left _ _
    · exact le_max_of_le_right (ih h)

/-- What a record holds nests no deeper than the record. -/
theorem Record.depth_le_of_get? {r : Record} {name : String} {v : Value}
    (h : r.get? name = some v) : v.depth ≤ r.depth :=
  Value.depth_le_of_mem_fields (Sorted.mem_of_get? h)

/-- What an entry sets a field to nests no deeper than the entry. -/
theorem depth_le_of_entry {c : Chain} {m : MessageId} {name : String} {v u : Value} {f : FieldId}
    (h : c.entry m name v = some (f, u)) : u.depth ≤ v.depth := by
  obtain ⟨-, -, -, rfl⟩ | ⟨_, -, -, -, rfl⟩ := Chain.entry_eq_some h
  · exact le_rfl
  · rw [Value.depth]
    exact Nat.le_succ _

/-! ### Results that restore -/

/-- A result is a value under a condition, and otherwise a refusal of the argument. -/
structure Restores {α : Type} (cond : Prop) (x : Except Status α) (a : α) : Prop where
  ok : cond → x = .ok a
  refused : ¬cond → ∃ e, x = .error e ∧ e.code = .invalidArgument

namespace Restores

variable {α β ι : Type} {cond cond' : Prop} {x : Except Status α} {a : α}

/-- A success restores under a condition that holds. -/
theorem of_ok (h : x = .ok a) (hcond : cond) : Restores cond x a :=
  ⟨fun _ => h, fun hnot => absurd hcond hnot⟩

/-- A restored result succeeds under its condition only. -/
theorem eq_ok_iff (h : Restores cond x a) : x = .ok a ↔ cond := by
  refine ⟨fun hx => ?_, h.ok⟩
  by_contra hnot
  obtain ⟨e, he, -⟩ := h.refused hnot
  cases hx.symm.trans he

/-- A condition can be stated in other words. -/
theorem of_iff (h : Restores cond x a) (hiff : cond ↔ cond') : Restores cond' x a :=
  ⟨fun hc => h.ok (hiff.mpr hc), fun hc => h.refused fun hcond => hc (hiff.mp hcond)⟩

/-- One step after the other. -/
theorem bind (h : Restores cond x a) {f : α → Except Status β} {b : β}
    (hf : Restores cond' (f a) b) : Restores (cond ∧ cond') (x >>= f) b := by
  constructor
  · rintro ⟨hc, hc'⟩
    exact bind_eq_ok.mpr ⟨a, h.ok hc, hf.ok hc'⟩
  · intro hnot
    -- the first step that is refused decides
    by_cases hc : cond
    · obtain ⟨e, he, hcode⟩ := hf.refused fun hc' => hnot ⟨hc, hc'⟩
      exact ⟨e, bind_eq_error.mpr (.inr ⟨a, h.ok hc, he⟩), hcode⟩
    · obtain ⟨e, he, hcode⟩ := h.refused hc
      exact ⟨e, bind_eq_error.mpr (.inl he), hcode⟩

/-- What is made of a restored result is restored. -/
theorem map (h : Restores cond x a) (f : α → β) : Restores cond (x.map f) (f a) := by
  constructor
  · intro hc
    rw [h.ok hc]
    rfl
  · intro hc
    obtain ⟨e, he, hcode⟩ := h.refused hc
    exact ⟨e, by rw [he]; rfl, hcode⟩

/-- A list of independent steps. -/
theorem mapM {xs : List ι} {f : ι → Except Status α} {g : ι → α} {conds : ι → Prop}
    (h : ∀ i ∈ xs, Restores (conds i) (f i) (g i)) :
    Restores (∀ i ∈ xs, conds i) (xs.mapM f) (xs.map g) := by
  induction xs with
  | nil => exact of_ok rfl (by simp)
  | cons i xs ih =>
    obtain ⟨hi, hxs⟩ := List.forall_mem_cons.mp h
    rw [List.mapM_cons, List.forall_mem_cons]
    have hlast :
        Restores True (pure (g i :: xs.map g) : Except Status (List α)) (g i :: xs.map g) :=
      of_ok rfl trivial
    exact (hi.bind ((ih hxs).bind hlast)).of_iff (by simp)

/-- A list of checks. -/
theorem forM {xs : List ι} {f : ι → Except Status Unit} {conds : ι → Prop}
    (h : ∀ i ∈ xs, Restores (conds i) (f i) ()) : Restores (∀ i ∈ xs, conds i) (xs.forM f) () := by
  induction xs with
  | nil => exact of_ok rfl (by simp)
  | cons i xs ih =>
    obtain ⟨hi, hxs⟩ := List.forall_mem_cons.mp h
    rw [List.forall_mem_cons]
    exact hi.bind (ih hxs)

/-- The items of a list, whatever private items there are besides. -/
theorem convertItems {f : Value → Option Value → Except Status Value} {conds : Value → Prop}
    {vs us : List Value}
    (h : List.Forall₂ (fun v u => ∀ besides, Restores (conds v) (f u besides) v) vs us)
    (privates : List Value) :
    Restores (∀ v ∈ vs, conds v) (Service.convertItems f us privates) vs := by
  induction h generalizing privates with
  | nil => exact of_ok rfl (by simp)
  | @cons v u vs us hv _ ih =>
    rw [List.forall_mem_cons]
    have hlast : Restores True (pure (v :: vs) : Except Status (List Value)) (v :: vs) :=
      of_ok rfl trivial
    exact ((hv _).bind ((ih privates.tail).bind hlast)).of_iff (by simp)

end Restores

/-! ### Values -/

/-- The conversion of a value down, with so much room to nest, yields another value, of which the
    conversion up restores the value under a condition. -/
structure Undoes (vp : VersionPlan) (room : Nat) (down up : Action) (cond : Prop) (v u : Value) :
    Prop where
  down : convertWithin vp room down v none = .ok u
  isEmpty : u.isEmpty = v.isEmpty
  up : ∀ k besides, u.depth < k → Restores cond (convertWithin vp k up u besides) v

variable {vp : VersionPlan}

/-- What is copied both times is the same. -/
theorem undoes_copy (room : Nat) {cond : Prop} (hcond : cond) (v : Value) :
    Undoes vp room .copy .copy cond v v :=
  ⟨convertWithin_copy _ _ _ _, rfl, fun _ _ _ => .of_ok (convertWithin_copy _ _ _ _) hcond⟩

/-- The items of a list down. -/
theorem convertItems_of_forall₂ {f : Value → Option Value → Except Status Value}
    {vs us : List Value} (h : List.Forall₂ (fun v u => f v none = .ok u) vs us) :
    convertItems f vs [] = .ok us := by
  induction h with
  | nil => rfl
  | cons hv _ ih =>
    exact bind_eq_ok.mpr ⟨_, hv, bind_eq_ok.mpr ⟨_, ih, rfl⟩⟩

/-- **Lists** are undone item by item. -/
theorem undoes_list {room : Nat} {down up : ConverterRef} {conds : Value → Prop}
    {vs us : List Value}
    (h : List.Forall₂ (fun v u => Undoes vp room (.convert down) (.convert up)
      (conds v) v u) vs us) :
    Undoes vp (room + 1) (.convert down) (.convert up) (∀ v ∈ vs, conds v) (.list vs)
      (.list us) := by
  constructor
  · rw [convertWithin_list]
    exact map_eq_ok.mpr ⟨us, convertItems_of_forall₂ (h.imp fun _ _ hv => hv.down), rfl⟩
  · cases h <;> rfl
  · intro k besides hk
    obtain ⟨k, rfl⟩ : ∃ j, k = j + 1 := ⟨k - 1, by omega⟩
    rw [convertWithin_list]
    have hdepth : ∀ u ∈ us, u.depth < k := fun u hu =>
      lt_of_le_of_lt (Value.depth_le_of_mem hu) (by rw [Value.depth] at hk; omega)
    have hitems : List.Forall₂ (fun v u => ∀ besides,
        Restores (conds v) (convertWithin vp k (.convert up) u besides) v) vs us :=
      List.forall₂_iff_get.mpr ⟨h.length_eq, fun i hi hi' besides =>
        (h.get hi hi').up k besides (hdepth _ (List.get_mem _ _))⟩
    exact (Restores.convertItems hitems _).map _

/-- The name of an enum value is converted by the converter that is found for it. -/
theorem convertWithin_enumeration {reference : ConverterRef} {x : EnumConverter}
    (hx : vp.converter? reference.function = some (.enumeration x)) {name target : String}
    (hname : convertName x name = .ok target) {k : Nat} {besides : Option Value} :
    convertWithin vp (k + 1) (.convert reference) (.enumeration name) besides
      = .ok (.enumeration target) := by
  show convertNamed vp _ reference.function _ besides = _
  unfold convertNamed
  rw [hx]
  dsimp only
  rw [hname]
  rfl

/-- A record is converted down by the converter that is found for it. -/
theorem convertWithin_record {reference : ConverterRef} {x : MessageConverter}
    (hx : vp.converter? reference.function = some (.message x)) (hshape : x.shape = .down) {k : Nat}
    {r p : Record} (hp : runDown (convertWithin vp k) x r = .ok p) {besides : Option Value} :
    convertWithin vp (k + 1) (.convert reference) r.toValue besides = .ok p.toValue := by
  show convertNamed vp _ reference.function r.toValue besides = _
  unfold convertNamed
  rw [hx]
  refine map_eq_ok.mpr ⟨p, ?_, rfl⟩
  rw [convertRecord, hshape]
  exact hp

/-! ### Records that nest less deep than others -/

/-- Records of messages of some sort that nest less deep than so are restored by any converter that
    leads up from what the converter to the private version makes of them. -/
def UndoneBelow (w : View) (vp : VersionPlan) (Root : Request → Prop) (Reached : MessageId → Prop)
    (room : Nat) : Prop :=
  ∀ {m : MessageId} {kind : ConverterKind} {r : Record} {down up : MessageConverter},
    Reached m → w.Asked Root ⟨.toPrivate, .message m⟩ → w.Asked Root ⟨kind, .message m⟩ →
    kind.isDown = false → (w.messageConverter .toPrivate m).result = .ok down →
    (w.messageConverter kind m).result = .ok up → w.chain.WellTyped m r → r.depth < room →
    ∃ p, runDown (convertWithin vp room) down r = .ok p ∧
      ∀ k, p.depth < k → Restores (w.chain.Everywhere w.chain.Received m r)
        (runUp (convertWithin vp k) up none p) r

section
variable {w : View} {Root : Request → Prop} {Reached : MessageId → Prop} {room : Nat}
  {kind : ConverterKind} {f s : FieldId} {down up : Action} {asked asked' : List Request}

/-- A value that is converted is a record of a message, or a value of an enum. -/
theorem fitsOne_of_nested {kind : ConverterKind} {t : Subject} {a : Action} {v : Value}
    (hfits : w.chain.fitsOne (w.chain.field f) v = true) {k : ConvertKind} {g : Field} {q : Subject}
    (hclass : classifyPair (w.chain.field f) g = .convert k) (hn : w.Nested kind f s q t a asked) :
    (∃ n name fields, (w.chain.field f).kind = .message ∧
      (w.chain.field f).typeRef = some (.message n) ∧ v = .message name fields) ∨
    ∃ e name x, (w.chain.field f).kind = .enumeration ∧
      (w.chain.field f).typeRef = some (.enumeration e) ∧ v = .enumeration name ∧
      w.chain.findValue e name = some x := by
  have htype := hn.type
  -- the cases of what fits: all but two of them contradict a nested conversion
  unfold Chain.fitsOne at hfits
  split at hfits
  · -- a scalar is never converted
    rename_i hkind
    unfold classifyPair at hclass
    rw [hkind] at hclass
    split at hclass
    · cases hclass
    · cases hg : g.kind <;> rw [hg] at hclass
      case scalar =>
        dsimp only at hclass
        split at hclass <;> cases hclass
      all_goals cases hclass
  · rename_i n _ _ hkind htype'
    exact .inl ⟨n, _, _, hkind, htype', rfl⟩
  · rename_i htype'
    rw [htype'] at htype
    cases htype
  · rename_i e name hkind htype'
    obtain ⟨x, hx⟩ := Option.isSome_iff_exists.mp hfits
    exact .inr ⟨e, name, x, hkind, htype', rfl, hx⟩
  · rename_i htype'
    rw [htype'] at htype
    cases htype
  · cases hfits

section
variable {count : Nat} (hprovides : vp.Provides w Root) (hlatest : w.isLatest)
  (hdown : w.Conveys .toPrivate f s s down asked) (hasked : ∀ q ∈ asked, w.Asked Root q)
  (hup : w.Conveys kind f s s up asked') (hasked' : ∀ q ∈ asked', w.Asked Root q)
  (hkind : kind.isDown = false)
include hprovides hlatest hdown hasked hup hasked' hkind

/-- A value of an enum comes back, if no two values of the enum have one private counterpart. -/
theorem undoes_enumeration (hlinked : w.chain.Linked count) (hunique : w.chain.UniqueValues)
    {e : EnumId} {name : String} {x : ValueId}
    (htype : (w.chain.field f).typeRef = some (.enumeration e))
    (hx : w.chain.findValue e name = some x)
    (hapart : ∀ y ∈ (w.chain.enumeration e).values,
      (w.chain.value y).link.final = (w.chain.value x).link.final → y = x)
    {k : ConvertKind}
    (hclass : classifyPair (w.chain.field f) (w.chain.field s) = .convert k) {cond : Prop}
    (hcond : cond) :
    ∃ u, Undoes vp (room + 1) down up cond (.enumeration name) u := by
  -- both conversions are those of the enum
  obtain ⟨y, _, reference, rfl, hy, hoky⟩ :=
    exists_nested_enumeration hprovides hasked hdown htype hclass
  obtain ⟨z, _, reference', rfl, hz, hokz⟩ :=
    exists_nested_enumeration hprovides hasked' hup htype hclass
  obtain ⟨rfl, hstands⟩ := Chain.stands_of_findValue hx
  have hupz : (w.request kind (.enumeration e)).kind.isDown = false := Chain.isDown_request hkind _
  obtain ⟨-, -, -, hside⟩ := View.enumConverter_eq_ok hoky
  have hpublic : (w.chain.enumeration e).version.index + 1 < count :=
    hlinked.public_of_leads (n := .enumeration e)
      (Chain.leads_links_enumeration (View.leads_of_side hside))
  obtain ⟨p, hp⟩ := hlinked.value_final hstands.mem hpublic
  -- a converter of the latest version that leads up works against the private one
  have hfinal : (w.chain.enumeration e).link.final = some z.counterpart := by
    obtain ⟨-, -, -, hside'⟩ := View.enumConverter_eq_ok hokz
    rwa [View.side, View.facesNext_of_isLatest hlatest hupz] at hside'
  have hcase := caseOf_down hoky rfl hstands hp
  have hcase' := caseOf_up hlinked hunique hokz hupz hfinal hstands.mem hp
    fun u hu hfinal => hapart u hu (hfinal.trans hp.symm)
  refine ⟨.enumeration (w.chain.value p).name,
    convertWithin_enumeration hy (convertName_of_case hcase), rfl, fun k besides hk => ?_⟩
  obtain ⟨k, rfl⟩ : ∃ j, k = j + 1 := ⟨k - 1, by omega⟩
  exact .of_ok (convertWithin_enumeration hz (convertName_of_case hcase')) hcond

/-- **A nested record** comes back if all records of its message that nest as deep do. -/
theorem undoes_message (hbelow : UndoneBelow w vp Root Reached room) {n : MessageId}
    (hreached : Reached n) (hfield : (w.chain.field f).kind = .message)
    (htype : (w.chain.field f).typeRef = some (.message n)) {r : Record}
    (htyped : w.chain.WellTyped n r) (hdepth : r.depth < room) :
    ∃ u, Undoes vp (room + 1) down up (w.chain.Everywhere w.chain.Received n r) r.toValue u := by
  obtain ⟨-, -, -, y, reference, rfl, hy, hnested, hoky⟩ :=
    exists_nested hprovides hasked hdown hfield htype
  obtain ⟨-, -, -, z, reference', rfl, hz, hnested', hokz⟩ :=
    exists_nested hprovides hasked' hup hfield htype
  have hup' : (w.request kind (.message n)).kind.isDown = false := Chain.isDown_request hkind _
  have hshape : y.shape = .down := (View.messageConverter_spec hoky).shape
  have hshape' : z.shape = .upFromPrivate :=
    (View.messageConverter_spec hokz).shape.trans (Chain.shape_of_isLatest hlatest hup')
  obtain ⟨p, hp, hrestores⟩ :=
    hbelow hreached hnested hnested' hup' hoky hokz htyped hdepth
  refine ⟨p.toValue, convertWithin_record hy hshape hp, rfl, fun k besides hk => ?_⟩
  obtain ⟨k, rfl⟩ : ∃ j, k = j + 1 := ⟨k - 1, by omega⟩
  have hlt : p.depth < k := Nat.lt_of_succ_lt_succ hk
  have hresult := (hrestores k hlt).map Record.toValue
  show Restores _ (convertNamed vp _ reference'.function p.toValue besides) _
  unfold convertNamed
  rw [hz]
  show Restores _ ((convertRecord _ z p besides).map Record.toValue) _
  rw [convertRecord, hshape']
  exact hresult

variable (hlinked : w.chain.Linked count) (hunique : w.chain.UniqueValues)
  (hbelow : ∀ j < room, UndoneBelow w vp Root Reached j)
  (hreached : ∀ n, (w.chain.field f).typeRef = some (.message n) → Reached n)
  (hapart : ∀ e, (w.chain.field f).typeRef = some (.enumeration e) →
    ∀ x ∈ (w.chain.enumeration e).values, ∀ y ∈ (w.chain.enumeration e).values,
      (w.chain.value x).link.final = (w.chain.value y).link.final → x = y)
include hlinked hunique hbelow hreached hapart

/-- A single value that is converted comes back. -/
theorem exists_undoes_one {k : ConvertKind} {q t : Subject}
    (hclass : classifyPair (w.chain.field f) (w.chain.field s) = .convert k)
    (hn : w.Nested .toPrivate f s q t down asked) {v : Value}
    (hfits : w.chain.fitsOne (w.chain.field f) v = true)
    (htyped : ∀ x ∈ Chain.recordsOf (w.chain.field f) v, w.chain.WellTyped x.1 x.2)
    (hdepth : v.depth < room) :
    ∃ u, Undoes vp room down up
      (∀ x ∈ Chain.recordsOf (w.chain.field f) v, w.chain.Everywhere w.chain.Received x.1 x.2)
      v u := by
  -- a nested conversion takes room for one level
  obtain ⟨room, rfl⟩ : ∃ j, room = j + 1 := ⟨room - 1, by omega⟩
  obtain ⟨n, name, fields, hfield, htype, rfl⟩ | ⟨e, name, x, hfield, htype, rfl, hx⟩ :=
    fitsOne_of_nested hfits hclass hn
  · have hrecords : Chain.recordsOf (w.chain.field f) (.message name fields)
        = [(n, ⟨name, fields⟩)] := Chain.recordsOf_message hfield htype _
    rw [hrecords] at htyped ⊢
    obtain ⟨u, hu⟩ := undoes_message (r := ⟨name, fields⟩) hprovides hlatest hdown hasked hup
      hasked' hkind (hbelow room (Nat.lt_succ_self _)) (hreached n htype) hfield htype
      (htyped _ List.mem_cons_self) (Nat.lt_of_succ_lt_succ hdepth)
    exact ⟨u, hu.down, hu.isEmpty, fun k besides hk => (hu.up k besides hk).of_iff (by simp)⟩
  · have hrecords : Chain.recordsOf (w.chain.field f) (.enumeration name) = [] := by
      unfold Chain.recordsOf
      rw [hfield]
    rw [hrecords]
    exact undoes_enumeration hprovides hlatest hdown hasked hup hasked' hkind hlinked hunique htype
      hx (fun y hy => hapart e htype y hy x (List.mem_of_find?_eq_some hx)) hclass (by simp)

/-- **Values of a field** come back, if the records in them do and the enum values in them have
    private counterparts of their own. -/
theorem exists_undoes {v : Value} (hfits : w.chain.fits (w.chain.field f) v = true)
    (htyped : ∀ x ∈ Chain.recordsOf (w.chain.field f) v, w.chain.WellTyped x.1 x.2)
    (hdepth : v.depth < room) :
    ∃ u, Undoes vp room down up
      (∀ x ∈ Chain.recordsOf (w.chain.field f) v, w.chain.Everywhere w.chain.Received x.1 x.2)
      v u := by
  obtain ⟨rfl, hcopy⟩ | ⟨k, q, t, hclass, hn⟩ := hdown.cases
  · -- what is copied on the way down is copied on the way up
    obtain ⟨rfl, -⟩ | ⟨k, _, _, hclass, -⟩ := hup.cases
    · exact ⟨v, undoes_copy room (by simp [Chain.recordsOf_of_copied hcopy]) v⟩
    · obtain hcopy | hshared := hcopy
      · cases hcopy.symm.trans hclass
      · cases hshared.symm.trans hclass
  · unfold Chain.fits at hfits
    split at hfits
    · rename_i items hrepeated
      obtain ⟨room, rfl⟩ : ∃ j, room = j + 1 := ⟨room - 1, by omega⟩
      have hitems := List.all_eq_true.mp hfits
      obtain ⟨reference, rfl⟩ : ∃ reference, down = .convert reference := ⟨_, hn.eq⟩
      obtain ⟨reference', rfl⟩ : ∃ reference, up = .convert reference := by
        obtain ⟨-, hcopy | hshared⟩ | ⟨_, _, _, -, hn'⟩ := hup.cases
        · cases hclass.symm.trans hcopy
        · cases hclass.symm.trans hshared
        · exact ⟨_, hn'.eq⟩
      have hrecords : Chain.recordsOf (w.chain.field f) (.list items)
          = items.flatMap (Chain.recordsOf (w.chain.field f)) :=
        Chain.recordsOf_list fun v hv => Chain.elements_of_fitsOne (hitems v hv)
      have hall : ∀ v ∈ items, ∃ u, Undoes vp room (.convert reference) (.convert reference')
          (∀ x ∈ Chain.recordsOf (w.chain.field f) v,
            w.chain.Everywhere w.chain.Received x.1 x.2) v u := by
        intro v hv
        refine exists_undoes_one hprovides hlatest hdown hasked hup hasked' hkind hlinked hunique
          (fun j hj => hbelow j (Nat.lt_succ_of_lt hj)) hreached hapart hclass hn (hitems v hv)
          (fun x hx => htyped x ?_) ?_
        · rw [hrecords]
          exact List.mem_flatMap.mpr ⟨v, hv, hx⟩
        · exact lt_of_le_of_lt (Value.depth_le_of_mem hv) (Nat.lt_of_succ_lt_succ hdepth)
      -- each item has its own condition, and the list has all of them
      obtain ⟨us, hus⟩ := exists_forall₂ hall
      obtain ⟨hok, hempty, hback⟩ := undoes_list hus
      refine ⟨.list us, hok, hempty, fun k besides hk => (hback k besides hk).of_iff ?_⟩
      rw [hrecords]
      simp only [List.mem_flatMap, forall_exists_index, and_imp]
      exact ⟨fun h x v hv hx => h v hv x hx, fun h v hv x hx => h x v hv hx⟩
    · cases hfits
    · exact exists_undoes_one hprovides hlatest hdown hasked hup hasked' hkind hlinked hunique
        hbelow hreached hapart hclass hn hfits htyped hdepth

end

end

end Service

end Lineage
