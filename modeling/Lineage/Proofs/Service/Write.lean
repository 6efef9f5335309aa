import Lineage.Proofs.Outcome
import Lineage.Service.Call
import Mathlib.Data.List.ReduceOption

namespace Lineage.Service

/-!
# Conversions as lists of writes

A converter writes one value after the other into a record that is empty at first, and what it
writes does not depend on what is written already.

* `Record.write`, `Record.get?_write` — a record with a list of values written into it, the last of
  a name counts,
* `assignedDown`, `mappedDown`, `assignedUp`, `mappedUp` — what one assignment or mapping writes, if
  anything,
* `foldlM_write_append`, `written_eq_ok` — steps that collect what they write,
* `runDown_eq`, `runUp_eq` — a conversion collects its writes, then makes them.
-/

/-! ### Records with values written into them -/

/-- A record with some values written into it, one after the other. -/
def Record.write (r : Record) (ws : List Mutation) : Record :=
  ws.foldl (fun q x => q.set x.1 x.2) r

namespace Record

@[simp] theorem write_nil (r : Record) : r.write [] = r := rfl

@[simp] theorem write_cons (r : Record) (x : Mutation) (ws : List Mutation) :
    r.write (x :: ws) = (r.set x.1 x.2).write ws := rfl

/-- Writing some values and then others. -/
theorem write_append (r : Record) (ws ws' : List Mutation) :
    r.write (ws ++ ws') = (r.write ws).write ws' :=
  List.foldl_append

@[simp] theorem write_message (r : Record) (ws : List Mutation) :
    (r.write ws).message = r.message := by
  induction ws generalizing r with
  | nil => rfl
  | cons x ws ih => rw [write_cons, ih, set]

/-- **What is written** is one of the values written under a name, if there is any, and otherwise
    what was there before. -/
theorem get?_write (r : Record) (ws : List Mutation) (name : String) :
    (∃ v, (name, v) ∈ ws ∧ (r.write ws).get? name = some v) ∨
      (∀ x ∈ ws, x.1 ≠ name) ∧ (r.write ws).get? name = r.get? name := by
  induction ws generalizing r with
  | nil => exact .inr ⟨by simp, rfl⟩
  | cons x ws ih =>
    rw [write_cons]
    obtain ⟨v, hv, hget⟩ | ⟨hnone, hget⟩ := ih (r.set x.1 x.2)
    · exact .inl ⟨v, List.mem_cons_of_mem _ hv, hget⟩
    · rw [hget, get?_set]
      by_cases hname : name = x.1
      · exact .inl ⟨x.2, by simp [hname], if_pos hname⟩
      · exact .inr ⟨List.forall_mem_cons.mpr ⟨Ne.symm hname, hnone⟩, if_neg hname⟩

/-- A record without fields holds nothing. -/
theorem get?_empty (message name : String) : ({ message } : Record).get? name = none := rfl

/-- What an empty record holds after some writes has been written. -/
theorem mem_of_get?_write {message : String} {ws : List Mutation} {name : String} {v : Value}
    (h : (({ message } : Record).write ws).get? name = some v) : (name, v) ∈ ws := by
  obtain ⟨u, hu, hget⟩ | ⟨-, hget⟩ := get?_write { message } ws name
  · obtain rfl := Option.some.inj (h.symm.trans hget)
    exact hu
  · rw [h, get?_empty] at hget
    cases hget

/-- What all writes of a name write is there, if there is one. -/
theorem get?_write_eq {r : Record} {ws : List Mutation} {name : String} {v : Value}
    (hmem : (name, v) ∈ ws) (hall : ∀ u, (name, u) ∈ ws → u = v) :
    (r.write ws).get? name = some v := by
  obtain ⟨u, hu, hget⟩ | ⟨hnone, -⟩ := get?_write r ws name
  · rw [hget, hall u hu]
  · exact absurd rfl (hnone _ hmem)

/-- Something is there under every name that is written. -/
theorem isSome_of_mem_write {r : Record} {ws : List Mutation} {name : String} {v : Value}
    (hmem : (name, v) ∈ ws) : ((r.write ws).get? name).isSome := by
  obtain ⟨u, -, hget⟩ | ⟨hnone, -⟩ := get?_write r ws name
  · rw [hget]
    rfl
  · exact absurd rfl (hnone _ hmem)

end Record

/-- Steps that write independent of what is written already collect their writes, then make them. -/
theorem foldlM_write {α : Type} {write : α → Except Status (Option Mutation)}
    {step : Record → α → Except Status Record}
    (hstep : ∀ out a, step out a = (write a).map fun w => out.write w.toList)
    (xs : List α) (out : Record) :
    xs.foldlM step out = (xs.mapM write).map fun ws => out.write ws.reduceOption := by
  induction xs generalizing out with
  | nil => rfl
  | cons a xs ih =>
    rw [List.foldlM_cons, List.mapM_cons, hstep]
    cases write a with
    | error e => rfl
    | ok w =>
      change xs.foldlM step (out.write w.toList) = _
      rw [ih]
      change _ = Except.map _ (Except.bind (xs.mapM write) fun ws => .ok (w :: ws))
      cases xs.mapM write with
      | error e => rfl
      | ok ws => cases w <;> rfl

/-- What the steps of a list write. -/
theorem mem_reduceOption_of_mapM {α : Type} {f : α → Except Status (Option Mutation)} {xs : List α}
    {ws : List (Option Mutation)} (h : xs.mapM f = .ok ws) (x : Mutation) :
    x ∈ ws.reduceOption ↔ ∃ a ∈ xs, f a = .ok (some x) := by
  have hall := mapM_eq_ok.mp h
  rw [List.reduceOption_mem_iff]
  constructor
  · intro hx
    exact forall₂_exists_left hall hx
  · rintro ⟨a, ha, hfa⟩
    obtain ⟨w, hw, hfw⟩ := forall₂_exists_right hall ha
    rw [hfa] at hfw
    exact Except.ok.inj hfw ▸ hw

section

variable {α β : Type} {write : α → Except Status (Option Mutation)}
  {write' : β → Except Status (Option Mutation)} {xs : List α} {ys : List β}

/-- Two such lists of steps, one after the other, collect all their writes before they make them. -/
theorem foldlM_write_append {step : Record → α → Except Status Record}
    {step' : Record → β → Except Status Record}
    (hstep : ∀ out a, step out a = (write a).map fun w => out.write w.toList)
    (hstep' : ∀ out b, step' out b = (write' b).map fun w => out.write w.toList) (out : Record) :
    (do ys.foldlM step' (← xs.foldlM step out)) = do
      let ws ← xs.mapM write
      let os ← ys.mapM write'
      return out.write (ws.reduceOption ++ os.reduceOption) := by
  -- an error of either list is the error of the whole, so that only the order of the two counts
  rw [foldlM_write hstep]
  cases xs.mapM write with
  | error e => rfl
  | ok ws =>
    change ys.foldlM step' (out.write ws.reduceOption) = (ys.mapM write').bind _
    rw [foldlM_write hstep']
    cases ys.mapM write' with
    | error e => rfl
    | ok os => exact congrArg Except.ok (Record.write_append _ _ _).symm

/-- What two lists of steps have written, if all of them succeed. -/
theorem written_eq_ok {r out : Record}
    (h : (do
      let ws ← xs.mapM write
      let os ← ys.mapM write'
      return r.write (ws.reduceOption ++ os.reduceOption)) = Except.ok out) :
        ∃ ws, out = r.write ws ∧
      (∀ a ∈ xs, ∃ w, write a = .ok w) ∧ (∀ b ∈ ys, ∃ w, write' b = .ok w) ∧
      ∀ x, x ∈ ws ↔ (∃ a ∈ xs, write a = .ok (some x)) ∨ ∃ b ∈ ys, write' b = .ok (some x) := by
  obtain ⟨ws, hws, h⟩ := bind_eq_ok.mp h
  obtain ⟨os, hos, h⟩ := bind_eq_ok.mp h
  refine ⟨_, (pure_eq_ok.mp h).symm, fun a ha => ?_, fun b hb => ?_, fun x => ?_⟩
  · obtain ⟨w, -, hw⟩ := forall₂_exists_right (mapM_eq_ok.mp hws) ha
    exact ⟨w, hw⟩
  · obtain ⟨w, -, hw⟩ := forall₂_exists_right (mapM_eq_ok.mp hos) hb
    exact ⟨w, hw⟩
  · rw [List.mem_append, mem_reduceOption_of_mapM hws, mem_reduceOption_of_mapM hos]

end

/-! ### Conversions -/

/-- What an assignment writes on the way down, if the field is set. -/
def assignedDown (convert : Convert) (input : Record) (a : Assignment) :
    Except Status (Option Mutation) :=
  match input.get? a.source with
  | none => .ok none
  | some v => (convert a.action v none).map fun u => some (a.target, u)

/-- What a mapping writes on the way down, if a variant with an arm is set. -/
def mappedDown (convert : Convert) (input : Record) (o : OneofMapping) :
    Except Status (Option Mutation) :=
  match selectArm o input with
  | none => .ok none
  | some (a, v) => (convert a.action v none).map fun u => some (o.target, .oneof a.target u)

/-- The arm that is selected is for the variant that is set. -/
theorem selectArm_eq_some {o : OneofMapping} {r : Record} {a : VariantArm} {v : Value}
    (h : selectArm o r = some (a, v)) :
    a ∈ o.arms ∧ r.get? o.source = some (.oneof a.source v) := by
  unfold selectArm at h
  split at h
  · rename_i variant u hget
    obtain ⟨b, hb, heq⟩ := Option.map_eq_some_iff.mp h
    obtain ⟨rfl, rfl⟩ := Prod.mk.inj heq
    have hsource := List.find?_some hb
    refine ⟨List.mem_of_find?_eq_some hb, ?_⟩
    rw [hget, beq_iff_eq.mp hsource]
  · cases h

/-- What is assigned on the way down is the converted value of the source. -/
theorem assignedDown_eq_some {convert : Convert} {input : Record} {a : Assignment} {x : Mutation}
    (h : assignedDown convert input a = .ok (some x)) : ∃ v u, input.get? a.source = some v ∧
      convert a.action v none = .ok u ∧ x = (a.target, u) := by
  unfold assignedDown at h
  split at h
  · cases h
  · rename_i v hv
    obtain ⟨u, hu, hpair⟩ := map_eq_ok.mp h
    exact ⟨v, u, hv, hu, (Option.some.inj hpair).symm⟩

/-- What is mapped on the way down is written under the target. -/
theorem mappedDown_target {convert : Convert} {input : Record} {o : OneofMapping} {x : Mutation}
    (h : mappedDown convert input o = .ok (some x)) : o.target = x.1 := by
  unfold mappedDown at h
  split at h
  · cases h
  · obtain ⟨_, -, hpair⟩ := map_eq_ok.mp h
    exact congrArg Prod.fst (Option.some.inj hpair)

/-- Assigning on the way down writes what is assigned. -/
theorem assignDown_eq (convert : Convert) (input out : Record) (a : Assignment) :
    assignDown convert input out a = (assignedDown convert input a).map fun w =>
      out.write w.toList := by
  unfold assignDown assignedDown
  cases input.get? a.source with
  | none => rfl
  | some v =>
    dsimp only
    cases convert a.action v none <;> rfl

/-- Mapping on the way down writes what is mapped. -/
theorem mapDown_eq (convert : Convert) (input out : Record) (o : OneofMapping) :
    mapDown convert input out o = (mappedDown convert input o).map fun w => out.write w.toList := by
  unfold mapDown mappedDown
  cases selectArm o input with
  | none => rfl
  | some x =>
    dsimp only
    cases convert x.1.action x.2 none <;> rfl

/-- **The way down**: all writes are collected, then made. -/
theorem runDown_eq (convert : Convert) (m : MessageConverter) (input : Record) :
    runDown convert m input = do
      let ws ← m.assignments.mapM (assignedDown convert input)
      let os ← m.oneofs.mapM (mappedDown convert input)
      return ({ message := m.counterpartName } : Record).write
        (ws.reduceOption ++ os.reduceOption) :=
  foldlM_write_append (assignDown_eq convert input) (mapDown_eq convert input) _

/-- What a conversion down has written, if it succeeds. -/
theorem runDown_eq_ok {convert : Convert} {m : MessageConverter} {input out : Record}
    (h : runDown convert m input = .ok out) : ∃ ws,
      out = ({ message := m.counterpartName } : Record).write ws ∧
      (∀ a ∈ m.assignments, ∃ w, assignedDown convert input a = .ok w) ∧
      (∀ o ∈ m.oneofs, ∃ w, mappedDown convert input o = .ok w) ∧
      ∀ x, x ∈ ws ↔ (∃ a ∈ m.assignments, assignedDown convert input a = .ok (some x)) ∨
        ∃ o ∈ m.oneofs, mappedDown convert input o = .ok (some x) :=
  written_eq_ok (runDown_eq convert m input ▸ h)

/-- A value of the next version's record is read only where that record is given. -/
theorem pick_ofNext {function : String} {next : Option Record} {final source : Record} :
    pick function next final .ofNext = .ok source ↔ next = some source := by
  cases next <;> simp [pick]

/-- What an assignment writes on the way up, if the field is set. -/
def assignedUp (convert : Convert) (function : String) (next : Option Record) (final : Record)
    (a : Assignment) : Except Status (Option Mutation) := do
  let source ← pick function next final a.side
  match source.get? a.source with
  | none => return none
  | some v =>
    let besides := if a.side == .ofPrivate then some v else a.privateSource.bind final.get?
    return some (a.target, ← convert a.action v besides)

/-- What a mapping writes on the way up, if a variant with an arm is set. -/
def mappedUp (convert : Convert) (function : String) (next : Option Record) (final : Record)
    (o : OneofMapping) : Except Status (Option Mutation) := do
  let source ← pick function next final o.side
  match selectArm o source with
  | none => return none
  | some (a, v) =>
    let besides := if o.side == .ofPrivate then some v else privateVariant o a final
    return some (o.target, .oneof a.target (← convert a.action v besides))

/-- What is assigned on the way up is written under the target. -/
theorem assignedUp_target {convert : Convert} {function : String} {next : Option Record}
    {final : Record} {a : Assignment} {x : Mutation}
    (h : assignedUp convert function next final a = .ok (some x)) : a.target = x.1 := by
  obtain ⟨source, -, h⟩ := bind_eq_ok.mp h
  split at h
  · cases h
  · obtain ⟨u, -, hpair⟩ := bind_eq_ok.mp h
    exact congrArg Prod.fst (Option.some.inj (pure_eq_ok.mp hpair))

/-- What is mapped on the way up is written under the target. -/
theorem mappedUp_target {convert : Convert} {function : String} {next : Option Record}
    {final : Record} {o : OneofMapping} {x : Mutation}
    (h : mappedUp convert function next final o = .ok (some x)) : o.target = x.1 := by
  obtain ⟨source, -, h⟩ := bind_eq_ok.mp h
  split at h
  · cases h
  · obtain ⟨u, -, hpair⟩ := bind_eq_ok.mp h
    exact congrArg Prod.fst (Option.some.inj (pure_eq_ok.mp hpair))

/-- Assigning on the way up writes what is assigned. -/
theorem assignUp_eq (convert : Convert) (function : String) (next : Option Record)
    (final out : Record) (a : Assignment) : assignUp convert function next final out a
      = (assignedUp convert function next final a).map fun w => out.write w.toList := by
  unfold assignUp assignedUp
  cases pick function next final a.side with
  | error e => rfl
  | ok source =>
    change (match source.get? a.source with | none => _ | some v => _) = Except.map _ (match
      source.get? a.source with | none => _ | some v => _)
    cases source.get? a.source with
    | none => rfl
    | some v =>
      dsimp only
      cases convert a.action v _ <;> rfl

/-- Mapping on the way up writes what is mapped. -/
theorem mapUp_eq (convert : Convert) (function : String) (next : Option Record) (final out : Record)
    (o : OneofMapping) : mapUp convert function next final out o
      = (mappedUp convert function next final o).map fun w => out.write w.toList := by
  unfold mapUp mappedUp
  cases pick function next final o.side with
  | error e => rfl
  | ok source =>
    change (match selectArm o source with | none => _ | some (a, v) => _) = Except.map _ (match
      selectArm o source with | none => _ | some (a, v) => _)
    cases selectArm o source with
    | none => rfl
    | some x =>
      dsimp only
      cases convert x.1.action x.2 _ <;> rfl

/-- **The way up**: everything is checked, then all writes are collected, then made. -/
theorem runUp_eq (convert : Convert) (m : MessageConverter) (next : Option Record)
    (final : Record) :
    runUp convert m next final = do
      m.required.forM (checkReceived m.function next final)
      let ws ← m.assignments.mapM (assignedUp convert m.function next final)
      let os ← m.oneofs.mapM (mappedUp convert m.function next final)
      return ({ message := m.publicName } : Record).write (ws.reduceOption ++ os.reduceOption) := by
  -- the checks come first in both, and write nothing
  unfold runUp
  congr 1
  funext _
  exact foldlM_write_append (assignUp_eq convert m.function next final)
    (mapUp_eq convert m.function next final) _

/-- What a conversion up has written, if it succeeds. -/
theorem runUp_eq_ok {convert : Convert} {m : MessageConverter} {next : Option Record}
    {final out : Record} (h : runUp convert m next final = .ok out) : ∃ ws,
      out = ({ message := m.publicName } : Record).write ws ∧
      (∀ a ∈ m.assignments, ∃ w, assignedUp convert m.function next final a = .ok w) ∧
      (∀ o ∈ m.oneofs, ∃ w, mappedUp convert m.function next final o = .ok w) ∧
      ∀ x, x ∈ ws ↔
        (∃ a ∈ m.assignments, assignedUp convert m.function next final a = .ok (some x)) ∨
        ∃ o ∈ m.oneofs, mappedUp convert m.function next final o = .ok (some x) := by
  rw [runUp_eq] at h
  obtain ⟨_, -, h⟩ := bind_eq_ok.mp h
  exact written_eq_ok h

end Lineage.Service
