import Lineage.Proofs.Service.Access

namespace Lineage.Service

/-!
# Conversions that are recorded

The nested message converters that run in the course of a conversion, with what each of them is run
on.

* `Call`, `Logged` — one run of a nested converter, and a result with the calls that were made until
  it was there,
* `Logged.bind_result`, `Logged.mem_calls_bind`, `Logged.foldlM_result`, `Logged.mem_calls_foldlM` —
  steps one after the other,
* `runUpLogged`, `runDownLogged`, `convertWithinLogged`, `convertUpLogged` — the conversions,
  recorded; the outermost converter is not a nested one,
* `convertWithinLogged_result`, `convertUpLogged_result` — recording changes no result,
* `exists_read_of_mem_runUp` — a call comes from an assignment or a mapping,
  `exists_call_of_mem_convertWithin` — of a converter that is found under the name in the action, or
  from inside such a call.
-/

/-- A nested message converter that is run on a record, with the private value that belongs
    to it. -/
structure Call where
  converter : MessageConverter
  input : Record
  besides : Option Value

/-- A result, and the calls that were made until it was there; calls count even if the result is a
    failure. -/
structure Logged (α : Type) where
  calls : List Call
  result : Except Status α

namespace Logged

variable {α β σ : Type}

instance : Monad Logged where
  pure a := ⟨[], .ok a⟩
  bind x f :=
    match x.result with
    | .ok a => ⟨x.calls ++ (f a).calls, (f a).result⟩
    | .error e => ⟨x.calls, .error e⟩

/-- A result without calls. -/
def lift (r : Except Status α) : Logged α := ⟨[], r⟩

/-- Record a call. -/
def call (c : Call) : Logged Unit := ⟨[c], .ok ()⟩

@[simp] theorem pure_calls (a : α) : (pure a : Logged α).calls = [] := rfl

@[simp] theorem lift_calls (r : Except Status α) : (lift r).calls = [] := rfl

@[simp] theorem call_calls (c : Call) : (call c).calls = [c] := rfl

@[simp] theorem pure_result (a : α) : (pure a : Logged α).result = .ok a := rfl

@[simp] theorem lift_result (r : Except Status α) : (lift r).result = r := rfl

@[simp] theorem call_result (c : Call) : (call c).result = .ok () := rfl

/-- The result of two steps is that of the two results. -/
@[simp] theorem bind_result (x : Logged α) (f : α → Logged β) :
    (x >>= f).result = x.result >>= fun a => (f a).result := by
  simp only [bind]
  cases x.result with
  | error e => rfl
  | ok a => rfl

/-- A call of two steps is one of the first or one of the second. -/
theorem mem_calls_bind {x : Logged α} {f : α → Logged β} {c : Call} (h : c ∈ (x >>= f).calls) :
    c ∈ x.calls ∨ ∃ a, x.result = .ok a ∧ c ∈ (f a).calls := by
  simp only [bind] at h
  cases hx : x.result with
  | error e =>
    rw [hx] at h
    exact .inl h
  | ok a =>
    rw [hx] at h
    obtain h | h := List.mem_append.mp h
    · exact .inl h
    · exact .inr ⟨a, rfl, h⟩

/-- A logged loop has the result of the loop. -/
theorem foldlM_result (f : σ → α → Logged σ) (s : σ) (xs : List α) :
    (xs.foldlM f s).result = xs.foldlM (fun s x => (f s x).result) s := by
  induction xs generalizing s with
  | nil => rfl
  | cons x xs ih =>
    simp only [List.foldlM_cons, bind_result]
    congr 1
    exact funext fun s' => ih s'

/-- A call of a list of steps is one of some step. -/
theorem mem_calls_foldlM {f : σ → α → Logged σ} {s : σ} {xs : List α} {c : Call}
    (h : c ∈ (xs.foldlM f s).calls) : ∃ x ∈ xs, ∃ s, c ∈ (f s x).calls := by
  induction xs generalizing s with
  | nil => cases h
  | cons x xs ih =>
    rw [List.foldlM_cons] at h
    obtain h | ⟨s', -, h⟩ := mem_calls_bind h
    · exact ⟨x, List.mem_cons_self, s, h⟩
    · obtain ⟨y, hy, s'', hc⟩ := ih h
      exact ⟨y, List.mem_cons_of_mem _ hy, s'', hc⟩

end Logged

/-! ### Recorded conversions -/

/-- Converts a value by an action and records the calls that it takes. -/
abbrev LoggedConvert := Action → Value → Option Value → Logged Value

/-- The conversion without the record. -/
def LoggedConvert.erase (convert : LoggedConvert) : Convert :=
  fun action v besides => (convert action v besides).result

/-- A plain field on the way down. -/
def assignDownLogged (convert : LoggedConvert) (input output : Record) (a : Assignment) :
    Logged Record :=
  match input.get? a.source with
  | none => return output
  | some v => do return output.set a.target (← convert a.action v none)

/-- A oneof on the way down. -/
def mapDownLogged (convert : LoggedConvert) (input output : Record) (o : OneofMapping) :
    Logged Record :=
  match selectArm o input with
  | none => return output
  | some (a, v) => do return output.set o.target (.oneof a.target (← convert a.action v none))

/-- A public record made into its counterpart. -/
def runDownLogged (convert : LoggedConvert) (m : MessageConverter) (input : Record) :
    Logged Record := do
  let output ← m.assignments.foldlM (assignDownLogged convert input)
    { message := m.counterpartName }
  m.oneofs.foldlM (mapDownLogged convert input) output

/-- A plain field on the way up. -/
def assignUpLogged (convert : LoggedConvert) (function : String) (next : Option Record)
    (final output : Record) (a : Assignment) : Logged Record := do
  let source ← .lift (pick function next final a.side)
  match source.get? a.source with
  | none => return output
  | some v =>
    let besides := if a.side == .ofPrivate then some v else a.privateSource.bind final.get?
    return output.set a.target (← convert a.action v besides)

/-- A oneof on the way up. -/
def mapUpLogged (convert : LoggedConvert) (function : String) (next : Option Record)
    (final output : Record) (o : OneofMapping) : Logged Record := do
  let source ← .lift (pick function next final o.side)
  match selectArm o source with
  | none => return output
  | some (a, v) =>
    let besides := if o.side == .ofPrivate then some v else privateVariant o a final
    return output.set o.target (.oneof a.target (← convert a.action v besides))

/-- A public record made from the next version's record and the private one. -/
def runUpLogged (convert : LoggedConvert) (m : MessageConverter) (next : Option Record)
    (final : Record) : Logged Record := do
  Logged.lift (m.required.forM (checkReceived m.function next final))
  let output ← m.assignments.foldlM (assignUpLogged convert m.function next final)
    { message := m.publicName }
  m.oneofs.foldlM (mapUpLogged convert m.function next final) output

/-- A nested record converted. -/
def convertRecordLogged (convert : LoggedConvert) (m : MessageConverter) (r : Record)
    (besides : Option Value) : Logged Record :=
  match m.shape with
  | .down => runDownLogged convert m r
  | .upFromPrivate => runUpLogged convert m none r
  | .upFromNext => runUpLogged convert m (some r) ((besides.bind Value.record?).getD {})

/-- A named converter of a version applied to a value; a message converter is recorded with the
    record that it is run on. -/
def convertNamedLogged (plan : VersionPlan) (convert : LoggedConvert) (function : String)
    (v : Value) (besides : Option Value) : Logged Value :=
  match plan.converter? function, v with
  | some (.enumeration e), .enumeration name => .lift ((convertName e name).map .enumeration)
  | some (.message m), .message name fields => do
    Logged.call ⟨m, ⟨name, fields⟩, besides⟩
    return (← convertRecordLogged convert m ⟨name, fields⟩ besides).toValue
  | some _, v => .lift (.error (mismatch function v))
  | none, _ => .lift (.error (internal (plan.package ++ " has no converter " ++ function)))

/-- The items of a list, each converted with the private item at its position. -/
def convertItemsLogged (convert : Value → Option Value → Logged Value) :
    List Value → List Value → Logged (List Value)
  | [], _ => return []
  | v :: rest, privates => do
    let first ← convert v privates.head?
    return first :: (← convertItemsLogged convert rest privates.tail)

/-- Converts values that nest at most so deep. -/
def convertWithinLogged (plan : VersionPlan) : Nat → LoggedConvert
  | _, .copy, v, _ => return v
  | 0, .convert r, v, _ => .lift (.error (mismatch r.function v))
  | n + 1, .convert r, v, besides =>
    match v with
    | .list items => do
      return .list (← convertItemsLogged (convertWithinLogged plan n (.convert r)) items
        (privateItems besides))
    | v => convertNamedLogged plan (convertWithinLogged plan n) r.function v besides

/-- A public record made by the converter of a name from the next version's record, if it reads one,
    and the private record, with the nested converters that are run. -/
def convertUpLogged (plan : VersionPlan) (function : String) (next : Option Record)
    (final : Record) : Logged Record := do
  let m ← .lift (messageConverter? plan function)
  if m.shape == .down then .lift (.error (internal (function ++ " is not an up converter")))
  else
    let depth := max ((next.map Record.depth).getD 0) final.depth
    runUpLogged (convertWithinLogged plan (depth + 1)) m next final

/-! ### Recording changes no result -/

/-- A map in steps. -/
theorem map_eq_bind {ε α β : Type} (f : α → β) (x : Except ε α) :
    (do return f (← x)) = x.map f := by
  cases x <;> rfl

section
variable (convert : LoggedConvert)

/-- A logged conversion down has the result of the conversion. -/
theorem runDownLogged_result (m : MessageConverter) (input : Record) :
    (runDownLogged convert m input).result = runDown convert.erase m input := by
  have hassign : (fun s a => (assignDownLogged convert input s a).result)
      = assignDown convert.erase input := by
    funext output a
    unfold assignDownLogged assignDown
    cases input.get? a.source with
    | none => rfl
    | some v => exact Logged.bind_result _ _
  have hmap : (fun s o => (mapDownLogged convert input s o).result)
      = mapDown convert.erase input := by
    funext output o
    unfold mapDownLogged mapDown
    cases selectArm o input with
    | none => rfl
    | some e => exact Logged.bind_result _ _
  simp only [runDownLogged, runDown, Logged.bind_result, Logged.foldlM_result, hassign, hmap]

/-- A logged conversion up has the result of the conversion. -/
theorem runUpLogged_result (m : MessageConverter) (next : Option Record) (final : Record) :
    (runUpLogged convert m next final).result = runUp convert.erase m next final := by
  -- the recorded steps have the results of the plain ones, so both runs fold the same steps
  have hassign : (fun s a => (assignUpLogged convert m.function next final s a).result)
      = assignUp convert.erase m.function next final := by
    funext output a
    unfold assignUpLogged assignUp
    rw [Logged.bind_result, Logged.lift_result]
    congr 1
    funext source
    cases source.get? a.source with
    | none => rfl
    | some v => exact Logged.bind_result _ _
  have hmap : (fun s o => (mapUpLogged convert m.function next final s o).result)
      = mapUp convert.erase m.function next final := by
    funext output o
    unfold mapUpLogged mapUp
    rw [Logged.bind_result, Logged.lift_result]
    congr 1
    funext source
    cases selectArm o source with
    | none => rfl
    | some e => exact Logged.bind_result _ _
  simp only [runUpLogged, runUp, Logged.bind_result, Logged.lift_result, Logged.foldlM_result,
    hassign, hmap]

/-- A logged conversion of a record has the result of the conversion. -/
theorem convertRecordLogged_result (m : MessageConverter) (r : Record) (besides : Option Value) :
    (convertRecordLogged convert m r besides).result = convertRecord convert.erase m r besides := by
  unfold convertRecordLogged convertRecord
  cases m.shape with
  | down => exact runDownLogged_result convert m r
  | upFromPrivate => exact runUpLogged_result convert m none r
  | upFromNext => exact runUpLogged_result convert m (some r) _

/-- A logged conversion by name has the result of the conversion. -/
theorem convertNamedLogged_result (plan : VersionPlan) (function : String) (v : Value)
    (besides : Option Value) : (convertNamedLogged plan convert function v besides).result
      = convertNamed plan convert.erase function v besides := by
  unfold convertNamedLogged convertNamed
  cases plan.converter? function with
  | none => rfl
  | some x =>
    cases x with
    | enumeration e => cases v <;> rfl
    | message m =>
      cases v with
      | message name fields =>
        have hrecord := convertRecordLogged_result convert m ⟨name, fields⟩ besides
        simp only [Logged.bind_result, Logged.call_result, hrecord]
        exact map_eq_bind _ _
      | _ => rfl

end

/-- A logged conversion of items has the result of the conversion. -/
theorem convertItemsLogged_result (convert : Value → Option Value → Logged Value)
    (items privates : List Value) : (convertItemsLogged convert items privates).result
      = convertItems (fun v besides => (convert v besides).result) items privates := by
  induction items generalizing privates with
  | nil => rfl
  | cons v rest ih =>
    simp only [convertItemsLogged, convertItems, Logged.bind_result, ih]
    rfl

/-- The conversion of a value, recorded. -/
theorem convertWithinLogged_result (plan : VersionPlan) (n : Nat) :
    (convertWithinLogged plan n).erase = convertWithin plan n := by
  -- by the depth that is left; a list passes it on to its items, anything else to a nested run
  induction n with
  | zero =>
    funext action v besides
    cases action <;> rfl
  | succ n ih =>
    funext action v besides
    cases action with
    | copy => rfl
    | convert r =>
      by_cases hlist : ∃ items, v = .list items
      · obtain ⟨items, rfl⟩ := hlist
        have hitems := convertItemsLogged_result (convertWithinLogged plan n (.convert r)) items
          (privateItems besides)
        rw [convertWithin_list, ← ih]
        simp only [LoggedConvert.erase, convertWithinLogged, Logged.bind_result, hitems]
        exact map_eq_bind _ _
      · have hnamed :=
          convertNamedLogged_result (convertWithinLogged plan n) plan r.function v besides
        rw [ih] at hnamed
        cases v <;> first | exact hnamed | exact absurd ⟨_, rfl⟩ hlist

/-- **Recording changes nothing.** A recorded conversion has the result of the conversion. -/
theorem convertUpLogged_result (plan : VersionPlan) (function : String) (next : Option Record)
    (final : Record) : (convertUpLogged plan function next final).result
      = convertUp plan function next final := by
  unfold convertUpLogged convertUp
  rw [Logged.bind_result, Logged.lift_result]
  congr 1
  funext m
  split
  · rfl
  · rw [runUpLogged_result, convertWithinLogged_result]

/-! ### Where calls come from -/

/-- How a nested record is found in a value, with what the private value holds in its place. -/
inductive Pairs : Value → Option Value → Record → Option Value → Prop
  | record (name : String) (fields : List (String × Value)) (besides : Option Value) :
    Pairs (.message name fields) besides ⟨name, fields⟩ besides
  | item {items : List Value} {besides : Option Value} {i : Nat} {v : Value} {r : Record}
      {p : Option Value} (hi : items[i]? = some v) (h : Pairs v ((privateItems besides)[i]?) r p) :
    Pairs (.list items) besides r p

/-- A call made for items is made for one of them. -/
theorem exists_item_of_mem_convertItems {convert : Value → Option Value → Logged Value}
    {items privates : List Value} {c : Call}
    (h : c ∈ (convertItemsLogged convert items privates).calls) :
    ∃ (i : Nat) (v : Value), items[i]? = some v ∧ c ∈ (convert v privates[i]?).calls := by
  induction items generalizing privates with
  | nil => cases h
  | cons v rest ih =>
    obtain h | ⟨first, -, h⟩ := Logged.mem_calls_bind h
    · refine ⟨0, v, rfl, ?_⟩
      rwa [List.head?_eq_getElem?] at h
    · obtain h | ⟨others, -, h⟩ := Logged.mem_calls_bind h
      · obtain ⟨i, u, hi, hc⟩ := ih h
        rw [List.getElem?_tail] at hc
        exact ⟨i + 1, u, hi, hc⟩
      · cases h

/-- A call for a value that is converted by name. -/
theorem mem_calls_convertNamed {plan : VersionPlan} {convert : LoggedConvert} {function : String}
    {v : Value} {besides : Option Value} {c : Call}
    (h : c ∈ (convertNamedLogged plan convert function v besides).calls) :
    ∃ y name fields, plan.converter? function = some (.message y) ∧ v = .message name fields ∧
      (c = ⟨y, ⟨name, fields⟩, besides⟩ ∨
        c ∈ (convertRecordLogged convert y ⟨name, fields⟩ besides).calls) := by
  unfold convertNamedLogged at h
  split at h
  · cases h
  · rename_i y name fields hy
    refine ⟨y, name, fields, hy, rfl, ?_⟩
    obtain h | ⟨-, -, h⟩ := Logged.mem_calls_bind h
    · exact .inl (List.mem_singleton.mp h)
    · obtain h | ⟨out, -, h⟩ := Logged.mem_calls_bind h
      · exact .inr h
      · cases h
  · cases h
  · cases h

/-- **Calls for a value.** The converter that an action names is run on a record in the value, and
    whatever else is run is run by it. -/
theorem exists_call_of_mem_convertWithin {plan : VersionPlan} {n : Nat} {action : Action}
    {v : Value} {besides : Option Value} {c : Call}
    (h : c ∈ (convertWithinLogged plan n action v besides).calls) :
    ∃ reference y r p k, action = .convert reference ∧ k < n ∧
      plan.converter? reference.function = some (.message y) ∧ Pairs v besides r p ∧
      (c = ⟨y, r, p⟩ ∨ c ∈ (convertRecordLogged (convertWithinLogged plan k) y r p).calls) := by
  cases action with
  | copy => cases n <;> cases h
  | convert reference =>
    -- items of a list may be lists again
    induction n generalizing v besides with
    | zero => cases h
    | succ n ih =>
      by_cases hlist : ∃ items, v = .list items
      · obtain ⟨items, rfl⟩ := hlist
        obtain h | ⟨out, -, h⟩ := Logged.mem_calls_bind h
        · obtain ⟨i, u, hi, hc⟩ := exists_item_of_mem_convertItems h
          obtain ⟨reference', y, r, p, k, heq, hk, hy, hpairs, hcall⟩ := ih hc
          exact ⟨reference', y, r, p, k, heq, Nat.lt_succ_of_lt hk, hy, .item hi hpairs, hcall⟩
        · cases h
      · have hnamed : c ∈ (convertNamedLogged plan (convertWithinLogged plan n) reference.function v
            besides).calls := by
          cases v <;> first | exact h | exact absurd ⟨_, rfl⟩ hlist
        obtain ⟨y, name, fields, hy, rfl, hcall⟩ := mem_calls_convertNamed hnamed
        exact ⟨reference, y, _, _, n, rfl, Nat.lt_succ_self n, hy,
          .record name fields besides, hcall⟩

/-- **Calls of a run.** Whatever is run on the way up is run for the value that an assignment or a
    mapping reads. -/
theorem exists_read_of_mem_runUp {convert : LoggedConvert} {m : MessageConverter}
    {next : Option Record} {final : Record} {c : Call}
    (h : c ∈ (runUpLogged convert m next final).calls) :
    (∃ a ∈ m.assignments, ∃ source v, pick m.function next final a.side = .ok source ∧
      source.get? a.source = some v ∧ c ∈ (convert a.action v
        (if a.side == .ofPrivate then some v else a.privateSource.bind final.get?)).calls) ∨
    ∃ o ∈ m.oneofs, ∃ source a v, pick m.function next final o.side = .ok source ∧
      selectArm o source = some (a, v) ∧ c ∈ (convert a.action v
        (if o.side == .ofPrivate then some v else privateVariant o a final)).calls := by
  -- the checks run nothing, so the call is made by the assignments or by the mappings
  obtain h | ⟨-, -, h⟩ := Logged.mem_calls_bind h
  · cases h
  obtain h | ⟨output, -, h⟩ := Logged.mem_calls_bind h
  · obtain ⟨a, ha, s, h⟩ := Logged.mem_calls_foldlM h
    obtain h | ⟨source, hsource, h⟩ := Logged.mem_calls_bind h
    · cases h
    dsimp only at h
    split at h
    · cases h
    · rename_i v hv
      obtain h | ⟨u, -, h⟩ := Logged.mem_calls_bind h
      · exact .inl ⟨a, ha, source, v, hsource, hv, h⟩
      · cases h
  · obtain ⟨o, ho, s, h⟩ := Logged.mem_calls_foldlM h
    obtain h | ⟨source, hsource, h⟩ := Logged.mem_calls_bind h
    · cases h
    dsimp only at h
    split at h
    · cases h
    · rename_i a v hv
      obtain h | ⟨u, -, h⟩ := Logged.mem_calls_bind h
      · exact .inr ⟨o, ho, source, a, v, hsource, hv, h⟩
      · cases h

end Lineage.Service
