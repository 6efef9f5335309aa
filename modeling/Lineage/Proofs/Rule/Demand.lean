import Lineage.Proofs.Chain.Node
import Lineage.Rule.Demand
import Mathlib.Data.List.Forall2

namespace Lineage

/-!
# Sets of messages that are closed

* `MessageSet.Le` — one set is part of another one,
* `iterate_fixed` — a step that only adds has nothing to add after as many rounds as messages are
  missing at first,
* `Chain.validated_of_isRoot`, `Chain.validated_nested` — the messages that get a validator: roots,
  and what requires validation and is the type of a field of such a message.
-/

namespace MessageSet

variable {s t u : MessageSet} {m n : MessageId}

/-- One set is part of another one, of messages of the same chain. -/
def Le (s t : MessageSet) : Prop :=
  List.Forall₂ (fun x y : Bool => x = true → y = true) s.marks.toList t.marks.toList

/-- A set is below itself. -/
theorem Le.refl (s : MessageSet) : s.Le s := List.forall₂_same.mpr fun _ _ h => h

/-- Being below is transitive. -/
theorem Le.trans (h : s.Le t) (h' : t.Le u) : s.Le u := by
  unfold Le at *
  generalize s.marks.toList = xs at *
  generalize t.marks.toList = ys at *
  generalize u.marks.toList = zs at *
  induction h generalizing zs with
  | nil => exact h'
  | cons hx _ ih =>
    cases h' with
    | cons hy hrest => exact .cons (fun h => hy (hx h)) (ih _ hrest)

/-- Sets that are below each other are over the same messages. -/
theorem Le.size_eq (h : s.Le t) : s.marks.size = t.marks.size := by
  simpa using h.length_eq

/-- What is in a set is in every set above it. -/
theorem Le.contains (h : s.Le t) (hm : s.contains m) : t.contains m := by
  have hlt : m.index < s.marks.size := by
    by_contra hlt
    simp [MessageSet.contains, Array.getD_eq_getD_getElem?, hlt] at hm
  have hlt' : m.index < t.marks.size := h.size_eq ▸ hlt
  have hget := h.get (i := m.index) (by simpa using hlt) (by simpa using hlt')
  unfold MessageSet.contains at hm ⊢
  rw [Array.getD_eq_getD_getElem?, Array.getElem?_eq_getElem hlt] at hm
  rw [Array.getD_eq_getD_getElem?, Array.getElem?_eq_getElem hlt']
  simpa using hget (by simpa using hm)

/-- A set is below itself with one message more. -/
theorem le_insert (s : MessageSet) (m : MessageId) : s.Le (s.insert m) := by
  unfold Le insert
  rw [Array.toList_setIfInBounds]
  generalize s.marks.toList = xs
  generalize m.index = k
  induction xs generalizing k with
  | nil => exact .nil
  | cons x xs ih =>
    cases k with
    | zero => exact .cons (fun _ => rfl) (List.forall₂_same.mpr fun _ _ h => h)
    | succ k => exact .cons (fun h => h) (ih k)

/-- What has been inserted is contained. -/
theorem contains_insert_self (hm : m.index < s.marks.size) : (s.insert m).contains m := by
  simp [MessageSet.contains, insert, Array.getD_eq_getD_getElem?, hm]

/-- A loop of steps that only add adds only. -/
theorem le_foldl {α : Type} {f : MessageSet → α → MessageSet}
    (hf : ∀ (s : MessageSet) x, s.Le (f s x)) (xs : List α) (s : MessageSet) :
    s.Le (xs.foldl f s) := by
  induction xs generalizing s with
  | nil => exact .refl s
  | cons x xs ih => exact (hf s x).trans (ih (f s x))

/-! ### Growth ends -/

/-- How many messages are missing. -/
def missing (s : MessageSet) : Nat := s.marks.toList.count false

/-- No more messages are missing than there are. -/
theorem missing_le (s : MessageSet) : s.missing ≤ s.marks.size := by
  rw [missing, ← Array.length_toList]
  exact List.count_le_length

/-- A set that has not more missing than a part of it is that part. -/
theorem Le.eq_of_missing_le (h : s.Le t) (hle : s.missing ≤ t.missing) : t = s := by
  have hlist : ∀ xs ys : List Bool, List.Forall₂ (fun x y : Bool => x = true → y = true) xs ys →
      ys.count false ≤ xs.count false ∧ (xs.count false ≤ ys.count false → ys = xs) := by
    intro xs ys hall
    induction hall with
    | nil => simp
    | @cons x y xs ys hxy _ ih =>
      obtain ⟨hcount, heq⟩ := ih
      cases x <;> cases y <;> simp_all
      omega
  exact congrArg MessageSet.mk (Array.toList_inj.mp ((hlist _ _ h).2 hle))

end MessageSet

/-- **Rounds end.** A step that only adds has nothing to add after as many rounds as messages are
    missing at first. -/
theorem iterate_fixed {step : MessageSet → MessageSet} (hstep : ∀ s : MessageSet, s.Le (step s))
    {rounds : Nat} {s : MessageSet} (h : s.missing ≤ rounds) :
    step (iterate step rounds s) = iterate step rounds s := by
  induction rounds generalizing s with
  | zero => exact (hstep s).eq_of_missing_le (by omega)
  | succ n ih =>
    by_cases hgrows : s.missing ≤ (step s).missing
    · have hfixed : step s = s := (hstep s).eq_of_missing_le hgrows
      have hall : ∀ k, iterate step k s = s := by
        intro k
        induction k with
        | zero => rfl
        | succ k ihk => rw [iterate, hfixed, ihk]
      rw [hall, hfixed]
    · exact ih (by omega)

/-- Rounds of steps that only add add only. -/
theorem le_iterate {step : MessageSet → MessageSet} (hstep : ∀ s : MessageSet, s.Le (step s))
    (rounds : Nat) (s : MessageSet) : s.Le (iterate step rounds s) := by
  induction rounds generalizing s with
  | zero => exact .refl s
  | succ n ih => exact (hstep s).trans (ih (step s))

namespace Chain

variable {c : Chain} {demanding : MessageSet}

/-- What one message adds: the types of its fields that require validation, if it is in the set. -/
def addNestedOf (c : Chain) (demanding : MessageSet) (s : MessageSet) (m : Message) : MessageSet :=
  if s.contains m.id then
    ((c.nestedMessages m).filter demanding.contains).foldl MessageSet.insert s
  else s

/-- Adding what is nested in a message adds only. -/
theorem le_addNestedOf (s : MessageSet) (m : Message) : s.Le (c.addNestedOf demanding s m) := by
  unfold addNestedOf
  split
  · exact MessageSet.le_foldl MessageSet.le_insert _ s
  · exact .refl s

/-- What is nested is added message by message. -/
theorem addNested_eq (c : Chain) (demanding s : MessageSet) :
    c.addNested demanding s = c.messages.toList.foldl (c.addNestedOf demanding) s := by
  rw [addNested, ← Array.foldl_toList]
  rfl

/-- The set has what each of its messages adds. -/
theorem contains_addNested {s : MessageSet} {m : Message} {n : MessageId} (hm : m ∈ c.messages)
    (hs : s.contains m.id) (hn : n ∈ c.nestedMessages m) (hd : demanding.contains n)
    (hlt : n.index < s.marks.size) : (c.addNested demanding s).contains n := by
  obtain ⟨before, after, hsplit⟩ := List.append_of_mem (Array.mem_toList_iff.mpr hm)
  rw [addNested_eq, hsplit, List.foldl_append, List.foldl_cons]
  have hbefore := MessageSet.le_foldl (@le_addNestedOf c demanding) before s
  refine (MessageSet.le_foldl le_addNestedOf after _).contains ?_
  rw [addNestedOf, if_pos (hbefore.contains hs)]
  obtain ⟨front, back, hback⟩ := List.append_of_mem (List.mem_filter.mpr ⟨hn, hd⟩)
  rw [hback, List.foldl_append, List.foldl_cons]
  have hfront := MessageSet.le_foldl MessageSet.le_insert front
    (before.foldl (c.addNestedOf demanding) s)
  refine (MessageSet.le_foldl MessageSet.le_insert back _).contains ?_
  exact MessageSet.contains_insert_self (by rwa [← hfront.size_eq, ← hbefore.size_eq])

/-- Adding what is nested adds only. -/
theorem le_addNested (s : MessageSet) : s.Le (c.addNested demanding s) := by
  rw [addNested_eq]
  exact MessageSet.le_foldl le_addNestedOf _ s

/-- A root gets a validator. -/
theorem validated_of_isRoot {m : MessageId} (hm : m.index < c.messages.size)
    (h : isRoot (c.message m)) : (c.validated demanding).contains m := by
  refine (le_iterate le_addNested _ _).contains ?_
  unfold MessageSet.contains MessageSet.ofChain
  rw [Array.getD_eq_getD_getElem?, getElem?_map_getD hm default]
  exact h

/-- **Closed sets.** What requires validation and is the type of a field of a validated message is
    validated. -/
theorem validated_nested (h : c.WellFormed) {m n : MessageId} (hm : m.index < c.messages.size)
    (hvalidated : (c.validated demanding).contains m) (hn : n ∈ c.nestedMessages (c.message m))
    (hd : demanding.contains n) (hlt : n.index < c.messages.size) :
    (c.validated demanding).contains n := by
  have hsize : (c.validated demanding).marks.size = c.messages.size := by
    rw [validated, ← (le_iterate le_addNested _ _).size_eq]
    exact Array.size_map
  have hfixed : c.addNested demanding (c.validated demanding) = c.validated demanding := by
    refine iterate_fixed le_addNested (Nat.le_trans (MessageSet.missing_le _) ?_)
    exact Nat.le_of_eq Array.size_map
  rw [← hfixed]
  refine contains_addNested (Array.mem_of_getElem? (getElem?_eq_some_getD hm default)) ?_ hn hd
    (by rwa [hsize])
  rwa [← Chain.message, h.message_id hm]

end Chain

end Lineage
