import Lineage.Chain.Build
import Lineage.Proofs.Outcome

namespace Lineage

/-!
# Ownership between two arrays

Nodes of one array belong to nodes of another one, and each owner lists what belongs to it.

* `positions` — the positions of what belongs to an owner, in order,
* `Owned`     — every owner exists and lists exactly what belongs to it,
* `Owned.pushMember`, `Owned.pushOwner`, `Owned.pushFamily` — how both arrays grow.

The arrays are given by what matters about them: `owners` has the owner of each member, `lists` has
the list of each owner.
-/

/-- The positions at which an owner stands. -/
def positions (owner : Nat) (owners : Array (Option Nat)) : List Nat :=
  (List.range owners.size).filter fun k => owners[k]? == some (some owner)

/-- The positions of an owner are those at which it stands. -/
@[simp] theorem mem_positions (k owner : Nat) (owners : Array (Option Nat)) :
    k ∈ positions owner owners ↔ owners[k]? = some (some owner) := by
  simp only [positions, List.mem_filter, List.mem_range, beq_iff_eq, and_iff_right_iff_imp]
  exact fun h => (Array.getElem?_eq_some_iff.mp h).1

/-- Positions are listed in their order. -/
theorem pairwise_positions (owner : Nat) (owners : Array (Option Nat)) :
    (positions owner owners).Pairwise (· < ·) :=
  List.pairwise_lt_range.filter _

/-- What is added at the end belongs to its owner, as the last one. -/
theorem positions_push (owner : Nat) (owners : Array (Option Nat)) (o : Option Nat) :
    positions owner (owners.push o)
      = positions owner owners ++ if o = some owner then [owners.size] else [] := by
  have hold : ∀ k ∈ List.range owners.size, (owners.push o)[k]? = owners[k]? := by
    intro k hk
    rw [Array.getElem?_push, if_neg (Nat.ne_of_lt (List.mem_range.mp hk))]
  have hfirst : (List.range owners.size).filter (fun k => (owners.push o)[k]? == some (some owner))
      = positions owner owners :=
    List.filter_congr fun k hk => by rw [hold k hk]
  rw [positions, Array.size_push, List.range_succ, List.filter_append, hfirst]
  simp [List.filter_singleton]

/-- Nothing belongs to an owner that does not exist. -/
theorem positions_eq_nil {owner : Nat} {owners : Array (Option Nat)}
    (h : ∀ k : Nat, owners[k]? ≠ some (some owner)) : positions owner owners = [] := by
  rw [List.eq_nil_iff_forall_not_mem]
  intro k hk
  exact h k ((mem_positions _ _ _).mp hk)

/-- Every owner exists and lists exactly what belongs to it. -/
structure Owned (owners : Array (Option Nat)) (lists : Array (List Nat)) : Prop where
  bound : ∀ k owner : Nat, owners[k]? = some (some owner) → owner < lists.size
  lists_eq : ∀ (owner : Nat) l, lists[owner]? = some l → l = positions owner owners

namespace Owned

variable {owners : Array (Option Nat)} {lists : Array (List Nat)}

/-- Without owners nothing is owned. -/
theorem empty : Owned #[] #[] :=
  ⟨by simp, by simp⟩

/-- A new member goes to the end of its owner's list. -/
theorem pushMember (h : Owned owners lists) (owner : Nat) (howner : owner < lists.size) :
    Owned (owners.push (some owner)) (lists.modify owner (· ++ [owners.size])) := by
  constructor
  · intro k o hk
    rw [Array.size_modify]
    rw [Array.getElem?_push] at hk
    split at hk
    · obtain rfl : owner = o := by simpa using hk
      exact howner
    · exact h.bound k o hk
  · intro o l hl
    rw [positions_push]
    rw [Array.getElem?_modify] at hl
    split at hl
    · subst o
      obtain ⟨l', hl', rfl⟩ := Option.map_eq_some_iff.mp hl
      simp [h.lists_eq owner l' hl']
    · rename_i hne
      simp [h.lists_eq o l hl, hne]

/-- A new member that belongs to nobody. -/
theorem pushOrphan (h : Owned owners lists) : Owned (owners.push none) lists := by
  constructor
  · intro k o hk
    rw [Array.getElem?_push] at hk
    split at hk
    · simp at hk
    · exact h.bound k o hk
  · intro o l hl
    rw [positions_push]
    simp [h.lists_eq o l hl]

/-- A new owner with an empty list. -/
theorem pushOwner (h : Owned owners lists) : Owned owners (lists.push []) := by
  constructor
  · intro k o hk
    rw [Array.size_push]
    exact Nat.lt_succ_of_lt (h.bound k o hk)
  · intro o l hl
    rw [Array.getElem?_push] at hl
    split at hl
    · rename_i ho
      obtain rfl : [] = l := by simpa using hl
      refine (positions_eq_nil ?_).symm
      intro k hk
      exact absurd (h.bound k o hk) (by omega)
    · exact h.lists_eq o l hl

/-- What is added at the end for one owner belongs to it, as the last ones. -/
theorem positions_append_replicate (owner n k : Nat) (owners : Array (Option Nat)) :
    positions owner (owners ++ Array.replicate k (some n))
      = positions owner owners
        ++ if n = owner then (List.range k).map (owners.size + ·) else [] := by
  induction k with
  | zero => simp
  | succ k ih =>
    rw [Array.replicate_succ, ← Array.push_append, positions_push, ih, List.range_succ]
    by_cases hn : n = owner <;> simp [hn]

/-- New members together with the new owner that they belong to. -/
theorem pushFamily (h : Owned owners lists) (k : Nat) :
    Owned (owners ++ Array.replicate k (some lists.size))
      (lists.push ((List.range k).map (owners.size + ·))) := by
  constructor
  · intro i o hi
    rw [Array.size_push]
    rw [Array.getElem?_append] at hi
    split at hi
    · exact Nat.lt_succ_of_lt (h.bound i o hi)
    · rw [Array.getElem?_replicate] at hi
      split at hi
      · obtain rfl : lists.size = o := by simpa using hi
        exact Nat.lt_succ_self _
      · simp at hi
  · intro o l hl
    rw [positions_append_replicate]
    rw [Array.getElem?_push] at hl
    split at hl
    · subst o
      obtain rfl : (List.range k).map (owners.size + ·) = l := by simpa using hl
      -- no older member has the new owner
      have hnone : positions lists.size owners = [] :=
        positions_eq_nil fun i hi => absurd (h.bound i _ hi) (Nat.lt_irrefl _)
      simp [hnone]
    · rename_i hne
      simp [h.lists_eq o l hl, Ne.symm hne]

/-- Membership in an owner's list. -/
theorem mem_iff (h : Owned owners lists) {owner k : Nat} {l : List Nat}
    (hl : lists[owner]? = some l) : k ∈ l ↔ owners[k]? = some (some owner) := by
  rw [h.lists_eq owner l hl, mem_positions]

/-- Every owner lists positions in their order. -/
theorem pairwise (h : Owned owners lists) {owner : Nat} {l : List Nat}
    (hl : lists[owner]? = some l) : l.Pairwise (· < ·) := by
  rw [h.lists_eq owner l hl]
  exact pairwise_positions owner owners

end Owned

end Lineage
