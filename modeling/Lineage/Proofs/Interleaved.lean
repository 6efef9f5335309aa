import Lineage.Proofs.Outcome

namespace Lineage

/-!
# Lists that differ in how keys are interleaved

* `Interleaved` — two lists with the same elements of every key, in the same order,
* `Interleaved.of_cons` — the first element of one list stands in the other one behind elements of
  other keys alone,
* `Interleaved.foldl_eq` — a fold whose steps commute for different keys does not tell such lists
  apart,
* `Interleaved.exists_mapM` — steps that keep the key, made on such lists, give such lists.
-/

variable {α β σ κ : Type} [DecidableEq κ] {key : α → κ} {xs ys : List α}

/-- Restricted to any one key, the two lists are the same. -/
def Interleaved (key : α → κ) (xs ys : List α) : Prop :=
  ∀ k, xs.filter (key · == k) = ys.filter (key · == k)

namespace Interleaved

/-- Interleaving is symmetric. -/
theorem symm (h : Interleaved key xs ys) : Interleaved key ys xs := fun k => (h k).symm

/-- Interleaved lists have the same elements. -/
theorem mem_iff (h : Interleaved key xs ys) (x : α) : x ∈ xs ↔ x ∈ ys := by
  have hmem := congrArg (x ∈ ·) (h (key x))
  simpa [List.mem_filter] using hmem

/-- What stands in front of the first element in the other list has other keys. -/
theorem of_cons {x : α} (h : Interleaved key (x :: xs) ys) :
    ∃ before after, ys = before ++ x :: after ∧ (∀ y ∈ before, key y ≠ key x) ∧
      Interleaved key xs (before ++ after) := by
  -- what has the key of `x` in the other list begins with `x` as well
  have hfirst := h (key x)
  rw [List.filter_cons_of_pos (by simp), eq_comm, List.filter_eq_cons_iff] at hfirst
  obtain ⟨before, after, rfl, hbefore, -, hafter⟩ := hfirst
  have hne : ∀ y ∈ before, key y ≠ key x := fun y hy => by simpa using hbefore y hy
  refine ⟨before, after, rfl, hne, fun k => ?_⟩
  by_cases hk : key x = k
  · have hnone : before.filter (key · == k) = [] :=
      List.filter_eq_nil_iff.mpr fun y hy => by simpa [← hk] using hne y hy
    rw [List.filter_append, hnone, List.nil_append, ← hk, hafter]
  · simpa [hk] using h k

omit [DecidableEq κ] in
/-- A step for one key may be made after steps for other keys. -/
theorem foldl_append_cons {f : σ → α → σ}
    (hcomm : ∀ s x y, key x ≠ key y → f (f s x) y = f (f s y) x) {x : α} {before : List α}
    (hne : ∀ y ∈ before, key y ≠ key x) (after : List α) (s : σ) :
    (before ++ x :: after).foldl f s = (before ++ after).foldl f (f s x) := by
  induction before generalizing s with
  | nil => rfl
  | cons y before ih =>
    obtain ⟨hy, hbefore⟩ := List.forall_mem_cons.mp hne
    rw [List.cons_append, List.foldl_cons, ih hbefore, hcomm s y x hy, List.cons_append,
      List.foldl_cons]

/-- **Folds.** Only the order of the elements of each key matters. -/
theorem foldl_eq {f : σ → α → σ}
    (hcomm : ∀ s x y, key x ≠ key y → f (f s x) y = f (f s y) x) (h : Interleaved key xs ys)
    (s : σ) : xs.foldl f s = ys.foldl f s := by
  induction xs generalizing ys s with
  | nil =>
    have hnil : ys = [] := List.eq_nil_iff_forall_not_mem.mpr fun y hy => by
      simpa using (h.mem_iff y).mpr hy
    rw [hnil]
  | cons x xs ih =>
    -- in the other list, the step for `x` may be made first
    obtain ⟨before, after, rfl, hne, hrest⟩ := h.of_cons
    rw [List.foldl_cons, ih hrest, foldl_append_cons hcomm hne]

/-- **Independent steps.** What steps make of two such lists are such lists, if they keep
    the key. -/
theorem exists_mapM {ε : Type} {f : α → Except ε β} {key' : β → κ}
    (hkey : ∀ x y, f x = .ok y → key' y = key x) (h : Interleaved key xs ys) {zs : List β}
    (hzs : xs.mapM f = .ok zs) : ∃ ws, ys.mapM f = .ok ws ∧ Interleaved key' zs ws := by
  have hpairs := mapM_eq_ok.mp hzs
  have hsteps : ∃ ws, List.Forall₂ (fun x y => f x = .ok y) ys ws := exists_forall₂ fun y hy =>
    (forall₂_exists_right hpairs ((h.mem_iff y).mpr hy)).imp fun _ hz => hz.2
  obtain ⟨ws, hws⟩ := hsteps
  refine ⟨ws, mapM_eq_ok.mpr hws, fun k => ?_⟩
  have hfilter : ∀ {xs : List α} {zs : List β}, List.Forall₂ (fun x y => f x = .ok y) xs zs →
      List.Forall₂ (fun x y => f x = .ok y) (xs.filter (key · == k)) (zs.filter (key' · == k)) :=
    fun hxs => List.rel_filter (fun x y hxy => by simp [hkey x y hxy]) hxs
  -- both are what the steps make of one list
  have hleft := mapM_eq_ok.mpr (hfilter hpairs)
  rw [h k] at hleft
  exact Except.ok.inj (hleft.symm.trans (mapM_eq_ok.mpr (hfilter hws)))

end Interleaved

end Lineage
