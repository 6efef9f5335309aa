import Mathlib.Data.List.Forall2

namespace Lineage

/-!
# Computations that may fail

How a successful result is taken apart into the results of its steps.

* `bind_eq_ok`, `bind_eq_error`, `map_eq_ok`, `map_eq_error`, `mapError_eq_ok`, `mapError_eq_error`,
  `ite_eq_ok`, `toOption_eq_some` — one step; `exists_of_toOption_any` — a result that is checked,
* `mapM_eq_ok`, `mapM_eq_some` — a list of independent steps; `exists_mapM` — it succeeds if all of
  them do,
* `forall₂_exists_right`, `forall₂_exists_left` — to each step its result and back,
  `exists_of_mem_filterMap` — also if only some results have what is looked for, `exists_forall₂` —
  a list of results from a result for each step,
* `foldlM_invariant` — a list of steps from state to state: what holds at the start and is kept by
  every step, given the steps already made, holds at the end,
* `foldlM_progress` — if under the invariant every step succeeds, so does the run;
  `foldlM_error_split` — else it fails with one of its steps; `foldlM_fixed` — steps that change
  nothing,
* `FailsWith` — every error is of one sort; `FailsWith.bind`, `FailsWith.foldlM` — so are those of a
  run.
-/

variable {ε : Type u} {ε' : Type u'} {α : Type v} {β : Type v} {σ : Type v}

/-- Steps succeed if the first one does and the second one does with its result. -/
theorem bind_eq_ok {x : Except ε α} {f : α → Except ε β} {b : β} :
    (x >>= f) = .ok b ↔ ∃ a, x = .ok a ∧ f a = .ok b := by
  cases x with
  | error e => simp [bind, Except.bind]
  | ok a => simp [bind, Except.bind]

/-- Steps fail with the failure of the first one, or of the second one with the result of
    the first. -/
theorem bind_eq_error {x : Except ε α} {f : α → Except ε β} {e : ε} :
    (x >>= f) = .error e ↔ x = .error e ∨ ∃ a, x = .ok a ∧ f a = .error e := by
  cases x with
  | error e => simp [bind, Except.bind]
  | ok a => simp [bind, Except.bind]

/-- A map succeeds with the image of a result. -/
theorem map_eq_ok {γ : Type w} {x : Except ε α} {f : α → γ} {b : γ} :
    x.map f = .ok b ↔ ∃ a, x = .ok a ∧ f a = b := by
  cases x with
  | error e => simp [Except.map]
  | ok a => simp [Except.map]

/-- A map fails as what it maps. -/
theorem map_eq_error {γ : Type w} {x : Except ε α} {f : α → γ} {e : ε} :
    x.map f = .error e ↔ x = .error e := by
  cases x with
  | error e => simp [Except.map]
  | ok a => simp [Except.map]

/-- A failure is rewritten. -/
theorem mapError_eq_error {x : Except ε α} {f : ε → ε'} {e' : ε'} :
    x.mapError f = .error e' ↔ ∃ e, x = .error e ∧ f e = e' := by
  cases x with
  | error e => simp [Except.mapError]
  | ok b => simp [Except.mapError]

/-- Rewriting failures changes no success. -/
theorem mapError_eq_ok {x : Except ε α} {f : ε → ε'} {a : α} :
    x.mapError f = .ok a ↔ x = .ok a := by
  cases x with
  | error e => simp [Except.mapError]
  | ok b => simp [Except.mapError]

/-- A value succeeds with itself only. -/
theorem pure_eq_ok {a b : α} : (pure a : Except ε α) = .ok b ↔ a = b := by
  simp [pure, Except.pure]

/-- A check succeeds if its condition holds. -/
theorem ite_eq_ok {p : Prop} [Decidable p] {e : ε} {a b : α} :
    (if p then (.ok a : Except ε α) else .error e) = .ok b ↔ p ∧ b = a := by
  split
  · rename_i hp
    simp [hp, eq_comm]
  · rename_i hp
    simp [hp]

/-- The result is there if a computation succeeds with it. -/
theorem toOption_eq_some {x : Except ε α} {a : α} : x.toOption = some a ↔ x = .ok a := by
  cases x with
  | error e => simp [Except.toOption]
  | ok b => simp [Except.toOption]

/-- If what is computed passes a check, the computation succeeds. -/
theorem exists_of_toOption_any {x : Except ε α} {p : α → Bool} (h : x.toOption.any p = true) :
    ∃ a, x = .ok a ∧ p a = true := by
  obtain ⟨a, ha, hp⟩ := (Option.any_eq_true _ _).mp h
  exact ⟨a, toOption_eq_some.mp ha, hp⟩

/-- A list of independent steps succeeds with the results of its steps. -/
theorem mapM_eq_ok {α : Type w} {f : α → Except ε β} {xs : List α} {ys : List β} :
    xs.mapM f = .ok ys ↔ List.Forall₂ (fun x y => f x = .ok y) xs ys := by
  induction xs generalizing ys with
  | nil =>
    rw [List.mapM_nil, pure_eq_ok]
    constructor
    · rintro rfl
      exact .nil
    · rintro ⟨⟩
      rfl
  | cons x xs ih =>
    rw [List.mapM_cons, bind_eq_ok]
    constructor
    · rintro ⟨y, hy, h⟩
      obtain ⟨rest, hrest, h⟩ := bind_eq_ok.mp h
      obtain rfl := pure_eq_ok.mp h
      exact .cons hy (ih.mp hrest)
    · rintro ⟨⟩
      rename_i y ys hy hrest
      exact ⟨y, hy, bind_eq_ok.mpr ⟨ys, ih.mpr hrest, rfl⟩⟩

/-- A list of independent look-ups finds what each of them finds. -/
theorem mapM_eq_some {α : Type w} {f : α → Option β} {xs : List α} {ys : List β} :
    xs.mapM f = some ys ↔ List.Forall₂ (fun x y => f x = some y) xs ys := by
  induction xs generalizing ys with
  | nil =>
    rw [List.mapM_nil]
    constructor
    · rintro ⟨⟩
      exact .nil
    · rintro ⟨⟩
      rfl
  | cons x xs ih =>
    rw [List.mapM_cons]
    simp only [bind, Option.bind_eq_some_iff, pure, Option.some.injEq]
    constructor
    · rintro ⟨y, hy, rest, hrest, rfl⟩
      exact .cons hy (ih.mp hrest)
    · rintro ⟨⟩
      rename_i y ys hy hrest
      exact ⟨y, hy, ys, ih.mpr hrest, rfl⟩

/-- What is in one list is related to something in the other. -/
theorem forall₂_exists_right {α : Type w} {R : α → β → Prop} {xs : List α} {ys : List β}
    (h : List.Forall₂ R xs ys) {x : α} (hx : x ∈ xs) : ∃ y ∈ ys, R x y := by
  induction h with
  | nil => cases hx
  | cons hr _ ih =>
    obtain rfl | hx := List.mem_cons.mp hx
    · exact ⟨_, List.mem_cons_self, hr⟩
    · obtain ⟨y, hy, hr⟩ := ih hx
      exact ⟨y, List.mem_cons_of_mem _ hy, hr⟩

/-- What is in the other list is related to something in the one. -/
theorem forall₂_exists_left {α : Type w} {R : α → β → Prop} {xs : List α} {ys : List β}
    (h : List.Forall₂ R xs ys) {y : β} (hy : y ∈ ys) : ∃ x ∈ xs, R x y := by
  induction h with
  | nil => cases hy
  | cons hr _ ih =>
    obtain rfl | hy := List.mem_cons.mp hy
    · exact ⟨_, List.mem_cons_self, hr⟩
    · obtain ⟨x, hx, hr⟩ := ih hy
      exact ⟨x, List.mem_cons_of_mem _ hx, hr⟩

/-- What is taken from some of the results is taken from the result of a step. -/
theorem exists_of_mem_filterMap {α : Type w} {γ : Type w'} {R : α → β → Prop} {xs : List α}
    {ys : List β} (h : List.Forall₂ R xs ys) {part : β → Option γ} {z : γ}
    (hz : z ∈ ys.filterMap part) :
    ∃ x ∈ xs, ∃ y, R x y ∧ part y = some z := by
  obtain ⟨y, hy, hpart⟩ := List.mem_filterMap.mp hz
  obtain ⟨x, hx, hr⟩ := forall₂_exists_left h hy
  exact ⟨x, hx, y, hr, hpart⟩

/-- If there is a result for each step, there is a list of results. -/
theorem exists_forall₂ {α : Type w} {R : α → β → Prop} {xs : List α} (h : ∀ x ∈ xs, ∃ y, R x y) :
    ∃ ys, List.Forall₂ R xs ys := by
  induction xs with
  | nil => exact ⟨[], .nil⟩
  | cons x xs ih =>
    obtain ⟨hx, hxs⟩ := List.forall_mem_cons.mp h
    obtain ⟨y, hy⟩ := hx
    obtain ⟨ys, hys⟩ := ih hxs
    exact ⟨y :: ys, .cons hy hys⟩

/-- A list of independent steps succeeds if each of them does. -/
theorem exists_mapM {α : Type w} {f : α → Except ε β} {R : α → β → Prop} {l : List α}
    (h : ∀ x ∈ l, ∃ y, f x = .ok y ∧ R x y) : ∃ ys, l.mapM f = .ok ys ∧ List.Forall₂ R l ys := by
  obtain ⟨ys, hys⟩ := exists_forall₂ h
  exact ⟨ys, mapM_eq_ok.mpr (hys.imp fun _ _ => And.left), hys.imp fun _ _ => And.right⟩

/-- **Invariant of a run.** The invariant may mention the steps that are already made. -/
theorem foldlM_invariant {α : Type w} {f : σ → α → Except ε σ} {l : List α} {s s' : σ}
    (Inv : List α → σ → Prop) (h0 : Inv [] s)
    (hstep : ∀ made x rest t t', l = made ++ x :: rest → Inv made t → f t x = .ok t' →
      Inv (made ++ [x]) t')
    (h : l.foldlM f s = .ok s') : Inv l s' := by
  -- generalised over the steps already made, which grow as the list shrinks
  suffices ∀ rest made t, l = made ++ rest → Inv made t → rest.foldlM f t = .ok s' → Inv l s' from
    this l [] s rfl h0 h
  intro rest
  induction rest with
  | nil =>
    intro made t hl hinv ht
    obtain rfl := pure_eq_ok.mp ht
    rwa [hl, List.append_nil]
  | cons x rest ih =>
    intro made t hl hinv ht
    rw [List.foldlM_cons] at ht
    obtain ⟨t', hx, ht'⟩ := bind_eq_ok.mp ht
    exact ih (made ++ [x]) t' (by simp [hl]) (hstep made x rest t t' hl hinv hx) ht'

/-- The invariant of a run in which the steps already made do not matter. -/
theorem foldlM_preserves {α : Type w} {f : σ → α → Except ε σ} {l : List α} {s s' : σ}
    (Inv : σ → Prop) (h0 : Inv s)
    (hstep : ∀ x ∈ l, ∀ t t', Inv t → f t x = .ok t' → Inv t')
    (h : l.foldlM f s = .ok s') : Inv s' :=
  foldlM_invariant (fun _ => Inv) h0
    (fun _ x _ t t' hl => hstep x (by simp [hl]) t t') h

/-- **Progress of a run.** If every step succeeds under the invariant and keeps it, the run
    succeeds. -/
theorem foldlM_progress {α : Type w} {f : σ → α → Except ε σ} {l : List α} {s : σ}
    (Inv : List α → σ → Prop) (h0 : Inv [] s)
    (hstep : ∀ made x rest t, l = made ++ x :: rest → Inv made t →
      ∃ t', f t x = .ok t' ∧ Inv (made ++ [x]) t') :
    ∃ s', l.foldlM f s = .ok s' ∧ Inv l s' := by
  -- generalised over the steps already made, which grow as the list shrinks
  suffices ∀ rest made t, l = made ++ rest → Inv made t →
      ∃ s', rest.foldlM f t = .ok s' ∧ Inv l s' from this l [] s rfl h0
  intro rest
  induction rest with
  | nil =>
    intro made t hl hinv
    rw [List.append_nil] at hl
    exact ⟨t, rfl, hl ▸ hinv⟩
  | cons x rest ih =>
    intro made t hl hinv
    obtain ⟨t', hx, hinv'⟩ := hstep made x rest t hl hinv
    obtain ⟨s', hrest, hs'⟩ := ih (made ++ [x]) t' (by simp [hl]) hinv'
    refine ⟨s', ?_, hs'⟩
    rw [List.foldlM_cons]
    exact bind_eq_ok.mpr ⟨t', hx, hrest⟩

/-- **Failure of a run.** A run fails with the error of the step after those that succeed. -/
theorem foldlM_error_split {α : Type w} {f : σ → α → Except ε σ} {l : List α} {s : σ} {e : ε}
    (h : l.foldlM f s = .error e) :
    ∃ before x after t, l = before ++ x :: after ∧ before.foldlM f s = .ok t ∧
      f t x = .error e := by
  induction l generalizing s with
  | nil => cases h
  | cons x rest ih =>
    rw [List.foldlM_cons] at h
    obtain hx | ⟨t, hx, hrest⟩ := bind_eq_error.mp h
    · exact ⟨[], x, rest, s, rfl, rfl, hx⟩
    · obtain ⟨before, y, after, t', rfl, hbefore, hy⟩ := ih hrest
      refine ⟨x :: before, y, after, t', rfl, ?_, hy⟩
      rw [List.foldlM_cons]
      exact bind_eq_ok.mpr ⟨t, hx, hbefore⟩

/-- A loop that fails does so at one of its elements. -/
theorem foldlM_eq_error {α : Type w} {f : σ → α → Except ε σ} {l : List α} {s : σ} {e : ε}
    (h : l.foldlM f s = .error e) : ∃ x ∈ l, ∃ t, f t x = .error e := by
  obtain ⟨before, x, after, t, rfl, -, hx⟩ := foldlM_error_split h
  exact ⟨x, by simp, t, hx⟩

/-- Steps that change nothing. -/
theorem foldlM_fixed {α : Type w} {f : σ → α → Except ε σ} {l : List α} {s : σ}
    (h : ∀ x ∈ l, f s x = .ok s) : l.foldlM f s = .ok s := by
  obtain ⟨s', hs', rfl⟩ := foldlM_progress (f := f) (l := l) (fun _ t => t = s) rfl (by
    rintro made x rest t hl rfl
    exact ⟨t, h x (by simp [hl]), rfl⟩)
  exact hs'

/-- All errors of a computation are of one sort. -/
def FailsWith (sort : ε → Prop) (x : Except ε α) : Prop := ∀ e, x = .error e → sort e

namespace FailsWith

variable {sort : ε → Prop} {x : Except ε α}

/-- What succeeds does not fail. -/
theorem ok {a : α} : FailsWith sort (.ok a : Except ε α) := by
  intro e h
  cases h

/-- A failure of the sort fails as the sort. -/
theorem error {e : ε} (h : sort e) : FailsWith sort (.error e : Except ε α) := by
  rintro e' ⟨⟩
  exact h

/-- Steps fail as the sort if each of them does. -/
theorem bind {f : α → Except ε β} (hx : FailsWith sort x) (hf : ∀ a, FailsWith sort (f a)) :
    FailsWith sort (x >>= f) := by
  intro e h
  obtain h | ⟨a, -, h⟩ := bind_eq_error.mp h
  · exact hx e h
  · exact hf a e h

/-- An error of another sort comes from what follows. -/
theorem of_bind_error {f : α → Except ε β} {e : ε} (hx : FailsWith sort x) (he : ¬sort e)
    (h : (x >>= f) = .error e) : ∃ a, x = .ok a ∧ f a = .error e := by
  obtain h | h := bind_eq_error.mp h
  · exact absurd (hx e h) he
  · exact h

/-- A map fails as what it maps. -/
theorem map {γ : Type w} {f : α → γ} (hx : FailsWith sort x) : FailsWith sort (x.map f) :=
  fun e h => hx e (map_eq_error.mp h)

/-- A list fails as the sort if each of its elements does. -/
theorem mapM {α : Type w} {f : α → Except ε β} {l : List α} (h : ∀ x, FailsWith sort (f x)) :
    FailsWith sort (l.mapM f) := by
  induction l with
  | nil => exact .ok
  | cons x l ih =>
    rw [List.mapM_cons]
    exact .bind (h x) fun _ => .bind ih fun _ => .ok

/-- A loop fails as the sort if each of its steps does. -/
theorem foldlM {α : Type w} {f : σ → α → Except ε σ} {l : List α} {s : σ}
    (h : ∀ t x, FailsWith sort (f t x)) : FailsWith sort (l.foldlM f s) := by
  intro e he
  obtain ⟨x, -, t, hx⟩ := foldlM_eq_error he
  exact h t x e hx

end FailsWith

end Lineage
