import Lineage.Decimal.Literal
import Mathlib.Data.List.Induction
import Mathlib.Data.Nat.Digits.Defs

namespace Lineage.Decimal

/-!
# Integer literals

* `Numeral`, `digitsValue` — one or more decimal digits, and the number that they denote,
* `Denotes` — a numeral with an optional sign, and the integer that it denotes,
* `integer?_eq_some_iff` — exactly these texts are read as integers, and each as what it denotes.
-/

/-- One or more decimal digits. -/
structure Numeral (ds : List Char) : Prop where
  nonempty : ds ≠ []
  digits : ∀ d ∈ ds, d.isDigit

/-- The number that digits denote in base ten, the leading digit first. -/
def digitsValue (ds : List Char) : Nat :=
  Nat.ofDigits 10 (ds.reverse.map fun d => d.toNat - '0'.toNat)

/-- A decimal integer literal, with an optional sign, denotes an integer. -/
inductive Denotes : List Char → Int → Prop
  | bare {ds : List Char} (h : Numeral ds) : Denotes ds (digitsValue ds)
  | plus {ds : List Char} (h : Numeral ds) : Denotes ('+' :: ds) (digitsValue ds)
  | minus {ds : List Char} (h : Numeral ds) : Denotes ('-' :: ds) (-(digitsValue ds : Int))

/-! ### Digits -/

/-- The digits are those of the library. -/
theorem isDigit_eq (c : Char) : isDigit c = c.isDigit := by
  unfold isDigit digit? Char.isDigit
  have hle : (decide ('0' ≤ c) && decide (c ≤ '9')) =
      (decide (c.val ≥ '0'.val) && decide (c.val ≤ '9'.val)) :=
    rfl
  rw [hle]
  split <;> simp_all

/-- The value of a digit. -/
theorem digit?_eq_some {c : Char} (h : c.isDigit) : digit? c = some (c.toNat - '0'.toNat) := by
  rw [← isDigit_eq, isDigit] at h
  unfold digit? at h ⊢
  split
  · rfl
  · simp_all

/-- Reading digits one after the other gives the number that they denote. -/
theorem valueFrom_eq {ds : List Char} (h : ∀ d ∈ ds, d.isDigit) :
    valueFrom 0 ds = digitsValue ds := by
  -- from the end, since the last digit is the one of the ones
  induction ds using List.reverseRecOn with
  | nil => rfl
  | append_singleton ds d ih =>
    have hd := digit?_eq_some (h d (by simp))
    have hds := ih fun e he => h e (List.mem_append_left _ he)
    have hvalue : digitsValue (ds ++ [d]) = d.toNat - '0'.toNat + 10 * digitsValue ds := by
      rw [digitsValue, List.reverse_concat, List.map_cons, Nat.ofDigits_cons]
      rfl
    rw [valueFrom_append, hds, hvalue, valueFrom, List.foldl_cons, List.foldl_nil, hd,
      Option.getD_some, Nat.add_comm]

/-- A numeral is read as the value of its digits. -/
theorem natural?_eq_some_iff {ds : List Char} {n : Nat} :
    natural? ds = some n ↔ Numeral ds ∧ n = digitsValue ds := by
  unfold natural?
  constructor
  · intro h
    split at h
    · cases h
    · rename_i hnot
      simp only [Bool.or_eq_true, not_or, Bool.not_eq_true, Bool.not_eq_false', List.all_eq_true,
        isDigit_eq, List.isEmpty_eq_false_iff] at hnot
      exact ⟨⟨hnot.1, hnot.2⟩, by rw [← valueFrom_eq hnot.2, Option.some.inj h]⟩
  · rintro ⟨⟨hne, hds⟩, rfl⟩
    rw [if_neg, valueFrom_eq hds]
    simpa [isDigit_eq, hne] using hds

/-! ### Signs -/

/-- A numeral has no sign. -/
theorem Numeral.signed_eq {ds : List Char} (h : Numeral ds) : signed ds = (false, ds) := by
  cases ds with
  | nil => rfl
  | cons d ds =>
    have hd := h.digits d List.mem_cons_self
    unfold signed
    split
    · rename_i heq
      obtain ⟨rfl, -⟩ := List.cons.inj heq
      cases hd
    · rename_i heq
      obtain ⟨rfl, -⟩ := List.cons.inj heq
      cases hd
    · rfl

/-- An integer is a numeral behind a sign. -/
theorem integer?_eq (cs : List Char) : integer? cs =
    (natural? (signed cs).2).map fun n : Nat => if (signed cs).1 then -(n : Int) else n := by
  unfold integer?
  cases h : natural? (signed cs).2 <;> simp [h]

/-- **Reading integers.** Exactly the integer literals are read, and each as the integer that it
    denotes. -/
theorem integer?_eq_some_iff {cs : List Char} {n : Int} : integer? cs = some n ↔ Denotes cs n := by
  rw [integer?_eq]
  constructor
  · intro h
    obtain ⟨k, hk, rfl⟩ := Option.map_eq_some_iff.mp h
    obtain ⟨hds, rfl⟩ := natural?_eq_some_iff.mp hk
    unfold signed at hds ⊢
    split at hds
    · exact .minus hds
    · exact .plus hds
    · exact .bare hds
  · intro h
    cases h with
    | bare h => simp [h.signed_eq, natural?_eq_some_iff.mpr ⟨h, rfl⟩]
    | plus h => simp [signed, natural?_eq_some_iff.mpr ⟨h, rfl⟩]
    | minus h => simp [signed, natural?_eq_some_iff.mpr ⟨h, rfl⟩]

/-- A text denotes one integer at most. -/
theorem Denotes.unique {cs : List Char} {m n : Int} (hm : Denotes cs m) (hn : Denotes cs n) :
    m = n := by
  rw [← integer?_eq_some_iff] at hm hn
  exact Option.some.inj (hm.symm.trans hn)

end Lineage.Decimal
