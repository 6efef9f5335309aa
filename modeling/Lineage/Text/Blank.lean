namespace Lineage.Text

/-!
# Blank characters, words and lines

A character is blank iff it has the Unicode property `White_Space`.  On top of that one class:

* `trim`  — a text without the blanks at its two ends,
* `wordsOf` — the maximal blank-free runs of a text,
* `lines` — the trimmed lines of a text, each ended by a line feed or by the end of the text.

All three work on lists of characters; the `String` forms only convert.
-/

/-! ### The class -/

/-- The property `White_Space`: twenty-five code points. -/
def isBlank (c : Char) : Bool :=
  let n := c.toNat
  (0x09 ≤ n && n ≤ 0x0D) || n == 0x20 || n == 0x85 || n == 0xA0 || n == 0x1680
    || (0x2000 ≤ n && n ≤ 0x200A) || n == 0x2028 || n == 0x2029 || n == 0x202F
    || n == 0x205F || n == 0x3000

/-! ### Lists of characters -/

/-- What is left after the blanks in front. -/
def dropBlank (cs : List Char) : List Char := cs.dropWhile isBlank

/-- What is left without the blanks at both ends. -/
def trimChars (cs : List Char) : List Char := (dropBlank (dropBlank cs).reverse).reverse

/-- The maximal runs of characters that are not blank. -/
def wordsOf (cs : List Char) : List (List Char) :=
  (cs.splitOnP isBlank).filter (!·.isEmpty)

/-- The rest of a list behind a given beginning, if it has that beginning. -/
def after? [BEq α] : List α → List α → Option (List α)
  | [], cs => some cs
  | _ :: _, [] => none
  | a :: as, c :: cs => if a == c then after? as cs else none

/-- Cut at the first element that satisfies `p`, which is dropped. -/
def cutAt? (p : α → Bool) : List α → Option (List α × List α)
  | [] => none
  | c :: cs => if p c then some ([], cs) else (cutAt? p cs).map fun q => (c :: q.1, q.2)

/-- The pieces between the elements equal to `sep`; a list without any is one piece. -/
def pieces [BEq α] (sep : α) (cs : List α) : List (List α) := cs.splitOnP (· == sep)

/-! ### Texts -/

/-- A text without the blanks at its two ends. -/
def trim (s : String) : String := String.ofList (trimChars s.toList)

/-- The pieces of a text between the occurrences of a character. -/
def splitAt (sep : Char) (s : String) : List String := (pieces sep s.toList).map String.ofList

/-- The lines of a text, trimmed.  A line feed ends a line; what follows the last one is a line
    of its own unless it is empty. -/
def lines (s : String) : List String :=
  let ps := pieces '\n' s.toList
  (if ps.getLast? == some [] then ps.dropLast else ps).map (String.ofList ∘ trimChars)

/-! ### Small laws -/

/-- What follows a beginning. -/
theorem after?_append [BEq α] [LawfulBEq α] (as cs : List α) : after? as (as ++ cs) = some cs := by
  induction as with
  | nil => rfl
  | cons a as ih => simp [after?, ih]

/-- What has a beginning is that beginning and what follows it. -/
theorem eq_append_of_after? [BEq α] [LawfulBEq α] {as cs rest : List α}
    (h : after? as cs = some rest) : cs = as ++ rest := by
  induction as generalizing cs with
  | nil => simpa [after?] using h
  | cons a as ih =>
    cases cs with
    | nil => simp [after?] at h
    | cons c cs =>
      by_cases hac : a = c
      · subst hac; simp [after?] at h; simp [ih h]
      · simp [after?, hac] at h

/-- A text is cut at the first character that fits. -/
theorem eq_of_cutAt? {p : α → Bool} {cs a b : List α} (h : cutAt? p cs = some (a, b)) :
    ∃ c, p c = true ∧ cs = a ++ c :: b ∧ ∀ x ∈ a, p x = false := by
  induction cs generalizing a with
  | nil => simp [cutAt?] at h
  | cons c cs ih =>
    by_cases hc : p c
    · simp only [cutAt?, hc, if_true, Option.some.injEq, Prod.mk.injEq] at h
      obtain ⟨rfl, rfl⟩ := h
      exact ⟨c, hc, rfl, by simp⟩
    · obtain ⟨a', h', rfl⟩ : ∃ a', cutAt? p cs = some (a', b) ∧ c :: a' = a := by
        simpa [cutAt?, hc] using h
      obtain ⟨d, hd, rfl, ha⟩ := ih h'
      exact ⟨d, hd, rfl, by simpa [hc] using ha⟩

example : lines "a\r\n\n b \n" = ["a", "", "b"] := by decide
example : lines "" = [] := by decide

end Lineage.Text
