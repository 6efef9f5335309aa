import Lineage.Text.Blank
import Mathlib.Data.List.Basic
import Mathlib.Data.List.TakeWhile

namespace Lineage.Text

/-!
# Words, blank ends and lines

* `wordsOf_append_cons` — a blank separates words; all else about words follows from that,
* `Spaced` — words written one after the other, each behind blanks, `wordsOf_of_spaced` — they are
  read back,
* `trimChars_append` — a trimmed text begins with its first word, `exists_trimChars` — only blanks
  are lost in front,
* `mem_join`, `splitAt_join` — pieces that are joined are cut apart again, `filterMap_lines` — the
  lines of a text.
-/

/-- No character is blank. -/
def BlankFree (cs : List Char) : Prop := ∀ c ∈ cs, isBlank c = false

/-- All characters are blank. -/
def Blanks (cs : List Char) : Prop := ∀ c ∈ cs, isBlank c = true

-- By the list, or the instance might go through all characters there are.
instance (cs : List Char) : Decidable (BlankFree cs) := List.decidableBAll (isBlank · = false) cs

instance (cs : List Char) : Decidable (Blanks cs) := List.decidableBAll (isBlank · = true) cs

/-- A word: some characters, none of them blank. -/
def IsWord (cs : List Char) : Prop := cs ≠ [] ∧ BlankFree cs

instance (cs : List Char) : Decidable (IsWord cs) := inferInstanceAs (Decidable (_ ∧ _))

/-- A line feed is a blank. -/
theorem BlankFree.feed_not_mem {cs : List Char} (h : BlankFree cs) : '\n' ∉ cs := by
  intro hfeed
  cases h _ hfeed

/-! ### Words -/

/-- **A blank separates words.** -/
theorem wordsOf_append_cons {c : Char} (hc : isBlank c = true) (xs ys : List Char) :
    wordsOf (xs ++ c :: ys) = wordsOf xs ++ wordsOf ys := by
  unfold wordsOf
  rw [List.splitOnP_append_cons xs ys hc, List.filter_append]

/-- A blank in front adds no word. -/
theorem wordsOf_cons {c : Char} (hc : isBlank c = true) (cs : List Char) :
    wordsOf (c :: cs) = wordsOf cs :=
  wordsOf_append_cons hc [] cs

/-- Blanks in front are no part of any word. -/
theorem wordsOf_blanks_append {gap : List Char} (hgap : Blanks gap) (cs : List Char) :
    wordsOf (gap ++ cs) = wordsOf cs := by
  induction gap with
  | nil => rfl
  | cons c gap ih =>
    obtain ⟨hc, hgap⟩ := List.forall_mem_cons.mp hgap
    rw [List.cons_append, wordsOf_cons hc, ih hgap]

/-- A word is its only word. -/
theorem wordsOf_word {word : List Char} (hword : IsWord word) : wordsOf word = [word] := by
  rw [wordsOf, List.splitOnP_eq_singleton hword.2]
  simp [hword.1]

/-- Blanks have no words. -/
theorem wordsOf_blanks {cs : List Char} (h : Blanks cs) : wordsOf cs = [] := by
  have hnil := wordsOf_blanks_append h []
  rwa [List.append_nil] at hnil

/-- Blanks at the end are no part of any word. -/
theorem wordsOf_append_blanks {gap : List Char} (hgap : Blanks gap) (cs : List Char) :
    wordsOf (cs ++ gap) = wordsOf cs := by
  cases gap with
  | nil => rw [List.append_nil]
  | cons c gap =>
    obtain ⟨hc, hgap⟩ := List.forall_mem_cons.mp hgap
    rw [wordsOf_append_cons hc, wordsOf_blanks hgap, List.append_nil]

/-- Words one after the other, each behind blanks, and blanks at the end. -/
inductive Spaced : List (List Char) → List Char → Prop where
  | nil {trailing : List Char} : Blanks trailing → Spaced [] trailing
  | cons {gap word rest : List Char} {words : List (List Char)} : gap ≠ [] → Blanks gap →
      Spaced words rest → Spaced (word :: words) (gap ++ (word ++ rest))

/-- What is spaced begins with a blank, or is empty. -/
theorem Spaced.begins {words : List (List Char)} {cs : List Char} (h : Spaced words cs) :
    ∀ c ∈ cs.head?, isBlank c = true := by
  cases h with
  | nil htrailing => exact fun c hc => htrailing c (List.mem_of_mem_head? hc)
  | cons hne hgap _ =>
    intro c hc
    rw [List.head?_append_of_ne_nil _ hne] at hc
    exact hgap c (List.mem_of_mem_head? hc)

/-- A word ends at a blank, or with the text. -/
theorem wordsOf_word_append {word rest : List Char} (hword : IsWord word)
    (hrest : ∀ c ∈ rest.head?, isBlank c = true) :
    wordsOf (word ++ rest) = word :: wordsOf rest := by
  cases rest with
  | nil =>
    rw [List.append_nil, wordsOf_word hword]
    rfl
  | cons c rest =>
    have hc := hrest c rfl
    rw [wordsOf_append_cons hc, wordsOf_word hword, wordsOf_cons hc]
    rfl

/-- **Words that are spaced** are read back. -/
theorem wordsOf_of_spaced {words : List (List Char)} {cs : List Char} (h : Spaced words cs)
    (hwords : ∀ w ∈ words, IsWord w) : wordsOf cs = words := by
  induction h with
  | nil htrailing => exact wordsOf_blanks htrailing
  | @cons gap word rest words _ hgap hrest ih =>
    obtain ⟨hword, hwords⟩ := List.forall_mem_cons.mp hwords
    rw [wordsOf_blanks_append hgap, wordsOf_word_append hword hrest.begins, ih hwords]

/-- A text is cut where characters that satisfy a predicate end. -/
theorem exists_span (p : Char → Bool) (cs : List Char) :
    ∃ front rest, cs = front ++ rest ∧ (∀ c ∈ front, p c = true) ∧
      ∀ c ∈ rest.head?, p c = false := by
  refine ⟨cs.takeWhile p, cs.dropWhile p, List.takeWhile_append_dropWhile.symm,
    fun c hc => List.mem_takeWhile_imp hc, fun c hc => ?_⟩
  have hhead := List.head?_dropWhile_not p cs
  rw [hc] at hhead
  exact hhead

/-- **Every text** that begins with a blank, or is empty, has its words one after the other, each
    behind blanks. -/
theorem spaced_wordsOf {cs : List Char} (h : ∀ c ∈ cs.head?, isBlank c = true) :
    Spaced (wordsOf cs) cs ∧ ∀ w ∈ wordsOf cs, IsWord w := by
  -- by the length: behind its first word the text goes on with a blank, or ends
  induction hn : cs.length using Nat.strong_induction_on generalizing cs with
  | h n ih =>
    obtain ⟨gap, body, rfl, hgap, hbody⟩ := exists_span isBlank cs
    cases body with
    | nil =>
      rw [List.append_nil, wordsOf_blanks hgap]
      exact ⟨.nil hgap, List.forall_mem_nil _⟩
    | cons c body =>
      have hc := hbody c rfl
      have hne : gap ≠ [] := by
        rintro rfl
        rw [h c rfl] at hc
        cases hc
      obtain ⟨front, rest, rfl, hfront, hrest⟩ := exists_span (!isBlank ·) body
      simp only [Bool.not_eq_true', Bool.not_eq_false'] at hfront hrest
      have hword : IsWord (c :: front) :=
        ⟨List.cons_ne_nil _ _, List.forall_mem_cons.mpr ⟨hc, hfront⟩⟩
      have hshorter : rest.length < n := by
        rw [← hn]
        simp only [List.length_append, List.length_cons]
        omega
      obtain ⟨hspaced, hwords⟩ := ih _ hshorter hrest rfl
      rw [← List.cons_append, wordsOf_blanks_append hgap, wordsOf_word_append hword hrest]
      exact ⟨.cons hne hgap hspaced, List.forall_mem_cons.mpr ⟨hword, hwords⟩⟩

/-- Words that are empty are none: their blanks are those of the next one. -/
theorem Spaced.filter {words : List (List Char)} {cs : List Char} (h : Spaced words cs) :
    Spaced (words.filter (!·.isEmpty)) cs := by
  induction h with
  | nil htrailing => exact .nil htrailing
  | @cons gap word rest words hne hgap _ ih =>
    cases word with
    | cons c word => exact .cons hne hgap ih
    | nil =>
      rw [List.filter_cons_of_neg (by simp), List.nil_append]
      generalize words.filter (!·.isEmpty) = words at ih ⊢
      cases ih with
      | nil htrailing => exact .nil (List.forall_mem_append.mpr ⟨hgap, htrailing⟩)
      | cons hne' hgap' hrest =>
        rw [← List.append_assoc]
        exact .cons (by simp [hne]) (List.forall_mem_append.mpr ⟨hgap, hgap'⟩) hrest

/-! ### Blanks at the ends -/

/-- What is left before the blanks at the end. -/
def dropBlankEnd (cs : List Char) : List Char := (dropBlank cs.reverse).reverse

/-- Nothing is dropped up to a character that is not blank. -/
theorem dropBlankEnd_append {c : Char} (hc : isBlank c = false) (xs ys : List Char) :
    dropBlankEnd (xs ++ c :: ys) = xs ++ c :: dropBlankEnd ys := by
  have hreverse : (xs ++ c :: ys).reverse = ys.reverse ++ c :: xs.reverse := by simp
  rw [dropBlankEnd, hreverse, dropBlankEnd, dropBlank, List.dropWhile_append, dropBlank]
  split
  · rename_i hempty
    simp [List.isEmpty_iff.mp hempty, hc]
  · simp

/-- Nothing is left of blanks. -/
theorem dropBlankEnd_blanks {cs : List Char} (h : Blanks cs) : dropBlankEnd cs = [] := by
  have hall : dropBlank cs.reverse = [] :=
    List.dropWhile_eq_nil_iff.mpr fun c hc => h c (List.mem_reverse.mp hc)
  rw [dropBlankEnd, hall, List.reverse_nil]

/-- Nothing is dropped up to the end of a word. -/
theorem dropBlankEnd_word_append {word : List Char} (hword : IsWord word) (rest : List Char) :
    dropBlankEnd (word ++ rest) = word ++ dropBlankEnd rest := by
  obtain ⟨xs, c, rfl⟩ := (List.eq_nil_or_concat word).resolve_left hword.1
  have hc : isBlank c = false := hword.2 c (by simp)
  simpa using dropBlankEnd_append hc xs rest

/-- Words stay spaced without the blanks at the end. -/
theorem Spaced.dropBlankEnd {words : List (List Char)} {cs : List Char} (h : Spaced words cs)
    (hwords : ∀ w ∈ words, IsWord w) : Spaced words (dropBlankEnd cs) := by
  induction h with
  | nil htrailing =>
    rw [dropBlankEnd_blanks htrailing]
    exact .nil (by simp [Blanks])
  | @cons gap word rest words hne hgap _ ih =>
    obtain ⟨hword, hrest⟩ := List.forall_mem_cons.mp hwords
    have hend : Text.dropBlankEnd (gap ++ (word ++ rest))
        = gap ++ Text.dropBlankEnd (word ++ rest) := by
      obtain ⟨w, word, rfl⟩ := List.exists_cons_of_ne_nil hword.1
      have hw : isBlank w = false := hword.2 w List.mem_cons_self
      have hfirst := dropBlankEnd_append hw [] (word ++ rest)
      rw [List.cons_append, dropBlankEnd_append hw]
      exact congrArg (gap ++ ·) hfirst.symm
    rw [hend, dropBlankEnd_word_append hword]
    exact .cons hne hgap (ih hrest)

/-- A trimmed text begins with its first word. -/
theorem trimChars_append {indent word : List Char} (hindent : Blanks indent) (hword : IsWord word)
    (rest : List Char) : trimChars (indent ++ (word ++ rest)) = word ++ dropBlankEnd rest := by
  have hdrop : dropBlank (indent ++ (word ++ rest)) = word ++ rest := by
    rw [dropBlank, List.dropWhile_append_of_pos hindent]
    obtain ⟨w, word, rfl⟩ := List.exists_cons_of_ne_nil hword.1
    rw [List.cons_append, List.dropWhile_cons_of_neg]
    simpa using hword.2 w List.mem_cons_self
  rw [trimChars, hdrop]
  exact dropBlankEnd_word_append hword rest

/-- Only blanks are lost. -/
theorem exists_trimChars (cs : List Char) :
    ∃ indent trailing, Blanks indent ∧ Blanks trailing ∧
      cs = indent ++ (trimChars cs ++ trailing) := by
  refine ⟨cs.takeWhile isBlank, ((dropBlank cs).reverse.takeWhile isBlank).reverse, ?_, ?_, ?_⟩
  · exact fun c hc => List.mem_takeWhile_imp hc
  · exact fun c hc => List.mem_takeWhile_imp (List.mem_reverse.mp hc)
  · have hend : trimChars cs ++ ((dropBlank cs).reverse.takeWhile isBlank).reverse
        = dropBlank cs := by
      rw [trimChars, ← List.reverse_append]
      show (List.takeWhile isBlank _ ++ List.dropWhile isBlank _).reverse = _
      rw [List.takeWhile_append_dropWhile, List.reverse_reverse]
    rw [hend, dropBlank, List.takeWhile_append_dropWhile]

/-! ### Pieces and lines -/

/-- What is joined consists of separators and of what the pieces consist of. -/
theorem mem_join {sep c : Char} {ps : List (List Char)} (h : c ∈ [sep].intercalate ps) :
    c = sep ∨ ∃ p ∈ ps, c ∈ p := by
  induction ps with
  | nil => simp at h
  | cons p ps ih =>
    cases ps with
    | nil => exact .inr ⟨p, List.mem_cons_self, by simpa using h⟩
    | cons q ps =>
      rw [List.intercalate_cons_cons, List.mem_append, List.mem_append] at h
      rcases h with (hp | hsep) | hrest
      · exact .inr ⟨p, List.mem_cons_self, hp⟩
      · exact .inl (List.mem_singleton.mp hsep)
      · rcases ih hrest with hsep | ⟨r, hr, hc⟩
        · exact .inl hsep
        · exact .inr ⟨r, List.mem_cons_of_mem _ hr, hc⟩

/-- Pieces that are joined are cut again. -/
theorem pieces_join {sep : Char} {ps : List (List Char)} (hps : ps ≠ [])
    (hsep : ∀ p ∈ ps, sep ∉ p) : pieces sep ([sep].intercalate ps) = ps :=
  List.splitOn_intercalate sep hsep hps

/-- No piece has a separator in it. -/
theorem sep_not_mem_pieces {sep : Char} {cs p : List Char} (h : p ∈ pieces sep cs) : sep ∉ p := by
  induction cs generalizing p with
  | nil =>
    rw [pieces, List.splitOnP_nil, List.mem_singleton] at h
    simp [h]
  | cons c cs ih =>
    rw [pieces, List.splitOnP_cons_eq_if_modifyHead] at h
    split at h
    · obtain rfl | h := List.mem_cons.mp h
      · exact List.not_mem_nil
      · exact ih h
    · next hc =>
      obtain ⟨q, rest, hsplit⟩ := List.exists_cons_of_ne_nil (List.splitOnP_ne_nil (· == sep) cs)
      rw [hsplit, List.modifyHead_cons] at h
      obtain rfl | h := List.mem_cons.mp h
      · have hq : sep ∉ q := ih (by rw [pieces, hsplit]; exact List.mem_cons_self)
        intro hmem
        obtain rfl | hmem := List.mem_cons.mp hmem
        · exact hc (beq_self_eq_true _)
        · exact hq hmem
      · exact ih (by rw [pieces, hsplit]; exact List.mem_cons_of_mem _ h)

/-- **Pieces that are joined** are cut apart again. -/
theorem splitAt_join {sep : Char} {texts : List String} (htexts : texts ≠ [])
    (hsep : ∀ t ∈ texts, sep ∉ t.toList) :
    splitAt sep (String.ofList ([sep].intercalate (texts.map String.toList))) = texts := by
  have hpieces : ∀ p ∈ texts.map String.toList, sep ∉ p := by
    intro p hp
    obtain ⟨t, ht, rfl⟩ := List.mem_map.mp hp
    exact hsep t ht
  rw [splitAt, String.toList_ofList, pieces_join (by simpa using htexts) hpieces, List.map_map]
  simp [Function.comp_def]

/-- What is collected from the lines of a text is collected from its pieces: a line that is dropped
    at the end is empty. -/
theorem filterMap_lines {α : Type} {f : List Char → Option α} (hf : f [] = none) (s : String) :
    (lines s).filterMap (fun line => f line.toList)
      = (pieces '\n' s.toList).filterMap fun p => f (trimChars p) := by
  have hcollect : ∀ ps : List (List Char),
      (ps.map (String.ofList ∘ trimChars)).filterMap (fun line => f line.toList)
        = ps.filterMap fun p => f (trimChars p) := by
    intro ps
    rw [List.filterMap_map]
    simp [Function.comp_def]
  rw [lines]
  split
  · rename_i hlast
    have hempty : f (trimChars []) = none := hf
    have hsplit := List.dropLast_append_getLast? [] (beq_iff_eq.mp hlast)
    rw [hcollect, ← hsplit, List.filterMap_append]
    simp [hempty]
  · exact hcollect _

end Lineage.Text
