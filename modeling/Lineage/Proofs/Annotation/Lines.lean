import Lineage.Proofs.Annotation.Comments

namespace Lineage.Annotation.Comments

open Text

/-!
# The directive lines of comments

What a comment says with a verb, given by its text and not by how it is read.

* `LineOf` — a line with a verb and some tokens; `argument?_eq_some_iff` — exactly these are read,
  each as its tokens,
* `Listed` — the tokens of all lines with a verb, line by line; `argumentsOf_of_listed`, `holds_iff`
  — they are those that are read.
-/

/-! ### One line -/

/-- A line with a verb: behind its indent the tag, then the verb and some tokens without blanks,
    each behind blanks. -/
def LineOf (verb : Verb) (tokens : List (List Char)) (line : List Char) : Prop :=
  (∀ t ∈ tokens, BlankFree t) ∧
    ∃ indent rest, Blanks indent ∧ Spaced (verb.name.toList :: tokens) rest ∧
      line = indent ++ (tag ++ rest)

/-- Tokens that are empty are none. -/
def proper (tokens : List (List Char)) : List (List Char) := tokens.filter (!·.isEmpty)

/-- Tokens without blanks are words unless they are empty. -/
theorem isWord_of_mem_proper {tokens : List (List Char)} (h : ∀ t ∈ tokens, BlankFree t) :
    ∀ t ∈ proper tokens, IsWord t := by
  intro t ht
  obtain ⟨hmem, hne⟩ := List.mem_filter.mp ht
  exact ⟨by simpa using hne, h t hmem⟩

/-- Words are all kept. -/
theorem proper_of_words {tokens : List (List Char)} (h : ∀ t ∈ tokens, IsWord t) :
    proper tokens = tokens :=
  List.filter_eq_self.mpr fun t ht => by simpa using (h t ht).1

/-- Behind the tag stand a blank, the verb and the tokens. -/
theorem exists_of_directive? {line verb : List Char} {tokens : List (List Char)}
    (h : directive? line = some (verb, tokens)) :
    ∃ c rest, line = tag ++ c :: rest ∧ isBlank c = true ∧ wordsOf rest = verb :: tokens := by
  rw [directive?] at h
  split at h
  · rename_i c rest hafter
    split at h
    · rename_i hc hwords
      cases h
      exact ⟨c, rest, eq_append_of_after? hafter, hc, hwords⟩
    · cases h
  · cases h

/-- **A line with a verb** is read as its tokens, and no other line is read. -/
theorem argument?_eq_some_iff {verb : Verb} {tokens : List (List Char)} {line : List Char} :
    argument? verb (trimChars line) = some tokens ↔ LineOf verb tokens line ∧
      ∀ t ∈ tokens, IsWord t := by
  constructor
  · intro h
    rw [argument?] at h
    split at h
    · rename_i v ts hdirective
      obtain ⟨hv, hts⟩ := Option.ite_none_right_eq_some.mp h
      obtain rfl := Option.some.inj hts
      obtain rfl := beq_iff_eq.mp hv
      obtain ⟨indent, trailing, hindent, htrailing, hline⟩ := exists_trimChars line
      obtain ⟨c, rest, htrim, hc, hwords⟩ := exists_of_directive? hdirective
      -- blanks that are trimmed at the end belong to no word
      have hbegins : ∀ d ∈ (c :: (rest ++ trailing)).head?, isBlank d = true := by
        rintro d ⟨⟩
        exact hc
      have hspaced := spaced_wordsOf hbegins
      rw [wordsOf_cons hc, wordsOf_append_blanks htrailing, hwords] at hspaced
      have htokens := (List.forall_mem_cons.mp hspaced.2).2
      have hwhole : line = indent ++ (tag ++ c :: (rest ++ trailing)) := by
        rw [hline, htrim]
        simp
      exact ⟨⟨fun t ht => (htokens t ht).2, indent, c :: (rest ++ trailing), hindent, hspaced.1,
        hwhole⟩, htokens⟩
    · cases h
  · rintro ⟨⟨-, indent, rest, hindent, hspaced, rfl⟩, htokens⟩
    have hwords := List.forall_mem_cons.mpr ⟨isWord_verb verb, htokens⟩
    rw [argument?, directive?_of_spaced hindent hspaced hwords]
    simp

/-- The tokens of a line with the verb are its proper tokens. -/
theorem LineOf.argument?_eq {verb : Verb} {tokens : List (List Char)} {line : List Char}
    (h : LineOf verb tokens line) : argument? verb (trimChars line) = some (proper tokens) := by
  obtain ⟨hfree, indent, rest, hindent, hspaced, hline⟩ := h
  have hwords := isWord_of_mem_proper hfree
  have hspaced := hspaced.filter
  rw [List.filter_cons_of_pos (by simpa using (isWord_verb verb).1)] at hspaced
  exact argument?_eq_some_iff.mpr
    ⟨⟨fun t ht => (hwords t ht).2, indent, rest, hindent, hspaced, hline⟩, hwords⟩

/-- Lines without arguments are those without the verb. -/
theorem argument?_eq_none_iff {verb : Verb} {line : List Char} :
    argument? verb (trimChars line) = none ↔ ∀ tokens, ¬LineOf verb tokens line := by
  rw [Option.eq_none_iff_forall_ne_some]
  constructor
  · exact fun h tokens hline => h _ hline.argument?_eq
  · exact fun h tokens hread => h tokens (argument?_eq_some_iff.mp hread).1

/-! ### All lines -/

/-- The lines of comments, of the leading block and then of the detached ones. -/
def commentLines (c : Lineage.Comments) : List (List Char) :=
  (c.leading :: c.detached).flatMap fun block => pieces '\n' block.toList

/-- The tokens of all lines with a verb, line by line; other lines are passed over. -/
inductive Listed (verb : Verb) : List (List Char) → List (List (List Char)) → Prop where
  | nil : Listed verb [] []
  | line {tokens : List (List Char)} {line : List Char} {rest : List (List Char)}
      {more : List (List (List Char))} :
      LineOf verb tokens line → Listed verb rest more → Listed verb (line :: rest) (tokens :: more)
  | other {line : List Char} {rest : List (List Char)} {more : List (List (List Char))} :
      (∀ tokens, ¬LineOf verb tokens line) → Listed verb rest more → Listed verb (line :: rest) more

/-- What comments say with a verb: the tokens of all lines with that verb, each a word. -/
def Holds (verb : Verb) (c : Lineage.Comments) (lines : List (List (List Char))) : Prop :=
  Listed verb (commentLines c) lines ∧ ∀ tokens ∈ lines, ∀ t ∈ tokens, IsWord t

variable {verb : Verb} {carrier : Carrier} {lines : List (List (List Char))}

/-- The arguments of a verb are those of the comment lines with it. -/
theorem argumentsOf_eq_filterMap (verb : Verb) (carrier : Carrier) : argumentsOf verb carrier =
    (commentLines carrier.comments).filterMap fun line => argument? verb (trimChars line) := by
  rw [argumentsOf_eq, Lineage.Comments.lines, commentLines, List.filterMap_flatMap,
    List.filterMap_flatMap]
  exact List.flatMap_congr fun block _ => filterMap_lines rfl block

/-- **The lines with a verb** are read as their tokens, and no other lines are read. -/
theorem argumentsOf_of_listed (h : Listed verb (commentLines carrier.comments) lines) :
    argumentsOf verb carrier = lines.map proper := by
  rw [argumentsOf_eq_filterMap]
  generalize commentLines carrier.comments = ls at h ⊢
  induction h with
  | nil => rfl
  | line hline _ ih => rw [List.filterMap_cons, hline.argument?_eq, ih, List.map_cons]
  | other hother _ ih => rw [List.filterMap_cons, argument?_eq_none_iff.mpr hother, ih]

/-- Comments hold the arguments that are read from them. -/
theorem holds_argumentsOf (verb : Verb) (carrier : Carrier) :
    Holds verb carrier.comments (argumentsOf verb carrier) := by
  rw [argumentsOf_eq_filterMap]
  constructor
  · generalize commentLines carrier.comments = ls
    induction ls with
    | nil => exact .nil
    | cons line ls ih =>
      rw [List.filterMap_cons]
      split
      · rename_i hnone
        exact .other (argument?_eq_none_iff.mp hnone) ih
      · rename_i tokens hsome
        exact .line (argument?_eq_some_iff.mp hsome).1 ih
  · intro tokens htokens
    obtain ⟨line, -, hsome⟩ := List.mem_filterMap.mp htokens
    exact (argument?_eq_some_iff.mp hsome).2

/-- What comments say with a verb is what is read of it. -/
theorem holds_iff : Holds verb carrier.comments lines ↔ lines = argumentsOf verb carrier := by
  constructor
  · rintro ⟨hlisted, hwords⟩
    rw [argumentsOf_of_listed hlisted, List.map_congr_left fun tokens ht =>
      proper_of_words (hwords tokens ht), List.map_id']
  · rintro rfl
    exact holds_argumentsOf verb carrier

end Lineage.Annotation.Comments
