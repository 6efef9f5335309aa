import Lineage.Proofs.Annotation.Comments
import Lineage.Proofs.Annotation.Options

namespace Lineage.Annotation

open Text

/-!
# Writing annotations

All writable facts can be written either way.

* `Comments.exists_blockWritten` — directives, each on a line of its own,
* `Facts.directives` — directives that state some facts, `Facts.exists_inComments` — comments that
  hold them,
* `Facts.json` — the payload that states some facts, `Facts.exists_inOptions` — an option that holds
  it.
-/

/-! ### Writing comments -/

namespace Comments

/-- Words with a space in front of each. -/
def spell (words : List (List Char)) : List Char := words.flatMap (' ' :: ·)

/-- Words are spelled with a space between them. -/
theorem spaced_spell (words : List (List Char)) : Spaced words (spell words) := by
  induction words with
  | nil => exact .nil (by decide)
  | cons word words ih => exact @Spaced.cons [' '] word _ words (by decide) (by decide) ih

/-- A directive on a line of its own. -/
def Directive.line (d : Directive) : List Char :=
  tag ++ spell (d.verb.name.toList :: d.pairs.map (·.token.toList))

/-- The line of a directive is a way to write it. -/
theorem Directive.line_written (d : Directive) : LineWritten (some d) d.line :=
  @LineWritten.directive d [] _ (by decide) (spaced_spell _)

/-- The line of a directive is one line. -/
theorem Directive.feed_not_mem_line {d : Directive} (hd : ∀ p ∈ d.pairs, p.Readable) :
    '\n' ∉ d.line := by
  intro hfeed
  rcases List.mem_append.mp hfeed with htag | hspell
  · exact isWord_tag.2.feed_not_mem htag
  · obtain ⟨word, hword, hmem⟩ := List.mem_flatMap.mp hspell
    have hfree : BlankFree word := by
      rcases List.mem_cons.mp hword with rfl | hword
      · exact (isWord_verb d.verb).2
      · obtain ⟨p, hp, rfl⟩ := List.mem_map.mp hword
        exact (hd p hp).1.2
    rcases List.mem_cons.mp hmem with hspace | hmem
    · cases hspace
    · exact hfree.feed_not_mem hmem

/-- Directives can be written, each on a line of its own. -/
theorem exists_blockWritten {ds : List Directive} (hne : ds ≠ [])
    (hread : ∀ d ∈ ds, ∀ p ∈ d.pairs, p.Readable) : ∃ block, BlockWritten ds block := by
  refine ⟨String.ofList (['\n'].intercalate (ds.map Directive.line)), ds.map some,
    ds.map Directive.line, String.toList_ofList, by simpa using hne, ?_, ?_, ?_⟩
  · intro l hl
    obtain ⟨d, hd, rfl⟩ := List.mem_map.mp hl
    exact Directive.feed_not_mem_line (hread d hd)
  · rw [List.forall₂_map_left_iff, List.forall₂_map_right_iff, List.forall₂_same]
    exact fun d _ => d.line_written
  · show (ds.map some).filterMap id = ds
    simp

/-- A flag as a pair, if it holds. -/
def flagPairs (b : Bool) : List Pair := if b then [⟨"required", "true"⟩] else []

/-- A text as a pair, if there is one. -/
def textPairs (key : String) (text : Option String) : List Pair := (text.map (⟨key, ·⟩)).toList

/-- The pairs that state the constraints of a field or oneof. -/
def constraintPairs (d : ValidateDirectives) : List Pair :=
  flagPairs d.required ++ textPairs "min" d.min ++ textPairs "max" d.max
    ++ textPairs "in" (d.members.map fun ms =>
      String.ofList ([','].intercalate (ms.map String.toList)))
    ++ textPairs "is" d.format

/-- The pairs that state what is received of a field, oneof or value. -/
def demandPairs (d : ReceiveDirectives) : List Pair :=
  flagPairs d.required ++ d.names.map (⟨"name", ·⟩)

/-- The values of pairs, then of others. -/
theorem valuesOf_append (key : String) (ps qs : List Pair) :
    valuesOf key (ps ++ qs) = valuesOf key ps ++ valuesOf key qs := by
  simp [valuesOf]

/-- The values of a flag. -/
theorem valuesOf_flagPairs (key : String) (b : Bool) :
    valuesOf key (flagPairs b) = if key = "required" ∧ b then ["true"] else [] := by
  cases b
  · simp [valuesOf, flagPairs]
  · by_cases hkey : key = "required"
    · simp [valuesOf, flagPairs, hkey]
    · simp [valuesOf, flagPairs, hkey, Ne.symm hkey]

/-- The values of a text. -/
theorem valuesOf_textPairs (key name : String) (text : Option String) :
    valuesOf key (textPairs name text) = if name = key then text.toList else [] := by
  cases text with
  | none => simp [valuesOf, textPairs]
  | some t => by_cases hkey : name = key <;> simp [valuesOf, textPairs, hkey]

/-- A fact states itself. -/
theorem stated_toList {α : Type} (fact : Option α) : Stated fact.toList fact := by
  cases fact with
  | none => exact ⟨by simp, fun _ => rfl⟩
  | some v => exact ⟨by simp, by simp⟩

/-- A flag states itself. -/
theorem flagged_if (b : Bool) : Flagged (if b then ["true"] else []) b := by
  cases b
  · exact ⟨by simp, fun _ => rfl⟩
  · exact ⟨by simp, by simp⟩

/-- The key of a flag. -/
theorem key_flagPairs {b : Bool} {p : Pair} (hp : p ∈ flagPairs b) : p.key = "required" := by
  cases b with
  | false => cases hp
  | true =>
    obtain rfl := List.mem_singleton.mp hp
    rfl

/-- The key of a text. -/
theorem key_textPairs {key : String} {text : Option String} {p : Pair}
    (hp : p ∈ textPairs key text) : p.key = key := by
  obtain ⟨t, -, rfl⟩ := Option.map_eq_some_iff.mp (Option.mem_toList.mp hp)
  rfl

/-- The values of constraints. -/
theorem valuesOf_constraintPairs (key : String) (d : ValidateDirectives) :
    valuesOf key (constraintPairs d) =
      (if key = "required" ∧ d.required then ["true"] else [])
        ++ (if "min" = key then d.min.toList else []) ++ (if "max" = key then d.max.toList else [])
        ++ (if "in" = key then (d.members.map fun ms =>
            String.ofList ([','].intercalate (ms.map String.toList))).toList else [])
        ++ (if "is" = key then d.format.toList else []) := by
  simp only [constraintPairs, valuesOf_append, valuesOf_flagPairs, valuesOf_textPairs]

/-- The pairs of constraints state them. -/
theorem statesConstraints_constraintPairs (d : ValidateDirectives) :
    StatesConstraints d (constraintPairs d) where
  keys := by
    intro p hp
    simp only [constraintPairs, List.mem_append] at hp
    rcases hp with (((hp | hp) | hp) | hp) | hp
    · rw [key_flagPairs hp]
      decide
    all_goals
      rw [key_textPairs hp]
      decide
  required := by simpa [valuesOf_constraintPairs] using flagged_if d.required
  min := by simpa [valuesOf_constraintPairs] using stated_toList d.min
  max := by simpa [valuesOf_constraintPairs] using stated_toList d.max
  members := by
    simpa [valuesOf_constraintPairs] using stated_toList
      (d.members.map fun ms => String.ofList ([','].intercalate (ms.map String.toList)))
  format := by simpa [valuesOf_constraintPairs] using stated_toList d.format

/-- The values of names. -/
theorem valuesOf_names (key : String) (names : List String) :
    valuesOf key (names.map (⟨"name", ·⟩)) = if "name" = key then names else [] := by
  by_cases hkey : "name" = key
  · subst hkey
    simp [valuesOf, List.filter_map, Function.comp_def]
  · simp [valuesOf, List.filter_map, Function.comp_def, hkey]

/-- The pairs of demands state them. -/
theorem statesDemands_demandPairs (d : ReceiveDirectives) : StatesDemands d (demandPairs d) where
  keys := by
    intro p hp
    rcases List.mem_append.mp hp with hp | hp
    · rw [key_flagPairs hp]
      decide
    · obtain ⟨n, -, rfl⟩ := List.mem_map.mp hp
      show "name" ∈ demandKeys
      decide
  required := by
    simpa [demandPairs, valuesOf_append, valuesOf_flagPairs, valuesOf_names]
      using flagged_if d.required
  names := by simp [demandPairs, valuesOf_append, valuesOf_flagPairs, valuesOf_names]

end Comments

open Lineage.Annotation.Comments

/-- One directive for each thing that is said. -/
def Facts.directives (f : Facts) : List Directive :=
  (f.delegate.map fun d => ⟨.delegate, [⟨"name", d⟩]⟩).toList
    ++ (if f.deprecated then [⟨.deprecated, []⟩] else [])
    ++ [⟨.validate, constraintPairs f.validate⟩, ⟨.receive, demandPairs f.receive⟩]

/-- The lines of the directives of some facts, by their verbs. -/
theorem Facts.linesOf_directives (f : Facts) (verb : Verb) : linesOf verb f.directives =
    match verb with
    | .delegate => (f.delegate.map fun d => [⟨"name", d⟩]).toList
    | .deprecated => if f.deprecated then [[]] else []
    | .validate => [constraintPairs f.validate]
    | .receive => [demandPairs f.receive] := by
  cases verb <;> cases hd : f.delegate <;> cases hb : f.deprecated <;>
    simp [linesOf, directives, hd, hb]

/-- The directives of some facts state them. -/
theorem Facts.statedBy_directives (f : Facts) : f.StatedBy f.directives where
  delegate := by
    rw [f.linesOf_directives .delegate]
    exact stated_toList _
  deprecated := by
    rw [f.linesOf_directives .deprecated]
    cases f.deprecated <;> simp
  bare := by
    rw [f.linesOf_directives .deprecated]
    cases f.deprecated <;> simp
  validate := by
    rw [f.linesOf_directives .validate]
    simpa using statesConstraints_constraintPairs f.validate
  receive := by
    rw [f.linesOf_directives .receive]
    simpa using statesDemands_demandPairs f.receive

/-- **Comments** can hold all writable facts. -/
theorem Facts.exists_inComments {f : Facts} (hf : f.Writable) :
    ∃ carrier, f.InComments carrier := by
  have hne : f.directives ≠ [] := by simp [directives]
  obtain ⟨block, hblock⟩ := exists_blockWritten hne (readable_of_statedBy hf f.statedBy_directives)
  refine ⟨{ comments := { leading := block } }, [f.directives], .cons hblock .nil, ?_⟩
  rw [List.flatten_singleton]
  exact f.statedBy_directives

/-! ### Writing options -/

open Lineage.Annotation.Options

/-- A value that is `null` if it is missing. -/
def optionJson {α : Type} (json : α → Json) (o : Option α) : Json := (o.map json).getD .null

/-- A value that may be missing is written. -/
theorem writesOption_optionJson {α : Type} {writes : α → Json → Prop} {json : α → Json}
    (h : ∀ a, writes a (json a)) (o : Option α) : WritesOption writes o (optionJson json o) := by
  cases o with
  | none => rfl
  | some a => exact h a

/-- Texts as an array. -/
def textsJson (texts : List String) : Json := .array (texts.map .string)

/-- Texts are written. -/
theorem writesList_textsJson {writes : String → Json → Prop} (h : ∀ s, writes s (.string s))
    (texts : List String) : WritesList writes texts (textsJson texts) := by
  refine ⟨texts.map .string, rfl, ?_⟩
  rw [List.forall₂_map_right_iff, List.forall₂_same]
  exact fun s _ => h s

/-- A text is written. -/
theorem writesText_string (s : String) : WritesText s (.string s) := rfl

/-- An entry that is there. -/
theorem entered_of_lookup {α : Type} {es : List (String × Json)} {name : String}
    {writes : α → Json → Prop} {default value : α} {j : Json} (hlookup : es.lookup name = some j)
    (h : writes value j) : Entered es name writes default value := by
  rw [Entered, hlookup]
  exact h

/-- A delegate as an object with its name. -/
def delegateJson (d : String) : Json := .object [("name", .string d)]

/-- A delegate is written. -/
theorem writesDelegate_delegateJson (d : String) : WritesDelegate d (delegateJson d) :=
  ⟨_, rfl, by simp, entered_of_lookup rfl rfl⟩

/-- Constraints as an object with all five entries. -/
def constraintsJson (d : ValidateDirectives) : Json :=
  .object [("required", .bool d.required), ("min", optionJson .string d.min),
    ("max", optionJson .string d.max), ("in", optionJson textsJson d.members),
    ("is", optionJson .string d.format)]

/-- Constraints are written. -/
theorem writesConstraints_constraintsJson (d : ValidateDirectives) :
    WritesConstraints d (constraintsJson d) := by
  refine ⟨_, rfl, by simp, ?_⟩
  exact {
    required := entered_of_lookup rfl rfl
    min := entered_of_lookup rfl (writesOption_optionJson .text d.min)
    max := entered_of_lookup rfl (writesOption_optionJson .text d.max)
    members := entered_of_lookup rfl
      (writesOption_optionJson (writesList_textsJson .text) d.members)
    format := entered_of_lookup rfl (writesOption_optionJson writesText_string d.format) }

/-- Demands as an object with both entries. -/
def demandsJson (d : ReceiveDirectives) : Json :=
  .object [("required", .bool d.required), ("names", textsJson d.names)]

/-- Demands are written. -/
theorem writesDemands_demandsJson (d : ReceiveDirectives) : WritesDemands d (demandsJson d) := by
  refine ⟨_, rfl, by simp, ?_⟩
  exact {
    required := entered_of_lookup rfl rfl
    names := entered_of_lookup rfl (writesList_textsJson writesText_string d.names) }

/-- A payload with all four entries. -/
def Facts.json (f : Facts) : Json :=
  .object [("delegate", optionJson delegateJson f.delegate), ("deprecated", .bool f.deprecated),
    ("validate", constraintsJson f.validate), ("receive", demandsJson f.receive)]

/-- Facts are written as an object. -/
theorem Facts.writesObject_json (f : Facts) :
    WritesObject ["delegate", "deprecated", "validate", "receive"] (EntersFacts f) f.json := by
  refine ⟨_, rfl, by simp, ?_⟩
  exact {
    delegate :=
      entered_of_lookup rfl (writesOption_optionJson writesDelegate_delegateJson f.delegate)
    deprecated := entered_of_lookup rfl rfl
    validate := ⟨some f.validate, rfl,
      entered_of_lookup rfl (writesConstraints_constraintsJson f.validate)⟩
    receive := ⟨some f.receive, rfl, entered_of_lookup rfl (writesDemands_demandsJson f.receive)⟩ }

/-- **Options** can hold all facts. -/
theorem Facts.exists_inOptions (f : Facts) (kind : EntityKind) :
    ∃ carrier, f.InOptions kind carrier := by
  refine ⟨{ options := [(extensionKey kind, f.json)] }, ?_⟩
  rw [InOptions, Sorted.get?_cons, if_pos rfl]
  exact f.writesObject_json

end Lineage.Annotation
