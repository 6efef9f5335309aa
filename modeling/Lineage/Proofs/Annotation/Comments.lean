import Lineage.Proofs.Annotation.Written
import Lineage.Proofs.Outcome

namespace Lineage.Annotation.Comments

open Text

/-!
# Reading annotations in comments

* `directive?_directive`, `directive?_prose` — one line, `argumentsOf_of_written` — all lines of a
  declaration,
* `pair_eq_ok_iff` — the pair of a token, `pairs_tokens` — those of a line,
* `collect_eq_ok_iff` — those of all lines, one after the other, however the tokens are spread over
  lines,
* `foldlM_addConstraint`, `foldlM_addDemand` — of each key the last value counts, and every name
  does,
* `answeredBy_of_inComments` — facts that are written in comments are read back.
-/

/-! ### One line -/

/-- The tokens of some pairs. -/
def tokens (ps : List Pair) : List (List Char) := ps.map (·.token.toList)

/-- A pair whose token can be read: it is a word, and its first equals sign is the one behind the
    key. -/
def Pair.Readable (p : Pair) : Prop := IsWord p.token.toList ∧ '=' ∉ p.key.toList

/-- The tag is a word. -/
theorem isWord_tag : IsWord tag := by decide

/-- The name of a verb is a word. -/
theorem isWord_verb (v : Verb) : IsWord v.name.toList := by
  cases v <;> decide

/-- Verbs with one name are the same. -/
theorem verb_name_inj {v w : Verb} (h : v.name.toList = w.name.toList) : v = w := by
  cases v <;> cases w <;> first | rfl | exact absurd h (by decide)

/-- A line on which the tag goes on with another character is no directive. -/
theorem directive?_eq_none {line rest : List Char} {c : Char}
    (h : after? tag line = some (c :: rest)) (hc : isBlank c = false) : directive? line = none := by
  simp [directive?, h, hc]

/-- Behind the tag: a blank, then the verb and the tokens. -/
theorem directive?_eq_some {line rest verb : List Char} {c : Char} {tokens : List (List Char)}
    (h : after? tag line = some (c :: rest)) (hc : isBlank c = true)
    (hwords : wordsOf rest = verb :: tokens) : directive? line = some (verb, tokens) := by
  simp [directive?, h, hc, hwords]

/-- A line without a directive is none. -/
theorem directive?_prose {line : List Char} (h : Prose line) :
    directive? (trimChars line) = none := by
  obtain ⟨indent, trailing, hindent, -, hline⟩ := exists_trimChars line
  cases hafter : after? tag (trimChars line) with
  | none => rw [directive?, hafter]
  | some rest =>
    cases rest with
    | nil => rw [directive?, hafter]
    | cons c rest =>
      have hc : isBlank c = false := by
        -- or the tag and a blank would stand behind the indent
        by_contra hc
        refine h indent c (rest ++ trailing) hindent (by simpa using hc) ?_
        rw [hline, eq_append_of_after? hafter]
        simp
      exact directive?_eq_none hafter hc

/-- The words behind the tag are the verb and the tokens. -/
theorem directive?_of_spaced {indent rest verb : List Char} {tokens : List (List Char)}
    (hindent : Blanks indent) (hspaced : Spaced (verb :: tokens) rest)
    (hwords : ∀ w ∈ verb :: tokens, IsWord w) :
    directive? (trimChars (indent ++ (tag ++ rest))) = some (verb, tokens) := by
  -- the end of the line may be trimmed, its words are all there
  have hend := hspaced.dropBlankEnd hwords
  have hread := wordsOf_of_spaced hend hwords
  rw [trimChars_append hindent isWord_tag]
  cases hrest : dropBlankEnd rest with
  | nil =>
    rw [hrest] at hread
    cases hread
  | cons c cs =>
    have hc : isBlank c = true := hend.begins c (by rw [hrest]; rfl)
    rw [hrest, wordsOf_cons hc] at hread
    exact directive?_eq_some (after?_append tag (c :: cs)) hc hread

/-- The words of a directive line are the tag, the verb and the tokens. -/
theorem directive?_directive {d : Directive} {line : List Char} (h : LineWritten (some d) line)
    (hd : ∀ p ∈ d.pairs, p.Readable) :
    directive? (trimChars line) = some (d.verb.name.toList, tokens d.pairs) := by
  cases h with
  | @directive _ indent rest hindent hspaced =>
    have hwords : ∀ w ∈ d.verb.name.toList :: tokens d.pairs, IsWord w := by
      intro w hw
      rcases List.mem_cons.mp hw with rfl | hw
      · exact isWord_verb d.verb
      · obtain ⟨p, hp, rfl⟩ := List.mem_map.mp hw
        exact (hd p hp).1
    exact directive?_of_spaced hindent hspaced hwords

/-! ### All lines of a declaration -/

/-- The tokens of a line that is a directive with some verb. -/
def argument? (verb : Verb) (line : List Char) : Option (List (List Char)) :=
  match directive? line with
  | some (v, tokens) => if v == verb.name.toList then some tokens else none
  | none => none

/-- The arguments of a verb are those of the lines with it, in their order. -/
theorem argumentsOf_eq (verb : Verb) (carrier : Carrier) : argumentsOf verb carrier =
    carrier.comments.lines.filterMap fun line => argument? verb line.toList := rfl

/-- The lines of one block. -/
theorem filterMap_of_written {verb : Verb} {said : List (Option Directive)} {ls : List (List Char)}
    (h : List.Forall₂ LineWritten said ls)
    (hread : ∀ d ∈ said.reduceOption, ∀ p ∈ d.pairs, p.Readable) :
    (ls.filterMap fun line => argument? verb (trimChars line))
      = (linesOf verb said.reduceOption).map tokens := by
  -- by the lines: prose says nothing, and a directive only counts for its own verb
  induction h with
  | nil => rfl
  | @cons d? line said ls hline _ ih =>
    cases d? with
    | none =>
      cases hline with
      | prose hprose =>
        rw [List.filterMap_cons, argument?, directive?_prose hprose]
        exact ih hread
    | some d =>
      have hsaid : (some d :: said).reduceOption = d :: said.reduceOption := rfl
      rw [hsaid] at hread ⊢
      obtain ⟨hd, hread⟩ := List.forall_mem_cons.mp hread
      have hargument : argument? verb (trimChars line)
          = if d.verb.name.toList == verb.name.toList then some (tokens d.pairs) else none := by
        rw [argument?, directive?_directive hline hd]
      by_cases hverb : d.verb = verb
      · rw [hverb, beq_self_eq_true, if_pos rfl] at hargument
        rw [List.filterMap_cons, hargument, ih hread]
        simp [linesOf, hverb]
      · have hne : (d.verb.name.toList == verb.name.toList) = false :=
          beq_eq_false_iff_ne.mpr fun heq => hverb (verb_name_inj heq)
        rw [hne, if_neg (by simp)] at hargument
        rw [List.filterMap_cons, hargument, ih hread]
        simp [linesOf, hverb]

/-- A block of comments has the lines of its directives. -/
theorem filterMap_block {verb : Verb} {ds : List Directive} {block : String}
    (h : BlockWritten ds block) (hread : ∀ d ∈ ds, ∀ p ∈ d.pairs, p.Readable) :
    ((lines block).filterMap fun line => argument? verb line.toList) =
      (linesOf verb ds).map tokens := by
  obtain ⟨said, ls, hblock, hne, hfeed, hwritten, rfl⟩ := h
  rw [filterMap_lines (f := argument? verb) rfl, hblock, pieces_join hne hfeed]
  exact filterMap_of_written hwritten hread

/-- **The lines with a verb**, in all blocks of a declaration. -/
theorem argumentsOf_of_written {verb : Verb} {carrier : Carrier} {blocks : List (List Directive)}
    (h : List.Forall₂ BlockWritten blocks (carrier.comments.leading :: carrier.comments.detached))
    (hread : ∀ d ∈ blocks.flatten, ∀ p ∈ d.pairs, p.Readable) :
    argumentsOf verb carrier = (linesOf verb blocks.flatten).map tokens := by
  rw [argumentsOf_eq, Lineage.Comments.lines, List.filterMap_flatMap]
  -- block by block, whichever of them is the leading one
  generalize carrier.comments.leading :: carrier.comments.detached = texts at h ⊢
  revert hread
  induction h with
  | nil => intro _; rfl
  | @cons ds block blocks texts hblock _ ih =>
    intro hread
    rw [List.flatten_cons] at hread ⊢
    rw [List.flatMap_cons, ih fun d hd => hread d (List.mem_append_right _ hd),
      filterMap_block hblock fun d hd => hread d (List.mem_append_left _ hd)]
    simp [linesOf]

/-! ### The pairs of a line -/

/-- A text is cut at the first separator. -/
theorem cutAt?_append {p : Char → Bool} {c : Char} {key value : List Char}
    (hkey : ∀ x ∈ key, p x = false) (hc : p c = true) :
    cutAt? p (key ++ c :: value) = some (key, value) := by
  induction key with
  | nil => simp [cutAt?, hc]
  | cons k key ih =>
    obtain ⟨hk, hkey⟩ := List.forall_mem_cons.mp hkey
    simp [cutAt?, hk, ih hkey]

/-- A token is a key and a value with an equals sign between them. -/
theorem token_toList (p : Pair) : p.token.toList = p.key.toList ++ '=' :: p.value.toList := by
  simp [Pair.token]

/-- A token is read back as its pair. -/
theorem pair_token {verb : Verb} {p : Pair} (hp : '=' ∉ p.key.toList) :
    pair verb p.token.toList = .ok p := by
  have hkey : ∀ x ∈ p.key.toList, (x == '=') = false := fun x hx =>
    beq_eq_false_iff_ne.mpr fun heq => hp (heq ▸ hx)
  rw [pair, token_toList, cutAt?_append hkey rfl]
  simp

/-- A token is read as the pair that it is written as: its first equals sign ends the key. -/
theorem pair_eq_ok_iff {verb : Verb} {token : List Char} {p : Pair} :
    pair verb token = .ok p ↔ p.token.toList = token ∧ '=' ∉ p.key.toList := by
  constructor
  · intro h
    rw [pair] at h
    split at h
    · rename_i key value hcut
      obtain rfl := Except.ok.inj h
      obtain ⟨c, hc, rfl, hkey⟩ := eq_of_cutAt? hcut
      obtain rfl := beq_iff_eq.mp hc
      refine ⟨by simp [token_toList], fun hmem => ?_⟩
      rw [String.toList_ofList] at hmem
      simpa using hkey _ hmem
    · cases h
  · rintro ⟨rfl, hkey⟩
    exact pair_token hkey

/-- **The pairs of a line** are those that its tokens were written as. -/
theorem pairs_tokens {verb : Verb} {ps : List Pair} (hps : ∀ p ∈ ps, p.Readable) :
    pairs verb (tokens ps) = .ok ps := by
  rw [pairs, mapM_eq_ok, tokens, List.forall₂_map_left_iff, List.forall₂_same]
  exact fun p hp => pair_token (hps p hp).2

/-- **All tokens.** The pairs of all lines, read from their tokens one after the other, are put in
    one by one. -/
theorem collect_eq_ok_iff {α : Type} {verb : Verb} {add : α → Pair → Except AnnotationError α}
    {carrier : Carrier} {start d : α} :
    collect verb add start carrier = .ok d ↔
      ∃ ps, pairs verb (argumentsOf verb carrier).flatten = .ok ps ∧
        ps.foldlM add start = .ok d := by
  rw [collect]
  generalize argumentsOf verb carrier = lines
  -- by the lines, each of which starts from what the lines before it have come to
  induction lines generalizing start with
  | nil => simp [pairs, pure_eq_ok]
  | cons line lines ih =>
    have happend : pairs verb (line ++ lines.flatten) = do
        let ps ← pairs verb line
        let qs ← pairs verb lines.flatten
        return ps ++ qs := List.mapM_append
    rw [List.foldlM_cons, List.flatten_cons, happend]
    constructor
    · intro h
      obtain ⟨d', hline, hrest⟩ := bind_eq_ok.mp h
      obtain ⟨ps, hps, hd'⟩ := bind_eq_ok.mp hline
      obtain ⟨qs, hqs, hd⟩ := ih.mp hrest
      refine ⟨ps ++ qs, bind_eq_ok.mpr ⟨ps, hps, bind_eq_ok.mpr ⟨qs, hqs, rfl⟩⟩, ?_⟩
      rw [List.foldlM_append]
      exact bind_eq_ok.mpr ⟨d', hd', hd⟩
    · rintro ⟨rs, hrs, h⟩
      obtain ⟨ps, hps, hrs⟩ := bind_eq_ok.mp hrs
      obtain ⟨qs, hqs, hrs⟩ := bind_eq_ok.mp hrs
      obtain rfl := pure_eq_ok.mp hrs
      rw [List.foldlM_append] at h
      obtain ⟨d', hd', hd⟩ := bind_eq_ok.mp h
      exact bind_eq_ok.mpr ⟨d', bind_eq_ok.mpr ⟨ps, hps, hd'⟩, ih.mpr ⟨qs, hqs, hd⟩⟩

/-- Lines that were written as pairs give these pairs, one after the other. -/
theorem collect_of_tokens {α : Type} {verb : Verb} {add : α → Pair → Except AnnotationError α}
    {carrier : Carrier} {ls : List (List Pair)} {start d : α}
    (hargs : argumentsOf verb carrier = ls.map tokens)
    (hread : ∀ p ∈ ls.flatten, p.Readable) (hfold : ls.flatten.foldlM add start = .ok d) :
    collect verb add start carrier = .ok d := by
  have htokens : (argumentsOf verb carrier).flatten = tokens ls.flatten := by
    rw [hargs, tokens, List.map_flatten]
    rfl
  exact collect_eq_ok_iff.mpr ⟨ls.flatten, by rw [htokens, pairs_tokens hread], hfold⟩

/-! ### Records -/

/-- The values under a key, of one pair more. -/
theorem valuesOf_cons (key : String) (p : Pair) (ps : List Pair) :
    valuesOf key (p :: ps) = if p.key = key then p.value :: valuesOf key ps
      else valuesOf key ps := by
  by_cases h : p.key = key <;> simp [valuesOf, h]

/-- A pair gives its value under its key. -/
theorem mem_valuesOf {p : Pair} {ps : List Pair} (hp : p ∈ ps) : p.value ∈ valuesOf p.key ps :=
  List.mem_map.mpr ⟨p, List.mem_filter.mpr ⟨hp, by simp⟩, rfl⟩

/-- The last element, or a default: one element more in front becomes the default. -/
theorem getLast?_cons_or {α : Type} (a : α) (xs : List α) (o : Option α) :
    (a :: xs).getLast?.or o = xs.getLast?.or (some a) := by
  rw [List.getLast?_cons]
  cases xs.getLast? <;> rfl

/-- A truth value is read, and a later one replaces it. -/
theorem flag_eq {verb : Verb} {p : Pair} (h : p.value = "true" ∨ p.value = "false") :
    flag verb p = .ok (p.value == "true") := by
  rcases h with h | h
  · simp [flag, h]
  · simp [flag, h]

/-- A pair that a record with some keys takes: a flag must be a truth value. -/
def Fits (keys : List String) (p : Pair) : Prop :=
  p.key ∈ keys ∧ (p.key = "required" → p.value = "true" ∨ p.value = "false")

/-- Pairs that are put in one by one are put in all together. -/
theorem foldlM_eq_put {α : Type} {add : α → Pair → Except AnnotationError α}
    {put : α → List Pair → α} {ps : List Pair} (hnil : ∀ d, put d [] = d)
    (hstep : ∀ p ∈ ps, ∀ d rest, ∃ d', add d p = .ok d' ∧ put d' rest = put d (p :: rest)) (d : α) :
    ps.foldlM add d = .ok (put d ps) := by
  induction ps generalizing d with
  | nil => exact congrArg Except.ok (hnil d).symm
  | cons p ps ih =>
    obtain ⟨hp, hps⟩ := List.forall_mem_cons.mp hstep
    obtain ⟨d', hadd, hput⟩ := hp d ps
    rw [List.foldlM_cons, hadd, ← hput]
    exact ih hps d'

/-- Constraints with more values: of each key the last one counts. -/
def withConstraints (d : ValidateDirectives) (ps : List Pair) : ValidateDirectives :=
  { required := ((valuesOf "required" ps).getLast?.map (· == "true")).getD d.required
    min := (valuesOf "min" ps).getLast?.or d.min
    max := (valuesOf "max" ps).getLast?.or d.max
    members := ((valuesOf "in" ps).getLast?.map (splitAt ',')).or d.members
    format := (valuesOf "is" ps).getLast?.or d.format }

/-- **Constraints** are read key by key. -/
theorem foldlM_addConstraint {ps : List Pair} (hps : ∀ p ∈ ps, Fits constraintKeys p)
    (d : ValidateDirectives) : ps.foldlM addConstraint d = .ok (withConstraints d ps) := by
  refine foldlM_eq_put (fun d => rfl) ?_ d
  rintro ⟨key, value⟩ hp d rest
  obtain ⟨hkey, hflag⟩ := hps _ hp
  simp only [constraintKeys, List.mem_cons, List.not_mem_nil, or_false] at hkey
  rcases hkey with rfl | rfl | rfl | rfl | rfl
  · refine ⟨{ d with required := value == "true" }, ?_, ?_⟩
    · rw [addConstraint, flag_eq (hflag rfl)]
      rfl
    · simp [withConstraints, valuesOf_cons, List.getLast?_cons]
  · exact ⟨{ d with min := some value },
      rfl, by simp [withConstraints, valuesOf_cons, getLast?_cons_or]⟩
  · exact ⟨{ d with max := some value },
      rfl, by simp [withConstraints, valuesOf_cons, getLast?_cons_or]⟩
  · refine ⟨{ d with members := some (splitAt ',' value) }, rfl, ?_⟩
    simp [withConstraints, valuesOf_cons, List.getLast?_cons]
  · exact ⟨{ d with format := some value },
      rfl, by simp [withConstraints, valuesOf_cons, getLast?_cons_or]⟩

/-- Demands with more values: the last flag counts, and every name does. -/
def withDemands (d : ReceiveDirectives) (ps : List Pair) : ReceiveDirectives :=
  { required := ((valuesOf "required" ps).getLast?.map (· == "true")).getD d.required
    names := d.names ++ valuesOf "name" ps }

/-- **Demands** are read key by key. -/
theorem foldlM_addDemand {ps : List Pair} (hps : ∀ p ∈ ps, Fits demandKeys p)
    (d : ReceiveDirectives) : ps.foldlM addDemand d = .ok (withDemands d ps) := by
  refine foldlM_eq_put (fun d => by simp [withDemands, valuesOf]) ?_ d
  rintro ⟨key, value⟩ hp d rest
  obtain ⟨hkey, hflag⟩ := hps _ hp
  simp only [demandKeys, List.mem_cons, List.not_mem_nil, or_false] at hkey
  rcases hkey with rfl | rfl
  · refine ⟨{ d with required := value == "true" }, ?_, ?_⟩
    · rw [addDemand, flag_eq (hflag rfl)]
      rfl
    · simp [withDemands, valuesOf_cons, List.getLast?_cons]
  · exact ⟨{ d with names := d.names ++ [value] }, rfl, by simp [withDemands, valuesOf_cons]⟩

/-! ### Facts -/

/-- The last of the given values is the fact. -/
theorem Stated.getLast? {α : Type} {given : List α} {fact : Option α} (h : Stated given fact) :
    given.getLast? = fact := by
  cases hlast : given.getLast? with
  | none => exact (h.2 (List.getLast?_eq_none_iff.mp hlast)).symm
  | some v => exact (h.1 v (List.mem_of_getLast? hlast)).symm

/-- The last of the given flags is the fact. -/
theorem Flagged.getLast? {given : List String} {fact : Bool} (h : Flagged given fact) :
    (given.getLast?.map (· == "true")).getD false = fact := by
  cases hlast : given.getLast? with
  | none => exact (h.2 (List.getLast?_eq_none_iff.mp hlast)).symm
  | some v =>
    rw [h.1 v (List.mem_of_getLast? hlast)]
    cases fact <;> rfl

/-- A given flag is `true` or `false`. -/
theorem Flagged.eq_or {given : List String} {fact : Bool} (h : Flagged given fact) {v : String}
    (hv : v ∈ given) : v = "true" ∨ v = "false" := by
  rw [h.1 v hv]
  cases fact
  · exact .inr rfl
  · exact .inl rfl

/-- A flag has no blanks. -/
theorem blankFree_flag {v : String} (h : v = "true" ∨ v = "false") : BlankFree v.toList := by
  rcases h with rfl | rfl <;> decide

/-- Pairs that state a flag, and have the right keys, can be put in. -/
theorem fits_of_flagged {keys : List String} {ps : List Pair} {fact : Bool}
    (hkeys : ∀ p ∈ ps, p.key ∈ keys) (h : Flagged (valuesOf "required" ps) fact) :
    ∀ p ∈ ps, Fits keys p := by
  intro p hp
  refine ⟨hkeys p hp, fun hkey => h.eq_or ?_⟩
  exact hkey ▸ mem_valuesOf hp

variable {f : Facts} {ds : List Directive} {carrier : Carrier}

/-- Constraints that are stated are those that are read. -/
theorem StatesConstraints.withConstraints_eq {ps : List Pair} (h : StatesConstraints f.validate ps)
    (hf : f.Writable) : withConstraints {} ps = f.validate := by
  have hmembers : ((valuesOf "in" ps).getLast?.map (splitAt ',')).or none = f.validate.members := by
    rw [h.members.getLast?, Option.map_map, Option.or_none]
    cases hms : f.validate.members with
    | none => rfl
    | some ms =>
      obtain ⟨hne, hwords⟩ := hf.members ms hms
      exact congrArg some (splitAt_join hne fun m hm => (hwords m hm).2)
  have hoptions : ∀ {key : String} {fact : Option String}, Stated (valuesOf key ps) fact →
      (valuesOf key ps).getLast?.or none = fact := by
    intro key fact hstated
    rw [hstated.getLast?, Option.or_none]
  simp only [withConstraints, hoptions h.min, hoptions h.max, hoptions h.format, hmembers,
    h.required.getLast?]

/-- Pairs that state demands are read as these demands. -/
theorem StatesDemands.withDemands_eq {d : ReceiveDirectives} {ps : List Pair}
    (h : StatesDemands d ps) :
    withDemands {} ps = d := by
  simp only [withDemands, h.required.getLast?, h.names, List.nil_append]

/-! ### What is stated can be read -/

/-- A pair with a known key and a value without blanks can be read back. -/
theorem Pair.readable {p : Pair} (hkey : p.key ∈ constraintKeys ++ demandKeys)
    (hvalue : BlankFree p.value.toList) : p.Readable := by
  have hkeys : ∀ k ∈ constraintKeys ++ demandKeys, IsWord k.toList ∧ '=' ∉ k.toList := by decide
  obtain ⟨⟨hne, hfree⟩, hequals⟩ := hkeys p.key hkey
  refine ⟨⟨?_, ?_⟩, hequals⟩
  · rw [token_toList]
    simp
  · rw [token_toList]
    intro c hc
    rcases List.mem_append.mp hc with hc | hc
    · exact hfree c hc
    · rcases List.mem_cons.mp hc with rfl | hc
      · decide
      · exact hvalue c hc

/-- A name that is a word can be read back. -/
theorem Pair.readable_name {d : String} (hd : IsWord d.toList) : Pair.Readable ⟨"name", d⟩ := by
  have hkey : "name" ∈ constraintKeys ++ demandKeys := by decide
  exact Pair.readable hkey hd.2

/-- Members that are words are one word with the commas between them. -/
theorem blankFree_join {ms : List String} (hms : ∀ m ∈ ms, IsWord m.toList) :
    BlankFree ([','].intercalate (ms.map String.toList)) := by
  intro c hc
  rcases mem_join hc with rfl | ⟨p, hp, hc⟩
  · decide
  · obtain ⟨m, hm, rfl⟩ := List.mem_map.mp hp
    exact (hms m hm).2 c hc

/-- Pairs that state writable constraints can be read back. -/
theorem StatesConstraints.readable {ps : List Pair} (h : StatesConstraints f.validate ps)
    (hf : f.Writable) {p : Pair} (hp : p ∈ ps) : p.Readable := by
  have hkey := h.keys p hp
  have hvalue := mem_valuesOf hp
  refine Pair.readable (List.mem_append_left _ hkey) ?_
  simp only [constraintKeys, List.mem_cons, List.not_mem_nil, or_false] at hkey
  rcases hkey with hkey | hkey | hkey | hkey | hkey <;> rw [hkey] at hvalue
  · exact blankFree_flag (h.required.eq_or hvalue)
  · exact (hf.min _ (h.min.1 _ hvalue)).2
  · exact (hf.max _ (h.max.1 _ hvalue)).2
  · obtain ⟨ms, hms, hjoin⟩ := Option.map_eq_some_iff.mp (h.members.1 _ hvalue)
    rw [← hjoin, String.toList_ofList]
    exact blankFree_join fun m hm => ((hf.members ms hms).2 m hm).1
  · exact (hf.format _ (h.format.1 _ hvalue)).2

/-- Pairs that state writable demands can be read back. -/
theorem StatesDemands.readable {ps : List Pair} (h : StatesDemands f.receive ps) (hf : f.Writable)
    {p : Pair} (hp : p ∈ ps) : p.Readable := by
  have hkey := h.keys p hp
  have hvalue := mem_valuesOf hp
  refine Pair.readable (List.mem_append_right _ hkey) ?_
  simp only [demandKeys, List.mem_cons, List.not_mem_nil, or_false] at hkey
  rcases hkey with hkey | hkey <;> rw [hkey] at hvalue
  · exact blankFree_flag (h.required.eq_or hvalue)
  · rw [h.names] at hvalue
    exact (hf.names _ hvalue).2

/-- All pairs of directives that state writable facts can be read. -/
theorem readable_of_statedBy (hf : f.Writable) (h : f.StatedBy ds) :
    ∀ d ∈ ds, ∀ p ∈ d.pairs, p.Readable := by
  rintro ⟨verb, ps⟩ hd p hp
  have hline : ps ∈ linesOf verb ds :=
    List.mem_map.mpr ⟨⟨verb, ps⟩, List.mem_filter.mpr ⟨hd, by simp⟩, rfl⟩
  have hflat : p ∈ (linesOf verb ds).flatten := List.mem_flatten.mpr ⟨ps, hline, hp⟩
  cases verb with
  | delegate =>
    obtain ⟨d, hname, rfl⟩ := Option.map_eq_some_iff.mp (h.delegate.1 ps hline)
    obtain rfl := List.mem_singleton.mp hp
    exact Pair.readable_name (hf.delegate d hname)
  | deprecated =>
    obtain rfl := h.bare ps hline
    cases hp
  | validate => exact h.validate.readable hf hflat
  | receive => exact h.receive.readable hf hflat

/-! ### The four answers -/

section
variable (h : f.StatedBy ds) (hf : f.Writable)
  (hargs : ∀ verb, argumentsOf verb carrier = (linesOf verb ds).map tokens)
include h hf hargs

/-- The delegate that comments state is read. -/
theorem delegate?_eq : delegate? carrier = .ok f.delegate := by
  have hread := readable_of_statedBy hf h
  rw [delegate?, hargs]
  cases hlines : linesOf .delegate ds with
  | nil =>
    have hnone := h.delegate.2 hlines
    rw [Option.map_eq_none_iff.mp hnone]
    rfl
  | cons ps lines =>
    have hline : ps ∈ linesOf .delegate ds := hlines ▸ List.mem_cons_self
    obtain ⟨d, hname, rfl⟩ := Option.map_eq_some_iff.mp (h.delegate.1 ps hline)
    have hpair := Pair.readable_name (hf.delegate d hname)
    show (pairs .delegate (tokens [⟨"name", d⟩]) >>= _) = _
    rw [pairs_tokens (List.forall_mem_singleton.mpr hpair), hname]
    rfl

omit hf in
/-- Whether comments state deprecation is read. -/
theorem isDeprecated_eq : isDeprecated carrier = f.deprecated := by
  rw [isDeprecated, hargs]
  cases hdeprecated : f.deprecated with
  | false =>
    have hnil : linesOf .deprecated ds = [] := by
      by_contra hne
      rw [h.deprecated.mpr hne] at hdeprecated
      cases hdeprecated
    rw [hnil]
    rfl
  | true =>
    have hne := h.deprecated.mp hdeprecated
    simpa using hne

/-- The constraints that comments state are read. -/
theorem validate_eq : validate carrier = .ok f.validate := by
  refine collect_of_tokens (hargs .validate) (fun _ hp => h.validate.readable hf hp) ?_
  rw [foldlM_addConstraint (fits_of_flagged h.validate.keys h.validate.required),
    h.validate.withConstraints_eq hf]

/-- The demands that comments state are read. -/
theorem receive_eq : receive carrier = .ok f.receive := by
  refine collect_of_tokens (hargs .receive) (fun _ hp => h.receive.readable hf hp) ?_
  rw [foldlM_addDemand (fits_of_flagged h.receive.keys h.receive.required),
    h.receive.withDemands_eq]

end

/-- **Facts that are written in comments** are read back. -/
theorem answeredBy_of_inComments (hf : f.Writable) (h : f.InComments carrier) (kind : EntityKind) :
    f.AnsweredBy AnnotationStyle.comments.source kind carrier := by
  obtain ⟨blocks, hblocks, hstated⟩ := h
  have hargs : ∀ verb, argumentsOf verb carrier = (linesOf verb blocks.flatten).map tokens :=
    fun verb => argumentsOf_of_written hblocks (readable_of_statedBy hf hstated)
  exact {
    delegate := delegate?_eq hstated hf hargs
    deprecated := congrArg Except.ok (isDeprecated_eq hstated hargs)
    validate := validate_eq hstated hf hargs
    receive := receive_eq hstated hf hargs }

end Lineage.Annotation.Comments
