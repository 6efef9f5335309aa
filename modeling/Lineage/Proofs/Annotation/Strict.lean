import Lineage.Proofs.Annotation.Lines

namespace Lineage.Annotation.Comments

open Text

/-!
# Which directives are accepted

* `Accepted` — a token that a verb knows; `ReadsAll` — an answer for which every token of every line
  counts, `readsAll_collect` — constraints and demands are read in this way,
* `ReadsFirst` — an answer for which the first token of the first line counts,
  `readsFirst_delegate?` — delegates are read in this way; `reads_of_holds` — all three readings
  together,
* `Spreads` — tokens spread over lines; `sameAnswer_of_spreads` — it does not matter how they are.
-/

/-! ### Tokens -/

/-- The keys that a verb knows. -/
def keysOf : Verb → List String
  | .delegate => ["name"]
  | .deprecated => []
  | .validate => constraintKeys
  | .receive => demandKeys

/-- A token is a key that the verb knows, an equals sign and a value; a flag is `true`
    or `false`. -/
def Accepted (verb : Verb) (token : List Char) : Prop :=
  ∃ p : Pair, p.token.toList = token ∧ Fits (keysOf verb) p

/-- The known keys have no equals sign. -/
theorem equals_not_mem_of_fits {verb : Verb} {p : Pair} (h : Fits (keysOf verb) p) :
    '=' ∉ p.key.toList := by
  have hkeys : ∀ k ∈ keysOf verb, '=' ∉ k.toList := by
    cases verb <;> decide
  exact hkeys p.key h.1

/-- What is accepted is a pair that fits. -/
theorem accepted_iff {verb : Verb} {token : List Char} :
    Accepted verb token ↔ ∃ p, pair verb token = .ok p ∧ Fits (keysOf verb) p := by
  constructor
  · rintro ⟨p, rfl, hfits⟩
    exact ⟨p, pair_token (equals_not_mem_of_fits hfits), hfits⟩
  · rintro ⟨p, hpair, hfits⟩
    exact ⟨p, (pair_eq_ok_iff.mp hpair).1, hfits⟩

/-- Every text with an equals sign is a pair. -/
theorem exists_pair_iff {verb : Verb} {token : List Char} :
    (∃ p, pair verb token = .ok p) ↔ '=' ∈ token := by
  constructor
  · rintro ⟨p, hpair⟩
    rw [← (pair_eq_ok_iff.mp hpair).1, token_toList]
    simp
  · intro h
    obtain ⟨key, value, rfl, hkey⟩ := List.eq_append_cons_of_mem h
    refine ⟨⟨String.ofList key, String.ofList value⟩, pair_eq_ok_iff.mpr ⟨?_, ?_⟩⟩
    · simp [token_toList]
    · rwa [String.toList_ofList]

/-- Pairs have the tokens that they are read from. -/
theorem tokens_of_pairs {verb : Verb} {ts : List (List Char)} {ps : List Pair}
    (h : pairs verb ts = .ok ps) :
    tokens ps = ts := by
  have hwritten : List.Forall₂ (fun t p => t = p.token.toList) ts ps :=
    (mapM_eq_ok.mp h).imp fun t p hp => (pair_eq_ok_iff.mp hp).1.symm
  rw [← List.forall₂_map_right_iff, List.forall₂_eq_eq_eq] at hwritten
  exact hwritten.symm

/-! ### Readings of all tokens -/

/-- An answer is given if all tokens of all lines are accepted, and only then, and puts all of them
    together. -/
structure ReadsAll {α : Type} (verb : Verb) (put : List Pair → α) (lines : List (List (List Char)))
    (answer : Except AnnotationError α) : Prop where
  accepts : (∃ d, answer = .ok d) ↔ ∀ tokens ∈ lines, ∀ t ∈ tokens, Accepted verb t
  takes : ∀ d, answer = .ok d →
    ∃ ps, tokens ps = lines.flatten ∧ (∀ p ∈ ps, Fits (keysOf verb) p) ∧ d = put ps

/-- What is put together from pairs that are put in one by one, if only those that fit can be. -/
theorem readsAll_collect {α : Type} {verb : Verb} {add : α → Pair → Except AnnotationError α}
    {put : List Pair → α} {carrier : Carrier} {empty : α}
    (hfits : ∀ d p d', add d p = .ok d' → Fits (keysOf verb) p)
    (hput : ∀ ps : List Pair, (∀ p ∈ ps, Fits (keysOf verb) p) →
      ps.foldlM add empty = .ok (put ps)) :
    ReadsAll verb put (argumentsOf verb carrier) (collect verb add empty carrier) := by
  have htakes : ∀ d, collect verb add empty carrier = .ok d →
      ∃ ps, tokens ps = (argumentsOf verb carrier).flatten ∧ (∀ p ∈ ps, Fits (keysOf verb) p) ∧
          d = put ps := by
    intro d hd
    obtain ⟨ps, hpairs, hfold⟩ := collect_eq_ok_iff.mp hd
    have hall : ∀ p ∈ ps, Fits (keysOf verb) p := by
      refine foldlM_invariant (fun made _ => ∀ p ∈ made, Fits (keysOf verb) p)
        (List.forall_mem_nil _) ?_ hfold
      intro made p rest d d' _ hmade hadd
      exact List.forall_mem_append.mpr ⟨hmade, List.forall_mem_singleton.mpr (hfits d p d' hadd)⟩
    rw [hput ps hall] at hfold
    exact ⟨ps, tokens_of_pairs hpairs, hall, (Except.ok.inj hfold).symm⟩
  refine ⟨⟨?_, fun h => ?_⟩, htakes⟩
  · rintro ⟨d, hd⟩ ts hts t ht
    obtain ⟨ps, hps, hall, -⟩ := htakes d hd
    have hmem : t ∈ tokens ps := hps ▸ List.mem_flatten.mpr ⟨ts, hts, ht⟩
    obtain ⟨p, hp, rfl⟩ := List.mem_map.mp hmem
    exact ⟨p, rfl, hall p hp⟩
  · have hpair : ∀ t ∈ (argumentsOf verb carrier).flatten,
        ∃ p, pair verb t = .ok p ∧ Fits (keysOf verb) p := by
      intro t ht
      obtain ⟨ts, hts, ht⟩ := List.mem_flatten.mp ht
      exact accepted_iff.mp (h ts hts t ht)
    obtain ⟨ps, hpairs, hall⟩ := exists_mapM hpair
    have hall : ∀ p ∈ ps, Fits (keysOf verb) p :=
      fun p hp => (forall₂_exists_left hall hp).elim fun _ h => h.2
    exact ⟨put ps, collect_eq_ok_iff.mpr ⟨ps, hpairs, hput ps hall⟩⟩

/-- A flag that is accepted is `true` or `false`. -/
theorem eq_or_of_flag {verb : Verb} {p : Pair} {b : Bool} (h : flag verb p = .ok b) :
    p.value = "true" ∨ p.value = "false" := by
  rw [flag] at h
  split at h
  · rename_i htrue
    exact .inl (beq_iff_eq.mp htrue)
  · split at h
    · rename_i hfalse
      exact .inr (beq_iff_eq.mp hfalse)
    · cases h

/-- Under all keys but `required` any value fits. -/
theorem fits_of_key {keys : List String} {key value : String} (hkey : key ∈ keys)
    (hne : key ≠ "required") :
    Fits keys ⟨key, value⟩ :=
  ⟨hkey, fun h => absurd h hne⟩

/-- A constraint that is accepted fits. -/
theorem fits_of_addConstraint {d d' : ValidateDirectives} {p : Pair}
    (h : addConstraint d p = .ok d') :
    Fits constraintKeys p := by
  obtain ⟨key, value⟩ := p
  rw [addConstraint] at h
  dsimp only at h
  split at h
  · obtain ⟨b, hflag, -⟩ := map_eq_ok.mp h
    exact ⟨List.mem_cons_self, fun _ => eq_or_of_flag hflag⟩
  · exact fits_of_key (by decide) (by decide)
  · exact fits_of_key (by decide) (by decide)
  · exact fits_of_key (by decide) (by decide)
  · exact fits_of_key (by decide) (by decide)
  · cases h

/-- A demand that is accepted fits. -/
theorem fits_of_addDemand {d d' : ReceiveDirectives} {p : Pair} (h : addDemand d p = .ok d') :
    Fits demandKeys p := by
  obtain ⟨key, value⟩ := p
  rw [addDemand] at h
  dsimp only at h
  split at h
  · obtain ⟨b, hflag, -⟩ := map_eq_ok.mp h
    exact ⟨List.mem_cons_self, fun _ => eq_or_of_flag hflag⟩
  · exact fits_of_key (by decide) (by decide)
  · cases h

/-- **Constraints** are read from all tokens. -/
theorem readsAll_validate (carrier : Carrier) :
    ReadsAll .validate (withConstraints {}) (argumentsOf .validate carrier) (validate carrier) :=
  readsAll_collect (fun _ _ _ => fits_of_addConstraint) fun _ hps => foldlM_addConstraint hps {}

/-- **Demands** are read from all tokens. -/
theorem readsAll_receive (carrier : Carrier) :
    ReadsAll .receive (withDemands {}) (argumentsOf .receive carrier) (receive carrier) :=
  readsAll_collect (fun _ _ _ => fits_of_addDemand) fun _ hps => foldlM_addDemand hps {}

/-! ### Readings of the first token -/

/-- An answer that names what the first token of the first line names.  The other tokens of that
    line must have an equals sign, and nothing else counts. -/
structure ReadsFirst (lines : List (List (List Char)))
    (answer : Except AnnotationError (Option String)) : Prop where
  accepts : (∃ d, answer = .ok d) ↔
    ∀ tokens ∈ lines.head?, (∀ t ∈ tokens, '=' ∈ t) ∧ ∀ t ∈ tokens.head?, Accepted .delegate t
  named : ∀ d, answer = .ok (some d) ↔
    ∃ rest more, lines = ((Pair.mk "name" d).token.toList :: rest) :: more ∧ ∀ t ∈ rest, '=' ∈ t
  unnamed : answer = .ok none ↔ ∀ tokens ∈ lines.head?, tokens = []

/-- A token of a delegate is accepted if it is a name. -/
theorem accepted_delegate_iff {token : List Char} :
    Accepted .delegate token ↔ ∃ d, (Pair.mk "name" d).token.toList = token := by
  constructor
  · rintro ⟨⟨key, value⟩, htoken, hkey, -⟩
    obtain rfl := List.mem_singleton.mp hkey
    exact ⟨value, htoken⟩
  · rintro ⟨d, htoken⟩
    exact ⟨_, htoken, fits_of_key (List.mem_singleton_self _) (by decide)⟩

/-- What the first pair of a line names. -/
def firstNamed : List Pair → Except AnnotationError (Option String)
  | [] => .ok none
  | p :: _ => if p.key == "name" then .ok (some p.value) else .error (.invalidDelegateKey p.key)

/-- The first pair names the delegate. -/
theorem firstNamed_eq_some {ps : List Pair} {d : String} :
    firstNamed ps = .ok (some d) ↔ ∃ rest, ps = ⟨"name", d⟩ :: rest := by
  rcases ps with _ | ⟨⟨key, value⟩, rest⟩
  · simp [firstNamed]
  · simp only [firstNamed, beq_iff_eq]
    split
    · rename_i hkey
      simp [hkey]
    · rename_i hkey
      simp [hkey]

/-- There is no delegate if there is no pair. -/
theorem firstNamed_eq_none {ps : List Pair} : firstNamed ps = .ok none ↔ ps = [] := by
  rcases ps with _ | ⟨p, rest⟩
  · simp [firstNamed]
  · simp only [firstNamed]
    split <;> simp

/-- The delegate is read from the first line only. -/
theorem delegate?_eq_bind (carrier : Carrier) : delegate? carrier =
    match argumentsOf .delegate carrier with
    | [] => .ok none
    | tokens :: _ => pairs .delegate tokens >>= firstNamed := by
  rw [delegate?]
  cases argumentsOf .delegate carrier with
  | nil => rfl
  | cons tokens more => rfl

/-- Tokens are pairs if all of them have an equals sign. -/
theorem exists_pairs_iff {verb : Verb} {ts : List (List Char)} :
    (∃ ps, pairs verb ts = .ok ps) ↔ ∀ t ∈ ts, '=' ∈ t := by
  constructor
  · rintro ⟨ps, hps⟩ t ht
    obtain ⟨p, -, hp⟩ := forall₂_exists_right (mapM_eq_ok.mp hps) ht
    exact exists_pair_iff.mp ⟨p, hp⟩
  · intro h
    obtain ⟨ps, hps⟩ := exists_forall₂ fun t ht => exists_pair_iff.mpr (h t ht)
    exact ⟨ps, mapM_eq_ok.mpr hps⟩

/-- **Delegates** are read from the first token. -/
theorem readsFirst_delegate? (carrier : Carrier) :
    ReadsFirst (argumentsOf .delegate carrier) (delegate? carrier) := by
  rw [delegate?_eq_bind]
  generalize argumentsOf .delegate carrier = lines
  cases lines with
  | nil => exact ⟨by simp, by simp, by simp⟩
  | cons tokens more =>
    have hnamed : ∀ d, pairs .delegate tokens >>= firstNamed = .ok (some d) ↔
        ∃ rest, tokens = (Pair.mk "name" d).token.toList :: rest ∧ ∀ t ∈ rest, '=' ∈ t := by
      intro d
      rw [bind_eq_ok]
      constructor
      · rintro ⟨ps, hps, hfirst⟩
        obtain ⟨qs, rfl⟩ := firstNamed_eq_some.mp hfirst
        have htokens := tokens_of_pairs hps
        have hequals := exists_pairs_iff.mp ⟨_, hps⟩
        subst htokens
        exact ⟨_, rfl, (List.forall_mem_cons.mp hequals).2⟩
      · rintro ⟨rest, rfl, hrest⟩
        obtain ⟨qs, hqs⟩ := exists_pairs_iff.mpr hrest
        have hkey : '=' ∉ "name".toList := by decide
        have hpair : pair .delegate (Pair.mk "name" d).token.toList = .ok ⟨"name", d⟩ :=
          pair_token hkey
        refine ⟨⟨"name", d⟩ :: qs, ?_, firstNamed_eq_some.mpr ⟨qs, rfl⟩⟩
        exact mapM_eq_ok.mpr (.cons hpair (mapM_eq_ok.mp hqs))
    have hunnamed : pairs .delegate tokens >>= firstNamed = .ok none ↔ tokens = [] := by
      rw [bind_eq_ok]
      constructor
      · rintro ⟨ps, hps, hfirst⟩
        obtain rfl := firstNamed_eq_none.mp hfirst
        exact (tokens_of_pairs hps).symm
      · rintro rfl
        exact ⟨[], rfl, rfl⟩
    refine ⟨⟨?_, fun h => ?_⟩, fun d => ?_, by simpa using hunnamed⟩
    · rintro ⟨_ | d, hd⟩ _ ⟨⟩
      · obtain rfl := hunnamed.mp hd
        simp
      · obtain ⟨rest, rfl, hrest⟩ := (hnamed d).mp hd
        refine ⟨List.forall_mem_cons.mpr ⟨by simp [token_toList], hrest⟩, ?_⟩
        rintro _ ⟨⟩
        exact accepted_delegate_iff.mpr ⟨d, rfl⟩
    · obtain ⟨hequals, hfirst⟩ := h tokens rfl
      cases tokens with
      | nil => exact ⟨none, hunnamed.mpr rfl⟩
      | cons t rest =>
        obtain ⟨d, rfl⟩ := accepted_delegate_iff.mp (hfirst t rfl)
        exact ⟨some d, (hnamed d).mpr ⟨rest, rfl, (List.forall_mem_cons.mp hequals).2⟩⟩
    · rw [hnamed]
      constructor
      · rintro ⟨rest, rfl, hrest⟩
        exact ⟨rest, more, rfl, hrest⟩
      · rintro ⟨rest, _, ⟨⟩, hrest⟩
        exact ⟨rest, rfl, hrest⟩

/-- **The three readings.** Constraints and demands are read from every token of every line with
    their verb, and only if all of them are accepted; a delegate is read from the first token of the
    first line, and what stands on further lines, or behind the first token with an equals sign,
    does not count. -/
theorem reads_of_holds {kind : EntityKind} {carrier : Carrier}
    {lines : Verb → List (List (List Char))}
    (h : ∀ verb, Holds verb carrier.comments (lines verb)) :
    ReadsAll .validate (withConstraints {}) (lines .validate)
        (AnnotationStyle.comments.source.validate kind carrier) ∧
      ReadsAll .receive (withDemands {}) (lines .receive)
        (AnnotationStyle.comments.source.receive kind carrier) ∧
      ReadsFirst (lines .delegate) (AnnotationStyle.comments.source.delegate? kind carrier) := by
  have hread : ∀ verb, lines verb = argumentsOf verb carrier := fun verb => holds_iff.mp (h verb)
  rw [hread, hread, hread]
  exact ⟨readsAll_validate carrier, readsAll_receive carrier, readsFirst_delegate? carrier⟩

/-- Comments with constraints and a delegate. -/
def namedCarrier : Carrier :=
  { comments := {
      leading := " gen:svc validate min=2 min==3\n"
      detached := ["\tgen:svc delegate name=A"] } }

/-- Of two bounds the later one counts, and a value may begin with an equals sign. -/
theorem reads_named :
    (∀ verb, Holds verb namedCarrier.comments (argumentsOf verb namedCarrier)) ∧
      argumentsOf .validate namedCarrier = [["min=2".toList, "min==3".toList]] ∧
      (ReadsAll .validate (withConstraints {}) (argumentsOf .validate namedCarrier)
          (AnnotationStyle.comments.source.validate .field namedCarrier) ∧
        ReadsAll .receive (withDemands {}) (argumentsOf .receive namedCarrier)
          (AnnotationStyle.comments.source.receive .field namedCarrier) ∧
        ReadsFirst (argumentsOf .delegate namedCarrier)
          (AnnotationStyle.comments.source.delegate? .field namedCarrier)) ∧
      (AnnotationStyle.comments.source.validate .field namedCarrier).toOption =
        some { min := some "=3" } := by
  have hlines : ∀ verb, Holds verb namedCarrier.comments (argumentsOf verb namedCarrier) :=
    fun verb =>
    holds_argumentsOf verb namedCarrier
  exact ⟨hlines, by decide +kernel, reads_of_holds hlines, by decide +kernel⟩

/-- A delegate with a second token, of a key that there is not. -/
def looseCarrier : Carrier := { comments := { leading := "gen:svc delegate name=A to=B" } }

/-- Delegates are not read strictly: a token that is not accepted is passed over. -/
theorem not_strict_delegate :
    Holds .delegate looseCarrier.comments [["name=A".toList, "to=B".toList]] ∧
      ¬((∃ d, AnnotationStyle.comments.source.delegate? .field looseCarrier = .ok d) ↔
        ∀ tokens ∈ [["name=A".toList, "to=B".toList]], ∀ t ∈ tokens, Accepted .delegate t) := by
  have hlines : argumentsOf .delegate looseCarrier = [["name=A".toList, "to=B".toList]] := by
    decide +kernel
  have hread : delegate? looseCarrier = .ok (some "A") :=
    ((readsFirst_delegate? looseCarrier).named "A").mpr ⟨["to=B".toList], [], hlines, by decide⟩
  refine ⟨holds_iff.mpr hlines.symm, fun hstrict => ?_⟩
  have htarget := hstrict.mp ⟨_, hread⟩ _ (List.mem_singleton_self _) "to=B".toList (by decide)
  obtain ⟨d, hd⟩ := accepted_delegate_iff.mp htarget
  -- the two tokens begin with different letters
  have hfirst := congrArg List.head? hd
  rw [token_toList] at hfirst
  exact absurd hfirst (by simp)

/-! ### Tokens on different lines -/

/-- Some tokens are spread, in their order, over the lines with a verb: over any number of lines in
    the leading block and in the detached ones, between other lines. -/
def Spreads (verb : Verb) (tokens : List (List Char)) (c : Lineage.Comments) : Prop :=
  ∃ lines, Listed verb (commentLines c) lines ∧ lines.flatten = tokens

/-- However tokens are spread over lines, all of them are read, in their order. -/
theorem Spreads.flatten_argumentsOf {verb : Verb} {ts : List (List Char)} {carrier : Carrier}
    (h : Spreads verb ts carrier.comments) : (argumentsOf verb carrier).flatten = proper ts := by
  obtain ⟨lines, hlisted, rfl⟩ := h
  rw [argumentsOf_of_listed hlisted, proper, List.filter_flatten]
  rfl

/-- What is put together from all tokens does not depend on the lines that they are on. -/
theorem toOption_collect_eq {α : Type} {verb : Verb} {add : α → Pair → Except AnnotationError α}
    {start : α} {ts : List (List Char)} {c c' : Carrier} (h : Spreads verb ts c.comments)
    (h' : Spreads verb ts c'.comments) :
    (collect verb add start c).toOption = (collect verb add start c').toOption := by
  ext d
  rw [toOption_eq_some, toOption_eq_some, collect_eq_ok_iff, collect_eq_ok_iff,
    h.flatten_argumentsOf, h'.flatten_argumentsOf]

/-- **Lines.** If the comments of two declarations have the same tokens on their lines with a verb,
    however these are spread over the lines, then the same constraints or demands are read, or
    nothing can be read from either. -/
theorem sameAnswer_of_spreads (kind : EntityKind) (tokens : List (List Char)) (c c' : Carrier) :
    (Spreads .validate tokens c.comments → Spreads .validate tokens c'.comments →
      (AnnotationStyle.comments.source.validate kind c).toOption =
        (AnnotationStyle.comments.source.validate kind c').toOption) ∧
    (Spreads .receive tokens c.comments → Spreads .receive tokens c'.comments →
      (AnnotationStyle.comments.source.receive kind c).toOption =
        (AnnotationStyle.comments.source.receive kind c').toOption) :=
  ⟨toOption_collect_eq, toOption_collect_eq⟩

/-- Comments with two constraints on one line. -/
def onOneLine : Carrier := { comments := { leading := "gen:svc validate in=a,b min=2" } }

/-- Comments with the same constraints on lines of two blocks, between prose and demands. -/
def onTwoLines : Carrier :=
  { comments := {
      leading := "Size.\n\tgen:svc\u00a0validate in=a,b \r\n"
      detached := ["gen:svc receive name=A", "gen:svc  validate\nmin=3",
        "gen:svc validate min=2"] } }

theorem sameAnswer_onTwoLines :
    Spreads .validate ["in=a,b".toList, "min=2".toList] onOneLine.comments ∧
      Spreads .validate ["in=a,b".toList, "min=2".toList] onTwoLines.comments ∧
      (AnnotationStyle.comments.source.validate .field onOneLine).toOption =
        (AnnotationStyle.comments.source.validate .field onTwoLines).toOption ∧
      (AnnotationStyle.comments.source.validate .field onOneLine).toOption =
        some { min := some "2", members := some ["a", "b"] } := by
  have hone : Spreads .validate ["in=a,b".toList, "min=2".toList] onOneLine.comments :=
    ⟨_, (holds_argumentsOf .validate onOneLine).1, by decide +kernel⟩
  have htwo : Spreads .validate ["in=a,b".toList, "min=2".toList] onTwoLines.comments :=
    ⟨_, (holds_argumentsOf .validate onTwoLines).1, by decide +kernel⟩
  exact ⟨hone, htwo, (sameAnswer_of_spreads .field _ _ _).1 hone htwo, by decide +kernel⟩

end Lineage.Annotation.Comments
