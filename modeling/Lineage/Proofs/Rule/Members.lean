import Lineage.Proofs.Chain.References
import Lineage.Proofs.Decimal.Literal
import Lineage.Proofs.Rule.Derive

namespace Lineage

/-!
# Membership lists

Each member of a list is read on its own, as what the field holds.

* `Spells` — a text written bare or in double quotes,
* `ScalarKind.Holds`, `ScalarKind.Literal` — the integers of a kind, and their literals,
* `MemberSet.DenotedBy` — the set that a list denotes for a field, member by member,
* `Rule.membersOf_eq_ok_iff` — the lists that are accepted, and the sets that they become,
* `Rule.members_of_ofPackages` — fields of chains as they are built.
-/

/-! ### Members on their own -/

/-- A text is written bare, or in double quotes; a text in double quotes is not bare. -/
inductive Spells : String → String → Prop
  | quoted (s : String) : Spells ("\"" ++ s ++ "\"") s
  | bare (s : String) (h : ∀ t, s ≠ "\"" ++ t ++ "\"") : Spells s s

/-- The integers that an integer kind holds: those of sixty-four bits, signed or unsigned. -/
def ScalarKind.Holds (k : ScalarKind) (n : Int) : Prop :=
  if k.isUnsigned then 0 ≤ n ∧ n < 2 ^ 64 else -2 ^ 63 ≤ n ∧ n < 2 ^ 63

/-- Integer kinds are no floating point kinds. -/
theorem ScalarKind.not_isFloat {k : ScalarKind} (hk : k.isInteger) : ¬k.isFloat := by
  revert hk
  cases k <;> decide

/-- Unsigned kinds are integer kinds. -/
theorem ScalarKind.isInteger_of_isUnsigned {k : ScalarKind} (hk : k.isUnsigned) : k.isInteger := by
  revert hk
  cases k <;> decide

/-- A text is a decimal literal of an integer that a kind holds. -/
def ScalarKind.Literal (k : ScalarKind) (text : String) (n : Int) : Prop :=
  Decimal.Denotes text.toList n ∧ k.Holds n

/-- A list of members denotes a set for a field of a kind and a type, member by member. -/
inductive MemberSet.DenotedBy (c : Chain) :
    FieldKind → Option TypeRef → List String → MemberSet → Prop
  | bools {type : Option TypeRef} {ts : List String} {bs : List Bool}
    (h : List.Forall₂ (fun t b => t = toString b) ts bs) :
    DenotedBy c (.scalar .bool) type ts (.bools bs)
  | ints {k : ScalarKind} {type : Option TypeRef} {ts : List String} {ns : List Int}
    (hk : k.isInteger) (hs : ¬k.isUnsigned) (h : List.Forall₂ k.Literal ts ns) :
    DenotedBy c (.scalar k) type ts (.ints ns)
  | uints {k : ScalarKind} {type : Option TypeRef} {ts : List String} {ns : List Int}
    (hk : k.isInteger) (hs : k.isUnsigned) (h : List.Forall₂ k.Literal ts ns) :
    DenotedBy c (.scalar k) type ts (.uints ns)
  | strings {type : Option TypeRef} {ts ss : List String} (h : List.Forall₂ Spells ts ss) :
    DenotedBy c (.scalar .string) type ts (.strings ss)
  | bytes {type : Option TypeRef} {ts ss : List String} (h : List.Forall₂ Spells ts ss) :
    DenotedBy c (.scalar .bytes) type ts (.bytes ss)
  | enumValues {e : EnumId} {ts ss : List String}
    (h : List.Forall₂ (fun t s => Spells t s ∧
      ∃ x ∈ (c.enumeration e).values, (c.value x).name = s) ts ss) :
    DenotedBy c .enumeration (some (.enumeration e)) ts (.enumValues ss)

namespace Rule

/-! ### Quotes -/

/-- A quoted text is read without its quotes. -/
theorem unquote?_eq_some {text s : String} : unquote? text = some s ↔ text = "\"" ++ s ++ "\"" := by
  unfold unquote?
  constructor
  · intro h
    split at h
    · rename_i rest heq
      split at h
      · rename_i hlast
        obtain rfl := Option.some.inj h
        have hrest : rest = rest.dropLast ++ ['"'] :=
          (List.dropLast_append_getLast? '"' (by simpa using hlast)).symm
        apply String.toList_injective
        simp only [String.toList_append, String.toList_ofList, heq]
        rw [hrest]
        simp
      · cases h
    · cases h
  · rintro rfl
    simp

/-- Texts are read without the quotes around them. -/
theorem unquote_eq_iff {text s : String} : unquote text = s ↔ Spells text s := by
  unfold unquote
  constructor
  · rintro rfl
    cases h : unquote? text with
    | some t =>
      obtain rfl := unquote?_eq_some.mp h
      exact .quoted t
    | none => exact .bare text fun t ht => nomatch h.symm.trans (unquote?_eq_some.mpr ht)
  · intro h
    cases h with
    | quoted => rw [unquote?_eq_some.mpr rfl, Option.getD_some]
    | bare _ hne =>
      cases h : unquote? text with
      | some t => exact absurd (unquote?_eq_some.mp h) (hne t)
      | none => rfl

/-! ### Lists -/

/-- A truth value is spelled in one way. -/
theorem bool?_eq_some {text : String} {b : Bool} : bool? text = some b ↔ text = toString b := by
  unfold bool?
  constructor
  · intro h
    split at h
    · rename_i htrue
      obtain rfl := Option.some.inj h
      exact eq_of_beq htrue
    · split at h
      · rename_i hfalse
        obtain rfl := Option.some.inj h
        exact eq_of_beq hfalse
      · cases h
  · rintro rfl
    cases b <;> rfl

/-- An integer is what a text denotes. -/
theorem int?_eq_some {text : String} {n : Int} :
    int? text = some n ↔ Decimal.Denotes text.toList n := Decimal.integer?_eq_some_iff

/-- The bounds of integers of sixty-four bits without a sign. -/
theorem isUInt64_iff {n : Int} : Number.isUInt64 n ↔ 0 ≤ n ∧ n < 2 ^ 64 := by
  simp [Number.isUInt64]

/-- The bounds of integers of sixty-four bits with a sign. -/
theorem isInt64_iff {n : Int} : Number.isInt64 n ↔ -2 ^ 63 ≤ n ∧ n < 2 ^ 63 := by
  simp [Number.isInt64]

/-- Integer kinds hold integers of sixty-four bits, with or without a sign. -/
theorem holds_iff {k : ScalarKind} {n : Int} :
    k.Holds n ↔ if k.isUnsigned then Number.isUInt64 n else Number.isInt64 n := by
  unfold ScalarKind.Holds
  split
  · exact isUInt64_iff.symm
  · exact isInt64_iff.symm

/-- A list of booleans is for fields of boolean kind only; so is the empty list, which is one of
    booleans. -/
theorem literalMembers_of_bools {s : Subject} {ts : List String} {bs : List Bool} {set : MemberSet}
    (h : ts.mapM bool? = some bs) :
    literalMembers s ts = .ok set ↔ s.kind.scalar? = some .bool ∧ set = .bools bs := by
  unfold literalMembers
  rw [h]
  dsimp only
  rw [ite_eq_ok, beq_iff_eq]

/-- Any other list is for fields of integer kinds, if the field holds no floats. -/
theorem literalMembers_of_not_bools {s : Subject} {ts : List String} {set : MemberSet}
    (hfloat : ¬s.kind.scalar?.any (·.isFloat)) (h : ts.mapM bool? = none) :
    literalMembers s ts = .ok set ↔ ∃ k ns, s.kind.scalar? = some k ∧ k.isInteger ∧
      ts.mapM int? = some ns ∧ (∀ n ∈ ns, k.Holds n) ∧
        set = if k.isUnsigned then .uints ns else .ints ns := by
  unfold literalMembers
  rw [h]
  dsimp only
  cases hi : ts.mapM int? with
  | none =>
    dsimp only
    -- what does not read as integers is for floats, which the field does not hold
    refine iff_of_false (fun hok => ?_) (by simp)
    split at hok
    · rw [if_neg hfloat] at hok
      cases hok
    · split at hok <;> cases hok
  | some ns =>
    dsimp only
    cases hs : s.kind.scalar? with
    | none => simp
    | some k =>
      rw [hs] at hfloat
      simp only [Option.any_some] at hfloat ⊢
      have hholds : (∀ n ∈ ns, k.Holds n) ↔
          if k.isUnsigned then ns.all Number.isUInt64 else ns.all Number.isInt64 := by
        simp only [holds_iff]
        split <;> simp
      simp only [hholds, Option.some.injEq, exists_and_left, exists_eq_left']
      by_cases hu : k.isUnsigned
      · rw [if_pos hu, if_pos hu, if_pos hu, ite_eq_ok,
          and_iff_right (ScalarKind.isInteger_of_isUnsigned hu)]
      · rw [if_neg hu, if_neg hu, if_neg hu]
        by_cases hk : k.isInteger
        · rw [if_pos hk, ite_eq_ok, and_iff_right hk]
        · rw [if_neg hk, if_neg hfloat]
          exact iff_of_false (fun hok => nomatch hok) fun hok => hk hok.1

/-- A truth value is no integer. -/
theorem int?_toString_bool (b : Bool) : int? (toString b) = none := by
  cases b <;> rfl

/-- A list of integers is no list of booleans, unless it is empty. -/
theorem mapM_bool?_eq_none {ts : List String} {ns : List Int} (h : ts.mapM int? = some ns)
    (hne : ts ≠ []) : ts.mapM bool? = none := by
  cases hb : ts.mapM bool? with
  | none => rfl
  | some bs =>
    obtain ⟨t, rest, rfl⟩ := List.exists_cons_of_ne_nil hne
    rw [mapM_eq_some] at h hb
    cases h with
    | cons hn _ =>
      cases hb with
      | cons hb _ =>
        rw [bool?_eq_some.mp hb, int?_toString_bool] at hn
        cases hn

/-- The integers that a list denotes, which must not be empty. -/
theorem literalMembers_integer {path : String} {k : ScalarKind} (hk : k.isInteger)
    {ts : List String} {set : MemberSet} : literalMembers ⟨path, .scalar k⟩ ts = .ok set ↔ ts ≠ [] ∧
      ∃ ns, List.Forall₂ k.Literal ts ns ∧ set = if k.isUnsigned then .uints ns else .ints ns := by
  have hbool : k ≠ .bool := by
    rintro rfl
    cases hk
  have hliteral :
      ∀ {ns}, List.Forall₂ k.Literal ts ns ↔ ts.mapM int? = some ns ∧ ∀ n ∈ ns, k.Holds n := by
    intro ns
    simp only [mapM_eq_some, int?_eq_some]
    constructor
    · intro h
      refine ⟨h.imp fun _ _ hl => hl.1, fun n hn => ?_⟩
      obtain ⟨t, -, hl⟩ := forall₂_exists_left h hn
      exact hl.2
    · rintro ⟨h, hholds⟩
      rw [List.forall₂_iff_get] at h ⊢
      exact ⟨h.1, fun i h₁ h₂ => ⟨h.2 i h₁ h₂, hholds _ (List.get_mem ..)⟩⟩
  cases hb : ts.mapM bool? with
  | some bs =>
    -- the empty list ends here, as a list of booleans
    rw [literalMembers_of_bools hb]
    refine iff_of_false (fun h => hbool (Option.some.inj h.1)) ?_
    rintro ⟨hne, ns, hns, -⟩
    rw [mapM_bool?_eq_none (hliteral.mp hns).1 hne] at hb
    cases hb
  | none =>
    have hne : ts ≠ [] := by
      rintro rfl
      cases hb
    rw [literalMembers_of_not_bools (by simpa [FieldKind.scalar?] using k.not_isFloat hk) hb,
      and_iff_right hne]
    constructor
    · rintro ⟨k', ns, hk', -, hns, hholds, hset⟩
      obtain rfl : k = k' := Option.some.inj hk'
      exact ⟨ns, hliteral.mpr ⟨hns, hholds⟩, hset⟩
    · rintro ⟨ns, hns, hset⟩
      obtain ⟨hints, hholds⟩ := hliteral.mp hns
      exact ⟨k, ns, rfl, hk, hints, hholds, hset⟩

/-- Members of a truth value are truth values. -/
theorem literalMembers_bool {path : String} {ts : List String} {set : MemberSet} :
    literalMembers ⟨path, .scalar .bool⟩ ts = .ok set ↔
      ∃ bs, List.Forall₂ (fun t b => t = toString b) ts bs ∧ set = .bools bs := by
  simp only [← bool?_eq_some, ← mapM_eq_some]
  cases hb : ts.mapM bool? with
  | some bs =>
    rw [literalMembers_of_bools hb]
    simp [FieldKind.scalar?]
  | none =>
    rw [literalMembers_of_not_bools (by simp [FieldKind.scalar?, ScalarKind.isFloat]) hb]
    simp [FieldKind.scalar?, ScalarKind.isInteger]

/-- The sets that lists denote for a field of an integer kind. -/
theorem denotedBy_integer {c : Chain} {k : ScalarKind} (hk : k.isInteger) {type : Option TypeRef}
    {ts : List String} {set : MemberSet} : set.DenotedBy c (.scalar k) type ts ↔
      ∃ ns, List.Forall₂ k.Literal ts ns ∧ set = if k.isUnsigned then .uints ns else .ints ns := by
  constructor
  · intro h
    cases h with
    | ints _ hs h => exact ⟨_, h, (if_neg hs).symm⟩
    | uints _ hs h => exact ⟨_, h, (if_pos hs).symm⟩
    | bools | strings | bytes => cases hk
  · rintro ⟨ns, h, rfl⟩
    split
    · exact .uints hk ‹_› h
    · exact .ints hk ‹_› h

/-! ### Fields -/

/-- Fields that hold booleans, integers, texts, byte strings, or values of an enum of the chain. -/
inductive TakesMembers : FieldKind → Option TypeRef → Prop
  | scalar {k : ScalarKind} {type : Option TypeRef} (hk : ¬k.isFloat)
    (htype : ∀ e, type ≠ some (.enumeration e)) : TakesMembers (.scalar k) type
  | enumeration (e : EnumId) : TakesMembers .enumeration (some (.enumeration e))

/-- Members of what is no enum are texts or literals. -/
theorem membersOf_of_not_enumeration (c : Chain) (s : Subject) {type : Option TypeRef}
    (htype : ∀ e, type ≠ some (.enumeration e)) (ts : List String) :
    membersOf c s type ts = match s.kind with
      | .scalar .string => .ok (.strings (ts.map unquote))
      | .scalar .bytes => .ok (.bytes (ts.map unquote))
      | _ => literalMembers s ts := by
  unfold membersOf
  split
  · exact absurd rfl (htype _)
  · rename_i hs
    simp only [hs]
  · rename_i hs
    simp only [hs]
  · rename_i hstring hbytes
    split
    · exact absurd ‹_› hstring
    · exact absurd ‹_› hbytes
    · rfl

/-- Spelled texts are the texts without their quotes. -/
theorem forall₂_spells {ts ss : List String} : List.Forall₂ Spells ts ss ↔ ts.map unquote = ss := by
  rw [← List.forall₂_eq_eq_eq, List.forall₂_map_left_iff]
  exact ⟨fun h => h.imp fun _ _ => unquote_eq_iff.mpr, fun h => h.imp fun _ _ => unquote_eq_iff.mp⟩

/-- The sets that lists denote for a field that holds booleans, texts or byte strings. -/
theorem denotedBy_bool {c : Chain} {type : Option TypeRef} {ts : List String} {set : MemberSet} :
    set.DenotedBy c (.scalar .bool) type ts ↔
      ∃ bs, List.Forall₂ (fun t b => t = toString b) ts bs ∧ set = .bools bs := by
  constructor
  · intro h
    cases h with
    | bools h => exact ⟨_, h, rfl⟩
    | ints hk | uints hk => cases hk
  · rintro ⟨bs, h, rfl⟩
    exact .bools h

/-- Members of a text are the texts without their quotes. -/
theorem denotedBy_string {c : Chain} {type : Option TypeRef} {ts : List String} {set : MemberSet} :
    set.DenotedBy c (.scalar .string) type ts ↔ .strings (ts.map unquote) = set := by
  constructor
  · intro h
    cases h with
    | strings h => rw [forall₂_spells.mp h]
    | ints hk | uints hk => cases hk
  · rintro rfl
    exact .strings (forall₂_spells.mpr rfl)

/-- Members of bytes are the texts without their quotes. -/
theorem denotedBy_bytes {c : Chain} {type : Option TypeRef} {ts : List String} {set : MemberSet} :
    set.DenotedBy c (.scalar .bytes) type ts ↔ .bytes (ts.map unquote) = set := by
  constructor
  · intro h
    cases h with
    | bytes h => rw [forall₂_spells.mp h]
    | ints hk | uints hk => cases hk
  · rintro rfl
    exact .bytes (forall₂_spells.mpr rfl)

/-- A member of an enum is spelled as the name of one of its values. -/
theorem enumMember_eq_ok {c : Chain} {s : Subject} {e : EnumId} {t name : String} :
    enumMember c s e t = .ok name ↔
      Spells t name ∧ ∃ x ∈ (c.enumeration e).values, (c.value x).name = name := by
  unfold enumMember
  rw [ite_eq_ok, ← unquote_eq_iff]
  simp only [Chain.findValue, List.find?_isSome, beq_iff_eq]
  constructor
  · rintro ⟨hx, rfl⟩
    exact ⟨rfl, hx⟩
  · rintro ⟨rfl, hx⟩
    exact ⟨hx, rfl⟩

/-- **Lists of members.** A list is accepted if each of its members is written as what the field
    holds, and becomes the set of these; fields of integer kinds refuse the empty list. -/
theorem membersOf_eq_ok_iff {c : Chain} {path : String} {kind : FieldKind} {type : Option TypeRef}
    {ts : List String} {set : MemberSet} (h : TakesMembers kind type) :
    membersOf c ⟨path, kind⟩ type ts = .ok set ↔
      set.DenotedBy c kind type ts ∧ ∀ k, kind = .scalar k → k.isInteger → ts ≠ [] := by
  cases h with
  | enumeration e =>
    have hmembers : membersOf c ⟨path, .enumeration⟩ (some (.enumeration e)) ts
        = enumMembers c ⟨path, .enumeration⟩ e ts := rfl
    rw [hmembers, enumMembers, map_eq_ok]
    simp only [mapM_eq_ok, enumMember_eq_ok]
    constructor
    · rintro ⟨ss, hss, rfl⟩
      exact ⟨.enumValues hss, fun k hk => nomatch hk⟩
    · rintro ⟨h, -⟩
      cases h with
      | enumValues hss => exact ⟨_, hss, rfl⟩
  | @scalar k _ hk htype =>
    rw [membersOf_of_not_enumeration c _ htype]
    by_cases hint : k.isInteger
    · have hliteral : (match FieldKind.scalar k with
          | .scalar .string => .ok (.strings (ts.map unquote))
          | .scalar .bytes => .ok (.bytes (ts.map unquote))
          | _ => literalMembers ⟨path, .scalar k⟩ ts) = literalMembers ⟨path, .scalar k⟩ ts := by
        cases k <;> first | rfl | cases hint
      rw [hliteral, literalMembers_integer hint, ← denotedBy_integer hint, and_comm]
      exact and_congr_right fun _ => ⟨fun hne _ _ _ => hne, fun hne => hne k rfl hint⟩
    · -- what is left has no floats and no integers, and takes the empty list too
      have hany : ∀ k', FieldKind.scalar k = .scalar k' → k'.isInteger → ts ≠ [] := by
        rintro k' ⟨⟩ hk'
        exact absurd hk' hint
      rw [and_iff_left hany]
      cases k with
      | bool => exact literalMembers_bool.trans denotedBy_bool.symm
      | string => rw [denotedBy_string, Except.ok.injEq]
      | bytes => rw [denotedBy_bytes, Except.ok.injEq]
      | double | float => exact absurd rfl hk
      | _ => exact absurd rfl hint

/-- A field of message kind refuses every list. -/
theorem membersOf_message {c : Chain} {path : String} {type : Option TypeRef} {ts : List String}
    (htype : ∀ e, type ≠ some (.enumeration e)) {set : MemberSet} :
    membersOf c ⟨path, .message⟩ type ts ≠ .ok set := by
  rw [membersOf_of_not_enumeration c _ htype]
  dsimp only
  cases hb : ts.mapM bool? with
  | some bs => simp [literalMembers_of_bools hb, FieldKind.scalar?]
  | none => simp [literalMembers_of_not_bools _ hb, FieldKind.scalar?]

/-! ### Rules of fields -/

namespace Derivation

variable {d : Derivation} {f : FieldId}

/-- The constraints of a field can be read, its list of members apart. -/
structure OthersReadable (d : Derivation) (f : FieldId) : Prop where
  format : ∃ rules, whenGiven (d.chain.field f).validate.format (formatOf (d.subject f)) = .ok rules
  range : ∃ rules, rangeRules (d.subject f) (d.chain.field f).validate.min
    (d.chain.field f).validate.max = .ok rules

/-- A field whose members are given has rules exactly if its constraints can be read, each on its
    own. -/
theorem fieldRules_isOk_iff {ts : List String}
    (hts : (d.chain.field f).validate.members = some ts) :
    (∃ rules, d.fieldRules f = .ok rules) ↔ d.OthersReadable f ∧
      ∃ set, membersOf d.chain (d.subject f) (d.chain.field f).typeRef ts = .ok set := by
  simp only [fieldRules_eq_ok_iff, hts, whenGiven, map_eq_ok]
  constructor
  · rintro ⟨_, format, members, range, hformat, ⟨_, ⟨set, hset, -⟩, -⟩, hrange, -⟩
    exact ⟨⟨⟨format, hformat⟩, ⟨range, hrange⟩⟩, set, hset⟩
  · rintro ⟨⟨⟨format, hformat⟩, ⟨range, hrange⟩⟩, set, hset⟩
    exact ⟨_, format, _, range, hformat, ⟨_, ⟨set, hset, rfl⟩, rfl⟩, hrange, rfl⟩

/-- The one rule on members is the one for the list that is given. -/
theorem oneOf_mem_fieldRules {ts : List String} {rules : List Rule}
    (hts : (d.chain.field f).validate.members = some ts) (h : d.fieldRules f = .ok rules)
    (set : MemberSet) : .oneOf set ∈ rules ↔
      membersOf d.chain (d.subject f) (d.chain.field f).typeRef ts = .ok set := by
  obtain ⟨format, members, range, hformat, hmembers, hrange, rfl⟩ := fieldRules_eq_ok_iff.mp h
  simp only [hts, whenGiven, map_eq_ok] at hmembers
  obtain ⟨_, ⟨set', hset, rfl⟩, rfl⟩ := hmembers
  -- no other constraint makes a rule on members
  have hnotNested : .oneOf set ∉ d.nestedRule (d.chain.field f).typeRef := fun hmem =>
    nomatch (exists_of_mem_nestedRule hmem).choose_spec
  have hnotFormat : .oneOf set ∉ format := fun hmem => by
    obtain ⟨name, hname⟩ := mem_whenGiven hformat hmem
    obtain ⟨_, hformat⟩ := formatOf_eq_ok hname
    cases hformat
  have hnotRange : .oneOf set ∉ range := fun hmem => nomatch rangeRules_isBound hrange _ hmem
  simp only [List.mem_append, mem_requiredRule, hnotNested, hnotFormat, hnotRange, reduceCtorEq,
    and_false, false_or, or_false, List.mem_singleton, Rule.oneOf.injEq, hset, Except.ok.injEq]
  exact eq_comm

end Derivation

/-! ### Chains as they are built -/

variable {source : AnnotationSource} {privatePackage : String} {packages : List PackageSchema}
  {c : Chain} {f : FieldId}

/-- Only fields of enum kind refer to an enum. -/
theorem not_enumeration_of_ofPackages (h : Chain.ofPackages source privatePackage packages = .ok c)
    (hf : c.Has (.field f)) (hkind : (c.field f).kind ≠ .enumeration) (e : EnumId) :
    (c.field f).typeRef ≠ some (.enumeration e) := by
  intro htype
  obtain ⟨name, heq, -⟩ := Chain.typeSeen_of_ofPackages h hf htype
  cases hk : (c.field f).kind with
  | enumeration => exact hkind hk
  | scalar k =>
    rw [hk] at heq
    cases heq
  | message =>
    rw [hk, Chain.typeSeen] at heq
    cases hseen : seen? c.messageEntries (c.versionOf (.field f)).index name <;>
      simp [hseen] at heq

/-- **Membership lists.** A field of boolean, integer, text, bytes or enum kind whose other
    constraints can be read takes a list of members if each of them is written as what the field
    holds, and its set holds exactly these, in their order; but a field of an integer kind refuses
    the empty list.  A field of message kind refuses every list. -/
theorem members_of_ofPackages (h : Chain.ofPackages source privatePackage packages = .ok c)
    (hf : c.Has (.field f)) {ts : List String} (hts : (c.field f).validate.members = some ts) :
    ((∃ k, (c.field f).kind = .scalar k ∧ ¬k.isFloat) ∨
        (c.field f).kind = .enumeration ∧ (c.field f).typeRef.isSome →
      ((∃ rules, (Derivation.ofChain c).fieldRules f = .ok rules) ↔
        (Derivation.ofChain c).OthersReadable f ∧
        (∃ set : MemberSet, set.DenotedBy c (c.field f).kind (c.field f).typeRef ts) ∧
        ∀ k, (c.field f).kind = .scalar k → k.isInteger → ts ≠ []) ∧
      ∀ rules, (Derivation.ofChain c).fieldRules f = .ok rules → ∀ set : MemberSet,
        .oneOf set ∈ rules ↔ set.DenotedBy c (c.field f).kind (c.field f).typeRef ts) ∧
    ((c.field f).kind = .message → ∀ rules, (Derivation.ofChain c).fieldRules f ≠ .ok rules) := by
  constructor
  · intro hkind
    have htakes : TakesMembers (c.field f).kind (c.field f).typeRef := by
      obtain ⟨k, hk, hfloat⟩ | ⟨hk, hsome⟩ := hkind
      · rw [hk]
        exact .scalar hfloat (not_enumeration_of_ofPackages h hf (by simp [hk]))
      · obtain ⟨t, ht⟩ := Option.isSome_iff_exists.mp hsome
        obtain ⟨e, rfl⟩ := Chain.enumeration_of_ofPackages h hf hk ht
        rw [hk, ht]
        exact .enumeration e
    have hmembers : ∀ set : MemberSet, membersOf c ((Derivation.ofChain c).subject f)
        (c.field f).typeRef ts = .ok set ↔
          set.DenotedBy c (c.field f).kind (c.field f).typeRef ts ∧
            ∀ k, (c.field f).kind = .scalar k → k.isInteger → ts ≠ [] :=
      fun set => membersOf_eq_ok_iff htakes
    have hok := Derivation.fieldRules_isOk_iff (d := .ofChain c) hts
    refine ⟨?_, fun rules hrules set => ?_⟩
    · refine hok.trans (and_congr_right fun _ => ?_)
      rw [← exists_and_right]
      exact exists_congr hmembers
    · have hne := (hmembers _).mp (hok.mp ⟨rules, hrules⟩).2.choose_spec
      rw [Derivation.oneOf_mem_fieldRules hts hrules]
      exact (hmembers set).trans (and_iff_left hne.2)
  · intro hkind rules hrules
    obtain ⟨-, set, hset⟩ := (Derivation.fieldRules_isOk_iff hts).mp ⟨rules, hrules⟩
    rw [Derivation.subject, Derivation.ofChain, hkind] at hset
    exact membersOf_message (not_enumeration_of_ofPackages h hf (by simp [hkind])) hset

/-! ### A sample -/

/-- A list of members, as an option. -/
def membersOption (members : List Json) : Options :=
  [("[gen.svc.field]", .object [("validate", .object [("in", .array members)])])]

/-- A package of boxes: a number without members, a number and a text with two members each, a text
    without members and a kind with one of its values. -/
def memberFile (package : String) : FileDescriptor :=
  let field (name type : String) (members : List Json) (typeName : Option String := none) :
      FieldDescriptor :=
    { Chain.sampleField name type typeName with options := membersOption members }
  { name := package ++ ".proto"
    package
    messages := [
      { name := "Box"
        fields := [
          field "none" "TYPE_INT32" [],
          field "size" "TYPE_INT32" [.integer (-2), .string "+3"],
          field "name" "TYPE_STRING" [.string "\"a b\"", .string "c"],
          field "text" "TYPE_STRING" [],
          field "kind" "TYPE_ENUM" [.string "\"BIG\""] (package ++ ".Kind")] }]
    enums := [
      { name := "Kind"
        values := [{ name := "NONE", number := some 0 }, { name := "BIG", number := some 1 }] }]
    services := [{ name := "Service" }] }

/-- One public version of the boxes, and the private one. -/
def memberPackages : List PackageSchema :=
  ({ files := ["v1", "private"].map memberFile : DescriptorSet }.packages.toOption).getD []

/-- The chain of the boxes. -/
def memberChain : Chain :=
  ((Chain.ofPackages AnnotationStyle.options.source "private" memberPackages).toOption).getD {}

/-- The rules of a field of the boxes, if it has any. -/
def memberRules (f : Nat) : Option (List Rule) :=
  ((Derivation.ofChain memberChain).fieldRules ⟨f⟩).toOption

set_option maxRecDepth 10000 in
/-- What is checked of the sample by evaluation. -/
theorem memberChain_checked :
    (Chain.ofPackages AnnotationStyle.options.source "private" memberPackages).toOption
      = some memberChain ∧
    4 < memberChain.fields.size ∧
    (memberChain.field ⟨0⟩).kind = .scalar .int32 ∧
    (memberChain.field ⟨0⟩).validate = { members := some [] } ∧
    (memberChain.field ⟨1⟩).kind = .scalar .int32 ∧
    (memberChain.field ⟨1⟩).validate = { members := some ["-2", "+3"] } ∧
    (memberChain.field ⟨3⟩).kind = .scalar .string ∧
    (memberChain.field ⟨3⟩).validate = { members := some [] } ∧
    memberRules 0 = none ∧ memberRules 1 = some [.oneOf (.ints [-2, 3])] ∧
    memberRules 2 = some [.oneOf (.strings ["a b", "c"])] ∧
      memberRules 3 = some [.oneOf (.strings [])] ∧
    memberRules 4 = some [.oneOf (.enumValues ["BIG"])] := by decide +kernel

/-- The sample is built. -/
theorem ofPackages_memberPackages :
    Chain.ofPackages AnnotationStyle.options.source "private" memberPackages = .ok memberChain :=
  toOption_eq_some.mp memberChain_checked.1

/-- The members of the size are minus two and three. -/
theorem members_size :
    (memberChain.field ⟨1⟩).validate.members = some ["-2", "+3"] ∧
    (MemberSet.ints [-2, 3]).DenotedBy memberChain (memberChain.field ⟨1⟩).kind
      (memberChain.field ⟨1⟩).typeRef ["-2", "+3"] ∧
    ∃ rules, (Derivation.ofChain memberChain).fieldRules ⟨1⟩ = .ok rules ∧
      .oneOf (.ints [-2, 3]) ∈ rules := by
  obtain ⟨-, hsize, -, -, hkind, hvalidate, -, -, -, hrules, -⟩ := memberChain_checked
  have hts : (memberChain.field ⟨1⟩).validate.members = some ["-2", "+3"] := by rw [hvalidate]
  have hf : memberChain.Has (.field ⟨1⟩) := Nat.lt_trans (by decide) hsize
  have hok := toOption_eq_some.mp hrules
  have hset := ((members_of_ofPackages ofPackages_memberPackages hf hts).1
    (.inl ⟨.int32, hkind, by decide⟩)).2 _ hok (.ints [-2, 3])
  exact ⟨hts, hset.mp (by simp), _, hok, by simp⟩

/-- **The empty list is not for numbers.** It is refused although none of its members is amiss; a
    text takes it. -/
theorem members_refused :
    Chain.ofPackages AnnotationStyle.options.source "private" memberPackages = .ok memberChain ∧
    (memberChain.Has (.field ⟨0⟩) ∧ (memberChain.field ⟨0⟩).kind = .scalar .int32 ∧
      (memberChain.field ⟨0⟩).validate.members = some [] ∧
      (Derivation.ofChain memberChain).OthersReadable ⟨0⟩ ∧
      (MemberSet.ints []).DenotedBy memberChain (memberChain.field ⟨0⟩).kind
        (memberChain.field ⟨0⟩).typeRef [] ∧
      ∀ rules, (Derivation.ofChain memberChain).fieldRules ⟨0⟩ ≠ .ok rules) ∧
    (memberChain.Has (.field ⟨3⟩) ∧ (memberChain.field ⟨3⟩).kind = .scalar .string ∧
      (memberChain.field ⟨3⟩).validate.members = some [] ∧
      (Derivation.ofChain memberChain).fieldRules ⟨3⟩ = .ok [.oneOf (.strings [])]) := by
  obtain ⟨-, hsize, hkind, hvalidate, -, -, hkind', hvalidate', hnone, -, -, hsome, -⟩ :=
    memberChain_checked
  refine ⟨ofPackages_memberPackages,
    ⟨Nat.lt_trans (by decide) hsize, hkind, by rw [hvalidate], ?_, ?_, ?_⟩,
    Nat.lt_trans (by decide) hsize, hkind', by rw [hvalidate'], toOption_eq_some.mp hsome⟩
  · have hplain :
        ((Derivation.ofChain memberChain).chain.field ⟨0⟩).validate = { members := some [] } :=
      hvalidate
    refine ⟨⟨[], ?_⟩, ⟨[], ?_⟩⟩
    · rw [hplain]
      rfl
    · rw [hplain]
      rfl
  · rw [hkind]
    exact .ints rfl (by decide) .nil
  · intro rules hrules
    cases hnone.symm.trans (toOption_eq_some.mpr hrules)

end Rule

end Lineage
