import Lineage.Proofs.Rule.Members
import Lineage.Proofs.Service.Validity

namespace Lineage

/-!
# Integers within bounds

The bounds and members of a field of an integer kind are read as the integers that they denote, and
values are compared with these as integers.

* `ScalarKind.Readable` — constraints that are literals of integers of the kind,
* `Within` — an integer satisfies the constraints, as their texts denote them,
* `Rule.rangeOf_integer`, `Rule.membersRules_integer` — what bounds and members become,
* `Rule.range_accepts`, `Rule.oneOf_accepts` — which integers satisfy the rules,
* `Service.integers_of_ofPackages` — fields of chains as they are built.
-/

/-- The constraints of a field of an integer kind are literals of integers that the kind holds. -/
structure ScalarKind.Readable (k : ScalarKind) (v : ValidateDirectives) : Prop where
  format : v.format = none
  min : ∀ t, v.min = some t → ∃ n, k.Literal t n
  max : ∀ t, v.max = some t → ∃ n, k.Literal t n
  members : ∀ ts, v.members = some ts → ts ≠ [] ∧ ∀ t ∈ ts, ∃ n, k.Literal t n

/-- An integer lies between the integers that the bounds denote, and is one that the
    members denote. -/
structure Within (v : ValidateDirectives) (n : Int) : Prop where
  min : ∀ t low, v.min = some t → Decimal.Denotes t.toList low → low ≤ n
  max : ∀ t high, v.max = some t → Decimal.Denotes t.toList high → n ≤ high
  members : ∀ ts, v.members = some ts → ∃ t ∈ ts, Decimal.Denotes t.toList n

namespace Rule

open Rule.Derivation

/-! ### What constraints become -/

/-- A text is an integer number if it denotes one of sixty-four bits. -/
theorem ofText?_eq_integer {text : String} {n : Int} : Number.ofText? text = some (.integer n) ↔
    Decimal.Denotes text.toList n ∧ (Number.isInt64 n ∨ Number.isUInt64 n) := by
  rw [← Decimal.integer?_eq_some_iff]
  have hfloat : (Decimal.float? text.toList).map Number.float ≠ some (.integer n) := by
    cases Decimal.float? text.toList <;> simp
  unfold Number.ofText?
  cases h : Decimal.integer? text.toList with
  | none => exact iff_of_false hfloat (by simp)
  | some m =>
    dsimp only
    split
    · rename_i hm
      simp only [Bool.or_eq_true] at hm
      simp only [Option.some.injEq, Number.integer.injEq]
      constructor
      · rintro rfl
        exact ⟨rfl, hm⟩
      · exact fun h => h.1
    · rename_i hm
      simp only [Bool.or_eq_true] at hm
      refine iff_of_false hfloat ?_
      rintro ⟨hmn, hn⟩
      obtain rfl := Option.some.inj hmn
      exact hm hn

/-- A bound for integers of a kind. -/
theorem integerBound_eq_ok {s : Subject} {k : ScalarKind} {key : BoundKey} {text : Option String}
    {bound : Option Number} :
    (∃ read, boundOf s key text = .ok read ∧
      integerBound s k.isUnsigned key text read = .ok bound) ↔
      ∃ n, Option.Rel k.Literal text n ∧ bound = n.map .integer := by
  cases text with
  | none =>
    simp only [boundOf, Except.ok.injEq, exists_eq_left', integerBound]
    constructor
    · rintro rfl
      exact ⟨none, .none, rfl⟩
    · rintro ⟨n, ⟨⟩, rfl⟩
      rfl
  | some t =>
    constructor
    · rintro ⟨read, hread, hbound⟩
      unfold boundOf at hread
      dsimp only at hread
      split at hread
      · rename_i number hnumber
        obtain rfl := Except.ok.inj hread
        cases number with
        | float x => cases hbound
        | integer n =>
          unfold integerBound misfit at hbound
          dsimp only at hbound
          rw [ite_eq_ok, ← holds_iff] at hbound
          obtain ⟨hholds, rfl⟩ := hbound
          exact ⟨some n, .some ⟨(ofText?_eq_integer.mp hnumber).1, hholds⟩, rfl⟩
      · cases hread
    · rintro ⟨n, hn, rfl⟩
      cases hn with
      | @some _ n hn =>
        have hnumber : Number.ofText? t = some (.integer n) := by
          refine ofText?_eq_integer.mpr ⟨hn.1, ?_⟩
          have hholds := holds_iff.mp hn.2
          split at hholds
          · exact .inr hholds
          · exact .inl hholds
        refine ⟨some (.integer n), by rw [boundOf, hnumber], ?_⟩
        unfold integerBound misfit
        dsimp only
        rw [ite_eq_ok, ← holds_iff]
        exact ⟨hn.2, rfl⟩

/-- The range of a lower and an upper bound for integers. -/
theorem rangeOf_integer {path : String} {k : ScalarKind} (hk : k.isInteger)
    {min max : Option String} {rule : Rule} :
    rangeOf ⟨path, .scalar k⟩ min max = .ok rule ↔ ∃ low high,
      Option.Rel k.Literal min low ∧ Option.Rel k.Literal max high ∧
        rule = .range (low.map .integer) (high.map .integer) := by
  have heq : rangeOf ⟨path, .scalar k⟩ min max = (do
      let low ← boundOf ⟨path, .scalar k⟩ .min min
      let high ← boundOf ⟨path, .scalar k⟩ .max max
      let a ← integerBound ⟨path, .scalar k⟩ k.isUnsigned .min min low
      let b ← integerBound ⟨path, .scalar k⟩ k.isUnsigned .max max high
      return .range a b) := by
    cases k <;> first | rfl | cases hk
  simp only [heq, bind_eq_ok, pure_eq_ok]
  constructor
  · rintro ⟨low, hlow, high, hhigh, a, ha, b, hb, rfl⟩
    obtain ⟨m, hm, rfl⟩ := integerBound_eq_ok.mp ⟨low, hlow, ha⟩
    obtain ⟨n, hn, rfl⟩ := integerBound_eq_ok.mp ⟨high, hhigh, hb⟩
    exact ⟨m, n, hm, hn, rfl⟩
  · rintro ⟨m, n, hm, hn, rfl⟩
    obtain ⟨low, hlow, ha⟩ := integerBound_eq_ok.mpr ⟨m, hm, rfl⟩
    obtain ⟨high, hhigh, hb⟩ := integerBound_eq_ok.mpr ⟨n, hn, rfl⟩
    exact ⟨low, hlow, high, hhigh, _, ha, _, hb, rfl⟩

/-- Of related values both are there or neither. -/
theorem isSome_of_rel {α β : Type} {R : α → β → Prop} {a : Option α} {b : Option β}
    (h : Option.Rel R a b) : a.isSome = b.isSome := by
  cases h <;> rfl

/-- The rules for bounds of integers: one range, if any bound is given. -/
theorem rangeRules_integer {path : String} {k : ScalarKind} (hk : k.isInteger)
    {min max : Option String} {rules : List Rule} :
    rangeRules ⟨path, .scalar k⟩ min max = .ok rules ↔ ∃ low high,
      Option.Rel k.Literal min low ∧ Option.Rel k.Literal max high ∧
        rules = if low.isSome || high.isSome then [.range (low.map .integer) (high.map .integer)]
          else [] := by
  unfold rangeRules
  split
  · rename_i hgiven
    rw [map_eq_ok]
    simp only [rangeOf_integer hk]
    constructor
    · rintro ⟨_, ⟨low, high, hlow, hhigh, rfl⟩, rfl⟩
      rw [isSome_of_rel hlow, isSome_of_rel hhigh] at hgiven
      exact ⟨low, high, hlow, hhigh, (if_pos hgiven).symm⟩
    · rintro ⟨low, high, hlow, hhigh, rfl⟩
      rw [isSome_of_rel hlow, isSome_of_rel hhigh] at hgiven
      exact ⟨_, ⟨low, high, hlow, hhigh, rfl⟩, (if_pos hgiven).symm⟩
  · rename_i hnone
    obtain ⟨rfl, rfl⟩ : min = none ∧ max = none := by simpa using hnone
    constructor
    · rintro ⟨⟩
      exact ⟨none, none, .none, .none, rfl⟩
    · rintro ⟨low, high, ⟨⟩, ⟨⟩, rfl⟩
      rfl

/-- The rules for members of integers: one set, if members are given. -/
theorem membersRules_integer {c : Chain} {path : String} {k : ScalarKind} (hk : k.isInteger)
    {type : Option TypeRef} (htype : ∀ e, type ≠ some (.enumeration e))
    {members : Option (List String)} {rules : List Rule} :
    whenGiven members (fun ts => (membersOf c ⟨path, .scalar k⟩ type ts).map .oneOf) = .ok rules ↔
      members ≠ some [] ∧ ∃ ns, Option.Rel (List.Forall₂ k.Literal) members ns ∧
        rules = (ns.map fun ns =>
          Rule.oneOf (if k.isUnsigned then .uints ns else .ints ns)).toList := by
  cases members with
  | none =>
    constructor
    · rintro ⟨⟩
      exact ⟨nofun, none, .none, rfl⟩
    · rintro ⟨-, ns, ⟨⟩, rfl⟩
      rfl
  | some ts =>
    simp only [whenGiven, map_eq_ok, membersOf_eq_ok_iff (.scalar (k.not_isFloat hk) htype),
      denotedBy_integer hk]
    constructor
    · rintro ⟨_, ⟨_, ⟨⟨ns, hns, rfl⟩, hne⟩, rfl⟩, rfl⟩
      exact ⟨fun h => hne k rfl hk (Option.some.inj h), some ns, .some hns, rfl⟩
    · rintro ⟨hne, ns, hns, rfl⟩
      cases hns with
      | some hns =>
        refine ⟨_, ⟨_, ⟨⟨_, hns, rfl⟩, fun _ _ _ hempty => hne (congrArg some hempty)⟩, rfl⟩, rfl⟩

/-- Integers have no format. -/
theorem formatRules_integer {path : String} {k : ScalarKind} (hk : k.isInteger)
    {format : Option String} {rules : List Rule} :
    whenGiven format (formatOf ⟨path, .scalar k⟩) = .ok rules ↔ format = none ∧ rules = [] := by
  have hstring : (FieldKind.scalar k == .scalar .string) = false := by
    revert hk
    cases k <;> decide
  cases format with
  | none => simp [whenGiven, eq_comm]
  | some name =>
    refine iff_of_false (fun h => ?_) (by simp)
    obtain ⟨rule, hrule, -⟩ := map_eq_ok.mp h
    unfold formatOf at hrule
    split at hrule
    · cases hrule
    · dsimp only at hrule
      rw [hstring] at hrule
      cases hrule

/-- A rule about which numbers a value may be. -/
def isLimit : Rule → Bool
  | .oneOf _ | .range _ _ => true
  | .required | .nested _ | .format _ | .length _ _ => false

/-- The rules for the members and the bounds of a field of an integer kind. -/
def limits (k : ScalarKind) (members : Option (List Int)) (low high : Option Int) : List Rule :=
  (members.map fun ns => Rule.oneOf (if k.isUnsigned then .uints ns else .ints ns)).toList ++
    if low.isSome || high.isSome then [.range (low.map .integer) (high.map .integer)] else []

/-- The limits of integers are limits. -/
theorem isLimit_of_mem_limits {k : ScalarKind} {members : Option (List Int)} {low high : Option Int}
    {rule : Rule} (h : rule ∈ limits k members low high) : rule.isLimit := by
  obtain h | h := List.mem_append.mp h
  · obtain ⟨ns, -, rfl⟩ := Option.map_eq_some_iff.mp (Option.mem_toList.mp h)
    rfl
  · split at h
    · obtain rfl := List.mem_singleton.mp h
      rfl
    · cases h

/-- The limits among the rules of a field are those for its members and its bounds. -/
theorem forall_isLimit_iff {d : Derivation} {required : Bool} {type : Option TypeRef}
    {k : ScalarKind} {members : Option (List Int)} {low high : Option Int} {p : Rule → Prop} :
    (∀ rule ∈ (if required then [.required] else []) ++ d.nestedRule type ++
      limits k members low high,
      rule.isLimit → p rule) ↔ ∀ rule ∈ limits k members low high, p rule := by
  constructor
  · exact fun h rule hrule => h rule (List.mem_append_right _ hrule) (isLimit_of_mem_limits hrule)
  · intro h rule hrule hlimit
    obtain hrule | hrule := List.mem_append.mp hrule
    · obtain hrule | hrule := List.mem_append.mp hrule
      · obtain ⟨-, rfl⟩ := mem_requiredRule.mp hrule
        cases hlimit
      · obtain ⟨_, rfl⟩ := exists_of_mem_nestedRule hrule
        cases hlimit
    · exact h rule hrule

/-- **The rules of a field of an integer kind.** -/
theorem fieldRules_integer {d : Derivation} {f : FieldId} {k : ScalarKind}
    (hkind : (d.chain.field f).kind = .scalar k) (hk : k.isInteger)
    (htype : ∀ e, (d.chain.field f).typeRef ≠ some (.enumeration e)) {rules : List Rule} :
    d.fieldRules f = .ok rules ↔
      (d.chain.field f).validate.format = none ∧ (d.chain.field f).validate.members ≠ some [] ∧
      ∃ ns low high, Option.Rel (List.Forall₂ k.Literal) (d.chain.field f).validate.members ns ∧
        Option.Rel k.Literal (d.chain.field f).validate.min low ∧
        Option.Rel k.Literal (d.chain.field f).validate.max high ∧
        rules = (if (d.chain.field f).validate.required then [.required] else [])
          ++ d.nestedRule (d.chain.field f).typeRef ++ limits k ns low high := by
  have hsubject : d.subject f = ⟨d.chain.fieldPath f, .scalar k⟩ := by rw [subject, hkind]
  rw [fieldRules_eq_ok_iff, hsubject]
  simp only [formatRules_integer hk, membersRules_integer hk htype, rangeRules_integer hk]
  constructor
  · rintro ⟨_, _, _, ⟨hformat, rfl⟩, ⟨hne, ns, hns, rfl⟩, ⟨low, high, hlow, hhigh, rfl⟩, rfl⟩
    exact ⟨hformat, hne, ns, low, high, hns, hlow, hhigh, by simp [limits]⟩
  · rintro ⟨hformat, hne, ns, low, high, hns, hlow, hhigh, rfl⟩
    exact ⟨_, _, _, ⟨hformat, rfl⟩, ⟨hne, ns, hns, rfl⟩, ⟨low, high, hlow, hhigh, rfl⟩,
      by simp [limits]⟩

/-! ### Which integers satisfy the rules -/

section
variable {formats : Service.Formats} {u : Service.Value} {n : Int}

/-- A value that holds an integer lies below an integer bound exactly if the integer does. -/
theorem below_integer_iff (hu : u.IsInteger n) {m : Int} : u.Below (.integer m) ↔ n < m := by
  constructor
  · rintro (⟨hv, h⟩ | ⟨hv, h⟩ | h)
    · cases hu <;> cases hv <;> exact h
    · cases hu
  · exact .integer hu

/-- A value that holds an integer lies above an integer bound exactly if the integer does. -/
theorem above_integer_iff (hu : u.IsInteger n) {m : Int} : u.Above (.integer m) ↔ m < n := by
  constructor
  · rintro (⟨hv, h⟩ | ⟨hv, h⟩ | h)
    · cases hu <;> cases hv <;> exact h
    · cases hu
  · exact .integer hu

/-- An integer satisfies the rule for bounds if it lies between them. -/
theorem range_accepts {low high : Option Int} (hu : u.IsInteger n) :
    (Rule.range (low.map .integer) (high.map .integer)).Accepts formats u ↔
      (∀ m, low = some m → m ≤ n) ∧ ∀ m, high = some m → n ≤ m := by
  simp only [Accepts, Option.map_eq_some_iff, forall_exists_index, and_imp,
    forall_apply_eq_imp_iff₂, below_integer_iff hu, above_integer_iff hu, Int.not_lt]

/-- An integer satisfies the rule for members if it is one of them. -/
theorem oneOf_accepts {k : ScalarKind} {ns : List Int} (hu : u.IsInteger n) :
    (Rule.oneOf (if k.isUnsigned then .uints ns else .ints ns)).Accepts formats u ↔ n ∈ ns := by
  split
  · constructor
    · rintro (_ | _ | ⟨hv, h⟩)
      cases hu <;> cases hv <;> exact h
    · exact .uint hu
  · constructor
    · rintro (_ | ⟨hv, h⟩)
      cases hu <;> cases hv <;> exact h
    · exact .int hu

/-- An integer satisfies all limits if it is one of the members and lies between the bounds. -/
theorem limits_accept {k : ScalarKind} {members : Option (List Int)} {low high : Option Int}
    (hu : u.IsInteger n) :
    (∀ rule ∈ limits k members low high, rule.Accepts formats u) ↔
      (∀ m, low = some m → m ≤ n) ∧ (∀ m, high = some m → n ≤ m) ∧ ∀ ns, members = some ns →
        n ∈ ns := by
  have hmembers : (∀ rule ∈ (members.map fun ns =>
      Rule.oneOf (if k.isUnsigned then .uints ns else .ints ns)).toList, rule.Accepts formats u) ↔
        ∀ ns, members = some ns → n ∈ ns := by
    cases members with
    | none => simp
    | some ns => simp [oneOf_accepts hu]
  have hrange : (∀ rule ∈ (if low.isSome || high.isSome then
      [Rule.range (low.map .integer) (high.map .integer)] else []), rule.Accepts formats u) ↔
        (∀ m, low = some m → m ≤ n) ∧ ∀ m, high = some m → n ≤ m := by
    split
    · rw [List.forall_mem_singleton, range_accepts hu]
    · rename_i hnone
      obtain ⟨rfl, rfl⟩ : low = none ∧ high = none := by simpa using hnone
      simp
  rw [limits, List.forall_mem_append, hmembers, hrange, and_comm, and_assoc]

end

/-- What the text of a bound denotes is what it is read as. -/
theorem forall_denotes_iff {k : ScalarKind} {text : Option String} {bound : Option Int}
    (h : Option.Rel k.Literal text bound) (p : Int → Prop) :
    (∀ t m, text = some t → Decimal.Denotes t.toList m → p m) ↔ ∀ m, bound = some m → p m := by
  cases h with
  | none => simp
  | @some t m hm =>
    constructor
    · rintro hall _ ⟨⟩
      exact hall t m rfl hm.1
    · rintro hall _ m' ⟨⟩ hm'
      exact hm'.unique hm.1 ▸ hall m rfl

/-- What the texts of members denote is what they are read as. -/
theorem exists_denotes_iff {k : ScalarKind} {ts : List String} {ns : List Int}
    (h : List.Forall₂ k.Literal ts ns) {n : Int} :
    (∃ t ∈ ts, Decimal.Denotes t.toList n) ↔ n ∈ ns := by
  constructor
  · rintro ⟨t, ht, hn⟩
    obtain ⟨m, hm, hliteral⟩ := forall₂_exists_right h ht
    exact hn.unique hliteral.1 ▸ hm
  · intro hn
    obtain ⟨t, ht, hliteral⟩ := forall₂_exists_left h hn
    exact ⟨t, ht, hliteral.1⟩

/-- An integer is within its constraints if it is within what their literals denote. -/
theorem within_iff {k : ScalarKind} {v : ValidateDirectives} {members : Option (List Int)}
    {low high : Option Int} (hmembers : Option.Rel (List.Forall₂ k.Literal) v.members members)
    (hlow : Option.Rel k.Literal v.min low) (hhigh : Option.Rel k.Literal v.max high) {n : Int} :
    Within v n ↔
      (∀ m, low = some m → m ≤ n) ∧ (∀ m, high = some m → n ≤ m) ∧ ∀ ns, members = some ns →
        n ∈ ns := by
  have hmin := forall_denotes_iff hlow fun m => m ≤ n
  have hmax := forall_denotes_iff hhigh fun m => n ≤ m
  have hin : (∀ ts, v.members = some ts → ∃ t ∈ ts, Decimal.Denotes t.toList n) ↔
      ∀ ns, members = some ns → n ∈ ns := by
    generalize v.members = written at hmembers
    cases hmembers with
    | none => simp
    | some h => simpa using exists_denotes_iff h
  exact ⟨fun h => ⟨hmin.mp h.min, hmax.mp h.max, hin.mp h.members⟩,
    fun h => ⟨hmin.mpr h.1, hmax.mpr h.2.1, hin.mpr h.2.2⟩⟩

/-- Constraints can be read if each of their texts can. -/
theorem readable_iff {k : ScalarKind} {v : ValidateDirectives} :
    k.Readable v ↔ v.format = none ∧ v.members ≠ some [] ∧ ∃ ns low high,
      Option.Rel (List.Forall₂ k.Literal) v.members ns ∧ Option.Rel k.Literal v.min low ∧
        Option.Rel k.Literal v.max high := by
  have hbound : ∀ text : Option String, (∀ t, text = some t → ∃ n, k.Literal t n) ↔
      ∃ bound, Option.Rel k.Literal text bound := by
    intro text
    cases text with
    | none => exact iff_of_true nofun ⟨none, .none⟩
    | some t =>
      constructor
      · intro h
        obtain ⟨n, hn⟩ := h t rfl
        exact ⟨some n, .some hn⟩
      · rintro ⟨_, ⟨hn⟩⟩ _ ⟨⟩
        exact ⟨_, hn⟩
  have hmembers : (∀ ts, v.members = some ts → ts ≠ [] ∧ ∀ t ∈ ts, ∃ n, k.Literal t n) ↔
      v.members ≠ some [] ∧ ∃ ns, Option.Rel (List.Forall₂ k.Literal) v.members ns := by
    cases v.members with
    | none => exact iff_of_true nofun ⟨nofun, none, .none⟩
    | some ts =>
      constructor
      · intro h
        obtain ⟨hne, hall⟩ := h ts rfl
        obtain ⟨ns, hns⟩ := exists_forall₂ hall
        exact ⟨fun hempty => hne (Option.some.inj hempty), some ns, .some hns⟩
      · rintro ⟨hne, _, ⟨hns⟩⟩ _ ⟨⟩
        refine ⟨fun hempty => hne (congrArg some hempty), fun t ht => ?_⟩
        obtain ⟨n, -, hn⟩ := forall₂_exists_right hns ht
        exact ⟨n, hn⟩
  constructor
  · intro h
    obtain ⟨hne, ns, hns⟩ := hmembers.mp h.members
    obtain ⟨low, hlow⟩ := (hbound _).mp h.min
    obtain ⟨high, hhigh⟩ := (hbound _).mp h.max
    exact ⟨h.format, hne, ns, low, high, hns, hlow, hhigh⟩
  · rintro ⟨hformat, hne, ns, low, high, hns, hlow, hhigh⟩
    exact ⟨hformat, (hbound _).mpr ⟨low, hlow⟩, (hbound _).mpr ⟨high, hhigh⟩,
      hmembers.mpr ⟨hne, ns, hns⟩⟩

end Rule

namespace Service

/-- A limit is checked element by element. -/
theorem checkRule_limit_eq_ok {formats : Formats} {nested : MessageId → Record → Except Status Unit}
    {name : String} {rule : Rule} (hrule : rule.isLimit) {value : Value}
    (hvalue : value.isEmpty = false) : checkRule formats nested name (some value) rule = .ok () ↔
      ∀ u ∈ value.elements, rule.Accepts formats u := by
  have hrestores : Restores (DemandedOf formats (fun _ _ => True) (some value) rule)
      (checkRule formats nested name (some value) rule) () :=
    restores_checkRule name fun n _ _ _ hn => nomatch hn ▸ hrule
  have hdemanded : ∀ u, Demanded formats (fun _ _ => True) rule u ↔ rule.Accepts formats u := by
    intro u
    cases rule <;> first | exact Iff.rfl | cases hrule
  rw [hrestores.eq_ok_iff]
  constructor
  · exact fun h u hu => (hdemanded u).mp (h.elements value rfl hvalue u hu)
  · intro h
    constructor
    · rintro rfl
      cases hrule
    · rintro _ ⟨⟩ - u hu
      exact (hdemanded u).mpr (h u hu)

/-- **Integers.** The constraints of a field of an integer kind can be read exactly if they are
    literals of integers that the kind holds, however many digits they have.  Every integer that is
    checked, alone or in a list, passes the rules for members and bounds exactly if it is one of the
    integers that the members denote and lies between those that the bounds denote. -/
theorem integers_of_ofPackages {source : AnnotationSource} {privatePackage : String}
    {packages : List PackageSchema} {c : Chain}
    (h : Chain.ofPackages source privatePackage packages = .ok c) {f : FieldId}
    (hf : c.Has (.field f)) {k : ScalarKind} (hkind : (c.field f).kind = .scalar k)
    (hk : k.isInteger) :
    ((∃ rules, (Rule.Derivation.ofChain c).fieldRules f = .ok rules) ↔
      k.Readable (c.field f).validate) ∧
    ∀ rules, (Rule.Derivation.ofChain c).fieldRules f = .ok rules →
      ∀ formats nested name (value : Value), value.isEmpty = false →
        (∀ u ∈ value.elements, ∃ n, integerOf u = some n) →
        ((∀ rule ∈ rules, rule.isLimit →
            checkRule formats nested name (some value) rule = .ok ()) ↔
          ∀ u ∈ value.elements, ∀ n, integerOf u = some n → Within (c.field f).validate n) := by
  have htype := Rule.not_enumeration_of_ofPackages h hf (by simp [hkind])
  have hrules : ∀ rules, (Rule.Derivation.ofChain c).fieldRules f = .ok rules ↔ _ :=
    fun rules => Rule.fieldRules_integer hkind hk htype
  refine ⟨?_, fun rules hok formats nested name value hvalue hintegers => ?_⟩
  · -- reading goes text by text
    rw [Rule.readable_iff]
    constructor
    · rintro ⟨rules, hok⟩
      obtain ⟨hformat, hne, ns, low, high, hns, hlow, hhigh, -⟩ := (hrules rules).mp hok
      exact ⟨hformat, hne, ns, low, high, hns, hlow, hhigh⟩
    · rintro ⟨hformat, hne, ns, low, high, hns, hlow, hhigh⟩
      exact ⟨_, (hrules _).mpr ⟨hformat, hne, ns, low, high, hns, hlow, hhigh, rfl⟩⟩
  · -- checking goes rule by rule and then element by element, the meaning element by element
    obtain ⟨-, -, ns, low, high, hns, hlow, hhigh, rfl⟩ := (hrules rules).mp hok
    have hwithin : ∀ u ∈ value.elements,
        (∀ rule ∈ Rule.limits k ns low high, rule.Accepts formats u) ↔
          ∀ n, integerOf u = some n → Within (c.field f).validate n := by
      intro u hu
      obtain ⟨n, hn⟩ := hintegers u hu
      rw [Rule.limits_accept (integerOf_eq_some.mp hn), ← Rule.within_iff hns hlow hhigh]
      simp only [hn, Option.some.injEq, forall_eq']
      rfl
    rw [Rule.forall_isLimit_iff]
    constructor
    · intro h u hu
      refine (hwithin u hu).mp fun rule hrule => ?_
      exact (checkRule_limit_eq_ok (Rule.isLimit_of_mem_limits hrule) hvalue).mp (h rule hrule) u hu
    · intro h rule hrule
      refine (checkRule_limit_eq_ok (Rule.isLimit_of_mem_limits hrule) hvalue).mpr fun u hu => ?_
      exact (hwithin u hu).mpr (h u hu) rule hrule

/-! ### A sample -/

/-- A counter whose bounds and members need all sixty-four bits. -/
def counterField : FieldDescriptor :=
  { Chain.sampleField "count" "TYPE_UINT64" with
    options := [("[gen.svc.field]", .object [("validate", .object [
      ("in", .array [.string "9007199254740993", .integer 18446744073709551615]),
      ("max", .integer 18446744073709551615), ("min", .string "+2")])])] }

/-- A package with a counter. -/
def counterFile (package : String) : FileDescriptor :=
  { name := package ++ ".proto"
    package
    messages := [{ name := "Counter", fields := [counterField] }]
    services := [{ name := "Service" }] }

/-- One public version of the counter, and the private one. -/
def counterPackages : List PackageSchema :=
  ({ files := ["v1", "private"].map counterFile : DescriptorSet }.packages.toOption).getD []

/-- The chain of the counters. -/
def counterChain : Chain :=
  ((Chain.ofPackages AnnotationStyle.options.source "private" counterPackages).toOption).getD {}

/-- The constraints of the counter. -/
def counterLimits : ValidateDirectives :=
  { min := some "+2", max := some "18446744073709551615"
    members := some ["9007199254740993", "18446744073709551615"] }

set_option maxRecDepth 10000 in
/-- What is checked of the sample by evaluation. -/
theorem counterChain_checked :
    (Chain.ofPackages AnnotationStyle.options.source "private" counterPackages).toOption
      = some counterChain ∧
    0 < counterChain.fields.size ∧ (counterChain.field ⟨0⟩).kind = .scalar .uint64 ∧
    (counterChain.field ⟨0⟩).validate = counterLimits ∧
    ((Rule.Derivation.ofChain counterChain).fieldRules ⟨0⟩).toOption = some [
      .oneOf (.uints [9007199254740993, 18446744073709551615]),
      .range (some (.integer 2)) (some (.integer 18446744073709551615))] := by decide +kernel

/-- The limits of the sample. -/
theorem within_counterLimits {n : Int} : Within counterLimits n ↔
    2 ≤ n ∧ n ≤ 18446744073709551615 ∧ (n = 9007199254740993 ∨ n = 18446744073709551615) := by
  have hliteral : ∀ {text m}, Rule.int? text = some m → Number.isUInt64 m →
      ScalarKind.uint64.Literal text m :=
        fun h hm => ⟨Rule.int?_eq_some.mp h, Rule.isUInt64_iff.mp hm⟩
  have hmembers : Option.Rel (List.Forall₂ ScalarKind.uint64.Literal) counterLimits.members
      (some [9007199254740993, 18446744073709551615]) :=
    .some (.cons (hliteral (by decide) (by decide)) (.cons (hliteral (by decide) (by decide)) .nil))
  have hlow : Option.Rel ScalarKind.uint64.Literal counterLimits.min (some 2) :=
    .some (hliteral (by decide) (by decide))
  have hhigh : Option.Rel ScalarKind.uint64.Literal counterLimits.max (some 18446744073709551615) :=
    .some (hliteral (by decide) (by decide))
  rw [Rule.within_iff hmembers hlow hhigh]
  simp

/-- The counter takes numbers that binary64 cannot tell from their neighbours, and refuses the
    neighbours. -/
theorem integers_counter : ∃ rules,
    (Rule.Derivation.ofChain counterChain).fieldRules ⟨0⟩ = .ok rules ∧
    (∀ rule ∈ rules, rule.isLimit → checkRule .standard (fun _ _ => .ok ()) "count"
      (some (.list [.uint 9007199254740993, .int 9007199254740993, .uint 18446744073709551615]))
        rule = .ok ()) ∧
    ¬∀ rule ∈ rules, rule.isLimit → checkRule .standard (fun _ _ => .ok ()) "count"
      (some (.uint 9007199254740992)) rule = .ok () := by
  obtain ⟨hchain, hsize, hkind, hvalidate, hrules⟩ := counterChain_checked
  have hok := toOption_eq_some.mp hrules
  have hexact := (integers_of_ofPackages (toOption_eq_some.mp hchain) hsize hkind rfl).2 _ hok
    .standard (fun _ _ => .ok ()) "count"
  rw [hvalidate] at hexact
  refine ⟨_, hok, (hexact _ rfl ?_).mpr ?_, fun hall => ?_⟩
  · simp [Value.elements, integerOf]
  · simp [Value.elements, integerOf, within_counterLimits]
  · have hwithin :=
      (hexact (.uint 9007199254740992) rfl (by simp [Value.elements, integerOf])).mp hall
      _ (List.mem_singleton.mpr rfl) _ rfl
    simp [within_counterLimits] at hwithin

end Service

end Lineage
