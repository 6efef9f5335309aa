import Lineage.Proofs.Outcome
import Lineage.Proofs.Rule.Demand
import Lineage.Rule.Derive

namespace Lineage.Rule

/-!
# Validators of a version

* `Derivation.fieldRules_eq_ok_iff` — the rules of a field, one for each of its constraints,
* `Derivation.fieldRules_nested`, `fieldRules_required` — a field has a rule for a nested message
  exactly if its type requires validation, and one that it must be set exactly if it is declared so,
* `Derivation.ValidatorFor` — the validator of a message, with the nested messages it leads to,
* `Derivation.versionRules_eq_ok` — the validators of a version are those of its validated messages.
-/

variable {d : Derivation}

/-! ### Rules of single values -/

/-- A rule about single values of a field, not about whether it is set or what its messages hold. -/
def isSingle : Rule → Bool
  | .required | .nested _ => false
  | .format _ | .oneOf _ | .range _ _ | .length _ _ => true

/-- A rule that bounds a number or a length. -/
def isBound : Rule → Bool
  | .range _ _ | .length _ _ => true
  | .required | .nested _ | .format _ | .oneOf _ => false

/-- A bound is about single values. -/
theorem isSingle_of_isBound {rule : Rule} (h : rule.isBound) : rule.isSingle := by
  cases rule <;> first | rfl | cases h

/-- A format becomes the rule of a format. -/
theorem formatOf_eq_ok {s : Subject} {name : String} {rule : Rule}
    (h : formatOf s name = .ok rule) : ∃ f, rule = .format f := by
  unfold formatOf at h
  split at h
  · cases h
  · rename_i f _
    split at h
    · exact ⟨f, (Except.ok.inj h).symm⟩
    · cases h

/-- A range becomes a bound. -/
theorem rangeOf_isBound {s : Subject} {min max : Option String} {rule : Rule}
    (h : rangeOf s min max = .ok rule) : rule.isBound := by
  unfold rangeOf at h
  obtain ⟨low, -, h⟩ := bind_eq_ok.mp h
  obtain ⟨high, -, h⟩ := bind_eq_ok.mp h
  split at h
  · obtain ⟨a, -, h⟩ := bind_eq_ok.mp h
    obtain ⟨b, -, h⟩ := bind_eq_ok.mp h
    obtain rfl := pure_eq_ok.mp h
    rfl
  · split at h
    · obtain ⟨a, -, h⟩ := bind_eq_ok.mp h
      obtain ⟨b, -, h⟩ := bind_eq_ok.mp h
      obtain rfl := pure_eq_ok.mp h
      rfl
    · split at h
      · obtain rfl := pure_eq_ok.mp h
        rfl
      · cases h
  · cases h

/-- A constraint that is given makes one rule. -/
theorem Derivation.mem_whenGiven {α : Type} {given : Option α} {f : α → Except RuleError Rule}
    {rules : List Rule} (h : whenGiven given f = .ok rules) {rule : Rule} (hr : rule ∈ rules) :
    ∃ a, f a = .ok rule := by
  unfold whenGiven at h
  split at h
  · rename_i a
    obtain ⟨r, hr', rfl⟩ := map_eq_ok.mp h
    obtain rfl := List.mem_singleton.mp hr
    exact ⟨a, hr'⟩
  · obtain rfl := Except.ok.inj h
    cases hr

/-! ### Rules of fields and messages -/

namespace Derivation

/-- A value is required if the directive says so. -/
theorem mem_requiredRule {required : Bool} {rule : Rule} :
    rule ∈ (if required then [Rule.required] else []) ↔ required ∧ rule = .required := by
  cases required <;> simp

/-- The nested rule of a field is one for a message. -/
theorem exists_of_mem_nestedRule {type : Option TypeRef} {rule : Rule}
    (h : rule ∈ d.nestedRule type) :
    ∃ n, rule = .nested n := by
  unfold nestedRule at h
  split at h
  · split at h
    · exact ⟨_, List.mem_singleton.mp h⟩
    · cases h
  · cases h

/-- A nested rule is for the message that is referred to, if it demands validation. -/
theorem mem_nestedRule {type : Option TypeRef} {n : MessageId} :
    .nested n ∈ d.nestedRule type ↔ type = some (.message n) ∧ d.demanding.contains n := by
  unfold nestedRule
  split
  · rename_i m
    cases hm : d.demanding.contains m with
    | true =>
      simp only [if_true, List.mem_singleton, Rule.nested.injEq, Option.some.injEq,
        TypeRef.message.injEq]
      constructor
      · rintro rfl
        exact ⟨rfl, hm⟩
      · exact fun h => h.1.symm
    | false =>
      simp only [Bool.false_eq_true, if_false, List.not_mem_nil, Option.some.injEq,
        TypeRef.message.injEq, false_iff]
      rintro ⟨rfl, hn⟩
      simp [hm] at hn
  · rename_i hother
    simp only [List.not_mem_nil, false_iff]
    exact fun h => hother n h.1

/-- What the constraints of a field are read against. -/
def subject (d : Derivation) (f : FieldId) : Subject :=
  ⟨d.chain.fieldPath f, (d.chain.field f).kind⟩

/-- The rule of a lower and an upper bound, if one is given. -/
def rangeRules (s : Subject) (min max : Option String) : Except RuleError (List Rule) :=
  if min.isSome || max.isSome then (rangeOf s min max).map ([·]) else .ok []

/-- **The rules of a field**: whether it must be set, what its messages must be, then one rule for
    each of its other constraints, all of which must be readable. -/
theorem fieldRules_eq_ok_iff {f : FieldId} {rules : List Rule} :
    d.fieldRules f = .ok rules ↔ ∃ format members range,
      whenGiven (d.chain.field f).validate.format (formatOf (d.subject f)) = .ok format ∧
      whenGiven (d.chain.field f).validate.members (fun ms =>
        (membersOf d.chain (d.subject f) (d.chain.field f).typeRef ms).map .oneOf) = .ok members ∧
      rangeRules (d.subject f) (d.chain.field f).validate.min (d.chain.field f).validate.max =
        .ok range ∧
      rules = (if (d.chain.field f).validate.required then [.required] else [])
        ++ d.nestedRule (d.chain.field f).typeRef ++ format ++ members ++ range := by
  have hrange : ∀ (s : Subject) (min max : Option String) (k : List Rule →
      Except RuleError (List Rule)), (do
        let range ← if min.isSome || max.isSome then (rangeOf s min max).map ([·]) else .ok []
        k range) = rangeRules s min max >>= k := by
    intro s min max k
    unfold rangeRules
    split <;> rfl
  unfold fieldRules
  simp only [hrange, bind_eq_ok, pure_eq_ok, subject]
  constructor
  · rintro ⟨format, hformat, members, hmembers, range, hrange, rfl⟩
    exact ⟨format, members, range, hformat, hmembers, hrange, rfl⟩
  · rintro ⟨format, members, range, hformat, hmembers, hrange, rfl⟩
    exact ⟨format, hformat, members, hmembers, range, hrange, rfl⟩

/-- The rules of a range are bounds. -/
theorem rangeRules_isBound {s : Subject} {min max : Option String} {rules : List Rule}
    (h : rangeRules s min max = .ok rules) : ∀ rule ∈ rules, rule.isBound := by
  unfold rangeRules at h
  split at h
  · obtain ⟨r, hr, rfl⟩ := map_eq_ok.mp h
    intro rule hrule
    exact List.mem_singleton.mp hrule ▸ rangeOf_isBound hr
  · obtain rfl := Except.ok.inj h
    simp

/-- The rules of a field that are neither about whether it must be set nor about messages are rules
    of single values. -/
theorem fieldRules_eq_ok {f : FieldId} {rules : List Rule} (h : d.fieldRules f = .ok rules) :
    ∃ single : List Rule, (∀ rule ∈ single, rule.isSingle) ∧ rules =
      (if (d.chain.field f).validate.required then [.required] else [])
        ++ d.nestedRule (d.chain.field f).typeRef ++ single := by
  obtain ⟨format, members, range, hformat, hmembers, hrange, rfl⟩ := fieldRules_eq_ok_iff.mp h
  refine ⟨format ++ members ++ range, fun rule hrule => ?_, by simp only [List.append_assoc]⟩
  simp only [List.mem_append] at hrule
  obtain (hrule | hrule) | hrule := hrule
  · obtain ⟨name, hname⟩ := mem_whenGiven hformat hrule
    obtain ⟨f, rfl⟩ := formatOf_eq_ok hname
    rfl
  · obtain ⟨ms, hms⟩ := mem_whenGiven hmembers hrule
    obtain ⟨set, -, rfl⟩ := map_eq_ok.mp hms
    rfl
  · exact isSingle_of_isBound (rangeRules_isBound hrange rule hrule)

/-- **Nested rules.** A field has a rule for a nested message exactly if this is its type and
    requires validation. -/
theorem fieldRules_nested {f : FieldId} {rules : List Rule} (h : d.fieldRules f = .ok rules)
    (n : MessageId) : .nested n ∈ rules ↔
      (d.chain.field f).typeRef = some (.message n) ∧ d.demanding.contains n := by
  obtain ⟨single, hsingle, rfl⟩ := fieldRules_eq_ok h
  have hnotSingle : .nested n ∉ single := fun hn => nomatch hsingle _ hn
  simp only [List.mem_append, mem_requiredRule, hnotSingle, reduceCtorEq, and_false,
    or_false, false_or, mem_nestedRule]

/-- A field has the rule that it must be set exactly if it is declared so. -/
theorem fieldRules_required {f : FieldId} {rules : List Rule} (h : d.fieldRules f = .ok rules) :
    .required ∈ rules ↔ (d.chain.field f).validate.required := by
  obtain ⟨single, hsingle, rfl⟩ := fieldRules_eq_ok h
  have hnotSingle : .required ∉ single := fun hn => nomatch hsingle _ hn
  have hnotNested : .required ∉ d.nestedRule (d.chain.field f).typeRef := fun hn =>
    nomatch (exists_of_mem_nestedRule hn).choose_spec
  simp only [List.mem_append, mem_requiredRule, hnotSingle, hnotNested, or_false, and_true]

/-- The validator of a message, and the nested messages that it leads to. -/
structure ValidatorFor (d : Derivation) (m : MessageId) (r : MessageRules) : Prop where
  message : r.message = m
  function : r.function = validatorName (d.chain.message m).localName
  nested : ∀ n, (∃ f ∈ r.fields, .nested n ∈ f.rules) ↔
    n ∈ d.chain.nestedMessages (d.chain.message m) ∧ d.demanding.contains n

/-- The rules of a field are kept if there are any; nested ones are for what is referred to. -/
theorem namedRules_eq_ok {f : FieldId} {found : Option FieldRules}
    (h : d.namedRules f = .ok found) (n : MessageId) :
    (∃ g, found = some g ∧ .nested n ∈ g.rules) ↔
      (d.chain.field f).typeRef = some (.message n) ∧ d.demanding.contains n := by
  obtain ⟨rules, hrules, h⟩ := bind_eq_ok.mp h
  obtain rfl := pure_eq_ok.mp h
  rw [← fieldRules_nested hrules]
  cases hempty : rules.isEmpty with
  | true => simp [List.isEmpty_iff.mp hempty]
  | false => simp

/-- The rules of a message are those of its validator. -/
theorem messageRules_eq_ok {m : MessageId} {r : MessageRules} (h : d.messageRules m = .ok r) :
    d.ValidatorFor m r := by
  obtain ⟨fields, hfields, h⟩ := bind_eq_ok.mp h
  obtain rfl := pure_eq_ok.mp h
  have hall := mapM_eq_ok.mp hfields
  refine ⟨rfl, rfl, fun n => ?_⟩
  simp only [Chain.nestedMessages, List.mem_filterMap]
  constructor
  · rintro ⟨g, ⟨found, hfound, hg⟩, hn⟩
    obtain ⟨f, hf, hok⟩ := forall₂_exists_left hall hfound
    obtain ⟨htype, hd⟩ := (namedRules_eq_ok hok n).mp ⟨g, hg, hn⟩
    exact ⟨⟨f, hf, by rw [htype]⟩, hd⟩
  · rintro ⟨⟨f, hf, htype⟩, hd⟩
    obtain ⟨found, hfound, hok⟩ := forall₂_exists_right hall hf
    have htype' : (d.chain.field f).typeRef = some (.message n) := by
      split at htype
      · rename_i heq
        rw [heq, Option.some.inj htype]
      · cases htype
    obtain ⟨g, hg, hn⟩ := (namedRules_eq_ok hok n).mpr ⟨htype', hd⟩
    exact ⟨g, ⟨found, hfound, hg⟩, hn⟩

/-- The validators of a version are those of its validated messages. -/
theorem versionRules_eq_ok {v : VersionId} {rules : List MessageRules}
    (h : d.versionRules v = .ok rules) :
    List.Forall₂ d.ValidatorFor ((d.chain.version v).messages.filter d.validated.contains) rules :=
  (mapM_eq_ok.mp h).imp fun _ _ => messageRules_eq_ok

end Derivation

end Lineage.Rule
