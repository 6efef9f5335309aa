import Lineage.Proofs.Plan.Closed
import Lineage.Proofs.Plan.Packages
import Lineage.Proofs.Plan.Sample
import Lineage.Proofs.Rule.Reach
import Lineage.Proofs.Service.Restore
import Lineage.Service.Validator

namespace Lineage

/-!
# What validation accepts

* `MemberSet.Has`, `Value.Below`, `Value.Above` — a value is a member of a set, and lies outside of
  a bound; `Service.isMember_iff`, `isBelow_iff`, `isAbove_iff` — so it is checked,
* `Rule.Accepts` — a value satisfies a rule for single values,
* `Chain.SetsTo` — a field of a record is set to a value, `Chain.Valid` — the fields and oneofs of a
  record are as their message declares them,
* `Chain.Contains` — a field whose type requires validation holds a record, `Chain.DeepValid` — a
  record is valid, and so is all that it contains, at any depth,
* `Service.restores_checkRule`, `restores_checkRecord` — what one rule and one message check,
* `Service.restores_validateWithin` — records of validated messages, by how deep they nest,
* `Service.validates_of_generate` — the validators of a generated plan accept exactly the records
  that are deeply valid.
-/

open Service

/-! ### Valid records -/

/-- The integer that a value holds, signed or not. -/
inductive Service.Value.IsInteger : Value → Int → Prop
  | int (n : Int) : IsInteger (.int n) n
  | uint (n : Nat) : IsInteger (.uint n) n

/-- A value equals one of the members of a set, which are of its type.  Signed and unsigned integers
    are members of both kinds of sets, bytes are members by the texts that they encode, and floats
    need only be as close to a member as one is to the next larger number. -/
inductive MemberSet.Has : MemberSet → Value → Prop
  | bool {members : List Bool} {b : Bool} (h : b ∈ members) : Has (.bools members) (.bool b)
  | int {members : List Int} {v : Value} {n : Int} (hv : v.IsInteger n) (h : n ∈ members) :
    Has (.ints members) v
  | uint {members : List Int} {v : Value} {n : Int} (hv : v.IsInteger n) (h : n ∈ members) :
    Has (.uints members) v
  | float {members : List Binary64} {x m : Binary64} (h : m ∈ members)
    (hclose : (m.sub x).abs.le .epsilon) : Has (.floats members) (.float x)
  | string {members : List String} {s : String} (h : s ∈ members) : Has (.strings members) (.str s)
  | bytes {members : List String} {s : String} (h : s ∈ members) :
    Has (.bytes members) (.bytes s.toUTF8.toList)
  | enumValue {names : List String} {name : String} (h : name ∈ names) :
    Has (.enumValues names) (.enumeration name)

/-- A value lies below a bound: an integer below an integer, or else a number below a number, both
    taken as binary64.  What is no number does not. -/
inductive Service.Value.Below : Value → Number → Prop
  | integer {v : Value} {n b : Int} (hv : v.IsInteger n) (h : n < b) : Below v (.integer b)
  | mixed {v : Value} {n : Int} {x : Binary64} (hv : v.IsInteger n)
    (h : (Binary64.ofInt n).lt x) : Below v (.float x)
  | float {x : Binary64} {bound : Number} (h : x.lt bound.toFloat) : Below (.float x) bound

/-- A value lies above a bound: an integer above an integer, or else a number above a number, both
    taken as binary64.  What is no number does not. -/
inductive Service.Value.Above : Value → Number → Prop
  | integer {v : Value} {n b : Int} (hv : v.IsInteger n) (h : b < n) : Above v (.integer b)
  | mixed {v : Value} {n : Int} {x : Binary64} (hv : v.IsInteger n)
    (h : x.lt (.ofInt n)) : Above v (.float x)
  | float {x : Binary64} {bound : Number} (h : bound.toFloat.lt x) : Above (.float x) bound

/-- A value satisfies a rule for single values: it is a text in the format, a member of the set, a
    number that is not outside of the bounds, or a text of so many characters.  Whether a field is
    set, and what a nested message holds, is none of its concern. -/
def Rule.Accepts (formats : Formats) : Rule → Value → Prop
  | .required, _ => True
  | .nested _, _ => True
  | .format f, v => ∃ s, v = .str s ∧ formats.accepts f s
  | .oneOf members, v => members.Has v
  | .range min max, v =>
    (∀ b, min = some b → ¬v.Below b) ∧ ∀ b, max = some b → ¬v.Above b
  | .length min max, v =>
    min ≤ (v.string?.map (·.length)).getD 0 ∧ (max = 0 ∨ (v.string?.map (·.length)).getD 0 ≤ max)

namespace Chain

/-- A field of a record is set to a value: a plain field under its name, and a variant under the
    name of its oneof, if it is the variant that is set. -/
inductive SetsTo (c : Chain) (r : Record) (f : FieldId) (v : Value) : Prop where
  | plain (hplain : (c.field f).oneof = none) (hget : r.get? (c.field f).name = some v)
  | variant {o : OneofId} (hvariant : (c.field f).oneof = some o)
    (hget : r.get? (c.oneof o).name = some (.oneof (c.field f).name v))

/-- A record is as its message declares it, whatever the records in it are. -/
structure Valid (c : Chain) (formats : Formats) (m : MessageId) (r : Record) : Prop where
  /-- Required fields are set, and not to zero. -/
  required : ∀ f ∈ (c.message m).fields, (c.field f).validate.required →
    ∃ v, c.SetsTo r f v ∧ v.isEmpty = false
  /-- Every element of a value that is not zero satisfies each rule of its field. -/
  rules : ∀ f ∈ (c.message m).fields,
    ∃ rules, (Rule.Derivation.ofChain c).fieldRules f = .ok rules ∧
    ∀ v, c.SetsTo r f v → v.isEmpty = false →
      ∀ u ∈ v.elements, ∀ rule ∈ rules, rule.Accepts formats u
  /-- Required oneofs are set. -/
  oneofs : ∀ o ∈ (c.message m).oneofs, (c.oneof o).required → (r.get? (c.oneof o).name).isSome

/-- A field of a record whose type requires validation is set to another record, or to a list with
    it. -/
inductive Contains (c : Chain) : MessageId × Record → MessageId × Record → Prop where
  | field {m n : MessageId} {r s : Record} {f : FieldId} {v u : Value}
    (hf : f ∈ (c.message m).fields)
    (htype : (c.field f).typeRef = some (.message n))
    (hd : (Rule.Derivation.ofChain c).demanding.contains n)
    (hset : c.SetsTo r f v) (hu : u ∈ v.elements) (hs : u.record? = some s) :
      Contains c (m, r) (n, s)

/-- A record is valid, and so are all records that it contains, at any depth. -/
def DeepValid (c : Chain) (formats : Formats) (m : MessageId) (r : Record) : Prop :=
  ∀ x, Relation.ReflTransGen c.Contains (m, r) x → c.Valid formats x.1 x.2

/-- Messages have fields of messages of their own package only. -/
def SelfContained (c : Chain) : Prop :=
  ∀ m n, c.Nests m n → c.messagePackage n = c.messagePackage m

variable {c : Chain} {formats : Formats} {m n : MessageId} {r s : Record} {f : FieldId} {v : Value}

/-- A record is deeply valid if it is valid and all that it contains directly is deeply valid. -/
theorem deepValid_iff : c.DeepValid formats m r ↔
    c.Valid formats m r ∧ ∀ x, c.Contains (m, r) x → c.DeepValid formats x.1 x.2 := by
  constructor
  · exact fun h => ⟨h _ .refl, fun x hx y hy => h y (.head hx hy)⟩
  · rintro ⟨hown, hcontained⟩ x hx
    obtain rfl | ⟨y, hy, hyx⟩ := hx.cases_head
    · exact hown
    · exact hcontained y hy x hyx

/-- A record in a value nests less deep than the value. -/
theorem depth_lt_of_element {v u : Value} (hu : u ∈ v.elements) (hs : u.record? = some s) :
    s.depth < v.depth := by
  have hle : u.depth ≤ v.depth := by
    cases v with
    | list items => exact Nat.le_trans (Value.depth_le_of_mem hu) (Nat.le_succ _)
    | _ => exact Nat.le_of_eq (congrArg _ (List.mem_singleton.mp hu))
  cases u with
  | message name fields =>
    obtain rfl := Option.some.inj hs
    exact Nat.lt_of_lt_of_le (Nat.lt_succ_self _) hle
  | _ => cases hs

/-- What a record sets nests no deeper than the record. -/
theorem SetsTo.depth_le (h : c.SetsTo r f v) : v.depth ≤ r.depth := by
  cases h with
  | plain _ hget => exact Record.depth_le_of_get? hget
  | variant _ hget => exact Nat.le_trans (Nat.le_succ _) (Record.depth_le_of_get? hget)

/-- What a record contains nests less deep. -/
theorem Contains.depth_lt (h : c.Contains (m, r) (n, s)) : s.depth < r.depth := by
  cases h with
  | field _ _ _ hset hu hs => exact Nat.lt_of_lt_of_le (depth_lt_of_element hu hs) hset.depth_le

end Chain

namespace Service

/-! ### Single rules -/

/-- What is ensured passes if it holds, and otherwise refuses the argument. -/
theorem restores_ensure (holds : Bool) (message : String) :
    Restores (holds = true) (ensure holds message) () := by
  unfold ensure invalid
  constructor
  · intro h
    rw [if_pos h]
  · intro h
    exact ⟨_, if_neg h, rfl⟩

/-- What is read as an integer is what the value holds. -/
theorem integerOf_eq_some {v : Value} {n : Int} : integerOf v = some n ↔ v.IsInteger n := by
  constructor
  · intro h
    cases v with
    | int m =>
      obtain rfl := Option.some.inj h
      exact .int m
    | uint m =>
      obtain rfl := Option.some.inj h
      exact .uint m
    | _ => cases h
  · rintro (n | n) <;> rfl

/-- **Members.** The check of a membership rule looks for the value among the members. -/
theorem isMember_iff {members : MemberSet} {v : Value} : isMember members v ↔ members.Has v := by
  constructor
  · intro h
    cases members <;> cases v <;> try cases h
    case bools.bool => exact .bool (by simpa [isMember] using h)
    case ints.int => exact .int (.int _) (by simpa [isMember] using h)
    case ints.uint => exact .int (.uint _) (by simpa [isMember] using h)
    case uints.int => exact .uint (.int _) (by simpa [isMember] using h)
    case uints.uint => exact .uint (.uint _) (by simpa [isMember] using h)
    case floats.float =>
      obtain ⟨m, hm, hclose⟩ := List.any_eq_true.mp h
      exact .float hm hclose
    case strings.str => exact .string (by simpa [isMember] using h)
    case bytes.bytes =>
      obtain ⟨s, hs, heq⟩ := List.any_eq_true.mp h
      rw [← eq_of_beq heq]
      exact .bytes hs
    case enumValues.enumeration => exact .enumValue (by simpa [isMember] using h)
  · intro h
    cases h with
    | bool h | string h | enumValue h => simpa [isMember] using h
    | int hv h | uint hv h => cases hv <;> simpa [isMember] using h
    | float h hclose => exact List.any_eq_true.mpr ⟨_, h, hclose⟩
    | bytes h => exact List.any_eq_true.mpr ⟨_, h, beq_self_eq_true _⟩

/-- **Lower bounds.** A value is found below a bound exactly if it lies below it. -/
theorem isBelow_iff {v : Value} {bound : Number} : isBelow v bound ↔ v.Below bound := by
  constructor
  · intro h
    cases v with
    | int n | uint n =>
      cases bound with
      | integer b => exact .integer (integerOf_eq_some.mp rfl) (of_decide_eq_true h)
      | float x => exact .mixed (integerOf_eq_some.mp rfl) h
    | float x => exact .float h
    | _ => cases h
  · rintro (⟨hv, h⟩ | ⟨hv, h⟩ | h)
    · cases hv <;> exact decide_eq_true h
    · cases hv <;> exact h
    · exact h

/-- **Upper bounds.** A value is found above a bound exactly if it lies above it. -/
theorem isAbove_iff {v : Value} {bound : Number} : isAbove v bound ↔ v.Above bound := by
  constructor
  · intro h
    cases v with
    | int n | uint n =>
      cases bound with
      | integer b => exact .integer (integerOf_eq_some.mp rfl) (of_decide_eq_true h)
      | float x => exact .mixed (integerOf_eq_some.mp rfl) h
    | float x => exact .float h
    | _ => cases h
  · rintro (⟨hv, h⟩ | ⟨hv, h⟩ | h)
    · cases hv <;> exact decide_eq_true h
    · cases hv <;> exact h
    · exact h

/-- What a rule demands of a value, `valid` being what it demands of nested messages. -/
def Demanded (formats : Formats) (valid : MessageId → Record → Prop) : Rule → Value → Prop
  | .nested n, v => ∀ s, v.record? = some s → valid n s
  | rule, v => rule.Accepts formats v

/-- A rule applied to one value. -/
theorem restores_checkElement {formats : Formats} {valid : MessageId → Record → Prop}
    {nested : MessageId → Record → Except Status Unit} {rule : Rule} {v : Value} (name : String)
    (hnested : ∀ n s, rule = .nested n → v.record? = some s → Restores (valid n s)
      (nested n s) ()) :
    Restores (Demanded formats valid rule v) (checkElement formats nested name rule v) () := by
  cases rule with
  | required => exact .of_ok rfl trivial
  | nested n =>
    cases hrecord : v.record? with
    | none =>
      simp only [Demanded, checkElement, hrecord]
      exact .of_ok rfl (by simp)
    | some s =>
      simp only [Demanded, checkElement, hrecord]
      exact (hnested n s rfl hrecord).of_iff (by simp)
  | format f =>
    refine (restores_ensure _ _).of_iff ?_
    cases v with
    | str s => simp [Demanded, Rule.Accepts, Value.string?]
    -- what is no text is checked as the empty one, which has no format
    | _ => simp [Demanded, Rule.Accepts, Value.string?, formats.accepts_empty]
  | oneOf members => exact (restores_ensure _ _).of_iff isMember_iff
  | range min max =>
    refine (restores_ensure _ _).of_iff ?_
    simp [Demanded, Rule.Accepts, Option.any_eq_false, ← isBelow_iff, ← isAbove_iff]
  | length min max =>
    refine (restores_ensure _ _).of_iff ?_
    simp [Demanded, Rule.Accepts]

/-- What a rule demands of a field that may be set to a value. -/
structure DemandedOf (formats : Formats) (valid : MessageId → Record → Prop) (value : Option Value)
    (rule : Rule) : Prop where
  present : rule = .required → ∃ v, value = some v ∧ v.isEmpty = false
  elements :
    ∀ v, value = some v → v.isEmpty = false → ∀ u ∈ v.elements, Demanded formats valid rule u

section
variable {formats : Formats} {valid : MessageId → Record → Prop}
  {nested : MessageId → Record → Except Status Unit}
  {rule : Rule} {value : Option Value} {v : Value} (name : String)

/-- A value that is absent or zero passes all rules but one. -/
theorem checkRule_absent (h : value.filter (!·.isEmpty) = none) (hrule : rule ≠ .required) :
    checkRule formats nested name value rule = .ok () := by
  unfold checkRule
  rw [h]
  cases rule <;> first | rfl | exact absurd rfl hrule

/-- A value that is neither absent nor zero is checked element by element. -/
theorem checkRule_present (h : value.filter (!·.isEmpty) = some v) (hrule : rule ≠ .required) :
    checkRule formats nested name value rule
      = v.elements.forM (checkElement formats nested name rule) := by
  unfold checkRule
  rw [h]
  cases rule <;> first | rfl | exact absurd rfl hrule

/-- A rule applied to a field. -/
theorem restores_checkRule (hnested : ∀ n v u s, rule = .nested n → value = some v →
    u ∈ v.elements →
      u.record? = some s → Restores (valid n s) (nested n s) ()) :
    Restores (DemandedOf formats valid value rule)
      (checkRule formats nested name value rule) () := by
  -- what is absent or zero is up to `required` alone, and `required` is up to nothing else
  cases hpresent : value.filter (!·.isEmpty) with
  | none =>
    have hzero : ∀ v, value = some v → v.isEmpty = false → False := by
      intro v hv hnot
      have := Option.filter_eq_none_iff.mp hpresent v hv
      simp [hnot] at this
    by_cases hrule : rule = .required
    · subst hrule
      refine ⟨fun h => ?_, fun _ => ⟨.required name, ?_, rfl⟩⟩
      · obtain ⟨v, hv, hnot⟩ := h.present rfl
        exact (hzero v hv hnot).elim
      · unfold checkRule
        rw [hpresent]
    · refine .of_ok (checkRule_absent name hpresent hrule) ⟨fun h => absurd h hrule, ?_⟩
      exact fun v hv hnot => (hzero v hv hnot).elim
  | some v =>
    obtain ⟨hv, hnot⟩ := Option.filter_eq_some_iff.mp hpresent
    have hnonzero : v.isEmpty = false := by simpa using hnot
    by_cases hrule : rule = .required
    · subst hrule
      refine .of_ok ?_ ⟨fun _ => ⟨v, hv, hnonzero⟩, fun _ _ _ _ _ => trivial⟩
      unfold checkRule
      rw [hpresent]
    · have hall : DemandedOf formats valid value rule ↔
          ∀ u ∈ v.elements, Demanded formats valid rule u := by
        refine ⟨fun h => h.elements v hv hnonzero, fun h => ⟨fun heq => absurd heq hrule, ?_⟩⟩
        intro v' hv' _
        obtain rfl := Option.some.inj (hv.symm.trans hv')
        exact h
      rw [checkRule_present name hpresent hrule]
      refine (Restores.forM fun u hu => restores_checkElement name ?_).of_iff hall.symm
      exact fun n s hn hs => hnested n v u s hn hv hu hs

end

/-! ### One message -/

section
variable {w : Validator} {m : MessageId} {rules : MessageRules}

/-- The value that a field of a record is checked by is the one that it is set to. -/
theorem fieldValue_eq_some {r : Record} {g : FieldRules}
    (hname : g.name = (w.chain.field g.field).name)
    {v : Value} : w.fieldValue r g = some v ↔ w.chain.SetsTo r g.field v := by
  unfold Validator.fieldValue
  cases honeof : (w.chain.field g.field).oneof with
  | none =>
    rw [hname]
    refine ⟨.plain honeof, fun h => ?_⟩
    cases h with
    | plain _ hget => exact hget
    | variant hvariant _ => cases honeof.symm.trans hvariant
  -- a variant is set if its oneof holds it by its name
  | some o =>
    dsimp only
    constructor
    · intro h
      split at h
      · rename_i variant u hget
        split at h
        · rename_i heq
          obtain rfl := Option.some.inj h
          exact .variant honeof (by rw [hget, ← hname, eq_of_beq heq])
        · cases h
      · cases h
    · intro h
      cases h with
      | plain hplain _ => cases honeof.symm.trans hplain
      | variant hvariant hget =>
        obtain rfl := Option.some.inj (honeof.symm.trans hvariant)
        rw [hget]
        simp [hname]

/-- What a validator checks a field by: its rules, if it has any. -/
theorem namedRules_eq_some {d : Rule.Derivation} {f : FieldId} {found : Option FieldRules}
    (h : d.namedRules f = .ok found) {g : FieldRules} :
    found = some g ↔ g.field = f ∧ g.name = (d.chain.field g.field).name ∧
      d.fieldRules g.field = .ok g.rules ∧ g.rules ≠ [] := by
  obtain ⟨rs, hrs, h⟩ := bind_eq_ok.mp h
  obtain rfl := pure_eq_ok.mp h
  constructor
  · intro heq
    split at heq
    · cases heq
    · rename_i hne
      obtain rfl := Option.some.inj heq
      exact ⟨rfl, rfl, hrs, fun hnil => hne (List.isEmpty_iff.mpr hnil)⟩
  · rintro ⟨rfl, hname, hrules, hne⟩
    obtain rfl := Except.ok.inj (hrs.symm.trans hrules)
    rw [if_neg fun hempty => hne (List.isEmpty_iff.mp hempty), ← hname]

/-- The fields that a validator checks are those of the message that have rules, with all
    of these. -/
theorem mem_messageRules {d : Rule.Derivation} (h : d.messageRules m = .ok rules) {g : FieldRules} :
    g ∈ rules.fields ↔ g.field ∈ (d.chain.message m).fields ∧
      g.name = (d.chain.field g.field).name ∧
      d.fieldRules g.field = .ok g.rules ∧ g.rules ≠ [] := by
  obtain ⟨found, hfound, h⟩ := bind_eq_ok.mp h
  obtain rfl := pure_eq_ok.mp h
  have hall := mapM_eq_ok.mp hfound
  simp only [List.mem_filterMap]
  constructor
  · rintro ⟨o, ho, hg⟩
    obtain ⟨f, hf, hok⟩ := forall₂_exists_left hall ho
    obtain ⟨rfl, hrest⟩ := (namedRules_eq_some hok).mp hg
    exact ⟨hf, hrest⟩
  · rintro ⟨hf, hrest⟩
    obtain ⟨o, ho, hok⟩ := forall₂_exists_right hall hf
    exact ⟨o, ho, (namedRules_eq_some hok).mpr ⟨rfl, hrest⟩⟩

/-- All fields of a message that has a validator have rules that can be derived. -/
theorem exists_fieldRules {d : Rule.Derivation} (h : d.messageRules m = .ok rules) {f : FieldId}
    (hf : f ∈ (d.chain.message m).fields) : ∃ rs, d.fieldRules f = .ok rs := by
  obtain ⟨found, hfound, -⟩ := bind_eq_ok.mp h
  obtain ⟨o, -, hok⟩ := forall₂_exists_right (mapM_eq_ok.mp hfound) hf
  obtain ⟨rs, hrs, -⟩ := bind_eq_ok.mp hok
  exact ⟨rs, hrs⟩

/-- The oneofs that a validator checks are the required ones of the message. -/
theorem mem_messageRules_oneofs {d : Rule.Derivation} (h : d.messageRules m = .ok rules)
    {p : String → Prop} : (∀ o ∈ rules.oneofs.filter (·.required), p o.name) ↔
      ∀ o ∈ (d.chain.message m).oneofs, (d.chain.oneof o).required → p (d.chain.oneof o).name := by
  obtain ⟨found, -, h⟩ := bind_eq_ok.mp h
  obtain rfl := pure_eq_ok.mp h
  simp only [List.mem_filter, List.mem_map]
  constructor
  · exact fun h o ho hrequired => h _ ⟨⟨_, ⟨⟨o, ho, rfl⟩, hrequired⟩, rfl⟩, rfl⟩
  · rintro h _ ⟨⟨_, ⟨⟨o, ho, rfl⟩, hrequired⟩, rfl⟩, -⟩
    exact h o ho hrequired

/-- A value with a record in it is not zero. -/
theorem isEmpty_of_element {v u : Value} {s : Record} (hu : u ∈ v.elements)
    (hs : u.record? = some s) :
    v.isEmpty = false := by
  cases v with
  | list items =>
    cases items with
    | nil => cases hu
    | cons => rfl
  | message => rfl
  | _ =>
    obtain rfl := List.mem_singleton.mp hu
    cases hs

section
variable (h : (Rule.Derivation.ofChain w.chain).messageRules m = .ok rules) {r : Record}
include h

/-- A record that the rules of its message demand nothing more of is valid, and so is what it
    contains. -/
theorem deepValid_of_demanded
    (hfields : ∀ g ∈ rules.fields, ∀ rule ∈ g.rules,
      DemandedOf w.formats (w.chain.DeepValid w.formats) (w.fieldValue r g) rule)
    (honeofs : ∀ o ∈ (w.chain.message m).oneofs, (w.chain.oneof o).required →
      (r.get? (w.chain.oneof o).name).isSome) : w.chain.DeepValid w.formats m r := by
  -- what a field has no rules for, nothing is demanded of
  have hdemanded {f : FieldId} (hf : f ∈ (w.chain.message m).fields) {rs : List Rule}
      (hrs : (Rule.Derivation.ofChain w.chain).fieldRules f = .ok rs) {rule : Rule}
      (hrule : rule ∈ rs) :
      DemandedOf w.formats (w.chain.DeepValid w.formats)
          (w.fieldValue r ⟨f, (w.chain.field f).name, rs⟩) rule :=
    hfields ⟨f, (w.chain.field f).name, rs⟩
      ((mem_messageRules h).mpr ⟨hf, rfl, hrs, List.ne_nil_of_mem hrule⟩) rule hrule
  refine Chain.deepValid_iff.mpr ⟨⟨fun f hf hrequired => ?_, fun f hf => ?_, honeofs⟩, ?_⟩
  · obtain ⟨rs, hrs⟩ := exists_fieldRules h hf
    have hrule := (Rule.Derivation.fieldRules_required hrs).mpr hrequired
    obtain ⟨v, hv, hnonzero⟩ := (hdemanded hf hrs hrule).present rfl
    exact ⟨v, (fieldValue_eq_some rfl).mp hv, hnonzero⟩
  · obtain ⟨rs, hrs⟩ := exists_fieldRules h hf
    refine ⟨rs, hrs, fun v hv hnonzero u hu rule hrule => ?_⟩
    have hall := (hdemanded hf hrs hrule).elements v ((fieldValue_eq_some rfl).mpr hv) hnonzero u hu
    cases rule with
    | nested n => trivial
    | _ => exact hall
  · rintro ⟨n, s⟩ hcontains
    cases hcontains with
    | field hf htype hd hset hu hs =>
      obtain ⟨rs, hrs⟩ := exists_fieldRules h hf
      have hrule := (Rule.Derivation.fieldRules_nested hrs n).mpr ⟨htype, hd⟩
      exact (hdemanded hf hrs hrule).elements _ ((fieldValue_eq_some rfl).mpr hset)
        (isEmpty_of_element hu hs) _ hu s hs

/-- Of a valid record whose records are valid no rule demands anything more. -/
theorem demanded_of_deepValid (hvalid : w.chain.DeepValid w.formats m r) {g : FieldRules}
    (hg : g ∈ rules.fields) {rule : Rule} (hrule : rule ∈ g.rules) :
    DemandedOf w.formats (w.chain.DeepValid w.formats) (w.fieldValue r g) rule := by
  obtain ⟨hvalid, hcontained⟩ := Chain.deepValid_iff.mp hvalid
  obtain ⟨hf, hname, hrs, -⟩ := (mem_messageRules h).mp hg
  refine ⟨?_, fun v hv hnonzero u hu => ?_⟩
  · rintro rfl
    obtain ⟨v, hv, hnonzero⟩ :=
      hvalid.required _ hf ((Rule.Derivation.fieldRules_required hrs).mp hrule)
    exact ⟨v, (fieldValue_eq_some hname).mpr hv, hnonzero⟩
  · have hset := (fieldValue_eq_some hname).mp hv
    have haccepts : rule.Accepts w.formats u := by
      obtain ⟨rs, hrs', hall⟩ := hvalid.rules _ hf
      obtain rfl := Except.ok.inj (hrs.symm.trans hrs')
      exact hall v hset hnonzero u hu rule hrule
    cases rule with
    | nested n =>
      intro s hs
      obtain ⟨htype, hd⟩ := (Rule.Derivation.fieldRules_nested hrs n).mp hrule
      exact hcontained (n, s) (.field hf htype hd hset hu hs)
    | _ => exact haccepts

/-- What the rules of a message demand of a record is that it is valid, and so is what
    it contains. -/
theorem demanded_iff :
    ((∀ g ∈ rules.fields, ∀ rule ∈ g.rules,
        DemandedOf w.formats (w.chain.DeepValid w.formats) (w.fieldValue r g) rule) ∧
      ∀ o ∈ rules.oneofs.filter (·.required), (r.get? o.name).isSome) ↔
        w.chain.DeepValid w.formats m r := by
  rw [mem_messageRules_oneofs h (p := fun name => (r.get? name).isSome)]
  exact ⟨fun hall => deepValid_of_demanded h hall.1 hall.2, fun hvalid =>
    ⟨fun _ hg _ hrule => demanded_of_deepValid h hvalid hg hrule, (hvalid _ .refl).oneofs⟩⟩

end

/-- The rules of a message applied to a record. -/
theorem restores_checkRecord (h : (Rule.Derivation.ofChain w.chain).messageRules m = .ok rules)
    {r : Record} {nested : MessageId → Record → Except Status Unit}
    (hnested : ∀ n s, w.chain.Contains (m, r) (n, s) → Restores (w.chain.DeepValid w.formats n s)
      (nested n s) ()) :
    Restores (w.chain.DeepValid w.formats m r) (w.checkRecord nested rules r) () := by
  refine Restores.of_iff
    (.bind (.forM fun g hg => .forM fun rule hrule => ?_) (.forM fun o _ => ?_))
    (demanded_iff h)
  · refine restores_checkRule g.name fun n v u s hn hv hu hs => hnested n s ?_
    obtain ⟨hf, hname, hrs, -⟩ := (mem_messageRules h).mp hg
    obtain ⟨htype, hd⟩ := (Rule.Derivation.fieldRules_nested hrs n).mp (hn ▸ hrule)
    exact .field hf htype hd ((fieldValue_eq_some hname).mp hv) hu hs
  · constructor
    · intro hset
      exact if_pos hset
    · intro hnot
      exact ⟨.required o.name, if_neg hnot, rfl⟩

end

/-! ### All messages -/

/-- **Records of validated messages**, by how deep they nest. -/
theorem restores_validateWithin {w : Validator} {count : Nat} (hframed : w.chain.Framed count)
    {v : VersionId} (hrules : (Rule.Derivation.ofChain w.chain).versionRules v =
      .ok w.plan.validators)
    (hnames : (w.plan.validators.map (·.function)).Nodup)
    (hself : ∀ m n, w.chain.Nests m n → (w.chain.message n).version = (w.chain.message m).version)
    {room : Nat} {m : MessageId} (hm : m ∈ w.chain.validatedOf v) {r : Record}
    (hdepth : r.depth < room) :
    Restores (w.chain.DeepValid w.formats m r)
      (w.validateWithin room (w.chain.validatorOf m) r) () := by
  -- by the room that is left: what a record contains nests less deep than the record
  induction room generalizing m r with
  | zero => exact absurd hdepth (Nat.not_lt_zero _)
  | succ room ih =>
    obtain ⟨rules, hmem, hok⟩ := forall₂_exists_right (mapM_eq_ok.mp hrules) hm
    have hfunction : rules.function = w.chain.validatorOf m :=
      (Rule.Derivation.messageRules_eq_ok hok).function
    have hfind : w.rulesOf (w.chain.validatorOf m) = .ok rules := by
      unfold Validator.rulesOf VersionPlan.validator?
      rw [← hfunction, find?_of_nodup hnames hmem]
    have hcheck : w.validateWithin (room + 1) (w.chain.validatorOf m) r
        = w.checkRecord (fun n => w.validateWithin room (w.chain.validatorOf n)) rules r := by
      rw [Validator.validateWithin, hfind]
      rfl
    rw [hcheck]
    refine restores_checkRecord hok fun n s hcontains => ih ?_ ?_
    · -- what a validated message contains and requires validation is validated in its version
      cases hcontains with
      | field hf htype hd _ _ _ =>
        have hnests : w.chain.Nests m n := ⟨_, hf, htype⟩
        obtain ⟨-, hn⟩ := hnests.lt hframed.wellFormed
        obtain ⟨hmessage, -⟩ := List.mem_filter.mp hm
        have hversion := ((hframed.wellFormed.mem_messages v m).mp hmessage).2
        exact Chain.NeedsValidator.validated hframed
          (.nested hm (Chain.mem_nestedMessages.mpr hnests) hd)
          ((hframed.wellFormed.mem_messages v n).mpr ⟨hn, (hself m n hnests).trans hversion⟩)
    · exact Nat.lt_of_lt_of_le hcontains.depth_lt (Nat.le_of_lt_succ hdepth)

/-! ### Room to nest -/

/-- Loops that do the same for every element do the same. -/
theorem forM_congr {α : Type} {f g : α → Except Status Unit} {xs : List α}
    (h : ∀ x ∈ xs, f x = g x) :
    xs.forM f = xs.forM g := by
  induction xs with
  | nil => rfl
  | cons x xs ih =>
    obtain ⟨hx, hxs⟩ := List.forall_mem_cons.mp h
    show (f x >>= fun _ => xs.forM f) = (g x >>= fun _ => xs.forM g)
    rw [hx, ih hxs]

/-- The value of a field nests no deeper than the record. -/
theorem fieldValue_depth_le {w : Validator} {r : Record} {g : FieldRules} {v : Value}
    (h : w.fieldValue r g = some v) : v.depth ≤ r.depth := by
  unfold Validator.fieldValue at h
  split at h
  · exact Record.depth_le_of_get? h
  · split at h
    · rename_i variant u hget
      split at h
      · obtain rfl := Option.some.inj h
        exact Nat.le_trans (Nat.le_succ _) (Record.depth_le_of_get? hget)
      · cases h
    · cases h

/-- Checks of nested messages that agree on what nests less deep than a record agree on
    the record. -/
theorem checkRecord_congr {w : Validator} {rules : MessageRules} {r : Record}
    {nested nested' : MessageId → Record → Except Status Unit}
    (h : ∀ n s, s.depth < r.depth → nested n s = nested' n s) :
    w.checkRecord nested rules r = w.checkRecord nested' rules r := by
  unfold Validator.checkRecord
  refine congrArg (· >>= _) (forM_congr fun g _ => forM_congr fun rule _ => ?_)
  -- only a rule for nested messages calls the nested check
  by_cases hrule : rule = .required
  · subst hrule
    unfold checkRule
    cases (w.fieldValue r g).filter (!·.isEmpty) <;> rfl
  · cases hpresent : (w.fieldValue r g).filter (!·.isEmpty) with
    | none => rw [checkRule_absent _ hpresent hrule, checkRule_absent _ hpresent hrule]
    | some v =>
      obtain ⟨hv, -⟩ := Option.filter_eq_some_iff.mp hpresent
      rw [checkRule_present _ hpresent hrule, checkRule_present _ hpresent hrule]
      refine forM_congr fun u hu => ?_
      cases rule with
      | nested n =>
        unfold checkElement
        dsimp only
        split
        · rename_i s hs
          exact h n s (Nat.lt_of_lt_of_le (Chain.depth_lt_of_element hu hs)
            (fieldValue_depth_le hv))
        · rfl
      | _ => rfl

/-- **Validation ends**: with room for all that a record holds, more room changes nothing. -/
theorem validateWithin_eq {w : Validator} {room room' : Nat} {function : String} {r : Record}
    (h : r.depth < room) (h' : r.depth < room') :
    w.validateWithin room function r = w.validateWithin room' function r := by
  induction room generalizing room' function r with
  | zero => exact absurd h (Nat.not_lt_zero _)
  | succ room ih =>
    cases room' with
    | zero => exact absurd h' (Nat.not_lt_zero _)
    | succ room' =>
      rw [Validator.validateWithin, Validator.validateWithin]
      refine congrArg (w.rulesOf function >>= ·)
        (funext fun rules => checkRecord_congr fun n s hs => ?_)
      exact ih (Nat.lt_of_lt_of_le hs (Nat.le_of_lt_succ h))
        (Nat.lt_of_lt_of_le hs (Nat.le_of_lt_succ h'))

/-! ### Plans -/

/-- How the validator of a message answers for a record. -/
structure Decides (w : Validator) (m : MessageId) (r : Record) : Prop where
  /-- It accepts what is valid at any depth, and nothing else. -/
  accepts : w.validate (w.chain.validatorOf m) r = .ok () ↔ w.chain.DeepValid w.formats m r
  /-- It refuses the argument, and does not fail otherwise. -/
  refuses : ∀ e, w.validate (w.chain.validatorOf m) r = .error e → e.code = .invalidArgument
  /-- It has room for all that the record holds, however the message recurs. -/
  ends : ∀ room, r.depth < room → w.validateWithin room (w.chain.validatorOf m) r
    = w.validate (w.chain.validatorOf m) r

/-- **Validation is deep and complete.** In a plan that is generated, if messages have fields of
    messages of their own package only and no two validators of a version have one name, the
    validator of every validated message of the version accepts exactly the records that are valid
    at any depth, and refuses all others as arguments, whatever the checks of formats accept. -/
theorem validates_of_generate {set : DescriptorSet} {config : Config} {plan : Plan}
    (h : Plan.generate set config = .ok plan) (hself : plan.chain.SelfContained) {vp : VersionPlan}
    (hvp : vp ∈ plan.versions) (hnames : (vp.validators.map (·.function)).Nodup) {m : MessageId}
    (hm : m ∈ (plan.chain.version vp.version).messages)
    (hvalidated : (Rule.Derivation.ofChain plan.chain).validated.contains m) (formats : Formats)
    (r : Record) : Decides ⟨plan.chain, vp, formats⟩ m r := by
  have hgenerated := Plan.generated_of_generate h
  have hframed := hgenerated.linked.framed
  have hwf := hframed.wellFormed
  obtain ⟨v, hv, hplan⟩ := forall₂_exists_left hgenerated.versions hvp
  obtain ⟨hplanned, -⟩ := Plan.versionPlan_eq_ok hplan
  -- messages of one package are of one version
  have hversions : ∀ m n, plan.chain.Nests m n →
      (plan.chain.message n).version = (plan.chain.message m).version := by
    intro m n hnests
    obtain ⟨hm, hn⟩ := hnests.lt hwf
    exact Plan.version_eq_of_package h (hwf.message_version_lt hn) (hwf.message_version_lt hm)
      (hself m n hnests)
  let w : Validator := ⟨plan.chain, vp, formats⟩
  have hrestores :
      Restores (w.chain.DeepValid w.formats m r) (w.validate (w.chain.validatorOf m) r) () := by
    unfold Validator.validate
    refine restores_validateWithin (w := w) (v := v.id) hframed hplanned.validators hnames
      hversions ?_
      (Nat.lt_succ_self r.depth)
    exact List.mem_filter.mpr ⟨hplanned.version ▸ hm, hvalidated⟩
  refine ⟨⟨fun hok => ?_, hrestores.ok⟩, fun e he => ?_, fun room hroom => ?_⟩
  · by_contra hnot
    obtain ⟨e, he, -⟩ := hrestores.refused hnot
    cases hok.symm.trans he
  · by_cases hvalid : plan.chain.DeepValid formats m r
    · cases (hrestores.ok hvalid).symm.trans he
    · obtain ⟨e', he', hcode⟩ := hrestores.refused hvalid
      obtain rfl := Except.error.inj (he'.symm.trans he)
      exact hcode
  · exact validateWithin_eq hroom (Nat.lt_succ_self r.depth)

/-- A node of a name, with a text. -/
def leafNode (name : String) : Value :=
  .message "v1.Node" [("body", .oneof "text" (.str "green")), ("name", .str name)]

/-- A node with two nodes, and one more in its group. -/
def bushNode (last : String) : Record :=
  { message := "v1.Node"
    fields := [
      ("body", .oneof "group" (.message "v1.Group" [("nodes", .list [leafNode last])])),
      ("name", .str "root"),
      ("nodes", .list [leafNode "left", leafNode "right"])] }

/-- What is checked of the sample by evaluation. -/
structure ChecksTree (w : Validator) : Prop where
  message : (⟨1⟩ : MessageId) ∈ (w.chain.version w.plan.version).messages
  long : (w.validate (w.chain.validatorOf ⟨1⟩) (bushNode "leaf")).toOption.isSome
  short : (w.validate (w.chain.validatorOf ⟨1⟩) (bushNode "x")).toOption.isNone

instance (w : Validator) : Decidable (ChecksTree w) :=
  decidable_of_iff ((⟨1⟩ : MessageId) ∈ (w.chain.version w.plan.version).messages ∧
      (w.validate (w.chain.validatorOf ⟨1⟩) (bushNode "leaf")).toOption.isSome ∧
      (w.validate (w.chain.validatorOf ⟨1⟩) (bushNode "x")).toOption.isNone)
    ⟨fun h => ⟨h.1, h.2.1, h.2.2⟩, fun h => ⟨h.message, h.long, h.short⟩⟩

set_option maxRecDepth 10000 in
/-- A node is valid with a name of four letters in its group, and not with one of a
    single letter. -/
theorem validates_tree : ∃ vp, Plan.treePlan.versions[0]? = some vp ∧
    Decides ⟨Plan.treePlan.chain, vp, .standard⟩ ⟨1⟩ (bushNode "leaf") ∧
    Plan.treePlan.chain.DeepValid .standard ⟨1⟩ (bushNode "leaf") ∧
    ¬ Plan.treePlan.chain.DeepValid .standard ⟨1⟩ (bushNode "x") := by
  obtain ⟨hany, hinside, hvalidated⟩ :
      (Plan.treePlan.versions[0]?).any (fun vp =>
        decide (ChecksTree ⟨Plan.treePlan.chain, vp, .standard⟩)) = true ∧
      (∀ m ∈ Plan.treePlan.chain.messages, ∀ n ∈ Plan.treePlan.chain.nestedMessages m,
        Plan.treePlan.chain.messagePackage n = Plan.treePlan.chain.messagePackage m.id) ∧
      (Rule.Derivation.ofChain Plan.treePlan.chain).validated.contains ⟨1⟩ = true := by
        decide +kernel
  obtain ⟨vp, hvp, hdecide⟩ := (Option.any_eq_true _ _).mp hany
  have hchecks := of_decide_eq_true hdecide
  have hmem := List.mem_of_getElem? hvp
  have hwf := (Plan.generated_of_generate Plan.generate_treeSet).linked.framed.wellFormed
  have hself : Plan.treePlan.chain.SelfContained := by
    intro m n hnests
    have hm := (hnests.lt hwf).1
    have heq := hinside _ (Chain.mem_message hm) n (Chain.mem_nestedMessages.mpr hnests)
    rwa [hwf.message_id hm] at heq
  have hnames := (Plan.treePlan_checked.2.2.2 vp hmem).2
  have hdecides (r : Record) := validates_of_generate Plan.generate_treeSet hself hmem hnames
    hchecks.message hvalidated .standard r
  refine ⟨vp, hvp, hdecides _, (hdecides _).accepts.mp ?_, fun hvalid => ?_⟩
  · obtain ⟨u, hu⟩ := Option.isSome_iff_exists.mp hchecks.long
    exact toOption_eq_some.mp hu
  · have hok := toOption_eq_some.mpr ((hdecides (bushNode "x")).accepts.mpr hvalid)
    have hnone := hchecks.short
    rw [hok] at hnone
    cases hnone

end Service

end Lineage
