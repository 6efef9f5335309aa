import Lineage.Proofs.Chain.Claims
import Lineage.Proofs.Chain.Integrity
import Lineage.Proofs.Plan.Equipped
import Lineage.Proofs.Plan.Sample
import Mathlib.Algebra.BigOperators.Group.List.Basic
import Mathlib.Algebra.GroupWithZero.Nat

namespace Lineage

/-!
# What converters that lead up account for

Every member of a public message is either written by the converter or named as unconverted.  A
record keeps a variant under its oneof, so a variant is written by an arm of the oneof's mapping.

* `MessageConverter.occurrences`, `MessageConverter.armOccurrences` — how often a plain field or a
  variant is written or named as unconverted,
* `sum_map_eq_of_forall₂` — of parts made from the items of a list, only the part of an item
  contributes for it,
* `View.upField_part`, `View.upArm_part`, `View.upOneof_part` — what one part contributes,
* `MessageConverter.Covers` — every plain field occurs once, every oneof has one mapping, and every
  variant occurs once unless it is left out: it is deprecated, its oneof is not, and the next
  version's record is read,
* `View.covers_of_messageConverter` — a converter that leads up does that, `Plan.covers_of_generate`
  — in every generated plan.
-/

/-- How often a plain field occurs among the assignments and what is unconverted. -/
def MessageConverter.occurrences (x : MessageConverter) (f : Field) : Nat :=
  x.assignments.countP (·.field == f.id) + x.unconverted.count f.name

/-- How often a variant occurs among the arms for a oneof and what is unconverted. -/
def MessageConverter.armOccurrences (x : MessageConverter) (o : OneofId) (v : Field) : Nat :=
  ((x.oneofs.filter (·.oneof == o)).flatMap (·.arms)).countP (·.target == v.name)
    + x.unconverted.count v.name

/-! ### Counting by parts -/

/-- A sum of zeros. -/
theorem sum_map_eq_zero {α : Type} {xs : List α} {F : α → Nat} (h : ∀ x ∈ xs, F x = 0) :
    (xs.map F).sum = 0 := by
  rw [List.sum_eq_zero_iff_forall_eq_nat]
  simpa using h

/-- Of parts made from different items, only the part of an item contributes for it. -/
theorem sum_map_eq_of_forall₂ {α β : Type} {R : α → β → Prop} {xs : List α} {ys : List β}
    (h : List.Forall₂ R xs ys) (hnodup : xs.Nodup) {F : β → Nat} {x : α} {n : Nat} (hx : x ∈ xs)
    (hself : ∀ y, R x y → F y = n) (hother : ∀ x' ∈ xs, x' ≠ x → ∀ y, R x' y → F y = 0) :
    (ys.map F).sum = n := by
  induction h with
  | nil => cases hx
  | @cons x' y xs ys hr hrest ih =>
    obtain ⟨hnot, hnodup⟩ := List.nodup_cons.mp hnodup
    rw [List.map_cons, List.sum_cons]
    obtain rfl | hx := List.mem_cons.mp hx
    · have hzero : (ys.map F).sum = 0 := sum_map_eq_zero fun y hy => by
        obtain ⟨z, hz, hzy⟩ := forall₂_exists_left hrest hy
        exact hother z (List.mem_cons_of_mem _ hz) (fun heq => hnot (heq ▸ hz)) y hzy
      rw [hself y hr, hzero, Nat.add_zero]
    · have hzero : F y = 0 := hother x' List.mem_cons_self (fun heq => hnot (heq ▸ hx)) y hr
      rw [hzero, Nat.zero_add]
      exact ih hnodup hx fun z hz => hother z (List.mem_cons_of_mem _ hz)

/-! ### What one part contributes -/

/-- How often a plain field occurs in a part. -/
def View.FieldPart.occurrences (part : View.FieldPart) (f : Field) : Nat :=
  part.assignment.toList.countP (·.field == f.id) + part.unconverted.toList.count f.name

/-- How often a variant of some name occurs in a part. -/
def View.ArmPart.occurrences (part : View.ArmPart) (name : String) : Nat :=
  part.arm?.toList.countP (·.target == name) + part.unconverted?.toList.count name

/-- How often a variant occurs in the part of a oneof. -/
def View.OneofPart.occurrences (part : View.OneofPart) (o : OneofId) (v : Field) : Nat :=
  ((part.mapping.toList.filter (·.oneof == o)).flatMap (·.arms)).countP (·.target == v.name)
    + part.unconverted.count v.name

namespace View

variable {w : View} {h : Head} {f g v : Field} {o : Oneof}

/-- Whether a variant is left out on the way up: the oneof is read from the next version's record
    and the variant is deprecated. -/
def leavesOut (fromPrivate : Bool) (v : Field) : Bool := !fromPrivate && v.deprecated

/-- On the way up a plain field is assigned or reported, and not both. -/
theorem upField_part {part : FieldPart} (hok : (w.upField h f).result = .ok part) :
    (part.assignment = none ∧ part.unconverted = some f.name) ∨
      ∃ a, part.assignment = some a ∧ a.field = f.id ∧ part.unconverted = none := by
  unfold upField at hok
  dsimp only at hok
  obtain ⟨s, -, hok⟩ := Traced.bind_result.mp hok
  obtain ⟨action, -, hok⟩ := Traced.bind_result.mp hok
  cases action with
  | none =>
    obtain rfl := Except.ok.inj hok
    exact .inl ⟨rfl, rfl⟩
  | some action =>
    obtain rfl := Except.ok.inj hok
    exact .inr ⟨_, rfl, rfl, rfl⟩

/-- A plain field occurs once in its own part. -/
theorem upField_occurrences {part : FieldPart} (hok : (w.upField h f).result = .ok part) :
    part.occurrences f = 1 := by
  obtain ⟨hassignment, hun⟩ | ⟨a, hassignment, hfield, hun⟩ := upField_part hok
  · simp [FieldPart.occurrences, hassignment, hun]
  · simp [FieldPart.occurrences, hassignment, hun, hfield]

/-- No other field occurs there. -/
theorem upField_occurrences_of_ne {part : FieldPart} (hok : (w.upField h f).result = .ok part)
    (hid : f.id ≠ g.id) (hname : f.name ≠ g.name) : part.occurrences g = 0 := by
  obtain ⟨hassignment, hun⟩ | ⟨a, hassignment, hfield, hun⟩ := upField_part hok
  · simp [FieldPart.occurrences, hassignment, hun, hname]
  · simp [FieldPart.occurrences, hassignment, hun, hfield, hid]

/-- On the way up a variant is skipped, has an arm or is reported. -/
theorem upArm_part {fromPrivate : Bool} {part : ArmPart}
    (hok : (w.upArm h fromPrivate v).result = .ok part) :
    part = .skipped ∧ (leavesOut fromPrivate v = true ∨ upLink fromPrivate v.link = none) ∨
      leavesOut fromPrivate v = false ∧
        (part = .unconverted v.name ∨ ∃ a, part = .arm a ∧ a.target = v.name) := by
  -- the three reasons for reading nothing are one condition
  have hsource : (if ((if fromPrivate then Side.ofPrivate else .ofNext) == .ofNext && v.deprecated)
      then none else if fromPrivate then v.link.final else v.link.next)
      = if leavesOut fromPrivate v then none else upLink fromPrivate v.link := by
    cases fromPrivate <;> rfl
  unfold upArm at hok
  dsimp only at hok
  rw [hsource] at hok
  split at hok
  · rename_i hnone
    refine .inl ⟨(Except.ok.inj hok).symm, ?_⟩
    split at hnone
    · rename_i hout
      exact .inl hout
    · exact .inr hnone
  · rename_i s hs
    split at hs
    · cases hs
    · rename_i hin
      obtain ⟨action, -, hok⟩ := Traced.bind_result.mp hok
      refine .inr ⟨Bool.eq_false_iff.mpr hin, ?_⟩
      cases action with
      | none => exact .inl (Except.ok.inj hok).symm
      | some action => exact .inr ⟨_, (Except.ok.inj hok).symm, rfl⟩

/-- A variant occurs once in its own part, unless it is left out. -/
theorem upArm_occurrences {fromPrivate : Bool} {part : ArmPart}
    (hok : (w.upArm h fromPrivate v).result = .ok part)
    (hlink : leavesOut fromPrivate v = false → upLink fromPrivate v.link ≠ none) :
    part.occurrences v.name = if leavesOut fromPrivate v then 0 else 1 := by
  obtain ⟨rfl, hskip⟩ | ⟨hin, hpart⟩ := upArm_part hok
  · have hout : leavesOut fromPrivate v = true := by
      by_contra hin
      rw [Bool.not_eq_true] at hin
      simp [hin, hlink hin] at hskip
    rw [hout]
    rfl
  · rw [hin]
    obtain rfl | ⟨a, rfl, htarget⟩ := hpart
    · simp [ArmPart.occurrences, ArmPart.arm?, ArmPart.unconverted?]
    · simp [ArmPart.occurrences, ArmPart.arm?, ArmPart.unconverted?, htarget]

/-- No variant of another name occurs there. -/
theorem upArm_occurrences_of_ne {fromPrivate : Bool} {part : ArmPart}
    (hok : (w.upArm h fromPrivate v).result = .ok part) {name : String} (hname : v.name ≠ name) :
    part.occurrences name = 0 := by
  obtain ⟨rfl, -⟩ | ⟨-, rfl | ⟨a, rfl, htarget⟩⟩ := upArm_part hok
  · rfl
  · simp [ArmPart.occurrences, ArmPart.arm?, ArmPart.unconverted?, hname]
  · simp [ArmPart.occurrences, ArmPart.arm?, ArmPart.unconverted?, htarget, hname]

/-- On the way up a oneof is made of the parts of its variants. -/
theorem upOneof_part {part : OneofPart} (hok : (w.upOneof h o).result = .ok part) :
    ∃ parts mapping, part.mapping = some mapping ∧ mapping.oneof = o.id ∧
      mapping.arms = parts.filterMap ArmPart.arm? ∧
      part.unconverted = parts.filterMap ArmPart.unconverted? ∧
      List.Forall₂ (fun v p =>
        (w.upArm h (h.shape == .upFromPrivate || o.deprecated) v).result = .ok p)
        (o.fields.map w.chain.field) parts := by
  unfold upOneof at hok
  dsimp only at hok
  obtain ⟨s, -, hok⟩ := Traced.bind_result.mp hok
  obtain ⟨parts, hparts, hok⟩ := Traced.bind_result.mp hok
  obtain rfl := Except.ok.inj hok
  exact ⟨parts, _, rfl, rfl, rfl, rfl, (Traced.mapM_result hparts).1⟩

end View

/-! ### What a whole converter accounts for -/

/-- A count over what is kept is a sum over everything. -/
theorem countP_filterMap_eq_sum {α β : Type} (p : β → Bool) (g : α → Option β) (xs : List α) :
    (xs.filterMap g).countP p = (xs.map fun x => (g x).toList.countP p).sum := by
  rw [List.filterMap_eq_flatMap_toList, List.countP_flatMap]
  rfl

namespace View

/-- Arms and unconverted variants, counted part by part. -/
theorem sum_map_armOccurrences (parts : List ArmPart) (name : String) :
    (parts.filterMap ArmPart.arm?).countP (·.target == name)
        + (parts.filterMap ArmPart.unconverted?).count name
      = (parts.map (·.occurrences name)).sum := by
  rw [countP_filterMap_eq_sum, List.count, countP_filterMap_eq_sum, ← List.sum_map_add]
  rfl

/-- What is unconverted of a oneof are variants of it. -/
theorem upOneof_unconverted {w : View} {h : Head} {o : Oneof} {part : OneofPart}
    (hok : (w.upOneof h o).result = .ok part) {name : String}
    (hname : ∀ v ∈ o.fields.map w.chain.field, v.name ≠ name) :
    part.unconverted.count name = 0 := by
  obtain ⟨parts, -, -, -, -, hun, hall⟩ := upOneof_part hok
  rw [hun, List.count, countP_filterMap_eq_sum]
  refine sum_map_eq_zero fun p hp => ?_
  obtain ⟨v, hv, hresult⟩ := forall₂_exists_left hall hp
  exact (Nat.add_eq_zero_iff.mp (upArm_occurrences_of_ne hresult (hname v hv))).2

/-- Each variant occurs once in the part of its oneof, unless it is left out. -/
theorem upOneof_occurrences {w : View} {h : Head} {o : Oneof} {part : OneofPart} {v : Field}
    (hok : (w.upOneof h o).result = .ok part) (hnodup : (o.fields.map w.chain.field).Nodup)
    (hv : v ∈ o.fields.map w.chain.field)
    (hnames : ∀ v' ∈ o.fields.map w.chain.field, v' ≠ v → v'.name ≠ v.name)
    (hlink : leavesOut (h.shape == .upFromPrivate || o.deprecated) v = false →
      upLink (h.shape == .upFromPrivate || o.deprecated) v.link ≠ none) :
    part.occurrences o.id v =
      if leavesOut (h.shape == .upFromPrivate || o.deprecated) v then 0 else 1 := by
  obtain ⟨parts, mapping, hmapping, hid, harms, hun, hall⟩ := upOneof_part hok
  have hparts : part.occurrences o.id v = (parts.map (·.occurrences v.name)).sum := by
    rw [← sum_map_armOccurrences, ← harms, ← hun]
    simp [OneofPart.occurrences, hmapping, hid]
  rw [hparts]
  exact sum_map_eq_of_forall₂ hall hnodup hv (fun p hp => upArm_occurrences hp hlink)
    fun v' hv' hne p hp => upArm_occurrences_of_ne hp (hnames v' hv' hne)

/-- No variant of another oneof occurs there. -/
theorem upOneof_occurrences_of_ne {w : View} {h : Head} {o : Oneof} {part : OneofPart} {i : OneofId}
    {v : Field} (hok : (w.upOneof h o).result = .ok part) (hid : o.id ≠ i)
    (hnames : ∀ v' ∈ o.fields.map w.chain.field, v'.name ≠ v.name) : part.occurrences i v = 0 := by
  obtain ⟨parts, mapping, hmapping, hid', -, -, -⟩ := upOneof_part hok
  have hne : mapping.oneof ≠ i := hid' ▸ hid
  simp [OneofPart.occurrences, hmapping, hne, upOneof_unconverted hok hnames]

namespace MessageParts

variable {w : View} {kind : ConverterKind} {id : MessageId} {x : MessageConverter}
  {asked : List Request} {fields : List FieldPart} {oneofs : List OneofPart}

/-- Assignments and unconverted fields, counted part by part. -/
theorem occurrences_eq (h : w.MessageParts kind id x asked fields oneofs) (f : Field) :
    x.occurrences f = (fields.map (·.occurrences f)).sum
      + (oneofs.map fun part => part.unconverted.count f.name).sum := by
  have hfields : (fields.map (·.occurrences f)).sum = x.assignments.countP (·.field == f.id)
      + (fields.filterMap (·.unconverted)).count f.name := by
    rw [h.assignments, countP_filterMap_eq_sum, List.count, countP_filterMap_eq_sum,
      ← List.sum_map_add]
    rfl
  rw [MessageConverter.occurrences, h.unconverted, List.count_append, List.count_flatMap, hfields,
    Nat.add_assoc]
  rfl

/-- Arms and unconverted members, counted part by part. -/
theorem armOccurrences_eq (h : w.MessageParts kind id x asked fields oneofs) (o : OneofId)
    (v : Field) :
    x.armOccurrences o v = (oneofs.map (·.occurrences o v)).sum
      + (fields.map fun part => part.unconverted.toList.count v.name).sum := by
  have harms : ((x.oneofs.filter (·.oneof == o)).flatMap (·.arms)).countP (·.target == v.name)
      = (oneofs.map fun part => ((part.mapping.toList.filter (·.oneof == o)).flatMap
          (·.arms)).countP (·.target == v.name)).sum := by
    rw [h.mappings, List.filterMap_eq_flatMap_toList, List.filter_flatMap, List.flatMap_assoc,
      List.countP_flatMap]
    rfl
  have hun : x.unconverted.count v.name =
      (fields.map fun part => part.unconverted.toList.count v.name).sum
      + (oneofs.map fun part => part.unconverted.count v.name).sum := by
    rw [h.unconverted, List.count_append, List.count_flatMap, List.count, countP_filterMap_eq_sum]
    rfl
  have hsum : (oneofs.map (·.occurrences o v)).sum
      = (oneofs.map fun part => ((part.mapping.toList.filter (·.oneof == o)).flatMap
          (·.arms)).countP (·.target == v.name)).sum
        + (oneofs.map fun part => part.unconverted.count v.name).sum := by
    rw [← List.sum_map_add]
    rfl
  rw [MessageConverter.armOccurrences, harms, hun, hsum]
  omega

end MessageParts

end View

/-- A converter accounts for every member of its message: every plain field occurs once, every oneof
    has one mapping, and every variant occurs once unless the oneof is read from the next version's
    record although the variant is deprecated. -/
structure MessageConverter.Covers (c : Chain) (x : MessageConverter) : Prop where
  fields : ∀ f ∈ (c.message x.message).fields, (c.field f).oneof = none →
    x.occurrences (c.field f) = 1
  oneofs : ∀ o ∈ (c.message x.message).oneofs, x.oneofs.countP (·.oneof == o) = 1
  variants : ∀ o ∈ (c.message x.message).oneofs, ∀ v ∈ (c.oneof o).fields,
    x.armOccurrences o (c.field v) =
      if x.shape = .upFromNext ∧ (c.oneof o).deprecated = false ∧ (c.field v).deprecated
        then 0 else 1

namespace Chain

variable {c : Chain} {m : MessageId} {o : OneofId}

/-- The plain fields of a message are different. -/
theorem UniqueFields.nodup_plainFields (h : c.UniqueFields) (m : MessageId) :
    (c.plainFields m).Nodup := by
  have hnames := h.nodup m
  rw [← Function.comp_def Field.name c.field, ← List.map_map] at hnames
  exact hnames.of_map.filter _

/-- The variants of a oneof are different. -/
theorem UniqueFields.nodup_variants (h : c.UniqueFields) (hwf : c.WellFormed) (o : OneofId) :
    ((c.oneof o).fields.map c.field).Nodup := by
  refine List.Nodup.map_on (fun f hf g hg heq => ?_) (nodup_of_pairwise (hwf.pairwise_variants o))
  exact h.variant_eq hwf hf hg (congrArg Field.name heq)

/-- The oneofs of a message are different. -/
theorem WellFormed.nodup_oneofs (h : c.WellFormed) (m : MessageId) :
    ((c.message m).oneofs.map c.oneof).Nodup := by
  refine List.Nodup.map_on (fun o ho o' ho' heq => ?_) (nodup_of_pairwise (h.pairwise_oneofs m))
  rw [← h.oneof_id ((h.mem_oneofs m o).mp ho).1, heq, h.oneof_id ((h.mem_oneofs m o').mp ho').1]

end Chain

namespace View

variable {w : View} {kind : ConverterKind} {id : MessageId} {x : MessageConverter} {count : Nat}

section
variable (h : w.chain.Linked count) (hfields : w.chain.UniqueFields)
  (hok : (w.messageConverter kind id).result = .ok x) (hup : kind.isDown = false)
include h hfields hok hup

/-- **Plain fields** occur once. -/
theorem occurrences_eq_one {f : FieldId} (hf : f ∈ (w.chain.message id).fields)
    (hplain : (w.chain.field f).oneof = none) : x.occurrences (w.chain.field f) = 1 := by
  have hwf := h.framed.wellFormed
  obtain ⟨fields, oneofs, hparts⟩ := messageConverter_parts hok
  obtain ⟨heach, honeofs, -⟩ := hparts.upward hup
  have hown : (fields.map (·.occurrences (w.chain.field f))).sum = 1 := by
    refine sum_map_eq_of_forall₂ heach (hfields.nodup_plainFields id)
      (Chain.mem_plainFields.mpr ⟨f, hf, hplain, rfl⟩)
      (fun part hpart => upField_occurrences hpart) ?_
    intro _ hmem hne part hpart
    obtain ⟨g, hg, -, rfl⟩ := Chain.mem_plainFields.mp hmem
    apply upField_occurrences_of_ne hpart
    · intro hid
      rw [hwf.field_id ((hwf.mem_fields id g).mp hg).1,
        hwf.field_id ((hwf.mem_fields id f).mp hf).1] at hid
      exact hne (congrArg w.chain.field hid)
    · intro hname
      exact hne (congrArg w.chain.field (hfields.eq hg hf hname))
  -- what is unconverted of a oneof is a variant
  have hvariants :
      (oneofs.map fun part => part.unconverted.count (w.chain.field f).name).sum = 0 := by
    refine sum_map_eq_zero fun part hpart => ?_
    obtain ⟨_, hmem, hresult⟩ := forall₂_exists_left honeofs hpart
    obtain ⟨o, ho, rfl⟩ := List.mem_map.mp hmem
    refine upOneof_unconverted hresult fun _ hmem hname => ?_
    obtain ⟨v, hv, rfl⟩ := List.mem_map.mp hmem
    obtain rfl := hfields.eq (hwf.mem_fields_of_variant ho hv) hf hname
    rw [((hwf.mem_variants o v).mp hv).2] at hplain
    cases hplain
  rw [hparts.occurrences_eq, hown, hvariants]

omit hfields in
/-- **Oneofs** have one mapping. -/
theorem countP_oneofs_eq_one {o : OneofId} (ho : o ∈ (w.chain.message id).oneofs) :
    x.oneofs.countP (·.oneof == o) = 1 := by
  have hwf := h.framed.wellFormed
  obtain ⟨fields, oneofs, hparts⟩ := messageConverter_parts hok
  obtain ⟨-, honeofs, -⟩ := hparts.upward hup
  have hid : ∀ i ∈ (w.chain.message id).oneofs, (w.chain.oneof i).id = i :=
    fun i hi => hwf.oneof_id ((hwf.mem_oneofs id i).mp hi).1
  rw [hparts.mappings, countP_filterMap_eq_sum]
  refine sum_map_eq_of_forall₂ honeofs (hwf.nodup_oneofs id) (List.mem_map_of_mem ho) ?_ ?_
  · intro part hpart
    obtain ⟨-, g, hg, hown, -⟩ := upOneof_part hpart
    simp [hg, hown, hid o ho]
  · intro _ hmem hne part hpart
    obtain ⟨i, hi, rfl⟩ := List.mem_map.mp hmem
    obtain ⟨-, g, hg, hown, -⟩ := upOneof_part hpart
    have hother : i ≠ o := fun heq => hne (congrArg w.chain.oneof heq)
    simp [hg, hown, hid i hi, hother]

omit hfields hup in
/-- A variant that is not left out has a counterpart where it is read from. -/
theorem upLink_variant {o : OneofId} (ho : o ∈ (w.chain.message id).oneofs) {v : FieldId}
    (hv : v ∈ (w.chain.oneof o).fields) (fromPrivate : Bool)
    (hside : fromPrivate = false → w.facesNext kind ∧ (w.chain.oneof o).deprecated = false)
    (hin : leavesOut fromPrivate (w.chain.field v) = false) :
    upLink fromPrivate (w.chain.field v).link ≠ none := by
  have hside' := (messageConverter_spec hok).counterpart
  refine Option.isSome_iff_ne_none.mp (upLink_variant_isSome h hside' ho hv fun hfrom => ?_)
  obtain ⟨hfaces, hlive⟩ := hside hfrom
  exact ⟨hfaces, hlive, by simpa [leavesOut, hfrom] using hin⟩

omit h hok hup in
/-- What is unconverted of the fields is plain. -/
theorem sum_unconverted_eq_zero {fields : List FieldPart}
    (heach : List.Forall₂ (fun f part => (w.upField (w.head kind id) f).result = .ok part)
      (w.chain.plainFields id) fields) {v : FieldId} (hv : v ∈ (w.chain.message id).fields)
      {o : OneofId}
    (hvariant : (w.chain.field v).oneof = some o) :
    (fields.map fun part => part.unconverted.toList.count (w.chain.field v).name).sum = 0 := by
  refine sum_map_eq_zero fun part hpart => ?_
  obtain ⟨_, hmem, hresult⟩ := forall₂_exists_left heach hpart
  obtain ⟨g, hg, hplain, rfl⟩ := Chain.mem_plainFields.mp hmem
  obtain ⟨-, hun⟩ | ⟨a, -, -, hun⟩ := upField_part hresult
  · have hne : (w.chain.field g).name ≠ (w.chain.field v).name := by
      intro hname
      obtain rfl := hfields.eq hg hv hname
      rw [hvariant] at hplain
      cases hplain
    simp [hun, hne]
  · simp [hun]

/-- **Variants** occur once, unless they are left out. -/
theorem armOccurrences_eq {o : OneofId} (ho : o ∈ (w.chain.message id).oneofs) {v : FieldId}
    (hv : v ∈ (w.chain.oneof o).fields) : x.armOccurrences o (w.chain.field v) =
      if leavesOut (w.shape kind == .upFromPrivate || (w.chain.oneof o).deprecated)
        (w.chain.field v) then 0 else 1 := by
  have hwf := h.framed.wellFormed
  obtain ⟨fields, oneofs, hparts⟩ := messageConverter_parts hok
  obtain ⟨heach, honeofs, -⟩ := hparts.upward hup
  have hid : ∀ i ∈ (w.chain.message id).oneofs, (w.chain.oneof i).id = i :=
    fun i hi => hwf.oneof_id ((hwf.mem_oneofs id i).mp hi).1
  have hfield := hwf.mem_fields_of_variant ho hv
  have hvariant := ((hwf.mem_variants o v).mp hv).2
  have hside : (w.shape kind == .upFromPrivate || (w.chain.oneof o).deprecated) = false →
      w.facesNext kind ∧ (w.chain.oneof o).deprecated = false := by
    intro hnext
    obtain ⟨hshape, hlive⟩ := Bool.or_eq_false_iff.mp hnext
    exact ⟨facesNext_of_shape hup hshape, hlive⟩
  have hlink := upLink_variant h hok ho hv _ hside
  have hown : (oneofs.map (·.occurrences o (w.chain.field v))).sum =
      if leavesOut (w.shape kind == .upFromPrivate || (w.chain.oneof o).deprecated)
        (w.chain.field v)
        then 0 else 1 := by
    refine sum_map_eq_of_forall₂ honeofs (hwf.nodup_oneofs id) (List.mem_map_of_mem ho) ?_ ?_
    · intro part hpart
      have hcount :=
        upOneof_occurrences hpart (hfields.nodup_variants hwf o) (List.mem_map_of_mem hv) ?_ hlink
      · rwa [hid o ho] at hcount
      · intro _ hmem hne hname
        obtain ⟨g, hg, rfl⟩ := List.mem_map.mp hmem
        exact hne (congrArg w.chain.field (hfields.variant_eq hwf hg hv hname))
    · intro _ hmem hne part hpart
      obtain ⟨i, hi, rfl⟩ := List.mem_map.mp hmem
      apply upOneof_occurrences_of_ne hpart
      · rw [hid i hi]
        exact fun heq => hne (congrArg w.chain.oneof heq)
      · intro _ hmem' hname
        obtain ⟨g, hg, rfl⟩ := List.mem_map.mp hmem'
        obtain rfl := hfields.eq (hwf.mem_fields_of_variant hi hg) hfield hname
        -- a variant belongs to one oneof
        have hother := ((hwf.mem_variants i g).mp hg).2
        exact hne (congrArg w.chain.oneof (Option.some.inj (hother.symm.trans hvariant)))
  have hplain := sum_unconverted_eq_zero hfields heach hfield hvariant
  rw [hparts.armOccurrences_eq, hown, hplain, Nat.add_zero]

/-- **Coverage.** A converter that leads up accounts for every member of its message. -/
theorem covers_of_messageConverter : x.Covers w.chain := by
  have hspec := messageConverter_spec hok
  constructor
  case fields =>
    rw [hspec.message]
    exact fun f hf hplain => occurrences_eq_one h hfields hok hup hf hplain
  case oneofs =>
    rw [hspec.message]
    exact fun o ho => countP_oneofs_eq_one h hok hup ho
  case variants =>
    rw [hspec.message, hspec.shape]
    intro o ho v hv
    have hnotDown : w.shape kind ≠ .down := by simp [hup]
    rw [armOccurrences_eq h hfields hok hup ho hv]
    congr 1
    cases hshape : w.shape kind <;> simp_all [leavesOut]

end

end View

namespace Plan

variable {plan : Plan}

/-- **Coverage on the way up.** In a generated plan, with field names unique in each message, every
    converter that leads up accounts for every member of its message.  It leaves out just the
    deprecated variants of live oneofs, if it reads the next version's record. -/
theorem covers_of_generate {set : DescriptorSet} {config : Config}
    (h : generate set config = .ok plan) (hfields : plan.chain.UniqueFields) {vp : VersionPlan}
    (hvp : vp ∈ plan.versions) {function : String}
    {x : MessageConverter} (hx : (function, .message x) ∈ vp.converters) (hup : x.shape ≠ .down) :
    x.Covers plan.chain := by
  have hplan := generated_of_generate h
  obtain ⟨v, -, hspecified⟩ := hplan.exists_specified hvp
  obtain ⟨-, table, hok⟩ := hspecified function _ hx
  obtain ⟨y, hy, hmessage, -⟩ := View.converter_of_message hok
  obtain rfl := Converter.message.inj hy
  have hkind : x.kind.isDown = false := by
    rw [(View.messageConverter_spec hmessage).shape, ne_eq, View.shape_eq_down] at hup
    exact Bool.eq_false_iff.mpr hup
  exact View.covers_of_messageConverter hplan.linked hfields hmessage hkind

set_option maxRecDepth 10000 in
/-- What is checked of the sample by evaluation: message 0 is the person of the first version, field
    0 its mail address. -/
theorem contactPlan_converters :
    (contactPlan.chain.message ⟨0⟩).oneofs = [⟨0⟩] ∧
      (contactPlan.chain.oneof ⟨0⟩).fields = [⟨0⟩, ⟨1⟩] ∧
      (contactPlan.chain.field ⟨0⟩).deprecated = true ∧
        (contactPlan.chain.oneof ⟨0⟩).deprecated = false ∧
      (contactPlan.versions.any fun vp => vp.converters.any fun e => match e.2 with
        | .message x => x.message == ⟨0⟩ && x.shape == .upFromNext &&
          x.armOccurrences ⟨0⟩ (contactPlan.chain.field ⟨0⟩) == 0
        | .enumeration _ => false) = true := by decide +kernel

/-- A converter of the sample that reads the next version's record. -/
theorem exists_contactPlan_converter : ∃ vp function x, vp ∈ contactPlan.versions ∧
    (function, Converter.message x) ∈ vp.converters ∧ x.message = ⟨0⟩ ∧ x.shape = .upFromNext ∧
      x.armOccurrences ⟨0⟩ (contactPlan.chain.field ⟨0⟩) = 0 := by
  obtain ⟨vp, hvp, hany⟩ := List.any_eq_true.mp contactPlan_converters.2.2.2.2
  obtain ⟨⟨function, x⟩, hx, hcheck⟩ := List.any_eq_true.mp hany
  cases x with
  | message x =>
    simp only [Bool.and_eq_true, beq_iff_eq] at hcheck
    exact ⟨vp, function, x, hvp, hx, hcheck.1.1, hcheck.1.2, hcheck.2⟩
  | enumeration x => cases hcheck

/-- The converter of the person of the first version. -/
theorem covers_contactPlan : ∃ vp function x, vp ∈ contactPlan.versions ∧
    (function, Converter.message x) ∈ vp.converters ∧ x.message = ⟨0⟩ ∧ x.shape ≠ .down ∧
      contactPlan.chain.UniqueFields ∧ x.Covers contactPlan.chain := by
  obtain ⟨vp, function, x, hvp, hx, hmessage, hshape, -⟩ := exists_contactPlan_converter
  have hup : x.shape ≠ .down := by simp [hshape]
  have hfields := contactPlan_checked.2.uniqueFields
  exact ⟨vp, function, x, hvp, hx, hmessage, hup, hfields,
    covers_of_generate generate_contactSet hfields hvp hx hup⟩

/-- **Deprecated variants can be left out.** The mail address of the first version is a variant of a
    contact that is not deprecated, but neither an arm nor what is unconverted has it. -/
theorem not_covered_mail :
    generate contactSet {} = .ok contactPlan ∧ contactPlan.chain.UniqueFields ∧
    ∃ vp function x, vp ∈ contactPlan.versions ∧ (function, Converter.message x) ∈ vp.converters ∧
      x.shape = .upFromNext ∧ ⟨0⟩ ∈ (contactPlan.chain.message x.message).oneofs ∧
      ⟨0⟩ ∈ (contactPlan.chain.oneof ⟨0⟩).fields ∧ (contactPlan.chain.field ⟨0⟩).deprecated = true ∧
      (contactPlan.chain.oneof ⟨0⟩).deprecated = false ∧
      x.armOccurrences ⟨0⟩ (contactPlan.chain.field ⟨0⟩) = 0 := by
  obtain ⟨honeofs, hvariants, hdeprecated, hlive, -⟩ := contactPlan_converters
  obtain ⟨vp, function, x, hvp, hx, hmessage, hshape, hnone⟩ := exists_contactPlan_converter
  refine ⟨generate_contactSet, contactPlan_checked.2.uniqueFields, vp, function, x, hvp, hx,
    hshape, ?_, ?_, hdeprecated, hlive, hnone⟩
  · rw [hmessage, honeofs]
    exact List.mem_cons_self
  · rw [hvariants]
    exact List.mem_cons_self

end Plan

end Lineage
