import Lineage.Proofs.Chain.Marked
import Lineage.Proofs.Rule.Demand

namespace Lineage

/-!
# Validation by reachability

* `Chain.Nests` — a field of one message has the other one as its type,
* `Chain.Demands` — what makes a message require validation for its own sake,
* `Chain.Requires` — a message from which such a message is reached; `contains_demanding` — these
  are the messages that require validation,
* `Chain.Validates` — what is reached from a root through types that require validation;
  `contains_validated` — these are the messages that get a validator.

Each set holds what it should since its rounds add nothing else, and all of it since they end in a
closed set.
-/

namespace MessageSet

variable {s t : MessageSet} {m n : MessageId}

/-- What is contained has been there, or has been inserted. -/
theorem contains_insert : (s.insert n).contains m ↔
    s.contains m ∨ (n = m ∧ n.index < s.marks.size) := by
  unfold contains insert
  rw [Array.getD_eq_getD_getElem?, Array.getD_eq_getD_getElem?, Array.getElem?_setIfInBounds]
  by_cases hn : n.index = m.index
  · rw [if_pos hn, MessageId.ext_iff, hn]
    by_cases hm : m.index < s.marks.size <;> simp [hm]
  · simp [hn, MessageId.ext_iff]

/-- The messages of a chain with a property are contained. -/
theorem contains_ofChain {c : Chain} {p : Message → Bool} :
    (ofChain c p).contains m ↔ m.index < c.messages.size ∧ p (c.message m) := by
  unfold contains ofChain
  by_cases hm : m.index < c.messages.size
  · rw [Array.getD_eq_getD_getElem?, getElem?_map_getD hm default, Option.getD_some]
    simp [hm, Chain.message]
  · simp [Array.getD_eq_getD_getElem?, hm]

/-- A set of messages is what it contains. -/
theorem eq_of_contains (hsize : s.marks.size = t.marks.size)
    (h : ∀ m, s.contains m ↔ t.contains m) : s = t := by
  refine congrArg MessageSet.mk (Array.ext hsize fun k hs ht => ?_)
  have hk := h ⟨k⟩
  rw [contains, contains, Array.getD_eq_getD_getElem?, Array.getD_eq_getD_getElem?,
    Array.getElem?_eq_getElem hs, Array.getElem?_eq_getElem ht] at hk
  exact Bool.eq_iff_iff.mpr hk

/-- All messages of the set have a property. -/
def Within (s : MessageSet) (P : MessageId → Prop) : Prop := ∀ m, s.contains m → P m

variable {P : MessageId → Prop}

/-- One message more with the property. -/
theorem Within.insert (hs : s.Within P) (hn : P n) : (s.insert n).Within P := by
  intro m hm
  obtain hm | ⟨rfl, -⟩ := contains_insert.mp hm
  · exact hs m hm
  · exact hn

/-- A loop that adds messages with the property only. -/
theorem Within.foldl {α : Type} {f : MessageSet → α → MessageSet} {xs : List α} (hs : s.Within P)
    (hf : ∀ x ∈ xs, ∀ t : MessageSet, t.Within P → (f t x).Within P) : (xs.foldl f s).Within P :=
  List.foldlRecOn (motive := fun t => t.Within P) xs f hs fun t ht x hx => hf x hx t ht

end MessageSet

/-- Rounds keep what each of them keeps. -/
theorem iterate_preserves {α : Type} {P : α → Prop} {step : α → α} (hstep : ∀ a, P a → P (step a))
    (rounds : Nat) {a : α} (h : P a) : P (iterate step rounds a) := by
  induction rounds generalizing a with
  | zero => exact h
  | succ n ih => exact ih (hstep a h)

/-- A directive constrains the values of a field: one must be set, they have a bound, they are among
    some members, or they have a format. -/
inductive ValidateDirectives.Constrains (d : ValidateDirectives) : Prop where
  | required (h : d.required = true)
  | min {text : String} (h : d.min = some text)
  | max {text : String} (h : d.max = some text)
  | members {texts : List String} (h : d.members = some texts)
  | format {name : String} (h : d.format = some name)

/-- A directive counts as declared exactly if it constrains the values of its field. -/
theorem ValidateDirectives.isDeclared_iff {d : ValidateDirectives} :
    d.isDeclared ↔ d.Constrains := by
  simp only [isDeclared, Bool.or_eq_true, Option.isSome_iff_exists]
  constructor
  · rintro ((((h | ⟨_, h⟩) | ⟨_, h⟩) | ⟨_, h⟩) | ⟨_, h⟩)
    · exact .required h
    · exact .min h
    · exact .max h
    · exact .members h
    · exact .format h
  · rintro (h | h | h | h | h) <;> simp [h]

namespace Chain

variable {c : Chain} {m n : MessageId}

/-! ### Messages inside messages -/

/-- A field of a message has the other one as its type. -/
def Nests (c : Chain) (m n : MessageId) : Prop :=
  ∃ f ∈ (c.message m).fields, (c.field f).typeRef = some (.message n)

/-- The nested messages of a message are what it nests. -/
theorem mem_nestedMessages : n ∈ c.nestedMessages (c.message m) ↔ c.Nests m n := by
  rw [nestedMessages, List.mem_filterMap]
  refine exists_congr fun f => and_congr_right fun _ => ?_
  split
  · rename_i k htype
    simp [htype]
  · rename_i hother
    exact iff_of_false (fun h => nomatch h) (hother n)

/-- A message of the chain is at its position. -/
theorem WellFormed.message_of_mem (h : c.WellFormed) {x : Message} (hx : x ∈ c.messages) :
    x.id.index < c.messages.size ∧ c.message x.id = x := by
  have hlt : x.id.index < c.messages.size := id_lt h.messageIds hx
  obtain ⟨k, hk⟩ := Array.mem_iff_getElem?.mp hx
  have hkey : (c.messages.map (·.id.index))[k]? = some x.id.index := by
    rw [Array.getElem?_map, hk]; rfl
  have hksize : k < c.messages.size := (Array.getElem?_eq_some_iff.mp hk).1
  rw [h.messageIds] at hkey
  have hid : x.id.index = k := by simpa [hksize] using hkey.symm
  refine ⟨hlt, ?_⟩
  rw [message, Array.getD_eq_getD_getElem?, hid, hk, Option.getD_some]

/-- The message at a position is one of the chain. -/
theorem mem_message (hm : m.index < c.messages.size) : c.message m ∈ c.messages :=
  Array.mem_of_getElem? (getElem?_eq_some_getD hm default)

/-- The type of a field is a message of the chain, and so is the message of the field. -/
theorem Nests.lt (h : c.Nests m n) (hwf : c.WellFormed) :
    m.index < c.messages.size ∧ n.index < c.messages.size := by
  obtain ⟨f, hf, htype⟩ := h
  have hfield := (hwf.mem_fields m f).mp hf
  constructor
  · rw [← hfield.2]
    exact hwf.field_message_lt hfield.1
  · refine hwf.messageTypes f.index n.index ?_
    rw [getElem?_map_getD hfield.1 default, ← Chain.field, Field.messageType?, htype]
    rfl

/-! ### What requires validation -/

/-- What makes a message require validation for its own sake. -/
inductive Demands (c : Chain) (m : MessageId) : Prop where
  | request (h : c.IsRequest m)
  | response (h : c.IsResponse m)
  | directive {f : FieldId} (hf : f ∈ (c.message m).fields) (h : (c.field f).validate.Constrains)
  | oneof {o : OneofId} (ho : o ∈ (c.message m).oneofs) (h : (c.oneof o).required)

/-- A message is found to demand validation exactly if something makes it do so. -/
theorem demandsItself_iff (hmarked : c.Marked) : c.demandsItself (c.message m) ↔ c.Demands m := by
  simp only [demandsItself, Bool.or_eq_true, List.any_eq_true, hmarked.requests, hmarked.responses,
    ValidateDirectives.isDeclared_iff]
  constructor
  · rintro (((h | h) | ⟨f, hf, h⟩) | ⟨o, ho, h⟩)
    · exact .request h
    · exact .response h
    · exact .directive hf h
    · exact .oneof ho h
  · rintro (h | h | ⟨hf, h⟩ | ⟨ho, h⟩)
    · exact .inl (.inl (.inl h))
    · exact .inl (.inl (.inr h))
    · exact .inl (.inr ⟨_, hf, h⟩)
    · exact .inr ⟨_, ho, h⟩

/-- A message requires validation if one that demands it is reached from it through the types of
    fields. -/
def Requires (c : Chain) (m : MessageId) : Prop :=
  ∃ n, Relation.ReflTransGen c.Nests m n ∧ c.Demands n

/-- What nests something that requires validation requires it too. -/
theorem Requires.of_nests (hn : c.Requires n) (h : c.Nests m n) : c.Requires m := by
  obtain ⟨k, hreach, hk⟩ := hn
  exact ⟨k, .head h hreach, hk⟩

/-- What demands validation is a message of the chain. -/
theorem contains_demandsItself (hmarked : c.Marked) :
    (MessageSet.ofChain c c.demandsItself).contains m ↔ c.Demands m := by
  rw [MessageSet.contains_ofChain, demandsItself_iff hmarked, and_iff_right_iff_imp]
  intro h
  by_contra hm
  have hdemands := (demandsItself_iff hmarked).mpr h
  rw [message, getD_of_not_lt hm] at hdemands
  cases hdemands

/-- A set that is closed under holding, and has all that demands validation, has all that requires
    it. -/
theorem Requires.contained {s : MessageSet} (h : c.Requires m)
    (hclosed : ∀ {m n}, c.Nests m n → s.contains n → s.contains m)
    (hdemands : ∀ {n}, c.Demands n → s.contains n) : s.contains m := by
  obtain ⟨n, hreach, hn⟩ := h
  -- back along the path, from the message that demands validation
  induction hreach using Relation.ReflTransGen.head_induction_on with
  | refl => exact hdemands hn
  | head h _ ih => exact hclosed h ih

/-- What one message adds: itself, if the type of one of its fields is in the set. -/
def addHolder (c : Chain) (s : MessageSet) (m : Message) : MessageSet :=
  if (c.nestedMessages m).any s.contains then s.insert m.id else s

/-- Holders are added message by message. -/
theorem addHolders_eq (c : Chain) (s : MessageSet) :
    c.addHolders s = c.messages.toList.foldl c.addHolder s := by
  rw [addHolders, ← Array.foldl_toList]
  rfl

/-- Adding a holder adds only. -/
theorem le_addHolder (s : MessageSet) (m : Message) : s.Le (c.addHolder s m) := by
  unfold addHolder
  split
  · exact s.le_insert m.id
  · exact .refl s

/-- Adding holders adds only. -/
theorem le_addHolders (s : MessageSet) : s.Le (c.addHolders s) := by
  rw [addHolders_eq]
  exact MessageSet.le_foldl le_addHolder _ s

/-- A round adds only what holds something that the set has. -/
theorem addHolders_preserves (hwf : c.WellFormed) {P : MessageId → Prop}
    (hP : ∀ {m n}, c.Nests m n → P n → P m) {s : MessageSet} (hs : s.Within P) :
    (c.addHolders s).Within P := by
  rw [addHolders_eq]
  refine hs.foldl fun x hx t ht => ?_
  obtain ⟨-, hself⟩ := hwf.message_of_mem (Array.mem_toList_iff.mp hx)
  unfold addHolder
  split
  · rename_i hany
    obtain ⟨n, hn, hcontains⟩ := List.any_eq_true.mp hany
    rw [← hself] at hn
    exact ht.insert (hP (mem_nestedMessages.mp hn) (ht n hcontains))
  · exact ht

/-- A round adds all that holds something that the set has. -/
theorem contains_addHolders (hwf : c.WellFormed) {s : MessageSet}
    (hsize : s.marks.size = c.messages.size) (h : c.Nests m n) (hn : s.contains n) :
    (c.addHolders s).contains m := by
  have hm := (h.lt hwf).1
  obtain ⟨before, after, hsplit⟩ := List.append_of_mem (Array.mem_toList_iff.mpr (mem_message hm))
  rw [addHolders_eq, hsplit, List.foldl_append, List.foldl_cons]
  have hbefore := MessageSet.le_foldl (@le_addHolder c) before s
  refine (MessageSet.le_foldl le_addHolder after _).contains ?_
  rw [addHolder, if_pos, hwf.message_id hm]
  · exact MessageSet.contains_insert_self (by rwa [← hbefore.size_eq, hsize])
  · exact List.any_eq_true.mpr ⟨n, mem_nestedMessages.mpr h, hbefore.contains hn⟩

/-- What demands validation is a set over all messages. -/
theorem size_demanding (c : Chain) : c.demanding.marks.size = c.messages.size := by
  rw [demanding, ← (le_iterate le_addHolders _ _).size_eq]
  exact Array.size_map

/-- **What requires validation** is from where a message is reached that demands it. -/
theorem contains_demanding (hwf : c.WellFormed) (hmarked : c.Marked) :
    c.demanding.contains m ↔ c.Requires m := by
  constructor
  · -- no round adds anything else
    refine iterate_preserves (P := fun s : MessageSet => s.Within c.Requires)
      (fun s hs => addHolders_preserves hwf (fun h hn => Requires.of_nests hn h) hs) _
        (fun m hm => ?_) m
    exact ⟨m, .refl, (contains_demandsItself hmarked).mp hm⟩
  · intro h
    have hfixed : c.addHolders c.demanding = c.demanding := by
      refine iterate_fixed le_addHolders (Nat.le_trans (MessageSet.missing_le _) ?_)
      exact Nat.le_of_eq Array.size_map
    refine h.contained (fun h hn => ?_) fun hn => ?_
    · rw [← hfixed]
      exact contains_addHolders hwf c.size_demanding h hn
    · exact (le_iterate le_addHolders _ _).contains ((contains_demandsItself hmarked).mpr hn)

/-! ### What gets a validator -/

/-- A message gets a validator for its own sake: it is a request, or no response. -/
def Roots (c : Chain) (m : MessageId) : Prop :=
  m.index < c.messages.size ∧ (c.IsRequest m ∨ ¬ c.IsResponse m)

/-- A field of a message has the other one as its type, which requires validation. -/
def NestsRequired (c : Chain) (m n : MessageId) : Prop := c.Nests m n ∧ c.Requires n

/-- A message is validated if it is reached from a root through types that require validation. -/
def Validates (c : Chain) (m : MessageId) : Prop :=
  ∃ r, c.Roots r ∧ Relation.ReflTransGen c.NestsRequired r m

/-- What is nested in a validated message and requires validation is validated. -/
theorem Validates.nested (h : c.Validates m) (hn : c.NestsRequired m n) : c.Validates n := by
  obtain ⟨r, hr, hreach⟩ := h
  exact ⟨r, hr, hreach.tail hn⟩

/-- A set that is closed under nesting, and has all roots, has all that is validated. -/
theorem Validates.contained {s : MessageSet} (h : c.Validates m)
    (hclosed : ∀ {m n}, c.NestsRequired m n → s.contains m → s.contains n)
    (hroots : ∀ {r}, c.Roots r → s.contains r) : s.contains m := by
  obtain ⟨r, hr, hreach⟩ := h
  induction hreach with
  | refl => exact hroots hr
  | tail _ h ih => exact hclosed h ih

/-- The roots are the requests and what no method uses. -/
theorem contains_roots (hmarked : c.Marked) :
    (MessageSet.ofChain c isRoot).contains m ↔ c.Roots m := by
  rw [MessageSet.contains_ofChain, Roots, ← hmarked.requests, ← hmarked.responses]
  simp [isRoot]

/-- A round adds only what is required by something that the set has. -/
theorem addNested_preserves (hwf : c.WellFormed) {demanding : MessageSet} {P : MessageId → Prop}
    (hP : ∀ {m n}, c.Nests m n → demanding.contains n → P m → P n) {s : MessageSet}
    (hs : s.Within P) : (c.addNested demanding s).Within P := by
  rw [addNested_eq]
  refine hs.foldl fun x hx t ht => ?_
  obtain ⟨-, hself⟩ := hwf.message_of_mem (Array.mem_toList_iff.mp hx)
  unfold addNestedOf
  split
  · rename_i hcontains
    refine ht.foldl fun n hn u hu => hu.insert ?_
    obtain ⟨hnested, hdemanding⟩ := List.mem_filter.mp hn
    rw [← hself] at hnested
    exact hP (mem_nestedMessages.mp hnested) hdemanding (ht _ hcontains)
  · exact ht

/-- What is validated is a set over all messages. -/
theorem size_validated (c : Chain) (demanding : MessageSet) :
    (c.validated demanding).marks.size = c.messages.size := by
  rw [validated, ← (le_iterate le_addNested _ _).size_eq]
  exact Array.size_map

/-- **What gets a validator** is what is reached from a root through types that
    require validation. -/
theorem contains_validated (hwf : c.WellFormed) (hmarked : c.Marked) :
    (c.validated c.demanding).contains m ↔ c.Validates m := by
  constructor
  · refine iterate_preserves (P := fun s : MessageSet => s.Within c.Validates) (fun s hs => ?_) _
      (fun m hm => ⟨m, (contains_roots hmarked).mp hm, .refl⟩) m
    exact addNested_preserves hwf (fun h hn hm =>
      Validates.nested hm ⟨h, (contains_demanding hwf hmarked).mp hn⟩) hs
  · intro h
    refine h.contained (fun h hm => ?_) fun hr => ?_
    · obtain ⟨hlt, hlt'⟩ := h.1.lt hwf
      exact validated_nested hwf hlt hm (mem_nestedMessages.mpr h.1)
        ((contains_demanding hwf hmarked).mpr h.2) hlt'
    · obtain ⟨hlt, hroot⟩ := MessageSet.contains_ofChain.mp ((contains_roots hmarked).mpr hr)
      exact validated_of_isRoot hlt hroot

end Chain

end Lineage
