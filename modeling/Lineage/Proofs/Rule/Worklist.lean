import Lineage.Proofs.Plan.Sample
import Lineage.Proofs.Rule.Derive
import Lineage.Proofs.Rule.Reach

namespace Lineage

/-!
# Loops that find what is validated

* `Chain.Saturates` — rounds of adding what holds something that requires validation, until a round
  adds nothing; `saturates_iff` — they end, with the messages that require validation,
* `Worklist.Step` — one of the pending messages, whichever it is, validates what its fields require;
  `Worklist.accessible` — no order of them goes on for ever, `Worklist.validated_of_done` — every
  order ends with the messages that get a validator,
* `Chain.FindsValidated` — all that the derivation of rules finds out about a chain.
-/

namespace MessageSet

variable {s t : MessageSet} {m n : MessageId}

/-- A set that has more than a part of it has fewer missing. -/
theorem Le.missing_lt (h : s.Le t) (hm : t.contains m) (hnot : ¬ s.contains m) :
    t.missing < s.missing := by
  by_contra hle
  have heq : t = s := h.eq_of_missing_le (Nat.le_of_not_lt hle)
  exact hnot (heq ▸ hm)

/-- What is contained has been there, or is one of what was inserted. -/
theorem contains_foldl_insert (ns : List MessageId) : (ns.foldl insert s).contains m ↔
    s.contains m ∨ (m ∈ ns ∧ m.index < s.marks.size) := by
  induction ns generalizing s with
  | nil => simp
  | cons n ns ih =>
    rw [List.foldl_cons, ih, contains_insert, ← (s.le_insert n).size_eq, List.mem_cons]
    constructor
    · rintro ((h | ⟨rfl, h⟩) | ⟨hm, h⟩)
      · exact .inl h
      · exact .inr ⟨.inl rfl, h⟩
      · exact .inr ⟨.inr hm, h⟩
    · rintro (h | ⟨rfl | hm, h⟩)
      · exact .inl (.inl h)
      · exact .inl (.inr ⟨rfl, h⟩)
      · exact .inr ⟨hm, h⟩

end MessageSet

namespace Chain

variable {c : Chain}

/-! ### Rounds -/

/-- What a round adds: the messages that are not in the set and have a field whose type is. -/
def newHolders (c : Chain) (s : MessageSet) : List MessageId :=
  (c.messages.toList.filter fun m =>
    !s.contains m.id && (c.nestedMessages m).any s.contains).map (·.id)

/-- Rounds from one set to another one, until a round adds nothing. -/
inductive Saturates (c : Chain) : MessageSet → MessageSet → Prop where
  | done {s : MessageSet} (h : c.newHolders s = []) : Saturates c s s
  | round {s t : MessageSet} (h : c.newHolders s ≠ [])
      (rest : Saturates c ((c.newHolders s).foldl MessageSet.insert s) t) : Saturates c s t

/-- New holders nest something of the set and are not in it yet. -/
theorem mem_newHolders (hwf : c.WellFormed) {s : MessageSet} {m : MessageId} :
    m ∈ c.newHolders s ↔ ¬ s.contains m ∧ ∃ n, c.Nests m n ∧ s.contains n := by
  simp only [newHolders, List.mem_map, List.mem_filter, Array.mem_toList_iff, Bool.and_eq_true,
    Bool.not_eq_true', List.any_eq_true]
  constructor
  · rintro ⟨x, ⟨hx, hnot, n, hn, hcontains⟩, rfl⟩
    obtain ⟨-, hself⟩ := hwf.message_of_mem hx
    rw [← hself] at hn
    exact ⟨by simp [hnot], n, mem_nestedMessages.mp hn, hcontains⟩
  · rintro ⟨hnot, n, hn, hcontains⟩
    have hm := (hn.lt hwf).1
    refine ⟨c.message m, ⟨mem_message hm, ?_, n, mem_nestedMessages.mpr hn, hcontains⟩, ?_⟩
    · simpa [hwf.message_id hm] using hnot
    · exact hwf.message_id hm

/-- Rounds end: each but the last one adds a message. -/
theorem exists_saturates (hwf : c.WellFormed) (s : MessageSet)
    (hsize : s.marks.size = c.messages.size) : ∃ t, c.Saturates s t := by
  induction hk : s.missing using Nat.strong_induction_on generalizing s with
  | _ k ih =>
    by_cases hnew : c.newHolders s = []
    · exact ⟨s, .done hnew⟩
    · let next := (c.newHolders s).foldl MessageSet.insert s
      have hle : s.Le next := MessageSet.le_foldl MessageSet.le_insert _ s
      obtain ⟨m, hm⟩ := List.exists_mem_of_ne_nil _ hnew
      obtain ⟨hnot, n, hn, -⟩ := (mem_newHolders hwf).mp hm
      have hadded : next.contains m :=
        (MessageSet.contains_foldl_insert _).mpr (.inr ⟨hm, hsize ▸ (hn.lt hwf).1⟩)
      obtain ⟨t, ht⟩ := ih next.missing (hk ▸ hle.missing_lt hadded hnot) next
        (hle.size_eq.symm.trans hsize) rfl
      exact ⟨t, .round hnew ht⟩

/-- Where rounds end that started with nothing but what requires validation, and all that demands
    it. -/
theorem Saturates.eq_demanding (hwf : c.WellFormed) (hmarked : c.Marked) {s t : MessageSet}
    (h : c.Saturates s t) (hsize : s.marks.size = c.messages.size) (hwithin : s.Within c.Requires)
    (hdemands : ∀ m, c.Demands m → s.contains m) : t = c.demanding := by
  induction h with
  | @done s hnew =>
    refine MessageSet.eq_of_contains (hsize.trans c.size_demanding.symm) fun m => ?_
    rw [contains_demanding hwf hmarked]
    refine ⟨hwithin m, fun h => h.contained (fun {m n} hn hcontains => ?_) (hdemands _)⟩
    -- a message that holds one of the set would be new
    by_contra hnot
    have hm : m ∈ c.newHolders s := (mem_newHolders hwf).mpr ⟨hnot, n, hn, hcontains⟩
    rw [hnew] at hm
    exact nomatch hm
  | @round s t hnew rest ih =>
    have hle : s.Le ((c.newHolders s).foldl MessageSet.insert s) :=
      MessageSet.le_foldl MessageSet.le_insert _ s
    refine ih (hle.size_eq.symm.trans hsize) (hwithin.foldl fun m hm t ht => ht.insert ?_)
      fun m hm => hle.contains (hdemands m hm)
    obtain ⟨-, n, hn, hcontains⟩ := (mem_newHolders hwf).mp hm
    exact Requires.of_nests (hwithin n hcontains) hn

/-- **Rounds end with the messages that require validation.** -/
theorem saturates_iff (hwf : c.WellFormed) (hmarked : c.Marked) {t : MessageSet} :
    c.Saturates (.ofChain c c.demandsItself) t ↔ t = c.demanding := by
  have hsize : (MessageSet.ofChain c c.demandsItself).marks.size = c.messages.size := Array.size_map
  have hend {t : MessageSet} (h : c.Saturates (.ofChain c c.demandsItself) t) : t = c.demanding :=
    h.eq_demanding hwf hmarked hsize
      (fun m hm => ⟨m, .refl, (contains_demandsItself hmarked).mp hm⟩)
      fun m hm => (contains_demandsItself hmarked).mpr hm
  refine ⟨hend, fun h => ?_⟩
  obtain ⟨t', ht'⟩ := exists_saturates hwf _ hsize
  rwa [h, ← hend ht']

end Chain

/-! ### A worklist -/

/-- The messages that are validated so far, and those of them whose fields are still to be looked
    at. -/
structure Worklist where
  validated : MessageSet
  pending : List MessageId

namespace Worklist

/-- The type of a field: if it requires validation and is not validated yet, it is so from now on,
    and pending. -/
def visit (demanding : MessageSet) (w : Worklist) (n : MessageId) : Worklist :=
  if demanding.contains n && !w.validated.contains n then
    { validated := w.validated.insert n, pending := w.pending ++ [n] }
  else w

/-- The types of all fields of a message. -/
def expand (c : Chain) (demanding : MessageSet) (w : Worklist) (m : MessageId) : Worklist :=
  (c.nestedMessages (c.message m)).foldl (visit demanding) w

/-- One of the pending messages is taken off, wherever it stands, and the types of its fields are
    visited. -/
inductive Step (c : Chain) (demanding : MessageSet) : Worklist → Worklist → Prop where
  | take (validated : MessageSet) (before : List MessageId) (m : MessageId)
      (after : List MessageId) : Step c demanding ⟨validated, before ++ m :: after⟩
        (expand c demanding ⟨validated, before ++ after⟩ m)

/-- The roots are validated, and they are pending in any order. -/
structure Starts (c : Chain) (w : Worklist) : Prop where
  validated : w.validated = .ofChain c Chain.isRoot
  pending : ∀ m, m ∈ w.pending ↔ w.validated.contains m

variable {c : Chain} {demanding : MessageSet} {w w' : Worklist} {m n : MessageId}

/-- How many steps there may be. -/
def bound (w : Worklist) : Nat := w.pending.length + w.validated.missing

/-- A visit adds only. -/
theorem visit_le (demanding : MessageSet) (w : Worklist) (n : MessageId) :
    w.validated.Le (visit demanding w n).validated := by
  unfold visit
  split
  · exact w.validated.le_insert n
  · exact .refl _

/-- A visit adds the message if it demands validation. -/
theorem visit_validated (hn : n.index < w.validated.marks.size) :
    (visit demanding w n).validated.contains m ↔
      w.validated.contains m ∨ (m = n ∧ demanding.contains m) := by
  unfold visit
  -- by whether the message requires validation, and whether that is known already
  cases hd : demanding.contains n <;> cases hv : w.validated.contains n
  · simp only [Bool.false_and, Bool.false_eq_true, if_false, iff_self_or]
    rintro ⟨rfl, h⟩
    simp [hd] at h
  · simp only [Bool.false_and, Bool.false_eq_true, if_false, iff_self_or]
    rintro ⟨rfl, h⟩
    exact hv
  · simp only [Bool.not_false, Bool.and_self, if_true, MessageSet.contains_insert]
    refine or_congr_right ⟨?_, ?_⟩
    · rintro ⟨rfl, -⟩
      exact ⟨rfl, hd⟩
    · rintro ⟨rfl, -⟩
      exact ⟨rfl, hn⟩
  · simp only [Bool.not_true, Bool.and_false, Bool.false_eq_true, if_false, iff_self_or]
    rintro ⟨rfl, -⟩
    exact hv

/-- Whatever is visited is either pending as before, or it is pending since it is new. -/
theorem visit_pending : m ∈ (visit demanding w n).pending ↔
    m ∈ w.pending ∨ (m = n ∧ demanding.contains m ∧ ¬ w.validated.contains m) := by
  unfold visit
  split
  · rename_i h
    rw [Bool.and_eq_true, Bool.not_eq_true'] at h
    rw [List.mem_append, List.mem_singleton]
    refine or_congr_right (iff_self_and.mpr ?_)
    rintro rfl
    simp [h.1, h.2]
  · rename_i h
    refine (or_iff_left ?_).symm
    rintro ⟨rfl, hd, hv⟩
    simp [hd, hv] at h

/-- A visit leaves no more to do than before. -/
theorem visit_bound (hn : n.index < w.validated.marks.size) :
    (visit demanding w n).bound ≤ w.bound := by
  unfold visit
  split
  · rename_i h
    rw [Bool.and_eq_true, Bool.not_eq_true'] at h
    have hlt :=
      (w.validated.le_insert n).missing_lt (MessageSet.contains_insert_self hn) (by simp [h.2])
    simp only [bound, List.length_append, List.length_singleton]
    omega
  · exact Nat.le_refl _

/-- All types of a list: each that requires validation is validated, and pending if it was not
    validated. -/
theorem foldl_visit (demanding : MessageSet) (ns : List MessageId)
    (hns : ∀ n ∈ ns, n.index < w.validated.marks.size) :
    let w' := ns.foldl (visit demanding) w
    w'.validated.marks.size = w.validated.marks.size ∧ w'.bound ≤ w.bound ∧
    (∀ m, w'.validated.contains m ↔ w.validated.contains m ∨ (m ∈ ns ∧ demanding.contains m)) ∧
    ∀ m, m ∈ w'.pending ↔
      m ∈ w.pending ∨ (m ∈ ns ∧ demanding.contains m ∧ ¬ w.validated.contains m) := by
  induction ns generalizing w with
  | nil => simp
  | cons n ns ih =>
    have hn := hns n List.mem_cons_self
    have hsize := (visit_le demanding w n).size_eq
    obtain ⟨hsize', hbound, hvalidated, hpending⟩ := ih (w := visit demanding w n)
      fun k hk => hsize ▸ hns k (List.mem_cons_of_mem n hk)
    refine ⟨hsize'.trans hsize.symm, Nat.le_trans hbound (visit_bound hn), fun m => ?_, fun m => ?_⟩
    · rw [List.foldl_cons, hvalidated, visit_validated hn, List.mem_cons]
      tauto
    · rw [List.foldl_cons, hpending, visit_validated hn, visit_pending, List.mem_cons]
      tauto

/-! ### Every order of steps -/

/-- A step leaves less to do. -/
theorem bound_lt (hwf : c.WellFormed) (h : Step c demanding w w')
    (hsize : w.validated.marks.size = c.messages.size) :
    w'.bound < w.bound ∧ w'.validated.marks.size = c.messages.size := by
  obtain ⟨s, before, m, after⟩ := h
  obtain ⟨hsize', hbound, -⟩ := foldl_visit (w := ⟨s, before ++ after⟩) demanding
    (c.nestedMessages (c.message m)) fun n hn => hsize ▸ ((Chain.mem_nestedMessages.mp hn).lt hwf).2
  refine ⟨Nat.lt_of_le_of_lt hbound ?_, hsize'.trans hsize⟩
  simp only [bound, List.length_append, List.length_cons]
  omega

/-- **Steps end**, whichever message each of them takes. -/
theorem accessible (hwf : c.WellFormed) (w : Worklist)
    (hsize : w.validated.marks.size = c.messages.size) :
    Acc (fun later earlier => Step c demanding earlier later) w := by
  induction hk : w.bound using Nat.strong_induction_on generalizing w with
  | _ k ih =>
    refine ⟨w, fun w' hstep => ?_⟩
    obtain ⟨hlt, hsize'⟩ := bound_lt hwf hstep hsize
    exact ih w'.bound (hk ▸ hlt) w' hsize' rfl

/-- What holds of a worklist all along: what is validated is to be so, has all roots, and has what
    the fields of its messages require, except of those that are pending. -/
structure Tracked (c : Chain) (w : Worklist) : Prop where
  size : w.validated.marks.size = c.messages.size
  within : w.validated.Within c.Validates
  roots : ∀ r, c.Roots r → w.validated.contains r
  pending : ∀ m ∈ w.pending, w.validated.contains m
  closed :
    ∀ m n, c.NestsRequired m n → w.validated.contains m → w.validated.contains n ∨ m ∈ w.pending

/-- A worklist that starts is tracked. -/
theorem Starts.tracked (h : Starts c w) (hmarked : c.Marked) : Tracked c w where
  size := by
    rw [h.validated]
    exact Array.size_map
  within m hm := by
    rw [h.validated] at hm
    exact ⟨m, (Chain.contains_roots hmarked).mp hm, .refl⟩
  roots r hr := by
    rw [h.validated]
    exact (Chain.contains_roots hmarked).mpr hr
  pending m hm := (h.pending m).mp hm
  closed m _ _ hm := .inr ((h.pending m).mpr hm)

/-- A step keeps a worklist tracked. -/
theorem Tracked.step (hwf : c.WellFormed) (hmarked : c.Marked) (h : Tracked c w)
    (hstep : Step c c.demanding w w') : Tracked c w' := by
  obtain ⟨s, before, m, after⟩ := hstep
  obtain ⟨hsize, -, hvalidated, hpending⟩ := foldl_visit (w := ⟨s, before ++ after⟩) c.demanding
    (c.nestedMessages (c.message m))
    fun n hn => h.size ▸ ((Chain.mem_nestedMessages.mp hn).lt hwf).2
  have hvisited (n : MessageId) : (n ∈ c.nestedMessages (c.message m) ∧ c.demanding.contains n) ↔
      c.NestsRequired m n :=
    and_congr Chain.mem_nestedMessages (Chain.contains_demanding hwf hmarked)
  have hm : s.contains m := h.pending m (by simp)
  refine ⟨hsize.trans h.size, fun n hn => ?_, fun r hr => ?_, fun n hn => ?_, fun k n hkn hk => ?_⟩
  · obtain hn | hn := (hvalidated n).mp hn
    · exact h.within n hn
    · exact (h.within m hm).nested ((hvisited n).mp hn)
  · exact (hvalidated r).mpr (.inl (h.roots r hr))
  · obtain hn | ⟨hn, hd, -⟩ := (hpending n).mp hn
    · exact (hvalidated n).mpr (.inl (h.pending n (by simp at hn ⊢; tauto)))
    · exact (hvalidated n).mpr (.inr ⟨hn, hd⟩)
  · -- the message that was taken off has been dealt with; of the others, new ones are pending
    by_cases hkm : k = m
    · exact .inl ((hvalidated n).mpr (.inr ((hvisited n).mpr (hkm ▸ hkn))))
    · by_cases hold : s.contains k
      · obtain hn | hn := h.closed k n hkn hold
        · exact .inl ((hvalidated n).mpr (.inl hn))
        · exact .inr ((hpending k).mpr (.inl (by simp at hn ⊢; tauto)))
      · obtain hk | ⟨hk, hd⟩ := (hvalidated k).mp hk
        · exact absurd hk hold
        · exact .inr ((hpending k).mpr (.inr ⟨hk, hd, hold⟩))

/-- A run keeps a worklist tracked. -/
theorem Tracked.steps (hwf : c.WellFormed) (hmarked : c.Marked) (h : Tracked c w)
    (hrun : Relation.ReflTransGen (Step c c.demanding) w w') : Tracked c w' := by
  induction hrun with
  | refl => exact h
  | tail _ hstep ih => exact ih.step hwf hmarked hstep

/-- **Steps end with the messages that get a validator**, once nothing is pending. -/
theorem validated_of_done (hwf : c.WellFormed) (hmarked : c.Marked) (h : Tracked c w)
    (hdone : w.pending = []) : w.validated = c.validated c.demanding := by
  refine MessageSet.eq_of_contains (h.size.trans (c.size_validated _).symm) fun m => ?_
  rw [Chain.contains_validated hwf hmarked]
  refine ⟨h.within m, fun hm => hm.contained (fun {m n} hn hcontains => ?_) (h.roots _)⟩
  have hclosed := h.closed m n hn hcontains
  simpa [hdone] using hclosed

end Worklist

/-! ### What is found out -/

namespace Chain

/-- What a derivation of rules has found out about a chain. -/
structure FindsValidated (c : Chain) (d : Rule.Derivation) : Prop where
  /-- Rounds that start with what demands validation for its own sake end, with what requires it. -/
  rounds : ∀ s, c.Saturates (.ofChain c c.demandsItself) s ↔ s = d.demanding
  /-- A worklist that starts with the roots does not go on for ever. -/
  ends : ∀ w, Worklist.Starts c w →
    Acc (fun later earlier => Worklist.Step c d.demanding earlier later) w
  /-- Whatever order it takes, it goes on until it has what gets a validator. -/
  done : ∀ w w', Worklist.Starts c w → Relation.ReflTransGen (Worklist.Step c d.demanding) w w' →
    (∃ w'', Worklist.Step c d.demanding w' w'') ∨ (w'.pending = [] ∧ w'.validated = d.validated)
  /-- What requires validation reaches a message that is used by a method, or has a directive or a
      required oneof. -/
  requires : ∀ m, d.demanding.contains m ↔ c.Requires m
  /-- What gets a validator is reached from a root through types that require validation. -/
  validates : ∀ m, d.validated.contains m ↔ c.Validates m
  /-- Nested rules of validated messages lead to validated messages. -/
  nested : ∀ m, d.validated.contains m → ∀ f ∈ (c.message m).fields, ∀ rules,
    d.fieldRules f = .ok rules → ∀ n, .nested n ∈ rules → d.validated.contains n

variable {c : Chain}

/-- **Validation requirements are least fixpoints.** For every chain as it is built, the loops that
    find what requires validation and what gets a validator end, and what they find is what is
    reached. -/
theorem findsValidated_of_ofPackages {source : AnnotationSource} {privatePackage : String}
    {packages : List PackageSchema} (h : ofPackages source privatePackage packages = .ok c) :
    c.FindsValidated (.ofChain c) := by
  have hwf := (linked_of_ofPackages h).framed.wellFormed
  have hmarked := marked_of_ofPackages h
  have hrequires (m : MessageId) := contains_demanding (m := m) hwf hmarked
  have hvalidates (m : MessageId) := contains_validated (m := m) hwf hmarked
  refine ⟨fun s => saturates_iff hwf hmarked, fun w hw => ?_, fun w w' hw hrun => ?_, hrequires,
    hvalidates, fun m hm f hf rules hrules n hn => ?_⟩
  · exact Worklist.accessible hwf w (hw.tracked hmarked).size
  · have htracked := (hw.tracked hmarked).steps hwf hmarked hrun
    -- either a message is pending and can be taken off, or the run is done
    cases hpending : w'.pending with
    | nil => exact .inr ⟨rfl, Worklist.validated_of_done hwf hmarked htracked hpending⟩
    | cons m rest =>
      obtain ⟨validated, pending⟩ := w'
      obtain rfl : pending = m :: rest := hpending
      exact .inl ⟨_, .take validated [] m rest⟩
  · obtain ⟨htype, hd⟩ := (Rule.Derivation.fieldRules_nested hrules n).mp hn
    have hnests : c.NestsRequired m n := ⟨⟨f, hf, htype⟩, (hrequires n).mp hd⟩
    exact (hvalidates n).mpr (((hvalidates m).mp hm).nested hnests)

/-- The plan of requests with parts. -/
def partsPlan : Plan := (Plan.generate Plan.partsSet {}).toOption.getD {}

set_option maxRecDepth 10000 in
/-- Parts and groups hold each other.  No method takes or returns a part, and none has a oneof: it
    is the directive on its name alone that makes parts require validation, and groups and requests
    with them. -/
theorem findsValidated_parts : ∃ source privatePackage packages,
    ofPackages source privatePackage packages = .ok partsPlan.chain ∧
    partsPlan.chain.Nests ⟨1⟩ ⟨2⟩ ∧ partsPlan.chain.Nests ⟨2⟩ ⟨1⟩ ∧
    ¬partsPlan.chain.IsRequest ⟨1⟩ ∧ ¬partsPlan.chain.IsResponse ⟨1⟩ ∧
    (partsPlan.chain.message ⟨1⟩).oneofs = [] ∧ partsPlan.chain.Requires ⟨1⟩ ∧
    partsPlan.chain.Validates ⟨2⟩ ∧ partsPlan.chain.FindsValidated (.ofChain partsPlan.chain) := by
  obtain ⟨hok, hpart, hgroup, hrequest, hresponse, honeofs, hrequires, hvalidates⟩ :
      (Plan.generate Plan.partsSet {}).toOption.isSome = true ∧
      ⟨2⟩ ∈ partsPlan.chain.nestedMessages (partsPlan.chain.message ⟨1⟩) ∧
      ⟨1⟩ ∈ partsPlan.chain.nestedMessages (partsPlan.chain.message ⟨2⟩) ∧
      (partsPlan.chain.message ⟨1⟩).isInput = false ∧
      (partsPlan.chain.message ⟨1⟩).isOutput = false ∧
      (partsPlan.chain.message ⟨1⟩).oneofs = [] ∧
      (Rule.Derivation.ofChain partsPlan.chain).demanding.contains ⟨1⟩ = true ∧
      (Rule.Derivation.ofChain partsPlan.chain).validated.contains ⟨2⟩ = true := by decide +kernel
  have hplan : Plan.generate Plan.partsSet {} = .ok partsPlan := Plan.eq_ok_of_isSome hok
  obtain ⟨source, privatePackage, packages, h⟩ := Plan.ofPackages_of_generate hplan
  have hfinds := findsValidated_of_ofPackages h
  have hmarked := marked_of_ofPackages h
  refine ⟨source, privatePackage, packages, h, mem_nestedMessages.mp hpart,
    mem_nestedMessages.mp hgroup, ?_, ?_, honeofs, (hfinds.requires _).mp hrequires,
    (hfinds.validates _).mp hvalidates, hfinds⟩
  · rw [← hmarked.requests, hrequest]
    exact Bool.false_ne_true
  · rw [← hmarked.responses, hresponse]
    exact Bool.false_ne_true

end Chain

end Lineage
