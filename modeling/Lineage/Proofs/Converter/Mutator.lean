import Lineage.Converter.Method
import Mathlib.Data.List.Nodup

namespace Lineage

/-!
# Which setters mutators have

* `View.Mutates` — a mutator is for the private request of a method, with setters of deprecated
  inputs,
* `View.mutators_sound` — every mutator is such a one,
* `View.mutators_complete` — every deprecated input has a setter for the private request of its
  method,
* `View.SetApart` — no message has two mutators, and no mutator two setters of one field;
  `View.mutators_setApart` — the mutators of methods are such ones.
-/

/-- The setter for a deprecated input. -/
def DeprecatedInput.setterOf (i : DeprecatedInput) : Setter :=
  { field := i.privateField, function := i.setter }

namespace View

variable {w : View}

/-- A setter has been there, or is the one that was added. -/
theorem mem_addSetter {setters : List Setter} {i : DeprecatedInput} {s : Setter}
    (h : s ∈ addSetter setters i) : s ∈ setters ∨ s = i.setterOf := by
  unfold addSetter at h
  split at h
  · exact .inl h
  · exact (List.mem_append.mp h).imp_right List.mem_singleton.mp

/-- A setter has been there, or is one of those that were added. -/
theorem mem_addSetters {setters : List Setter} {inputs : List DeprecatedInput} {s : Setter}
    (h : s ∈ inputs.foldl addSetter setters) : s ∈ setters ∨ ∃ i ∈ inputs, s = i.setterOf := by
  induction inputs generalizing setters with
  | nil => exact .inl h
  | cons i inputs ih =>
    obtain h | ⟨i', hi', rfl⟩ := ih h
    · exact (mem_addSetter h).imp_right fun h => ⟨i, List.mem_cons_self, h⟩
    · exact .inr ⟨i', List.mem_cons_of_mem _ hi', rfl⟩

/-- One setter more takes none away. -/
theorem addSetter_subset (setters : List Setter) (i : DeprecatedInput) :
    setters ⊆ addSetter setters i := by
  unfold addSetter
  split
  · exact fun s hs => hs
  · exact fun s hs => List.mem_append_left _ hs

/-- More setters take none away. -/
theorem addSetters_subset (setters : List Setter) (inputs : List DeprecatedInput) :
    setters ⊆ inputs.foldl addSetter setters := by
  induction inputs generalizing setters with
  | nil => exact fun s hs => hs
  | cons i inputs ih => exact fun s hs => ih _ (addSetter_subset setters i hs)

/-- Every input has a setter for its private field. -/
theorem exists_addSetters (setters : List Setter) {inputs : List DeprecatedInput}
    {i : DeprecatedInput} (hi : i ∈ inputs) :
    ∃ s ∈ inputs.foldl addSetter setters, s.field = i.privateField := by
  induction inputs generalizing setters with
  | nil => cases hi
  | cons x inputs ih =>
    obtain rfl | hi := List.mem_cons.mp hi
    · have hfirst : ∃ s ∈ addSetter setters i, s.field = i.privateField := by
        unfold addSetter
        split
        · rename_i hany
          obtain ⟨s, hs, heq⟩ := List.any_eq_true.mp hany
          exact ⟨s, hs, beq_iff_eq.mp heq⟩
        · exact ⟨i.setterOf, by simp [DeprecatedInput.setterOf], rfl⟩
      obtain ⟨s, hs, heq⟩ := hfirst
      exact ⟨s, addSetters_subset _ inputs hs, heq⟩
    · exact ih _ hi

/-- A mutator among those of one more method is an old one, or it is for the request of the method
    and has old setters and those of the method. -/
theorem mem_addMutator {plan : MethodPlan} {m : MessageId} {ks : List Mutator} {k : Mutator}
    (h : k ∈ w.addMutator plan m ks) : k ∈ ks ∨ k.message = m ∧
      ∀ s ∈ k.setters, (∃ k' ∈ ks, k'.message = m ∧ s ∈ k'.setters) ∨
        ∃ i ∈ plan.deprecatedInputs, s = i.setterOf := by
  have hnew : ∀ s ∈ (View.addMutator.newMutator w plan m).setters,
      ∃ i ∈ plan.deprecatedInputs, s = i.setterOf := fun s hs =>
    (mem_addSetters hs).resolve_left (by simp)
  -- by where the setters go: to the mutator of the message, before a later one, or further on
  induction ks with
  | nil =>
    obtain rfl := List.mem_singleton.mp h
    exact .inr ⟨rfl, fun s hs => .inr (hnew s hs)⟩
  | cons x ks ih =>
    unfold addMutator at h
    split at h
    · rename_i heq
      obtain rfl | h := List.mem_cons.mp h
      · refine .inr ⟨beq_iff_eq.mp heq, fun s hs => ?_⟩
        exact (mem_addSetters hs).imp_left fun hs =>
          ⟨x, List.mem_cons_self, beq_iff_eq.mp heq, hs⟩
      · exact .inl (List.mem_cons_of_mem _ h)
    · split at h
      · obtain rfl | h := List.mem_cons.mp h
        · exact .inr ⟨rfl, fun s hs => .inr (hnew s hs)⟩
        · exact .inl h
      · obtain rfl | h := List.mem_cons.mp h
        · exact .inl List.mem_cons_self
        · refine (ih h).imp (List.mem_cons_of_mem _) fun ⟨heq, hs⟩ => ⟨heq, fun s hs' => ?_⟩
          exact (hs s hs').imp_left fun ⟨k', hk', hrest⟩ =>
            ⟨k', List.mem_cons_of_mem _ hk', hrest⟩

/-- There is a setter for a field of a message. -/
def HasSetter (ks : List Mutator) (m : MessageId) (field : String) : Prop :=
  ∃ k ∈ ks, k.message = m ∧ ∃ s ∈ k.setters, s.field = field

/-- One mutator more takes no setter away. -/
theorem addMutator_keeps {plan : MethodPlan} {m m' : MessageId} {ks : List Mutator}
    {field : String} (h : HasSetter ks m' field) :
    HasSetter (w.addMutator plan m ks) m' field := by
  obtain ⟨k, hk, heq, s, hs, hfield⟩ := h
  induction ks with
  | nil => cases hk
  | cons x ks ih =>
    unfold addMutator
    split
    · obtain rfl | hk := List.mem_cons.mp hk
      · exact ⟨_, List.mem_cons_self, heq, s, addSetters_subset _ _ hs, hfield⟩
      · exact ⟨k, List.mem_cons_of_mem _ hk, heq, s, hs, hfield⟩
    · split
      · exact ⟨k, List.mem_cons_of_mem _ hk, heq, s, hs, hfield⟩
      · obtain rfl | hk := List.mem_cons.mp hk
        · exact ⟨k, List.mem_cons_self, heq, s, hs, hfield⟩
        · obtain ⟨k', hk', hrest⟩ := ih hk
          exact ⟨k', List.mem_cons_of_mem _ hk', hrest⟩

/-- A mutator has a setter for each deprecated input of its method. -/
theorem addMutator_hasSetter {plan : MethodPlan} (m : MessageId) (ks : List Mutator)
    {i : DeprecatedInput} (hi : i ∈ plan.deprecatedInputs) :
    HasSetter (w.addMutator plan m ks) m i.privateField := by
  induction ks with
  | nil => exact ⟨_, List.mem_cons_self, rfl, exists_addSetters [] hi⟩
  | cons x ks ih =>
    unfold addMutator
    split
    · rename_i heq
      exact ⟨_, List.mem_cons_self, beq_iff_eq.mp heq, exists_addSetters x.setters hi⟩
    · split
      · exact ⟨_, List.mem_cons_self, rfl, exists_addSetters [] hi⟩
      · obtain ⟨k, hk, hrest⟩ := ih
        exact ⟨k, List.mem_cons_of_mem _ hk, hrest⟩

/-- The mutators with those of one more method. -/
def addMutators (w : View) (ks : List Mutator) (plan : MethodPlan) : List Mutator :=
  if plan.deprecatedInputs.isEmpty then ks
  else match (w.chain.message plan.input).link.final with
    | some m => w.addMutator plan m ks
    | none => ks

/-- Mutators are added method by method. -/
theorem mutators_eq (w : View) (plans : List MethodPlan) :
    w.mutators plans = plans.foldl w.addMutators [] := rfl

/-- A mutator is for the private request of a method, and each of its setters is that of a
    deprecated input of a method with this private request. -/
structure Mutates (w : View) (plans : List MethodPlan) (k : Mutator) : Prop where
  message : ∃ plan ∈ plans, (w.chain.message plan.input).link.final = some k.message
  setters : ∀ s ∈ k.setters, ∃ plan ∈ plans,
    (w.chain.message plan.input).link.final = some k.message ∧
      ∃ i ∈ plan.deprecatedInputs, s = i.setterOf

/-- One method more keeps mutators to private requests and deprecated inputs. -/
theorem mutates_addMutators {plans : List MethodPlan} {plan : MethodPlan} {ks : List Mutator}
    (h : ∀ k ∈ ks, w.Mutates plans k) (hplan : plan ∈ plans) :
    ∀ k ∈ w.addMutators ks plan, w.Mutates plans k := by
  unfold addMutators
  split
  · exact h
  · split
    · rename_i m hm
      intro k hk
      obtain hk | ⟨rfl, hsetters⟩ := mem_addMutator hk
      · exact h k hk
      · refine ⟨⟨plan, hplan, hm⟩, fun s hs => ?_⟩
        obtain ⟨k', hk', heq, hs⟩ | ⟨i, hi, rfl⟩ := hsetters s hs
        · rw [← heq]
          exact (h k' hk').setters s hs
        · exact ⟨plan, hplan, hm, i, hi, rfl⟩
    · exact h

/-- **Mutators are sound.** They have the setters of deprecated inputs only, each for the private
    request of its method. -/
theorem mutators_sound (w : View) (plans : List MethodPlan) :
    ∀ k ∈ w.mutators plans, w.Mutates plans k := by
  rw [mutators_eq]
  suffices ∀ rest ⊆ plans, ∀ ks, (∀ k ∈ ks, w.Mutates plans k) →
      ∀ k ∈ rest.foldl w.addMutators ks, w.Mutates plans k from
    this plans (fun _ h => h) [] (by simp)
  intro rest
  induction rest with
  | nil => exact fun _ _ h => h
  | cons plan rest ih =>
    intro hsub ks h
    obtain ⟨hplan, hrest⟩ := List.cons_subset.mp hsub
    exact ih hrest _ (mutates_addMutators h hplan)

/-- **Mutators are complete.** For every deprecated input of a method there is a setter of its
    private field, for the private request of the method. -/
theorem mutators_complete {plans : List MethodPlan} {plan : MethodPlan} (hplan : plan ∈ plans)
    {i : DeprecatedInput} (hi : i ∈ plan.deprecatedInputs) {m : MessageId}
    (hm : (w.chain.message plan.input).link.final = some m) :
    HasSetter (w.mutators plans) m i.privateField := by
  -- the methods that follow only add setters
  have hkeep : ∀ (rest : List MethodPlan) ks, HasSetter ks m i.privateField →
      HasSetter (rest.foldl w.addMutators ks) m i.privateField := by
    intro rest
    induction rest with
    | nil => exact fun _ h => h
    | cons x rest ih =>
      intro ks h
      refine ih _ ?_
      unfold addMutators
      split
      · exact h
      · split
        · exact addMutator_keeps h
        · exact h
  obtain ⟨before, after, rfl⟩ := List.append_of_mem hplan
  rw [mutators_eq, List.foldl_append, List.foldl_cons]
  refine hkeep after _ ?_
  rw [addMutators, if_neg (by simpa using List.ne_nil_of_mem hi), hm]
  exact addMutator_hasSetter m _ hi

/-! ### One setter for a field -/

/-- One mutator for each message, in the order of the messages, and one setter in it for
    each field. -/
structure SetApart (ks : List Mutator) : Prop where
  sorted : ks.Pairwise fun k k' => k.message.index < k'.message.index
  fields : ∀ k ∈ ks, (k.setters.map (·.field)).Nodup

/-- A setter is added for a field that has none. -/
theorem nodup_addSetter {setters : List Setter} (h : (setters.map (·.field)).Nodup)
    (i : DeprecatedInput) : ((addSetter setters i).map (·.field)).Nodup := by
  unfold addSetter
  split
  · exact h
  · rename_i hnew
    have hfresh : i.privateField ∉ setters.map (·.field) := by simpa using hnew
    rw [List.map_append, List.nodup_append]
    refine ⟨h, List.nodup_singleton _, ?_⟩
    rintro field hfield _ hlast rfl
    obtain rfl : field = i.privateField := List.mem_singleton.mp hlast
    exact hfresh hfield

/-- No field gets two setters. -/
theorem nodup_addSetters {setters : List Setter} (h : (setters.map (·.field)).Nodup)
    (inputs : List DeprecatedInput) : ((inputs.foldl addSetter setters).map (·.field)).Nodup := by
  induction inputs generalizing setters with
  | nil => exact h
  | cons i inputs ih => exact ih (nodup_addSetter h i)

/-- What is added for a method is for the private message of its request. -/
theorem message_of_mem_addMutator {plan : MethodPlan} {m : MessageId} {ks : List Mutator}
    {k : Mutator} (h : k ∈ w.addMutator plan m ks) : k ∈ ks ∨ k.message = m :=
  (mem_addMutator h).imp_right And.left

/-- One mutator more keeps mutators and setters apart. -/
theorem SetApart.addMutator {ks : List Mutator} (h : SetApart ks) (plan : MethodPlan)
    (m : MessageId) : SetApart (w.addMutator plan m ks) := by
  have hnone : (([] : List Setter).map (·.field)).Nodup := List.nodup_nil
  have hnew : ((View.addMutator.newMutator w plan m).setters.map (·.field)).Nodup :=
    nodup_addSetters hnone _
  induction ks with
  | nil => exact ⟨List.pairwise_singleton _ _, by simpa [View.addMutator] using hnew⟩
  | cons x ks ih =>
    obtain ⟨hfirst, hrest⟩ := List.pairwise_cons.mp h.sorted
    obtain ⟨hx, hks⟩ := List.forall_mem_cons.mp h.fields
    unfold View.addMutator
    split
    · -- the mutator of the message gets more setters
      exact ⟨List.pairwise_cons.mpr ⟨hfirst, hrest⟩,
        List.forall_mem_cons.mpr ⟨nodup_addSetters hx _, hks⟩⟩
    · rename_i hother
      split
      · -- a new one stands before those of later messages
        rename_i hlt
        refine ⟨List.pairwise_cons.mpr ⟨fun k hk => ?_, h.sorted⟩,
          List.forall_mem_cons.mpr ⟨hnew, h.fields⟩⟩
        obtain rfl | hk := List.mem_cons.mp hk
        · exact hlt
        · exact Nat.lt_trans hlt (hfirst k hk)
      · rename_i hle
        obtain ⟨hsorted, hfields⟩ := ih ⟨hrest, hks⟩
        refine ⟨List.pairwise_cons.mpr ⟨fun k hk => ?_, hsorted⟩,
          List.forall_mem_cons.mpr ⟨hx, hfields⟩⟩
        obtain hk | rfl := message_of_mem_addMutator hk
        · exact hfirst k hk
        · have hne : x.message.index ≠ k.message.index := fun heq =>
            hother (beq_iff_eq.mpr (MessageId.ext heq))
          exact Nat.lt_of_le_of_ne (Nat.le_of_not_lt hle) hne

/-- **Mutators are apart.** The mutators of methods are for different messages, and the setters of
    each for different fields. -/
theorem mutators_setApart (w : View) (plans : List MethodPlan) : SetApart (w.mutators plans) := by
  rw [mutators_eq]
  suffices ∀ ks, SetApart ks → SetApart (plans.foldl w.addMutators ks) from
    this [] ⟨.nil, by simp⟩
  induction plans with
  | nil => exact fun _ h => h
  | cons plan plans ih =>
    intro ks h
    refine ih _ ?_
    unfold addMutators
    split
    · exact h
    · split
      · exact h.addMutator plan _
      · exact h

/-- There is a setter for a field of a message exactly if a method has a deprecated input for it. -/
theorem hasSetter_mutators_iff {plans : List MethodPlan} {m : MessageId} {field : String} :
    HasSetter (w.mutators plans) m field ↔ ∃ plan ∈ plans,
      (w.chain.message plan.input).link.final = some m ∧
        ∃ i ∈ plan.deprecatedInputs, i.privateField = field := by
  constructor
  · rintro ⟨k, hk, rfl, s, hs, rfl⟩
    obtain ⟨plan, hplan, hfinal, i, hi, rfl⟩ := (mutators_sound w plans k hk).setters s hs
    exact ⟨plan, hplan, hfinal, i, hi, rfl⟩
  · rintro ⟨plan, hplan, hfinal, i, hi, rfl⟩
    exact mutators_complete hplan hi hfinal

end View

end Lineage
