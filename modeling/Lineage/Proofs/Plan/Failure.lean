import Lineage.Proofs.Plan.Correspondence

namespace Lineage

/-!
# Why conversions fail

Every error in the conversions of a version is the error of one of its methods: of its own checks,
of a converter that it asks for, or of a deprecated input.

* `Traced.bind_error`, `Traced.mapM_error` — the error of a run is the error of one of its steps,
* `View.Fails` — a converter that is asked for fails; a planner that is asked for converters fails
  in no other way,
* `Chain.Admits` — what methods ask for that correspond to their targets,
* `Chain.MethodFails` — why a method is not planned, `Planner.Tracked.methodPlan_error` — for
  nothing else,
* `Chain.publicConversions_eq_error` — if there are no conversions of a version, one of its methods
  is not planned.
-/

namespace Traced

variable {α β : Type}

/-- Steps fail as the first one does, or as the second one does with its result. -/
theorem bind_error {x : Traced α} {f : α → Traced β} {e : ConversionError} :
    (x >>= f).result = .error e ↔
      x.result = .error e ∨ ∃ a, x.result = .ok a ∧ (f a).result = .error e := by
  simp only [bind]
  cases x.result with
  | error e => simp
  | ok a => simp

/-- A list fails as one of its elements does. -/
theorem mapM_error {f : α → Traced β} {xs : List α} {e : ConversionError}
    (h : (xs.mapM f).result = .error e) : ∃ x ∈ xs, (f x).result = .error e := by
  induction xs with
  | nil => cases h
  | cons x xs ih =>
    rw [List.mapM_cons] at h
    obtain hx | ⟨y, -, h⟩ := bind_error.mp h
    · exact ⟨x, List.mem_cons_self, hx⟩
    · obtain hrest | ⟨ys, -, h⟩ := bind_error.mp h
      · obtain ⟨x', hx', hfails⟩ := ih hrest
        exact ⟨x', List.mem_cons_of_mem _ hx', hfails⟩
      · cases h

end Traced

/-! ### Failures of a planner -/

/-- A converter that is asked for fails with an error. -/
def View.Fails (w : View) (Root : Request → Prop) (e : ConversionError) : Prop :=
  ∃ r, w.Asked Root r ∧ (w.converter r).result = .error e

namespace Planner

variable {w : View} {Root : Request → Prop} {p : Planner} {e : ConversionError}

/-- Specifying fails as the converter does. -/
theorem specify_error {r : Request} (he : (specify p r).2 = .error e) :
    (p.view.converter r).result = .error e := by
  unfold specify at he
  dsimp only at he
  split at he
  · cases he
  · rename_i e' hfails
    rw [hfails, Except.error.inj he]

/-- A drain fails with a converter that is pending, or that is asked for on the way. -/
theorem Tracked.drainWithin_error {n : Nat} (h : p.Tracked w Root [])
    (he : (drainWithin n p).2 = .error e) : w.Fails Root e := by
  -- by the steps that are left: the state is tracked before each of them
  induction n generalizing p with
  | zero => cases he
  | succ n ih =>
    rw [drainWithin] at he
    split at he
    · cases he
    · rename_i r rest hpending
      split at he
      · rename_i p₁ _ hstep
        have htracked := ((kept_tracked w Root).specify hpending h).of_ok hstep
        exact ih htracked he
      · rename_i p₁ e₁ hstep
        obtain ⟨-, hr⟩ := h.take hpending
        obtain rfl := h.view
        obtain rfl := Except.error.inj he
        have hfails := specify_error (congrArg Prod.snd hstep)
        exact ⟨r, hr, hfails⟩

/-- A request for a message fails as a converter does that is asked for. -/
theorem Tracked.requestMessage_error (h : p.Tracked w Root []) {kind : ConverterKind}
    {m : MessageId} (hr : w.Asked Root (w.request kind (.message m)))
    (he : (p.requestMessage kind m).2 = .error e) : w.Fails Root e := by
  obtain rfl := h.view
  unfold Planner.requestMessage at he
  dsimp only at he
  split at he
  · cases he
  · rename_i p₁ e₁ hdrain
    obtain rfl := Except.error.inj he
    exact (h.enqueue hr).drainWithin_error (congrArg Prod.snd hdrain)

/-- A request for an action fails as the action does, or a converter that is asked for. -/
theorem Tracked.downAction_error (h : p.Tracked w Root []) {kind : ConverterKind} {f t : FieldId}
    (hr : ∀ r ∈ (w.action kind f t t).requests, w.Asked Root r)
    (he : (p.downAction kind f t).2 = .error e) :
    (w.action kind f t t).result = .error e ∨ w.Fails Root e := by
  obtain rfl := h.view
  unfold Planner.downAction at he
  dsimp only at he
  split at he
  · rename_i e₁ hfails
    obtain rfl := Except.error.inj he
    exact .inl hfails
  · split at he
    · cases he
    · rename_i p₁ e₁ hdrain
      obtain rfl := Except.error.inj he
      exact .inr ((h.enqueueAll hr).1.drainWithin_error (congrArg Prod.snd hdrain))

/-- Deprecated inputs fail with the way of one of them, or with a converter. -/
theorem Tracked.deprecatedInputs_error (h : p.Tracked w Root []) (hpending : p.pending = [])
    {xs : List (Field × FieldId)}
    (hr : ∀ x ∈ xs, ∀ r ∈ (w.action .toPrivate x.1.id x.2 x.2).requests, w.Asked Root r)
    (he : (w.deprecatedInputs xs p).2 = .error e) :
    (∃ x ∈ xs, (w.action .toPrivate x.1.id x.2 x.2).result = .error e) ∨ w.Fails Root e := by
  -- by the inputs: those before the one that fails leave the state tracked and drained
  induction xs generalizing p with
  | nil => cases he
  | cons x xs ih =>
    obtain ⟨hx, hxs⟩ := List.forall_mem_cons.mp hr
    unfold View.deprecatedInputs at he
    split at he
    · rename_i p₁ e₁ hfirst
      obtain rfl := Except.error.inj he
      exact (h.downAction_error hx (congrArg Prod.snd hfirst)).imp_left fun hfails =>
        ⟨x, List.mem_cons_self, hfails⟩
    · rename_i p₁ action hfirst
      obtain ⟨-, hanswered⟩ := h.downAction hx hfirst
      split at he
      · rename_i p₂ e₂ hrest
        obtain rfl := Except.error.inj he
        refine (ih hanswered.tracked hanswered.drained hxs (congrArg Prod.snd hrest)).imp_left ?_
        rintro ⟨y, hy, hfails⟩
        exact ⟨y, List.mem_cons_of_mem _ hy, hfails⟩
      · cases he

end Planner

/-! ### Failures of methods -/

namespace Chain

variable {c : Chain} {v : Version}

/-- What the methods of a version ask for that correspond to their targets. -/
def Admits (c : Chain) (v : Version) (r : Request) : Prop :=
  ∃ m ∈ v.methods, c.Corresponds v m ∧ r ∈ (c.viewOf v).requestsOf (c.method m)

/-- Why a method is not planned. -/
inductive MethodFails (c : Chain) (v : Version) (Root : Request → Prop) (m : MethodId) :
    ConversionError → Prop
  | astray (h : ((c.viewOf v).way (c.method m)).target = none) (function : String) :
      MethodFails c v Root m (.unresolved (c.methodPath (c.method m)) function)
  | mismatch {t : MethodId} {e : ConversionError}
      (h : (c.viewOf v).checkTypes (c.method m) ((c.viewOf v).way (c.method m)).route (c.method t)
        = .error e) : MethodFails c v Root m e
  | converter {e : ConversionError} (hm : c.Corresponds v m) (h : (c.viewOf v).Fails Root e) :
      MethodFails c v Root m e
  | input {x : Field × FieldId} {e : ConversionError} (hm : c.Corresponds v m)
      (hx : x ∈ (c.viewOf v).skipping (c.method m))
      (h : ((c.viewOf v).action .toPrivate x.1.id x.2 x.2).result = .error e) :
      MethodFails c v Root m e

end Chain

namespace Planner

variable {c : Chain} {v : Version} {Root : Request → Prop} {p p' : Planner} {e : ConversionError}

/-- A method is not planned for one of these reasons. -/
theorem Tracked.methodPlan_error (h : p.Tracked (c.viewOf v) Root []) {m : MethodId}
    (hr : c.Corresponds v m → ∀ r ∈ (c.viewOf v).requestsOf (c.method m), (c.viewOf v).Asked Root r)
    (he : ((c.viewOf v).methodPlan (c.method m) p).2 = .error e) :
    c.MethodFails v Root m e := by
  -- step by step: the first one that fails is the reason, and those before it are answered
  unfold View.methodPlan at he
  dsimp only at he
  split at he
  · rename_i hnone
    obtain rfl := Except.error.inj he
    exact .astray hnone _
  · rename_i t ht
    unfold View.plannedMethod at he
    split at he
    · rename_i e₁ hcheck
      obtain rfl := Except.error.inj he
      exact .mismatch hcheck
    · rename_i hcheck
      have hm : c.Corresponds v m := ⟨t, ht, hcheck⟩
      have hasked := hr hm
      simp only [View.requestsOf, List.mem_append, List.mem_singleton, List.mem_flatMap, or_assoc]
        at hasked
      split at he
      · rename_i p₁ e₁ hdown
        obtain rfl := Except.error.inj he
        exact .converter hm (h.requestMessage_error (hasked _ (.inl rfl)) (congrArg Prod.snd hdown))
      · rename_i p₁ down hdown
        obtain ⟨-, hanswered₁⟩ := h.requestMessage (hasked _ (.inl rfl)) hdown
        split at he
        · rename_i p₂ e₁ hup
          obtain rfl := Except.error.inj he
          exact .converter hm (hanswered₁.tracked.requestMessage_error
            (hasked _ (.inr (.inl rfl))) (congrArg Prod.snd hup))
        · rename_i p₂ up hup
          obtain ⟨-, hanswered₂⟩ :=
            hanswered₁.tracked.requestMessage (hasked _ (.inr (.inl rfl))) hup
          dsimp only at he
          split at he
          · rename_i p₃ e₁ hinputs
            obtain rfl := Except.error.inj he
            obtain ⟨x, hx, hfails⟩ | hfails :=
              hanswered₂.tracked.deprecatedInputs_error hanswered₂.drained
                (fun x hx r hq => hasked r (.inr (.inr ⟨x, hx, hq⟩))) (congrArg Prod.snd hinputs)
            · exact .input hm hx hfails
            · exact .converter hm hfails
          · cases he

/-- A method that is planned corresponds to its target. -/
theorem corresponds_of_methodPlan {m : MethodId} {plan : MethodPlan}
    (h : (c.viewOf v).methodPlan (c.method m) p = (p', .ok plan)) : c.Corresponds v m := by
  unfold View.methodPlan at h
  dsimp only at h
  split at h
  · cases h
  · rename_i t ht
    unfold View.plannedMethod at h
    split at h
    · cases h
    · exact ⟨t, ht, ‹_›⟩

/-- The first method that is not planned ends the run over the methods. -/
theorem Tracked.methodPlans_error (h : p.Tracked (c.viewOf v) Root []) (hpending : p.pending = [])
    {ms : List MethodId} (hr : ∀ m ∈ ms, c.Corresponds v m →
      ∀ r ∈ (c.viewOf v).requestsOf (c.method m), (c.viewOf v).Asked Root r)
    (he : ((c.viewOf v).methodPlans (ms.map c.method) p).2 = .error e) :
    ∃ m ∈ ms, c.MethodFails v Root m e := by
  -- by the methods: those before the one that fails leave the state tracked and drained
  induction ms generalizing p with
  | nil => cases he
  | cons m ms ih =>
    obtain ⟨hm, hms⟩ := List.forall_mem_cons.mp hr
    rw [List.map_cons] at he
    unfold View.methodPlans at he
    split at he
    · rename_i p₁ e₁ hfirst
      obtain rfl := Except.error.inj he
      exact ⟨m, List.mem_cons_self, h.methodPlan_error hm (congrArg Prod.snd hfirst)⟩
    · rename_i p₁ plan hfirst
      obtain ⟨hanswered, -⟩ := h.methodPlan (hm (corresponds_of_methodPlan hfirst)) hfirst
      split at he
      · rename_i p₂ e₂ hrest
        obtain rfl := Except.error.inj he
        obtain ⟨m', hm', hfails⟩ :=
          ih hanswered.tracked hanswered.drained hms (congrArg Prod.snd hrest)
        exact ⟨m', List.mem_cons_of_mem _ hm', hfails⟩
      · cases he

end Planner

/-- **A version without conversions** has a method that is not planned. -/
theorem Chain.publicConversions_eq_error {c : Chain} {v : Version} {e : ConversionError}
    (h : c.publicConversions v = .error e) :
    ∃ m ∈ v.methods, c.MethodFails v (c.Admits v) m e := by
  have hplans := map_eq_error.mp h
  have hroots : ∀ m ∈ v.methods, c.Corresponds v m →
      ∀ r ∈ (c.viewOf v).requestsOf (c.method m), (c.viewOf v).Asked (c.Admits v) r :=
    fun m hm hcorresponds r hr => .root ⟨m, hm, hcorresponds, hr⟩
  exact (Planner.Tracked.start (c.viewOf v) (c.Admits v)).methodPlans_error rfl hroots
    hplans

end Lineage
