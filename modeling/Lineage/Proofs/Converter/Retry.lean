import Lineage.Proofs.Converter.Session

namespace Lineage

/-!
# Requests after a failure

A converter that fails stays among the names that were asked for, but nothing specifies it any more.
So a request that has failed does not keep failing: it asks for nothing the next time.

* `Planner.Lost` — a name that was asked for and is neither specified nor pending,
  `Planner.Ledger.lost_run` — it stays so,
* `Planner.Forgets` — what becomes of a request that has failed, `Planner.forgets_of_failed` — of
  every one,
* `Planner.KeepsFailing` — a request that has failed fails again, `Planner.not_keepsFailing` — not
  every one does.
-/

namespace Planner

/-! ### Lost names -/

/-- A name that was asked for, but is neither specified nor pending. -/
def Lost (p : Planner) (n : String) : Prop :=
  n ∈ p.queued ∧ n ∉ p.converters.map (·.1) ∧ n ∉ p.pending.map p.view.nameOf

/-- With nothing pending, everything that was asked for is specified or lost. -/
theorem specified_iff {p : Planner} (hpending : p.pending = []) {n : String} (hn : n ∈ p.queued) :
    n ∈ p.converters.map (·.1) ↔ ¬p.Lost n := by
  constructor
  · rintro hs ⟨-, hnot, -⟩
    exact hnot hs
  · intro hnot
    by_contra hs
    exact hnot ⟨hn, hs, by simp [hpending]⟩

namespace Ledger

variable {w : View} {lost : List String} {p : Planner}

/-- The names that were lost are those in the books. -/
theorem lost_iff (h : p.Ledger w lost) {n : String} : p.Lost n ↔ n ∈ lost := by
  have hnodup := h.balance.nodup h.nodup
  have hdisjoint := (List.nodup_append.mp hnodup).2.2
  rw [Lost, h.mem_queued, h.view]
  constructor
  · rintro ⟨hs | hp | hl, hnot, hnot'⟩
    · exact absurd hs hnot
    · exact absurd hp hnot'
    · exact hl
  · intro hl
    refine ⟨.inr (.inr hl), fun hs => ?_, fun hp => ?_⟩
    · exact hdisjoint _ (List.mem_append_left _ hs) _ hl rfl
    · exact hdisjoint _ (List.mem_append_right _ hp) _ hl rfl

/-- What is lost stays lost, whatever is asked for. -/
theorem lost_run (h : p.Ledger w lost) {n : String} (hn : p.Lost n) (calls : List Call) :
    (p.run calls).1.Lost n := by
  obtain ⟨lost', hsuffix, hledger⟩ := h.run calls
  exact hledger.lost_iff.mpr (hsuffix.subset (h.lost_iff.mp hn))

/-- A session forgets no name that was asked for. -/
theorem queued_run (h : p.Ledger w lost) (calls : List Call) :
    p.queued ⊆ (p.run calls).1.queued := by
  induction calls generalizing p lost with
  | nil => exact List.Subset.refl _
  | cons c calls ih =>
    obtain ⟨lost', -, hledger⟩ := h.call c
    have hcall : p.queued ⊆ (p.call c).1.queued :=
      List.Subset.trans (enqueueAll_queued _ _) (h.answers c).queued
    exact List.Subset.trans hcall (ih hledger)

/-! ### Requests that were made before -/

/-- A request that was made before asks for nothing: only what is pending is specified. -/
theorem requestMessage_of_queued (h : p.Ledger w lost) {kind : ConverterKind} {m : MessageId}
    (hqueued : w.nameOf (w.request kind (.message m)) ∈ p.queued) : p.requestMessage kind m
      = p.drain.map fun _ => w.reference (w.request kind (.message m)) := by
  obtain rfl := h.view
  have hsame : p.enqueue (p.view.request kind (.message m)) = p := by
    unfold Planner.enqueue
    exact if_pos (List.contains_iff_mem.mpr hqueued)
  have hdrained := h.drained (h.drains (suffices_budget p))
  have hview : p.drain.1.view = p.view := by
    obtain ⟨-, hledger, -⟩ | ⟨_, _, -, -, hledger⟩ := hdrained <;> exact hledger.view
  rw [requestMessage, hsame]
  generalize p.drain = o at hview ⊢
  obtain ⟨q, e | ⟨⟩⟩ := o
  · rfl
  · dsimp only at hview ⊢
    rw [hview]
    rfl

/-- A name that has been asked for is answered at once, and nothing changes. -/
theorem requestMessage_of_drained (h : p.Ledger w lost) {kind : ConverterKind} {m : MessageId}
    (hqueued : w.nameOf (w.request kind (.message m)) ∈ p.queued) (hpending : p.pending = []) :
    p.requestMessage kind m = (p, .ok (w.reference (w.request kind (.message m)))) := by
  have hdrain : p.drain = (p, .ok ()) := (h.drains (suffices_budget p)).unique (.done hpending)
  rw [h.requestMessage_of_queued hqueued, hdrain]
  rfl

/-- However often a name is asked for again, nothing changes. -/
theorem run_replicate_of_drained (h : p.Ledger w lost) {kind : ConverterKind} {m : MessageId}
    (hqueued : w.nameOf (w.request kind (.message m)) ∈ p.queued) (hpending : p.pending = [])
    (n : Nat) : (p.run (List.replicate n (.message kind m))).1 = p := by
  have hcall : (p.call (.message kind m)).1 = p :=
    congrArg Prod.fst (h.requestMessage_of_drained hqueued hpending)
  induction n with
  | zero => rfl
  | succ n ih =>
    rw [List.replicate_succ, Planner.run, hcall]
    exact ih

/-- Every time that a request fails, one more name is lost. -/
theorem run_replicate (h : p.Ledger w lost) {kind : ConverterKind} {m : MessageId}
    (hqueued : w.nameOf (w.request kind (.message m)) ∈ p.queued) (n : Nat) :
    (p.run (List.replicate n (.message kind m))).1.pending = [] ∨
      ∃ lost', (p.run (List.replicate n (.message kind m))).1.Ledger w lost' ∧
        lost.length + n ≤ lost'.length := by
  induction n generalizing p lost with
  | zero => exact .inr ⟨lost, h, le_rfl⟩
  | succ n ih =>
    have hqueued' : w.nameOf (w.request kind (.message m)) ∈ (p.call (.message kind m)).1.queued :=
      h.queued_run [.message kind m] hqueued
    rw [List.replicate_succ, Planner.run]
    obtain ⟨_, -, -, hledger, hpending⟩ | ⟨_, -, ⟨hrefused, -⟩ | ⟨r, -, hledger⟩⟩ :=
      h.outcome (h.answers (.message kind m))
    · exact .inl (by rwa [hledger.run_replicate_of_drained hqueued' hpending n])
    · cases hrefused
    · refine (ih hledger hqueued').imp_right ?_
      rintro ⟨lost', hledger', hle⟩
      exact ⟨lost', hledger', by rw [List.length_cons] at hle; omega⟩

end Ledger

/-! ### Requests that have failed -/

/-- What becomes of a request for the converter of a message that has failed, with the planner that
    this has left. -/
structure Forgets (w : View) (kind : ConverterKind) (m : MessageId) (e : ConversionError)
    (q : Planner) : Prop where
  /-- The name of the converter that has failed is lost, whatever is asked for. -/
  lost : ∃ r, (w.converter r).result = .error e ∧ ∀ calls, (q.run calls).1.Lost (w.nameOf r)
  /-- The same request asks for nothing: only what is pending is specified. -/
  repeated : ∀ calls, (q.run calls).1.requestMessage kind m
    = (q.run calls).1.drain.map fun _ => w.reference (w.request kind (.message m))
  /-- If the answer refers to a converter that there is, then because its name is not lost. -/
  dangling : ∀ calls p ref, (q.run calls).1.requestMessage kind m = (p, .ok ref) →
    ref = w.reference (w.request kind (.message m)) ∧
      (ref.function ∈ p.converters.map (·.1) ↔ ¬p.Lost ref.function)
  /-- If it is made often enough, the same request is answered, and leaves the planner as it is. -/
  answered : ∀ calls n, w.names.length ≤ n →
    let p := ((q.run calls).1.run (List.replicate n (.message kind m))).1
    p.requestMessage kind m = (p, .ok (w.reference (w.request kind (.message m))))

/-- **Requests that have failed are forgotten.** Whatever was asked for before and is asked for in
    between, a request that has failed asks for nothing the next time, and after some more failures
    it is answered. -/
theorem forgets_of_failed (w : View) {calls : List Call} {kind : ConverterKind} {m : MessageId}
    {q : Planner} {e : ConversionError}
    (h : ((start w).run calls).1.requestMessage kind m = (q, .error e)) : Forgets w kind m e q := by
  obtain ⟨before, -, hbefore⟩ := (Ledger.start w).run calls
  have hcall : ((start w).run calls).1.call (.message kind m) = (q, .error e) := by
    rw [call, h]
    rfl
  have hanswers := hbefore.answers (.message kind m)
  rw [hcall] at hanswers
  have hqueued : w.nameOf (w.request kind (.message m)) ∈ q.queued :=
    hanswers.queued ((hbefore.asked (.message kind m)).2 _ List.mem_cons_self)
  obtain ⟨_, hok, -⟩ | ⟨_, he, ⟨hrefused, -⟩ | ⟨r, hfails, hledger⟩⟩ := hbefore.outcome hanswers
  · cases hok
  · cases hrefused
  · obtain rfl := Except.error.inj he
    constructor
    case lost =>
      exact ⟨r, hfails, hledger.lost_run (hledger.lost_iff.mpr List.mem_cons_self)⟩
    case repeated =>
      intro later
      obtain ⟨_, -, hlater⟩ := hledger.run later
      exact hlater.requestMessage_of_queued (hledger.queued_run later hqueued)
    case dangling =>
      intro later p ref hanswer
      obtain ⟨_, -, hlater⟩ := hledger.run later
      rw [hlater.requestMessage_of_queued (hledger.queued_run later hqueued)] at hanswer
      obtain ⟨⟨⟩, hdrain, rfl⟩ := Outcome.map_eq_ok.mp hanswer
      have hdrains := hlater.drains (suffices_budget _)
      rw [← drain, hdrain] at hdrains
      obtain ⟨-, -, hpending⟩ | ⟨_, _, he, -⟩ := hlater.drained hdrains
      · exact ⟨rfl, specified_iff hpending (hdrains.queued (hledger.queued_run later hqueued))⟩
      · cases he
    case answered =>
      intro later n hn
      obtain ⟨lost, hsuffix, hlater⟩ := hledger.run later
      have hqueued' := hledger.queued_run later hqueued
      obtain ⟨_, -, hend⟩ := hlater.run (List.replicate n (.message kind m))
      refine hend.requestMessage_of_drained (hlater.queued_run _ hqueued') ?_
      obtain hpending | ⟨lost', hledger', hle⟩ := hlater.run_replicate hqueued' n
      · exact hpending
      · -- each of the failures would have lost another name
        have hfirst := hsuffix.length_le
        have hlast := hledger'.length_lost_le
        rw [List.length_cons] at hfirst
        omega

/-- Ask for the leaves of the next version: leaves are deprecated. -/
def askedOnce : Outcome ConverterRef := (start (treeView fallen)).requestMessage .toNext ⟨0⟩

/-- Ask for the same once more. -/
def askedTwice : Outcome ConverterRef := askedOnce.1.requestMessage .toNext ⟨0⟩

set_option maxRecDepth 10000 in
/-- What is checked of the sample by evaluation. -/
theorem asked_checked :
    (Chain.ofPackages AnnotationStyle.comments.source "private" (treePackages fallen)).toOption
        = some (treeView fallen).chain ∧
      (treeView fallen).version ∈ (treeView fallen).chain.publicVersions.map (·.id) ∧
      askedOnce.2 = .error (.deprecatedDown "v1.Leaf" "ToNextLeaf") ∧
      askedTwice.2 = .ok ⟨.toNext, "ToNextLeaf"⟩ ∧ askedTwice.1.converters.map (·.1) = [] := by
  decide +kernel

/-- A converter for deprecated leaves. -/
theorem forgets_tree :
    Chain.ofPackages AnnotationStyle.comments.source "private" (treePackages fallen)
        = .ok (treeView fallen).chain ∧
      askedOnce = (askedOnce.1, .error (.deprecatedDown "v1.Leaf" "ToNextLeaf")) ∧
      Forgets (treeView fallen) .toNext ⟨0⟩ (.deprecatedDown "v1.Leaf" "ToNextLeaf")
        askedOnce.1 := by
  obtain ⟨hchain, -, hfailed, -⟩ := asked_checked
  have honce : ((start (treeView fallen)).run []).1.requestMessage .toNext ⟨0⟩
      = (askedOnce.1, .error (.deprecatedDown "v1.Leaf" "ToNextLeaf")) := Prod.ext rfl hfailed
  exact ⟨toOption_eq_some.mp hchain, honce, forgets_of_failed (treeView fallen) honce⟩

/-! ### What does not hold -/

/-- A request that has failed fails again, immediately or after further calls. -/
def KeepsFailing (w : View) : Prop :=
  ∀ calls kind m q e, ((start w).run calls).1.requestMessage kind m = (q, .error e) →
    ∀ later, ∃ p e', (q.run later).1.requestMessage kind m = (p, .error e')

/-- **Not every request that has failed fails again.**  The second time, the one for deprecated
    leaves is answered with a converter that there is not. -/
theorem not_keepsFailing :
    Chain.ofPackages AnnotationStyle.comments.source "private" (treePackages fallen)
        = .ok (treeView fallen).chain ∧
      (treeView fallen).version ∈ (treeView fallen).chain.publicVersions.map (·.id) ∧
      askedTwice = (askedTwice.1, .ok ⟨.toNext, "ToNextLeaf"⟩) ∧
      "ToNextLeaf" ∉ askedTwice.1.converters.map (·.1) ∧ ¬KeepsFailing (treeView fallen) := by
  obtain ⟨hchain, hpublic, hfailed, hanswered, hnone⟩ := asked_checked
  have htwice : askedTwice = (askedTwice.1, .ok ⟨.toNext, "ToNextLeaf"⟩) := Prod.ext rfl hanswered
  refine ⟨toOption_eq_some.mp hchain, hpublic, htwice, by simp [hnone], fun hkeeps => ?_⟩
  obtain ⟨p, e, hagain⟩ := hkeeps [] .toNext ⟨0⟩ _ _ (Prod.ext rfl hfailed) []
  cases hagain.symm.trans htwice

end Planner

end Lineage
