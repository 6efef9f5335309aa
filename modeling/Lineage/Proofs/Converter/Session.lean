import Lineage.Annotation.Style
import Lineage.Chain.Build
import Lineage.Proofs.Converter.Planner

namespace Lineage

/-!
# Sessions with a planner

A planner is asked for one thing after the other, also after it has failed.

* `Planner.Call`, `Planner.Answer` — what is asked of a planner, and what it answers,
* `Planner.call` — one call, `Planner.run` — a session of calls,
* `Planner.Drains`, `Planner.Answers` — what pending requests and calls come to, however many
  converters it takes,
* `Planner.Ledger` — every name that was asked for is specified, pending or lost: one of these, and
  once,
* `Planner.Ledger.answers_iff` — every call comes to an end, with what `Planner.call` says,
* `Planner.Ledger.outcome` — a call that succeeds leaves nothing pending, and one that fails loses
  at most one name, the one of the converter that failed.
-/

namespace Planner

/-! ### Calls -/

/-- What is asked of a planner. -/
inductive Call where
  /-- The converter of a kind for a message. -/
  | message (kind : ConverterKind) (id : MessageId)
  /-- How a field gets down to another one. -/
  | action (kind : ConverterKind) (field target : FieldId)
deriving DecidableEq

/-- What a planner answers. -/
inductive Answer where
  | converter (ref : ConverterRef)
  | action (a : Option Action)
deriving DecidableEq

/-- The converter that an answer refers to. -/
def Answer.function? : Answer → Option String
  | converter ref => some ref.function
  | action a => a.bind Action.function?

/-- The same planner with another answer. -/
def Outcome.map {α β : Type} (f : α → β) (o : Outcome α) : Outcome β := (o.1, o.2.map f)

/-- A mapped outcome succeeds with the image of an answer. -/
theorem Outcome.map_eq_ok {α β : Type} {f : α → β} {o : Outcome α} {p : Planner} {b : β} :
    o.map f = (p, .ok b) ↔ ∃ a, o = (p, .ok a) ∧ f a = b := by
  obtain ⟨q, e | a⟩ := o <;> simp [Outcome.map, Except.map]

/-- A planner is asked for something. -/
def call (p : Planner) : Call → Outcome Answer
  | .message kind id => (p.requestMessage kind id).map .converter
  | .action kind field target => (p.downAction kind field target).map .action

/-- A planner is asked for one thing after the other. -/
def run (p : Planner) : List Call → Planner × List (Except ConversionError Answer)
  | [] => (p, [])
  | c :: calls => (((p.call c).1.run calls).1, (p.call c).2 :: ((p.call c).1.run calls).2)

/-- The planner of a view that nothing has been asked of. -/
def start (w : View) : Planner := { view := w }

end Planner

/-- What a call asks for itself, and what is answered if all that this needs can be specified. -/
def View.answer (w : View) : Planner.Call → Traced Planner.Answer
  | .message kind id =>
    ⟨[w.request kind (.message id)], .ok (.converter (w.reference (w.request kind (.message id))))⟩
  | .action kind field target =>
    ⟨(w.action kind field target target).requests,
      (w.action kind field target target).result.map .action⟩

/-- What is answered refers to what the call asks for. -/
theorem View.answer_function {w : View} {c : Planner.Call} {a : Planner.Answer}
    (h : (w.answer c).result = .ok a) :
    (w.answer c).requests.map w.nameOf = a.function?.toList := by
  cases c with
  | message kind id =>
    obtain rfl := Except.ok.inj h
    rfl
  | action kind field target =>
    obtain ⟨action, haction, rfl⟩ := map_eq_ok.mp h
    obtain ⟨rfl, hnone⟩ | ⟨action, rfl, hrefers⟩ := View.action_result haction
    · rw [View.answer, hnone]
      rfl
    · exact hrefers.function

namespace Planner

/-- A planner when a call has asked for what it needs, before anything is specified. -/
def asked (p : Planner) (c : Call) : Planner := (p.view.answer c).requests.foldl enqueue p

/-! ### However long it takes -/

/-- What a planner comes to that specifies what is pending until nothing is, or until a converter
    fails. -/
inductive Drains : Planner → Outcome Unit → Prop
  | done {p : Planner} (h : p.pending = []) : Drains p (p, .ok ())
  | next {p q : Planner} {r : Request} {rest : List Request} {o : Outcome Unit}
      (h : p.pending = r :: rest) (hstep : specify { p with pending := rest } r = (q, .ok ()))
      (hrest : Drains q o) : Drains p o
  | failed {p q : Planner} {r : Request} {rest : List Request} {e : ConversionError}
      (h : p.pending = r :: rest) (hstep : specify { p with pending := rest } r = (q, .error e)) :
      Drains p (q, .error e)

/-- What a call comes to, however many converters are specified for it. -/
inductive Answers (p : Planner) (c : Call) : Outcome Answer → Prop
  | refused {e : ConversionError} (h : (p.view.answer c).result = .error e) :
      Answers p c (p.asked c, .error e)
  | answered {a : Answer} {q : Planner} (h : (p.view.answer c).result = .ok a)
      (hd : Drains (p.asked c) (q, .ok ())) : Answers p c (q, .ok a)
  | failed {a : Answer} {q : Planner} {e : ConversionError}
      (h : (p.view.answer c).result = .ok a) (hd : Drains (p.asked c) (q, .error e)) :
      Answers p c (q, .error e)

/-- Pending requests come to one thing only. -/
theorem Drains.unique {p : Planner} {o o' : Outcome Unit} (h : Drains p o) (h' : Drains p o') :
    o = o' := by
  -- the head of what is pending says which of the constructors applies, and what is specified then
  induction h with
  | done hpending =>
    cases h' with
    | done => rfl
    | next h' => cases hpending.symm.trans h'
    | failed h' => cases hpending.symm.trans h'
  | next hpending hstep _ ih =>
    cases h' with
    | done h' => cases hpending.symm.trans h'
    | next h' hstep' hrest' =>
      obtain ⟨rfl, rfl⟩ := List.cons.inj (hpending.symm.trans h')
      obtain ⟨rfl, -⟩ := Prod.mk.inj (hstep.symm.trans hstep')
      exact ih hrest'
    | failed h' hstep' =>
      obtain ⟨rfl, rfl⟩ := List.cons.inj (hpending.symm.trans h')
      cases hstep.symm.trans hstep'
  | failed hpending hstep =>
    cases h' with
    | done h' => cases hpending.symm.trans h'
    | next h' hstep' =>
      obtain ⟨rfl, rfl⟩ := List.cons.inj (hpending.symm.trans h')
      cases hstep.symm.trans hstep'
    | failed h' hstep' =>
      obtain ⟨rfl, rfl⟩ := List.cons.inj (hpending.symm.trans h')
      exact hstep.symm.trans hstep'

/-- A call comes to one thing only. -/
theorem Answers.unique {p : Planner} {c : Call} {o o' : Outcome Answer} (h : Answers p c o)
    (h' : Answers p c o') : o = o' := by
  -- what a call finds at once leaves one constructor, and the drain behind it has one end
  cases h with
  | refused hrefused =>
    cases h' with
    | refused hrefused' => rw [Except.error.inj (hrefused.symm.trans hrefused')]
    | answered hanswer' => cases hrefused.symm.trans hanswer'
    | failed hanswer' => cases hrefused.symm.trans hanswer'
  | answered hanswer hd =>
    cases h' with
    | refused hrefused' => cases hanswer.symm.trans hrefused'
    | answered hanswer' hd' =>
      obtain ⟨rfl, -⟩ := Prod.mk.inj (hd.unique hd')
      rw [Except.ok.inj (hanswer.symm.trans hanswer')]
    | failed _ hd' => cases hd.unique hd'
  | failed hanswer hd =>
    cases h' with
    | refused hrefused' => cases hanswer.symm.trans hrefused'
    | answered _ hd' => cases hd.unique hd'
    | failed _ hd' =>
      obtain ⟨rfl, he⟩ := Prod.mk.inj (hd.unique hd')
      rw [Except.error.inj he]

/-! ### Ledgers -/

/-- Requests specify nothing yet. -/
theorem enqueueAll_converters (p : Planner) (rs : List Request) :
    (rs.foldl enqueue p).converters = p.converters := by
  induction rs generalizing p with
  | nil => rfl
  | cons r rs ih =>
    rw [List.foldl_cons, ih]
    unfold enqueue
    dsimp only
    split <;> rfl

/-- Only what is asked for is queued. -/
theorem queued_enqueueAll (p : Planner) (rs : List Request) :
    (rs.foldl enqueue p).queued ⊆ p.queued ++ rs.map p.view.nameOf := by
  induction rs generalizing p with
  | nil => simp
  | cons r rs ih =>
    intro n hn
    have hrest := ih (p.enqueue r) hn
    rw [enqueue_view, List.mem_append] at hrest
    rw [List.map_cons, List.mem_append, List.mem_cons]
    obtain hn | hn := hrest
    · unfold enqueue at hn
      dsimp only at hn
      split at hn
      · exact .inl hn
      · exact (List.mem_cons.mp hn).elim (fun hn => .inr (.inl hn)) .inl
    · exact .inr (.inr hn)

/-- The books of a planner: every name that was asked for is specified, pending or lost, one of
    these and once, and what is specified is so under its name, with all that it refers to asked
    for. -/
structure Ledger (w : View) (lost : List String) (p : Planner) : Prop where
  view : p.view = w
  nodup : p.queued.Nodup
  named : p.queued ⊆ w.names
  balance : p.queued.Perm (p.converters.map (·.1) ++ p.pending.map w.nameOf ++ lost)
  specified : ∀ e ∈ p.converters, ∃ r table, w.nameOf r = e.1 ∧
    (w.converter r).result = .ok (e.2, table) ∧
    ∀ q ∈ (w.converter r).requests, w.nameOf q ∈ p.queued

namespace Ledger

variable {w : View} {lost : List String} {p q : Planner}

/-- The books of a planner that starts are in order. -/
theorem start (w : View) : (start w).Ledger w [] where
  view := rfl
  nodup := .nil
  named := List.nil_subset _
  balance := .nil
  specified := by simp [Planner.start]

/-- A name that was asked for is specified, pending or lost. -/
theorem mem_queued (h : p.Ledger w lost) {n : String} : n ∈ p.queued ↔
    n ∈ p.converters.map (·.1) ∨ n ∈ p.pending.map w.nameOf ∨ n ∈ lost := by
  rw [h.balance.mem_iff, List.mem_append, List.mem_append, or_assoc]

/-- No more names are asked for than there are. -/
theorem length_queued_le (h : p.Ledger w lost) : p.queued.length ≤ w.names.length :=
  (h.nodup.subperm h.named).length_le

/-- No more names are lost than there are. -/
theorem length_lost_le (h : p.Ledger w lost) : lost.length ≤ w.names.length := by
  have hlength := h.balance.length_eq
  rw [List.length_append] at hlength
  exact le_trans (by omega) h.length_queued_le

/-- A request keeps the books in order. -/
theorem enqueue (h : p.Ledger w lost) (r : Request) : (p.enqueue r).Ledger w lost := by
  have hname : (p.view.reference r).function = w.nameOf r := by rw [h.view, View.nameOf]
  unfold Planner.enqueue
  rw [hname]
  dsimp only
  split
  · exact h
  · rename_i hnew
    rw [List.contains_iff_mem] at hnew
    constructor
    case view => exact h.view
    case nodup => exact List.nodup_cons.mpr ⟨hnew, h.nodup⟩
    case named => exact List.cons_subset.mpr ⟨w.nameOf_mem_names r, h.named⟩
    case balance =>
      -- the name goes to the end of what is pending, and to the head of what is queued
      rw [List.map_cons, List.append_assoc, List.cons_append]
      refine (h.balance.cons _).trans ?_
      rw [List.append_assoc]
      exact List.perm_middle.symm
    case specified =>
      intro e he
      obtain ⟨r', table, hr', hok, hnested⟩ := h.specified e he
      exact ⟨r', table, hr', hok, fun q hq => List.mem_cons_of_mem _ (hnested q hq)⟩

/-- Requests keep the books in order, and all of them are queued. -/
theorem enqueueAll (h : p.Ledger w lost) (rs : List Request) :
    (rs.foldl Planner.enqueue p).Ledger w lost ∧
      ∀ r ∈ rs, w.nameOf r ∈ (rs.foldl Planner.enqueue p).queued := by
  induction rs generalizing p with
  | nil => exact ⟨h, by simp⟩
  | cons r rs ih =>
    obtain ⟨hledger, hnames⟩ := ih (h.enqueue r)
    refine ⟨hledger, List.forall_mem_cons.mpr ⟨?_, hnames⟩⟩
    exact enqueueAll_queued _ rs (Tracked.mem_queued_enqueue h.view r)

/-- What is taken to be specified is lost for now. -/
theorem take (h : p.Ledger w lost) {r : Request} {rest : List Request}
    (hpending : p.pending = r :: rest) :
    { p with pending := rest }.Ledger w (w.nameOf r :: lost) where
  view := h.view
  nodup := h.nodup
  named := h.named
  balance := by
    refine h.balance.trans ?_
    rw [hpending, List.map_cons, List.append_assoc, List.append_assoc, List.cons_append]
    exact List.Perm.append_left _ List.perm_middle.symm
  specified := h.specified

/-- What is specified is lost no more. -/
theorem add {r : Request} (h : p.Ledger w (w.nameOf r :: lost))
    {x : Converter × Option ReceiveTable} (hok : (w.converter r).result = .ok x)
    (hnested : ∀ q ∈ (w.converter r).requests, w.nameOf q ∈ p.queued) :
    (p.add x).Ledger w lost ∧ (p.add x).converters.Perm ((w.nameOf r, x.1) :: p.converters) := by
  have hname : x.1.function = w.nameOf r := (View.converter_spec hok).2
  -- the name is on the books once, as a lost one, so that the entry overwrites none
  have hfresh : w.nameOf r ∉ p.converters.map (·.1) := by
    have hnodup := h.balance.nodup h.nodup
    rw [List.append_assoc] at hnodup
    intro hmem
    exact (List.nodup_append.mp hnodup).2.2 _ hmem _
      (List.mem_append_right _ List.mem_cons_self) rfl
  have hperm : (p.add x).converters.Perm ((w.nameOf r, x.1) :: p.converters) := by
    have hinsert := Sorted.insert_perm hfresh x.1
    rwa [← hname] at hinsert ⊢
  refine ⟨⟨h.view, h.nodup, h.named, ?_, ?_⟩, hperm⟩
  · have hkeys : ((p.add x).converters.map (·.1)).Perm (w.nameOf r :: p.converters.map (·.1)) := by
      simpa using hperm.map (·.1)
    refine (h.balance.trans List.perm_middle).trans ?_
    rw [← List.cons_append, ← List.cons_append]
    exact (hkeys.symm.append_right _).append_right _
  · intro e he
    obtain rfl | he := List.mem_cons.mp (hperm.mem_iff.mp he)
    · exact ⟨r, x.2, rfl, hok, hnested⟩
    · exact h.specified e he

/-! ### Steps, drains and calls -/

/-- A converter that is specified is entered under its name. -/
theorem entered (h : p.Ledger w lost) {r : Request} {rest : List Request}
    (hpending : p.pending = r :: rest) {u : Unit}
    (hstep : specify { p with pending := rest } r = (q, .ok u)) :
    q.Ledger w lost ∧ ∃ x, (w.converter r).result = .ok x ∧
      q.converters.Perm ((w.nameOf r, x.1) :: p.converters) ∧
      q.queued ⊆ p.queued ++ (w.converter r).requests.map w.nameOf := by
  obtain rfl := h.view
  obtain ⟨hasked, hnested⟩ := (h.take hpending).enqueueAll (p.view.converter r).requests
  unfold specify at hstep
  dsimp only at hstep
  split at hstep
  · rename_i x hok
    obtain ⟨rfl, -⟩ := Prod.mk.inj hstep
    obtain ⟨hledger, hperm⟩ := hasked.add hok hnested
    rw [enqueueAll_converters] at hperm
    exact ⟨hledger, x, hok, hperm, queued_enqueueAll { p with pending := rest } _⟩
  · cases hstep

/-- A converter that fails is lost. -/
theorem missed (h : p.Ledger w lost) {r : Request} {rest : List Request}
    (hpending : p.pending = r :: rest) {e : ConversionError}
    (hstep : specify { p with pending := rest } r = (q, .error e)) :
    (w.converter r).result = .error e ∧ q.Ledger w (w.nameOf r :: lost) := by
  obtain rfl := h.view
  have hasked := ((h.take hpending).enqueueAll (p.view.converter r).requests).1
  unfold specify at hstep
  dsimp only at hstep
  split at hstep
  · cases hstep
  · rename_i e' hfails
    obtain ⟨rfl, he⟩ := Prod.mk.inj hstep
    exact ⟨hfails.trans (congrArg _ (Except.error.inj he)), hasked⟩

/-- **Drains end**, with what the bounded ones come to. -/
theorem drains (h : p.Ledger w lost) {n : Nat} (hn : Suffices n p) :
    Drains p (drainWithin n p) := by
  induction n generalizing p with
  | zero =>
    -- every name there is has been asked for, so that the budget is used up only with nothing
    -- pending
    refine .done (List.length_eq_zero_iff.mp ?_)
    have hle := h.length_queued_le
    unfold Suffices at hn
    rw [h.view] at hn
    omega
  | succ n ih =>
    rw [drainWithin]
    split
    · exact .done ‹_›
    · rename_i r rest hpending
      have hroom := hn.specify hpending
      split
      · rename_i q _ hstep
        rw [hstep] at hroom
        exact .next hpending hstep (ih (h.entered hpending hstep).1 hroom)
      · rename_i q e hstep
        exact .failed hpending hstep

/-- A drain that succeeds leaves nothing pending, and one that fails loses the name of
    what failed. -/
theorem drained (h : p.Ledger w lost) {o : Outcome Unit} (ho : Drains p o) :
    o.2 = .ok () ∧ o.1.Ledger w lost ∧ o.1.pending = [] ∨
      ∃ r e, o.2 = .error e ∧ (w.converter r).result = .error e ∧
        o.1.Ledger w (w.nameOf r :: lost) := by
  induction ho with
  | done hpending => exact .inl ⟨rfl, h, hpending⟩
  | next hpending hstep _ ih => exact ih (h.entered hpending hstep).1
  | failed hpending hstep =>
    obtain ⟨hfails, hledger⟩ := h.missed hpending hstep
    exact .inr ⟨_, _, rfl, hfails, hledger⟩

/-- What a call asks for keeps the books in order, and all of it is queued. -/
theorem asked (h : p.Ledger w lost) (c : Call) : (p.asked c).Ledger w lost ∧
    ∀ r ∈ (w.answer c).requests, w.nameOf r ∈ (p.asked c).queued := by
  obtain rfl := h.view
  exact h.enqueueAll _

/-- **Calls end**, with what the bounded drains come to. -/
theorem answers (h : p.Ledger w lost) (c : Call) : Answers p c (p.call c) := by
  have hasked := (h.asked c).1
  have hdrains : Drains (p.asked c) (p.asked c).drain := hasked.drains (suffices_budget _)
  have hview : (p.asked c).drain.1.view = p.view := by
    obtain ⟨-, hledger, -⟩ | ⟨_, _, -, -, hledger⟩ := hasked.drained hdrains
    · rw [hledger.view, h.view]
    · rw [hledger.view, h.view]
  -- a call is its requests, drained, whichever of the two it is
  cases c with
  | message kind id =>
    have hask : p.asked (.message kind id) = p.enqueue (p.view.request kind (.message id)) := rfl
    rw [call, requestMessage, ← hask]
    generalize (p.asked (.message kind id)).drain = o at hdrains hview ⊢
    obtain ⟨q, e | ⟨⟩⟩ := o
    · exact .failed rfl hdrains
    · dsimp only at hview ⊢
      rw [hview]
      exact .answered rfl hdrains
  | action kind field target =>
    have hask : p.asked (.action kind field target)
        = (p.view.action kind field target target).requests.foldl Planner.enqueue p := rfl
    rw [call, downAction, ← hask]
    split
    · rename_i e hrefused
      exact .refused (by rw [View.answer, hrefused]; rfl)
    · rename_i a hok
      have hanswer : (p.view.answer (.action kind field target)).result = .ok (.action a) := by
        rw [View.answer, hok]
        rfl
      generalize (p.asked (.action kind field target)).drain = o at hdrains ⊢
      obtain ⟨q, e | ⟨⟩⟩ := o
      · exact .failed hanswer hdrains
      · exact .answered hanswer hdrains

/-- Every call comes to what the bounded drains come to, and to nothing else. -/
theorem answers_iff (h : p.Ledger w lost) {c : Call} {o : Outcome Answer} :
    Answers p c o ↔ o = p.call c :=
  ⟨fun ho => ho.unique (h.answers c), fun ho => ho ▸ h.answers c⟩

/-- **What a call does to the books.**  If it succeeds, nothing is pending and nothing else is lost;
    if it fails, then because there is no way, or because of a converter whose name is lost. -/
theorem outcome (h : p.Ledger w lost) {c : Call} {o : Outcome Answer} (ho : Answers p c o) :
    (∃ a, o.2 = .ok a ∧ (w.answer c).result = .ok a ∧ o.1.Ledger w lost ∧ o.1.pending = []) ∨
      ∃ e, o.2 = .error e ∧ ((w.answer c).result = .error e ∧ o.1.Ledger w lost ∨
        ∃ r, (w.converter r).result = .error e ∧ o.1.Ledger w (w.nameOf r :: lost)) := by
  have hasked := (h.asked c).1
  obtain rfl := h.view
  cases ho with
  | refused hrefused => exact .inr ⟨_, rfl, .inl ⟨hrefused, hasked⟩⟩
  | answered hanswer hd =>
    obtain ⟨-, hledger, hpending⟩ | ⟨r, e, he, -⟩ := hasked.drained hd
    · exact .inl ⟨_, rfl, hanswer, hledger, hpending⟩
    · cases he
  | failed hanswer hd =>
    obtain ⟨he, -⟩ | ⟨r, e, he, hfails, hledger⟩ := hasked.drained hd
    · cases he
    · obtain rfl := Except.error.inj he
      exact .inr ⟨_, rfl, .inr ⟨r, hfails, hledger⟩⟩

/-- What is lost stays lost. -/
theorem call (h : p.Ledger w lost) (c : Call) :
    ∃ lost', lost <:+ lost' ∧ (p.call c).1.Ledger w lost' := by
  obtain ⟨_, -, -, hledger, -⟩ | ⟨_, -, ⟨-, hledger⟩ | ⟨r, -, hledger⟩⟩ := h.outcome (h.answers c)
  · exact ⟨lost, List.suffix_rfl, hledger⟩
  · exact ⟨lost, List.suffix_rfl, hledger⟩
  · exact ⟨_, List.suffix_cons _ _, hledger⟩

/-- **A session keeps its books.** -/
theorem run (h : p.Ledger w lost) (calls : List Call) :
    ∃ lost', lost <:+ lost' ∧ (p.run calls).1.Ledger w lost' := by
  induction calls generalizing p lost with
  | nil => exact ⟨lost, List.suffix_rfl, h⟩
  | cons c calls ih =>
    obtain ⟨lost', hsuffix, hledger⟩ := h.call c
    obtain ⟨lost'', hsuffix', hledger'⟩ := ih hledger
    exact ⟨lost'', hsuffix.trans hsuffix', hledger'⟩

end Ledger

/-- Specifying a converter forgets no name that was asked for. -/
theorem queued_subset_specify (p : Planner) (r : Request) :
    p.queued ⊆ (specify p r).1.queued := by
  have hsub := enqueueAll_queued p (p.view.converter r).requests
  unfold specify
  dsimp only
  split <;> exact hsub

/-- What has been asked for stays so. -/
theorem Drains.queued {p : Planner} {o : Outcome Unit} (h : Drains p o) :
    p.queued ⊆ o.1.queued := by
  induction h with
  | done _ => exact fun n hn => hn
  | @next p q r rest _ _ hstep _ ih =>
    have hsub := queued_subset_specify { p with pending := rest } r
    rw [hstep] at hsub
    exact List.Subset.trans hsub ih
  | @failed p q r rest _ _ hstep =>
    have hsub := queued_subset_specify { p with pending := rest } r
    rwa [hstep] at hsub

/-- What a call has asked for stays so. -/
theorem Answers.queued {p : Planner} {c : Call} {o : Outcome Answer} (h : Answers p c o) :
    (p.asked c).queued ⊆ o.1.queued := by
  cases h with
  | refused => exact List.Subset.refl _
  | answered _ hd => exact hd.queued
  | failed _ hd => exact hd.queued

end Planner

/-! ### A sample -/

/-- A package of trees: a node has a leaf and more nodes.  The comment is the one of leaves. -/
def treePackage (package leaf : String) : PackageSchema :=
  let field := fun name kind typeName repeated =>
    { name, number := 1, kind, repeated, typeName, oneof := none, carrier := {} : FieldSchema }
  let message := fun name fields comment =>
    { name, localName := name, fullName := package ++ "." ++ name, parent := none, fields
      oneofs := []
      carrier := { comments := { leading := comment } } : MessageSchema }
  { name := package
    messages := [
      message "Leaf" [
        field "text" (.scalar .string) none false,
        field "kind" .enumeration (some (package ++ ".Kind")) false] leaf,
      message "Node" [
        field "leaf" .message (some (package ++ ".Leaf")) false,
        field "below" .message (some (package ++ ".Nodes")) false] "",
      message "Nodes" [field "nodes" .message (some (package ++ ".Node")) true] ""]
    enums := [
      { name := "Kind", localName := "Kind", fullName := package ++ ".Kind", parent := none
        values := [{ name := "NONE", number := 0, carrier := {} }], carrier := {} }]
    services := [
      { name := "Service", carrier := {}
        methods := [
          { name := "Get", input := package ++ ".Node", output := package ++ ".Node",
            carrier := {} }] }] }

/-- Two public versions of trees and the private one, with a comment on the leaves of the first
    version. -/
def treePackages (leaf : String) : List PackageSchema :=
  [treePackage "v1" leaf, treePackage "v2" "", treePackage "private" ""]

/-- A comment that makes the leaves of the first version deprecated. -/
def fallen : String := "gen:svc deprecated"

/-- The first version of the trees. -/
def treeView (leaf : String) : View where
  chain :=
    ((Chain.ofPackages AnnotationStyle.comments.source "private"
      (treePackages leaf)).toOption).getD {}
  version := ⟨0⟩

end Lineage
