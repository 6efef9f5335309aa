import Lineage.Converter.Planner
import Lineage.Proofs.Converter.Specify
import Lineage.Proofs.Sorted
import Mathlib.Data.List.Perm.Subperm

namespace Lineage

/-!
# Runs of the planner

* `Planner.Kept` — a property that asking for converters and specifying them keeps; whatever is
  asked of the planner keeps it then,
* `View.Asked` — what is asked for, directly or by a converter that is asked for,
* `Planner.Tracked` — every converter comes from what is asked for, and everything asked for is
  specified, pending or being specified, `Planner.kept_tracked` — a planner keeps that,
* `Planner.Tracked.drained` — a drain that succeeds leaves nothing pending.
-/

namespace Planner

/-! ### Properties that a planner keeps -/

/-- A property of the planner after a success, and one after a failure. -/
def Outcome.Within {α : Type} (Inv Post : Planner → Prop) (o : Outcome α) : Prop :=
  match o.2 with
  | .ok _ => Inv o.1
  | .error _ => Post o.1

/-- What succeeds keeps the invariant. -/
theorem Outcome.Within.of_ok {α : Type} {Inv Post : Planner → Prop} {o : Outcome α} {p : Planner}
    {a : α} (h : o.Within Inv Post) (ho : o = (p, .ok a)) : Inv p := by
  rw [ho] at h
  exact h

/-- A property of the planners of a view that holds on as long as nothing fails, and what it leaves
    behind after a failure. -/
structure Kept (w : View) (Ask : Request → Prop) (Inv Post : Planner → Prop) : Prop where
  view : ∀ {p}, Inv p → p.view = w
  enqueue : ∀ {p r}, Ask r → Inv p → Inv (p.enqueue r)
  specify : ∀ {p r rest}, p.pending = r :: rest → Inv p →
    (specify { p with pending := rest } r).Within Inv Post
  weaken : ∀ {p}, Inv p → Post p

namespace Kept

variable {w : View} {Ask : Request → Prop} {Inv Post : Planner → Prop}
  (hk : Kept w Ask Inv Post)
include hk

/-- The invariant outlasts requests that may be made. -/
theorem enqueueAll {rs : List Request} (hr : ∀ r ∈ rs, Ask r) {p : Planner} (hp : Inv p) :
    Inv (rs.foldl Planner.enqueue p) := by
  induction rs generalizing p with
  | nil => exact hp
  | cons r rs ih =>
    obtain ⟨hr, hrs⟩ := List.forall_mem_cons.mp hr
    exact ih hrs (hk.enqueue hr hp)

/-- The invariant outlasts any number of steps. -/
theorem drainWithin (n : Nat) {p : Planner} (hp : Inv p) :
    (drainWithin n p).Within Inv Post := by
  induction n generalizing p with
  | zero => exact hp
  | succ n ih =>
    rw [Planner.drainWithin]
    split
    · exact hp
    · rename_i r rest hpending
      have hstep := hk.specify hpending hp
      split
      · rename_i p' _ h
        exact ih (hstep.of_ok h)
      · rename_i p' e h
        rwa [h] at hstep

/-- The invariant outlasts a request for a message. -/
theorem requestMessage {kind : ConverterKind} {m : MessageId}
    (hr : Ask (w.request kind (.message m))) {p : Planner} (hp : Inv p) :
    (p.requestMessage kind m).Within Inv Post := by
  have hview := hk.view hp
  have hdrain := hk.drainWithin (p.enqueue (w.request kind (.message m))).budget (hk.enqueue hr hp)
  unfold Planner.requestMessage
  rw [hview]
  dsimp only [drain]
  split
  · rename_i p' _ h
    exact hdrain.of_ok h
  · rename_i p' e h
    rwa [h] at hdrain

/-- The invariant outlasts a request for an action. -/
theorem downAction {kind : ConverterKind} {f t : FieldId}
    (hr : ∀ r ∈ (w.action kind f t t).requests, Ask r) {p : Planner} (hp : Inv p) :
    (p.downAction kind f t).Within Inv Post := by
  have hview := hk.view hp
  have hasked := hk.enqueueAll hr hp
  have hdrain :=
    hk.drainWithin ((w.action kind f t t).requests.foldl Planner.enqueue p).budget hasked
  unfold Planner.downAction
  rw [hview]
  dsimp only [drain]
  split
  · exact hk.weaken hasked
  · split
    · rename_i p' _ h
      exact hdrain.of_ok h
    · rename_i p' e h
      rwa [h] at hdrain

end Kept

/-! ### What is asked for -/

end Planner

namespace View

/-- What is asked for: what is asked for directly, and what the converter of anything asked for
    needs. -/
inductive Asked (w : View) (Root : Request → Prop) : Request → Prop
  | root {r : Request} (h : Root r) : Asked w Root r
  | nested {r q : Request} (h : Asked w Root r) (hq : q ∈ (w.converter r).requests) :
    Asked w Root q

/-- The names that a converter of the view can have; a type that the chain does not have has an
    empty name. -/
def names (w : View) : List String :=
  [ConverterKind.toNext, .toPrivate, .toPublic, .toDeprecatedPublic].flatMap fun kind =>
    (w.chain.messages.toList.map (·.localName) ++ w.chain.enums.toList.map (·.localName)
      ++ [""]).map kind.functionName

/-- A view has four names for each type, and four for what is no type. -/
theorem length_names (w : View) :
    w.names.length = 4 * (w.chain.messages.size + w.chain.enums.size + 1) := by
  simp [names]
  omega

/-- The local name of a type is one of the chain's, or empty. -/
theorem localName_mem (w : View) (s : Subject) :
    w.localName s ∈ w.chain.messages.toList.map (·.localName)
      ++ w.chain.enums.toList.map (·.localName) ++ [""] := by
  -- at a position without an entry, the name is empty
  cases s with
  | message m =>
    refine forall_getD (p := fun x : Message => x.localName ∈ _) (fun x hx => ?_)
      (List.mem_append_right _ List.mem_cons_self) m.index
    exact List.mem_append_left _
      (List.mem_append_left _ (List.mem_map_of_mem (Array.mem_toList_iff.mpr hx)))
  | enumeration e =>
    refine forall_getD (p := fun x : Enum => x.localName ∈ _) (fun x hx => ?_)
      (List.mem_append_right _ List.mem_cons_self) e.index
    exact List.mem_append_left _
      (List.mem_append_right _ (List.mem_map_of_mem (Array.mem_toList_iff.mpr hx)))

/-- A request has one of the names of the view. -/
theorem nameOf_mem_names (w : View) (r : Request) : w.nameOf r ∈ w.names := by
  refine List.mem_flatMap.mpr ⟨r.kind, by cases r.kind <;> simp, ?_⟩
  exact List.mem_map.mpr ⟨_, w.localName_mem r.subject, rfl⟩

end View

namespace Planner

/-! ### What asking leaves as it is -/

/-- A request forgets none that was made before. -/
theorem queued_subset_enqueue (p : Planner) (r : Request) : p.queued ⊆ (p.enqueue r).queued := by
  unfold Planner.enqueue
  dsimp only
  split
  · exact fun n hn => hn
  · exact fun n hn => List.mem_cons_of_mem _ hn

/-- Requests forget none that was made before. -/
theorem enqueueAll_queued (p : Planner) (rs : List Request) :
    p.queued ⊆ (rs.foldl enqueue p).queued := by
  induction rs generalizing p with
  | nil => exact fun n hn => hn
  | cons r rs ih => exact fun n hn => ih (p.enqueue r) (queued_subset_enqueue p r hn)

/-- A request does not change the view. -/
theorem enqueue_view (p : Planner) (r : Request) : (p.enqueue r).view = p.view := by
  unfold enqueue
  dsimp only
  split <;> rfl

/-- Requests do not change the view. -/
theorem enqueueAll_view (p : Planner) (rs : List Request) :
    (rs.foldl enqueue p).view = p.view := by
  induction rs generalizing p with
  | nil => rfl
  | cons r rs ih => rw [List.foldl_cons, ih, enqueue_view]

/-! ### Tracked planners -/

/-- The state of a planner while it specifies some requests: every converter comes from what is
    asked for, and whatever has been asked for is specified, pending or being specified. -/
structure Tracked (w : View) (Root : Request → Prop) (current : List Request) (p : Planner) :
    Prop where
  view : p.view = w
  nodup : p.queued.Nodup
  sorted : p.converters.Pairwise (·.1 < ·.1)
  named : ∀ n ∈ p.queued, ∃ r, w.nameOf r = n
  pending : ∀ r ∈ p.pending, w.Asked Root r
  converters : ∀ e ∈ p.converters, ∃ r table, w.Asked Root r ∧ w.nameOf r = e.1 ∧
    (w.converter r).result = .ok (e.2, table) ∧
    ∀ q ∈ (w.converter r).requests, w.nameOf q ∈ p.queued
  served : ∀ n ∈ p.queued,
    (Sorted.get? p.converters n).isSome ∨ ∃ r ∈ p.pending ++ current, w.nameOf r = n

namespace Tracked

variable {w : View} {Root : Request → Prop} {current : List Request} {p p' : Planner}

/-- A planner that starts is tracked. -/
theorem start (w : View) (Root : Request → Prop) : Tracked w Root [] { view := w } where
  view := rfl
  nodup := .nil
  sorted := .nil
  named := by simp
  pending := by simp
  converters := by simp
  served := by simp

/-- A request that may be made keeps a planner tracked. -/
theorem enqueue (h : p.Tracked w Root current) {r : Request} (hr : w.Asked Root r) :
    (p.enqueue r).Tracked w Root current := by
  have hname : (p.view.reference r).function = w.nameOf r := by rw [h.view, View.nameOf]
  unfold Planner.enqueue
  rw [hname]
  dsimp only
  split
  · exact h
  · rename_i hnew
    rw [List.contains_iff_mem] at hnew
    -- the new name is queued and pending, and nothing else changes
    constructor
    case view => exact h.view
    case nodup => exact List.nodup_cons.mpr ⟨hnew, h.nodup⟩
    case sorted => exact h.sorted
    case named =>
      intro n hn
      obtain rfl | hn := List.mem_cons.mp hn
      · exact ⟨r, rfl⟩
      · exact h.named n hn
    case pending => exact List.forall_mem_cons.mpr ⟨hr, h.pending⟩
    case converters =>
      intro e he
      obtain ⟨r', table, hasked, hr', hok, hnested⟩ := h.converters e he
      exact ⟨r', table, hasked, hr', hok, fun q hq => List.mem_cons_of_mem _ (hnested q hq)⟩
    case served =>
      intro n hn
      obtain rfl | hn := List.mem_cons.mp hn
      · exact .inr ⟨r, by simp, rfl⟩
      · obtain hdone | ⟨r', hr', hn'⟩ := h.served n hn
        · exact .inl hdone
        · exact .inr ⟨r', List.mem_cons_of_mem _ hr', hn'⟩

/-- A request is queued under its name. -/
theorem mem_queued_enqueue (h : p.view = w) (r : Request) : w.nameOf r ∈ (p.enqueue r).queued := by
  have hname : (p.view.reference r).function = w.nameOf r := by rw [h, View.nameOf]
  unfold Planner.enqueue
  rw [hname]
  dsimp only
  split
  · exact List.contains_iff_mem.mp ‹_›
  · exact List.mem_cons_self

/-- Requests that may be made keep a planner tracked, and all of them are queued. -/
theorem enqueueAll (h : p.Tracked w Root current) {rs : List Request}
    (hr : ∀ r ∈ rs, w.Asked Root r) :
    (rs.foldl Planner.enqueue p).Tracked w Root current ∧
      ∀ r ∈ rs, w.nameOf r ∈ (rs.foldl Planner.enqueue p).queued := by
  induction rs generalizing p with
  | nil => exact ⟨h, by simp⟩
  | cons r rs ih =>
    obtain ⟨hr, hrs⟩ := List.forall_mem_cons.mp hr
    obtain ⟨htracked, hnames⟩ := ih (h.enqueue hr) hrs
    refine ⟨htracked, List.forall_mem_cons.mpr ⟨?_, hnames⟩⟩
    exact enqueueAll_queued _ rs (mem_queued_enqueue h.view r)

/-- Taking a pending request means specifying it. -/
theorem take (h : p.Tracked w Root []) {r : Request} {rest : List Request}
    (hpending : p.pending = r :: rest) :
    { p with pending := rest }.Tracked w Root [r] ∧ w.Asked Root r := by
  have hasked := h.pending
  rw [hpending] at hasked
  obtain ⟨hr, hrest⟩ := List.forall_mem_cons.mp hasked
  refine ⟨⟨h.view, h.nodup, h.sorted, h.named, hrest, h.converters, fun n hn => ?_⟩, hr⟩
  obtain hdone | ⟨q, hq, hname⟩ := h.served n hn
  · exact .inl hdone
  · refine .inr ⟨q, ?_, hname⟩
    simpa [hpending, or_comm] using hq

/-- What is specified is added under the name of its request. -/
theorem add {r : Request} (h : p.Tracked w Root [r]) (hr : w.Asked Root r)
    {x : Converter × Option ReceiveTable} (hok : (w.converter r).result = .ok x)
    (hnested : ∀ q ∈ (w.converter r).requests, w.nameOf q ∈ p.queued) :
    (p.add x).Tracked w Root [] := by
  have hname : x.1.function = w.nameOf r := (View.converter_spec hok).2
  constructor
  case view => exact h.view
  case nodup => exact h.nodup
  case sorted => exact Sorted.pairwise_insert h.sorted _ _
  case named => exact h.named
  case pending => exact h.pending
  case converters =>
    intro e he
    obtain rfl | he := Sorted.mem_insert he
    · exact ⟨r, x.2, hr, hname.symm, hok, hnested⟩
    · exact h.converters e he
  -- the request in progress is done now, under its own name
  case served =>
    intro n hn
    dsimp only [Planner.add]
    rw [Sorted.get?_insert, hname]
    by_cases heq : n = w.nameOf r
    · exact .inl (by simp [heq])
    · rw [if_neg heq]
      refine (h.served n hn).imp_right ?_
      rintro ⟨q, hq, rfl⟩
      obtain hq | hq := List.mem_append.mp hq
      · exact ⟨q, by simpa using hq, rfl⟩
      · exact absurd (by rw [List.mem_singleton.mp hq]) heq

/-- What a converter of the planner answers and asks for. -/
theorem specified (h : p.Tracked w Root current) {n : String} {x : Converter}
    (hx : (n, x) ∈ p.converters) : ∃ table, w.Asked Root x.request ∧ w.nameOf x.request = n ∧
      (w.converter x.request).result = .ok (x, table) ∧
      ∀ q ∈ (w.converter x.request).requests, w.nameOf q ∈ p.queued := by
  obtain ⟨r, table, hr, hname, hok, hqueued⟩ := h.converters _ hx
  obtain ⟨rfl, -⟩ := View.converter_spec hok
  exact ⟨table, hr, hname, hok, hqueued⟩

/-- No more names are asked for than there are. -/
theorem length_queued_le (h : p.Tracked w Root current) : p.queued.length ≤ w.names.length := by
  refine (h.nodup.subperm fun n hn => ?_).length_le
  obtain ⟨r, rfl⟩ := h.named n hn
  exact w.nameOf_mem_names r

end Tracked

variable {w : View} {Root : Request → Prop} {p p' : Planner}

/-- **A planner stays tracked**, as long as it is asked for what is asked for. -/
theorem kept_tracked (w : View) (Root : Request → Prop) :
    Kept w (w.Asked Root) (Tracked w Root []) fun p => ∃ current, p.Tracked w Root current where
  view := (·.view)
  enqueue hr h := h.enqueue hr
  specify := by
    intro p r rest hpending h
    obtain ⟨htaken, hr⟩ := h.take hpending
    obtain rfl := h.view
    obtain ⟨htracked, hnested⟩ := htaken.enqueueAll fun q hq => .nested hr hq
    unfold specify
    dsimp only
    split
    · exact htracked.add hr ‹_› hnested
    · exact ⟨[r], htracked⟩
  weaken h := ⟨[], h⟩

/-- What has been asked for stays so. -/
theorem kept_queued (w : View) (names : List String) :
    Kept w (fun _ => True) (fun p => p.view = w ∧ names ⊆ p.queued)
      fun p => p.view = w ∧ names ⊆ p.queued where
  view h := h.1
  enqueue := by
    intro p r _ h
    exact ⟨(enqueue_view p r).trans h.1, fun n hn => queued_subset_enqueue p r (h.2 hn)⟩
  specify := by
    intro p r rest _ h
    have hview := enqueueAll_view { p with pending := rest } (p.view.converter r).requests
    have hqueued := enqueueAll_queued { p with pending := rest } (p.view.converter r).requests
    unfold specify
    dsimp only
    split <;> exact ⟨hview.trans h.1, fun n hn => hqueued (h.2 hn)⟩
  weaken h := h

/-! ### Drains -/

/-- So many steps suffice to specify whatever can still be asked for. -/
def Suffices (n : Nat) (p : Planner) : Prop :=
  p.pending.length + p.view.names.length ≤ n + p.queued.length

/-- The budget of a planner suffices. -/
theorem suffices_budget (p : Planner) : Suffices p.budget p := by
  have hnames := p.view.length_names
  unfold Suffices budget
  omega

/-- A request takes no more steps than there are names. -/
theorem Suffices.enqueue {n : Nat} (h : Suffices n p) (r : Request) :
    Suffices n (p.enqueue r) := by
  unfold Suffices Planner.enqueue at *
  dsimp only
  split
  · exact h
  · simp only [List.length_cons]
    omega

/-- Requests take no more steps than there are names. -/
theorem Suffices.enqueueAll {n : Nat} (h : Suffices n p) (rs : List Request) :
    Suffices n (rs.foldl Planner.enqueue p) := by
  induction rs generalizing p with
  | nil => exact h
  | cons r rs ih => exact ih (h.enqueue r)

/-- One step leaves enough for the rest. -/
theorem Suffices.specify {n : Nat} (h : Suffices (n + 1) p) {r : Request} {rest : List Request}
    (hpending : p.pending = r :: rest) :
    Suffices n (specify { p with pending := rest } r).1 := by
  have htaken : Suffices n { p with pending := rest } := by
    unfold Suffices at *
    rw [hpending, List.length_cons] at h
    dsimp only
    omega
  have hall := htaken.enqueueAll (p.view.converter r).requests
  unfold Planner.specify
  dsimp only
  split <;> exact hall

/-- **Drains end.** If enough steps are allowed, a drain that succeeds leaves nothing pending. -/
theorem Tracked.drained {n : Nat} (h : p.Tracked w Root []) (hn : Suffices n p)
    {u : Unit} (hok : drainWithin n p = (p', .ok u)) : p'.pending = [] := by
  -- by the steps that are left: each takes a request off, and no name is queued twice
  induction n generalizing p with
  | zero =>
    obtain ⟨rfl, -⟩ := Prod.mk.inj hok
    have hle := h.length_queued_le
    unfold Suffices at hn
    rw [h.view] at hn
    exact List.length_eq_zero_iff.mp (by omega)
  | succ n ih =>
    rw [drainWithin] at hok
    split at hok
    · obtain ⟨rfl, -⟩ := Prod.mk.inj hok
      assumption
    · rename_i r rest hpending
      have hstep := (kept_tracked w Root).specify hpending h
      have hroom := hn.specify hpending
      split at hok
      · rename_i p₁ _ heq
        rw [heq] at hroom
        exact ih (hstep.of_ok heq) hroom hok
      · cases hok

/-- What a planner is after it has answered: nothing is pending, and what it was asked for is among
    what has been asked for. -/
structure Answered (w : View) (Root : Request → Prop) (p : Planner) (asked : List Request)
    (p' : Planner) : Prop where
  tracked : p'.Tracked w Root []
  drained : p'.pending = []
  keeps : p.queued ⊆ p'.queued
  queued : ∀ r ∈ asked, w.nameOf r ∈ p'.queued

namespace Answered

/-- What was asked for nothing has answered. -/
theorem refl (h : p.Tracked w Root []) (hpending : p.pending = []) : Answered w Root p [] p :=
  ⟨h, hpending, fun n hn => hn, by simp⟩

/-- Answers to one list of requests, then to another one, are answers to both. -/
theorem trans {p'' : Planner} {asked asked' : List Request} (h : Answered w Root p asked p')
    (h' : Answered w Root p' asked' p'') : Answered w Root p (asked ++ asked') p'' where
  tracked := h'.tracked
  drained := h'.drained
  keeps _ hn := h'.keeps (h.keeps hn)
  queued r hr := (List.mem_append.mp hr).elim (fun hr => h'.keeps (h.queued r hr)) (h'.queued r)

/-- Everything that was asked for is specified, by a converter for the requested type or for another
    one of the same name. -/
theorem get? {asked : List Request} (h : Answered w Root p asked p') {n : String}
    (hn : n ∈ p'.queued) : ∃ x, Sorted.get? p'.converters n = some x := by
  obtain hdone | ⟨q, hq, -⟩ := h.tracked.served n hn
  · exact Option.isSome_iff_exists.mp hdone
  · simp [h.drained] at hq

end Answered

/-- A request for a message that may be made is answered with its name. -/
theorem Tracked.requestMessage (h : p.Tracked w Root []) {kind : ConverterKind} {m : MessageId}
    (hr : w.Asked Root (w.request kind (.message m))) {ref : ConverterRef}
    (hok : p.requestMessage kind m = (p', .ok ref)) :
    ref = w.reference (w.request kind (.message m)) ∧
      Answered w Root p [w.request kind (.message m)] p' := by
  have htracked := ((kept_tracked w Root).requestMessage hr h).of_ok hok
  obtain rfl := h.view
  unfold Planner.requestMessage at hok
  dsimp only at hok
  split at hok
  · rename_i p₁ _ heq
    obtain ⟨rfl, href⟩ := Prod.mk.inj hok
    have hqueued :=
      (kept_queued p.view (p.enqueue (p.view.request kind (.message m))).queued).drainWithin
      (p.enqueue (p.view.request kind (.message m))).budget ⟨enqueue_view _ _, fun n hn => hn⟩
    have hsub := (hqueued.of_ok heq).2
    refine ⟨?_, htracked, (h.enqueue hr).drained (suffices_budget _) heq, ?_, ?_⟩
    · rw [← Except.ok.inj href, htracked.view]
    · exact fun n hn => hsub (queued_subset_enqueue p _ hn)
    · simpa using hsub (Tracked.mem_queued_enqueue rfl _)
  · cases hok

/-- A request for an action that may be made is answered with the action. -/
theorem Tracked.downAction (h : p.Tracked w Root []) {kind : ConverterKind} {f t : FieldId}
    (hr : ∀ r ∈ (w.action kind f t t).requests, w.Asked Root r) {a : Option Action}
    (hok : p.downAction kind f t = (p', .ok a)) :
    (w.action kind f t t).result = .ok a ∧
      Answered w Root p (w.action kind f t t).requests p' := by
  have htracked := ((kept_tracked w Root).downAction hr h).of_ok hok
  obtain rfl := h.view
  obtain ⟨hasked, hnames⟩ := h.enqueueAll hr
  unfold Planner.downAction at hok
  dsimp only at hok
  split at hok
  · cases hok
  · rename_i action haction
    split at hok
    · rename_i p₁ _ heq
      obtain ⟨rfl, hresult⟩ := Prod.mk.inj hok
      obtain rfl := Except.ok.inj hresult
      -- what has been queued stays queued during the drain
      have hqueued := (kept_queued p.view
        ((p.view.action kind f t t).requests.foldl Planner.enqueue p).queued).drainWithin
        ((p.view.action kind f t t).requests.foldl Planner.enqueue p).budget
        ⟨enqueueAll_view _ _, fun n hn => hn⟩
      have hsub := (hqueued.of_ok heq).2
      exact ⟨haction, htracked, hasked.drained (suffices_budget _) heq,
        fun n hn => hsub (enqueueAll_queued p _ hn), fun r hr => hsub (hnames r hr)⟩
    · cases hok

end Planner

end Lineage
