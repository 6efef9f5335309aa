import Lineage.Proofs.Converter.Session
import Mathlib.Order.Bounds.Basic

namespace Lineage

/-!
# What a session specifies

A session in which every call is answered specifies what its answers refer to, what this refers to
in turn, and nothing besides.

* `Planner.Leads` — what names lead to, by what converters refer to,
* `Planner.Served` — the books of a planner that has lost nothing and in which all is led to by some
  names,
* `Planner.Served.run` — a session in which every call is answered leads to all by its answers,
* `Planner.Closed` — names that have what the answers refer to and what their own converters refer
  to,
* `Planner.specifiesClosure_of_run` — the specified names are the least closed ones.
-/

namespace Planner

/-! ### Where names lead -/

/-- What some names lead to, by what converters refer to. -/
inductive Leads (converters : List (String × Converter)) (roots : List String) : String → Prop
  | root {n : String} (h : n ∈ roots) : Leads converters roots n
  | nested {e : String × Converter} {n : String} (h : Leads converters roots e.1)
      (he : e ∈ converters) (hn : n ∈ e.2.references) : Leads converters roots n

/-- With more converters and roots no fewer names are led to. -/
theorem Leads.mono {converters converters' : List (String × Converter)} {roots roots' : List String}
    {n : String} (h : Leads converters roots n) (hconverters : converters ⊆ converters')
    (hroots : roots ⊆ roots') : Leads converters' roots' n := by
  induction h with
  | root h => exact .root (hroots h)
  | nested _ he hn ih => exact .nested ih (hconverters he) hn

/-- The books of a planner that has lost nothing: everything that was asked for is led to by what
    was answered. -/
structure Served (w : View) (roots : List String) (p : Planner) : Prop where
  ledger : p.Ledger w []
  rooted : roots ⊆ p.queued
  led : ∀ n ∈ p.queued, Leads p.converters roots n

namespace Served

variable {w : View} {roots : List String} {p q : Planner}

/-- A planner that starts has served nothing. -/
theorem start (w : View) : (start w).Served w [] where
  ledger := .start w
  rooted := List.nil_subset _
  led := by simp [Planner.start]

/-- What a call asks for is what it answers with. -/
theorem asked (h : p.Served w roots) {c : Call} {a : Answer} (ha : (w.answer c).result = .ok a) :
    (p.asked c).Served w (roots ++ a.function?.toList) := by
  obtain ⟨hledger, hnames⟩ := h.ledger.asked c
  obtain rfl := h.ledger.view
  have hfunction := View.answer_function ha
  have hconverters : (p.asked c).converters = p.converters := enqueueAll_converters _ _
  refine ⟨hledger, List.append_subset.mpr ⟨?_, ?_⟩, fun n hn => ?_⟩
  · exact List.Subset.trans h.rooted (enqueueAll_queued _ _)
  · rw [← hfunction]
    intro n hn
    obtain ⟨r, hr, rfl⟩ := List.mem_map.mp hn
    exact hnames r hr
  · rw [hconverters]
    obtain hn | hn := List.mem_append.mp (queued_enqueueAll _ _ hn)
    · exact (h.led n hn).mono (List.Subset.refl _) (List.subset_append_left _ _)
    · exact .root (List.mem_append_right _ (hfunction ▸ hn))

/-- A converter that is specified leads to what it has asked for. -/
theorem entered (h : p.Served w roots) {r : Request} {rest : List Request}
    (hpending : p.pending = r :: rest) {u : Unit}
    (hstep : specify { p with pending := rest } r = (q, .ok u)) : q.Served w roots := by
  obtain ⟨hledger, ⟨x, table⟩, hok, hperm, hqueued⟩ := h.ledger.entered hpending hstep
  have hsub := queued_subset_specify { p with pending := rest } r
  rw [hstep] at hsub
  have hconverters : p.converters ⊆ q.converters := fun e he =>
    hperm.mem_iff.mpr (List.mem_cons_of_mem _ he)
  refine ⟨hledger, List.Subset.trans h.rooted hsub, fun n hn => ?_⟩
  have hold : ∀ n ∈ p.queued, Leads q.converters roots n := fun n hn =>
    (h.led n hn).mono hconverters (List.Subset.refl _)
  obtain hn | hn := List.mem_append.mp (hqueued hn)
  · exact hold n hn
  · have hr : w.nameOf r ∈ p.queued :=
      h.ledger.mem_queued.mpr (.inr (.inl (by simp [hpending])))
    exact .nested (e := (w.nameOf r, x)) (hold _ hr) (hperm.mem_iff.mpr List.mem_cons_self)
      ((View.mem_references hok).mpr hn)

/-- A planner that has worked off all requests has lost none of them. -/
theorem drained (h : p.Served w roots) {o : Outcome Unit} (ho : Drains p o) (hok : o.2 = .ok ()) :
    o.1.Served w roots ∧ o.1.pending = [] := by
  induction ho with
  | done hpending => exact ⟨h, hpending⟩
  | next hpending hstep _ ih => exact ih (h.entered hpending hstep) hok
  | failed _ _ => cases hok

/-- A call that is answered leaves nothing pending. -/
theorem call (h : p.Served w roots) {c : Call} {a : Answer} (ha : (p.call c).2 = .ok a) :
    (p.call c).1.Served w (roots ++ a.function?.toList) ∧ (p.call c).1.pending = [] := by
  have hcall := h.ledger.answers c
  obtain rfl := h.ledger.view
  generalize p.call c = o at ha hcall ⊢
  cases hcall with
  | refused => cases ha
  | answered hanswer hd =>
    obtain rfl := Except.ok.inj ha
    exact (h.asked hanswer).drained hd rfl
  | failed => cases ha

/-- **A session in which every call is answered** leaves nothing pending, and its answers lead to
    everything. -/
theorem run (h : p.Served w roots) (hpending : p.pending = []) {calls : List Call}
    {answers : List Answer} (ha : (p.run calls).2 = answers.map .ok) :
    (p.run calls).1.Served w (roots ++ answers.filterMap Answer.function?) ∧
      (p.run calls).1.pending = [] := by
  induction calls generalizing p roots answers with
  | nil =>
    obtain rfl := List.map_eq_nil_iff.mp ha.symm
    rw [List.filterMap_nil, List.append_nil]
    exact ⟨h, hpending⟩
  | cons c calls ih =>
    obtain ⟨a, answers, rfl, hfirst, hrest⟩ := List.map_eq_cons_iff.mp ha.symm
    obtain ⟨hserved, hnone⟩ := h.call hfirst.symm
    have hall := ih hserved hnone hrest.symm
    have hroots : roots ++ a.function?.toList ++ answers.filterMap Answer.function?
        = roots ++ (a :: answers).filterMap Answer.function? := by
      rw [List.append_assoc]
      cases hf : a.function? <;> simp [hf]
    rwa [hroots] at hall

end Served

/-! ### The least closed names -/

/-- Names that have what some answers refer to, and with a converter all that it refers to. -/
structure Closed (p : Planner) (answers : List Answer) (names : Set String) : Prop where
  answered : ∀ a ∈ answers, ∀ n ∈ a.function?, n ∈ names
  nested : ∀ e ∈ p.converters, e.1 ∈ names → ∀ n ∈ e.2.references, n ∈ names

/-- A session comes to an end, and specifies the least names that are closed. -/
structure SpecifiesClosure (w : View) (calls : List Call) (answers : List Answer) (p : Planner) :
    Prop where
  /-- Every call comes to an end, with what it is said to come to. -/
  ends : ∀ before c after, calls = before ++ c :: after → ∀ o,
    Answers ((start w).run before).1 c o ↔ o = ((start w).run before).1.call c
  named : ∀ e ∈ p.converters, e.2.function = e.1
  nodup : (p.converters.map (·.1)).Nodup
  least : IsLeast {names | p.Closed answers names} {n | n ∈ p.converters.map (·.1)}

/-- **Sessions specify what is reached.** If every call of a session is answered, the names of the
    specified converters are the least ones that have what is answered and what their own converters
    refer to. -/
theorem specifiesClosure_of_run (w : View) {calls : List Call} {answers : List Answer}
    (h : ((start w).run calls).2 = answers.map .ok) :
    SpecifiesClosure w calls answers ((start w).run calls).1 := by
  obtain ⟨⟨hledger, hrooted, hled⟩, hpending⟩ := (Served.start w).run rfl h
  rw [List.nil_append] at hrooted hled
  have hkeys : ∀ n, n ∈ ((start w).run calls).1.queued ↔
      n ∈ ((start w).run calls).1.converters.map (·.1) := fun n => by
    rw [hledger.mem_queued, hpending]
    simp
  constructor
  case ends =>
    intro before c after _ o
    obtain ⟨_, -, hbefore⟩ := (Ledger.start w).run before
    exact hbefore.answers_iff
  case named =>
    intro e he
    obtain ⟨r, table, hr, hok, -⟩ := hledger.specified e he
    rw [(View.converter_spec hok).2, hr]
  case nodup =>
    have hnodup := hledger.balance.nodup hledger.nodup
    exact (List.nodup_append.mp (List.nodup_append.mp hnodup).1).1
  case least =>
    refine ⟨⟨fun a ha n hn => ?_, fun e he _ n hn => ?_⟩, fun names hclosed n hn => ?_⟩
    · exact (hkeys n).mp (hrooted (List.mem_filterMap.mpr ⟨a, ha, hn⟩))
    · obtain ⟨r, table, -, hok, hnested⟩ := hledger.specified e he
      obtain ⟨q, hq, rfl⟩ := List.mem_map.mp ((View.mem_references hok).mp hn)
      exact (hkeys _).mp (hnested q hq)
    · -- any closed names have the roots, and what is nested with what it is nested in
      have hleads := hled n ((hkeys n).mpr hn)
      clear hn
      induction hleads with
      | root hroot =>
        obtain ⟨a, ha, hfunction⟩ := List.mem_filterMap.mp hroot
        exact hclosed.answered a ha _ hfunction
      | nested _ he hn ih => exact hclosed.nested _ he ih _ hn

/-- Ask for the nodes of the next version, and how what is below a node gets to the
    private version. -/
def treeCalls : List Call := [.message .toNext ⟨1⟩, .action .toPrivate ⟨3⟩ ⟨13⟩]

/-- What is answered: the converter of nodes, and an action for the list of nodes. -/
def treeAnswers : List Answer :=
  [.converter ⟨.toNext, "ToNextNode"⟩, .action (some (.convert ⟨.toPrivate, "ToPrivateNodes"⟩))]

set_option maxRecDepth 10000 in
/-- What is checked of the sample by evaluation. -/
theorem treeCalls_checked :
    (Chain.ofPackages AnnotationStyle.comments.source "private" (treePackages "")).toOption
        = some (treeView "").chain ∧
      (treeView "").version ∈ (treeView "").chain.publicVersions.map (·.id) ∧
      ((start (treeView "")).run treeCalls).2 = treeAnswers.map .ok := by decide +kernel

/-- Nodes have nodes below them. -/
theorem specifiesClosure_tree :
    Chain.ofPackages AnnotationStyle.comments.source "private" (treePackages "")
        = .ok (treeView "").chain ∧
      (treeView "").version ∈ (treeView "").chain.publicVersions.map (·.id) ∧
      ((start (treeView "")).run treeCalls).2 = treeAnswers.map .ok ∧
      SpecifiesClosure (treeView "") treeCalls treeAnswers
        ((start (treeView "")).run treeCalls).1 := by
  obtain ⟨hchain, hpublic, hanswers⟩ := treeCalls_checked
  exact ⟨toOption_eq_some.mp hchain, hpublic, hanswers, specifiesClosure_of_run _ hanswers⟩

end Planner

end Lineage
