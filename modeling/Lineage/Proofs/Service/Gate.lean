import Lineage.Proofs.Service.Visit

namespace Lineage.Service

/-!
# Calls are gated

* `Backend.logged`, `Registry.observe` — a call together with the calls of the backend that it
  makes,
* `Gated` — a call visits later and later versions, the private one last, and calls the backend at
  most once, with a request that the private version has accepted; nothing that fails before changes
  anything,
* `gated_of_generate` — every call of a public method of a generated plan is gated.
-/

/-- A backend that keeps a list of its calls. -/
def Backend.logged {σ : Type} (backend : Backend σ) : Backend (σ × List (String × Record)) where
  call name q s := ((backend.call name q s.1).1, (backend.call name q s.1).2, s.2 ++ [(name, q)])

/-- A call as it can be observed. -/
structure Observation (σ : Type) where
  answer : Except Status Record
  /-- The state of the backend afterwards. -/
  state : σ
  /-- The calls of the backend, in their order. -/
  calls : List (String × Record)

/-- A call, the calls of the backend being observed. -/
def Registry.observe {σ : Type} (r : Registry) (backend : Backend σ) (package method : String)
    (request : Record) (state : σ) : Observation σ :=
  let o := r.call backend.logged package method request (state, [])
  ⟨o.1, o.2.1, o.2.2⟩

/-- A call that begins with a visit of a package is gated by the private method `p`.

    A version validates by the strategy `Registry.validatorOf`: the one that replaces its validator,
    if there is one, else the validator that was generated for it.  `Registry.validate` applies this
    strategy to the generated validator, the name of the function and the request. -/
structure Gated (r : Registry) (package : String) (start : Visit) (p : Method) : Prop where
  /-- Every target is found, and the private version is the last one. -/
  found : ∀ a, start.Reaches r a → ∃ v m, a.At r v m ∧
    (m.route = .backend ↔ a.index + 1 = r.plan.versions.length)
  increasing : ∀ a b, start.Reaches r a → a.Step r b → a.index < b.index
  /-- The visits allowed for are enough: with more of them a call does the same. -/
  terminates : ∀ n, r.plan.versions.length ≤ n → ∀ (σ : Type) (backend : Backend σ) (state : σ),
    start.run r backend n state = start.run r backend r.maxVisits state
  /-- Observing changes nothing. -/
  observed : ∀ (σ : Type) (backend : Backend σ) (state : σ),
    let o := r.observe backend package start.name start.request state
    r.call backend package start.name start.request state = (o.answer, o.state)
  /-- The backend is called at most once: as the private method, with a request that its version has
      accepted after everything was written into it.  If it is not called, something has failed
      before. -/
  once : ∀ (σ : Type) (backend : Backend σ) (state : σ),
    let o := r.observe backend package start.name start.request state
    (o.calls = [] ∧ o.state = state ∧
      ∃ a e, start.Reaches r a ∧ a.Fails r e ∧ o.answer = .error e) ∨
      ∃ a v m, start.Reaches r a ∧ a.At r v m ∧ m.route = .backend ∧
        r.validate v m.validate a.written = .ok () ∧ o.calls = [(p.name, a.written)] ∧
        o.state = (backend.call p.name a.written state).2
  /-- If a check or conversion on the way fails, the backend is not called. -/
  refused : ∀ a e, start.Reaches r a → a.Fails r e →
    ∀ (σ : Type) (backend : Backend σ) (state : σ),
      let o := r.observe backend package start.name start.request state
      o.calls = [] ∧ o.state = state ∧ ∃ e', o.answer = .error e'
  /-- Only what is refused before the backend is called, or by the backend itself, is refused as an
      invalid argument. -/
  blame : ∀ (σ : Type) (backend : Backend σ) (state : σ) e,
    let o := r.observe backend package start.name start.request state
    o.answer = .error e → e.code = .invalidArgument →
      o.calls = [] ∨ ∃ q, o.calls = [(p.name, q)] ∧ (backend.call p.name q state).1 = .error e

variable {r : Registry} {p : MethodId} {start a b : Visit} {package : String}

/-! ### All visits of a call -/

/-- A visit that follows leads to the private method too. -/
theorem Bound.step (hplan : r.plan.Generated) (hnames : r.plan.chain.UniqueMethods)
    (ha : Bound r.plan p a) (hs : a.Step r b) : Bound r.plan p b ∧ a.index < b.index := by
  obtain ⟨v, m, hfound⟩ := ha.found hplan hnames
  obtain ⟨hat, hroute, hok⟩ := hs
  obtain ⟨rfl, rfl⟩ := hfound.hat.unique hat
  exact hfound.next hroute _

/-- All visits that follow lead to the private method too. -/
theorem Bound.reaches (hplan : r.plan.Generated) (hnames : r.plan.chain.UniqueMethods)
    (hstart : Bound r.plan p start) (hr : start.Reaches r a) : Bound r.plan p a := by
  induction hr with
  | refl => exact hstart
  | tail _ hs ih => exact (ih.step hplan hnames hs).1

/-! ### What is observed -/

/-- A call of a package begins with a visit of its version. -/
theorem call_eq {σ : Type}
    (hpackage : r.plan.versions.findIdx? (·.package == package) = some start.index)
    (hmutations : start.mutations = []) (backend : Backend σ) (state : σ) :
    r.call backend package start.name start.request state =
      ((start.run r backend r.maxVisits state).1.map (·.1),
        (start.run r backend r.maxVisits state).2) := by
  unfold Registry.call Visit.run
  rw [hpackage, hmutations]

/-- An observed call begins with a visit of its version, with a backend that keeps a list. -/
theorem observe_eq {σ : Type}
    (hpackage : r.plan.versions.findIdx? (·.package == package) = some start.index)
    (hmutations : start.mutations = []) (backend : Backend σ) (state : σ) :
    r.observe backend package start.name start.request state =
      ⟨(start.run r backend.logged r.maxVisits (state, [])).1.map (·.1),
        (start.run r backend.logged r.maxVisits (state, [])).2.1,
        (start.run r backend.logged r.maxVisits (state, [])).2.2⟩ := by
  unfold Registry.observe
  rw [call_eq hpackage hmutations]

/-- No call needs more visits than there are versions. -/
theorem maxVisits_suffices (r : Registry) (start : Visit) :
    r.plan.versions.length ≤ r.maxVisits + start.index := by
  unfold Registry.maxVisits
  omega

/-- What is observed of a call that is refused: the backend is not called. -/
theorem Refused.observe_eq {σ : Type} {e : Status} (h : Refused r start e)
    (hpackage : r.plan.versions.findIdx? (·.package == package) = some start.index)
    (hmutations : start.mutations = []) (backend : Backend σ) (state : σ) :
    r.observe backend package start.name start.request state = ⟨.error e, state, []⟩ := by
  rw [Service.observe_eq hpackage hmutations, h.answers _ (maxVisits_suffices r start)]
  rfl

/-- What is observed of a call that is accepted: one call of the backend. -/
theorem Accepted.observe_eq {σ : Type} {name : String} {q : Record}
    {respond : Record → Except Status (Record × Record)} (h : Accepted r start name q respond)
    (hpackage : r.plan.versions.findIdx? (·.package == package) = some start.index)
    (hmutations : start.mutations = []) (backend : Backend σ) (state : σ) :
    r.observe backend package start.name start.request state =
      ⟨((backend.call name q state).1.bind respond).map (·.1), (backend.call name q state).2,
        [(name, q)]⟩ := by
  rw [Service.observe_eq hpackage hmutations, h.calls _ (maxVisits_suffices r start)]
  rfl

/-- An accepted call is refused as an invalid argument only if the backend refuses it so. -/
theorem Accepted.blame {name : String} {q : Record}
    {respond : Record → Except Status (Record × Record)} (h : Accepted r start name q respond)
    {answer : Except Status Record} {e : Status}
    (he : (answer.bind respond).map (·.1) = .error e) (hcode : e.code = .invalidArgument) :
    answer = .error e := by
  cases answer with
  | error e' =>
    obtain rfl := Except.error.inj he
    rfl
  | ok x =>
    -- what is made of an answer is not refused as an invalid argument
    cases hx : respond x with
    | error e' =>
      simp only [Except.bind, hx] at he
      obtain rfl := Except.error.inj he
      exact absurd hcode (h.blameless x e' hx)
    | ok y =>
      simp only [Except.bind, hx] at he
      cases he

/-- What a call with a refused or an accepted rest does does not depend on how many visits are
    allowed for. -/
theorem Bound.run_eq (hplan : r.plan.Generated) (hnames : r.plan.chain.UniqueMethods)
    (hstart : Bound r.plan p start) {n k : Nat} (hn : r.plan.versions.length ≤ n + start.index)
    (hk : r.plan.versions.length ≤ k + start.index) {σ : Type} (backend : Backend σ) (state : σ) :
    start.run r backend n state = start.run r backend k state := by
  obtain ⟨e, hrefused⟩ | ⟨q, respond, haccepted⟩ := hstart.run hplan hnames
  · rw [hrefused.answers n hn, hrefused.answers k hk]
  · rw [haccepted.calls n hn, haccepted.calls k hk]

/-- Observing the calls of the backend changes nothing. -/
theorem Bound.call_eq_observe (hplan : r.plan.Generated) (hnames : r.plan.chain.UniqueMethods)
    (hstart : Bound r.plan p start)
    (hpackage : r.plan.versions.findIdx? (·.package == package) = some start.index)
    (hmutations : start.mutations = []) {σ : Type} (backend : Backend σ) (state : σ) :
    r.call backend package start.name start.request state =
      ((r.observe backend package start.name start.request state).answer,
        (r.observe backend package start.name start.request state).state) := by
  have hmax := maxVisits_suffices r start
  rw [call_eq hpackage hmutations]
  obtain ⟨e, hrefused⟩ | ⟨q, respond, haccepted⟩ := hstart.run hplan hnames
  · rw [hrefused.observe_eq hpackage hmutations, hrefused.answers _ hmax]
    rfl
  · rw [haccepted.observe_eq hpackage hmutations, haccepted.calls _ hmax]

/-- **Calls are gated** if they begin with a method that leads to a private one. -/
theorem Bound.gated (hplan : r.plan.Generated) (hnames : r.plan.chain.UniqueMethods)
    (hstart : Bound r.plan p start)
    (hpackage : r.plan.versions.findIdx? (·.package == package) = some start.index)
    (hmutations : start.mutations = []) :
    Gated r package start (r.plan.chain.method p) := by
  constructor
  case found =>
    intro a ha
    obtain ⟨v, m, hfound⟩ := (hstart.reaches hplan hnames ha).found hplan hnames
    exact ⟨v, m, hfound.hat, hfound.private_iff⟩
  case increasing =>
    intro a b ha hs
    exact ((hstart.reaches hplan hnames ha).step hplan hnames hs).2
  case terminates =>
    intro n hn σ backend state
    exact hstart.run_eq hplan hnames (by omega) (maxVisits_suffices r start) backend state
  case observed =>
    intro σ backend state
    exact hstart.call_eq_observe hplan hnames hpackage hmutations backend state
  -- the rest depends on whether the call is refused on its way
  all_goals obtain ⟨e, hrefused⟩ | ⟨q, respond, haccepted⟩ := hstart.run hplan hnames
  case once.inl =>
    intro σ backend state
    rw [hrefused.observe_eq hpackage hmutations]
    obtain ⟨b, hb, hfails⟩ := hrefused.fails
    exact .inl ⟨rfl, rfl, b, e, hb, hfails, rfl⟩
  case once.inr =>
    intro σ backend state
    rw [haccepted.observe_eq hpackage hmutations]
    obtain ⟨b, v, m, hb, hat, hroute, rfl, hvalid⟩ := haccepted.arrives
    exact .inr ⟨b, v, m, hb, hat, hroute, hvalid, rfl, rfl⟩
  case refused.inl =>
    intro a e' _ _ σ backend state
    rw [hrefused.observe_eq hpackage hmutations]
    exact ⟨rfl, rfl, e, rfl⟩
  case refused.inr =>
    intro a e ha hfails
    exact absurd hfails (haccepted.passes a ha e)
  case blame.inl =>
    intro σ backend state e'
    rw [hrefused.observe_eq hpackage hmutations]
    exact fun _ _ => .inl rfl
  case blame.inr =>
    intro σ backend state e
    rw [haccepted.observe_eq hpackage hmutations]
    exact fun hanswer hcode => .inr ⟨q, rfl, haccepted.blame hanswer hcode⟩

/-- **Where a call starts.** A method of a public version that is found leads to a private one. -/
theorem exists_start {plan : Plan} (hplan : plan.Generated) {package : String} {v : Version}
    (hv : plan.chain.versionOf? package = some v) (hpublic : v.isPrivate = false) {m : MethodId}
    (hm : m ∈ v.methods) :
    plan.versions.findIdx? (·.package == package) = some v.id.index ∧
      m.index < plan.chain.methods.size ∧ (plan.chain.method m).version.index = v.id.index ∧
      v.id.index + 1 < plan.chain.versions.size ∧ ∃ p, plan.chain.Commutes m p := by
  have hframed := hplan.linked.framed
  obtain ⟨hlt, heq, hpackage⟩ := hplan.findIdx?_package hv
  rw [← heq, hframed.isPrivate_eq hlt, beq_eq_false_iff_ne] at hpublic
  rw [← heq] at hm
  obtain ⟨hsize, hversion⟩ := (hframed.wellFormed.mem_methods v.id m).mp hm
  have hbefore : v.id.index + 1 < plan.chain.versions.size := by omega
  exact ⟨hpackage, hsize, congrArg _ hversion, hbefore, hplan.commutes hm hbefore⟩

/-- **Calls of public methods are gated.** For every registry of a generated plan, every call of a
    method of a public version is gated by the private method that the method leads to. -/
theorem gated_of_generate {set : DescriptorSet} {config : Config}
    (h : Plan.generate set config = .ok r.plan) (hnames : r.plan.chain.UniqueMethods)
    {v : Version} (hv : r.plan.chain.versionOf? package = some v) (hpublic : v.isPrivate = false)
    {m : MethodId} (hm : m ∈ v.methods) (request : Record) :
    ∃ p, (r.plan.chain.method m).link.final = some p ∧
      Gated r package
        { index := v.id.index, name := (r.plan.chain.method m).name, request, mutations := [] }
        (r.plan.chain.method p) := by
  have hplan := Plan.generated_of_generate h
  obtain ⟨hpackage, hsize, hversion, hbefore, p, hp⟩ := exists_start hplan hv hpublic hm
  exact ⟨p, hp.final,
    Bound.gated hplan hnames ⟨m, hsize, hversion, rfl, .inr ⟨hbefore, hp.final⟩⟩ hpackage rfl⟩

set_option maxRecDepth 10000 in
/-- A call of the first version of the sample. -/
theorem gated_sample : ∃ r : Registry, ∃ v : Version, ∃ m,
    Plan.generate Chain.sampleSet {} = .ok r.plan ∧ r.plan.chain.UniqueMethods ∧
      r.plan.chain.versionOf? "v1" = some v ∧ v.isPrivate = false ∧ m ∈ v.methods ∧
      ∃ p, (r.plan.chain.method m).link.final = some p ∧
        Gated r "v1"
          { index := v.id.index, name := (r.plan.chain.method m).name, request := {}
            mutations := [] }
          (r.plan.chain.method p) := by
  have hok : (Plan.generate Chain.sampleSet {}).toOption.any (fun plan =>
      decide plan.chain.UniqueMethods && (plan.chain.versionOf? "v1").any fun v =>
        !v.isPrivate && !v.methods.isEmpty) = true := by decide +kernel
  obtain ⟨plan, hplan, hchecked⟩ := exists_of_toOption_any hok
  simp only [Bool.and_eq_true, decide_eq_true_eq, Option.any_eq_true, Bool.not_eq_true',
    List.isEmpty_eq_false_iff] at hchecked
  obtain ⟨hnames, v, hv, hpublic, hmethods⟩ := hchecked
  obtain ⟨m, hm⟩ := List.exists_mem_of_ne_nil _ hmethods
  exact ⟨{ plan }, v, m, hplan, hnames, hv, hpublic, hm,
    gated_of_generate (r := { plan }) hplan hnames hv hpublic hm {}⟩

end Lineage.Service
