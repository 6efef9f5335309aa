import Lineage.Proofs.Plan.Correspondence
import Lineage.Service.Call
import Mathlib.Logic.Relation

namespace Lineage.Service

/-!
# Visits of a call

A call visits one version after the other.  What a visit does before the backend is called depends
on nothing but the visit.

* `Visit` — a request at a version, `Visit.Step` — the visit that follows,
* `Visit.Fails` — a check or conversion of a visit fails,
* `Bound` — a visit of a method that leads to a given private method; `Bound.found` — its target is
  found, and so the next visit leads there too, at a later version,
* `Bound.run` — a call is refused before the backend is called, or it calls the backend once.
-/

/-- A request at a version. -/
structure Visit where
  index : Nat
  /-- The method that is called. -/
  name : String
  request : Record
  /-- The private values that go along. -/
  mutations : List Mutation

namespace Visit

variable {r : Registry} {a b : Visit} {v : VersionPlan} {m : MethodPlan}

/-- The version and the method that are visited. -/
def At (r : Registry) (a : Visit) (v : VersionPlan) (m : MethodPlan) : Prop :=
  r.plan.versions[a.index]? = some v ∧ v.method? a.name = some m

/-- A visit is of one version and method. -/
theorem At.unique {v' : VersionPlan} {m' : MethodPlan} (h : a.At r v m) (h' : a.At r v' m') :
    v = v' ∧ m = m' := by
  obtain rfl := Option.some.inj (h.1.symm.trans h'.1)
  exact ⟨rfl, Option.some.inj (h.2.symm.trans h'.2)⟩

/-- The visit that a visit hands over to. -/
def next (r : Registry) (a : Visit) (m : MethodPlan) (h : Handover) : Visit where
  index := if m.route == .toNext then a.index + 1 else r.plan.versions.length - 1
  name := m.target
  request := h.request
  mutations := h.mutations

/-- The request with the private values written into it. -/
def written (a : Visit) : Record := a.mutations.foldl (fun q x => q.set x.1 x.2) a.request

/-- A visit whose request is validated and converted hands over to another one. -/
inductive Step (r : Registry) (a : Visit) : Visit → Prop
  | hop {v : VersionPlan} {m : MethodPlan} {h : Handover} (hat : a.At r v m)
    (hroute : m.route ≠ .backend)
    (hok : r.handOver v m a.name a.request a.mutations = .ok h) : Step r a (a.next r m h)

/-- The visits from a visit on. -/
abbrev Reaches (r : Registry) : Visit → Visit → Prop := Relation.ReflTransGen (Step r)

/-- A check or a conversion of a visit fails, by the strategies that the version works with: the
    replacements of its validator (`Registry.validatorOf`) and converter (`Registry.converterOf`),
    or else the generated ones. -/
inductive Fails (r : Registry) (a : Visit) : Status → Prop
  /-- The validation of the request. -/
  | validation {v : VersionPlan} {m : MethodPlan} {e : Status} (hat : a.At r v m)
    (hroute : m.route ≠ .backend) (he : r.validate v m.validate a.request = .error e) : Fails r a e
  /-- The conversion of the request. -/
  | down {v : VersionPlan} {m : MethodPlan} {function : String} {e : Status} (hat : a.At r v m)
    (hroute : m.route ≠ .backend) (hdown : m.down = some function)
    (he : (r.converterOf v).down v function a.request = .error e) : Fails r a e
  /-- The conversion of a deprecated input. -/
  | mutation {v : VersionPlan} {m : MethodPlan} {e : Status} (hat : a.At r v m)
    (hroute : m.route ≠ .backend) (he : Registry.mutationsOf v a.request m = .error e) : Fails r a e
  /-- The validation of the private request. -/
  | final {v : VersionPlan} {m : MethodPlan} {e : Status} (hat : a.At r v m)
    (hroute : m.route = .backend) (he : r.validate v m.validate a.written = .error e) : Fails r a e

/-- A visit that hands over fails nowhere. -/
theorem not_fails_of_handOver {h : Handover} (hat : a.At r v m) (hroute : m.route ≠ .backend)
    (hok : r.handOver v m a.name a.request a.mutations = .ok h) (e : Status) : ¬a.Fails r e := by
  simp only [Registry.handOver, bind_eq_ok] at hok
  obtain ⟨_, hvalid, hok⟩ := hok
  -- each step that can fail has gone well, or there would be no handover
  rintro (⟨hat', -, he⟩ | ⟨hat', -, hdown, he⟩ | ⟨hat', -, he⟩ | ⟨hat', hbackend, -⟩) <;>
    obtain ⟨rfl, rfl⟩ := hat.unique hat'
  case validation => simp [he] at hvalid
  case down =>
    split at hok
    · cases hok
    · cases hok
    · rename_i down up hdown' hup
      obtain rfl := Option.some.inj (hdown.symm.trans hdown')
      obtain ⟨converted, hconverted, -⟩ := bind_eq_ok.mp hok
      simp [he] at hconverted
  case mutation =>
    split at hok
    · cases hok
    · cases hok
    · obtain ⟨converted, -, hok⟩ := bind_eq_ok.mp hok
      obtain ⟨own, hown, -⟩ := bind_eq_ok.mp hok
      simp [he] at hown
  case final => exact hroute hbackend

/-- A visit with converters that does not hand over fails at what its request is refused for. -/
theorem fails_of_handOver {e : Status} (hat : a.At r v m) (hroute : m.route ≠ .backend)
    (hdown : m.down.isSome) (hup : m.up.isSome)
    (he : r.handOver v m a.name a.request a.mutations = .error e) : a.Fails r e := by
  obtain ⟨down, hdown⟩ := Option.isSome_iff_exists.mp hdown
  obtain ⟨up, hup⟩ := Option.isSome_iff_exists.mp hup
  simp only [Registry.handOver, hdown, hup, bind_eq_error] at he
  obtain he | ⟨_, -, he | ⟨converted, -, he | ⟨own, -, he⟩⟩⟩ := he
  · exact .validation hat hroute he
  · exact .down hat hroute hdown he
  · exact .mutation hat hroute he
  · cases he

/-- A private visit whose request is accepted fails nowhere. -/
theorem not_fails_of_validate (hat : a.At r v m) (hroute : m.route = .backend) {u : Unit}
    (hvalid : r.validate v m.validate a.written = .ok u) (e : Status) : ¬a.Fails r e := by
  rintro (⟨hat', hpublic, -⟩ | ⟨hat', hpublic, -, -⟩ | ⟨hat', hpublic, -⟩ | ⟨hat', -, he⟩) <;>
    obtain ⟨rfl, rfl⟩ := hat.unique hat'
  case final => simp [he] at hvalid
  all_goals exact hpublic hroute

/-- A visit hands over to one visit. -/
theorem Step.eq_next {h : Handover} (hs : Step r a b) (hat : a.At r v m)
    (hok : r.handOver v m a.name a.request a.mutations = .ok h) : b = a.next r m h := by
  obtain ⟨hat', -, hok'⟩ := hs
  obtain ⟨rfl, rfl⟩ := hat.unique hat'
  rw [Except.ok.inj (hok.symm.trans hok')]

/-- Nothing follows a visit of the private version. -/
theorem Reaches.eq_of_backend (hr : Reaches r a b) (hat : a.At r v m)
    (hroute : m.route = .backend) :
    a = b := by
  obtain rfl | ⟨c, hs, -⟩ := hr.cases_head
  · rfl
  · obtain ⟨hat', hroute', -⟩ := hs
    obtain ⟨rfl, rfl⟩ := hat.unique hat'
    exact absurd hroute hroute'

/-- A visit reaches itself and what the visit that follows reaches. -/
theorem Reaches.eq_or_next {h : Handover} (hr : Reaches r a b) (hat : a.At r v m)
    (hok : r.handOver v m a.name a.request a.mutations = .ok h) :
    a = b ∨ Reaches r (a.next r m h) b := by
  obtain rfl | ⟨c, hs, hrest⟩ := hr.cases_head
  · exact .inl rfl
  · exact .inr (hs.eq_next hat hok ▸ hrest)

/-! ### One visit of a call -/

/-- The rest of a call from a visit on. -/
def run {σ : Type} (r : Registry) (backend : Backend σ) (visits : Nat) (a : Visit) (state : σ) :
    Except Status (Record × Record) × σ :=
  r.invokeWithin backend visits a.index a.name a.request a.mutations state

/-- What a visit does that calls the backend. -/
theorem run_backend {σ : Type} (hat : a.At r v m) (hroute : m.route = .backend)
    (backend : Backend σ) (visits : Nat) (state : σ) :
    a.run r backend (visits + 1) state =
      match r.validate v m.validate a.written with
      | .error e => (.error e, state)
      | .ok _ => ((backend.call m.target a.written state).1.map fun x => (x, x),
          (backend.call m.target a.written state).2) := by
  unfold run Registry.invokeWithin
  simp only [hat.1, Registry.methodOf, hat.2, hroute, beq_self_eq_true, if_true,
    Registry.privateRequest]
  have hwritten : a.mutations.foldl (fun q x => q.set x.1 x.2) a.request = a.written := rfl
  rw [hwritten]
  cases r.validate v m.validate a.written <;> rfl

/-- What a visit does that hands over. -/
theorem run_hop {σ : Type} (hat : a.At r v m) (hroute : m.route ≠ .backend)
    (backend : Backend σ) (visits : Nat) (state : σ) :
    a.run r backend (visits + 1) state =
      match r.handOver v m a.name a.request a.mutations with
      | .error e => (.error e, state)
      | .ok h =>
        let (answer, state') := (a.next r m h).run r backend visits state
        (answer.bind fun x => (r.responseOf v m h.up x.1 x.2).map fun y => (y, x.2), state') := by
  rw [run, Registry.invokeWithin]
  simp only [hat.1, Registry.methodOf, hat.2, beq_iff_eq, hroute, if_false]
  cases hh : r.handOver v m a.name a.request a.mutations with
  | error e => rfl
  | ok h =>
    dsimp only
    unfold run next
    dsimp only
    split <;> rename_i heq <;> simp only [beq_iff_eq, heq] <;> rfl

end Visit

/-! ### Visits that lead to a private method -/

/-- The visit is one of a method that leads to the private method `p`. -/
def Bound (plan : Plan) (p : MethodId) (a : Visit) : Prop :=
  ∃ m : MethodId, m.index < plan.chain.methods.size ∧
    (plan.chain.method m).version.index = a.index ∧ (plan.chain.method m).name = a.name ∧
    (m = p ∧ a.index + 1 = plan.chain.versions.size ∨
      a.index + 1 < plan.chain.versions.size ∧ (plan.chain.method m).link.final = some p)

/-- What is found at a visit: the private method at last, before that a method with a target. -/
structure Found (r : Registry) (p : MethodId) (a : Visit) (v : VersionPlan) (m : MethodPlan) :
    Prop where
  hat : a.At r v m
  private_iff : m.route = .backend ↔ a.index + 1 = r.plan.versions.length
  converts : m.route ≠ .backend → m.down.isSome ∧ m.up.isSome
  target : m.route = .backend → m.target = (r.plan.chain.method p).name ∧
    m.validate = r.plan.chain.validatorOf (r.plan.chain.method p).input
  next : m.route ≠ .backend → ∀ h : Handover, Bound r.plan p (a.next r m h) ∧
    a.index < (a.next r m h).index

variable {r : Registry} {p : MethodId} {a b : Visit}

/-- **Every target is found**, at a later version unless it is the private one. -/
theorem Bound.found (hplan : r.plan.Generated) (hnames : r.plan.chain.UniqueMethods)
    (ha : Bound r.plan p a) : ∃ v m, Found r p a v m := by
  obtain ⟨x, hx, hindex, hname, hleads⟩ := ha
  have hframed := hplan.linked.framed
  have hlength := hplan.length_versions
  obtain ⟨vp, mp, hvp, hmp, hplanned⟩ := hplan.method?_eq hnames hx
  have hlt := hframed.wellFormed.method_version_lt hx
  rw [hname] at hmp
  rw [hindex] at hvp hlt
  have hprivate : (r.plan.chain.version (r.plan.chain.method x).version).isPrivate
      = (a.index + 1 == r.plan.chain.versions.size) := by
    rw [hframed.isPrivate_eq (hindex.symm ▸ hlt), hindex]
  obtain ⟨hlast, rfl⟩ | ⟨hnotLast, hmp'⟩ := hplanned
  · -- the private version
    rw [hprivate, beq_iff_eq] at hlast
    obtain ⟨rfl, -⟩ | ⟨hbefore, -⟩ := hleads
    · refine ⟨vp, _, ⟨hvp, hmp⟩, ?_, fun h => absurd rfl h, fun _ => ⟨rfl, rfl⟩,
        fun h => absurd rfl h⟩
      rw [hlength]
      exact ⟨fun _ => hlast, fun _ => rfl⟩
    · omega
  · rw [hprivate, beq_eq_false_iff_ne] at hnotLast
    obtain ⟨-, hlast⟩ | ⟨hpublic, hfinal⟩ := hleads
    · exact absurd hlast hnotLast
    · obtain ⟨t, ht, htarget, hgoes⟩ :=
        hplan.linked.planned_target rfl hx (hindex.symm ▸ hpublic) hfinal hmp'
      have hroute : mp.route ≠ .backend := by
        rcases hgoes with ⟨hroute, -⟩ | ⟨hroute, -⟩ <;> simp [hroute]
      have hconverts : mp.down.isSome ∧ mp.up.isSome := by
        obtain ⟨_, -, -, rfl⟩ := hmp'.exists_target
        exact ⟨rfl, rfl⟩
      refine ⟨vp, mp, ⟨hvp, hmp⟩, ?_, fun _ => hconverts, fun h => absurd h hroute, fun _ h => ?_⟩
      · rw [hlength]
        exact ⟨fun h => absurd h hroute, fun h => absurd h hnotLast⟩
      · rcases hgoes with ⟨hroute, rfl, hversion⟩ | ⟨hroute, hversion, hbefore, hlink⟩
        · have hnext : (a.next r mp h).index = r.plan.chain.versions.size - 1 := by
            simp [Visit.next, hroute, hlength]
          refine ⟨⟨t, ht, ?_, htarget.symm, .inl ⟨rfl, ?_⟩⟩, ?_⟩ <;> omega
        · have hnext : (a.next r mp h).index = a.index + 1 := by simp [Visit.next, hroute]
          refine ⟨⟨t, ht, ?_, htarget.symm, .inr ⟨?_, hlink⟩⟩, ?_⟩ <;> omega

/-! ### The rest of a call -/

/-- An incompatible response is not the fault of the caller. -/
theorem incompatible_code (s : Status) : s.incompatible.code ≠ .invalidArgument := by
  unfold Status.incompatible
  split
  · simp
  · rename_i h
    simpa using h

/-- What is made of a response never fails as an invalid argument. -/
theorem responseOf_blameless {v : VersionPlan} {m : MethodPlan} {up : String} {next final : Record}
    {f : Record → Record × Record} {e : Status}
    (h : (r.responseOf v m up next final).map f = .error e) : e.code ≠ .invalidArgument := by
  unfold Registry.responseOf at h
  cases hup : (r.converterOf v).up v up (if m.route == .toNext then some next else none) final with
  | error e' =>
    rw [hup] at h
    obtain rfl := Except.error.inj h
    exact incompatible_code e'
  | ok x =>
    rw [hup] at h
    cases h

/-- A call from a visit on is refused whatever the backend is, which is not called. -/
structure Refused (r : Registry) (a : Visit) (e : Status) : Prop where
  answers : ∀ n, r.plan.versions.length ≤ n + a.index →
    ∀ (σ : Type) (backend : Backend σ) (state : σ), a.run r backend n state = (.error e, state)
  fails : ∃ b, a.Reaches r b ∧ b.Fails r e

/-- A call from a visit on calls the backend once, whatever it is, and makes its answer into a
    response, which is never refused as an invalid argument. -/
structure Accepted (r : Registry) (a : Visit) (name : String) (q : Record)
    (respond : Record → Except Status (Record × Record)) : Prop where
  calls : ∀ n, r.plan.versions.length ≤ n + a.index →
    ∀ (σ : Type) (backend : Backend σ) (state : σ), a.run r backend n state =
      ((backend.call name q state).1.bind respond, (backend.call name q state).2)
  blameless : ∀ x e, respond x = .error e → e.code ≠ .invalidArgument
  /-- No check or conversion on the way fails. -/
  passes : ∀ b, a.Reaches r b → ∀ e, ¬b.Fails r e
  /-- The request is the one that has arrived at the private version, with everything written. -/
  arrives : ∃ b v m, a.Reaches r b ∧ b.At r v m ∧ m.route = .backend ∧ q = b.written ∧
    r.validate v m.validate q = .ok ()

section
variable {v : VersionPlan} {m : MethodPlan}

/-- A visit that allows for one visit at least, as its version exists. -/
theorem Visit.At.visits (hat : a.At r v m) {n : Nat} (hn : r.plan.versions.length ≤ n + a.index) :
    ∃ k, n = k + 1 := by
  have hlt := (List.getElem?_eq_some_iff.mp hat.1).1
  exact ⟨n - 1, by omega⟩

/-- A private request that is refused by its validator. -/
theorem Refused.of_validate (hat : a.At r v m) (hroute : m.route = .backend) {e : Status}
    (he : r.validate v m.validate a.written = .error e) : Refused r a e where
  answers := by
    intro n hn σ backend state
    obtain ⟨k, rfl⟩ := hat.visits hn
    rw [Visit.run_backend hat hroute, he]
  fails := ⟨a, .refl, .final hat hroute he⟩

/-- A request that is refused before it is handed over. -/
theorem Refused.of_handOver (hfound : Found r p a v m) (hroute : m.route ≠ .backend) {e : Status}
    (he : r.handOver v m a.name a.request a.mutations = .error e) : Refused r a e where
  answers := by
    intro n hn σ backend state
    obtain ⟨k, rfl⟩ := hfound.hat.visits hn
    rw [Visit.run_hop hfound.hat hroute, he]
  fails := by
    obtain ⟨hdown, hup⟩ := hfound.converts hroute
    exact ⟨a, .refl, Visit.fails_of_handOver hfound.hat hroute hdown hup he⟩

/-- A request that is refused later on. -/
theorem Refused.of_next (hat : a.At r v m) (hroute : m.route ≠ .backend) {h : Handover}
    (hok : r.handOver v m a.name a.request a.mutations = .ok h)
    (hlt : a.index < (a.next r m h).index) {e : Status} (hnext : Refused r (a.next r m h) e) :
    Refused r a e where
  answers := by
    intro n hn σ backend state
    obtain ⟨k, rfl⟩ := hat.visits hn
    rw [Visit.run_hop hat hroute, hok]
    dsimp only
    rw [hnext.answers k (by omega)]
    rfl
  fails := by
    obtain ⟨b, hb, hfails⟩ := hnext.fails
    exact ⟨b, .head (.hop hat hroute hok) hb, hfails⟩

/-- A private request that is accepted by its validator. -/
theorem Accepted.of_validate (hat : a.At r v m) (hroute : m.route = .backend) {u : Unit}
    (hvalid : r.validate v m.validate a.written = .ok u) :
    Accepted r a m.target a.written fun x => .ok (x, x) where
  calls := by
    intro n hn σ backend state
    obtain ⟨k, rfl⟩ := hat.visits hn
    rw [Visit.run_backend hat hroute, hvalid]
    cases (backend.call m.target a.written state).1 <;> rfl
  blameless := by
    intro x e h
    cases h
  passes := by
    intro b hb e hfails
    obtain rfl := Visit.Reaches.eq_of_backend hb hat hroute
    exact Visit.not_fails_of_validate hat hroute hvalid e hfails
  arrives := ⟨a, v, m, .refl, hat, hroute, rfl, hvalid⟩

/-- The response of a visit is made from that of the visit that follows. -/
theorem Accepted.of_next (hat : a.At r v m) (hroute : m.route ≠ .backend) {h : Handover}
    (hok : r.handOver v m a.name a.request a.mutations = .ok h)
    (hlt : a.index < (a.next r m h).index) {name : String} {q : Record}
    {respond : Record → Except Status (Record × Record)}
    (hnext : Accepted r (a.next r m h) name q respond) :
    Accepted r a name q fun x => (respond x).bind fun y =>
      (r.responseOf v m h.up y.1 y.2).map fun z => (z, y.2) where
  calls := by
    intro n hn σ backend state
    obtain ⟨k, rfl⟩ := hat.visits hn
    rw [Visit.run_hop hat hroute, hok]
    dsimp only
    rw [hnext.calls k (by omega)]
    cases (backend.call name q state).1 <;> rfl
  blameless := by
    intro x e he
    cases hx : respond x with
    | error e' =>
      rw [hx] at he
      obtain rfl := Except.error.inj he
      exact hnext.blameless x e' hx
    | ok y =>
      rw [hx] at he
      exact responseOf_blameless he
  passes := by
    intro b hb e
    obtain rfl | hb := Visit.Reaches.eq_or_next hb hat hok
    · exact Visit.not_fails_of_handOver hat hroute hok e
    · exact hnext.passes b hb e
  arrives := by
    obtain ⟨b, v', m', hb, hrest⟩ := hnext.arrives
    exact ⟨b, v', m', .head (.hop hat hroute hok) hb, hrest⟩

end

/-- **The rest of a call** is refused, or it calls the private method of the backend. -/
theorem Bound.run (hplan : r.plan.Generated) (hnames : r.plan.chain.UniqueMethods)
    (ha : Bound r.plan p a) : (∃ e, Refused r a e) ∨
      ∃ q respond, Accepted r a (r.plan.chain.method p).name q respond := by
  -- by the distance to the end of the chain
  induction hd : r.plan.versions.length - a.index using Nat.strongRecOn generalizing a with
  | ind d ih =>
    obtain ⟨v, m, hfound⟩ := ha.found hplan hnames
    have hat := hfound.hat
    have hlt : a.index < r.plan.versions.length := (List.getElem?_eq_some_iff.mp hat.1).1
    by_cases hroute : m.route = .backend
    · cases hvalid : r.validate v m.validate a.written with
      | error e => exact .inl ⟨e, .of_validate hat hroute hvalid⟩
      | ok u =>
        rw [← (hfound.target hroute).1]
        exact .inr ⟨_, _, .of_validate hat hroute hvalid⟩
    · cases hok : r.handOver v m a.name a.request a.mutations with
      | error e => exact .inl ⟨e, .of_handOver hfound hroute hok⟩
      | ok h =>
        obtain ⟨hbound, hincreases⟩ := hfound.next hroute h
        obtain ⟨e, hrefused⟩ | ⟨q, respond, haccepted⟩ := ih _ (by omega) hbound rfl
        · exact .inl ⟨e, hrefused.of_next hat hroute hok hincreases⟩
        · exact .inr ⟨q, _, haccepted.of_next hat hroute hok hincreases⟩

end Lineage.Service
