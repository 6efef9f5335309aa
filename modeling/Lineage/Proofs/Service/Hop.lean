import Lineage.Proofs.Plan.Provided
import Lineage.Proofs.Service.Gate

namespace Lineage

/-!
# Hops of a call

What a visit of a public method is made of, in terms of the chain.

* `Chain.GoesToPrivate`, `Chain.GoesToNext` — where a public method goes, and what its types lead to
  there,
* `Service.exists_start` — where a call of a public method starts,
* `Service.Visit.Of` — a visit of a method, `Service.Hop` — the plans that are found at a visit of a
  public method, and the method that the visit hands over to,
* `Service.exists_hop` — there is a hop at every visit of a public method,
* `Service.Hop.down`, `Service.Hop.up` — the converters that are used at a hop.
-/

namespace Chain

variable {c : Chain} {count : Nat}

/-- The view of the version of a method. -/
def methodView (c : Chain) (m : MethodId) : View := c.viewOf (c.version (c.method m).version)

/-- What the version of a method asks for. -/
def MethodAsks (c : Chain) (m : MethodId) (q : Request) : Prop :=
  (c.methodView m).Asked (c.AsksFor (c.version (c.method m).version)) q

/-- A method goes straight to the private one. -/
structure GoesToPrivate (c : Chain) (count : Nat) (p m t : MethodId) : Prop where
  route : ((c.methodView m).way (c.method m)).route = .toPrivate
  down : ((c.methodView m).way (c.method m)).down = .toPrivate
  /-- The response is made from the private one alone. -/
  up : ∀ s, (c.methodView m).shape
    ((c.methodView m).request ((c.methodView m).way (c.method m)).up s).kind = .upFromPrivate
  target : t = p
  last : (c.method t).version.index + 1 = count
  input : (c.message (c.method m).input).link.final = some (c.method t).input
  output : (c.message (c.method m).output).link.final = some (c.method t).output

/-- A method goes to one of the version that follows, which leads to the same private one. -/
structure GoesToNext (c : Chain) (count : Nat) (p m t : MethodId) : Prop where
  route : ((c.methodView m).way (c.method m)).route = .toNext
  down : ((c.methodView m).way (c.method m)).down = .toNext
  up : ((c.methodView m).way (c.method m)).up = .toPublic
  version : (c.method t).version.index = (c.method m).version.index + 1
  isPublic : (c.method t).version.index + 1 < count
  final : (c.method t).link.final = some p
  input : (c.message (c.method m).input).link.next = some (c.method t).input
  /-- A deprecated response bypasses the version that follows. -/
  output : (c.message (c.method m).output).deprecated = false →
    (c.message (c.method m).output).link.next = some (c.method t).output

/-- In the latest version, a converter that leads up reads the private record alone. -/
theorem shape_of_isLatest {w : View} (hlatest : w.isLatest) {kind : ConverterKind}
    (hup : kind.isDown = false) : w.shape kind = .upFromPrivate := by
  cases kind <;> simp_all [View.shape, View.facesNext, ConverterKind.isDown]

/-- What serves a kind that goes up goes up. -/
theorem isDown_request {w : View} {kind : ConverterKind} (hup : kind.isDown = false)
    (s : Subject) : (w.request kind s).kind.isDown = false := by
  unfold View.request View.effective
  dsimp only
  split
  · rfl
  · exact hup

/-- **Where a planned method goes**, and what its types lead to there. -/
theorem Linked.goes (h : c.Linked count) {p m : MethodId} (hm : m.index < c.methods.size)
    (hpublic : (c.method m).version.index + 1 < count) (hp : (c.method m).link.final = some p)
    {plan : MethodPlan} (hplan : (c.methodView m).Planned (c.method m) plan) :
    ∃ t : MethodId, t.index < c.methods.size ∧
      plan = (c.methodView m).planOf (c.method m) (c.method t) ∧
      (c.GoesToPrivate count p m t ∨ c.GoesToNext count p m t) := by
  obtain ⟨t, ht, hcheck, hplan⟩ := hplan.exists_target
  -- a deprecated method bypasses the versions in between, and from the latest one there are none
  by_cases hbypass : ((c.method m).deprecated || (c.version (c.method m).version).isLatest) = true
  · have hway : (c.methodView m).way (c.method m) =
        { route := .toPrivate, down := .toPrivate
          up := if (c.method m).deprecated then .toDeprecatedPublic else .toPublic
          target := (c.method m).link.final } := by
      rw [View.way]
      exact if_pos hbypass
    rw [hway] at ht hcheck
    obtain ⟨hinput, houtput⟩ := checkTypes_toPrivate hcheck
    obtain rfl : t = p := Option.some.inj (ht.symm.trans hp)
    obtain ⟨hlt, hlast⟩ := h.method_final hm hpublic hp
    have hup : ∀ s, (c.methodView m).shape
        ((c.methodView m).request ((c.methodView m).way (c.method m)).up s).kind
          = .upFromPrivate := by
      intro s
      rw [hway]
      cases hd : (c.method m).deprecated with
      | true => rfl
      | false =>
        -- a method that is not deprecated goes there only from the latest version
        have hlatest : (c.methodView m).isLatest := by
          show (c.version (c.version (c.method m).version).id).isLatest = true
          rw [h.framed.version_id (Nat.lt_of_succ_lt hpublic)]
          simpa [hd] using hbypass
        exact shape_of_isLatest hlatest (isDown_request rfl s)
    exact ⟨t, hlt, hplan, .inl ⟨by rw [hway], by rw [hway], hup, rfl, hlast, hinput, houtput⟩⟩
  · have hway : (c.methodView m).way (c.method m) =
        { route := .toNext, down := .toNext, up := .toPublic
          target := (c.method m).link.next } := by
      rw [View.way]
      exact if_neg hbypass
    rw [hway] at ht hcheck
    obtain ⟨hinput, houtput⟩ := checkTypes_toNext hcheck
    obtain ⟨hlt, hversion, hbefore, hfinal⟩ := h.method_next hm hpublic ht
    refine ⟨t, hlt, hplan, .inr ⟨by rw [hway], by rw [hway], by rw [hway], hversion, ?_,
      hfinal.symm.trans hp, hinput, fun hlive => ?_⟩⟩
    · omega
    · have houtput' := houtput
      rw [if_neg (by simpa [methodView, viewOf] using hlive)] at houtput'
      exact houtput'

end Chain

namespace Service

variable {r : Registry} {p m t : MethodId} {a : Visit} {v : VersionPlan} {mp : MethodPlan}

/-- A visit is one of a method. -/
structure Visit.Of (plan : Plan) (a : Visit) (m : MethodId) : Prop where
  exists_method : m.index < plan.chain.methods.size
  version : (plan.chain.method m).version.index = a.index
  name : (plan.chain.method m).name = a.name

/-- The plans that are found at a visit of a public method `m`, which hands over to the
    method `t`. -/
structure Hop (r : Registry) (p m : MethodId) (a : Visit) (v : VersionPlan) (mp : MethodPlan)
    (t : MethodId) : Prop where
  of : a.Of r.plan m
  hat : a.At r v mp
  provides : v.Provides (r.plan.chain.methodView m)
    (r.plan.chain.AsksFor (r.plan.chain.version (r.plan.chain.method m).version))
  asks : ∀ q ∈ (r.plan.chain.methodView m).requestsOf (r.plan.chain.method m),
    r.plan.chain.MethodAsks m q
  planned : mp = (r.plan.chain.methodView m).planOf (r.plan.chain.method m) (r.plan.chain.method t)
  exists_target : t.index < r.plan.chain.methods.size
  goes : r.plan.chain.GoesToPrivate r.plan.chain.versions.size p m t ∨
    r.plan.chain.GoesToNext r.plan.chain.versions.size p m t

/-- **There is a hop** at every visit of a public method. -/
theorem exists_hop (hplan : r.plan.Generated) (hnames : r.plan.chain.UniqueMethods)
    (hun : r.plan.chain.UnambiguousConverters) (ha : a.Of r.plan m)
    (hpublic : a.index + 1 < r.plan.chain.versions.size)
    (hp : (r.plan.chain.method m).link.final = some p) : ∃ v mp t, Hop r p m a v mp t := by
  have hframed := hplan.linked.framed
  obtain ⟨hm, hindex, hname⟩ := ha
  rw [← hindex] at hpublic
  have hlt := Nat.lt_of_succ_lt hpublic
  obtain ⟨v, mp, hv, hmp, hplanned⟩ := hplan.method?_eq hnames hm
  have hprivate := hframed.isPrivate_eq_false hpublic
  obtain ⟨hisPrivate, -⟩ | ⟨-, hplanned⟩ := hplanned
  · rw [hprivate] at hisPrivate
    cases hisPrivate
  · obtain ⟨t, ht, heq, hgoes⟩ := hplan.linked.goes hm hpublic hp hplanned
    have hmem := (hframed.wellFormed.mem_methods _ m).mpr ⟨hm, rfl⟩
    refine ⟨v, mp, t, ⟨hm, hindex, hname⟩, ⟨hindex ▸ hv, hname ▸ hmp⟩,
      hplan.provides hun hpublic hv, fun q hq => .root ⟨m, hmem, hq⟩, heq, ht, hgoes⟩

namespace Hop

variable (h : Hop r p m a v mp t)
include h

/-- The visit that follows is one of the method that is gone to. -/
theorem next_of (hplan : r.plan.Generated) (o : Handover) : (a.next r mp o).Of r.plan t := by
  refine ⟨h.exists_target, ?_, by rw [h.planned]; rfl⟩
  obtain hgoes | hgoes := h.goes
  · have hroute : mp.route = .toPrivate := by rw [h.planned]; exact hgoes.route
    have hindex : (a.next r mp o).index = r.plan.chain.versions.size - 1 := by
      simp [Visit.next, hroute, hplan.length_versions]
    have hlast := hgoes.last
    omega
  · have hroute : mp.route = .toNext := by rw [h.planned]; exact hgoes.route
    have hindex : (a.next r mp o).index = a.index + 1 := by simp [Visit.next, hroute]
    have hversion := hgoes.version
    have hown := h.of.version
    omega

/-- A hop is not one of the private version. -/
theorem route_ne_backend : mp.route ≠ .backend := by
  rw [h.planned]
  obtain hgoes | hgoes := h.goes
  · exact fun heq => by cases hgoes.route.symm.trans heq
  · exact fun heq => by cases hgoes.route.symm.trans heq

/-- The converter of the request, and what it does. -/
theorem down : ∃ x function,
    mp.down = some function ∧
      ((r.plan.chain.methodView m).messageConverter
        ((r.plan.chain.methodView m).way (r.plan.chain.method m)).down
        (r.plan.chain.method m).input).result = .ok x ∧
      (∀ q ∈ ((r.plan.chain.methodView m).messageConverter
        ((r.plan.chain.methodView m).way (r.plan.chain.method m)).down
        (r.plan.chain.method m).input).requests, r.plan.chain.MethodAsks m q) ∧
      ∀ request, convertDown v function request =
        runDown (convertWithin v (request.depth + 1)) x request := by
  have hasked := h.asks ((r.plan.chain.methodView m).request
    ((r.plan.chain.methodView m).way (r.plan.chain.method m)).down
    (.message (r.plan.chain.method m).input)) (by simp [View.requestsOf])
  have hdown : mp.down = some ((r.plan.chain.methodView m).nameOf
      ((r.plan.chain.methodView m).request
        ((r.plan.chain.methodView m).way (r.plan.chain.method m)).down
        (.message (r.plan.chain.method m).input))) := by
    rw [h.planned]
    rfl
  rw [View.request_of_isDown (View.isDown_way _ _)] at hasked hdown
  obtain ⟨x, hx, hok, hnested⟩ := h.provides.message hasked
  exact ⟨x, _, hdown, hok, hnested,
    fun request => convertDown_eq hx hok (View.isDown_way _ _) request⟩

/-- What a visit hands over, with default strategies. -/
theorem handOver_eq_ok (hdefault : r.converters = []) {o : Handover}
    (hok : r.handOver v mp a.name a.request a.mutations = .ok o) : ∃ x own,
      ((r.plan.chain.methodView m).messageConverter
        ((r.plan.chain.methodView m).way (r.plan.chain.method m)).down
        (r.plan.chain.method m).input).result = .ok x ∧
      runDown (convertWithin v (a.request.depth + 1)) x a.request = .ok o.request ∧
      Registry.mutationsOf v a.request mp = .ok own ∧ o.mutations = a.mutations ++ own ∧
      mp.up = some o.up := by
  obtain ⟨x, function, hdown, hx, -, heq⟩ := h.down
  simp only [Registry.handOver, bind_eq_ok] at hok
  obtain ⟨_, -, hok⟩ := hok
  rw [hdown] at hok
  split at hok
  · cases hok
  · cases hok
  · rename_i down up hdown' hup
    obtain rfl := Option.some.inj hdown'
    obtain ⟨converted, hconverted, hok⟩ := bind_eq_ok.mp hok
    obtain ⟨own, hown, hok⟩ := bind_eq_ok.mp hok
    obtain rfl := pure_eq_ok.mp hok
    have hstrategy : r.converterOf v = {} := by rw [Registry.converterOf, hdefault]; rfl
    rw [hstrategy] at hconverted
    exact ⟨x, own, hx, (heq a.request).symm.trans hconverted, hown, rfl, hup⟩

/-- The converter of the response, and what it does. -/
theorem up : ∃ kind x function, mp.up = some function ∧
      kind = ((r.plan.chain.methodView m).request
        ((r.plan.chain.methodView m).way (r.plan.chain.method m)).up
        (.message (r.plan.chain.method m).output)).kind ∧ kind.isDown = false ∧
      r.plan.chain.MethodAsks m ⟨kind, .message (r.plan.chain.method m).output⟩ ∧
      v.converter? function = some (.message x) ∧
      ((r.plan.chain.methodView m).messageConverter kind
        (r.plan.chain.method m).output).result = .ok x ∧
      ∀ next final, convertUp v function next final = runUp
        (convertWithin v (max ((next.map Record.depth).getD 0) final.depth + 1)) x next final := by
  have hasked := h.asks ((r.plan.chain.methodView m).request
    ((r.plan.chain.methodView m).way (r.plan.chain.method m)).up
    (.message (r.plan.chain.method m).output)) (by simp [View.requestsOf])
  have hup := (r.plan.chain.methodView m).isUp_way (r.plan.chain.method m)
  have hkind := Chain.isDown_request (w := r.plan.chain.methodView m) hup
    (.message (r.plan.chain.method m).output)
  obtain ⟨x, hx, hok, -⟩ := h.provides.message hasked
  exact ⟨_, x, _, by rw [h.planned]; rfl, rfl, hkind, hasked, hx, hok,
    fun next final => convertUp_eq hx hok hkind next final⟩

end Hop

end Service

end Lineage
