import Lineage.Proofs.Plan.Sample
import Lineage.Proofs.Service.Gate
import Mathlib.Data.List.TakeDrop
import Mathlib.Data.List.TakeWhile

namespace Lineage

/-!
# Overrides are local

What replaces the validator or converter of a version matters to the calls that visit the version,
and to no others.

* `Plan.route` — the versions that a call of a method visits, by the plan alone: from the called one
  on to the next as long as the method found there goes to the next, and the private one last,
* `Service.Registry.AgreesAt` — two registries work alike at a version,
* `Service.Registry.overrideValidator_agreesAt`, `Service.Registry.overrideConverter_agreesAt` —
  what is replaced under one name leaves the versions of other names as they are,
* `Service.Visit.next_route_subset` — one visit, `Service.Visit.reaches_route_subset` — a whole call
  keeps to its route, whatever is requested and whatever replaces what,
* `Service.Visit.run_congr` — registries that agree on the route of a visit do the same from there
  on,
* `Service.local_of_generate` — calls of the methods of a generated plan are local to their routes.
-/

/-! ### Routes -/

/-- The versions visited from the first of some versions on; `last` is the one that implements the
    service. -/
def routeFrom (last : Option VersionPlan) : List VersionPlan → String → List VersionPlan
  | [], _ => []
  | v :: rest, name =>
    v :: match v.method? name with
      | none => []
      | some m =>
        match m.route with
        | .toNext => routeFrom last rest m.target
        | .toPrivate => last.toList
        | .backend => []

/-- The versions that a call of a method of a package visits. -/
def Plan.route (plan : Plan) (package method : String) : List VersionPlan :=
  routeFrom plan.versions.getLast? (plan.versions.dropWhile (·.package != package)) method

section
variable {last : Option VersionPlan} {v : VersionPlan} {rest : List VersionPlan} {name : String}

/-- A route begins at the first version. -/
theorem head?_routeFrom (vs : List VersionPlan) : (routeFrom last vs name).head? = vs.head? := by
  cases vs <;> rfl

/-- A route goes on where the method goes. -/
theorem routeFrom_of_method {m : MethodPlan} (hm : v.method? name = some m) :
    routeFrom last (v :: rest) name = v ::
      match m.route with
      | .toNext => routeFrom last rest m.target
      | .toPrivate => last.toList
      | .backend => [] := by
  rw [routeFrom, hm]

/-- From the last version on, no other one is visited. -/
theorem routeFrom_last_subset : routeFrom (some v) [v] name ⊆ [v] := by
  intro x hx
  unfold routeFrom at hx
  obtain rfl | hx := List.mem_cons.mp hx
  · exact List.mem_cons_self
  · split at hx
    · cases hx
    · split at hx
      · cases hx
      · exact hx
      · cases hx

/-- A route begins at the version that is called. -/
theorem head?_route (plan : Plan) (package method : String) :
    (plan.route package method).head? = plan.version? package := by
  rw [Plan.route, head?_routeFrom, Plan.version?, List.find?_eq_head?_dropWhile_not]
  rfl

/-- The route of a package begins with its first version. -/
theorem route_eq {plan : Plan} {package : String} {index : Nat}
    (h : plan.versions.findIdx? (·.package == package) = some index) (method : String) :
    plan.route package method
      = routeFrom plan.versions.getLast? (plan.versions.drop index) method := by
  obtain ⟨-, hindex⟩ := List.findIdx?_eq_some_iff_findIdx_eq.mp h
  rw [Plan.route, List.dropWhile_eq_drop_findIdx_not]
  simp only [bne, Bool.not_not, hindex]

end

namespace Service

/-! ### Registries that agree -/

/-- Two registries work with the same validator and the same converter at a version. -/
structure Registry.AgreesAt (r r' : Registry) (v : VersionPlan) : Prop where
  validator : r.validatorOf v = r'.validatorOf v
  converter : r.converterOf v = r'.converterOf v

namespace Registry

variable {r r' : Registry} {v : VersionPlan}

/-- Registries that agree at a version validate alike there. -/
theorem AgreesAt.validate_eq (h : r.AgreesAt r' v) (hplan : r'.plan = r.plan) (function : String)
    (request : Record) : r.validate v function request = r'.validate v function request := by
  rw [validate, validate, h.validator, hplan]

/-- Registries that agree at a version hand over alike there. -/
theorem AgreesAt.handOver_eq (h : r.AgreesAt r' v) (hplan : r'.plan = r.plan) (m : MethodPlan)
    (name : String) (request : Record) (mutations : List Mutation) :
    r.handOver v m name request mutations = r'.handOver v m name request mutations := by
  unfold handOver
  rw [h.validate_eq hplan, h.converter]

/-- Registries that agree at a version respond alike there. -/
theorem AgreesAt.responseOf_eq (h : r.AgreesAt r' v) (m : MethodPlan) (up : String)
    (next final : Record) : r.responseOf v m up next final = r'.responseOf v m up next final := by
  rw [responseOf, responseOf, h.converter]

/-- A validator that is replaced is replaced at the versions of its name only. -/
theorem overrideValidator_agreesAt {key : String} {s : ValidatorStrategy}
    (h : r.overrideValidator key s = .ok r') (hv : v.validatorName ≠ key) : r.AgreesAt r' v := by
  unfold overrideValidator at h
  split at h
  · obtain rfl := Except.ok.inj h
    exact ⟨by rw [validatorOf, validatorOf, Sorted.get?_insert_ne hv], rfl⟩
  · cases h

/-- A converter that is replaced is replaced at the versions of its name only. -/
theorem overrideConverter_agreesAt {key : String} {s : ConverterStrategy}
    (h : r.overrideConverter key s = .ok r') (hv : v.converterName ≠ key) : r.AgreesAt r' v := by
  unfold overrideConverter at h
  split at h
  · obtain rfl := Except.ok.inj h
    exact ⟨rfl, by rw [converterOf, converterOf, Sorted.get?_insert_ne hv]⟩
  · cases h

end Registry

/-! ### The route of a visit -/

namespace Visit

variable {r r' : Registry} {a b : Visit} {v : VersionPlan} {m : MethodPlan}

/-- The versions that are visited from a visit on. -/
def route (plan : Plan) (a : Visit) : List VersionPlan :=
  routeFrom plan.versions.getLast? (plan.versions.drop a.index) a.name

/-- The route of a visit goes on where its method goes. -/
theorem At.route_eq (hat : a.At r v m) :
    a.route r.plan = v ::
      match m.route with
      | .toNext => routeFrom r.plan.versions.getLast? (r.plan.versions.drop (a.index + 1)) m.target
      | .toPrivate => r.plan.versions.getLast?.toList
      | .backend => [] := by
  obtain ⟨hlt, rfl⟩ := List.getElem?_eq_some_iff.mp hat.1
  rw [route, List.drop_eq_getElem_cons hlt, routeFrom_of_method hat.2]

/-- The version that is visited is on the route. -/
theorem At.mem_route (hat : a.At r v m) : v ∈ a.route r.plan := by
  rw [hat.route_eq]
  exact List.mem_cons_self

/-- **One visit keeps to the route**: what is visited from the following visit on is on the route
    already. -/
theorem next_route_subset (hat : a.At r v m) (hroute : m.route ≠ .backend) (h : Handover) :
    (a.next r m h).route r.plan ⊆ a.route r.plan := by
  rw [hat.route_eq]
  cases hm : m.route with
  | toNext =>
    have hnext : (a.next r m h).route r.plan = routeFrom r.plan.versions.getLast?
        (r.plan.versions.drop (a.index + 1)) m.target := by
      simp [next, route, hm]
    rw [hnext]
    exact List.subset_cons_self _ _
  | toPrivate =>
    -- the private version is visited next, and none after it
    have hne : r.plan.versions ≠ [] := List.ne_nil_of_mem (List.mem_of_getElem? hat.1)
    have hnext : (a.next r m h).route r.plan = routeFrom (some (r.plan.versions.getLast hne))
        [r.plan.versions.getLast hne] m.target := by
      simp [next, route, hm, List.drop_length_sub_one hne, List.getLast?_eq_some_getLast hne]
    rw [hnext, List.getLast?_eq_some_getLast hne]
    exact fun x hx => List.mem_cons_of_mem _ (routeFrom_last_subset hx)
  | backend => exact absurd hm hroute

/-- **A call keeps to the route** of its first visit. -/
theorem reaches_route_subset (hr : Reaches r a b) : b.route r.plan ⊆ a.route r.plan := by
  induction hr with
  | refl => exact fun x hx => hx
  | tail _ hs ih =>
    obtain ⟨hat, hroute, -⟩ := hs
    exact fun x hx => ih (next_route_subset hat hroute _ hx)

/-! ### Two registries -/

/-- At a version that does not exist, or that has no such method, all registries do the same. -/
theorem run_of_not_at {σ : Type} (hplan : r'.plan = r.plan) (hno : ∀ v m, ¬a.At r v m)
    (backend : Backend σ) (visits : Nat) (state : σ) :
    a.run r backend visits state = a.run r' backend visits state := by
  cases visits with
  | zero => rfl
  | succ visits =>
    unfold run Registry.invokeWithin
    rw [hplan]
    cases hv : r.plan.versions[a.index]? with
    | none => rfl
    | some v =>
      cases hm : v.method? a.name with
      | none => simp only [Registry.methodOf, hm]
      | some m => exact absurd ⟨hv, hm⟩ (hno v m)

/-- **Registries that agree on the route** of a visit do the same from there on. -/
theorem run_congr {σ : Type} (hplan : r'.plan = r.plan)
    (hagree : ∀ v ∈ a.route r.plan, r.AgreesAt r' v) (backend : Backend σ) (visits : Nat)
    (state : σ) : a.run r backend visits state = a.run r' backend visits state := by
  -- by the visits that are allowed for
  induction visits generalizing a state with
  | zero => rfl
  | succ visits ih =>
    by_cases hfound : ∃ v m, a.At r v m
    · obtain ⟨v, m, hat⟩ := hfound
      have hat' : a.At r' v m := by rwa [At, hplan]
      have hv := hagree v hat.mem_route
      by_cases hroute : m.route = .backend
      · rw [run_backend hat hroute, run_backend hat' hroute, hv.validate_eq hplan]
      · rw [run_hop hat hroute, run_hop hat' hroute, hv.handOver_eq hplan]
        cases r'.handOver v m a.name a.request a.mutations with
        | error e => rfl
        | ok h =>
          -- what is handed over is the same, and so is the visit that follows
          have hnext : a.next r' m h = a.next r m h := by rw [next, next, hplan]
          have hrest := ih (a := a.next r m h)
            (fun x hx => hagree x (next_route_subset hat hroute h hx)) state
          simp only [hnext, hrest, hv.responseOf_eq]
    · exact run_of_not_at hplan (fun v m hat => hfound ⟨v, m, hat⟩) backend _ state

end Visit

/-! ### Routes of generated plans -/

/-- Under the name of a method, a version of a generated plan has a method. -/
theorem exists_method_of_name {plan : Plan} (h : plan.Generated) {m : MethodId}
    (hm : m.index < plan.chain.methods.size) :
    ∃ vp mp m', plan.versions[(plan.chain.method m).version.index]? = some vp ∧
      vp.method? (plan.chain.method m).name = some mp ∧
      m' ∈ (plan.chain.version (plan.chain.method m).version).methods ∧
      plan.chain.PlannedAs (plan.chain.version (plan.chain.method m).version) m' mp := by
  have hwf := h.linked.framed.wellFormed
  obtain ⟨vp, hvp, hok⟩ := h.getElem?_version (hwf.method_version_lt hm)
  have hall := Chain.plannedAs_of_versionPlan hok
  obtain ⟨own, hown, hplanned⟩ := forall₂_exists_right hall ((hwf.mem_methods _ m).mpr ⟨hm, rfl⟩)
  have hsome : (vp.method? (plan.chain.method m).name).isSome :=
    List.find?_isSome.mpr ⟨own, hown, beq_iff_eq.mpr hplanned.name_eq⟩
  obtain ⟨mp, hmp⟩ := Option.isSome_iff_exists.mp hsome
  obtain ⟨m', hm', hplanned'⟩ := forall₂_exists_left hall (List.mem_of_find?_eq_some hmp)
  exact ⟨vp, mp, m', hvp, hmp, hm', hplanned'⟩

/-- The route of a method leads through later and later versions to the private one. -/
theorem routeFrom_sublist {plan : Plan} (h : plan.Generated) {m : MethodId}
    (hm : m.index < plan.chain.methods.size) :
    let versions := plan.versions.drop (plan.chain.method m).version.index
    let route := routeFrom plan.versions.getLast? versions (plan.chain.method m).name
    route.Sublist versions ∧ route.getLast? = plan.versions.getLast? := by
  -- by the distance to the private version
  induction hd : plan.versions.length - (plan.chain.method m).version.index
    using Nat.strongRecOn generalizing m with
  | ind d ih =>
    have hframed := h.linked.framed
    have hlength := h.length_versions
    obtain ⟨vp, mp, m', hvp, hmp, hm', hplanned⟩ := exists_method_of_name h hm
    obtain ⟨hlt', hversion⟩ := (hframed.wellFormed.mem_methods _ m').mp hm'
    obtain ⟨hlt, hget⟩ := List.getElem?_eq_some_iff.mp hvp
    have hprivate : (plan.chain.version (plan.chain.method m).version).isPrivate
        = ((plan.chain.method m).version.index + 1 == plan.chain.versions.size) :=
      hframed.isPrivate_eq (by omega)
    dsimp only
    rw [List.drop_eq_getElem_cons hlt, hget, routeFrom_of_method hmp]
    have hlast : plan.versions.getLast? = plan.versions[plan.versions.length - 1]? :=
      List.getLast?_eq_getElem?
    obtain ⟨hisPrivate, rfl⟩ | ⟨hpublic, hplan⟩ := hplanned
    · -- the private version itself
      rw [hprivate, beq_iff_eq] at hisPrivate
      have hindex : plan.versions.length - 1 = (plan.chain.method m).version.index := by omega
      rw [hlast, hindex, hvp]
      exact ⟨List.singleton_sublist.mpr List.mem_cons_self, rfl⟩
    · rw [hprivate, beq_eq_false_iff_ne] at hpublic
      have hbefore : (plan.chain.method m').version.index + 1 < plan.chain.versions.size := by
        rw [hversion]
        omega
      obtain ⟨p, hp⟩ := h.commutes (hversion ▸ hm') hbefore
      obtain ⟨t, ht, htarget, hgoes⟩ := h.linked.planned_target rfl hlt' hbefore hp.final hplan
      rw [hversion] at hgoes
      obtain ⟨hroute, -⟩ | ⟨hroute, hnext, -⟩ := hgoes
      · -- straight to the private version
        rw [hroute]
        have hmem : plan.versions[plan.versions.length - 1]
            ∈ plan.versions.drop ((plan.chain.method m).version.index + 1) :=
          List.mem_drop_iff_getElem.mpr
            ⟨plan.versions.length - 1 - ((plan.chain.method m).version.index + 1), by omega,
              by congr 1; omega⟩
        rw [hlast, List.getElem?_eq_getElem (by omega)]
        exact ⟨List.Sublist.cons_cons _ (List.singleton_sublist.mpr hmem), rfl⟩
      · -- to the next version
        rw [hroute]
        obtain ⟨hsublist, hends⟩ := ih _ (by omega) ht rfl
        rw [hnext, ← htarget] at hsublist hends
        refine ⟨hsublist.cons_cons _, ?_⟩
        dsimp only
        rw [List.getLast?_cons, hends, hlast, List.getElem?_eq_getElem (by omega)]
        rfl

/-! ### Calls -/

/-- Calls of a method of a package visit the versions of their route, and depend on what the
    registry has for these alone. -/
structure Local (plan : Plan) (package method : String) : Prop where
  /-- The route goes through the versions in their order, and through none twice. -/
  ordered : (plan.route package method).Sublist plan.versions
  called : (plan.route package method).head? = plan.version? package
  final : (plan.route package method).getLast? = plan.versions.getLast?
  /-- Every visit of a call is one of a version of the route, whatever the request is and whatever
      validates and converts it. -/
  visited : ∀ r : Registry, r.plan = plan → ∀ start : Visit, start.name = method →
    plan.versions.findIdx? (·.package == package) = some start.index →
      ∀ a v m, start.Reaches r a → a.At r v m → v ∈ plan.route package method
  /-- Two registries that agree on the route give the same answer and leave the backend in the same
      state. -/
  same : ∀ r r' : Registry, r.plan = plan → r'.plan = plan →
    (∀ v ∈ plan.route package method, r.AgreesAt r' v) →
      ∀ (σ : Type) (backend : Backend σ) (request : Record) (state : σ),
        r.call backend package method request state = r'.call backend package method request state

/-- Registries that agree on the route of a method answer its calls alike. -/
theorem call_congr {σ : Type} {r r' : Registry} {package method : String}
    (hplan : r'.plan = r.plan)
    (hagree : ∀ v ∈ r.plan.route package method, r.AgreesAt r' v) (backend : Backend σ)
    (request : Record) (state : σ) :
    r.call backend package method request state = r'.call backend package method request state := by
  cases hindex : r.plan.versions.findIdx? (·.package == package) with
  | none =>
    unfold Registry.call
    rw [hplan, hindex]
  | some index =>
    let start : Visit := ⟨index, method, request, []⟩
    have hmax : r'.maxVisits = r.maxVisits := by rw [Registry.maxVisits, Registry.maxVisits, hplan]
    have hroute : ∀ v ∈ start.route r.plan, r.AgreesAt r' v := by
      rwa [route_eq hindex] at hagree
    have hrun : start.run r backend r.maxVisits state = start.run r' backend r.maxVisits state :=
      Visit.run_congr hplan hroute backend _ state
    have hcall := call_eq (show _ = some start.index from hindex) rfl backend state
    have hcall' := call_eq (show _ = some start.index from hplan.symm ▸ hindex) rfl backend state
    rw [hrun] at hcall
    rw [hmax] at hcall'
    exact hcall.trans hcall'.symm

/-- **Overrides are local.** What replaces the validator or converter of a version of a generated
    plan does not matter to the calls of a method whose route does not lead through the version. -/
theorem local_of_generate {set : DescriptorSet} {config : Config} {plan : Plan}
    (h : Plan.generate set config = .ok plan) {package : String} {v : Version}
    (hv : plan.chain.versionOf? package = some v) {m : MethodId} (hm : m ∈ v.methods) :
    Local plan package (plan.chain.method m).name := by
  have hplan := Plan.generated_of_generate h
  obtain ⟨hlt, heq, hindex⟩ := hplan.findIdx?_package hv
  rw [← heq] at hm
  obtain ⟨hsize, hversion⟩ := (hplan.linked.framed.wellFormed.mem_methods v.id m).mp hm
  obtain ⟨hsublist, hends⟩ := routeFrom_sublist hplan hsize
  have hroute := route_eq hindex (plan.chain.method m).name
  rw [hversion, ← hroute] at hsublist hends
  constructor
  case ordered => exact hsublist.trans (List.drop_sublist _ _)
  case called => exact head?_route plan package _
  case final => exact hends
  case visited =>
    rintro r rfl start hname hstart a v' m' hreaches hat
    rw [route_eq hstart, ← hname]
    exact Visit.reaches_route_subset hreaches hat.mem_route
  case same =>
    rintro r r' rfl hplan' hagree σ backend request state
    exact call_congr hplan' hagree backend request state

/-! ### A sample -/

/-- A package with a method that echoes its requests. -/
def echoFile (package : String) (locations : List Location) : FileDescriptor :=
  let message := package ++ ".Message"
  { name := package ++ ".proto"
    package
    messages := [{ name := "Message", fields := [Plan.noteField "text" "TYPE_STRING"] }]
    services := [{
      name := "Service"
      methods := [{ name := "Echo", inputType := message, outputType := message }] }]
    locations }

/-- In the first version the method is deprecated. -/
def echoSet : DescriptorSet :=
  { files := [
      echoFile "v1" [{ path := [6, 0, 2, 0], leading := some "gen:svc deprecated" }],
      echoFile "v2" [], echoFile "private" []] }

/-- The plan of the sample. -/
def echoPlan : Plan := (Plan.generate echoSet {}).toOption.getD {}

/-- A backend that answers with the request. -/
def echoBackend : Backend Unit := { call := fun _ q s => (.ok q, s) }

/-- A converter that fails always. -/
def failingConverter : ConverterStrategy where
  down _ _ _ := .error (internal "no request is converted")
  up _ _ _ _ := .error (internal "no response is converted")

set_option maxRecDepth 10000 in
/-- Calls of the deprecated method do not notice that the converter of the second version fails. -/
theorem local_sample : ∃ v m r, Plan.generate echoSet {} = .ok echoPlan ∧
    echoPlan.chain.versionOf? "v1" = some v ∧ m ∈ v.methods ∧
    (echoPlan.route "v1" (echoPlan.chain.method m).name).map (·.package) = ["v1", "private"] ∧
    Registry.overrideConverter { plan := echoPlan } "v2.Converter" failingConverter = .ok r ∧
    Local echoPlan "v1" (echoPlan.chain.method m).name ∧
    r.call echoBackend "v1" (echoPlan.chain.method m).name { message := "v1.Message" } ()
      = Registry.call { plan := echoPlan } echoBackend "v1" (echoPlan.chain.method m).name
          { message := "v1.Message" } () := by
  have hsome : (Plan.generate echoSet {}).toOption.isSome = true := by decide +kernel
  have hplan := Plan.eq_ok_of_isSome hsome
  obtain ⟨hv, hm, hroute, hnamed, helsewhere⟩ :
      echoPlan.chain.versionOf? "v1" = some (echoPlan.chain.version ⟨0⟩) ∧
      ⟨0⟩ ∈ (echoPlan.chain.version ⟨0⟩).methods ∧
      (echoPlan.route "v1" (echoPlan.chain.method ⟨0⟩).name).map (·.package)
        = ["v1", "private"] ∧
      echoPlan.versions.any (·.converterName == "v2.Converter") = true ∧
      ∀ v ∈ echoPlan.route "v1" (echoPlan.chain.method ⟨0⟩).name,
        v.converterName ≠ "v2.Converter" := by
    decide +kernel
  have hlocal := local_of_generate hplan hv hm
  have hr : Registry.overrideConverter { plan := echoPlan } "v2.Converter" failingConverter
      = .ok ⟨echoPlan, [], Sorted.insert "v2.Converter" failingConverter []⟩ :=
    if_pos hnamed
  have hagree : ∀ v ∈ echoPlan.route "v1" (echoPlan.chain.method ⟨0⟩).name,
      Registry.AgreesAt { plan := echoPlan }
        ⟨echoPlan, [], Sorted.insert "v2.Converter" failingConverter []⟩ v :=
    fun v hv => Registry.overrideConverter_agreesAt hr (helsewhere v hv)
  exact ⟨_, ⟨0⟩, _, hplan, hv, hm, hroute, hr, hlocal,
    (hlocal.same _ _ rfl rfl hagree Unit echoBackend _ ()).symm⟩

end Service

end Lineage
