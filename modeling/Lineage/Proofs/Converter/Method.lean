import Lineage.Converter.Method
import Lineage.Proofs.Converter.Planner

namespace Lineage

/-!
# What methods are planned as

* `View.planOf` — the plan of a method with a target, `View.Planned` — a method's target corresponds
  to it, and its plan is that,
* `View.requestsOf` — the converters that a method asks for,
* `Planner.Tracked.methodPlans` — the methods of a version are planned, and what they ask for is
  answered,
* `Chain.publicConversions_eq_ok` — the conversions of a public version.
-/

namespace View

variable {w : View}

/-! ### Plans of methods -/

/-- The fields of a request whose values skip the versions in between. -/
def skipping (w : View) (m : Method) : List (Field × FieldId) :=
  if (w.way m).route == .toNext then w.deprecatedFields m.input else []

/-- The converters that a method asks for. -/
def requestsOf (w : View) (m : Method) : List Request :=
  [w.request (w.way m).down (.message m.input)] ++ [w.request (w.way m).up (.message m.output)]
    ++ (w.skipping m).flatMap fun x => (w.action .toPrivate x.1.id x.2 x.2).requests

/-- The deprecated input for a field with its private counterpart, if its value gets across. -/
def inputOf (w : View) (x : Field × FieldId) : Option DeprecatedInput :=
  match (w.action .toPrivate x.1.id x.2 x.2).result with
  | .ok (some action) =>
    some { field := x.1.name, privateField := (w.chain.field x.2).name
           setter := setterName (w.chain.field x.2).name, repeated := x.1.repeated, action }
  | _ => none

/-- The plan of a method with a target. -/
def planOf (w : View) (m target : Method) : MethodPlan :=
  { method := m.id, name := m.name, deprecated := m.deprecated, route := (w.way m).route
    input := m.input, output := m.output, validate := w.chain.validatorOf m.input
    down := some (w.nameOf (w.request (w.way m).down (.message m.input)))
    up := some (w.nameOf (w.request (w.way m).up (.message m.output)))
    target := target.name, deprecatedInputs := (w.skipping m).filterMap w.inputOf }

/-- A method whose target is found and corresponds to it is planned. -/
structure Planned (w : View) (m : Method) (plan : MethodPlan) : Prop where
  exists_target : ∃ t, (w.way m).target = some t ∧
    w.checkTypes m (w.way m).route (w.chain.method t) = .ok () ∧
    plan = w.planOf m (w.chain.method t)
  actions : ∀ x ∈ w.skipping m, ∃ a, (w.action .toPrivate x.1.id x.2 x.2).result = .ok a

/-- Requests go down. -/
theorem isDown_way (w : View) (m : Method) : (w.way m).down.isDown := by
  unfold way
  split <;> rfl

/-- Responses go up. -/
theorem isUp_way (w : View) (m : Method) : (w.way m).up.isDown = false := by
  unfold way
  split
  · dsimp only
    split <;> rfl
  · rfl

/-- A method that goes to the next version. -/
theorem way_of_next {m : Method} (hroute : (w.way m).route = .toNext) :
    (w.way m).down = .toNext ∧ (w.way m).up = .toPublic ∧
      (w.chain.version m.version).isLatest = false := by
  unfold way at hroute ⊢
  split at hroute
  · cases hroute
  · rename_i hlive
    rw [if_neg hlive]
    exact ⟨rfl, rfl, by simp_all⟩

/-- A method goes to the private version or to the next one. -/
theorem way_cases (w : View) (m : Method) :
    (w.way m).route = .toPrivate ∧ (w.way m).target = m.link.final ∨
      (w.way m).route = .toNext ∧ (w.way m).target = m.link.next := by
  unfold way
  split
  · exact .inl ⟨rfl, rfl⟩
  · exact .inr ⟨rfl, rfl⟩

/-- A deprecated input takes a field to its private counterpart. -/
theorem inputOf_eq_some {x : Field × FieldId} {i : DeprecatedInput} (h : w.inputOf x = some i) :
    i.field = x.1.name ∧ i.privateField = (w.chain.field x.2).name ∧
      (w.action .toPrivate x.1.id x.2 x.2).result = .ok (some i.action) := by
  unfold inputOf at h
  split at h
  · rename_i action haction
    obtain rfl := Option.some.inj h
    exact ⟨rfl, rfl, haction⟩
  · cases h

/-- Fields that skip versions are deprecated fields of the request. -/
theorem mem_skipping {m : Method} {x : Field × FieldId} (hx : x ∈ w.skipping m) :
    x ∈ w.deprecatedFields m.input := by
  unfold skipping at hx
  split at hx
  · exact hx
  · cases hx

/-- A deprecated field of a message that the private version has too. -/
theorem mem_deprecatedFields {m : MessageId} {x : Field × FieldId}
    (hx : x ∈ w.deprecatedFields m) :
    ∃ f ∈ (w.chain.message m).fields, x.1 = w.chain.field f ∧
      (w.chain.field f).link.final = some x.2 := by
  obtain ⟨f, hf, hlink⟩ := List.mem_filterMap.mp hx
  obtain ⟨t, ht, rfl⟩ := Option.map_eq_some_iff.mp hlink
  have hplain := List.mem_of_mem_filter (List.mem_of_mem_filter hf)
  obtain ⟨id, hid, rfl⟩ := List.mem_map.mp hplain
  exact ⟨id, hid, rfl, ht⟩

/-- A deprecated input is one of a deprecated field of the request. -/
theorem mem_deprecatedInputs {m t : Method} {i : DeprecatedInput}
    (hi : i ∈ (w.planOf m t).deprecatedInputs) :
    ∃ x ∈ w.skipping m, w.inputOf x = some i :=
  List.mem_filterMap.mp hi

end View

namespace Planner

variable {w : View} {Root : Request → Prop} {p p' : Planner}

/-- Planning deprecated inputs asks for what their actions ask for, and has an input for each
    action. -/
theorem Tracked.deprecatedInputs (h : p.Tracked w Root []) (hpending : p.pending = [])
    {xs : List (Field × FieldId)}
    (hr : ∀ x ∈ xs, ∀ r ∈ (w.action .toPrivate x.1.id x.2 x.2).requests, w.Asked Root r)
    {inputs : List DeprecatedInput} (hok : w.deprecatedInputs xs p = (p', .ok inputs)) :
    Answered w Root p (xs.flatMap fun x => (w.action .toPrivate x.1.id x.2 x.2).requests) p' ∧
      inputs = xs.filterMap w.inputOf ∧
      ∀ x ∈ xs, ∃ a, (w.action .toPrivate x.1.id x.2 x.2).result = .ok a := by
  -- by the inputs: what each asks for is answered before the next one is looked at
  induction xs generalizing p inputs with
  | nil =>
    obtain ⟨rfl, hinputs⟩ := Prod.mk.inj hok
    exact ⟨.refl h hpending, (Except.ok.inj hinputs).symm, by simp⟩
  | cons x xs ih =>
    obtain ⟨hx, hxs⟩ := List.forall_mem_cons.mp hr
    unfold View.deprecatedInputs at hok
    split at hok
    · cases hok
    · rename_i p₁ action heq
      obtain ⟨hresult, hanswered⟩ := h.downAction hx heq
      split at hok
      · cases hok
      · rename_i p₂ rest hrest
        obtain ⟨rfl, hinputs⟩ := Prod.mk.inj hok
        obtain ⟨hrestAnswered, rfl, hactions⟩ :=
          ih hanswered.tracked hanswered.drained hxs hrest
        refine ⟨hanswered.trans hrestAnswered, ?_, ?_⟩
        · rw [← Except.ok.inj hinputs, List.filterMap_cons, View.inputOf, hresult]
          cases action <;> rfl
        · exact List.forall_mem_cons.mpr ⟨⟨action, hresult⟩, hactions⟩

/-- Planning a method asks for what it needs, and has the plan of the method. -/
theorem Tracked.methodPlan (h : p.Tracked w Root []) {m : Method}
    (hr : ∀ r ∈ w.requestsOf m, w.Asked Root r) {plan : MethodPlan}
    (hok : w.methodPlan m p = (p', .ok plan)) :
    Answered w Root p (w.requestsOf m) p' ∧ w.Planned m plan := by
  simp only [View.requestsOf, List.mem_append, List.mem_singleton, List.mem_flatMap, or_assoc]
    at hr
  -- the request, the response, then the inputs: each leaves the state tracked for the next
  unfold View.methodPlan at hok
  dsimp only at hok
  split at hok
  · cases hok
  · rename_i t ht
    unfold View.plannedMethod at hok
    split at hok
    · cases hok
    · rename_i hcheck
      split at hok
      · cases hok
      · rename_i p₁ down hdown
        obtain ⟨rfl, hanswered₁⟩ := h.requestMessage (hr _ (.inl rfl)) hdown
        split at hok
        · cases hok
        · rename_i p₂ up hup
          obtain ⟨rfl, hanswered₂⟩ :=
            hanswered₁.tracked.requestMessage (hr _ (.inr (.inl rfl))) hup
          dsimp only at hok
          split at hok
          · cases hok
          · rename_i p₃ inputs hinputs
            obtain ⟨hanswered₃, rfl, hactions⟩ :=
              hanswered₂.tracked.deprecatedInputs hanswered₂.drained
                (fun x hx r hq => hr r (.inr (.inr ⟨x, hx, hq⟩))) hinputs
            obtain ⟨rfl, hplan⟩ := Prod.mk.inj hok
            refine ⟨(hanswered₁.trans hanswered₂).trans hanswered₃, ⟨t, ht, hcheck, ?_⟩, hactions⟩
            exact (Except.ok.inj hplan).symm

/-- **The methods of a version** are planned one after the other, and all they ask for
    is answered. -/
theorem Tracked.methodPlans (h : p.Tracked w Root []) (hpending : p.pending = [])
    {ms : List Method} (hr : ∀ m ∈ ms, ∀ r ∈ w.requestsOf m, w.Asked Root r)
    {plans : List MethodPlan} (hok : w.methodPlans ms p = (p', .ok plans)) :
    Answered w Root p (ms.flatMap w.requestsOf) p' ∧ List.Forall₂ w.Planned ms plans := by
  induction ms generalizing p plans with
  | nil =>
    obtain ⟨rfl, hplans⟩ := Prod.mk.inj hok
    obtain rfl := Except.ok.inj hplans
    exact ⟨.refl h hpending, .nil⟩
  | cons m ms ih =>
    obtain ⟨hm, hms⟩ := List.forall_mem_cons.mp hr
    unfold View.methodPlans at hok
    split at hok
    · cases hok
    · rename_i p₁ plan heq
      obtain ⟨hanswered, hplanned⟩ := h.methodPlan hm heq
      split at hok
      · cases hok
      · rename_i p₂ rest hrest
        obtain ⟨rfl, hplans⟩ := Prod.mk.inj hok
        obtain rfl := Except.ok.inj hplans
        obtain ⟨hrestAnswered, hall⟩ := ih hanswered.tracked hanswered.drained hms hrest
        exact ⟨hanswered.trans hrestAnswered, .cons hplanned hall⟩

end Planner

/-! ### The conversions of a version -/

namespace Chain

variable {c : Chain} {v : Version}

/-- The view of a version. -/
def viewOf (c : Chain) (v : Version) : View := { chain := c, version := v.id }

/-- What the methods of a version ask for. -/
def AsksFor (c : Chain) (v : Version) (r : Request) : Prop :=
  ∃ m ∈ v.methods, r ∈ (c.viewOf v).requestsOf (c.method m)

/-- **The conversions of a public version**: its methods are planned, and whatever their converters
    ask for is answered. -/
theorem publicConversions_eq_ok {k : Conversions} (h : c.publicConversions v = .ok k) :
    List.Forall₂ (fun m plan => (c.viewOf v).Planned (c.method m) plan) v.methods k.methods ∧
      k.mutators = (c.viewOf v).mutators k.methods ∧
      ∃ p, Planner.Answered (c.viewOf v) (c.AsksFor v) { view := c.viewOf v }
        ((v.methods.map c.method).flatMap (c.viewOf v).requestsOf) p ∧
        k.converters = p.converters := by
  have hok : ∃ plans p, (c.viewOf v).methodPlans (v.methods.map c.method) { view := c.viewOf v }
      = (p, .ok plans) ∧ k = { converters := p.converters, tables := p.tables, methods := plans
                               mutators := (c.viewOf v).mutators plans } := by
    obtain ⟨plans, hplans, rfl⟩ := map_eq_ok.mp h
    exact ⟨plans, _, Prod.ext rfl hplans, rfl⟩
  obtain ⟨plans, p, hplans, rfl⟩ := hok
  have hroots : ∀ m ∈ v.methods.map c.method, ∀ r ∈ (c.viewOf v).requestsOf m,
      (c.viewOf v).Asked (c.AsksFor v) r := by
    intro m hm r hr
    obtain ⟨id, hid, rfl⟩ := List.mem_map.mp hm
    exact .root ⟨id, hid, hr⟩
  obtain ⟨hanswered, hplanned⟩ :=
    (Planner.Tracked.start (c.viewOf v) (c.AsksFor v)).methodPlans rfl hroots hplans
  exact ⟨List.forall₂_map_left_iff.mp hplanned, rfl, p, hanswered, rfl⟩

end Chain

end Lineage
