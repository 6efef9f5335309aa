import Lineage.Generated.Unit
import Lineage.Proofs.Service.Origin

namespace Lineage

/-!
# Calls in units

A unit has functions for the converters and the methods of a version plan.  Their lines call other
converters, with arguments that are read off what is converted and not off what is called.

* `Generated.ConverterFunction.calls` — what the function of a converter calls;
  `Generated.map_function_calls` — this is what the converter refers to,
* `Generated.MethodFunction.calls` — what a method calls: nothing for a deprecated input,
* `Generated.VersionUnit.Declares` — a unit declares what is called, with as many parameters as
  there are arguments, `Generated.declares_iff` — what that means for the version plan,
* `View.takes_assignment`, `View.takes_arm`, `View.takes_method` — where what is called takes what
  it is given,
* `VersionPlan.CallsAsPlanned` — a unit calls what its version plan refers to, as it is declared,
  `VersionPlan.Callable` — a version plan has only conversions that there are calls for,
* `Plan.callsAsPlanned_of_generate` — a unit calls what its version plan refers to exactly if that
  is callable, `Plan.not_callsAsPlanned` — not every one is.
-/

/-! ### What a plan refers to -/

/-- Whether a converter reads the next version's record besides the private one. -/
def Converter.readsNext : Converter → Bool
  | message x => x.shape == .upFromNext
  | enumeration _ => false

namespace Generated

/-! ### What a unit calls -/

/-- The call that a value is made by. -/
def Expression.call? : Expression → Option Call
  | clone _ => none
  | convert call => some call

/-- The call in a line of a converter. -/
def Statement.call? : Statement → Option Call
  | assign _ value | assignEach _ _ value | arm _ _ _ value => value.call?
  | _ => none

/-- The call of a converter in a line of a method. -/
def Step.call? : Step → Option Call
  | convert call | respond call => some call
  | _ => none

/-- The calls in the body of a converter, in their order. -/
def ConverterFunction.calls (f : ConverterFunction) : List Call := f.body.filterMap Statement.call?

/-- The calls in the body of a method, in their order. -/
def MethodFunction.calls (f : MethodFunction) : List Call := f.steps.filterMap Step.call?

/-- The calls of converters in a unit. -/
def VersionUnit.calls (u : VersionUnit) : List Call :=
  u.converters.flatMap (·.calls) ++ u.methods.flatMap (·.calls)

/-- A unit declares what is called, with as many parameters as it is given arguments. -/
def VersionUnit.Declares (u : VersionUnit) (call : Call) : Prop :=
  ∃ f ∈ u.converters, f.signature.function = call.function ∧
    f.signature.parameters.length = call.arguments.length

/-! ### The calls of a converter -/

/-- The call of a converter for an action, on a value and whatever it reads besides. -/
def nestedCall? (action : Action) (value : String) (besides : Option String) : Option Call :=
  action.function?.map fun function => ⟨function, ("&" ++ value) :: besides.toList⟩

/-- An expression calls the nested converter of its action. -/
theorem expression_call? (action : Action) (value : String) (besides : Option String) :
    (expression action value besides).call? = nestedCall? action value besides := by
  cases action <;> rfl

/-- An assignment calls the nested converter of its action, item by item if it is repeated. -/
theorem assignment_call? (a : Assignment) : (assignment a).call?
    = nestedCall? a.action (if a.repeated then "item" else place a.side a.source)
        (a.privateSource.map ("&private." ++ ·)) := by
  unfold assignment
  dsimp only
  split <;> exact expression_call? _ _ _

/-- An arm calls the nested converter of its action. -/
theorem oneofArm_call? (target : String) (a : VariantArm) : (oneofArm target a).call?
    = nestedCall? a.action "value" (a.privateSource.map fun name => "private." ++ name ++ "()") :=
  expression_call? _ _ _

/-- The calls of a oneof are those of its arms. -/
theorem filterMap_oneofStatements (g : OneofMapping) :
    (oneofStatements g).filterMap Statement.call?
      = g.arms.filterMap fun a => (oneofArm g.target a).call? := by
  rw [oneofStatements, List.filterMap_append, List.filterMap_cons_none rfl, List.filterMap_map]
  exact List.append_nil _

/-- A check calls no converter. -/
theorem checkStatement_call? (q : RequiredCheck) : (checkStatement q).call? = none := by
  unfold checkStatement
  split <;> rfl

/-- The calls of the converter of a message: those of its assignments, then those of its oneofs. -/
theorem calls_message (x : MessageConverter) : (converterFunction (.message x)).calls
    = x.assignments.filterMap (fun a => (assignment a).call?)
      ++ x.oneofs.flatMap fun g => g.arms.filterMap fun a => (oneofArm g.target a).call? := by
  have hchecks : (x.required.map checkStatement).filterMap Statement.call? = [] := by
    simp [checkStatement_call?]
  have hunconverted : (x.unconverted.map Statement.unconverted).filterMap Statement.call? = [] := by
    simp [Statement.call?]
  have hcreate : [Statement.create x.outputName].filterMap Statement.call? = [] := rfl
  have hreturn : [Statement.returnOut].filterMap Statement.call? = [] := rfl
  show (messageBody x).filterMap Statement.call? = _
  simp only [messageBody, List.filterMap_append, hchecks, hunconverted, hcreate, hreturn,
    List.filterMap_map, List.filterMap_flatMap, filterMap_oneofStatements, Function.comp_def,
    List.nil_append, List.append_nil]

/-- An enum converter calls no converter. -/
theorem calls_enumeration (e : EnumConverter) :
    (converterFunction (.enumeration e)).calls = [] := by
  have hcases : (e.cases.map fun k => Statement.case k.source k.target).filterMap Statement.call?
      = [] := by
    rw [List.filterMap_map]
    exact List.filterMap_eq_nil_iff.mpr fun _ _ => rfl
  show (enumBody e).filterMap Statement.call? = _
  unfold enumBody
  rw [List.filterMap_append, List.filterMap_cons_none rfl, hcases]
  cases e.fallback <;> rfl

/-- **A converter calls what it refers to**, once for each conversion. -/
theorem map_function_calls (x : Converter) :
    (converterFunction x).calls.map (·.function) = x.references := by
  have hnested (action : Action) (value : String) (besides : Option String) :
      (nestedCall? action value besides).map (·.function) = action.function? := by
    cases action <;> rfl
  cases x with
  | message x =>
    rw [calls_message]
    simp only [Converter.references, List.map_append, List.map_filterMap, List.map_flatMap,
      assignment_call?, oneofArm_call?, hnested]
  | enumeration e =>
    rw [calls_enumeration]
    rfl

/-! ### The calls of a method -/

/-- The calls of a method: of the converter of its request, and of the one of its response. -/
theorem calls_method (c : Chain) (m : MethodPlan) : (methodFunction c m).calls
    = (m.down.map fun down => ⟨down, ["&input"]⟩).toList
      ++ (m.up.map fun up =>
        ⟨up, if m.route = .toNext then ["&next", "&private"] else ["&private"]⟩).toList := by
  -- what a deprecated input is set to is never converted
  have hinputs : (m.deprecatedInputs.flatMap mutation).filterMap Step.call? = [] := by
    rw [List.filterMap_flatMap]
    exact List.flatMap_eq_nil_iff.mpr fun _ _ => rfl
  show (steps m).filterMap Step.call? = _
  unfold steps response
  rw [List.filterMap_append, List.filterMap_append, List.filterMap_append, hinputs]
  cases m.down <;> cases m.up <;> cases m.route <;> rfl

/-- What holds of all calls of a method. -/
theorem forall_calls_method {P : String → Nat → Prop} (c : Chain) (m : MethodPlan) :
    (∀ call ∈ (methodFunction c m).calls, P call.function call.arguments.length) ↔
      (∀ down ∈ m.down, P down 1) ∧ ∀ up ∈ m.up, P up (if m.route = .toNext then 2 else 1) := by
  rw [calls_method, List.forall_mem_append]
  refine and_congr ?_ ?_
  · cases m.down <;> simp
  · cases m.up <;> cases m.route <;> simp

/-! ### Declared functions -/

/-- How many records or values the function of a converter is given. -/
def parameterCount (x : Converter) : Nat := (converterFunction x).signature.parameters.length

/-- The function of a converter has its name. -/
theorem function_signature (x : Converter) :
    (converterFunction x).signature.function = x.function := by
  cases x with
  | message x =>
    show (messageSignature x).function = x.function
    unfold messageSignature
    split <;> rfl
  | enumeration e => rfl

/-- A message converter has one parameter, or two if it reads both records. -/
theorem parameterCount_message (x : MessageConverter) :
    parameterCount (.message x) = if x.shape = .upFromNext then 2 else 1 := by
  show (messageSignature x).parameters.length = _
  unfold messageSignature
  cases x.shape <;> rfl

@[simp] theorem parameterCount_enumeration (e : EnumConverter) :
    parameterCount (.enumeration e) = 1 := rfl

/-- What reads the next version's record takes two records, and anything else one record
    or value. -/
theorem parameterCount_eq (x : Converter) : parameterCount x = if x.readsNext then 2 else 1 := by
  cases x with
  | message x => simp [parameterCount_message, Converter.readsNext]
  | enumeration e => rfl

end Generated

namespace VersionPlan

/-- Under a name there is a converter that is given so many records or values. -/
def Takes (vp : VersionPlan) (function : String) (n : Nat) : Prop :=
  ∃ x, vp.converter? function = some x ∧ Generated.parameterCount x = n

/-- Under a name there is the converter of a message. -/
def ConvertsMessage (vp : VersionPlan) (function : String) : Prop :=
  ∃ x, vp.converter? function = some (.message x)

/-- What is read from the next version's record is converted by the converters of messages; a
    variant by one of a message that is not deprecated. -/
structure CallableMessage (vp : VersionPlan) (x : MessageConverter) : Prop where
  assignments : ∀ a ∈ x.assignments, ∀ r, a.action = .convert r → a.side = .ofNext →
    vp.ConvertsMessage r.function
  arms : ∀ g ∈ x.oneofs, ∀ a ∈ g.arms, ∀ r, a.action = .convert r → g.side = .ofNext →
    r.kind = .toPublic ∧ vp.ConvertsMessage r.function

end VersionPlan

namespace Generated

/-- What a unit declares is what is found under a name in the plan of the version. -/
theorem declares_iff {c : Chain} {vp : VersionPlan} (hsorted : vp.converters.Pairwise (·.1 < ·.1))
    (hnamed : ∀ e ∈ vp.converters, e.2.function = e.1) (call : Call) :
    (ofVersion c vp).Declares call ↔ vp.Takes call.function call.arguments.length := by
  constructor
  · rintro ⟨f, hf, hfunction, hcount⟩
    obtain ⟨⟨name, x⟩, he, rfl⟩ := List.mem_map.mp hf
    obtain rfl : x.function = name := hnamed _ he
    rw [function_signature] at hfunction
    exact ⟨x, (Sorted.get?_eq_some_iff hsorted).mpr (hfunction ▸ he), hcount⟩
  · rintro ⟨x, hx, hcount⟩
    have he := Sorted.mem_of_get? hx
    refine ⟨_, List.mem_map_of_mem he, ?_, hcount⟩
    rw [function_signature, hnamed _ he]

/-- How many arguments a nested converter is given: a value, and what it reads besides. -/
def argumentCount (besides : Option String) : Nat := if besides.isSome then 2 else 1

/-- What holds of a nested call holds of the converter that is referred to, and of how many
    arguments it is given. -/
theorem forall_nestedCall? {P : String → Nat → Prop} (action : Action) (value : String)
    (besides besides' : Option String) (hsome : besides'.isSome = besides.isSome) :
    (∀ call, nestedCall? action value besides' = some call →
        P call.function call.arguments.length) ↔
      ∀ r, action = .convert r → P r.function (argumentCount besides) := by
  have hlength : (("&" ++ value) :: besides'.toList).length = argumentCount besides := by
    rw [argumentCount, ← hsome]
    cases besides' <;> rfl
  cases action with
  | copy => simp [nestedCall?]
  | convert r =>
    simp only [nestedCall?, Action.function?_convert, Option.map_some, Option.some.injEq,
      forall_eq', Action.convert.injEq, hlength]

/-- What holds of all calls of the converter of a message. -/
theorem forall_calls_message {P : String → Nat → Prop} (x : MessageConverter) :
    (∀ call ∈ (converterFunction (.message x)).calls, P call.function call.arguments.length) ↔
      (∀ a ∈ x.assignments, ∀ r, a.action = .convert r →
        P r.function (argumentCount a.privateSource)) ∧
      ∀ g ∈ x.oneofs, ∀ a ∈ g.arms, ∀ r, a.action = .convert r →
        P r.function (argumentCount a.privateSource) := by
  have hassignment (a : Assignment) : (∀ call, (assignment a).call? = some call →
      P call.function call.arguments.length) ↔
        ∀ r, a.action = .convert r → P r.function (argumentCount a.privateSource) := by
    rw [assignment_call?]
    exact forall_nestedCall? _ _ _ _ Option.isSome_map
  have harm (target : String) (a : VariantArm) : (∀ call, (oneofArm target a).call? = some call →
      P call.function call.arguments.length) ↔
        ∀ r, a.action = .convert r → P r.function (argumentCount a.privateSource) := by
    rw [oneofArm_call?]
    exact forall_nestedCall? _ _ _ _ Option.isSome_map
  rw [calls_message, List.forall_mem_append, List.forall_mem_filterMap, List.forall_mem_flatMap]
  refine and_congr (forall₂_congr fun a _ => hassignment a) (forall₂_congr fun g _ => ?_)
  rw [List.forall_mem_filterMap]
  exact forall₂_congr fun a _ => harm g.target a

end Generated

/-! ### What is called -/

/-- What has a counterpart in the next version has one in the private version. -/
theorem Chain.Linked.final_isSome_of_next {c : Chain} {count : Nat} (h : c.Linked count)
    {f g : FieldId} (hg : (c.field f).link.next = some g) : (c.field f).link.final.isSome := by
  have hleads : (c.links (.field f)).Leads (.field g) := .inl (by simp [links, hg])
  obtain ⟨p, hp, -⟩ := (h.coherent (has_of_leads hleads) (h.public_of_leads hleads)).final
  obtain ⟨q, hq, -⟩ := Option.map_eq_some_iff.mp hp
  rw [hq]
  rfl

namespace View

/-- A conversion that is conveyed names a converter that is asked for. -/
theorem Conveys.convert {w : View} {kind : ConverterKind} {f other checked : FieldId} {a : Action}
    {asked : List Request} (h : w.Conveys kind f other checked a asked) {r : ConverterRef}
    (hr : a = .convert r) : ∃ s, subjectOf (w.chain.field f).typeRef = some s ∧
      r = w.reference (w.request kind s) ∧ w.request kind s ∈ asked := by
  obtain ⟨hcopy, -⟩ | ⟨_, s, _, -, hnested⟩ := h.cases
  · rw [hcopy] at hr
    cases hr
  · exact ⟨s, hnested.type, Action.convert.inj (hr.symm.trans hnested.eq), hnested.asked⟩

/-- What is read from the next version's record is converted by a converter to the public type,
    unless that is deprecated. -/
theorem kind_nested_of_next {w : View} {kind : ConverterKind} (hup : kind.isDown = false)
    (hshape : w.shape kind = .upFromNext) (id : MessageId) (s : Subject) :
    (w.request (nestedUp (w.head kind id) false) s).kind
      = if w.isDeprecated s then .toDeprecatedPublic else .toPublic := by
  obtain rfl := kind_of_upFromNext hup hshape
  have hnested : nestedUp (w.head .toPublic id) false = .toPublic := by simp [nestedUp, head]
  rw [hnested]
  cases hdeprecated : w.isDeprecated s with
  | true =>
    rw [request_toPublic_of_deprecated hdeprecated]
    rfl
  | false =>
    rw [request_of_live hdeprecated]
    rfl

section
variable {w : View} {vp : VersionPlan} {Root : Request → Prop} {p₀ p : Planner}
  {asked : List Request} {count : Nat} (h : Planner.Answered w Root p₀ asked p)
  (hconverters : vp.converters = p.converters)
include h hconverters

/-- Under the name of a request there is a converter of the requested kind. -/
theorem exists_callee {q : Request} (hq : w.nameOf q ∈ p.queued) :
    ∃ x, vp.converter? (w.nameOf q) = some x ∧
      ∀ y, x = .message y → y.shape = w.shape q.kind := by
  obtain ⟨x, hx⟩ := h.get? hq
  obtain ⟨table, -, hname, hok, -⟩ := h.tracked.specified (Sorted.mem_of_get? hx)
  -- it may be for another type of the same name, but its name begins with the requested kind
  have hkind : x.kind = q.kind := ConverterKind.eq_of_functionName hname
  refine ⟨x, by rw [VersionPlan.converter?, hconverters, hx], ?_⟩
  rintro y rfl
  rw [(converter_message hok).2.shape, ← hkind]
  rfl

/-- What does not read the next version's record is given one record or value. -/
theorem takes_one {q : Request} (hq : w.nameOf q ∈ p.queued)
    (hshape : w.shape q.kind ≠ .upFromNext) :
    vp.Takes (w.nameOf q) 1 := by
  obtain ⟨x, hx, hmessage⟩ := exists_callee h hconverters hq
  refine ⟨x, hx, ?_⟩
  cases x with
  | message y =>
    rw [Generated.parameterCount_message, hmessage y rfl, if_neg hshape]
  | enumeration e => rfl

/-- What reads the next version's record is given two, if it is the converter of a message. -/
theorem takes_two_iff {q : Request} (hq : w.nameOf q ∈ p.queued) :
    vp.Takes (w.nameOf q) 2 ↔
      w.shape q.kind = .upFromNext ∧ vp.ConvertsMessage (w.nameOf q) := by
  obtain ⟨x, hx, hmessage⟩ := exists_callee h hconverters hq
  unfold VersionPlan.Takes VersionPlan.ConvertsMessage
  rw [hx]
  cases x with
  | message y =>
    rw [← hmessage y rfl]
    by_cases hshape : y.shape = .upFromNext <;> simp [Generated.parameterCount_message, hshape]
  | enumeration e => simp

/-- A message converter of a version plan is the one of its kind for its message, and what it asks
    for is found. -/
theorem message_of_mem {name : String} {x : MessageConverter}
    (hx : (name, .message x) ∈ vp.converters) :
    (w.messageConverter x.kind x.message).result = .ok x ∧
      ∀ q ∈ (w.messageConverter x.kind x.message).requests, w.nameOf q ∈ p.queued := by
  obtain ⟨table, -, -, hok, hqueued⟩ := h.tracked.specified (hconverters ▸ hx)
  obtain ⟨hmessage, hrequests⟩ := messageConverter_of_converter hok
  exact ⟨hmessage, fun q hq => hqueued q (hrequests ▸ hq)⟩

/-- What a converter that leads down refers to is given one record or value. -/
theorem takes_one_of_down {kind : ConverterKind} (hdown : kind.isDown) {f other checked : FieldId}
    {a : Action} {own : List Request} (hconveys : w.Conveys kind f other checked a own)
    (hown : ∀ q ∈ own, w.nameOf q ∈ p.queued) {r : ConverterRef} (hr : a = .convert r) :
    vp.Takes r.function 1 := by
  obtain ⟨s, -, rfl, hasked⟩ := hconveys.convert hr
  refine takes_one h hconverters (hown _ hasked) ?_
  rw [request_of_isDown hdown, (w.shape_eq_down kind).mpr hdown]
  exact nofun

/-- What is read from the private record alone is converted by what is given one record or value. -/
theorem takes_one_of_private {kind : ConverterKind} (hup : kind.isDown = false) {id : MessageId}
    {f other checked : FieldId} {a : Action} {own : List Request}
    (hconveys : w.Conveys (nestedUp (w.head kind id) true) f other checked a own)
    (hown : ∀ q ∈ own, w.nameOf q ∈ p.queued) {r : ConverterRef} (hr : a = .convert r) :
    vp.Takes r.function 1 := by
  obtain ⟨s, -, rfl, hasked⟩ := hconveys.convert hr
  refine takes_one h hconverters (hown _ hasked) ?_
  rw [shape_nestedUp_private hup]
  exact nofun

/-- What is read from the next version's record is converted by what is given two records, if that
    is the converter of a message that is not deprecated. -/
theorem takes_two_of_next {kind : ConverterKind} (hup : kind.isDown = false)
    (hshape : w.shape kind = .upFromNext) {id : MessageId} {f other checked : FieldId} {a : Action}
    {own : List Request}
    (hconveys : w.Conveys (nestedUp (w.head kind id) false) f other checked a own)
    (hown : ∀ q ∈ own, w.nameOf q ∈ p.queued) {r : ConverterRef} (hr : a = .convert r) :
    vp.Takes r.function 2 ↔ r.kind = .toPublic ∧ vp.ConvertsMessage r.function := by
  obtain ⟨s, -, rfl, hasked⟩ := hconveys.convert hr
  have htwo := takes_two_iff h hconverters (hown _ hasked)
  rw [shape_nested_of_next hup hshape] at htwo
  refine htwo.trans (and_congr_left' ?_)
  show _ ↔ (w.request (nestedUp (w.head kind id) false) s).kind = .toPublic
  rw [kind_nested_of_next hup hshape]
  cases w.isDeprecated s <;> simp

/-- **Assignments.** The converter of an assignment is given what it takes, unless it is one of an
    enum that is given the private record besides. -/
theorem takes_assignment (hlinked : w.chain.Linked count) {name : String} {x : MessageConverter}
    (hx : (name, .message x) ∈ vp.converters) {a : Assignment} (ha : a ∈ x.assignments)
    {r : ConverterRef} (hr : a.action = .convert r) :
    vp.Takes r.function (Generated.argumentCount a.privateSource) ↔
      (a.side = .ofNext → vp.ConvertsMessage r.function) := by
  obtain ⟨hok, hqueued⟩ := message_of_mem h hconverters hx
  cases hkind : x.kind.isDown with
  | true =>
    obtain ⟨f, -, hassigns⟩ := (messageConverter_down hok hkind).assigned a ha
    obtain ⟨t, -, -, hconveys⟩ := hassigns.target
    have htakes := takes_one_of_down h hconverters hkind hconveys hqueued hr
    simpa [hassigns.besides, hassigns.side, Generated.argumentCount] using htakes
  | false =>
    obtain ⟨f, hf, hassigns⟩ := (messageConverter_up hok hkind).assigned a ha
    obtain ⟨t, ht, -, hconveys⟩ := hassigns.source
    have hside := hassigns.side
    have hbesides := hassigns.besides
    rw [hside] at hbesides ⊢
    cases hread : w.readsPrivate (w.head x.kind x.message).shape f with
    | true =>
      -- the private record alone is read, so that nothing is given besides
      rw [hread] at hconveys hbesides
      have htakes := takes_one_of_private h hconverters hkind hconveys hqueued hr
      simpa [hbesides, View.besides, upSide, Generated.argumentCount] using htakes
    | false =>
      -- what the next version has the private one has too, which is given besides; the type is not
      -- deprecated
      rw [hread] at hconveys hbesides ht
      obtain ⟨i, hi, -, rfl⟩ := Chain.mem_plainFields.mp hf
      have hid :=
        hlinked.framed.wellFormed.field_id ((hlinked.framed.wellFormed.mem_fields _ i).mp hi).1
      rw [hid] at hconveys
      have hshape := shape_of_readsNext hkind hread
      have htwo := takes_two_of_next h hconverters hkind hshape hconveys hqueued hr
      have hpublic : r.kind = .toPublic := by
        obtain ⟨s, hs, rfl, -⟩ := hconveys.convert hr
        rw [(shape_nestedUp_next hkind x.message hs hread).1]
        rfl
      have hcount : Generated.argumentCount a.privateSource = 2 := by
        simp [hbesides, View.besides, upSide, Generated.argumentCount,
          hlinked.final_isSome_of_next ht]
      rw [hcount, htwo]
      simp [upSide, hpublic]

/-- **Arms.** The converter of an arm is given what it takes, unless it is one of an enum, or of a
    deprecated message, that is given the private record besides. -/
theorem takes_arm (hlinked : w.chain.Linked count) {name : String} {x : MessageConverter}
    (hx : (name, .message x) ∈ vp.converters) {g : OneofMapping} (hg : g ∈ x.oneofs)
    {a : VariantArm} (ha : a ∈ g.arms) {r : ConverterRef} (hr : a.action = .convert r) :
    vp.Takes r.function (Generated.argumentCount a.privateSource) ↔
      (g.side = .ofNext → r.kind = .toPublic ∧ vp.ConvertsMessage r.function) := by
  obtain ⟨hok, hqueued⟩ := message_of_mem h hconverters hx
  cases hkind : x.kind.isDown with
  | true =>
    obtain ⟨o, -, hmaps⟩ := (messageConverter_down hok hkind).mapped g hg
    obtain ⟨v, -, harms⟩ := hmaps.armed a ha
    obtain ⟨t, -, -, hconveys⟩ := harms.target
    have htakes := takes_one_of_down h hconverters hkind hconveys hqueued hr
    simpa [harms.besides, hmaps.side, Generated.argumentCount] using htakes
  | false =>
    obtain ⟨o, -, hmaps⟩ := (messageConverter_up hok hkind).mapped g hg
    obtain ⟨_, hv, harms⟩ := hmaps.armed a ha
    obtain ⟨v, -, rfl⟩ := List.mem_map.mp hv
    obtain ⟨t, ht, -, hconveys⟩ := harms.source
    have hbesides := harms.besides
    rw [hmaps.side]
    cases hread : ((w.head x.kind x.message).shape == .upFromPrivate || o.deprecated) with
    | true =>
      rw [hread] at hconveys hbesides
      have htakes := takes_one_of_private h hconverters hkind hconveys hqueued hr
      simpa [hbesides, View.besides, upSide, Generated.argumentCount] using htakes
    | false =>
      -- unlike a field, a variant of a deprecated type is read from where its oneof is read from
      rw [hread] at hconveys hbesides ht
      have hshape : w.shape x.kind = .upFromNext := by
        obtain ⟨hprivate, -⟩ := Bool.or_eq_false_iff.mp hread
        exact (shape_of_up hkind).resolve_right (beq_eq_false_iff_ne.mp hprivate)
      have htwo := takes_two_of_next h hconverters hkind hshape hconveys hqueued hr
      have hcount : Generated.argumentCount a.privateSource = 2 := by
        simp [hbesides, View.besides, upSide, Generated.argumentCount,
          hlinked.final_isSome_of_next ht]
      rw [hcount, htwo]
      simp [upSide]

/-- **Converters of messages.** All converters that the one of a message calls are given what they
    take exactly if those that are given the private record besides are converters of messages, and
    for an arm of one that is not deprecated. -/
theorem takes_message (hlinked : w.chain.Linked count) {name : String} {x : MessageConverter}
    (hx : (name, .message x) ∈ vp.converters) :
    (∀ call ∈ (Generated.converterFunction (.message x)).calls,
        vp.Takes call.function call.arguments.length) ↔ vp.CallableMessage x := by
  rw [Generated.forall_calls_message]
  constructor
  · rintro ⟨hassignments, harms⟩
    constructor
    · exact fun a ha r hr =>
        (takes_assignment h hconverters hlinked hx ha hr).mp (hassignments a ha r hr)
    · exact fun g hg a ha r hr =>
        (takes_arm h hconverters hlinked hx hg ha hr).mp (harms g hg a ha r hr)
  · intro hcallable
    constructor
    · exact fun a ha r hr =>
        (takes_assignment h hconverters hlinked hx ha hr).mpr (hcallable.assignments a ha r hr)
    · exact fun g hg a ha r hr =>
        (takes_arm h hconverters hlinked hx hg ha hr).mpr (hcallable.arms g hg a ha r hr)

/-! ### Calls of methods -/

/-- The request of a method is converted by what is given one record. -/
theorem takes_down (m : Method)
    (hq : w.nameOf (w.request (w.way m).down (.message m.input)) ∈ p.queued) :
    vp.Takes (w.nameOf (w.request (w.way m).down (.message m.input))) 1 := by
  have hdown := w.isDown_way m
  refine takes_one h hconverters hq ?_
  rw [request_of_isDown hdown, (w.shape_eq_down _).mpr hdown]
  exact nofun

/-- The response of a method that bypasses the next version is converted by what is given one
    record. -/
theorem takes_up_private {m : Method} (hversion : m.version = w.version)
    (hroute : (w.way m).route ≠ .toNext)
    (hq : w.nameOf (w.request (w.way m).up (.message m.output)) ∈ p.queued) :
    vp.Takes (w.nameOf (w.request (w.way m).up (.message m.output))) 1 := by
  refine takes_one h hconverters hq ?_
  have hup := w.isUp_way m
  cases hdeprecated : m.deprecated with
  | true =>
    -- a deprecated method has a converter that reads the private record alone, in every version
    have hkind : (w.way m).up = .toDeprecatedPublic := by simp [way, hdeprecated]
    have hshape :
      w.shape (w.request .toDeprecatedPublic (.message m.output)).kind = .upFromPrivate := rfl
    rw [hkind, hshape]
    decide
  | false =>
    -- any other one bypasses the next version only where there is none
    have hlatest : w.isLatest := by
      by_contra hlatest
      refine hroute ?_
      simp_all [way, isLatest]
    rw [Chain.shape_of_isLatest hlatest (Chain.isDown_request hup _)]
    decide

/-- The response of a method that goes to the next version is converted by what is given two
    records, if that is the converter of a message that is not deprecated. -/
theorem takes_up_next {m : Method} (hversion : m.version = w.version)
    (hroute : (w.way m).route = .toNext)
    (hq : w.nameOf (w.request (w.way m).up (.message m.output)) ∈ p.queued) :
    vp.Takes (w.nameOf (w.request (w.way m).up (.message m.output))) 2 ↔
      (w.chain.message m.output).deprecated = false ∧
        vp.ConvertsMessage (w.nameOf (w.request (w.way m).up (.message m.output))) := by
  refine (takes_two_iff h hconverters hq).trans (and_congr_left' ?_)
  obtain ⟨-, hup, hlatest⟩ := way_of_next hroute
  rw [hversion] at hlatest
  rw [hup]
  cases hdeprecated : (w.chain.message m.output).deprecated with
  | true =>
    rw [request_toPublic_of_deprecated (by exact hdeprecated)]
    exact ⟨nofun, nofun⟩
  | false =>
    rw [request_of_live (by exact hdeprecated)]
    simp [shape, facesNext, isLatest, hlatest, ConverterKind.isDown]

/-- **Methods.** The converters of a method are given what they take, unless the one of the response
    is one of a deprecated message, or of an enum, that is given the next version's
    record besides. -/
theorem takes_method {m : Method} (hversion : m.version = w.version) {mp : MethodPlan}
    (hplan : w.Planned m mp) (hroot : ∀ q ∈ w.requestsOf m, w.nameOf q ∈ p.queued) :
    (∀ call ∈ (Generated.methodFunction w.chain mp).calls,
        vp.Takes call.function call.arguments.length) ↔
      (mp.route = .toNext → (w.chain.message mp.output).deprecated = false ∧
        ∀ up ∈ mp.up, vp.ConvertsMessage up) := by
  obtain ⟨t, -, -, rfl⟩ := hplan.exists_target
  simp only [requestsOf, List.mem_append, List.mem_singleton, or_assoc] at hroot
  have hdown := takes_down h hconverters m (hroot _ (.inl rfl))
  have hup := hroot _ (.inr (.inl rfl))
  rw [Generated.forall_calls_method]
  show (∀ down ∈ some _, vp.Takes down 1) ∧
    (∀ up ∈ some _, vp.Takes up (if (w.way m).route = .toNext then 2 else 1)) ↔
      ((w.way m).route = .toNext → (w.chain.message m.output).deprecated = false ∧
        ∀ up ∈ some _, vp.ConvertsMessage up)
  simp only [Option.mem_some, forall_eq', hdown, true_and]
  by_cases hroute : (w.way m).route = .toNext
  · simp only [hroute, if_true, forall_const]
    exact takes_up_next h hconverters hversion hroute hup
  · simp only [hroute, if_false, false_imp_iff, iff_true]
    exact takes_up_private h hconverters hversion hroute hup

end

/-- What converts a deprecated input is not called by the method: that calls no converter to the
    private type. -/
theorem function_ne_of_input {w : View} {m : Method} {mp : MethodPlan} (hplan : w.Planned m mp)
    {i : DeprecatedInput} (hi : i ∈ mp.deprecatedInputs) {r : ConverterRef}
    (hr : i.action = .convert r) :
    ∀ call ∈ (Generated.methodFunction w.chain mp).calls, call.function ≠ r.function := by
  obtain ⟨t, -, -, rfl⟩ := hplan.exists_target
  obtain ⟨x, hx, hinput⟩ := mem_deprecatedInputs hi
  obtain ⟨-, -, hresult⟩ := inputOf_eq_some hinput
  have hroute : (w.way m).route = .toNext := by
    unfold skipping at hx
    split at hx
    · rename_i hroute
      exact beq_iff_eq.mp hroute
    · cases hx
  obtain ⟨hdown, hup, -⟩ := way_of_next hroute
  have hconveys : w.Conveys .toPrivate x.1.id x.2 x.2 i.action _ := ⟨hresult, List.Subset.refl _⟩
  obtain ⟨s, -, rfl, -⟩ := hconveys.convert hr
  -- a converter of another kind has another name
  have hkind (kind : ConverterKind) (hne : kind ≠ .toPrivate) (name : String) :
      kind.functionName name ≠ (w.reference (w.request .toPrivate s)).function :=
    fun heq => hne (ConverterKind.eq_of_functionName heq)
  refine (Generated.forall_calls_method (P := fun function _ =>
    function ≠ (w.reference (w.request .toPrivate s)).function) _ _).mpr ⟨?_, ?_⟩
  · rintro _ ⟨⟩
    rw [hdown]
    exact hkind .toNext nofun _
  · rintro _ ⟨⟩
    refine hkind _ (fun heq => ?_) _
    have hled : (w.request .toPublic (.message m.output)).kind.isDown = false :=
      Chain.isDown_request rfl _
    rw [← hup, heq] at hled
    cases hled

end View

namespace VersionPlan

/-- A unit calls what its version plan refers to, as it is declared. -/
structure CallsAsPlanned (c : Chain) (vp : VersionPlan) : Prop where
  /-- A converter calls the converters of its assignments and arms, one for each conversion. -/
  converters : ∀ e ∈ vp.converters,
    (Generated.converterFunction e.2).calls.map (·.function) = e.2.references
  /-- A method calls the converters of its deprecated inputs. -/
  inputs : ∀ m ∈ vp.methods, ∀ i ∈ m.deprecatedInputs, ∀ r, i.action = .convert r →
    ∃ call ∈ (Generated.methodFunction c m).calls, call.function = r.function
  declared : ∀ call ∈ (Generated.ofVersion c vp).calls, (Generated.ofVersion c vp).Declares call
  /-- Two records are taken by what reads the next version's record, one record or value by anything
      else. -/
  parameters : ∀ e ∈ vp.converters, (Generated.converterFunction e.2).signature.parameters.length
    = if e.2.readsNext then 2 else 1

/-- The conversions of a version plan are those that its unit has calls for. -/
structure Callable (c : Chain) (vp : VersionPlan) : Prop where
  /-- No deprecated input is converted. -/
  inputs : ∀ m ∈ vp.methods, ∀ i ∈ m.deprecatedInputs, i.action = .copy
  messages : ∀ n x, (n, .message x) ∈ vp.converters → vp.CallableMessage x
  /-- The response of a method that goes to the next version is a message that is not deprecated. -/
  responses : ∀ m ∈ vp.methods, m.route = .toNext →
    (c.message m.output).deprecated = false ∧ ∀ up ∈ m.up, vp.ConvertsMessage up

section
variable {c : Chain} {vp : VersionPlan}

instance (function : String) : Decidable (vp.ConvertsMessage function) :=
  match h : vp.converter? function with
  | some (.message x) => .isTrue ⟨x, h⟩
  | some (.enumeration _) | none => .isFalse fun ⟨_, hx⟩ => by simp [h] at hx

instance (x : MessageConverter) : Decidable (vp.CallableMessage x) :=
  decidable_of_iff ((∀ a ∈ x.assignments, ∀ r, a.action = .convert r → a.side = .ofNext →
        vp.ConvertsMessage r.function) ∧
      ∀ g ∈ x.oneofs, ∀ a ∈ g.arms, ∀ r, a.action = .convert r → g.side = .ofNext →
        r.kind = .toPublic ∧ vp.ConvertsMessage r.function)
    ⟨fun h => ⟨h.1, h.2⟩, fun h => ⟨h.assignments, h.arms⟩⟩

instance : Decidable (vp.Callable c) :=
  decidable_of_iff ((∀ m ∈ vp.methods, ∀ i ∈ m.deprecatedInputs, i.action = .copy) ∧
      (∀ e ∈ vp.converters, ∀ x, e.2 = .message x → vp.CallableMessage x) ∧
      ∀ m ∈ vp.methods, m.route = .toNext →
        (c.message m.output).deprecated = false ∧ ∀ up ∈ m.up, vp.ConvertsMessage up)
    ⟨fun h => ⟨h.1, fun n x hx => h.2.1 (n, .message x) hx x rfl, h.2.2⟩,
      fun h => ⟨h.inputs, fun e he x hx => h.messages e.1 x (hx ▸ he), h.responses⟩⟩

/-- The calls of a unit are those of its converters and of its methods. -/
theorem forall_calls_iff : (∀ call ∈ (Generated.ofVersion c vp).calls,
    (Generated.ofVersion c vp).Declares call) ↔
      (∀ e ∈ vp.converters, ∀ call ∈ (Generated.converterFunction e.2).calls,
        (Generated.ofVersion c vp).Declares call) ∧
      ∀ m ∈ vp.methods, ∀ call ∈ (Generated.methodFunction c m).calls,
        (Generated.ofVersion c vp).Declares call := by
  rw [Generated.VersionUnit.calls, List.forall_mem_append, List.forall_mem_flatMap,
    List.forall_mem_flatMap]
  exact and_congr List.forall_mem_map List.forall_mem_map

end

end VersionPlan

namespace Plan

variable {plan : Plan} {vp : VersionPlan}

/-- The converters of a version plan are sorted, each under the name of its function. -/
theorem sorted_converters {c : Chain} {v : Version} (hok : versionPlan (.ofChain c) v = .ok vp) :
    vp.converters.Pairwise (·.1 < ·.1) ∧ ∀ e ∈ vp.converters, e.2.function = e.1 := by
  cases hprivate : v.isPrivate with
  | true =>
    rw [(versionPlan_private hok hprivate).2.1]
    exact ⟨.nil, nofun⟩
  | false =>
    obtain ⟨-, -, p, hanswered, hconverters⟩ := versionPlan_public hok hprivate
    rw [hconverters]
    refine ⟨hanswered.tracked.sorted, fun ⟨name, x⟩ hx => ?_⟩
    obtain ⟨_, -, hname, hresult, -⟩ := hanswered.tracked.specified hx
    exact (View.converter_spec hresult).2.trans hname

/-- The unit of the private version calls no converters. -/
theorem callsAsPlanned_private {c : Chain} {v : Version}
    (hok : versionPlan (.ofChain c) v = .ok vp) (hprivate : v.isPrivate) :
    vp.CallsAsPlanned c ∧ vp.Callable c := by
  obtain ⟨hmethods, hconverters, -⟩ := versionPlan_private hok hprivate
  have hbackend (m : MethodPlan) (hm : m ∈ vp.methods) :
      m.deprecatedInputs = [] ∧ m.route = .backend ∧ (Generated.methodFunction c m).calls = [] := by
    rw [hmethods] at hm
    obtain ⟨m, -, rfl⟩ := List.mem_map.mp hm
    exact ⟨rfl, rfl, Generated.calls_method c _⟩
  constructor
  · constructor
    case converters => simp [hconverters]
    case inputs =>
      intro m hm i hi
      simp [(hbackend m hm).1] at hi
    case declared =>
      rw [VersionPlan.forall_calls_iff]
      constructor
      · simp [hconverters]
      · intro m hm call hcall
        simp [(hbackend m hm).2.2] at hcall
    case parameters => simp [hconverters]
  · constructor
    case inputs =>
      intro m hm i hi
      simp [(hbackend m hm).1] at hi
    case messages => simp [hconverters]
    case responses =>
      intro m hm hroute
      simp [(hbackend m hm).2.1] at hroute

/-- The unit of a public version calls what its version plan refers to exactly if it has calls for
    that. -/
theorem callsAsPlanned_public {c : Chain} {count : Nat} (hlinked : c.Linked count) {v : Version}
    (hok : versionPlan (.ofChain c) v = .ok vp) (hv : (c.version v.id) = v)
    (hpublic : v.isPrivate = false) : vp.CallsAsPlanned c ↔ vp.Callable c := by
  obtain ⟨hplanned, -, p, hanswered, hconverters⟩ := versionPlan_public hok hpublic
  have hdeclares (call : Generated.Call) : (Generated.ofVersion c vp).Declares call ↔
      vp.Takes call.function call.arguments.length := by
    obtain ⟨hsorted, hnamed⟩ := sorted_converters hok
    exact Generated.declares_iff hsorted hnamed call
  have hroot (m : MethodId) (hm : m ∈ v.methods) :
      ∀ q ∈ (c.viewOf v).requestsOf (c.method m), (c.viewOf v).nameOf q ∈ p.queued := fun q hq =>
    hanswered.queued q (List.mem_flatMap.mpr ⟨_, List.mem_map_of_mem hm, hq⟩)
  have hmethod (mp : MethodPlan) (hmp : mp ∈ vp.methods) :
      (∀ call ∈ (Generated.methodFunction c mp).calls,
        vp.Takes call.function call.arguments.length) ↔
        (mp.route = .toNext → (c.message mp.output).deprecated = false ∧
          ∀ up ∈ mp.up, vp.ConvertsMessage up) := by
    obtain ⟨m, hm, hplan⟩ := forall₂_exists_left hplanned hmp
    have hversion := ((hlinked.framed.wellFormed.mem_methods v.id m).mp (by rwa [hv])).2
    exact View.takes_method hanswered hconverters hversion hplan (hroot m hm)
  have hmessage (n : String) (x : MessageConverter) (hx : (n, .message x) ∈ vp.converters) :
      (∀ call ∈ (Generated.converterFunction (.message x)).calls,
        vp.Takes call.function call.arguments.length) ↔ vp.CallableMessage x :=
    View.takes_message hanswered hconverters hlinked hx
  constructor
  · intro h
    have hcalls := VersionPlan.forall_calls_iff.mp h.declared
    simp only [hdeclares] at hcalls
    constructor
    case inputs =>
      intro mp hmp i hi
      cases haction : i.action with
      | copy => rfl
      | convert r =>
        obtain ⟨call, hcall, hfunction⟩ := h.inputs mp hmp i hi r haction
        obtain ⟨m, -, hplan⟩ := forall₂_exists_left hplanned hmp
        exact absurd hfunction (View.function_ne_of_input hplan hi haction call hcall)
    case messages => exact fun n x hx => (hmessage n x hx).mp (hcalls.1 _ hx)
    case responses => exact fun mp hmp => (hmethod mp hmp).mp (hcalls.2 mp hmp)
  · intro h
    constructor
    case converters => exact fun e _ => Generated.map_function_calls e.2
    case inputs =>
      intro mp hmp i hi r hr
      rw [h.inputs mp hmp i hi] at hr
      cases hr
    case declared =>
      rw [VersionPlan.forall_calls_iff]
      simp only [hdeclares]
      refine ⟨?_, fun mp hmp => (hmethod mp hmp).mpr (h.responses mp hmp)⟩
      rintro ⟨n, x⟩ hx
      cases x with
      | message x => exact (hmessage n x hx).mpr (h.messages n x hx)
      | enumeration e => simp [Generated.calls_enumeration]
    case parameters => exact fun e _ => Generated.parameterCount_eq e.2

/-- The unit of a version calls what its version plan refers to, as it is declared, exactly if the
    version plan is callable. -/
theorem Generated.callsAsPlanned_iff (h : plan.Generated) (hvp : vp ∈ plan.versions) :
    vp.CallsAsPlanned plan.chain ↔ vp.Callable plan.chain := by
  obtain ⟨k, hk⟩ := List.mem_iff_getElem?.mp hvp
  obtain ⟨hlt, hok⟩ := h.getElem?_eq_some hk
  cases hprivate : (plan.chain.version ⟨k⟩).isPrivate with
  | false =>
    have hid := h.linked.framed.version_id hlt
    exact callsAsPlanned_public h.linked hok (by rw [hid]) hprivate
  | true =>
    obtain ⟨hcalls, hcallable⟩ := callsAsPlanned_private hok hprivate
    exact iff_of_true hcalls hcallable

/-- **Calls of converters.** The unit of a version calls what its version plan refers to, and
    declares what it calls with as many parameters as it is given arguments, exactly if the version
    plan is callable. -/
theorem callsAsPlanned_of_generate {set : DescriptorSet} {config : Config}
    (h : generate set config = .ok plan) (hvp : vp ∈ plan.versions) :
    vp.CallsAsPlanned plan.chain ↔ vp.Callable plan.chain :=
  (generated_of_generate h).callsAsPlanned_iff hvp

set_option maxRecDepth 10000 in
/-- The unit of the first version of the sample. -/
theorem callsAsPlanned_sample : ∃ vp, generate noteSet {} = .ok notePlan ∧ vp ∈ notePlan.versions ∧
    vp.package = "v1" ∧ vp.Callable notePlan.chain ∧ vp.CallsAsPlanned notePlan.chain := by
  have hchecked : notePlan.versions.any (fun vp =>
      vp.package == "v1" && decide (vp.Callable notePlan.chain)) = true := by decide +kernel
  simp only [List.any_eq_true, Bool.and_eq_true, beq_iff_eq, decide_eq_true_eq] at hchecked
  obtain ⟨vp, hvp, hpackage, hcallable⟩ := hchecked
  exact ⟨vp, generate_noteSet, hvp, hpackage, hcallable,
    (callsAsPlanned_of_generate generate_noteSet hvp).mpr hcallable⟩

set_option maxRecDepth 10000 in
/-- **An enum of the next version's record** is converted with the private record besides, which its
    converter does not take. -/
theorem not_callsAsPlanned : ¬∀ set config plan vp, generate set config = .ok plan →
    vp ∈ plan.versions → vp.CallsAsPlanned plan.chain := by
  intro hall
  have hchecked :
      itemPlan.versions.any (fun vp => decide (¬vp.Callable itemPlan.chain)) = true := by
    decide +kernel
  simp only [List.any_eq_true, decide_eq_true_eq] at hchecked
  obtain ⟨vp, hvp, hopen⟩ := hchecked
  have hcalls := hall itemSet {} itemPlan vp generate_itemSet hvp
  exact hopen (((generated_of_generate generate_itemSet).callsAsPlanned_iff hvp).mp hcalls)

end Plan

end Lineage
