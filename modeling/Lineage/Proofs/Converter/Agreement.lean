import Lineage.Proofs.Chain.Resolved
import Lineage.Proofs.Converter.Parts
import Lineage.Proofs.Converter.Session

namespace Lineage

/-!
# What specified converters agree with

Whatever happens in a session, its converters agree with the links of the chain.

* `Traced.Asks` — all that is asked for on the way has a property, also if nothing comes of it,
* `View.Effective` — a request that leads up to a deprecated type only from the private version,
  `View.converter_asks` — nothing else is asked for,
* `View.Agrees` — a converter is for a type that it may be for, works against the counterpart that
  it should, and its nested conversions fit,
* `Planner.Moment` — the states that a planner goes through, `Planner.Sound.moment` — what holds in
  all of them,
* `Planner.agrees_of_moment` — all converters specified at any moment agree with the chain.
-/

/-! ### All that is asked for -/

namespace Traced

variable {α β : Type} {P : Request → Prop}

/-- All that is asked for on the way has a property, also if nothing comes of it. -/
def Asks (P : Request → Prop) (t : Traced α) : Prop := ∀ r ∈ t.requests, P r

/-- A value asks for nothing. -/
theorem Asks.pure (a : α) : (Pure.pure a : Traced α).Asks P := List.forall_mem_nil _

/-- A result asks for nothing. -/
theorem Asks.lift (r : Except ConversionError α) : (Traced.lift r).Asks P := List.forall_mem_nil _

/-- A failure asks for nothing. -/
theorem Asks.fail (e : ConversionError) : (Traced.fail e : Traced α).Asks P := List.forall_mem_nil _

/-- A request asks for itself. -/
theorem Asks.ask {r : Request} (h : P r) : (Traced.ask r).Asks P := List.forall_mem_singleton.mpr h

/-- Steps ask for what either of them asks for. -/
theorem Asks.bind {x : Traced α} {f : α → Traced β} (hx : x.Asks P) (hf : ∀ a, (f a).Asks P) :
    (x >>= f).Asks P := by
  simp only [Bind.bind]
  split
  · exact List.forall_mem_append.mpr ⟨hx, hf _⟩
  · exact hx

/-- A list asks for what its elements ask for. -/
theorem Asks.mapM {f : α → Traced β} (hf : ∀ a, (f a).Asks P) (xs : List α) :
    (xs.mapM f).Asks P := by
  induction xs with
  | nil => exact .pure []
  | cons x xs ih =>
    rw [List.mapM_cons]
    exact .bind (hf x) fun _ => .bind ih fun _ => .pure _

end Traced

namespace View

variable {w : View}

/-- Whether a request leads up to a deprecated type from the private version only. -/
def Effective (w : View) (r : Request) : Prop :=
  r.kind = .toPublic → w.isDeprecated r.subject = false

/-- What serves a kind and a type is effective. -/
theorem effective_request (kind : ConverterKind) (s : Subject) :
    w.Effective (w.request kind s) := by
  unfold Effective request effective
  dsimp only
  split
  · exact nofun
  · rename_i hkind
    rintro rfl
    simpa using hkind

/-- An action asks for effective converters. -/
theorem action_asks (kind : ConverterKind) (field other checked : FieldId) :
    (w.action kind field other checked).Asks w.Effective := by
  unfold action
  dsimp only
  split
  · exact .pure _
  · exact .pure _
  · exact .pure _
  · split
    · exact .pure _
    · split
      · exact .bind (.ask (effective_request _ _)) fun _ => .pure _
      · exact .fail _

/-! Whatever is asked for is asked for by an action. -/

section

variable {P : Request → Prop}
  (haction : ∀ kind field other checked, (w.action kind field other checked).Asks P)
include haction

/-- A field on the way down asks for what its actions ask for. -/
theorem downField_asks (h : Head) (f : Field) : (w.downField h f).Asks P := by
  unfold downField
  split
  · exact .pure _
  · refine .bind (.lift _) fun target => .bind (haction _ _ _ _) fun action => ?_
    cases action <;> exact .pure _

/-- A field on the way up asks for what its actions ask for. -/
theorem upField_asks (h : Head) (f : Field) : (w.upField h f).Asks P := by
  unfold upField
  refine .bind (.lift _) fun source => .bind (haction _ _ _ _) fun action => ?_
  cases action <;> exact .pure _

/-- A variant on the way down asks for what its actions ask for. -/
theorem downArm_asks (h : Head) (v : Field) : (w.downArm h v).Asks P := by
  unfold downArm
  dsimp only
  split
  · exact .pure _
  · refine .bind (haction _ _ _ _) fun action => ?_
    cases action <;> exact .pure _

/-- A variant on the way up asks for what its actions ask for. -/
theorem upArm_asks (h : Head) (fromPrivate : Bool) (v : Field) :
    (w.upArm h fromPrivate v).Asks P := by
  unfold upArm
  dsimp only
  split
  · exact .pure _
  · refine .bind (haction _ _ _ _) fun action => ?_
    cases action <;> exact .pure _

/-- A oneof on the way down asks for what the actions of its variants ask for. -/
theorem downOneof_asks (h : Head) (o : Oneof) : (w.downOneof h o).Asks P := by
  unfold downOneof
  dsimp only
  split
  · exact .pure _
  · exact .bind (.mapM (downArm_asks haction h) _) fun _ => .pure _

/-- A oneof on the way up asks for what the actions of its variants ask for. -/
theorem upOneof_asks (h : Head) (o : Oneof) : (w.upOneof h o).Asks P := by
  unfold upOneof
  exact .bind (.lift _) fun _ => .bind (.mapM (upArm_asks haction h _) _) fun _ => .pure _

/-- A message converter asks for what the actions of its fields ask for. -/
theorem messageConverter_asks (kind : ConverterKind) (id : MessageId) :
    (w.messageConverter kind id).Asks P := by
  unfold messageConverter
  dsimp only
  split
  · exact .fail _
  · refine .bind (.lift _) fun _ => .bind (.mapM (fun f => ?_) _) fun _ =>
      .bind (.mapM (fun o => ?_) _) fun _ => .pure _
    · split
      · exact downField_asks haction _ f
      · exact upField_asks haction _ f
    · split
      · exact downOneof_asks haction _ o
      · exact upOneof_asks haction _ o

/-- **What converters ask for is what actions ask for**, also if the converter fails. -/
theorem converter_asks_of_action (r : Request) : (w.converter r).Asks P := by
  unfold converter
  split
  · exact .bind (messageConverter_asks haction _ _) fun _ => .pure _
  · exact .bind (.lift _) fun _ => .pure _

end

/-- **Nothing else is asked for**, also by a converter that fails. -/
theorem converter_asks (r : Request) : (w.converter r).Asks w.Effective :=
  converter_asks_of_action action_asks r

/-- A call of a planner asks for effective converters. -/
theorem answer_asks (c : Planner.Call) : (w.answer c).Asks w.Effective := by
  cases c with
  | message kind id => exact List.forall_mem_singleton.mpr (effective_request _ _)
  | action kind field target => exact action_asks _ _ _ _

end View

/-! ### Agreement with the chain -/

/-- The type that a converter works against. -/
def Converter.counterpart : Converter → Subject
  | message x => .message x.counterpart
  | enumeration x => .enumeration x.counterpart

namespace View

variable {w : View}

/-- The links of a type. -/
def linkOf (w : View) : Subject → Link Subject
  | .message m => (w.chain.message m).link.map .message
  | .enumeration e => (w.chain.enumeration e).link.map .enumeration

/-- The field on the other side of an assignment: the one that a public field gets to, or the one
    that it is read from. -/
def opposite (w : View) (x : MessageConverter) (a : Assignment) : Option FieldId :=
  match a.side with
  | .ofPublic => downLink x.kind (w.chain.field a.field).link
  | .ofNext => (w.chain.field a.field).link.next
  | .ofPrivate => (w.chain.field a.field).link.final

/-- The nested conversion of an assignment, if there is one, is for the type of the field and works
    against the type of the field on the other side. -/
def Fits (w : View) (x : MessageConverter) (a : Assignment) : Prop :=
  ∀ ref, a.action = .convert ref → ∃ other s t, w.opposite x a = some other ∧
    (w.chain.field other).name = (if x.kind.isDown then a.target else a.source) ∧
    subjectOf (w.chain.field a.field).typeRef = some s ∧ ref = w.reference ⟨ref.kind, s⟩ ∧
    subjectOf (w.chain.field other).typeRef = some t ∧ w.counterpart ref.kind s = some t

/-- A converter that agrees with the chain. -/
structure Agrees (w : View) (x : Converter) : Prop where
  /-- No deprecated message is converted down. -/
  live : x.kind = .toNext ∨ x.kind = .toPrivate → ∀ m, x.subject = .message m →
    (w.chain.message m).deprecated = false
  /-- Nothing deprecated is converted up but from the private version. -/
  effective : x.kind = .toPublic → w.isDeprecated x.subject = false
  next : x.kind = .toNext ∨ x.kind = .toPublic ∧ w.isLatest = false →
    (w.linkOf x.subject).next = some x.counterpart
  final : ¬(x.kind = .toNext ∨ x.kind = .toPublic ∧ w.isLatest = false) →
    (w.linkOf x.subject).final = some x.counterpart
  down : ∀ y, x = .message y → y.kind = .toNext ∨ y.kind = .toPrivate → y.shape = .down
  upFromNext : ∀ y, x = .message y → y.kind = .toPublic ∧ w.isLatest = false →
    y.shape = .upFromNext
  upFromPrivate : ∀ y, x = .message y →
    y.kind = .toDeprecatedPublic ∨ y.kind = .toPublic ∧ w.isLatest = true →
      y.shape = .upFromPrivate
  nested : ∀ y, x = .message y → ∀ a ∈ y.assignments, w.Fits y a

/-- A message that is converted down is not deprecated. -/
theorem live_of_messageConverter {kind : ConverterKind} {id : MessageId} {x : MessageConverter}
    (hok : (w.messageConverter kind id).result = .ok x) (hdown : kind.isDown) :
    (w.chain.message id).deprecated = false := by
  unfold messageConverter at hok
  dsimp only at hok
  split at hok
  · cases hok
  · rename_i hlive
    simpa [hdown] using hlive

/-- The counterpart of a converter is the one on its side. -/
theorem side_of_converter {x : Converter} {table : Option ReceiveTable}
    (hok : (w.converter x.request).result = .ok (x, table)) :
    w.side x.kind (w.linkOf x.subject) = some x.counterpart := by
  have hmap : ∀ {Id : Type} (f : Id → Subject) (l : Link Id),
      w.side x.kind (l.map f) = (w.side x.kind l).map f := by
    intro Id f l
    unfold side
    split <;> rfl
  cases x with
  | message y =>
    have hspec := (converter_message hok).2
    rw [Converter.subject, linkOf, hmap]
    exact congrArg (Option.map _) hspec.counterpart
  | enumeration y =>
    obtain ⟨_, hy, hspec⟩ := converter_of_enumeration hok
    obtain rfl := Converter.enumeration.inj hy
    obtain ⟨-, -, -, hcounterpart⟩ := enumConverter_eq_ok hspec
    rw [Converter.subject, linkOf, hmap]
    exact congrArg (Option.map _) hcounterpart

/-- What is conveyed by a converter fits. -/
theorem fits_of_conveys {kind : ConverterKind} {x : MessageConverter} {a : Assignment}
    {other : FieldId} {asked : List Request} (hopposite : w.opposite x a = some other)
    (hname : (w.chain.field other).name = if x.kind.isDown then a.target else a.source)
    (hconveys : w.Conveys kind a.field other other a.action asked) : w.Fits x a := by
  intro ref href
  obtain ⟨hcopy, -⟩ | ⟨_, s, t, -, hnested⟩ := hconveys.cases
  · cases hcopy.symm.trans href
  · obtain rfl := Action.convert.inj (hnested.eq.symm.trans href)
    exact ⟨other, s, t, hopposite, hname, hnested.type, rfl, hnested.other, hnested.counterpart⟩

/-- The assignments of a message converter fit the fields that they are for. -/
theorem fits (hwf : w.chain.WellFormed) {kind : ConverterKind} {id : MessageId}
    {x : MessageConverter} (hok : (w.messageConverter kind id).result = .ok x) {a : Assignment}
    (ha : a ∈ x.assignments) : w.Fits x a := by
  have hkind : x.kind = kind := (messageConverter_spec hok).kind
  obtain ⟨f, hf, hfield, hassigns⟩ := assignment_cases hok ha
  obtain ⟨i, hi, -, rfl⟩ := Chain.mem_plainFields.mp hf
  have hid : a.field = i := hfield.trans (hwf.field_id ((hwf.mem_fields id i).mp hi).1)
  obtain ⟨hdown, hassigns⟩ | ⟨hup, hassigns⟩ := hassigns
  · obtain ⟨t, ht, htarget, hconveys⟩ := hassigns.target
    rw [← hfield] at hconveys
    refine fits_of_conveys ?_ ?_ hconveys
    · rw [opposite, hassigns.side, hkind, hid]
      exact ht
    · rw [hkind, if_pos hdown, htarget]
  · obtain ⟨s, hs, hsource, hconveys⟩ := hassigns.source
    rw [← hfield] at hconveys
    refine fits_of_conveys ?_ ?_ hconveys
    · rw [opposite, hassigns.side, upSide, hid]
      rw [upLink] at hs
      split at hs <;> rename_i hprivate <;> simp only [hprivate] <;> exact hs
    · rw [hkind, hup, hsource]
      rfl

/-- **What is specified agrees with the chain**, if the request is an effective one. -/
theorem agrees_of_converter (hwf : w.chain.WellFormed) {r : Request} (hr : w.Effective r)
    {x : Converter} {table : Option ReceiveTable} (hok : (w.converter r).result = .ok (x, table)) :
    w.Agrees x := by
  obtain ⟨rfl, -⟩ := converter_spec hok
  have hside := side_of_converter hok
  have hdown : x.kind = .toNext ∨ x.kind = .toPrivate ↔ x.kind.isDown := by
    cases x.kind <;> simp [ConverterKind.isDown]
  have hfaces : w.facesNext x.kind = true ↔
      (x.kind = .toNext ∨ x.kind = .toPublic ∧ w.isLatest = false) := by
    simp [facesNext]
  have hmessage : ∀ y, x = .message y → (w.messageConverter y.kind y.message).result = .ok y := by
    rintro y rfl
    exact (messageConverter_of_converter hok).1
  constructor
  case live =>
    intro hkind m hm
    cases x with
    | message y =>
      obtain rfl := Subject.message.inj hm
      exact live_of_messageConverter (hmessage y rfl) (hdown.mp hkind)
    | enumeration y => cases hm
  case effective => exact hr
  case next =>
    intro hnext
    rwa [side, if_pos (hfaces.mpr hnext)] at hside
  case final =>
    intro hfinal
    rwa [side, if_neg fun hnext => hfinal (hfaces.mp hnext)] at hside
  case down =>
    rintro y rfl hkind
    rw [(messageConverter_spec (hmessage y rfl)).shape]
    exact (w.shape_eq_down y.kind).mpr (hdown.mp hkind)
  case upFromNext =>
    rintro y rfl ⟨hkind, hlatest⟩
    rw [(messageConverter_spec (hmessage y rfl)).shape, hkind, shape, facesNext, hlatest]
    rfl
  case upFromPrivate =>
    rintro y rfl hkind
    rw [(messageConverter_spec (hmessage y rfl)).shape]
    obtain hkind | ⟨hkind, hlatest⟩ := hkind
    · rw [hkind]
      rfl
    · rw [hkind, shape, facesNext, hlatest]
      rfl
  case nested =>
    rintro y rfl a ha
    exact fits hwf (hmessage y rfl) ha

end View

/-! ### All moments of a session -/

namespace Planner

/-- The states that a planner goes through in sessions: between two calls, and within a call between
    the converters that are specified for it. -/
inductive Moment (w : View) : Planner → Prop
  | between (calls : List Call) : Moment w ((start w).run calls).1
  | within (calls : List Call) (c : Call) (n : Nat) :
      Moment w (drainWithin n (((start w).run calls).1.asked c)).1

/-- A planner whose requests are effective, and whose converters answer such requests. -/
structure Sound (w : View) (p : Planner) : Prop where
  view : p.view = w
  pending : ∀ r ∈ p.pending, w.Effective r
  converters : ∀ e ∈ p.converters, ∃ r table, w.Effective r ∧
    (w.converter r).result = .ok (e.2, table)

namespace Sound

variable {w : View} {p : Planner}

/-- A planner that starts is sound. -/
theorem start (w : View) : (start w).Sound w :=
  ⟨rfl, by simp [Planner.start], by simp [Planner.start]⟩

/-- An effective request keeps a planner sound. -/
theorem enqueue (h : p.Sound w) {r : Request} (hr : w.Effective r) : (p.enqueue r).Sound w := by
  unfold Planner.enqueue
  dsimp only
  split
  · exact h
  · exact ⟨h.view, List.forall_mem_cons.mpr ⟨hr, h.pending⟩, h.converters⟩

/-- Effective requests keep a planner sound. -/
theorem enqueueAll (h : p.Sound w) {rs : List Request} (hr : ∀ r ∈ rs, w.Effective r) :
    (rs.foldl Planner.enqueue p).Sound w := by
  induction rs generalizing p with
  | nil => exact h
  | cons r rs ih =>
    obtain ⟨hr, hrs⟩ := List.forall_mem_cons.mp hr
    exact ih (h.enqueue hr) hrs

end Sound

/-- **A planner stays sound**, also when a converter fails. -/
theorem kept_sound (w : View) : Kept w w.Effective (Sound w) (Sound w) where
  view := (·.view)
  enqueue hr h := h.enqueue hr
  specify := by
    intro p r rest hpending h
    obtain ⟨hr, hrest⟩ := List.forall_mem_cons.mp (hpending ▸ h.pending)
    have htaken : { p with pending := rest }.Sound w := ⟨h.view, hrest, h.converters⟩
    obtain rfl := h.view
    have hasked := htaken.enqueueAll (View.converter_asks r)
    unfold specify
    dsimp only
    split
    · rename_i x hok
      refine ⟨hasked.view, hasked.pending, fun e he => ?_⟩
      obtain rfl | he := Sorted.mem_insert he
      · exact ⟨r, x.2, hr, hok⟩
      · exact hasked.converters e he
    · exact hasked
  weaken h := h

namespace Sound

variable {w : View} {p : Planner}

/-- What is sound whether or not it fails is sound. -/
theorem of_within {α : Type} {o : Outcome α} (h : o.Within (Sound w) (Sound w)) : o.1.Sound w := by
  unfold Outcome.Within at h
  split at h <;> exact h

/-- A call leaves a sound planner sound. -/
theorem call (h : p.Sound w) (c : Call) : (p.call c).1.Sound w := by
  cases c with
  | message kind id =>
    have hkept : (p.requestMessage kind id).1.Sound w :=
      of_within ((kept_sound w).requestMessage (View.effective_request _ _) h)
    exact hkept
  | action kind field target =>
    have hkept : (p.downAction kind field target).1.Sound w :=
      of_within ((kept_sound w).downAction (View.action_asks _ _ _ _) h)
    exact hkept

/-- A session leaves a sound planner sound. -/
theorem run (h : p.Sound w) (calls : List Call) : (p.run calls).1.Sound w := by
  induction calls generalizing p with
  | nil => exact h
  | cons c calls ih => exact ih (h.call c)

/-- At any moment of a session a planner is sound. -/
theorem moment (h : Moment w p) : p.Sound w := by
  cases h with
  | between calls => exact (Sound.start w).run calls
  | within calls c n =>
    have hbefore := (Sound.start w).run calls
    have hasks : ∀ r ∈ (((Planner.start w).run calls).1.view.answer c).requests, w.Effective r := by
      rw [hbefore.view]
      exact View.answer_asks c
    exact of_within ((kept_sound w).drainWithin n (hbefore.enqueueAll hasks))

end Sound

/-- **Converters agree with the chain at any moment** of any session with a planner of a chain,
    failures included. -/
theorem agrees_of_moment {source : AnnotationSource} {privatePackage : String}
    {packages : List PackageSchema} {c : Chain}
    (h : Chain.ofPackages source privatePackage packages = .ok c) (v : VersionId) {p : Planner}
    (hp : Moment ⟨c, v⟩ p) : ∀ e ∈ p.converters, (⟨c, v⟩ : View).Agrees e.2 := by
  intro e he
  obtain ⟨r, table, hr, hok⟩ := (Sound.moment hp).converters e he
  exact View.agrees_of_converter (Chain.linked_of_ofPackages h).framed.wellFormed hr hok

/-- Two calls that fail. -/
def fallenCalls : List Call := [.message .toNext ⟨1⟩, .message .toPrivate ⟨0⟩]

/-- A planner that has failed twice, three converters into its next call. -/
def fallenMoment : Planner :=
  (drainWithin 3 (((start (treeView fallen)).run fallenCalls).1.asked (.message .toPublic ⟨1⟩))).1

set_option maxRecDepth 10000 in
/-- What is checked of the sample by evaluation. -/
theorem fallenMoment_checked :
    (Chain.ofPackages AnnotationStyle.comments.source "private" (treePackages fallen)).toOption
        = some (treeView fallen).chain ∧
      ((start (treeView fallen)).run fallenCalls).2.all (!·.toBool) = true ∧
      fallenMoment.converters.map (·.1)
        = ["ToDeprecatedPublicLeaf", "ToPublicNode", "ToPublicNodes"] := by decide +kernel

/-- Nodes with leaves that are deprecated. -/
theorem agrees_tree :
    Chain.ofPackages AnnotationStyle.comments.source "private" (treePackages fallen)
        = .ok (treeView fallen).chain ∧
      ((start (treeView fallen)).run fallenCalls).2.all (!·.toBool) = true ∧
      fallenMoment.converters.map (·.1)
        = ["ToDeprecatedPublicLeaf", "ToPublicNode", "ToPublicNodes"] ∧
      ∀ e ∈ fallenMoment.converters, (treeView fallen).Agrees e.2 := by
  obtain ⟨hchain, hfail, hnames⟩ := fallenMoment_checked
  exact ⟨toOption_eq_some.mp hchain, hfail, hnames,
    agrees_of_moment (toOption_eq_some.mp hchain) _ (.within fallenCalls _ 3)⟩

end Planner

end Lineage
