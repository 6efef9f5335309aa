import Lineage.Proofs.Annotation.Written

namespace Lineage.Annotation.Options

open Text

/-!
# Reading annotations in options

* `Reads` — what is written one way is read back: texts, flags, bounds, lists, objects,
* `entry_of_entered` — an entry, or what it says by being left out,
* `payload_of_inOptions` — a payload,
* `answeredBy_of_inOptions` — facts that are written in options are read back.
-/

variable {α β : Type}

/-- Whatever is written for something is read, and stands for it.  It is not `null`, which would
    leave it out. -/
def Reads (writes : α → Json → Prop) (read : Json → Option β) (view : β → α) : Prop :=
  ∀ a j, writes a j → j ≠ .null ∧ ∃ b, read j = some b ∧ view b = a

/-! ### Values -/

/-- Texts are read back. -/
theorem reads_text : Reads WritesText text? id := by
  rintro s j rfl
  exact ⟨nofun, s, rfl, rfl⟩

/-- Truth values are read back. -/
theorem reads_flag : Reads WritesFlag flag? id := by
  rintro b j rfl
  exact ⟨nofun, b, rfl, rfl⟩

/-- A number or truth value is read as the text that denotes it. -/
theorem reads_literal : Reads Spells some literal := by
  intro s j h
  cases h with
  | text => exact ⟨nofun, _, rfl, rfl⟩
  | yes | no => exact ⟨nofun, _, rfl, by simp [literal, Json.print]⟩
  | integer n => exact ⟨nofun, _, rfl, by simp [literal, Json.print]⟩
  | float hfinite => exact ⟨nofun, _, rfl, by simp [literal, Json.print, Json.printFloat, hfinite]⟩

/-- Lists are read back if their items are. -/
theorem Reads.list {writes : α → Json → Prop} {read : Json → Option β} {view : β → α}
    (h : Reads writes read view) : Reads (WritesList writes) (list? read) (List.map view) := by
  rintro xs j ⟨items, rfl, hitems⟩
  refine ⟨nofun, ?_⟩
  show ∃ bs, items.mapM read = some bs ∧ bs.map view = xs
  induction hitems with
  | nil => exact ⟨[], rfl, rfl⟩
  | @cons x item xs items hitem _ ih =>
    obtain ⟨-, b, hb, rfl⟩ := h x item hitem
    obtain ⟨bs, hbs, rfl⟩ := ih
    exact ⟨b :: bs, by simp [List.mapM_cons, hb, hbs], rfl⟩

/-- A value that may be missing. -/
theorem Reads.option {writes : α → Json → Prop} {read : Json → Option β} {view : β → α}
    (h : Reads writes read view) {o : Option α} {j : Json} (hj : WritesOption writes o j) :
    ∃ b, optional? read j = some b ∧ b.map view = o := by
  cases o with
  | none =>
    obtain rfl : j = .null := hj
    exact ⟨none, rfl, rfl⟩
  | some a =>
    obtain ⟨hnull, b, hb, rfl⟩ := h a j hj
    refine ⟨some b, ?_, rfl⟩
    rw [optional?]
    · rw [hb]
      rfl
    · exact hnull

/-! ### Objects -/

/-- **An entry** is read, and one that is left out has the default. -/
theorem entry_of_entered {es : List (String × Json)} {name : String} {writes : α → Json → Prop}
    {read : Json → Option β} {view : β → α} {default : β} {missing value : α}
    (hdefault : view default = missing) (h : Entered es name writes missing value)
    (hread : ∀ j, writes value j → ∃ b, read j = some b ∧ view b = value) :
    ∃ b, entry es name read default = some b ∧ view b = value := by
  unfold Entered at h
  unfold entry
  cases hlookup : es.lookup name with
  | none =>
    rw [hlookup] at h
    exact ⟨default, rfl, hdefault.trans h.symm⟩
  | some j =>
    rw [hlookup] at h
    exact hread j h

/-- An entry that is there. -/
theorem Reads.entry {es : List (String × Json)} {name : String} {writes : α → Json → Prop}
    {read : Json → Option β} {view : β → α} {missing value : α} (hr : Reads writes read view)
    (default : β) (hdefault : view default = missing)
    (h : Entered es name writes missing value) :
    ∃ b, entry es name read default = some b ∧ view b = value :=
  entry_of_entered hdefault h fun j hj => (hr value j hj).2

/-- An entry that may be missing. -/
theorem Reads.optionalEntry {es : List (String × Json)} {name : String} {writes : α → Json → Prop}
    {read : Json → Option β} {view : β → α} {value : Option α} (hr : Reads writes read view)
    (h : Entered es name (WritesOption writes) none value) :
    ∃ b, Options.entry es name (optional? read) none = some b ∧ b.map view = value :=
  entry_of_entered rfl h fun _ hj => hr.option hj

/-- An object is read off its entries. -/
theorem reads_object {names : List String} {enters : α → List (String × Json) → Prop}
    {read : List (String × Json) → Option β} {view : β → α}
    (h : ∀ a es, enters a es → ∃ b, read es = some b ∧ view b = a) :
    Reads (fun a => WritesObject names (enters a)) (fun j => entries? names j >>= read) view := by
  rintro a j ⟨es, rfl, hnames, henters⟩
  have hall : (es.all fun e => names.contains e.1) = true := by
    simpa [List.all_eq_true] using hnames
  have hentries : entries? names (.object es) = some es := by
    rw [entries?, if_pos hall]
  refine ⟨nofun, ?_⟩
  obtain ⟨b, hb, hview⟩ := h a es henters
  refine ⟨b, ?_, hview⟩
  show (entries? names (.object es) >>= read) = some b
  rw [hentries]
  exact hb

/-- Delegates are read back. -/
theorem reads_delegate : Reads WritesDelegate delegate? id :=
  reads_object fun _ _ h => reads_text.entry "" rfl h

/-- Constraints are read back. -/
theorem reads_constraints : Reads WritesConstraints constraints? Constraints.directives := by
  refine reads_object fun d es h => ?_
  obtain ⟨required, hrequired, hflag⟩ := reads_flag.entry false rfl h.required
  obtain ⟨min, hmin, htextMin⟩ := reads_literal.optionalEntry h.min
  obtain ⟨max, hmax, htextMax⟩ := reads_literal.optionalEntry h.max
  obtain ⟨members, hmembers, htexts⟩ := reads_literal.list.optionalEntry h.members
  obtain ⟨format, hformat, htext⟩ := reads_text.optionalEntry h.format
  refine ⟨{ required, min, max, members, format }, ?_, ?_⟩
  · simp [hrequired, hmin, hmax, hmembers, hformat]
  · simp only [Option.map_id, id_eq] at hflag htext
    show (⟨required, min.map literal, max.map literal, members.map (·.map literal), format⟩ :
      ValidateDirectives) = d
    rw [hflag, htextMin, htextMax, htexts, htext]

/-- Demands are read back. -/
theorem reads_demands : Reads WritesDemands demands? id := by
  refine reads_object fun d es h => ?_
  obtain ⟨required, hrequired, hflag⟩ := reads_flag.entry false rfl h.required
  obtain ⟨names, hnames, htexts⟩ := reads_text.list.entry [] rfl h.names
  refine ⟨{ required, names }, ?_, ?_⟩
  · simp [hrequired, hnames]
  · simp only [List.map_id, id_eq] at hflag htexts
    show (⟨required, names⟩ : ReceiveDirectives) = d
    rw [hflag, htexts]

/-! ### Facts -/

variable {f : Facts} {kind : EntityKind} {carrier : Carrier}

/-- What a payload stands for. -/
def Payload.facts (p : Payload) : Facts :=
  { delegate := p.delegate, deprecated := p.deprecated
    validate := (p.validate.map (·.directives)).getD {}, receive := p.receive.getD {} }

/-- Whole payloads are read back. -/
theorem reads_payload : Reads
    (fun f => WritesObject ["delegate", "deprecated", "validate", "receive"] (EntersFacts f))
    payload? Payload.facts := by
  refine reads_object fun f es h => ?_
  obtain ⟨constraints, hconstraints, hvalidate⟩ := h.validate
  obtain ⟨demands, hdemands, hreceive⟩ := h.receive
  obtain ⟨delegate, hdelegate, hname⟩ := reads_delegate.optionalEntry h.delegate
  obtain ⟨deprecated, hdeprecated, hflag⟩ := reads_flag.entry false rfl h.deprecated
  obtain ⟨validate, hreadValidate, rfl⟩ := reads_constraints.optionalEntry hvalidate
  obtain ⟨receive, hreadReceive, rfl⟩ := reads_demands.optionalEntry hreceive
  refine ⟨{ delegate, deprecated, validate, receive }, ?_, ?_⟩
  · simp [hdelegate, hdeprecated, hreadValidate, hreadReceive]
  · simp only [Option.map_id, id_eq] at hname hflag hdemands
    show (⟨delegate, deprecated, (validate.map (·.directives)).getD {}, receive.getD {}⟩ : Facts)
      = f
    rw [hname, hflag, hconstraints, hdemands]

/-- **A payload** in which facts are written stands for them. -/
theorem payload_of_inOptions (h : f.InOptions kind carrier) :
    ∃ p, payload kind carrier = .ok p ∧ p.facts = f := by
  unfold Facts.InOptions at h
  cases hoption : Sorted.get? carrier.options (extensionKey kind) with
  | none =>
    rw [hoption] at h
    refine ⟨{}, ?_, h.symm⟩
    rw [payload, hoption]
  | some j =>
    rw [hoption] at h
    obtain ⟨-, p, hp, hfacts⟩ := reads_payload f j h
    refine ⟨p, ?_, hfacts⟩
    simp only [payload, hoption, hp]

/-- **Facts that are written in options** are read back. -/
theorem answeredBy_of_inOptions (hf : f.Writable) (h : f.InOptions kind carrier) :
    f.AnsweredBy AnnotationStyle.options.source kind carrier := by
  obtain ⟨p, hp, rfl⟩ := payload_of_inOptions h
  have hanswer : ∀ {γ : Type} (answer : Payload → γ),
      (payload kind carrier).map answer = .ok (answer p) := by
    intro γ answer
    rw [hp]
    rfl
  have hdelegate : p.delegate.filter (!·.isEmpty) = p.delegate := by
    cases hd : p.delegate with
    | none => rfl
    | some d =>
      have hword := (hf.delegate d hd).1
      have hne : d.isEmpty = false := by simpa using hword
      simp [Option.filter, hne]
  exact {
    delegate := (hanswer _).trans (congrArg Except.ok hdelegate)
    deprecated := hanswer _
    validate := hanswer _
    receive := hanswer _ }

end Lineage.Annotation.Options
