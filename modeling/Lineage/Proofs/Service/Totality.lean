import Lineage.Proofs.Chain.Integrity
import Lineage.Proofs.Service.Destinations
import Lineage.Proofs.Service.Restore

namespace Lineage.Service

/-!
# Conversions down that succeed

If the converters that a version plan names are those of the types of fields, whatever record of a
message is converted down becomes one of its counterpart.

* `Becomes`, `WrittenFrom`, `LedTo` — what a converter makes of a record, what it writes into it,
  and what an action makes of a value: all the way down, something under every destination of what
  is set, and nothing under other names,
* `Serving` — a version and a plan that provides what it asks for,
* `ConvertsBelow` — records that nest less deep than some depth are converted, `Serving.exists_led`
  — then so are the values of fields that may hold such records,
* `Serving.exists_assigned`, `Serving.exists_mapped` — so what an assignment or a mapping writes can
  be made,
* `Serving.convertsBelow` — records of any depth are converted, by induction on the room that they
  need,
* `exists_convertDown` — so it is with the converters of a generated plan.
-/

/-! ### What converters make -/

mutual

/-- A converter makes one record of another: one of the counterpart, in which everything is written
    from the other record, and in which there is something wherever the converter finds something to
    write. -/
inductive Becomes (c : Chain) (vp : VersionPlan) : MessageConverter → Record → Record → Prop
  | intro {x : MessageConverter} {r out : Record}
    (hmessage : out.message = (c.message x.counterpart).fullName)
    (hwritten : ∀ e ∈ out.fields, WrittenFrom c vp x r e.1 e.2)
    (hassigned : ∀ a ∈ x.assignments, (r.get? a.source).isSome → (out.get? a.target).isSome)
    (hmapped : ∀ g ∈ x.oneofs, ∀ a ∈ g.arms, ∀ v, r.get? g.source = some (.oneof a.source v) →
      (out.get? g.target).isSome) : Becomes c vp x r out

/-- A value is written under a name from a field of a record, by an assignment of a converter, or
    from the variant that is set, by an arm of one of its mappings. -/
inductive WrittenFrom (c : Chain) (vp : VersionPlan) :
    MessageConverter → Record → String → Value → Prop
  | assigned {x : MessageConverter} {r : Record} {a : Assignment} {v u : Value}
    (ha : a ∈ x.assignments) (hv : r.get? a.source = some v) (hu : LedTo c vp a.action v u) :
    WrittenFrom c vp x r a.target u
  | mapped {x : MessageConverter} {r : Record} {g : OneofMapping} {a : VariantArm} {v u : Value}
    (hg : g ∈ x.oneofs) (ha : a ∈ g.arms) (hv : r.get? g.source = some (.oneof a.source v))
    (hu : LedTo c vp a.action v u) : WrittenFrom c vp x r g.target (.oneof a.target u)

/-- An action leads from one value to another: to the same one if it is copied, and otherwise to
    what the converter makes that is found for it, item by item. -/
inductive LedTo (c : Chain) (vp : VersionPlan) : Action → Value → Value → Prop
  | copied (v : Value) : LedTo c vp .copy v v
  | items {reference : ConverterRef} {vs us : List Value} (hlength : us.length = vs.length)
    (hitems : ∀ (i : Nat) (v u : Value), vs[i]? = some v → us[i]? = some u →
      LedTo c vp (.convert reference) v u) :
    LedTo c vp (.convert reference) (.list vs) (.list us)
  | record {reference : ConverterRef} {y : MessageConverter} {r out : Record}
    (hy : vp.converter? reference.function = some (.message y)) (hout : Becomes c vp y r out) :
    LedTo c vp (.convert reference) r.toValue out.toValue
  | enumeration {reference : ConverterRef} {y : EnumConverter} {name target : String}
    (hy : vp.converter? reference.function = some (.enumeration y))
    (htarget : caseOf? y name = some target ∨
      caseOf? y name = none ∧ y.fallback = some target) :
    LedTo c vp (.convert reference) (.enumeration name) (.enumeration target)

end

variable {c : Chain} {vp : VersionPlan}

/-- What a record becomes is a record of the counterpart. -/
theorem Becomes.message_eq {x : MessageConverter} {r out : Record} (h : Becomes c vp x r out) :
    out.message = (c.message x.counterpart).fullName := by
  obtain ⟨hmessage, -⟩ := h
  exact hmessage

/-- A converter writes to its destinations and nowhere else. -/
theorem Becomes.mem_destinations {x : MessageConverter} {r out : Record} (h : Becomes c vp x r out)
    {e : String × Value} (he : e ∈ out.fields) : e.1 ∈ x.destinations := by
  obtain ⟨-, hwritten, -, -⟩ := h
  obtain ⟨name, u⟩ := e
  cases hwritten _ he with
  | assigned ha => exact List.mem_append_left _ (List.mem_map_of_mem ha)
  | mapped hg => exact List.mem_append_right _ (List.mem_map_of_mem hg)

/-! ### Values that are converted down -/

/-- A version and a plan that provides what it asks for: members of a message have different names,
    and no enum is empty. -/
structure Serving (w : View) (vp : VersionPlan) (Root : Request → Prop) (count : Nat) : Prop where
  linked : w.chain.Linked count
  uniqueMembers : w.chain.UniqueMembers
  values_ne_nil : ∀ e ∈ w.chain.enums, e.values ≠ []
  provides : vp.Provides w Root

/-- Records that nest less deep than so are converted down by the converter of their message. -/
def ConvertsBelow (w : View) (vp : VersionPlan) (Root : Request → Prop) (room : Nat) : Prop :=
  ∀ {kind : ConverterKind} {m : MessageId} {x : MessageConverter} {r : Record}, kind.isDown →
    w.Asked Root ⟨kind, .message m⟩ → (w.messageConverter kind m).result = .ok x →
    w.chain.LooselyTyped m r → r.depth < room →
    ∃ out, runDown (convertWithin vp room) x r = .ok out ∧ Becomes w.chain vp x r out

/-- A value that is converted is a record of a message, or a value of an enum under some name. -/
theorem fitsOneLoosely_of_nested {w : View} {kind : ConverterKind} {f s : FieldId} {q t : Subject}
    {a : Action} {asked : List Request} {v : Value}
    (hloosely : w.chain.fitsOneLoosely (w.chain.field f) v = true) {k : ConvertKind} {g : Field}
    (hclass : classifyPair (w.chain.field f) g = .convert k) (hn : w.Nested kind f s q t a asked) :
    (∃ n name fields, (w.chain.field f).kind = .message ∧
      (w.chain.field f).typeRef = some (.message n) ∧ v = .message name fields) ∨
    ∃ e name, (w.chain.field f).typeRef = some (.enumeration e) ∧ v = .enumeration name := by
  obtain hfits | hfits := Bool.or_eq_true_iff.mp hloosely
  · obtain hmessage | ⟨e, name, _, -, htype, hv, -⟩ := fitsOne_of_nested hfits hclass hn
    · exact .inl hmessage
    · exact .inr ⟨e, name, htype, hv⟩
  · split at hfits
    · rename_i e name _ htype
      exact .inr ⟨e, name, htype, rfl⟩
    · cases hfits

namespace Serving

variable {w : View} {Root : Request → Prop} {count room : Nat} {kind : ConverterKind}
  {f s : FieldId} {a : Action} {asked : List Request}
  (ha : Serving w vp Root count) (hdown : kind.isDown) (hconveys : w.Conveys kind f s s a asked)
  (hasked : ∀ q ∈ asked, w.Asked Root q)
include ha hdown hconveys hasked

/-- A value of an enum becomes one of the counterpart, whatever it is called. -/
theorem exists_led_enumeration {e : EnumId}
    (htype : (w.chain.field f).typeRef = some (.enumeration e)) {k : ConvertKind}
    (hclass : classifyPair (w.chain.field f) (w.chain.field s) = .convert k) (name : String) :
    ∃ u, convertWithin vp (room + 1) a (.enumeration name) none = .ok u ∧
      LedTo w.chain vp a (.enumeration name) u := by
  obtain ⟨y, _, reference, rfl, hy, hok⟩ :=
    exists_nested_enumeration ha.provides hasked hconveys htype hclass
  rw [View.request_of_isDown hdown] at hok
  -- the counterpart is an enum of the chain, and so there is a value to fall back to
  have hvalues : (w.chain.enumeration y.counterpart).values ≠ [] := by
    obtain ⟨-, -, -, hside⟩ := View.enumConverter_eq_ok hok
    have hleads := Chain.leads_links_enumeration (View.leads_of_side hside)
    have hhas : y.counterpart.index < w.chain.enums.size :=
      ha.linked.has_counterpart (Chain.has_of_leads hleads) hleads
    exact ha.values_ne_nil _ (Array.mem_of_getElem? (getElem?_eq_some_getD hhas default))
  obtain ⟨target, htarget, hnamed⟩ := exists_convertName hok hdown hvalues name
  exact ⟨.enumeration target, convertWithin_enumeration hy htarget, .enumeration hy hnamed⟩

/-- A nested record becomes one of the counterpart, if all records that nest as deep do. -/
theorem exists_led_message (hbelow : ConvertsBelow w vp Root room) {n : MessageId}
    (hfield : (w.chain.field f).kind = .message)
    (htype : (w.chain.field f).typeRef = some (.message n)) {r : Record}
    (htyped : w.chain.LooselyTyped n r) (hdepth : r.depth < room) :
    ∃ u, convertWithin vp (room + 1) a r.toValue none = .ok u ∧ LedTo w.chain vp a r.toValue u := by
  obtain ⟨-, -, -, y, reference, rfl, hy, hnested, hok⟩ :=
    exists_nested ha.provides hasked hconveys hfield htype
  rw [View.request_of_isDown hdown] at hnested hok
  have hshape : y.shape = .down :=
    (View.messageConverter_spec hok).shape.trans ((w.shape_eq_down kind).mpr hdown)
  obtain ⟨p, hp, hbecomes⟩ := hbelow hdown hnested hok htyped hdepth
  exact ⟨p.toValue, convertWithin_record hy hshape hp, .record hy hbecomes⟩

variable (hbelow : ∀ j < room, ConvertsBelow w vp Root j)
include hbelow

/-- A single value that is converted becomes one that the converter makes. -/
theorem exists_led_one {k : ConvertKind} {q t : Subject}
    (hclass : classifyPair (w.chain.field f) (w.chain.field s) = .convert k)
    (hn : w.Nested kind f s q t a asked) {v : Value}
    (hfits : w.chain.fitsOneLoosely (w.chain.field f) v = true)
    (htyped : ∀ x ∈ Chain.recordsOf (w.chain.field f) v, w.chain.LooselyTyped x.1 x.2)
    (hdepth : v.depth < room) :
    ∃ u, convertWithin vp room a v none = .ok u ∧ LedTo w.chain vp a v u := by
  -- a nested conversion takes room for one level
  obtain ⟨room, rfl⟩ : ∃ j, room = j + 1 := ⟨room - 1, by omega⟩
  obtain ⟨n, name, fields, hfield, htype, rfl⟩ | ⟨e, name, htype, rfl⟩ :=
    fitsOneLoosely_of_nested hfits hclass hn
  · have hrecords : Chain.recordsOf (w.chain.field f) (.message name fields)
        = [(n, ⟨name, fields⟩)] := Chain.recordsOf_message hfield htype _
    have hown : w.chain.LooselyTyped n ⟨name, fields⟩ := htyped (n, _) (by simp [hrecords])
    exact ha.exists_led_message hdown hconveys hasked (hbelow room (Nat.lt_succ_self _))
      hfield htype
      hown (Nat.lt_of_succ_lt_succ hdepth)
  · exact ha.exists_led_enumeration hdown hconveys hasked htype hclass name

/-- **Values of a field** are converted down, if the records in them are. -/
theorem exists_led {v : Value}
    (hfits : Chain.fitsBy w.chain.fitsOneLoosely (w.chain.field f) v = true)
    (htyped : ∀ x ∈ Chain.recordsOf (w.chain.field f) v, w.chain.LooselyTyped x.1 x.2)
    (hdepth : v.depth < room) :
    ∃ u, convertWithin vp room a v none = .ok u ∧ LedTo w.chain vp a v u := by
  obtain ⟨rfl, -⟩ | ⟨k, q, t, hclass, hn⟩ := hconveys.cases
  · exact ⟨v, convertWithin_copy _ _ _ _, .copied v⟩
  · unfold Chain.fitsBy at hfits
    split at hfits
    · rename_i items _
      obtain ⟨room, rfl⟩ : ∃ j, room = j + 1 := ⟨room - 1, by omega⟩
      have hitems := List.all_eq_true.mp hfits
      have hrecords : Chain.recordsOf (w.chain.field f) (.list items)
          = items.flatMap (Chain.recordsOf (w.chain.field f)) :=
        Chain.recordsOf_list fun v hv => Chain.elements_of_fitsOneLoosely (hitems v hv)
      rw [hrecords] at htyped
      -- a list nests deeper than its items
      have hall : ∀ v ∈ items, ∃ u,
          convertWithin vp room a v none = .ok u ∧ LedTo w.chain vp a v u := by
        intro v hv
        have hlt : v.depth < room :=
          lt_of_le_of_lt (Value.depth_le_of_mem hv) (Nat.lt_of_succ_lt_succ hdepth)
        exact ha.exists_led_one hdown hconveys hasked (fun j hj => hbelow j (Nat.lt_succ_of_lt hj))
          hclass hn (hitems v hv) (fun x hx => htyped x (List.mem_flatMap.mpr ⟨v, hv, hx⟩)) hlt
      obtain ⟨us, hus⟩ := exists_forall₂ hall
      obtain ⟨reference, rfl⟩ : ∃ reference, a = .convert reference := ⟨_, hn.eq⟩
      refine ⟨.list us, ?_, .items hus.length_eq.symm fun i v u hv hu => ?_⟩
      · rw [convertWithin_list]
        exact map_eq_ok.mpr ⟨us, convertItems_of_forall₂ (hus.imp fun _ _ hv => hv.1), rfl⟩
      · obtain ⟨hi, rfl⟩ := List.getElem?_eq_some_iff.mp hv
        obtain ⟨hi', rfl⟩ := List.getElem?_eq_some_iff.mp hu
        exact (hus.get hi hi').2
    · cases hfits
    · exact ha.exists_led_one hdown hconveys hasked hbelow hclass hn hfits htyped hdepth

end Serving

/-! ### Records that are converted down -/

namespace Serving

variable {w : View} {Root : Request → Prop} {count room : Nat} {kind : ConverterKind}
  {m : MessageId} {x : MessageConverter} {r : Record}
  (ha : Serving w vp Root count) (hdown : kind.isDown) (hasked : w.Asked Root ⟨kind, .message m⟩)
  (hok : (w.messageConverter kind m).result = .ok x)
  (hbelow : ∀ j < room, ConvertsBelow w vp Root j) (htyped : w.chain.LooselyTyped m r)
  (hdepth : r.depth < room)
include ha hdown hasked hbelow htyped hdepth

/-- What an entry sets a field to is converted down. -/
theorem exists_led_entry {f s : FieldId} {name : String} {entry v : Value}
    (hget : r.get? name = some entry) (hentry : w.chain.entry m name entry = some (f, v))
    (hfits : Chain.fitsBy w.chain.fitsOneLoosely (w.chain.field f) v = true) {a : Action}
    (hconveys : w.Conveys kind f s s a (w.messageConverter kind m).requests) :
    ∃ u, convertWithin vp room a v none = .ok u ∧ LedTo w.chain vp a v u := by
  obtain ⟨_, -, -, hrequests⟩ := ha.provides.message hasked
  have hrecords := Chain.recordsAt_eq hentry
  have hchildren := (Chain.everywhere_iff.mp htyped).2
  have hlt : v.depth < room :=
    lt_of_le_of_lt ((depth_le_of_entry hentry).trans (Record.depth_le_of_get? hget)) hdepth
  exact ha.exists_led hdown hconveys hrequests hbelow hfits
    (fun x hx => hchildren x (Chain.mem_children hget (hrecords ▸ hx))) hlt

include hok

/-- **What an assignment writes** can be made. -/
theorem exists_assigned {a : Assignment} (hmem : a ∈ x.assignments) :
    ∃ y, assignedDown (convertWithin vp room) r a = .ok y ∧
      ∀ e, y = some e → WrittenFrom w.chain vp x r e.1 e.2 := by
  have hwf := ha.linked.framed.wellFormed
  obtain ⟨_, hfield, hassigns⟩ := (View.messageConverter_down hok hdown).assigned a hmem
  obtain ⟨f, hf, -, rfl⟩ := Chain.mem_plainFields.mp hfield
  unfold assignedDown
  cases hsource : r.get? a.source with
  | none => exact ⟨none, rfl, nofun⟩
  | some v =>
    have hget := hsource
    rw [hassigns.source] at hget
    obtain ⟨hentry, hfits⟩ :=
      (Chain.everywhere_iff.mp htyped).1.get?_field ha.uniqueMembers hf hget
    obtain ⟨t, -, -, hconveys⟩ := hassigns.target
    rw [hwf.field_id ((hwf.mem_fields m f).mp hf).1] at hconveys
    obtain ⟨u, hu, hled⟩ :=
      ha.exists_led_entry hdown hasked hbelow htyped hdepth hget hentry hfits hconveys
    refine ⟨some (a.target, u), map_eq_ok.mpr ⟨u, hu, rfl⟩, ?_⟩
    rintro _ ⟨⟩
    exact .assigned hmem hsource hled

/-- **What a mapping writes** can be made. -/
theorem exists_mapped {g : OneofMapping} (hmem : g ∈ x.oneofs) :
    ∃ y, mappedDown (convertWithin vp room) r g = .ok y ∧
      ∀ e, y = some e → WrittenFrom w.chain vp x r e.1 e.2 := by
  have hwf := ha.linked.framed.wellFormed
  obtain ⟨_, honeof, hmaps⟩ := (View.messageConverter_down hok hdown).mapped g hmem
  obtain ⟨o, ho, rfl⟩ := List.mem_map.mp honeof
  unfold mappedDown
  cases hselect : selectArm g r with
  | none => exact ⟨none, rfl, nofun⟩
  | some selected =>
    obtain ⟨a, v⟩ := selected
    obtain ⟨harm, hset⟩ := selectArm_eq_some hselect
    have hget := hset
    rw [hmaps.source] at hget
    obtain ⟨f, hf, _, hvalue, hentry, hfits⟩ :=
      (Chain.everywhere_iff.mp htyped).1.get?_oneof ha.uniqueMembers ho hget
    obtain ⟨hsource, rfl⟩ := Value.oneof.inj hvalue
    -- the arm is that of the variant, since variants have different names
    have hfield := hwf.mem_fields_of_variant ho hf
    obtain ⟨_, hvariant, harms⟩ := hmaps.armed a harm
    obtain ⟨f', hf', rfl⟩ := List.mem_map.mp hvariant
    obtain rfl := ha.uniqueMembers.uniqueFields.eq (hwf.mem_fields_of_variant ho hf') hfield
      (harms.source.symm.trans hsource)
    obtain ⟨t, -, -, hconveys⟩ := harms.target
    rw [hwf.field_id ((hwf.mem_fields m f').mp hfield).1] at hconveys
    obtain ⟨u, hu, hled⟩ :=
      ha.exists_led_entry hdown hasked hbelow htyped hdepth hget hentry hfits hconveys
    refine ⟨some (g.target, .oneof a.target u), map_eq_ok.mpr ⟨u, hu, rfl⟩, ?_⟩
    rintro _ ⟨⟩
    exact .mapped hmem harm hset hled

/-- **One conversion down** succeeds, if those of records that nest less deep do. -/
theorem exists_becomes :
    ∃ out, runDown (convertWithin vp room) x r = .ok out ∧ Becomes w.chain vp x r out := by
  have hassigned := fun a hmem =>
    ha.exists_assigned hdown hasked hok hbelow htyped hdepth (a := a) hmem
  have hmapped := fun g hmem => ha.exists_mapped hdown hasked hok hbelow htyped hdepth (g := g) hmem
  obtain ⟨out, hrun⟩ := exists_runDown (fun a hmem => (hassigned a hmem).imp fun _ h => h.1)
    fun g hmem => (hmapped g hmem).imp fun _ h => h.1
  obtain ⟨_, _, hparts⟩ := View.messageConverter_parts hok
  obtain ⟨ws, heq, -, -, hws⟩ := runDown_eq_ok hrun
  refine ⟨out, hrun, .intro ?_ (fun e he => ?_) (fun a hmem => isSome_of_assigned hrun hmem)
    fun g hmem a harm v hset => isSome_of_mapped hrun hmem harm hset⟩
  · rw [heq, Record.write_message]
    exact hparts.counterpartName
  · -- what the record holds has been written into it
    subst heq
    have hget := (Sorted.get?_eq_some_iff (Record.sorted_write .nil ws)).mpr he
    obtain ⟨a, hmem, hwrite⟩ | ⟨g, hmem, hwrite⟩ := (hws _).mp (Record.mem_of_get?_write hget)
    · obtain ⟨_, hy, hwritten⟩ := hassigned a hmem
      exact hwritten e (Except.ok.inj (hy.symm.trans hwrite))
    · obtain ⟨_, hy, hwritten⟩ := hmapped g hmem
      exact hwritten e (Except.ok.inj (hy.symm.trans hwrite))

end Serving

/-- **At any depth**, records are converted down. -/
theorem Serving.convertsBelow {w : View} {Root : Request → Prop} {count : Nat}
    (ha : Serving w vp Root count) (room : Nat) : ConvertsBelow w vp Root room := by
  -- by strong induction: a nested record needs less room than the record that it is in
  induction room using Nat.strong_induction_on with
  | _ room ih =>
    intro kind m x r hdown hasked hok htyped hdepth
    exact ha.exists_becomes hdown hasked hok ih htyped hdepth

/-- **Conversion down is total.** In a generated plan, with the names of fields and oneofs unique in
    each message and values in every enum: if all converters that the converters of a version plan
    name are those of the types of fields, each of them that leads down converts every record of its
    message, with values of enums under any name.  What it makes is of the counterpart and holds
    something under the destinations of what is set and nothing under other names, and so does every
    record in it that a nested converter makes. -/
theorem exists_convertDown {set : DescriptorSet} {config : Config} {plan : Plan}
    (h : Plan.generate set config = .ok plan) (hmembers : plan.chain.UniqueMembers)
    (hvalues : ∀ e ∈ plan.chain.enums, e.values ≠ []) {vp : VersionPlan} (hvp : vp ∈ plan.versions)
    (hresolves : ∀ n y, (n, .message y) ∈ vp.converters → vp.ResolvesMessage plan.chain y)
    {function : String} {x : MessageConverter}
    (hx : vp.converter? function = some (.message x)) (hdown : x.kind.isDown) {r : Record}
    (hr : plan.chain.LooselyTyped x.message r) :
    ∃ out, convertDown vp function r = .ok out ∧
      out.message = (plan.chain.message x.counterpart).fullName ∧
      (∀ e ∈ out.fields, e.1 ∈ x.destinations) ∧ Becomes plan.chain vp x r out := by
  have hplan := Plan.generated_of_generate h
  obtain ⟨v, hnames, hprovides⟩ := hplan.provides_found hmembers.uniqueFields hvp hresolves
  have ha : Serving (plan.chain.viewOf v) vp vp.Finds plan.chain.versions.size :=
    ⟨hplan.linked, hmembers, hvalues, hprovides⟩
  have hasked : (plan.chain.viewOf v).Asked vp.Finds ⟨x.kind, .message x.message⟩ :=
    .root ⟨function, _, hx, rfl⟩
  -- the converter of the request is the one that is found under the name
  obtain ⟨y, hy, hok, -⟩ := hprovides.message hasked
  have hname : (plan.chain.viewOf v).nameOf ⟨x.kind, .message x.message⟩ = function :=
    hnames function _ hx
  rw [hname] at hy
  obtain rfl := Converter.message.inj (Option.some.inj (hx.symm.trans hy))
  obtain ⟨out, hrun, hbecomes⟩ :=
    ha.convertsBelow (r.depth + 1) hdown hasked hok hr (Nat.lt_succ_self _)
  refine ⟨out, ?_, hbecomes.message_eq, fun e he => hbecomes.mem_destinations he, hbecomes⟩
  rw [convertDown_eq hx hok hdown]
  exact hrun

/-- A node of the sample, of a kind that its enum has no name for, with a node in its list and a
    group as its body. -/
def grownNode : Record :=
  { message := "v1.Node"
    fields := [
      ("body", .oneof "group" (.message "v1.Group" [])),
      ("kind", .enumeration "UNKNOWN"),
      ("name", .str "root"),
      ("nodes", .list [.message "v1.Node" [("kind", .enumeration "OLD")]])] }

set_option maxRecDepth 10000 in
/-- The node is converted to the next version. -/
theorem exists_convertDown_tree : ∃ vp x out, Plan.treePlan.versions[0]? = some vp ∧
    vp.converter? "ToNextNode" = some (.message x) ∧
    Plan.treePlan.chain.LooselyTyped x.message grownNode ∧
    convertDown vp "ToNextNode" grownNode = .ok out ∧
    out.message = (Plan.treePlan.chain.message x.counterpart).fullName ∧
    (∀ e ∈ out.fields, e.1 ∈ x.destinations) ∧ Becomes Plan.treePlan.chain vp x grownNode out := by
  obtain ⟨hfound, hown, hchildren⟩ :
      (Plan.treePlan.versions[0]?).any (fun vp => (vp.converter? "ToNextNode").any fun y =>
        decide (y.request = ⟨.toNext, .message ⟨1⟩⟩)) = true ∧
      Plan.treePlan.chain.TypedBy Plan.treePlan.chain.fitsOneLoosely ⟨1⟩ grownNode ∧
      ∀ x ∈ Plan.treePlan.chain.children ⟨1⟩ grownNode,
        Plan.treePlan.chain.TypedBy Plan.treePlan.chain.fitsOneLoosely x.1 x.2 ∧
          (Plan.treePlan.chain.children x.1 x.2).isEmpty = true := by decide +kernel
  obtain ⟨-, hmembers, hvalues, hclosed⟩ := Plan.treePlan_checked
  obtain ⟨vp, hvp, hfound⟩ := (Option.any_eq_true _ _).mp hfound
  obtain ⟨y, hy, hrequest⟩ := (Option.any_eq_true _ _).mp hfound
  have hmem := List.mem_of_getElem? hvp
  have htyped : Plan.treePlan.chain.LooselyTyped ⟨1⟩ grownNode :=
    Chain.everywhere_of_children hown hchildren
  obtain ⟨hkind, hsubject⟩ := Request.mk.inj (of_decide_eq_true hrequest)
  cases y with
  | enumeration y => cases hsubject
  | message x =>
    have hmessage : x.message = ⟨1⟩ := Subject.message.inj hsubject
    have hdown : x.kind.isDown = true := by
      rw [show x.kind = .toNext from hkind]
      rfl
    rw [← hmessage] at htyped
    obtain ⟨out, hout⟩ := exists_convertDown Plan.generate_treeSet hmembers hvalues hmem
      (hclosed vp hmem).1.messages hy hdown htyped
    exact ⟨vp, x, out, hvp, hy, htyped, hout⟩

end Lineage.Service
