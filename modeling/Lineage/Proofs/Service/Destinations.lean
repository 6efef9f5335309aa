import Lineage.Proofs.Chain.Claims
import Lineage.Proofs.Converter.Agreement
import Lineage.Proofs.Plan.Sample
import Lineage.Proofs.Service.Down

namespace Lineage

/-!
# Where conversions down write

* `MessageConverter.destinations` — the names that a converter that leads down writes to,
* `Service.Record.write_perm` — writes of different names may be made in any order,
  `Service.runDown_perm`, `Service.get?_assigned`, `Service.get?_mapped` — so with different
  destinations the order of assignments and mappings makes no difference, and nothing that is
  written is overwritten,
* `View.target_of_assignment` — an assignment writes to the counterpart of its field,
* `MessageConverter.WritesApart` — plain fields share a destination if it is their private
  counterpart, and then one of them leads to a field that is deprecated or a variant; no plain field
  shares one with a oneof,
* `Plan.writesApart_of_generate` — so it is in generated plans, `Plan.not_destinations_nodup` — some
  are shared.
-/

/-- The names that a converter that leads down writes to. -/
def MessageConverter.destinations (x : MessageConverter) : List String :=
  x.assignments.map (·.target) ++ x.oneofs.map (·.target)

/-- The same converter with its assignments and mappings in another order. -/
structure MessageConverter.Reordered (x y : MessageConverter) : Prop where
  assignments : y.assignments.Perm x.assignments
  oneofs : y.oneofs.Perm x.oneofs
  counterpart : y.counterpartName = x.counterpartName

/-- Reordering is symmetric. -/
theorem MessageConverter.Reordered.symm {x y : MessageConverter} (h : x.Reordered y) :
    y.Reordered x :=
  ⟨h.assignments.symm, h.oneofs.symm, h.counterpart.symm⟩

/-- Reordering keeps the destinations. -/
theorem MessageConverter.Reordered.destinations {x y : MessageConverter} (h : x.Reordered y) :
    y.destinations.Perm x.destinations :=
  (h.assignments.map _).append (h.oneofs.map _)

namespace Service

/-! ### The order of writes -/

/-- Writes of different names may be made in any order. -/
theorem Record.write_perm {ws ws' : List Mutation} (h : ws.Perm ws')
    (hnodup : (ws.map (·.1)).Nodup) (r : Record) : r.write ws = r.write ws' := by
  refine h.foldl_eq' (fun x hx y hy q => ?_) r
  by_cases hname : x.1 = y.1
  · rw [List.inj_on_of_nodup_map hnodup hx hy hname]
  · exact congrArg (Record.mk q.message) (Sorted.insert_comm (Ne.symm hname) _ _ _)

/-- What the steps of a list write, they write to their targets. -/
theorem keys_sublist {α : Type} {f : α → Except Status (Option Mutation)} {target : α → String}
    (hf : ∀ a x, f a = .ok (some x) → target a = x.1) {xs : List α} {ws : List (Option Mutation)}
    (h : xs.mapM f = .ok ws) : (ws.reduceOption.map (·.1)).Sublist (xs.map target) := by
  have hall := mapM_eq_ok.mp h
  clear h
  induction hall with
  | nil => exact .slnil
  | @cons a w xs ws ha _ ih =>
    cases w with
    | none => exact ih.cons _
    | some x =>
      rw [List.reduceOption_cons_of_some, List.map_cons, List.map_cons, hf a x ha]
      exact ih.cons_cons _

/-- A list of independent steps in another order. -/
theorem mapM_perm {α β : Type} {f : α → Except Status β} {xs xs' : List α} {ys : List β}
    (hperm : xs'.Perm xs) (h : xs.mapM f = .ok ys) : ∃ ys', xs'.mapM f = .ok ys' ∧ ys'.Perm ys := by
  obtain ⟨ys', hall, hys⟩ := List.perm_comp_forall₂ hperm (mapM_eq_ok.mp h)
  exact ⟨ys', mapM_eq_ok.mpr hall, hys⟩

section
variable {convert : Convert} {x y : MessageConverter} {input out : Record}
  (hnodup : x.destinations.Nodup)
include hnodup

/-- What is written is written under different keys. -/
theorem keys_nodup {ws os : List (Option Mutation)}
    (hws : x.assignments.mapM (assignedDown convert input) = .ok ws)
    (hos : x.oneofs.mapM (mappedDown convert input) = .ok os) :
    ((ws.reduceOption ++ os.reduceOption).map (·.1)).Nodup := by
  rw [List.map_append]
  refine hnodup.sublist (.append (keys_sublist (fun a w hw => ?_) hws)
    (keys_sublist (fun _ _ => mappedDown_target) hos))
  obtain ⟨_, _, -, -, rfl⟩ := assignedDown_eq_some hw
  rfl

/-- A reordered converter makes the same record. -/
theorem runDown_reordered (hy : x.Reordered y) (h : runDown convert x input = .ok out) :
    runDown convert y input = .ok out := by
  rw [runDown_eq] at h ⊢
  obtain ⟨ws, hws, h⟩ := bind_eq_ok.mp h
  obtain ⟨os, hos, h⟩ := bind_eq_ok.mp h
  obtain rfl := pure_eq_ok.mp h
  obtain ⟨ws', hws', hpermWs⟩ := mapM_perm hy.assignments hws
  obtain ⟨os', hos', hpermOs⟩ := mapM_perm hy.oneofs hos
  have hperm : (ws.reduceOption ++ os.reduceOption).Perm (ws'.reduceOption ++ os'.reduceOption) :=
    (hpermWs.symm.filterMap id).append (hpermOs.symm.filterMap id)
  refine bind_eq_ok.mpr ⟨ws', hws', bind_eq_ok.mpr ⟨os', hos', ?_⟩⟩
  rw [hy.counterpart, Record.write_perm hperm (keys_nodup hnodup hws hos)]
  rfl

/-- **The order makes no difference** to a conversion whose destinations are different. -/
theorem runDown_perm (hy : x.Reordered y) :
    runDown convert y input = .ok out ↔ runDown convert x input = .ok out :=
  ⟨runDown_reordered (hy.destinations.nodup_iff.mpr hnodup) hy.symm, runDown_reordered hnodup hy⟩

/-- What is written is there in the end, if the destinations are different. -/
theorem get?_written (h : runDown convert x input = .ok out) {name : String} {u : Value}
    (hwrite : (∃ a ∈ x.assignments, assignedDown convert input a = .ok (some (name, u))) ∨
      ∃ g ∈ x.oneofs, mappedDown convert input g = .ok (some (name, u))) :
    out.get? name = some u := by
  rw [runDown_eq] at h
  obtain ⟨ws, hws, h⟩ := bind_eq_ok.mp h
  obtain ⟨os, hos, h⟩ := bind_eq_ok.mp h
  obtain rfl := pure_eq_ok.mp h
  have hmem : (name, u) ∈ ws.reduceOption ++ os.reduceOption := by
    rwa [List.mem_append, mem_reduceOption_of_mapM hws, mem_reduceOption_of_mapM hos]
  refine Record.get?_write_eq hmem fun u' hu' => ?_
  exact congrArg Prod.snd (List.inj_on_of_nodup_map (keys_nodup hnodup hws hos) hu' hmem rfl)

/-- **A field that is set** gets to its destination, if the destinations are different. -/
theorem get?_assigned (h : runDown convert x input = .ok out) {a : Assignment}
    (ha : a ∈ x.assignments) {v : Value} (hv : input.get? a.source = some v) :
    ∃ u, convert a.action v none = .ok u ∧ out.get? a.target = some u := by
  obtain ⟨_, -, hassigned, -⟩ := runDown_eq_ok h
  obtain ⟨w, hw⟩ := hassigned a ha
  have hwrite := hw
  rw [assignedDown, hv] at hwrite
  obtain ⟨u, hu, rfl⟩ := map_eq_ok.mp hwrite
  exact ⟨u, hu, get?_written hnodup h (.inl ⟨a, ha, hw⟩)⟩

/-- **A variant that is set** gets to its destination, if the destinations are different. -/
theorem get?_mapped (h : runDown convert x input = .ok out) {g : OneofMapping} (hg : g ∈ x.oneofs)
    {a : VariantArm} {v : Value} (hselect : selectArm g input = some (a, v)) :
    ∃ u, convert a.action v none = .ok u ∧ out.get? g.target = some (.oneof a.target u) := by
  obtain ⟨_, -, -, hmapped, -⟩ := runDown_eq_ok h
  obtain ⟨w, hw⟩ := hmapped g hg
  have hwrite := hw
  rw [mappedDown, hselect] at hwrite
  obtain ⟨u, hu, rfl⟩ := map_eq_ok.mp hwrite
  exact ⟨u, hu, get?_written hnodup h (.inr ⟨g, hg, hw⟩)⟩

end

end Service

/-! ### The destinations of converters -/

namespace Chain

/-- The plain fields of a message are different, also by their positions. -/
theorem WellFormed.nodup_plainFields_id {c : Chain} (h : c.WellFormed) (m : MessageId) :
    ((c.plainFields m).map (·.id)).Nodup := by
  have hids : ((c.message m).fields.map c.field).map (·.id) = (c.message m).fields := by
    rw [List.map_map]
    refine (List.map_congr_left fun f hf => ?_).trans (List.map_id _)
    exact h.field_id ((h.mem_fields m f).mp hf).1
  have hfields : (c.message m).fields.Nodup := nodup_of_pairwise (h.pairwise_fields m)
  rw [← hids] at hfields
  exact hfields.sublist (List.filter_sublist.map _)

end Chain

namespace View

variable {w : View} {count : Nat} {kind : ConverterKind} {id : MessageId} {x : MessageConverter}

/-- A converter that leads down works against what its members lead to. -/
theorem side_of_isDown {Id : Type} (hdown : kind.isDown) (l : Link Id) :
    w.side kind l = downLink kind l := by
  cases kind <;> first | rfl | cases hdown

/-- Steps that make at most one assignment for each field make them in the order of the fields. -/
theorem fields_sublist {step : Field → Traced FieldPart}
    (hstep : ∀ f part a, (step f).result = .ok part → part.assignment = some a → a.field = f.id)
    {fs : List Field} {parts : List FieldPart}
    (hall : List.Forall₂ (fun f part => (step f).result = .ok part) fs parts) :
    ((parts.filterMap (·.assignment)).map (·.field)).Sublist (fs.map (·.id)) := by
  induction hall with
  | nil => exact .slnil
  | @cons f part fs parts hpart _ ih =>
    cases ha : part.assignment with
    | none =>
      rw [List.filterMap_cons_none ha]
      exact ih.cons _
    | some a =>
      rw [List.filterMap_cons_some ha, List.map_cons, List.map_cons, hstep f part a hpart ha]
      exact ih.cons_cons _

variable (hok : (w.messageConverter kind id).result = .ok x)
include hok

/-- The assignments of a converter are for different fields. -/
theorem nodup_assigned (hwf : w.chain.WellFormed) : (x.assignments.map (·.field)).Nodup := by
  obtain ⟨fields, oneofs, hparts⟩ := messageConverter_parts hok
  rw [hparts.assignments]
  refine (hwf.nodup_plainFields_id id).sublist (fields_sublist (fun f part a hpart ha => ?_)
    hparts.eachField)
  exact ((field_yields hpart).of_some ha).1

variable (h : w.chain.Linked count) (hdown : kind.isDown)
include h hdown

/-- **An assignment** writes to the counterpart of its field, a plain one. -/
theorem target_of_assignment {a : Assignment} (ha : a ∈ x.assignments) :
    a.field ∈ (w.chain.message id).fields ∧ (w.chain.field a.field).oneof = none ∧
      ¬(kind = .toNext ∧ (w.chain.field a.field).deprecated) ∧
      ∃ t, downLink kind (w.chain.field a.field).link = some t ∧ a.target = (w.chain.field t).name ∧
        t ∈ (w.chain.message x.counterpart).fields := by
  have hwf := h.framed.wellFormed
  have hlink : downLink kind (w.chain.message id).link = some x.counterpart := by
    rw [← side_of_isDown hdown]
    exact (messageConverter_spec hok).counterpart
  obtain ⟨f, hf, hfield, ⟨-, hassigns⟩ | ⟨hup, -⟩⟩ := assignment_cases hok ha
  · obtain ⟨i, hi, hplain, rfl⟩ := Chain.mem_plainFields.mp hf
    obtain rfl : a.field = i := hfield.trans (hwf.field_id ((hwf.mem_fields id i).mp hi).1)
    obtain ⟨t, ht, htarget, -⟩ := hassigns.target
    exact ⟨hi, hplain, hassigns.live, t, ht, htarget,
      Service.downLink_field h (public_of_messageConverter h hok) hlink hi ht⟩
  · cases hdown.symm.trans hup

/-- Fields that have one private counterpart are written to one destination in the
    private version. -/
theorem target_eq_of_final (hprivate : kind = .toPrivate) {a b : Assignment}
    (ha : a ∈ x.assignments) (hb : b ∈ x.assignments)
    (hfinal : (w.chain.field a.field).link.final = (w.chain.field b.field).link.final) :
    a.target = b.target := by
  obtain ⟨-, -, -, t, ht, hname, -⟩ := target_of_assignment hok h hdown ha
  obtain ⟨-, -, -, t', ht', hname', -⟩ := target_of_assignment hok h hdown hb
  subst hprivate
  obtain rfl : t = t' := Option.some.inj (ht.symm.trans (Eq.trans hfinal ht'))
  exact hname.trans hname'.symm

/-- **A mapping** writes to the counterpart of a oneof. -/
theorem target_of_mapping {g : OneofMapping} (hg : g ∈ x.oneofs) :
    ∃ t ∈ (w.chain.message x.counterpart).oneofs, g.target = (w.chain.oneof t).name := by
  have hlink : downLink kind (w.chain.message id).link = some x.counterpart := by
    rw [← side_of_isDown hdown]
    exact (messageConverter_spec hok).counterpart
  obtain ⟨_, hmem, hmaps⟩ := (messageConverter_down hok hdown).mapped g hg
  obtain ⟨o, ho, rfl⟩ := List.mem_map.mp hmem
  obtain ⟨t, ht, htarget⟩ := hmaps.target
  exact ⟨t, Service.downLink_oneof h (public_of_messageConverter h hok) hlink ho ht, htarget⟩

end View

/-! ### Destinations that are shared -/

/-- Where a converter that leads down writes. -/
structure MessageConverter.WritesApart (c : Chain) (x : MessageConverter) : Prop where
  /-- Two fields share a destination if it is their private counterpart, -/
  fields : x.assignments.Pairwise fun a b => a.target = b.target ↔ x.kind = .toPrivate ∧
    (c.field a.field).link.final = (c.field b.field).link.final
  /-- and only if one of them leads to a field that is deprecated or a variant. -/
  unclaimed : x.assignments.Pairwise fun a b => a.target = b.target → c.Unclaimed a.field b.field
  /-- A field and a oneof share none. -/
  apart : ∀ a ∈ x.assignments, ∀ g ∈ x.oneofs, a.target ≠ g.target
  /-- If neither the fields nor the oneofs among themselves do, all destinations are different. -/
  destinations : x.kind = .toNext ∨ c.FieldsApart x.message → (x.oneofs.map (·.target)).Nodup →
    x.destinations.Nodup
  /-- Then the order makes no difference, -/
  order : x.destinations.Nodup → ∀ y, x.Reordered y → ∀ convert input out,
    Service.runDown convert y input = .ok out ↔ Service.runDown convert x input = .ok out
  /-- and every field and variant that is set is there in the end. -/
  kept : x.destinations.Nodup → ∀ convert input out, Service.runDown convert x input = .ok out →
    (∀ a ∈ x.assignments, ∀ v, input.get? a.source = some v →
      ∃ u, convert a.action v none = .ok u ∧ out.get? a.target = some u) ∧
    ∀ g ∈ x.oneofs, ∀ a v, Service.selectArm g input = some (a, v) →
      ∃ u, convert a.action v none = .ok u ∧ out.get? g.target = some (.oneof a.target u)

/-- Two assignments of one converter that have one destination. -/
theorem View.shared_of_target_eq {w : View} {count : Nat} (h : w.chain.Linked count)
    (hmembers : w.chain.UniqueMembers)
    (hd : ∀ m, m.index < w.chain.messages.size → (w.chain.message m).version.index + 1 < count →
      w.chain.DistinctIn m) {kind : ConverterKind} {id : MessageId} {x : MessageConverter}
    (hok : (w.messageConverter kind id).result = .ok x) (hdown : kind.isDown) {a b : Assignment}
    (ha : a ∈ x.assignments) (hb : b ∈ x.assignments) (hne : a.field ≠ b.field)
    (htarget : a.target = b.target) : kind = .toPrivate ∧
      (w.chain.field a.field).link.final = (w.chain.field b.field).link.final ∧
      w.chain.Unclaimed a.field b.field := by
  have hwf := h.framed.wellFormed
  have hpublic := public_of_messageConverter h hok
  obtain ⟨hmem, hplain, hlive, t, ht, hname, hfield⟩ := target_of_assignment hok h hdown ha
  obtain ⟨hmem', hplain', hlive', t', ht', hname', hfield'⟩ := target_of_assignment hok h hdown hb
  -- names of fields differ, so that the destination is one field
  obtain rfl := hmembers.uniqueFields.eq hfield hfield' (hname.symm.trans (htarget.trans hname'))
  cases kind with
  | toNext =>
    -- the next version's field would have been taken twice
    obtain ⟨hlt, hmessage⟩ := (hwf.mem_fields id a.field).mp hmem
    have hm : id.index < w.chain.messages.size := hmessage ▸ hwf.field_message_lt hlt
    have hnext : (w.chain.field a.field).link.next = some t := ht
    have hnext' : (w.chain.field b.field).link.next = some t := ht'
    refine absurd (hd id hm hpublic a.field hmem b.field hmem' ?_ ?_ (.field t) ?_ ?_) hne
    · exact ⟨hplain, by simpa using hlive⟩
    · exact ⟨hplain', by simpa using hlive'⟩
    · simp [Chain.links, Link.hop, hnext]
    · simp [Chain.links, Link.hop, hnext']
  | toPrivate =>
    have hfinal : (w.chain.field a.field).link.final = (w.chain.field b.field).link.final :=
      Eq.trans (b := some t) ht ht'.symm
    exact ⟨rfl, hfinal, h.unclaimed_of_final_eq hd hmem hmem' hpublic hne hfinal⟩
  | toPublic => cases hdown
  | toDeprecatedPublic => cases hdown

/-- The converters down of a linked chain write apart. -/
theorem View.writesApart {w : View} {count : Nat} (h : w.chain.Linked count)
    (hmembers : w.chain.UniqueMembers)
    (hd : ∀ m, m.index < w.chain.messages.size → (w.chain.message m).version.index + 1 < count →
      w.chain.DistinctIn m) {kind : ConverterKind} {id : MessageId} {x : MessageConverter}
    (hok : (w.messageConverter kind id).result = .ok x) (hdown : kind.isDown) :
    x.WritesApart w.chain := by
  have hspec := messageConverter_spec hok
  have hdifferent : x.assignments.Pairwise fun a b => a.field ≠ b.field :=
    List.pairwise_map.mp (nodup_assigned hok h.framed.wellFormed)
  have hshared := fun {a b} => shared_of_target_eq (a := a) (b := b) h hmembers hd hok hdown
  have hapart : ∀ a ∈ x.assignments, ∀ g ∈ x.oneofs, a.target ≠ g.target := by
    intro a ha g hg heq
    obtain ⟨-, -, -, t, -, hname, hfield⟩ := target_of_assignment hok h hdown ha
    obtain ⟨o, ho, hname'⟩ := target_of_mapping hok h hdown hg
    exact hmembers.field_ne_oneof hfield ho (hname.symm.trans (heq.trans hname'))
  constructor
  case fields =>
    refine hdifferent.imp_of_mem fun ha hb hne => ?_
    rw [hspec.kind]
    exact ⟨fun htarget => ⟨(hshared ha hb hne htarget).1, (hshared ha hb hne htarget).2.1⟩,
      fun ⟨hprivate, hfinal⟩ => target_eq_of_final hok h hdown hprivate ha hb hfinal⟩
  case unclaimed =>
    exact hdifferent.imp_of_mem fun ha hb hne htarget => (hshared ha hb hne htarget).2.2
  case apart => exact hapart
  case destinations =>
    intro hcase honeofs
    refine List.nodup_append.mpr ⟨?_, honeofs, ?_⟩
    · refine List.pairwise_map.mpr (hdifferent.imp_of_mem fun ha hb hne htarget => ?_)
      obtain ⟨hprivate, hfinal, -⟩ := hshared ha hb hne htarget
      obtain ⟨hmem, hplain, -⟩ := target_of_assignment hok h hdown ha
      obtain ⟨hmem', hplain', -⟩ := target_of_assignment hok h hdown hb
      obtain hnext | hfields := hcase
      · cases hnext.symm.trans (hspec.kind.trans hprivate)
      · rw [hspec.message] at hfields
        exact hne (hfields _ hmem _ hmem' hplain hplain' hfinal)
    · intro name hname name' hname' heq
      obtain ⟨a, ha, rfl⟩ := List.mem_map.mp hname
      obtain ⟨g, hg, rfl⟩ := List.mem_map.mp hname'
      exact hapart a ha g hg heq
  case order => exact fun hnodup y hy convert input out => Service.runDown_perm hnodup hy
  case kept =>
    intro hnodup convert input out hrun
    exact ⟨fun a ha v hv => Service.get?_assigned hnodup hrun ha hv,
      fun g hg a v hselect => Service.get?_mapped hnodup hrun hg hselect⟩

/-- **Where conversions down write**, in a generated plan, with the names of fields and oneofs
    unique in each message: two plain fields have one destination only if they have one private
    counterpart because of a field that is deprecated or a variant, and without that, and with
    different destinations of the oneofs, the order of declarations makes no difference and nothing
    is overwritten. -/
theorem Plan.writesApart_of_generate {set : DescriptorSet} {config : Config} {plan : Plan}
    (h : generate set config = .ok plan) (hmembers : plan.chain.UniqueMembers) {vp : VersionPlan}
    (hvp : vp ∈ plan.versions) {function : String} {x : MessageConverter}
    (hx : (function, .message x) ∈ vp.converters) (hdown : x.kind.isDown) :
    x.WritesApart plan.chain := by
  have hplan := generated_of_generate h
  obtain ⟨_, _, _, hc⟩ := ofPackages_of_generate h
  obtain ⟨v, -, hspecified⟩ := hplan.exists_specified hvp
  obtain ⟨-, table, hok⟩ := hspecified function _ hx
  obtain ⟨hmessage, -⟩ := View.messageConverter_of_converter hok
  exact View.writesApart hplan.linked hmembers
    (fun m hm hpublic => Chain.distinctIn_of_ofPackages hc hm hpublic) hmessage hdown

/-! ### Samples -/

/-- Whether some message converter of a plan passes a check. -/
def Plan.anyMessage (plan : Plan) (check : VersionPlan → MessageConverter → Bool) : Bool :=
  plan.versions.any fun vp => vp.converters.any fun e => match e.2 with
    | .message x => check vp x
    | .enumeration _ => false

/-- A converter that passes a check is one of some version. -/
theorem Plan.exists_of_anyMessage {plan : Plan} {check : VersionPlan → MessageConverter → Bool}
    (h : plan.anyMessage check = true) : ∃ vp function x, vp ∈ plan.versions ∧
      (function, Converter.message x) ∈ vp.converters ∧ check vp x = true := by
  obtain ⟨vp, hvp, hany⟩ := List.any_eq_true.mp h
  obtain ⟨⟨function, x⟩, hx, hcheck⟩ := List.any_eq_true.mp hany
  cases x with
  | message x => exact ⟨vp, function, x, hvp, hx, hcheck⟩
  | enumeration x => cases hcheck

set_option maxRecDepth 10000 in
/-- The converter of items of the second version writes to a kind, parts and a choice. -/
theorem Plan.writesApart_item : generate itemSet {} = .ok itemPlan ∧ itemPlan.chain.UniqueMembers ∧
    ∃ vp function x, vp ∈ itemPlan.versions ∧ (function, Converter.message x) ∈ vp.converters ∧
      x.kind.isDown = true ∧ x.destinations = ["kind", "parts", "choice"] ∧ x.destinations.Nodup ∧
      x.WritesApart itemPlan.chain := by
  have hchecked : itemPlan.anyMessage (fun _ x => decide (x.kind.isDown = true ∧
      x.destinations = ["kind", "parts", "choice"] ∧ x.destinations.Nodup)) = true := by
    decide +kernel
  obtain ⟨vp, function, x, hvp, hx, hcheck⟩ := exists_of_anyMessage hchecked
  obtain ⟨hdown, hdestinations, hnodup⟩ := of_decide_eq_true hcheck
  exact ⟨generate_itemSet, itemPlan_checked.2.1, vp, function, x, hvp, hx, hdown, hdestinations,
    hnodup, writesApart_of_generate generate_itemSet itemPlan_checked.2.1 hvp hx hdown⟩

/-- A name of the first version, both of whose fields are set. -/
def Service.mergedName : Service.Record :=
  { message := "v1.Name", fields := [("name", .str "b"), ("old", .str "a")] }

/-- The private record that a converter makes of it. -/
def VersionPlan.merged (vp : VersionPlan) (x : MessageConverter) :
    Except Service.Status Service.Record :=
  Service.runDown (Service.convertWithin vp 2) x Service.mergedName

/-- A merged name comes out of a conversion. -/
theorem VersionPlan.exists_merged {vp : VersionPlan} {x : MessageConverter} {name : String}
    (h : ((vp.merged x).toOption.bind (·.get? "name")).bind Service.Value.string? = some name) :
    ∃ out, vp.merged x = .ok out ∧ (out.get? "name").bind Service.Value.string? = some name := by
  cases hrun : vp.merged x with
  | error e =>
    rw [hrun] at h
    cases h
  | ok out =>
    rw [hrun] at h
    exact ⟨out, rfl, h⟩

set_option maxRecDepth 10000 in
/-- **Two fields can have one destination**, if the second version has deprecated the field that one
    of them leads to: then the last assignment counts. -/
theorem Plan.not_destinations_nodup : generate personSet {} = .ok personPlan ∧
    personPlan.chain.UniqueMembers ∧ ∃ vp function x, vp ∈ personPlan.versions ∧
      (function, Converter.message x) ∈ vp.converters ∧ x.kind = .toPrivate ∧ x.oneofs = [] ∧
      ¬x.destinations.Nodup ∧ ∃ y out out', x.Reordered y ∧ vp.merged x = .ok out ∧
        vp.merged y = .ok out' ∧ (out.get? "name").bind Service.Value.string? = some "b" ∧
        (out'.get? "name").bind Service.Value.string? = some "a" := by
  have hchecked : personPlan.anyMessage (fun vp x => decide (x.kind = .toPrivate ∧ x.oneofs = [] ∧
      ¬x.destinations.Nodup ∧
      ((vp.merged x).toOption.bind (·.get? "name")).bind Service.Value.string? = some "b" ∧
      ((vp.merged { x with assignments := x.assignments.reverse }).toOption.bind
        (·.get? "name")).bind Service.Value.string? = some "a")) = true := by decide +kernel
  obtain ⟨vp, function, x, hvp, hx, hcheck⟩ := exists_of_anyMessage hchecked
  obtain ⟨hkind, hnone, hnot, hmade, hmade'⟩ := of_decide_eq_true hcheck
  obtain ⟨out, hrun, hname⟩ := VersionPlan.exists_merged hmade
  obtain ⟨out', hrun', hname'⟩ := VersionPlan.exists_merged hmade'
  exact ⟨generate_personSet, personPlan_checked.2.1, vp, function, x, hvp, hx, hkind, hnone, hnot,
    { x with assignments := x.assignments.reverse }, out, out',
    ⟨List.reverse_perm _, .refl _, rfl⟩, hrun, hrun', hname, hname'⟩

end Lineage
