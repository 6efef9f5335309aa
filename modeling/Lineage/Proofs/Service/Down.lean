import Lineage.Proofs.Chain.Counterpart
import Lineage.Proofs.Plan.Provided
import Lineage.Proofs.Service.Write

namespace Lineage.Service

/-!
# One conversion down

* `exists_source`, `isSome_of_source` — what a conversion down writes comes from a field that leads
  there, and the value of a copied field gets there, `isSome_of_assigned`, `isSome_of_mapped` —
  whatever is read is written,
* `get?_down` — what is under the name of a counterpart to which one plain field leads,
* `selectArm_eq`, `mappedDown_variant` — the variant of a oneof that is set is written as its
  counterpart,
* `get?_oneof_down` — what is under the name of a counterpart to which one oneof leads.
-/

variable {c : Chain} {count : Nat} {w : View} {kind : ConverterKind} {id id' : MessageId}
  {x : MessageConverter} {convert : Convert} {input out : Record}

/-- A conversion down succeeds if all that it writes can be made. -/
theorem exists_runDown (hassigned : ∀ a ∈ x.assignments, ∃ y, assignedDown convert input a = .ok y)
    (hmapped : ∀ o ∈ x.oneofs, ∃ y, mappedDown convert input o = .ok y) :
    ∃ out, runDown convert x input = .ok out := by
  obtain ⟨ws, hws⟩ := exists_forall₂ hassigned
  obtain ⟨os, hos⟩ := exists_forall₂ hmapped
  rw [runDown_eq]
  exact ⟨_, bind_eq_ok.mpr ⟨ws, mapM_eq_ok.mpr hws, bind_eq_ok.mpr ⟨os, mapM_eq_ok.mpr hos, rfl⟩⟩⟩

/-! ### Plain fields -/

/-- The counterpart of a member that a converter leads to is a member of the counterpart of the
    message. -/
theorem downLink_field (h : c.Linked count) (hpublic : (c.message id).version.index + 1 < count)
    (hlink : View.downLink kind (c.message id).link = some id') {f g : FieldId}
    (hf : f ∈ (c.message id).fields) (hg : View.downLink kind (c.field f).link = some g) :
    g ∈ (c.message id').fields := by
  unfold View.downLink at hlink hg
  split at hlink <;> rename_i hkind
  · rw [if_pos hkind] at hg
    exact (h.field_next hf hpublic hlink hg).1
  · rw [if_neg hkind] at hg
    obtain ⟨q, hq, hmem⟩ := h.field_final hf hpublic hlink
    obtain rfl := Option.some.inj (hg.symm.trans hq)
    exact hmem

/-- On the way down a oneof leads to one of the message's counterpart. -/
theorem downLink_oneof (h : c.Linked count) (hpublic : (c.message id).version.index + 1 < count)
    (hlink : View.downLink kind (c.message id).link = some id') {o o' : OneofId}
    (ho : o ∈ (c.message id).oneofs) (ho' : View.downLink kind (c.oneof o).link = some o') :
    o' ∈ (c.message id').oneofs := by
  unfold View.downLink at hlink ho'
  split at hlink <;> rename_i hkind
  · rw [if_pos hkind] at ho'
    exact h.oneof_next ho hpublic hlink ho'
  · rw [if_neg hkind] at ho'
    obtain ⟨q, hq, hmem⟩ := h.oneof_final ho hpublic hlink
    obtain rfl := Option.some.inj (ho'.symm.trans hq)
    exact hmem

/-- **What a conversion down writes** into a field comes from a plain field that leads there. -/
theorem exists_source (h : w.chain.Linked count) (hmembers : w.chain.UniqueMembers)
    (hpublic : (w.chain.message id).version.index + 1 < count)
    (hlink : View.downLink kind (w.chain.message id).link = some id')
    (hx : (w.messageConverter kind id).result = .ok x) (hdown : kind.isDown)
    (hrun : runDown convert x input = .ok out) {g : FieldId} (hg : g ∈ (w.chain.message id').fields)
    {u : Value} (hget : out.get? (w.chain.field g).name = some u) :
    ∃ f ∈ (w.chain.message id).fields, (w.chain.field f).oneof = none ∧
      View.downLink kind (w.chain.field f).link = some g ∧
      ∃ u₀ action, input.get? (w.chain.field f).name = some u₀ ∧
        (w.action kind f g g).result = .ok (some action) ∧ convert action u₀ none = .ok u := by
  have hwf := h.framed.wellFormed
  have hparts := View.messageConverter_down hx hdown
  -- whatever is there has been written, by an assignment or by the mapping of a oneof
  obtain ⟨ws, rfl, -, -, hws⟩ := runDown_eq_ok hrun
  obtain ⟨a, ha, hwrite⟩ | ⟨o, ho, hwrite⟩ := (hws _).mp (Record.mem_of_get?_write hget)
  · obtain ⟨_, hfield, hassigns⟩ := hparts.assigned a ha
    obtain ⟨f, hf, hplain, rfl⟩ := Chain.mem_plainFields.mp hfield
    obtain ⟨t, ht, hname, hconveys⟩ := hassigns.target
    have hid : (w.chain.field f).id = f := hwf.field_id ((hwf.mem_fields id f).mp hf).1
    obtain ⟨u₀, u', hu₀, hu', hpair⟩ := assignedDown_eq_some hwrite
    rw [hassigns.source] at hu₀
    obtain ⟨hkey, rfl⟩ := Prod.mk.inj hpair
    -- names of fields differ, so that the field written is the counterpart
    have htarget : t ∈ (w.chain.message id').fields := downLink_field h hpublic hlink hf ht
    obtain rfl := hmembers.uniqueFields.eq htarget hg (hname.symm.trans hkey.symm)
    exact ⟨f, hf, hplain, ht, u₀, a.action, hu₀, hid ▸ hconveys.result, hu'⟩
  · -- a oneof has another name than the field
    obtain ⟨_, honeof, hmaps⟩ := hparts.mapped o ho
    obtain ⟨o', ho', rfl⟩ := List.mem_map.mp honeof
    obtain ⟨t, ht, hname⟩ := hmaps.target
    have htarget : t ∈ (w.chain.message id').oneofs := downLink_oneof h hpublic hlink ho' ht
    exact absurd ((mappedDown_target hwrite).symm.trans hname) (hmembers.field_ne_oneof hg htarget)

/-- What an assignment reads is written. -/
theorem isSome_of_assigned (hrun : runDown convert x input = .ok out) {a : Assignment}
    (ha : a ∈ x.assignments) (hset : (input.get? a.source).isSome) :
    (out.get? a.target).isSome := by
  obtain ⟨ws, rfl, hassigned, -, hws⟩ := runDown_eq_ok hrun
  obtain ⟨v, hv⟩ := Option.isSome_iff_exists.mp hset
  obtain ⟨w, hw⟩ := hassigned a ha
  have hwrite := hw
  unfold assignedDown at hwrite
  rw [hv] at hwrite
  obtain ⟨u, -, rfl⟩ := map_eq_ok.mp hwrite
  exact Record.isSome_of_mem_write ((hws (a.target, u)).mpr (.inl ⟨a, ha, hw⟩))

/-- The value of a copied field that is set gets to the counterpart, unless the field
    bypasses it. -/
theorem isSome_of_source (hwf : w.chain.WellFormed)
    (hx : (w.messageConverter kind id).result = .ok x) (hdown : kind.isDown)
    (hrun : runDown convert x input = .ok out) {f : FieldId} (hf : f ∈ (w.chain.message id).fields)
    (hcopied : w.chain.Copied f) (hset : (input.get? (w.chain.field f).name).isSome)
    (hlive : ¬(kind = .toNext ∧ (w.chain.field f).deprecated)) :
    ∃ g, View.downLink kind (w.chain.field f).link = some g ∧
      (out.get? (w.chain.field g).name).isSome := by
  have hparts := View.messageConverter_down hx hdown
  have hid : (w.chain.field f).id = f := hwf.field_id ((hwf.mem_fields id f).mp hf).1
  obtain hskip | ⟨g, hg, hnone, -⟩ | ⟨a, ha, hassigns⟩ :=
    hparts.fields _ (Chain.mem_plainFields.mpr ⟨f, hf, hcopied.plain, rfl⟩)
  · exact absurd hskip hlive
  · -- a copied field is never unconverted
    have hleads : w.chain.Leads f g := by
      unfold View.downLink at hg
      split at hg
      · exact .inl hg
      · exact .inr hg
    rw [hid, View.action_copy (hcopied.classifyPair hleads)] at hnone
    cases hnone
  · obtain ⟨g, hg, hname, -⟩ := hassigns.target
    exact ⟨g, hg, hname ▸ isSome_of_assigned hrun ha (hassigns.source ▸ hset)⟩

/-- **What is under the name of a counterpart** to which only one plain field leads is what the
    field's value is converted to. -/
theorem get?_down (h : w.chain.Linked count) (hmembers : w.chain.UniqueMembers)
    (hpublic : (w.chain.message id).version.index + 1 < count)
    (hlink : View.downLink kind (w.chain.message id).link = some id')
    (hx : (w.messageConverter kind id).result = .ok x) (hdown : kind.isDown)
    (hrun : runDown convert x input = .ok out) {f g : FieldId}
    (hf : f ∈ (w.chain.message id).fields) {a : Assignment} (ha : a ∈ x.assignments)
    {asked : List Request} (hassigns : w.AssignsDown kind asked (w.chain.field f) a)
    (hg : View.downLink kind (w.chain.field f).link = some g)
    (halone : ∀ f' ∈ (w.chain.message id).fields, (w.chain.field f').oneof = none →
      View.downLink kind (w.chain.field f').link = some g → f' = f) :
    input.get? (w.chain.field f).name = none ∧ out.get? (w.chain.field g).name = none ∨
      ∃ v u, input.get? (w.chain.field f).name = some v ∧
        out.get? (w.chain.field g).name = some u ∧ convert a.action v none = .ok u := by
  have hwf := h.framed.wellFormed
  have hid : (w.chain.field f).id = f := hwf.field_id ((hwf.mem_fields id f).mp hf).1
  obtain ⟨t, ht, hname, hconveys⟩ := hassigns.target
  obtain rfl := Option.some.inj (ht.symm.trans hg)
  have hmem := downLink_field h hpublic hlink hf hg
  -- nothing there means nothing read; something there comes from the one field that leads there
  cases hget : out.get? (w.chain.field t).name with
  | none =>
    refine .inl ⟨?_, rfl⟩
    cases hv : input.get? (w.chain.field f).name with
    | none => rfl
    | some v =>
      have hset := isSome_of_assigned hrun ha (by rw [hassigns.source, hv]; rfl)
      rw [hname, hget] at hset
      cases hset
  | some u =>
    obtain ⟨f', hf', hplain, ht', v, action, hv, haction, hconvert⟩ :=
      exists_source h hmembers hpublic hlink hx hdown hrun hmem hget
    obtain rfl := halone f' hf' hplain ht'
    have hresult := hconveys.result
    rw [hid] at hresult
    obtain rfl := Option.some.inj (Except.ok.inj (haction.symm.trans hresult))
    exact .inr ⟨v, u, hv, rfl, hconvert⟩

/-! ### Oneofs -/

/-- A variant that has an arm selects one. -/
theorem selectArm_eq {g : OneofMapping} {r : Record} {variant : String} {v : Value}
    (hget : r.get? g.source = some (.oneof variant v)) {a : VariantArm} (ha : a ∈ g.arms)
    (hsource : a.source = variant) :
    ∃ b ∈ g.arms, b.source = variant ∧ selectArm g r = some (b, v) := by
  unfold selectArm
  rw [hget]
  dsimp only
  cases hfind : g.arms.find? (·.source == variant) with
  | none =>
    have hnone := List.find?_eq_none.mp hfind a ha
    simp [hsource] at hnone
  | some b =>
    exact ⟨b, List.mem_of_find?_eq_some hfind, by simpa using List.find?_some hfind, rfl⟩

/-- What a mapping reads is written, if there is an arm for the variant that is set. -/
theorem isSome_of_mapped (hrun : runDown convert x input = .ok out) {g : OneofMapping}
    (hg : g ∈ x.oneofs) {a : VariantArm} (ha : a ∈ g.arms) {v : Value}
    (hset : input.get? g.source = some (.oneof a.source v)) : (out.get? g.target).isSome := by
  obtain ⟨b, -, -, hselect⟩ := selectArm_eq hset ha rfl
  obtain ⟨ws, rfl, -, hmapped, hws⟩ := runDown_eq_ok hrun
  obtain ⟨w, hw⟩ := hmapped g hg
  have hwrite := hw
  unfold mappedDown at hwrite
  rw [hselect] at hwrite
  obtain ⟨u, -, rfl⟩ := map_eq_ok.mp hwrite
  exact Record.isSome_of_mem_write ((hws _).mpr (.inr ⟨g, hg, hw⟩))

section
variable (h : w.chain.Linked count) (hmembers : w.chain.UniqueMembers) {o : OneofId}
  (ho : o ∈ (w.chain.message id).oneofs)
include h hmembers ho

/-- **The variant that is set** is written as its counterpart, in the counterpart of the oneof. -/
theorem mappedDown_variant (convert : Convert) {asked : List Request} {names : List String}
    {g : OneofMapping} (hmaps : w.MapsDown kind asked names (w.chain.oneof o) g) {f t : FieldId}
    {o' : OneofId} (hf : f ∈ (w.chain.oneof o).fields)
    (hlive : ¬(kind = .toNext ∧ (w.chain.field f).deprecated))
    (hnames : (w.chain.field f).name ∉ names)
    (ho' : View.downLink kind (w.chain.oneof o).link = some o')
    (ht : View.downLink kind (w.chain.field f).link = some t) {v : Value}
    (hget : input.get? (w.chain.oneof o).name = some (.oneof (w.chain.field f).name v)) :
    ∃ action, w.Conveys kind f t t action asked ∧ mappedDown convert input g
      = (convert action v none).map fun u =>
        some ((w.chain.oneof o').name, .oneof (w.chain.field t).name u) := by
  have hwf := h.framed.wellFormed
  have hfield := hwf.mem_fields_of_variant ho hf
  obtain ⟨t', ht', htarget⟩ := hmaps.target
  obtain rfl := Option.some.inj (ht'.symm.trans ho')
  obtain hskip | hleft | ⟨a, ha, harms⟩ := hmaps.variants _ (List.mem_map_of_mem hf)
  · obtain hskip | hnone := hskip
    · exact absurd hskip hlive
    · cases ht.symm.trans hnone
  · exact absurd hleft hnames
  · obtain ⟨b, hb, hsource, hselect⟩ :=
      selectArm_eq (g := g) (by rw [hmaps.source]; exact hget) ha harms.source
    obtain ⟨_, hvariant, harms'⟩ := hmaps.armed b hb
    obtain ⟨f', hf', rfl⟩ := List.mem_map.mp hvariant
    -- an arm of that name is for the variant
    obtain rfl := hmembers.uniqueFields.eq (hwf.mem_fields_of_variant ho hf') hfield
      (harms'.source.symm.trans hsource)
    obtain ⟨t₀, ht₀, hname, hconveys⟩ := harms'.target
    obtain rfl := Option.some.inj (ht₀.symm.trans ht)
    rw [hwf.field_id ((hwf.mem_fields id f').mp hfield).1] at hconveys
    refine ⟨b.action, hconveys, ?_⟩
    unfold mappedDown
    rw [hselect]
    dsimp only
    rw [hname, htarget]

/-- **What is under the name of a counterpart** to which only one oneof leads is the counterpart of
    the variant that is set. -/
theorem get?_oneof_down (hpublic : (w.chain.message id).version.index + 1 < count)
    (hlink : View.downLink kind (w.chain.message id).link = some id')
    (hx : (w.messageConverter kind id).result = .ok x) (hdown : kind.isDown)
    (hrun : runDown convert x input = .ok out) {o' : OneofId}
    (ho' : View.downLink kind (w.chain.oneof o).link = some o')
    (halone : ∀ q ∈ (w.chain.message id).oneofs,
      View.downLink kind (w.chain.oneof q).link = some o' → q = o)
    (hlive : ¬(kind = .toNext ∧ (w.chain.oneof o).deprecated)) {written : Option Mutation}
    (hwritten : ∀ g, w.MapsDown kind (w.messageConverter kind id).requests x.unconverted
      (w.chain.oneof o) g → mappedDown convert input g = .ok written)
    (hkey : ∀ y, written = some y → y.1 = (w.chain.oneof o').name) :
    out.get? (w.chain.oneof o').name = written.map Prod.snd := by
  have hparts := View.messageConverter_down hx hdown
  have hmem := downLink_oneof h hpublic hlink ho ho'
  obtain ⟨ws, rfl, -, -, hws⟩ := runDown_eq_ok hrun
  -- what is written under the name is written for the oneof
  have howner : ∀ u, ((w.chain.oneof o').name, u) ∈ ws →
      written = some ((w.chain.oneof o').name, u) := by
    intro u hu
    obtain ⟨a, ha, hwrite⟩ | ⟨g, hg, hwrite⟩ := (hws _).mp hu
    · obtain ⟨_, hfield, hassigns⟩ := hparts.assigned a ha
      obtain ⟨f, hf, -, rfl⟩ := Chain.mem_plainFields.mp hfield
      obtain ⟨t, ht, hname, -⟩ := hassigns.target
      obtain ⟨_, _, -, -, hpair⟩ := assignedDown_eq_some hwrite
      exact absurd (hname.symm.trans (congrArg Prod.fst hpair).symm)
        (hmembers.field_ne_oneof (downLink_field h hpublic hlink hf ht) hmem)
    · obtain ⟨_, honeof, hmaps⟩ := hparts.mapped g hg
      obtain ⟨q, hq, rfl⟩ := List.mem_map.mp honeof
      obtain ⟨t, ht, hname⟩ := hmaps.target
      obtain rfl := hmembers.oneof_eq (downLink_oneof h hpublic hlink hq ht) hmem
        (hname.symm.trans (mappedDown_target hwrite))
      obtain rfl := halone q hq ht
      exact Except.ok.inj ((hwritten g hmaps).symm.trans hwrite)
  -- nothing else writes under the name, so that what is there is what the oneof's mapping writes
  cases hcase : written with
  | none =>
    cases hget : (({ message := x.counterpartName } : Record).write ws).get?
      (w.chain.oneof o').name with
    | none => rfl
    | some u =>
      have hsome := howner u (Record.mem_of_get?_write hget)
      cases hcase.symm.trans hsome
  | some y =>
    obtain ⟨name, u⟩ := y
    obtain rfl : name = (w.chain.oneof o').name := hkey _ hcase
    obtain hskip | ⟨g, hg, hmaps⟩ := hparts.oneofs _ (List.mem_map_of_mem ho)
    · obtain hskip | hnone := hskip
      · exact absurd hskip hlive
      · cases ho'.symm.trans hnone
    · refine Record.get?_write_eq ((hws _).mpr (.inr ⟨g, hg, ?_⟩)) fun u' hu' => ?_
      · rw [hwritten g hmaps, hcase]
      · exact (Prod.mk.inj (Option.some.inj ((howner u' hu').symm.trans hcase))).2

end

end Lineage.Service
