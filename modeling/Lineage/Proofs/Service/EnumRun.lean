import Lineage.Proofs.Plan.Sample
import Lineage.Proofs.Service.Enumeration

namespace Lineage

/-!
# Enum values all the way down

The converters of an enum and of its counterparts, hop by hop, lead to the private counterpart of a
value.

* `Plan.Specifies`, `Plan.DownRun` — converters that lead from an enum to the private version, each
  of them specified,
* `Chain.LiveFor` — a value whose next counterparts, so many of them, are not deprecated,
* `Service.cases_downRun` — such a run has cases for the value and its counterparts,
  `Service.private_of_downRun` — and it yields the private counterpart.
-/

/-- An enum converter of a kind is specified in one of the version plans. -/
def Plan.Specifies (plan : Plan) (kind : ConverterKind) (e : EnumId) (x : EnumConverter) : Prop :=
  ∃ vp ∈ plan.versions, ∃ function, vp.converter? function = some (.enumeration x) ∧
    x.kind = kind ∧ x.enumeration = e

/-- The enum converter of a function of one of the versions. -/
def Plan.enumConverter? (plan : Plan) (version : Nat) (function : String) :
    Option EnumConverter := do
  match ← (← plan.versions[version]?).converter? function with
  | .enumeration x => some x
  | .message _ => none

/-- A converter that is found in a plan is specified there. -/
theorem Plan.specifies_of_enumConverter {plan : Plan} {version : Nat} {function : String}
    {kind : ConverterKind} {e : EnumId} {x : EnumConverter}
    (h : plan.enumConverter? version function = some x) (hkind : x.kind = kind)
    (henum : x.enumeration = e) : plan.Specifies kind e x := by
  obtain ⟨vp, hvp, h⟩ := Option.bind_eq_some_iff.mp h
  obtain ⟨found, hfound, h⟩ := Option.bind_eq_some_iff.mp h
  cases found with
  | enumeration y =>
    obtain rfl := Option.some.inj h
    exact ⟨vp, List.mem_of_getElem? hvp, function, hfound, hkind, henum⟩
  | message y => cases h

/-- The specified converters of an enum and of its counterparts, one hop after the other, the last
    one to the private version. -/
inductive Plan.DownRun (plan : Plan) : EnumId → List EnumConverter → Prop
  | toPrivate {e : EnumId} {x : EnumConverter} (hx : plan.Specifies .toPrivate e x) :
      DownRun plan e [x]
  | toNext {e e' : EnumId} {x : EnumConverter} {xs : List EnumConverter}
      (hx : plan.Specifies .toNext e x) (hnext : (plan.chain.enumeration e).link.next = some e')
      (hrest : DownRun plan e' xs) : DownRun plan e (x :: xs)

/-- A value and its next counterparts, so many of them in all, are not deprecated. -/
def Chain.LiveFor (c : Chain) : Nat → ValueId → Prop
  | 0, _ => True
  | n + 1, v => (c.value v).deprecated = false ∧
      ∀ u, (c.value v).link.next = some u → LiveFor c n u

namespace Service

variable {plan : Plan} {e : EnumId} {xs : List EnumConverter} {v : ValueId}

/-- A specified converter is that of its enum. -/
theorem exists_enumConverter (hplan : plan.Generated) {kind : ConverterKind} {x : EnumConverter}
    (hx : plan.Specifies kind e x) :
    ∃ (version : Version) (table : Option ReceiveTable),
      (plan.chain.viewOf version).enumConverter kind e = .ok (x, table) := by
  obtain ⟨vp, hvp, function, hfound, rfl, rfl⟩ := hx
  obtain ⟨version, table, hok⟩ := hplan.specified hvp hfound
  obtain ⟨y, hy, hconverter⟩ := View.converter_of_enumeration hok
  obtain rfl := Converter.enumeration.inj hy
  exact ⟨version, table, hconverter⟩

/-- **One converter after the other**, by their cases alone, takes the name of a value to that of
    its private counterpart, if the values that are taken to a next version are not deprecated. -/
theorem cases_downRun (hplan : plan.Generated) (hrun : plan.DownRun e xs)
    (hv : plan.chain.Stands e v) (hlive : plan.chain.LiveFor (xs.length - 1) v) :
    ∃ p, (plan.chain.value v).link.final = some p ∧
      xs.foldlM (fun name x => caseOf? x name) (plan.chain.value v).name
        = some (plan.chain.value p).name := by
  have hlinked := hplan.linked
  -- by induction on the run: each converter has the case, and the next counterpart goes on
  induction hrun generalizing v with
  | @toPrivate e x hx =>
    obtain ⟨version, table, hok⟩ := exists_enumConverter hplan hx
    obtain ⟨-, -, -, hside⟩ := View.enumConverter_eq_ok hok
    have hpublic : (plan.chain.enumeration e).version.index + 1 < plan.chain.versions.size :=
      hlinked.public_of_leads (n := .enumeration e)
        (Chain.leads_links_enumeration (View.leads_of_side hside))
    obtain ⟨p, hp⟩ := hlinked.value_final hv.mem hpublic
    have hcase := caseOf_down (w := plan.chain.viewOf version) hok rfl hv hp
    refine ⟨p, hp, ?_⟩
    rw [List.foldlM_cons]
    exact congrArg (· >>= _) hcase
  | @toNext e e' x xs hx hnext hrest ih =>
    obtain ⟨version, table, hok⟩ := exists_enumConverter hplan hx
    -- a converter follows, so the value is taken to the next version
    obtain ⟨n, hn⟩ : ∃ n, xs.length = n + 1 := by
      cases hrest <;> exact ⟨_, rfl⟩
    rw [List.length_cons, hn] at hlive
    obtain ⟨hdeprecated, hfollows⟩ : (plan.chain.value v).deprecated = false ∧
        ∀ u, (plan.chain.value v).link.next = some u → plan.chain.LiveFor n u := hlive
    obtain ⟨u, hu, hstands, hshared⟩ := hlinked.value_next hv.mem hnext hdeprecated
    obtain ⟨p, hp, hcases⟩ := ih hstands (by rw [hn]; exact hfollows u hu)
    have hcase := caseOf_down (w := plan.chain.viewOf version) hok rfl hv hu
    refine ⟨p, hshared ▸ hp, ?_⟩
    rw [List.foldlM_cons]
    exact (congrArg (· >>= _) hcase).trans hcases

/-- What the cases of a list of converters yield, the converters yield. -/
theorem convertNames_of_cases {name target : String}
    (h : xs.foldlM (fun name x => caseOf? x name) name = some target) :
    xs.foldlM (fun name x => convertName x name) name = .ok target := by
  induction xs generalizing name with
  | nil => exact congrArg _ (Option.some.inj h)
  | cons x xs ih =>
    rw [List.foldlM_cons] at h ⊢
    obtain ⟨between, hcase, hrest⟩ := Option.bind_eq_some_iff.mp h
    rw [convertName_of_case hcase]
    exact ih hrest

/-- **Hop by hop.** For every run of specified converters of an enum and its next counterparts to
    the private version, and every value that its name stands for: if no value that is taken to a
    next version is deprecated, the run yields the name of the private counterpart of the value, by
    its cases alone. -/
theorem private_of_downRun {set : DescriptorSet} {config : Config}
    (h : Plan.generate set config = .ok plan) (hrun : plan.DownRun e xs)
    (hv : plan.chain.Stands e v) (hlive : plan.chain.LiveFor (xs.length - 1) v) :
    ∃ p, (plan.chain.value v).link.final = some p ∧
      xs.foldlM (fun name x => convertName x name) (plan.chain.value v).name
        = .ok (plan.chain.value p).name ∧
      xs.foldlM (fun name x => caseOf? x name) (plan.chain.value v).name
        = some (plan.chain.value p).name := by
  obtain ⟨p, hp, hcases⟩ := cases_downRun (Plan.generated_of_generate h) hrun hv hlive
  exact ⟨p, hp, convertNames_of_cases hcases, hcases⟩

/-! ### A deprecated value -/

set_option maxRecDepth 10000 in
/-- The kinds of items of the sample, from the first version to the private one: the old kind, which
    is deprecated in the first version, becomes the first one of the second version. -/
theorem itemPlan_downRun : ∃ x y, Plan.itemPlan.DownRun ⟨0⟩ [x, y] ∧
    [x, y].foldlM (fun name x => convertName x name) "OLD" = .ok "NONE" := by
  obtain ⟨hnext, hfirst, hsecond⟩ :
      (Plan.itemPlan.chain.enumeration ⟨0⟩).link.next = some ⟨1⟩ ∧
      (Plan.itemPlan.enumConverter? 0 "ToNextKind").any (fun x => x.kind = .toNext ∧
        x.enumeration = ⟨0⟩ ∧ caseOf? x "OLD" = none ∧ x.fallback = some "NONE") = true ∧
      (Plan.itemPlan.enumConverter? 1 "ToPrivateKind").any (fun y => y.kind = .toPrivate ∧
        y.enumeration = ⟨1⟩ ∧ caseOf? y "NONE" = some "NONE") = true := by decide +kernel
  obtain ⟨x, hx, hfacts⟩ := (Option.any_eq_true _ _).mp hfirst
  obtain ⟨hkind, henum, hcase, hfallback⟩ := of_decide_eq_true hfacts
  obtain ⟨y, hy, hfacts'⟩ := (Option.any_eq_true _ _).mp hsecond
  obtain ⟨hkind', henum', hcase'⟩ := of_decide_eq_true hfacts'
  refine ⟨x, y, .toNext (Plan.specifies_of_enumConverter hx hkind henum) hnext
    (.toPrivate (Plan.specifies_of_enumConverter hy hkind' henum')), ?_⟩
  rw [List.foldlM_cons, convertName_of_fallback hcase hfallback]
  have hlast : [y].foldlM (fun name x => caseOf? x name) "NONE" = some "NONE" :=
    congrArg (· >>= _) hcase'
  exact convertNames_of_cases hlast

set_option maxRecDepth 10000 in
/-- The kind of an item that is not deprecated. -/
theorem private_sample : ∃ xs : List EnumConverter, Plan.itemPlan.DownRun ⟨0⟩ xs ∧
    ∃ p, (Plan.itemPlan.chain.value ⟨0⟩).link.final = some p ∧
    xs.foldlM (fun name x => convertName x name) (Plan.itemPlan.chain.value ⟨0⟩).name
      = .ok (Plan.itemPlan.chain.value p).name ∧
    xs.foldlM (fun name x => caseOf? x name) (Plan.itemPlan.chain.value ⟨0⟩).name
      = some (Plan.itemPlan.chain.value p).name := by
  obtain ⟨hstands, hlive⟩ : Plan.itemPlan.chain.Stands ⟨0⟩ ⟨0⟩ ∧
      (Plan.itemPlan.chain.value ⟨0⟩).deprecated = false := by decide +kernel
  obtain ⟨x, y, hrun, -⟩ := itemPlan_downRun
  exact ⟨[x, y], hrun, private_of_downRun Plan.generate_itemSet hrun hstands
    ⟨hlive, fun _ _ => True.intro⟩⟩

set_option maxRecDepth 10000 in
/-- A deprecated value that is taken to the next version does not become its private counterpart. -/
theorem not_private_of_deprecated : Plan.generate Plan.itemSet {} = .ok Plan.itemPlan ∧
    ∃ xs : List EnumConverter, Plan.itemPlan.DownRun ⟨0⟩ xs ∧
      ⟨1⟩ ∈ (Plan.itemPlan.chain.enumeration ⟨0⟩).values ∧
      ∃ p, (Plan.itemPlan.chain.value ⟨1⟩).link.final = some p ∧
        xs.foldlM (fun name x => convertName x name) (Plan.itemPlan.chain.value ⟨1⟩).name
          ≠ .ok (Plan.itemPlan.chain.value p).name := by
  obtain ⟨hmem, hname, hfinal, hother⟩ :
      ⟨1⟩ ∈ (Plan.itemPlan.chain.enumeration ⟨0⟩).values ∧
      (Plan.itemPlan.chain.value ⟨1⟩).name = "OLD" ∧
      (Plan.itemPlan.chain.value ⟨1⟩).link.final = some ⟨4⟩ ∧
      (Plan.itemPlan.chain.value ⟨4⟩).name ≠ "NONE" := by decide +kernel
  obtain ⟨x, y, hrun, hyields⟩ := itemPlan_downRun
  refine ⟨Plan.generate_itemSet, [x, y], hrun, hmem, ⟨4⟩, hfinal, fun heq => hother ?_⟩
  rw [hname, hyields] at heq
  exact (Except.ok.inj heq).symm

end Service

end Lineage
