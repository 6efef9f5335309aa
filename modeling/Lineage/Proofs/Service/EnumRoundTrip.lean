import Lineage.Proofs.Converter.Holders
import Lineage.Proofs.Service.EnumRun

namespace Lineage

/-!
# Enum values down and up again

The converters of an enum down to a counterpart and up from it are made separately, from the same
delegates.

* `Chain.Linked.delegateIn_next`, `View.downLink_eq` — the counterpart that a converter down has a
  case for is the delegate in the enum that the converter is against,
* `View.counterpart_eq_iff`, `View.facesNext_eq_iff` — which converters of one enum are against one
  counterpart,
* `Service.caseOf?_down`, `Service.caseOf?_up` — a value goes down to its delegate, and what comes
  up becomes the value that holds it,
* `Service.RoundTrips` — the law, `Service.roundTrips_of_generate` — it holds in every plan that is
  generated.
-/

namespace Chain

variable {c : Chain} {source : EnumId} {values : List ValueId}

/-- A delegate is the delegate of some first value. -/
theorem exists_delegator {v d : ValueId} (hv : v ∈ values) (hd : c.delegateIn source v = some d) :
    ∃ u, c.delegator source values d = some u := by
  refine Option.isSome_iff_exists.mp (List.find?_isSome.mpr ⟨v, hv, ?_⟩)
  simp [hd]

/-- If no earlier value has its delegate, a value is the first one with it. -/
theorem delegator_of_first {before rest : List ValueId} {v d : ValueId}
    (hd : c.delegateIn source v = some d) (hfirst : ∀ u ∈ before, c.delegateIn source u ≠ some d) :
    c.delegator source (before ++ v :: rest) d = some v := by
  have hnone : before.find? (fun u => c.delegateIn source u == some d) = none :=
    List.find?_eq_none.mpr fun u hu => by simpa using hfirst u hu
  rw [delegator, List.find?_append, hnone, Option.none_or, List.find?_cons_of_pos (by simp [hd])]

/-- Some value holds a value exactly if that is a delegate or named by an annotation. -/
theorem exists_holdsValue_iff {s : ValueId} : (∃ p, c.HoldsValue source values p s) ↔
    ∃ v ∈ values, c.delegateIn source v = some s ∨ s ∈ c.mentioned source v := by
  constructor
  · rintro ⟨p, hd | ⟨-, hp, hs⟩⟩
    · obtain ⟨hp, hdelegate⟩ := delegateIn_of_delegator hd
      exact ⟨p, hp, .inl hdelegate⟩
    · exact ⟨p, hp, .inr hs⟩
  · rintro ⟨v, hv, hd | hs⟩
    · obtain ⟨u, hu⟩ := exists_delegator hv hd
      exact ⟨u, .inl hu⟩
    · cases hd : c.delegator source values s with
      | some u => exact ⟨u, .inl hd⟩
      | none => exact ⟨v, .inr ⟨hd, hv, hs⟩⟩

/-- The delegate of a value in the next counterpart of its enum is its next counterpart. -/
theorem Linked.delegateIn_next {count : Nat} (h : c.Linked count) {e : EnumId}
    (hnext : (c.enumeration e).link.next = some source) {v : ValueId}
    (hv : v ∈ (c.enumeration e).values) : c.delegateIn source v = (c.value v).link.next := by
  have hpublic : (c.enumeration e).version.index + 1 < count :=
    h.public_of_leads (n := .enumeration e) (leads_links_enumeration (.inl hnext))
  have hlink : (c.links (.enumeration e)).next = some (.enumeration source) := by
    simp [links, hnext]
  have hpublicSource : (c.version (c.enumeration source).version).isPrivate = false :=
    h.next_not_private hlink
  unfold delegateIn
  dsimp only
  rw [if_neg (by simp [hpublicSource])]
  cases hd : (c.value v).deprecated with
  | true => rw [h.value_next_of_deprecated hv hpublic hd, Option.filter_none]
  | false =>
    obtain ⟨u, hu, hstands, -⟩ := h.value_next hv hnext hd
    have hsource := ((h.framed.wellFormed.mem_values source u).mp hstands.mem).2
    rw [hu, Option.filter_some, if_pos (by simpa using hsource)]

end Chain

namespace View

variable {w : View} {count : Nat} {kind : ConverterKind} {e : EnumId} {x : EnumConverter}
  {table : Option ReceiveTable}

/-- What a converter down has a case for goes to the delegate in the converter's counterpart. -/
theorem downLink_eq (h : w.chain.Linked count) (hok : w.enumConverter kind e = .ok (x, table))
    (hdown : kind.isDown) {v : ValueId} (hv : v ∈ (w.chain.enumeration e).values) :
    downLink kind (w.chain.value v).link = w.chain.delegateIn x.counterpart v := by
  obtain ⟨-, -, -, hside⟩ := enumConverter_eq_ok hok
  cases kind with
  | toNext => exact (h.delegateIn_next hside hv).symm
  | toPrivate => exact (h.delegateIn_final hside hv).symm
  | toPublic | toDeprecatedPublic => cases hdown

/-- Two converters of an enum have one counterpart exactly if they work against the same version. -/
theorem counterpart_eq_iff (h : w.chain.Linked count) {kind' : ConverterKind} {y : EnumConverter}
    {table' : Option ReceiveTable} (hx : w.enumConverter kind e = .ok (x, table))
    (hy : w.enumConverter kind' e = .ok (y, table')) :
    x.counterpart = y.counterpart ↔ w.facesNext kind = w.facesNext kind' := by
  obtain ⟨-, -, -, hside⟩ := enumConverter_eq_ok hx
  obtain ⟨-, -, -, hside'⟩ := enumConverter_eq_ok hy
  -- the next counterpart of an enum is not the private one
  have hne : ∀ {s t}, (w.chain.enumeration e).link.next = some s →
      (w.chain.enumeration e).link.final = some t → s ≠ t := fun {s t} hs ht heq => by
    have hlink : (w.chain.links (.enumeration e)).next = some (.enumeration s) := by
      simp [Chain.links, hs]
    have hpublic : (w.chain.version (w.chain.enumeration s).version).isPrivate = false :=
      h.next_not_private hlink
    rw [heq, h.enum_final_isPrivate ht] at hpublic
    cases hpublic
  unfold side at hside hside'
  cases hfirst : w.facesNext kind <;> cases hsecond : w.facesNext kind' <;>
    simp only [hfirst, hsecond] at hside hside' ⊢
  · exact iff_of_true (Option.some.inj (hside.symm.trans hside')) True.intro
  · exact iff_of_false (fun heq => hne hside' hside heq.symm) Bool.false_ne_true
  · exact iff_of_false (fun heq => hne hside hside' heq) (Ne.symm Bool.false_ne_true)
  · exact iff_of_true (Option.some.inj (hside.symm.trans hside')) True.intro

/-- A converter down and one up work against the same version exactly if they lead to and from the
    next version, or to and from the private one. -/
theorem facesNext_eq_iff {kind' : ConverterKind} (hdown : kind.isDown)
    (hup : kind'.isDown = false) :
    w.facesNext kind = w.facesNext kind' ↔
      kind = .toNext ∧ kind' = .toPublic ∧ w.isLatest = false ∨
      kind = .toPrivate ∧ kind' = .toPublic ∧ w.isLatest = true ∨
      kind = .toPrivate ∧ kind' = .toDeprecatedPublic := by
  have hnext : w.facesNext .toNext = true := rfl
  have hprivate : w.facesNext .toPrivate = false := rfl
  have hpublic : w.facesNext .toPublic = !w.isLatest := rfl
  have hdeprecated : w.facesNext .toDeprecatedPublic = false := rfl
  cases kind <;> cases kind' <;> simp_all [ConverterKind.isDown]

end View

namespace Service

variable {w : View} {count : Nat} {kind : ConverterKind} {e : EnumId} {x : EnumConverter}
  {table : Option ReceiveTable}

/-! ### Cases -/

/-- If no name has two cases, the case for a name is the one that there is. -/
theorem caseOf?_eq_some (h : (x.cases.map (·.source)).Nodup) {name target : String} :
    caseOf? x name = some target ↔ ∃ k ∈ x.cases, k.source = name ∧ k.target = target :=
  find?_map_eq_some h

/-- A converter down has a case for a value exactly if it has a delegate, and takes it there. -/
theorem caseOf?_down (h : w.chain.Linked count) (hunique : w.chain.UniqueValues)
    (hok : w.enumConverter kind e = .ok (x, table)) (hdown : kind.isDown) {v : ValueId}
    (hv : v ∈ (w.chain.enumeration e).values) : caseOf? x (w.chain.value v).name =
      (w.chain.delegateIn x.counterpart v).map fun d => (w.chain.value d).name := by
  have hlink := View.downLink_eq h hok hdown hv
  cases hd : w.chain.delegateIn x.counterpart v with
  | some d =>
    rw [hd] at hlink
    exact caseOf_down hok hdown (hunique.stands hv) hlink
  | none =>
    -- a case under its name would be one of the value
    rw [hd] at hlink
    rw [Option.map_none, caseOf?, Option.map_eq_none_iff, List.find?_eq_none,
      (View.enumConverter_down hok hdown).1]
    intro k hk hname
    obtain ⟨y, hy, hyk⟩ := List.mem_filterMap.mp hk
    obtain ⟨u, hu, rfl⟩ := List.mem_map.mp hy
    obtain ⟨t, ht, rfl⟩ := Option.map_eq_some_iff.mp hyk
    obtain rfl := List.inj_on_of_nodup_map (hunique.nodup e) hu hv (by simpa using hname)
    cases hlink.symm.trans ht

/-- An entry of a table names a value of the counterpart and the value that holds it. -/
theorem entry_of_receivers (h : w.chain.Linked count) {source : EnumId} {t : ReceiveTable}
    (ht : w.chain.receivers e source = .ok t) {r : Receive} (hr : r ∈ t.entries) :
    r.source ∈ (w.chain.enumeration source).values ∧ r.sourceName = (w.chain.value r.source).name ∧
      r.targetName = (w.chain.value r.target).name := by
  obtain ⟨claims, hclaims, -, hentries⟩ :=
    Chain.receivers_eq_ok (fun _ _ _ hd => h.mem_of_delegateIn hd) ht
  rw [hentries] at hr
  obtain ⟨v, -, hr⟩ := List.mem_flatMap.mp hr
  obtain ⟨k, hk, rfl⟩ := List.mem_map.mp hr
  exact ⟨hclaims.inside k (List.mem_filter.mp hk).1, rfl, rfl⟩

/-- A converter up takes a value of its counterpart to the value that holds it, if there is one. -/
theorem caseOf?_up (h : w.chain.Linked count) (hunique : w.chain.UniqueValues)
    (hok : w.enumConverter kind e = .ok (x, table)) (hup : kind.isDown = false) {s : ValueId}
    (hs : s ∈ (w.chain.enumeration x.counterpart).values) {target : String} :
    caseOf? x (w.chain.value s).name = some target ↔
      ∃ p, w.chain.HoldsValue x.counterpart (w.chain.enumeration e).values p s ∧
        (w.chain.value p).name = target := by
  obtain ⟨t, ht, -, -, hcases⟩ := View.enumConverter_up hok hup
  have hreceives : w.chain.Receives e x.counterpart t := Chain.receives_of_receivers
    (fun _ _ _ hd => h.mem_of_delegateIn hd)
    (Chain.nodup_of_pairwise (h.framed.wellFormed.pairwise_values e)) ht
  -- names stand for values, so that no name has two cases
  have hname : ∀ {r s}, r ∈ t.entries → s ∈ (w.chain.enumeration x.counterpart).values →
      (r.sourceName = (w.chain.value s).name ↔ r.source = s) := fun hr hs => by
    obtain ⟨hmem, hsource, -⟩ := entry_of_receivers h ht hr
    rw [hsource]
    exact ⟨List.inj_on_of_nodup_map (hunique.nodup _) hmem hs, fun heq => heq ▸ rfl⟩
  have honce : (x.cases.map (·.source)).Nodup := by
    rw [hcases, List.map_map]
    refine List.Nodup.map_on (fun r hr r' hr' hsame => ?_) (List.Nodup.of_map _ hreceives.once)
    obtain ⟨hmem', hsource', -⟩ := entry_of_receivers h ht hr'
    exact List.inj_on_of_nodup_map hreceives.once hr hr'
      ((hname hr hmem').mp (hsame.trans hsource'))
  simp only [← hreceives.lookup, ReceiveTable.lookup, find?_map_eq_some hreceives.once]
  rw [caseOf?_eq_some honce, hcases]
  constructor
  · rintro ⟨k, hk, hsource, rfl⟩
    obtain ⟨r, hr, rfl⟩ := List.mem_map.mp hk
    exact ⟨r.target, ⟨r, hr, (hname hr hs).mp hsource, rfl⟩, (entry_of_receivers h ht hr).2.2.symm⟩
  · rintro ⟨p, ⟨r, hr, hsource, rfl⟩, rfl⟩
    exact ⟨_, List.mem_map_of_mem hr, (hname hr hs).mpr hsource, (entry_of_receivers h ht hr).2.2⟩

/-- What there is neither a case nor a fallback for is refused. -/
theorem convertName_eq_error {name : String} (hfallback : x.fallback = none) {status : Status} :
    convertName x name = .error status ↔ caseOf? x name = none ∧
      status = ⟨.failedPrecondition, "unexpected value " ++ name ++ " in " ++ x.function⟩ := by
  unfold convertName caseOf?
  rw [hfallback, Option.or_none]
  cases (x.cases.find? (·.source == name)).map (·.target) <;> simp [eq_comm]

/-! ### The round trip -/

/-- A converter down and one up, of one enum and against one counterpart, undo each other as far as
    the delegates of values are different. -/
structure RoundTrips (c : Chain) (x y : EnumConverter) : Prop where
  /-- A value that has a case goes down to its delegate, which comes up as the first value with that
      delegate. -/
  first : ∀ v ∈ (c.enumeration x.enumeration).values, (caseOf? x (c.value v).name).isSome →
    ∃ d u, c.delegateIn x.counterpart v = some d ∧
      c.delegator x.counterpart (c.enumeration x.enumeration).values d = some u ∧
      convertName x (c.value v).name = .ok (c.value d).name ∧
      convertName y (c.value d).name = .ok (c.value u).name
  /-- A value that has a case comes back, if no earlier value has its delegate. -/
  own : ∀ before v rest, (c.enumeration x.enumeration).values = before ++ v :: rest →
    (caseOf? x (c.value v).name).isSome →
    (∀ u ∈ before, c.delegateIn x.counterpart u ≠ c.delegateIn x.counterpart v) →
    ∃ name, convertName x (c.value v).name = .ok name ∧ convertName y name = .ok (c.value v).name
  /-- A value of the counterpart is refused exactly if it is neither a delegate nor named by an
      annotation. -/
  refused : ∀ s ∈ (c.enumeration x.counterpart).values,
    ((∃ status, convertName y (c.value s).name = .error status) ↔
      ∀ v ∈ (c.enumeration x.enumeration).values,
        c.delegateIn x.counterpart v ≠ some s ∧ s ∉ c.mentioned x.counterpart v)
  precondition :
    ∀ name status, convertName y name = .error status → status.code = .failedPrecondition
  /-- A delegate that comes up goes down to itself. -/
  kept : ∀ s, ∀ v ∈ (c.enumeration x.enumeration).values, c.delegateIn x.counterpart v = some s →
    ∃ name, convertName y (c.value s).name = .ok name ∧ convertName x name = .ok (c.value s).name

/-- The converters of an enum down and up, against one counterpart, take its values back
    and forth. -/
theorem roundTrips_of_enumConverter (h : w.chain.Linked count) (hunique : w.chain.UniqueValues)
    {kind' : ConverterKind} {y : EnumConverter} {table' : Option ReceiveTable}
    (hx : w.enumConverter kind e = .ok (x, table)) (hdown : kind.isDown)
    (hy : w.enumConverter kind' e = .ok (y, table')) (hup : kind'.isDown = false)
    (hsame : x.counterpart = y.counterpart) : RoundTrips w.chain x y := by
  obtain ⟨rfl, -⟩ := View.enumConverter_eq_ok hx
  obtain ⟨-, -, hfallback, -⟩ := (View.enumConverter_up hy hup).choose_spec
  have hmem : ∀ {v d}, w.chain.delegateIn x.counterpart v = some d →
      d ∈ (w.chain.enumeration x.counterpart).values := fun hd => h.mem_of_delegateIn hd
  have hdelegate : ∀ {v d}, v ∈ (w.chain.enumeration x.enumeration).values →
      w.chain.delegateIn x.counterpart v = some d →
      convertName x (w.chain.value v).name = .ok (w.chain.value d).name := fun hv hd =>
    convertName_of_case (by rw [caseOf?_down h hunique hx hdown hv, hd, Option.map_some])
  have hcase : ∀ {s target}, s ∈ (w.chain.enumeration x.counterpart).values →
      (caseOf? y (w.chain.value s).name = some target ↔
        ∃ p, w.chain.HoldsValue x.counterpart (w.chain.enumeration x.enumeration).values p s ∧
          (w.chain.value p).name = target) := fun hs => by
    rw [hsame] at hs ⊢
    exact caseOf?_up h hunique hy hup hs
  have hholds : ∀ {p s}, s ∈ (w.chain.enumeration x.counterpart).values →
      w.chain.HoldsValue x.counterpart (w.chain.enumeration x.enumeration).values p s →
      convertName y (w.chain.value s).name = .ok (w.chain.value p).name := fun hs hp =>
    convertName_of_case ((hcase hs).mpr ⟨_, hp, rfl⟩)
  have hsome : ∀ {v}, v ∈ (w.chain.enumeration x.enumeration).values →
      (caseOf? x (w.chain.value v).name).isSome →
          ∃ d, w.chain.delegateIn x.counterpart v = some d :=
    fun hv hcase => by
      rw [caseOf?_down h hunique hx hdown hv, Option.isSome_map] at hcase
      exact Option.isSome_iff_exists.mp hcase
  constructor
  case first =>
    intro v hv hisSome
    obtain ⟨d, hd⟩ := hsome hv hisSome
    obtain ⟨u, hu⟩ := Chain.exists_delegator hv hd
    exact ⟨d, u, hd, hu, hdelegate hv hd, hholds (hmem hd) (.inl hu)⟩
  case own =>
    intro before v rest hvalues hisSome hfirst
    have hv : v ∈ (w.chain.enumeration x.enumeration).values := by simp [hvalues]
    obtain ⟨d, hd⟩ := hsome hv hisSome
    rw [hd] at hfirst
    refine ⟨_, hdelegate hv hd, hholds (hmem hd) (.inl ?_)⟩
    rw [hvalues]
    exact Chain.delegator_of_first hd hfirst
  case refused =>
    intro s hs
    have hnone : (∃ status, convertName y (w.chain.value s).name = .error status) ↔
        ¬ ∃ p, w.chain.HoldsValue x.counterpart (w.chain.enumeration x.enumeration).values p s := by
      simp only [convertName_eq_error hfallback, exists_and_left, exists_eq, and_true,
        Option.eq_none_iff_forall_ne_some, ne_eq, hcase hs]
      exact ⟨fun hall ⟨p, hp⟩ => hall _ ⟨p, hp, rfl⟩, fun hnot target ⟨p, hp, _⟩ => hnot ⟨p, hp⟩⟩
    rw [hnone, Chain.exists_holdsValue_iff]
    push Not
    rfl
  case precondition =>
    intro name status herror
    rw [((convertName_eq_error hfallback).mp herror).2]
  case kept =>
    intro s v hv hd
    obtain ⟨u, hu⟩ := Chain.exists_delegator hv hd
    obtain ⟨hmember, hdu⟩ := Chain.delegateIn_of_delegator hu
    exact ⟨_, hholds (hmem hd) (.inl hu), hdelegate hmember hdu⟩

/-- **Round trip of enum values.** In a plan that is generated, where the values of each enum have
    different names, take a converter of an enum down and one up, both of one version.  They are
    against one counterpart exactly if they lead to and from the next version, or to and from the
    private one; and if they are, every value that has a case comes back as the first one with its
    delegate, what comes up is refused exactly if no value holds it, and delegates come down again
    as they were. -/
theorem roundTrips_of_generate {set : DescriptorSet} {config : Config} {plan : Plan}
    (h : Plan.generate set config = .ok plan) (hunique : plan.chain.UniqueValues)
    {vp : VersionPlan} (hvp : vp ∈ plan.versions) {f g : String} {x y : EnumConverter}
    (hx : vp.converter? f = some (.enumeration x)) (hy : vp.converter? g = some (.enumeration y))
    (hdown : x.kind.isDown) (hup : y.kind.isDown = false) (henum : x.enumeration = y.enumeration) :
    (x.counterpart = y.counterpart ↔
      x.kind = .toNext ∧ y.kind = .toPublic ∧ (plan.chain.version vp.version).isLatest = false ∨
      x.kind = .toPrivate ∧ y.kind = .toPublic ∧ (plan.chain.version vp.version).isLatest = true ∨
      x.kind = .toPrivate ∧ y.kind = .toDeprecatedPublic) ∧
    (x.counterpart = y.counterpart → RoundTrips plan.chain x y) := by
  have hplan := Plan.generated_of_generate h
  obtain ⟨v, hid, hspecified⟩ := hplan.exists_specified hvp
  obtain ⟨-, table, hok⟩ := hspecified f _ (Sorted.mem_of_get? hx)
  obtain ⟨-, table', hok'⟩ := hspecified g _ (Sorted.mem_of_get? hy)
  obtain ⟨_, heq, hconverter⟩ := View.converter_of_enumeration hok
  obtain rfl := Converter.enumeration.inj heq
  obtain ⟨_, heq', hconverter'⟩ := View.converter_of_enumeration hok'
  obtain rfl := Converter.enumeration.inj heq'
  rw [← henum] at hconverter'
  rw [← hid]
  exact ⟨(View.counterpart_eq_iff (w := plan.chain.viewOf v) hplan.linked hconverter
      hconverter').trans
      (View.facesNext_eq_iff hdown hup),
    roundTrips_of_enumConverter (w := plan.chain.viewOf v) hplan.linked hunique hconverter hdown
      hconverter' hup⟩

/-! ### A sample -/

/-- The plan of the kinds. -/
def kindPlan : Plan := (Plan.generate Chain.kindSet {}).toOption.getD {}

/-- Two converters of the kinds in one version plan, against one counterpart: two kinds go down to
    one value, which comes up as the first of them, and one value is received by nobody. -/
def kindsRoundTrip (vp : VersionPlan) : Bool :=
  match vp.converter? "ToPrivateKind", vp.converter? "ToPublicKind" with
  | some (.enumeration x), some (.enumeration y) =>
    x.kind == .toPrivate && y.kind == .toPublic && x.enumeration == y.enumeration &&
      x.counterpart == y.counterpart && caseOf? x "A" == some "X" && caseOf? x "B" == some "X" &&
      caseOf? y "X" == some "A" && caseOf? y "Z" == some "C" && (caseOf? y "D").isNone
  | _, _ => false

set_option maxRecDepth 10000 in
/-- What is checked of the sample by evaluation. -/
theorem kindPlan_checked : (Plan.generate Chain.kindSet {}).toOption.isSome = true ∧
    kindPlan.chain.UniqueValues ∧ kindPlan.versions.any kindsRoundTrip = true := by decide +kernel

/-- The kinds down and up again. -/
theorem roundTrips_kind :
    Plan.generate Chain.kindSet {} = .ok kindPlan ∧ kindPlan.chain.UniqueValues ∧
    ∃ vp ∈ kindPlan.versions, ∃ x y, vp.converter? "ToPrivateKind" = some (.enumeration x) ∧
      vp.converter? "ToPublicKind" = some (.enumeration y) ∧ x.kind = .toPrivate ∧
        y.kind = .toPublic ∧
      x.enumeration = y.enumeration ∧ x.counterpart = y.counterpart ∧
        RoundTrips kindPlan.chain x y ∧
      convertName x "B" = .ok "X" ∧ convertName y "X" = .ok "A" := by
  obtain ⟨hsome, hunique, hany⟩ := kindPlan_checked
  have hplan := Plan.eq_ok_of_isSome hsome
  obtain ⟨vp, hvp, htrip⟩ := List.any_eq_true.mp hany
  unfold kindsRoundTrip at htrip
  split at htrip
  · rename_i x y hx hy
    simp only [Bool.and_eq_true, beq_iff_eq] at htrip
    obtain ⟨⟨⟨⟨⟨⟨⟨⟨hkind, hkind'⟩, henum⟩, hsame⟩, -⟩, hdown⟩, hup⟩, -⟩, -⟩ := htrip
    obtain ⟨-, htrips⟩ := roundTrips_of_generate hplan hunique hvp hx hy (by rw [hkind]; rfl)
      (by rw [hkind']; rfl) henum
    exact ⟨hplan, hunique, vp, hvp, x, y, hx, hy, hkind, hkind', henum, hsame, htrips hsame,
      convertName_of_case hdown, convertName_of_case hup⟩
  · cases htrip

end Service

end Lineage
