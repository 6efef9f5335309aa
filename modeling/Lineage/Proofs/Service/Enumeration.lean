import Lineage.Proofs.Chain.Counterpart
import Lineage.Proofs.Converter.Receive
import Lineage.Proofs.Plan.Provided

namespace Lineage

/-!
# Enum values

* `Chain.Stands` — a value that its name stands for in its enum,
* `Chain.Linked.value_next`, `Chain.Linked.value_final` — the counterparts of a value lie in those
  of its enum, and there is a next one unless the value is deprecated,
* `Service.caseOf?` — the case that a converter has for a name; `Service.convertName_of_case` — it
  is what counts,
* `Service.exists_convertName` — a converter that leads down converts every name,
* `Service.caseOf_down` — a converter that leads down has the counterpart's name in the case of a
  value, `Service.convertName_of_deprecated` — it has no case for a deprecated value on the way to
  the next version,
* `Service.caseOf_up` — a converter that leads up from the private version has the value's name in
  the case of its private counterpart, if that is no other value's.
-/

/-! ### Values and their counterparts -/

namespace Chain

variable {c : Chain} {count : Nat}

/-- A value of an enum is the one that its name stands for: the first of that name. -/
def Stands (c : Chain) (e : EnumId) (v : ValueId) : Prop := c.findValue e (c.value v).name = some v

instance (c : Chain) (e : EnumId) (v : ValueId) : Decidable (c.Stands e v) :=
  inferInstanceAs (Decidable (_ = _))

/-- A value that stands is one of the enum. -/
theorem Stands.mem {e : EnumId} {v : ValueId} (h : c.Stands e v) : v ∈ (c.enumeration e).values :=
  List.mem_of_find?_eq_some h

/-- What is found by a name stands for it. -/
theorem stands_of_findValue {e : EnumId} {v : ValueId} {name : String}
    (h : c.findValue e name = some v) : (c.value v).name = name ∧ c.Stands e v := by
  have hname : (c.value v).name = name := by simpa using List.find?_some h
  exact ⟨hname, by rw [Stands, hname]; exact h⟩

/-- The values of each enum have different names. -/
def UniqueValues (c : Chain) : Prop :=
  ∀ e ∈ c.enums, (e.values.map fun v => (c.value v).name).Nodup

instance : Decidable c.UniqueValues := inferInstanceAs (Decidable (∀ e ∈ c.enums, _))

/-- The values of an enum have different names. -/
theorem UniqueValues.nodup (h : c.UniqueValues) (e : EnumId) :
    ((c.enumeration e).values.map fun v => (c.value v).name).Nodup :=
  forall_getD (d := default) h List.nodup_nil e.index

/-- If names are different, every value stands for its own. -/
theorem UniqueValues.stands (h : c.UniqueValues) {e : EnumId} {v : ValueId}
    (hv : v ∈ (c.enumeration e).values) : c.Stands e v := by
  unfold Stands findValue
  cases hfind : (c.enumeration e).values.find? fun x => (c.value x).name == (c.value v).name with
  | none =>
    have hnone := List.find?_eq_none.mp hfind v hv
    simp at hnone
  | some u =>
    have hname : (c.value u).name = (c.value v).name := by simpa using List.find?_some hfind
    rw [List.inj_on_of_nodup_map (h.nodup e) (List.mem_of_find?_eq_some hfind) hv hname]

namespace Linked

variable (h : c.Linked count) {e e' : EnumId} {v : ValueId} (hv : v ∈ (c.enumeration e).values)
include h hv

/-- A value of a public enum is coherent. -/
theorem value_coherent (hpublic : (c.enumeration e).version.index + 1 < count) :
    c.Coherent (.value v) := by
  obtain ⟨hlt, henum⟩ := (h.framed.wellFormed.mem_values e v).mp hv
  exact h.coherent (n := .value v) hlt (by rw [versionOf, henum]; exact hpublic)

/-- A value of a public enum has a private counterpart. -/
theorem value_final (hpublic : (c.enumeration e).version.index + 1 < count) :
    ∃ p, (c.value v).link.final = some p := by
  obtain ⟨q, hq, -⟩ := (h.value_coherent hv hpublic).final
  obtain ⟨p, hp, -⟩ := Option.map_eq_some_iff.mp hq
  exact ⟨p, hp⟩

/-- The private counterpart of a value is a value of that of its enum. -/
theorem value_final_mem (hfinal : (c.enumeration e).link.final = some e') {p : ValueId}
    (hp : (c.value v).link.final = some p) : p ∈ (c.enumeration e').values := by
  have hwf := h.framed.wellFormed
  obtain ⟨hlt, henum⟩ := (hwf.mem_values e v).mp hv
  have hpublic : (c.enumeration e).version.index + 1 < count :=
    h.public_of_leads (n := .enumeration e) (leads_links_enumeration (.inr hfinal))
  have hc := h.value_coherent hv hpublic
  have hlink : (c.links (.value v)).final = some (.value p) := by simp [links, hp]
  obtain ⟨q, hq, -, hmem, -⟩ := hc.final
  obtain rfl := Option.some.inj (hlink.symm.trans hq)
  have howner := hc.mem_owners_final (o := .enumeration e) (p := .enumeration e')
    (by simp [owners, henum]) hlink (by simp [links, hfinal])
  have hinside : (c.value p).enumeration = e' := by simpa [owners, eq_comm] using howner
  exact (hwf.mem_values e' p).mpr ⟨((hwf.mem_nodesOf _ _).mp hmem).1, hinside⟩

/-- A value that is not deprecated has a next counterpart in that of its enum, which its name stands
    for and which has the same private counterpart. -/
theorem value_next (hnext : (c.enumeration e).link.next = some e')
    (hlive : (c.value v).deprecated = false) :
    ∃ u, (c.value v).link.next = some u ∧ c.Stands e' u ∧
      (c.value u).link.final = (c.value v).link.final := by
  obtain ⟨hlt, henum⟩ := (h.framed.wellFormed.mem_values e v).mp hv
  have hpublic : (c.enumeration e).version.index + 1 < count :=
    h.public_of_leads (n := .enumeration e) (leads_links_enumeration (.inl hnext))
  -- the link is what the resolver would find again, and a live value is looked up in the next enum
  obtain ⟨l, hl, hlinks⟩ := h.stable (.value v) hlt (by rw [versionOf, henum]; exact hpublic)
  obtain ⟨link, hlink, rfl⟩ := map_eq_ok.mp hl
  have hbypass : c.valueBypasses (c.value v) = false := by
    simp [valueBypasses, hlive, henum, hnext]
  have htarget : c.valueTarget (c.value v) = some e' := by
    rw [valueTarget, hbypass, henum, ← hnext]
    rfl
  obtain ⟨hnone, -⟩ | ⟨target, u, hsome, hfind, rfl⟩ := valueLink_eq_ok.mp hlink
  · cases htarget.symm.trans hnone
  · obtain rfl := Option.some.inj (htarget.symm.trans hsome)
    rw [hbypass] at hlinks
    have hinj : ∀ a b : ValueId, Node.value a = .value b → a = b := fun _ _ => Node.value.inj
    have hown : (c.value v).link = { next := some u, final := (c.value u).link.final } :=
      Link.map_inj hinj hlinks
    exact ⟨u, by rw [hown], (stands_of_findValue hfind).2, by rw [hown]⟩

/-- A deprecated value has no next counterpart. -/
theorem value_next_of_deprecated (hpublic : (c.enumeration e).version.index + 1 < count)
    (hdeprecated : (c.value v).deprecated) : (c.value v).link.next = none := by
  have hiff := (h.value_coherent hv hpublic).next_isSome
  have hbypass : c.bypasses (.value v) = true := by simp [bypasses, isDeprecated, hdeprecated]
  rw [hbypass] at hiff
  have hnot : ¬((c.value v).link.next.map Node.value).isSome := fun hsome => by
    cases (hiff.mp hsome).2
  simpa using hnot

end Linked

/-- The private counterpart of an enum is one of the private version. -/
theorem Linked.enum_final_isPrivate (h : c.Linked count) {e e' : EnumId}
    (hfinal : (c.enumeration e).link.final = some e') :
    (c.version (c.enumeration e').version).isPrivate := by
  have hleads : (c.links (.enumeration e)).Leads (.enumeration e') :=
    leads_links_enumeration (.inr hfinal)
  obtain ⟨q, hq, -, -, hprivate⟩ :=
    (h.coherent (has_of_leads hleads) (h.public_of_leads hleads)).final
  obtain rfl : .enumeration e' = q := by simpa [links, hfinal] using hq
  exact hprivate

/-- The delegate of a value in the private counterpart of its enum is its private counterpart. -/
theorem Linked.delegateIn_final (h : c.Linked count) {e e' : EnumId}
    (hfinal : (c.enumeration e).link.final = some e') {v : ValueId}
    (hv : v ∈ (c.enumeration e).values) : c.delegateIn e' v = (c.value v).link.final := by
  unfold delegateIn
  dsimp only
  rw [if_pos (h.enum_final_isPrivate hfinal)]
  cases hp : (c.value v).link.final with
  | none => rfl
  | some p =>
    have hmem := h.value_final_mem hv hfinal hp
    rw [Option.filter_some, if_pos]
    simpa using ((h.framed.wellFormed.mem_values e' p).mp hmem).2

end Chain

namespace View

variable {w : View}

/-- The cases and the fallback of an enum converter that leads down. -/
theorem enumConverter_down {kind : ConverterKind} {id : EnumId} {x : EnumConverter}
    {table : Option ReceiveTable} (hok : w.enumConverter kind id = .ok (x, table))
    (hdown : kind.isDown) :
    x.cases = ((w.chain.enumeration id).values.map w.chain.value).filterMap (w.downCase kind) ∧
      x.fallback = (w.chain.enumeration x.counterpart).values.head?.map
        fun v => (w.chain.value v).name := by
  unfold enumConverter at hok
  dsimp only at hok
  obtain ⟨counterpart, -, hok⟩ := bind_eq_ok.mp hok
  rw [if_pos hdown] at hok
  obtain ⟨rfl, -⟩ := Prod.mk.inj (pure_eq_ok.mp hok)
  exact ⟨rfl, rfl⟩

/-- The cases of an enum converter that leads up follow the receive table of its counterpart. -/
theorem enumConverter_up {kind : ConverterKind} {id : EnumId} {x : EnumConverter}
    {table : Option ReceiveTable} (hok : w.enumConverter kind id = .ok (x, table))
    (hup : kind.isDown = false) : ∃ t, w.chain.receivers id x.counterpart = .ok t ∧
      table = some t ∧ x.fallback = none ∧
      x.cases = t.entries.map fun r => { source := r.sourceName, target := r.targetName } := by
  unfold enumConverter at hok
  dsimp only at hok
  obtain ⟨counterpart, -, hok⟩ := bind_eq_ok.mp hok
  rw [if_neg (by simp [hup])] at hok
  obtain ⟨t, ht, hok⟩ := bind_eq_ok.mp hok
  obtain ⟨rfl, rfl⟩ := Prod.mk.inj (pure_eq_ok.mp hok)
  exact ⟨t, ht, rfl, rfl, rfl⟩

end View

namespace Service

variable {w : View} {kind : ConverterKind} {e : EnumId} {x : EnumConverter}
  {table : Option ReceiveTable} {v t : ValueId}

/-! ### Cases -/

/-- What an enum converter has a case for. -/
def caseOf? (x : EnumConverter) (name : String) : Option String :=
  (x.cases.find? (·.source == name)).map (·.target)

/-- What there is a case for becomes what the case says. -/
theorem convertName_of_case {name target : String} (h : caseOf? x name = some target) :
    convertName x name = .ok target := by
  unfold caseOf? at h
  rw [convertName, h]
  rfl

/-- What there is no case for becomes the fallback, if there is one. -/
theorem convertName_of_fallback {name target : String} (h : caseOf? x name = none)
    (hfallback : x.fallback = some target) : convertName x name = .ok target := by
  unfold caseOf? at h
  rw [convertName, h, hfallback]
  rfl

/-- A converter that leads down to an enum with values converts every name, by its case or to the
    fallback. -/
theorem exists_convertName (hok : w.enumConverter kind e = .ok (x, table)) (hdown : kind.isDown)
    (hvalues : (w.chain.enumeration x.counterpart).values ≠ []) (name : String) :
    ∃ target, convertName x name = .ok target ∧
      (caseOf? x name = some target ∨ caseOf? x name = none ∧ x.fallback = some target) := by
  cases hcase : caseOf? x name with
  | some target => exact ⟨target, convertName_of_case hcase, .inl rfl⟩
  | none =>
    obtain ⟨first, rest, hfirst⟩ := List.exists_cons_of_ne_nil hvalues
    have hfallback : x.fallback = some (w.chain.value first).name := by
      rw [(View.enumConverter_down hok hdown).2, hfirst]
      rfl
    exact ⟨_, convertName_of_fallback hcase hfallback, .inr ⟨rfl, hfallback⟩⟩

/-- The case of a value is the first one under its name. -/
theorem caseOf_down (hok : w.enumConverter kind e = .ok (x, table)) (hdown : kind.isDown)
    (hv : w.chain.Stands e v) (ht : View.downLink kind (w.chain.value v).link = some t) :
    caseOf? x (w.chain.value v).name = some (w.chain.value t).name := by
  obtain ⟨-, before, rest, hvalues, hbefore⟩ := List.find?_eq_some_iff_append.mp hv
  have hcase : w.downCase kind (w.chain.value v) = some
      { source := (w.chain.value v).name, target := (w.chain.value t).name } := by
    unfold View.downCase
    rw [show (if kind == .toNext then (w.chain.value v).link.next
      else (w.chain.value v).link.final) = some t from ht]
    rfl
  rw [caseOf?, (View.enumConverter_down hok hdown).1, hvalues, List.map_append,
    List.filterMap_append, List.map_cons, List.filterMap_cons_some hcase]
  -- a case before it would be one of a value of the same name, but there is none before
  have hnone : ((before.map w.chain.value).filterMap (w.downCase kind)).find?
      (·.source == (w.chain.value v).name) = none := by
    rw [List.find?_eq_none]
    intro k hk
    obtain ⟨y, hy, hyk⟩ := List.mem_filterMap.mp hk
    obtain ⟨u, hu, rfl⟩ := List.mem_map.mp hy
    obtain ⟨_, -, rfl⟩ := Option.map_eq_some_iff.mp hyk
    have hname := hbefore u hu
    simpa using hname
  rw [List.find?_append, hnone, Option.none_or, List.find?_cons_of_pos (by simp)]
  rfl

/-- A deprecated value has no case on the way to the next version, if names are different: it
    becomes the first value that the next counterpart declares. -/
theorem convertName_of_deprecated {count : Nat} (h : w.chain.Linked count)
    (hunique : w.chain.UniqueValues) (hok : w.enumConverter .toNext e = .ok (x, table))
    (hv : v ∈ (w.chain.enumeration e).values) (hdeprecated : (w.chain.value v).deprecated)
    {first : ValueId} (hfirst : (w.chain.enumeration x.counterpart).values.head? = some first) :
    convertName x (w.chain.value v).name = .ok (w.chain.value first).name := by
  obtain ⟨hcases, hfallback⟩ := View.enumConverter_down hok rfl
  obtain ⟨-, -, -, hside⟩ := View.enumConverter_eq_ok hok
  have hpublic : (w.chain.enumeration e).version.index + 1 < count :=
    h.public_of_leads (n := .enumeration e)
      (Chain.leads_links_enumeration (View.leads_of_side hside))
  refine convertName_of_fallback ?_ (by rw [hfallback, hfirst]; rfl)
  rw [caseOf?, Option.map_eq_none_iff, List.find?_eq_none, hcases]
  intro k hk hname
  obtain ⟨y, hy, hyk⟩ := List.mem_filterMap.mp hk
  obtain ⟨u, hu, rfl⟩ := List.mem_map.mp hy
  obtain ⟨t, ht, rfl⟩ := Option.map_eq_some_iff.mp hyk
  -- only the value itself has the name
  obtain rfl := List.inj_on_of_nodup_map (hunique.nodup e) hu hv (by simpa using hname)
  have hnone := h.value_next_of_deprecated hu hpublic hdeprecated
  cases hnone.symm.trans ht

/-- **The private counterpart of a value is received as the value**, if it is no other value's and
    names are different. -/
theorem caseOf_up {count : Nat} (h : w.chain.Linked count) (hunique : w.chain.UniqueValues)
    (hok : w.enumConverter kind e = .ok (x, table)) (hup : kind.isDown = false)
    (hfinal : (w.chain.enumeration e).link.final = some x.counterpart)
    (hv : v ∈ (w.chain.enumeration e).values) {p : ValueId}
    (hp : (w.chain.value v).link.final = some p)
    (halone : ∀ u ∈ (w.chain.enumeration e).values, (w.chain.value u).link.final = some p → u = v) :
    caseOf? x (w.chain.value p).name = some (w.chain.value v).name := by
  obtain ⟨t, ht, -, -, hcases⟩ := View.enumConverter_up hok hup
  have hdelegate : ∀ u ∈ (w.chain.enumeration e).values,
      w.chain.delegateIn x.counterpart u = (w.chain.value u).link.final :=
    fun u hu => h.delegateIn_final hfinal hu
  obtain ⟨claims, hclaims, hcanonical, hentries⟩ := Chain.receivers_eq_ok
    (fun u hu d hd => h.value_final_mem hu hfinal (hdelegate u hu ▸ hd)) ht
  -- the value claims its counterpart, and so nobody else does
  have hmem : ⟨v, p, .canonical⟩ ∈ claims := hcanonical (Chain.mem_canonicalClaims hv
    ((hdelegate v hv).trans hp) fun u hu hd => halone u hu (hdelegate u hu ▸ hd))
  have hpmem := h.value_final_mem hv hfinal hp
  have hentry :
      { source := (w.chain.value p).name, target := (w.chain.value v).name } ∈ x.cases := by
    rw [hcases, hentries]
    refine List.mem_map.mpr ⟨w.chain.receiveEntry ⟨v, p, .canonical⟩, ?_, rfl⟩
    exact List.mem_flatMap.mpr ⟨v, hv, List.mem_map_of_mem (List.mem_filter.mpr ⟨hmem, by simp⟩)⟩
  -- the first case under the name comes from a claim on the counterpart, and that is the value's
  cases hfind : x.cases.find? (·.source == (w.chain.value p).name) with
  | none =>
    have hnone := List.find?_eq_none.mp hfind _ hentry
    simp at hnone
  | some k =>
    rw [caseOf?, hfind]
    have hsource : k.source = (w.chain.value p).name := by simpa using List.find?_some hfind
    have hk := List.mem_of_find?_eq_some hfind
    rw [hcases, hentries] at hk
    obtain ⟨entry, hentry', rfl⟩ := List.mem_map.mp hk
    obtain ⟨u, hu, hentry'⟩ := List.mem_flatMap.mp hentry'
    obtain ⟨claim, hclaim, rfl⟩ := List.mem_map.mp hentry'
    have hclaim := (List.mem_filter.mp hclaim).1
    have hsame : claim.source = p := List.inj_on_of_nodup_map (hunique.nodup x.counterpart)
      (hclaims.inside _ hclaim) hpmem hsource
    rw [hclaims.eq hclaim hmem hsame]
    rfl

end Service

end Lineage
