import Lineage.Proofs.Service.Trace
import Lineage.Proofs.Plan.Sample
import Mathlib.Logic.Relation

namespace Lineage

/-!
# Where nested conversions read from

Every nested converter that reads the private record alone is run on a part of some record that is
handed to the outermost one.

* `View.Reads` — what a record has for the counterpart of a field, `View.Enters` — a nested
  converter is run on a record that is read so, `View.FromPrivate` — it is reached from the private
  record by links to the private version,
* `View.Misread` — a variant with a deprecated type in a oneof that is read from the next version's
  record, `View.Misled` — a converter is reached from that record, through such a variant,
* `View.exists_readUp` — one conversion: what a call of it is made for,
* `View.origin_of_mem_runUp` — a whole run, `Plan.origin_of_generate` — every run with a generated
  plan.
-/

open Relation

namespace Service

/-- A value holds a record, by itself or as an item of a list. -/
inductive Value.Holds : Value → Record → Prop
  | record (name : String) (fields : List (String × Value)) :
      Holds (.message name fields) ⟨name, fields⟩
  | item {items : List Value} {v : Value} {r : Record} (hv : v ∈ items) (h : Holds v r) :
    Holds (.list items) r

namespace Pairs

variable {v : Value} {besides p : Option Value} {r q : Record}

/-- A value holds the records that are found in it. -/
theorem holds (h : Pairs v besides r p) : v.Holds r := by
  induction h with
  | record name fields besides => exact .record name fields
  | item hi _ ih => exact .item (List.mem_of_getElem? hi) ih

/-- The record that belongs to a nested one is held by the private value. -/
theorem besides_holds (h : Pairs v besides r p) (hq : p.bind Value.record? = some q) :
    ∃ u, besides = some u ∧ u.Holds q := by
  induction h with
  | record name fields besides =>
    obtain ⟨u, rfl, hu⟩ := Option.bind_eq_some_iff.mp hq
    cases u with
    | message name fields =>
      obtain rfl := Option.some.inj hu
      exact ⟨_, rfl, .record name fields⟩
    | _ => cases hu
  | @item items besides i v r p hi _ ih =>
    obtain ⟨u, hu, hholds⟩ := ih hq
    cases besides with
    | none => cases hu
    | some b =>
      cases b with
      | list ps => exact ⟨_, rfl, .item (List.mem_of_getElem? hu) hholds⟩
      | _ => cases hu

end Pairs

end Service

open Service

namespace View

/-! ### Steps into nested records -/

/-- What a record has for the counterpart of a field of a message, in the version that one of the
    two links leads to.  A variant is kept under its oneof. -/
inductive Reads (w : View) (m : MessageId) (fromPrivate : Bool) (r : Record) :
    FieldId → Value → Prop
  | plain {f g : FieldId} {v : Value} (hf : f ∈ (w.chain.message m).fields)
    (hplain : (w.chain.field f).oneof = none)
    (hg : upLink fromPrivate (w.chain.field f).link = some g)
    (hv : r.get? (w.chain.field g).name = some v) : Reads w m fromPrivate r f v
  | variant {o p : OneofId} {f g : FieldId} {v : Value} (ho : o ∈ (w.chain.message m).oneofs)
    (hf : f ∈ (w.chain.oneof o).fields) (hp : upLink fromPrivate (w.chain.oneof o).link = some p)
    (hg : upLink fromPrivate (w.chain.field f).link = some g)
    (hv : r.get? (w.chain.oneof p).name = some (.oneof (w.chain.field g).name v)) :
    Reads w m fromPrivate r f v

/-- From a converter that is run on a record to one that is found for the type of a field of its
    message, run on a record in what is read for that field. -/
structure Enters (w : View) (vp : VersionPlan) (fromPrivate : Bool) (f : FieldId)
    (a b : MessageConverter × Record) : Prop where
  reads : ∃ v, w.Reads a.1.message fromPrivate a.2 f v ∧ v.Holds b.2
  finds : ∃ s, subjectOf (w.chain.field f).typeRef = some s ∧
    vp.converter? (w.nameOf ⟨b.1.kind, s⟩) = some (.message b.1)

/-- One step into a nested record. -/
def Descends (w : View) (vp : VersionPlan) (fromPrivate : Bool) (a b : MessageConverter × Record) :
    Prop :=
  ∃ f, w.Enters vp fromPrivate f a b

/-- From a converter that is run on a private record to one that is run on a record within it, step
    by step at the fields and variants that the links to the private version name. -/
def FromPrivate (w : View) (vp : VersionPlan) :
    MessageConverter × Record → MessageConverter × Record → Prop :=
  TransGen (w.Descends vp true)

/-- A variant of a deprecated type that is not deprecated itself, in a oneof that is not deprecated
    either. -/
structure Misread (w : View) (f : FieldId) : Prop where
  oneof : ∃ o, (w.chain.field f).oneof = some o ∧ (w.chain.oneof o).deprecated = false
  live : (w.chain.field f).deprecated = false
  type : w.typeDeprecated (w.chain.field f) = true

/-- From a converter that is run on the next version's record to one that is run on a record within
    it, which is taken for a private one from some variant on. -/
def Misled (w : View) (vp : VersionPlan) (a d : MessageConverter × Record) : Prop :=
  ∃ b c f, ReflTransGen (w.Descends vp false) a b ∧ w.Enters vp false f b c ∧ w.Misread f ∧
    ReflTransGen (w.Descends vp true) c d

variable {w : View} {vp : VersionPlan} {kind : ConverterKind} {id : MessageId}
  {x : MessageConverter}

/-- There is nothing in an empty record. -/
theorem not_fromPrivate_empty {message : String} {b : MessageConverter × Record} :
    ¬w.FromPrivate vp (x, { message }) b := by
  intro h
  obtain ⟨c, ⟨f, ⟨v, hreads, -⟩, -⟩, -⟩ := TransGen.head'_iff.mp h
  cases hreads with
  | plain _ _ _ hv => cases hv
  | variant _ _ _ _ hv => cases hv

/-! ### One conversion -/

/-- What a nested conversion on the way up is made for: the value of a field, read from one of the
    two records, with the private value of the field if that is the next version's one. -/
structure ReadUp (w : View) (kind : ConverterKind) (id : MessageId) (next : Option Record)
    (final : Record) (f : FieldId) (fromPrivate : Bool) (v : Value) (besides : Option Value)
    (action : Action) : Prop where
  reads : ∃ r, (if fromPrivate then some final else next) = some r ∧ w.Reads id fromPrivate r f v
  besides : fromPrivate = false → ∀ u, besides = some u → w.Reads id true final f u
  conveys : ∃ other checked asked,
    w.Conveys (nestedUp (w.head kind id) fromPrivate) f other checked action asked
  side : fromPrivate = false → w.shape kind = .upFromNext ∧
    (w.typeDeprecated (w.chain.field f) = true → w.Misread f)

namespace ReadUp

variable {next : Option Record} {final r : Record} {f other checked : FieldId} {v : Value}
  {besides : Option Value} {action : Action} {asked : List Request}

/-- What is read from the private record needs nothing besides. -/
theorem ofPrivate (hreads : w.Reads id true final f v)
    (hconveys : w.Conveys (nestedUp (w.head kind id) true) f other checked action asked) :
    w.ReadUp kind id next final f true v besides action where
  reads := ⟨final, rfl, hreads⟩
  besides := by simp
  conveys := ⟨other, checked, asked, hconveys⟩
  side := by simp

/-- What is read from the next version's record, with the private value besides. -/
theorem ofNext (hrecord : next = some r) (hreads : w.Reads id false r f v)
    (hbesides : ∀ u, besides = some u → w.Reads id true final f u)
    (hconveys : w.Conveys (nestedUp (w.head kind id) false) f other checked action asked)
    (hshape : w.shape kind = .upFromNext)
    (hmisread : w.typeDeprecated (w.chain.field f) = true → w.Misread f) :
    w.ReadUp kind id next final f false v besides action where
  reads := ⟨r, hrecord, hreads⟩
  besides _ := hbesides
  conveys := ⟨other, checked, asked, hconveys⟩
  side _ := ⟨hshape, hmisread⟩

end ReadUp

/-- The value of a plain field. -/
theorem readUp_of_assignment (hwf : w.chain.WellFormed) (hup : kind.isDown = false)
    {asked : List Request} {f : FieldId} (hf : f ∈ (w.chain.message id).fields)
    (hplain : (w.chain.field f).oneof = none) {a : Assignment}
    (hassigns : w.AssignsUp (w.head kind id) asked (w.chain.field f) a)
    {function : String} {next : Option Record} {final source : Record} {v : Value}
    (hpick : pick function next final a.side = .ok source) (hv : source.get? a.source = some v) :
    ∃ fromPrivate, w.ReadUp kind id next final f fromPrivate v
      (if a.side == .ofPrivate then some v else a.privateSource.bind final.get?) a.action := by
  have hid : (w.chain.field f).id = f := hwf.field_id ((hwf.mem_fields id f).mp hf).1
  obtain ⟨-, rfl, -, p, hp, hsource, hconveys⟩ |
      ⟨hnext, hshape, hrecord, hside, hbesides, g, hg, hsource, hconveys⟩ :=
        pick_up hup hassigns hpick
  · rw [hsource] at hv
    rw [hid] at hconveys
    exact ⟨true, .ofPrivate (.plain hf hplain hp hv) hconveys⟩
  · rw [hsource] at hv
    rw [hid] at hconveys
    simp only [readsPrivate, Bool.or_eq_false_iff] at hnext
    refine ⟨false, .ofNext hrecord (.plain hf hplain hg hv) (fun u hu => ?_) hconveys hshape ?_⟩
    · rw [hside, hbesides] at hu
      obtain ⟨name, hname, hu⟩ := Option.bind_eq_some_iff.mp hu
      obtain ⟨p, hp, rfl⟩ := Option.map_eq_some_iff.mp hname
      exact .plain hf hplain hp hu
    · -- a plain field of a deprecated type is read from the private record
      intro hdeprecated
      rw [hnext.2] at hdeprecated
      cases hdeprecated

/-- The value of a private variant is that of the private oneof. -/
theorem privateVariant_eq_some {o : OneofMapping} {a : VariantArm} {r : Record} {v : Value}
    (h : privateVariant o a r = some v) : ∃ name variant, o.privateSource = some name ∧
      a.privateSource = some variant ∧ r.get? name = some (.oneof variant v) := by
  unfold privateVariant at h
  split at h
  · rename_i variant u hget
    split at h
    · rename_i hvariant
      obtain rfl := Option.some.inj h
      obtain ⟨name, hname, hget⟩ := Option.bind_eq_some_iff.mp hget
      exact ⟨name, variant, hname, beq_iff_eq.mp hvariant, hget⟩
    · cases h
  · cases h

/-- The value of the variant that is set. -/
theorem readUp_of_mapping (hwf : w.chain.WellFormed) (hup : kind.isDown = false)
    {asked : List Request} {names : List String} {o : OneofId}
    (ho : o ∈ (w.chain.message id).oneofs) {g : OneofMapping}
    (hmaps : w.MapsUp (w.head kind id) asked names (w.chain.oneof o) g) {function : String}
    {next : Option Record} {final source : Record} {a : VariantArm} {v : Value}
    (hpick : pick function next final g.side = .ok source)
    (hselect : selectArm g source = some (a, v)) :
    ∃ f fromPrivate, w.ReadUp kind id next final f fromPrivate v
      (if g.side == .ofPrivate then some v else privateVariant g a final) a.action := by
  obtain ⟨ha, hget⟩ := selectArm_eq_some hselect
  obtain ⟨_, hmem, harms⟩ := hmaps.armed a ha
  obtain ⟨f, hf, rfl⟩ := List.mem_map.mp hmem
  have hvariant := (hwf.mem_variants o f).mp hf
  have hside := hmaps.side
  obtain ⟨p, hp, hsource⟩ := hmaps.source
  obtain ⟨t, ht, hname, hconveys⟩ := harms.source
  rw [hsource, hname] at hget
  rw [hwf.field_id hvariant.1] at hconveys
  cases hprivate : ((w.head kind id).shape == .upFromPrivate || (w.chain.oneof o).deprecated) with
  | true =>
    rw [hprivate] at hp ht hconveys hside
    rw [hside] at hpick
    obtain rfl := Except.ok.inj hpick
    exact ⟨f, true, .ofPrivate (.variant ho hf hp ht hget) hconveys⟩
  | false =>
    have hbesides := hmaps.besides
    have harmBesides := harms.besides
    rw [hprivate] at hp ht hconveys hside harmBesides
    have hlive := harms.live hprivate
    obtain ⟨hshape, hoLive⟩ := Bool.or_eq_false_iff.mp hprivate
    rw [hside] at hpick hbesides
    have hshape' : w.shape kind = .upFromNext :=
      (shape_of_up hup).resolve_right (beq_eq_false_iff_ne.mp hshape)
    refine ⟨f, false,
      .ofNext (pick_ofNext.mp hpick) (.variant ho hf hp ht hget) (fun u hu => ?_) hconveys hshape'
      fun hdeprecated => ⟨⟨o, hvariant.2, hoLive⟩, hlive, hdeprecated⟩⟩
    rw [hside] at hu
    obtain ⟨name, variant, hname, hvariant, hu⟩ := privateVariant_eq_some hu
    obtain ⟨q, hq, rfl⟩ := Option.map_eq_some_iff.mp (hbesides.symm.trans hname)
    obtain ⟨s, hs, rfl⟩ := Option.map_eq_some_iff.mp (harmBesides.symm.trans hvariant)
    exact .variant ho hf hq hs hu

/-- **One conversion.** Whatever is run by a converter that leads up is run for the value of a field
    that it reads. -/
theorem exists_readUp (hwf : w.chain.WellFormed) (hok : (w.messageConverter kind id).result = .ok x)
    (hup : kind.isDown = false) {convert : LoggedConvert} {next : Option Record} {final : Record}
    {c : Call} (hc : c ∈ (runUpLogged convert x next final).calls) :
    ∃ f fromPrivate v besides action, w.ReadUp kind id next final f fromPrivate v besides action ∧
      c ∈ (convert action v besides).calls := by
  have hparts := messageConverter_up hok hup
  obtain ⟨a, ha, source, v, hpick, hv, hc⟩ | ⟨g, hg, source, a, v, hpick, hselect, hc⟩ :=
    exists_read_of_mem_runUp hc
  · obtain ⟨_, hmem, hassigns⟩ := hparts.assigned a ha
    obtain ⟨f, hf, hplain, rfl⟩ := Chain.mem_plainFields.mp hmem
    obtain ⟨fromPrivate, hread⟩ := readUp_of_assignment hwf hup hf hplain hassigns hpick hv
    exact ⟨f, fromPrivate, v, _, _, hread, hc⟩
  · obtain ⟨_, hmem, hmaps⟩ := hparts.mapped g hg
    obtain ⟨o, ho, rfl⟩ := List.mem_map.mp hmem
    obtain ⟨f, fromPrivate, hread⟩ := readUp_of_mapping hwf hup ho hmaps hpick hselect
    exact ⟨f, fromPrivate, v, _, _, hread, hc⟩

/-! ### Runs -/

/-- The converters of a version plan are all specified in a view, each under its name. -/
structure Specifies (w : View) (vp : VersionPlan) : Prop where
  wellFormed : w.chain.WellFormed
  named : ∀ {function x}, vp.converter? function = some x → w.nameOf x.request = function
  specified : ∀ {function x}, vp.converter? function = some x →
    ∃ table, (w.converter x.request).result = .ok (x, table)

namespace Specifies

variable (h : w.Specifies vp)
include h

/-- A message converter that is found. -/
theorem message {function : String} (hx : vp.converter? function = some (.message x)) :
    (w.messageConverter x.kind x.message).result = .ok x ∧ x.shape = w.shape x.kind := by
  obtain ⟨table, hok⟩ := h.specified hx
  obtain ⟨hmessage, -⟩ := messageConverter_of_converter hok
  exact ⟨hmessage, (messageConverter_spec hmessage).shape⟩

/-- **Nested calls.** The converter that is run for the value of a field is found for the type of
    the field, and whatever else is run is run by it. -/
theorem exists_called {kind : ConverterKind} {f other checked : FieldId} {action : Action}
    {asked : List Request} (hconveys : w.Conveys kind f other checked action asked) {n : Nat}
    {v : Value} {besides : Option Value} {c : Call}
    (hc : c ∈ (convertWithinLogged vp n action v besides).calls) :
    ∃ y s r p k, k < n ∧ subjectOf (w.chain.field f).typeRef = some s ∧
      vp.converter? (w.nameOf ⟨y.kind, s⟩) = some (.message y) ∧ y.kind = (w.request kind s).kind ∧
      Pairs v besides r p ∧
      (c = ⟨y, r, p⟩ ∨ c ∈ (convertRecordLogged (convertWithinLogged vp k) y r p).calls) := by
  obtain ⟨reference, y, r, p, k, rfl, hk, hy, hpairs, hcall⟩ := exists_call_of_mem_convertWithin hc
  obtain ⟨hcopy, -⟩ | ⟨_, s, t, -, hnested⟩ := hconveys.cases
  · cases hcopy
  · obtain rfl := Action.convert.inj hnested.eq
    have hkind : y.kind = (w.request kind s).kind := ConverterKind.eq_of_functionName (h.named hy)
    have hname : w.nameOf ⟨y.kind, s⟩ = (w.reference (w.request kind s)).function := by
      rw [hkind]
      rfl
    exact ⟨y, s, r, p, k, hk, hnested.type, hname ▸ hy, hkind, hpairs, hcall⟩

end Specifies

/-- What is within the private record that belongs to a nested one is within the private record of
    the run. -/
theorem fromPrivate_of_besides {final r : Record} {f : FieldId} {v : Value}
    {besides p : Option Value} (hreads : ∀ u, besides = some u → w.Reads x.message true final f u)
    (hpairs : Pairs v besides r p) {y : MessageConverter} {s : Subject}
    (hs : subjectOf (w.chain.field f).typeRef = some s)
    (hy : vp.converter? (w.nameOf ⟨y.kind, s⟩) = some (.message y)) {d : MessageConverter × Record}
    (h : w.FromPrivate vp (y, (p.bind Value.record?).getD {}) d) :
    w.FromPrivate vp (x, final) d := by
  cases hq : p.bind Value.record? with
  | none =>
    -- without one the nested converter is given an empty record
    rw [hq] at h
    exact absurd h not_fromPrivate_empty
  | some q =>
    rw [hq] at h
    obtain ⟨u, hu, hholds⟩ := hpairs.besides_holds hq
    have henters : w.Enters vp true f (x, final) (y, q) := ⟨⟨u, hreads u hu, hholds⟩, s, hs, hy⟩
    exact TransGen.head ⟨f, henters⟩ h

/-- What is read from the next version's record is converted by one that reads it, unless the type
    is deprecated. -/
theorem shape_nested_of_next (hup : kind.isDown = false) (hshape : w.shape kind = .upFromNext)
    (id : MessageId) (s : Subject) :
    w.shape (w.request (nestedUp (w.head kind id) false) s).kind
      = if w.isDeprecated s then .upFromPrivate else .upFromNext := by
  have hkind : kind = .toPublic := by
    cases kind with
    | toPublic => rfl
    | toDeprecatedPublic => cases hshape
    | _ => cases hup
  subst hkind
  have hnested : nestedUp (w.head .toPublic id) false = .toPublic := by simp [nestedUp, head]
  rw [hnested]
  cases hdeprecated : w.isDeprecated s with
  | true =>
    rw [request_toPublic_of_deprecated hdeprecated]
    rfl
  | false =>
    rw [request_of_live hdeprecated, hshape]
    rfl

/-- What is misled after one step more is misled. -/
theorem Misled.head {a b d : MessageConverter × Record} (hstep : w.Descends vp false a b)
    (h : w.Misled vp b d) : w.Misled vp a d := by
  obtain ⟨c, e, f, hto, henters, hmisread, hon⟩ := h
  exact ⟨c, e, f, .head hstep hto, henters, hmisread, hon⟩

/-- **Origin.** Whatever reads the private record alone in the course of a run is reached from the
    private record of the run, or is misled in the next version's one. -/
theorem origin_of_mem_runUp (h : w.Specifies vp) {function : String}
    (hx : vp.converter? function = some (.message x)) (hup : x.shape ≠ .down) {n : Nat}
    {next : Option Record} {final : Record} {c : Call}
    (hc : c ∈ (runUpLogged (convertWithinLogged vp n) x next final).calls)
    (hprivate : c.converter.shape = .upFromPrivate) :
    w.FromPrivate vp (x, final) (c.converter, c.input) ∨
      ∃ r, next = some r ∧ w.Misled vp (x, r) (c.converter, c.input) := by
  induction n using Nat.strongRecOn generalizing x function next final with
  | ind n ih =>
    obtain ⟨hok, hshape⟩ := h.message hx
    have hkind : x.kind.isDown = false := by
      rw [hshape, ne_eq, shape_eq_down] at hup
      exact Bool.eq_false_iff.mpr hup
    obtain ⟨f, fromPrivate, v, besides, action, hread, hc⟩ :=
      exists_readUp h.wellFormed hok hkind hc
    obtain ⟨other, checked, asked, hconveys⟩ := hread.conveys
    obtain ⟨y, s, r, p, k, hk, hs, hy, hnested, hpairs, hcall⟩ := h.exists_called hconveys hc
    obtain ⟨source, hsource, hreads⟩ := hread.reads
    obtain ⟨-, hyShape⟩ := h.message hy
    have henters : w.Enters vp fromPrivate f (x, source) (y, r) :=
      ⟨⟨v, hreads, hpairs.holds⟩, s, hs, hy⟩
    -- a nested converter that reads the private record alone runs on nothing else from there on
    have hbelow (hshape' : y.shape = .upFromPrivate) :
        ReflTransGen (w.Descends vp true) (y, r) (c.converter, c.input) := by
      obtain rfl | hcall := hcall
      · exact .refl
      · simp only [convertRecordLogged, hshape'] at hcall
        obtain hfrom | ⟨_, hnone, -⟩ := ih k hk hy (by simp [hshape']) hcall
        · exact hfrom.to_reflTransGen
        · cases hnone
    cases fromPrivate with
    | true =>
      obtain rfl := Option.some.inj hsource
      have hshape' : y.shape = .upFromPrivate := by
        rw [hyShape, hnested]
        exact shape_nestedUp_private hkind x.message s
      exact .inl (TransGen.head' ⟨f, henters⟩ (hbelow hshape'))
    | false =>
      obtain ⟨hfaces, hmisread⟩ := hread.side rfl
      have hshape' : y.shape = if w.isDeprecated s then .upFromPrivate else .upFromNext := by
        rw [hyShape, hnested]
        exact shape_nested_of_next hkind hfaces x.message s
      cases hdeprecated : w.isDeprecated s with
      | true =>
        rw [hdeprecated] at hshape'
        have htype : w.typeDeprecated (w.chain.field f) = true := by
          simpa [typeDeprecated, hs] using hdeprecated
        exact .inr ⟨source, hsource, _, _, f, .refl, henters, hmisread htype, hbelow hshape'⟩
      | false =>
        rw [hdeprecated] at hshape'
        obtain rfl | hcall := hcall
        · cases hshape'.symm.trans hprivate
        simp only [convertRecordLogged, hshape', Bool.false_eq_true, if_false] at hcall
        obtain hfrom | ⟨_, hrecord, hmisled⟩ := ih k hk hy (by simp [hshape']) hcall
        · exact .inl (fromPrivate_of_besides (hread.besides rfl) hpairs hs hy hfrom)
        · obtain rfl := Option.some.inj hrecord
          exact .inr ⟨source, hsource, hmisled.head ⟨f, henters⟩⟩

end View

namespace Plan

variable {plan : Plan} {vp : VersionPlan}

/-- The view of the version that a version plan is for. -/
def viewOf (plan : Plan) (vp : VersionPlan) : View := { chain := plan.chain, version := vp.version }

/-- The versions of a generated plan are specified by their views. -/
theorem Generated.specifies (h : plan.Generated) (hvp : vp ∈ plan.versions) :
    (plan.viewOf vp).Specifies vp := by
  obtain ⟨v, hversion, hspecified⟩ := h.exists_specified hvp
  have hview : plan.viewOf vp = plan.chain.viewOf v := by rw [viewOf, Chain.viewOf, hversion]
  rw [hview]
  exact ⟨h.linked.framed.wellFormed, fun hx => (hspecified _ _ (Sorted.mem_of_get? hx)).1,
    fun hx => (hspecified _ _ (Sorted.mem_of_get? hx)).2⟩

/-- A message converter that is found is one of the plan. -/
theorem messageConverter?_eq_ok {function : String} {x : MessageConverter}
    (h : messageConverter? vp function = .ok x) : vp.converter? function = some (.message x) := by
  unfold messageConverter? at h
  split at h
  · rename_i m hm
    rw [hm, Except.ok.inj h]
  · cases h
  · cases h

/-- **Converters that read the private record alone.** Recording a conversion up changes nothing
    about it.  With a generated plan, every nested converter of that shape is run on a record within
    the private one, where the links to the private version lead, unless a variant of a live oneof
    has a deprecated type without being deprecated: from there on, what the next version's record
    has is taken for private. -/
theorem origin_of_generate {set : DescriptorSet} {config : Config}
    (h : generate set config = .ok plan) (hvp : vp ∈ plan.versions) (function : String)
    (next : Option Record) (final : Record) :
    (convertUpLogged vp function next final).result = convertUp vp function next final ∧
    ∀ c ∈ (convertUpLogged vp function next final).calls, c.converter.shape = .upFromPrivate →
      ∃ x, vp.converter? function = some (.message x) ∧
        ((plan.viewOf vp).FromPrivate vp (x, final) (c.converter, c.input) ∨
          ∃ r, next = some r ∧ (plan.viewOf vp).Misled vp (x, r) (c.converter, c.input)) := by
  refine ⟨convertUpLogged_result vp function next final, fun c hc hprivate => ?_⟩
  obtain hc | ⟨x, hx, hc⟩ := Logged.mem_calls_bind hc
  · cases hc
  have hfound := messageConverter?_eq_ok hx
  split at hc
  · cases hc
  · rename_i hup
    have hspecifies := (generated_of_generate h).specifies hvp
    exact ⟨x, hfound, View.origin_of_mem_runUp hspecifies hfound (by simpa using hup) hc hprivate⟩

/-- A letter that is a note, in some version. -/
def letterRecord (package field : String) : Record where
  message := package ++ ".Letter"
  fields := [("body", .oneof "note" (.message (package ++ ".Note") [(field, .str "x")]))]

/-- A converter that reads the private record alone is run in the course of a conversion of the
    sample. -/
def readsPrivateLetter (next : Option Record) (final : Record) (vp : VersionPlan) : Bool :=
  (convertUpLogged vp "ToPublicLetter" next final).calls.any (·.converter.shape == .upFromPrivate)

set_option maxRecDepth 10000 in
/-- What is checked of the sample by evaluation: one conversion from the private record, and one
    from the next version's record with a private one that is empty. -/
theorem letterPlan_calls :
    letterPlan.versions.any (readsPrivateLetter none (letterRecord "private" "id")) = true ∧
    letterPlan.versions.any (readsPrivateLetter (some (letterRecord "v2" "label"))
      { message := "private.Letter" }) = true := by decide +kernel

/-- A logged call that reads a note as a private one is one of a version of the sample. -/
theorem exists_letter_call {next : Option Record} {final : Record}
    (h : letterPlan.versions.any (readsPrivateLetter next final) = true) :
    ∃ vp ∈ letterPlan.versions, ∃ c ∈ (convertUpLogged vp "ToPublicLetter" next final).calls,
      c.converter.shape = .upFromPrivate := by
  obtain ⟨vp, hvp, hany⟩ := List.any_eq_true.mp h
  obtain ⟨c, hc, hshape⟩ := List.any_eq_true.mp hany
  exact ⟨vp, hvp, c, hc, beq_iff_eq.mp hshape⟩

/-- The note in a private letter. -/
theorem origin_letter : ∃ vp ∈ letterPlan.versions, ∃ x,
    ∃ c ∈ (convertUpLogged vp "ToPublicLetter" none (letterRecord "private" "id")).calls,
      c.converter.shape = .upFromPrivate ∧ (letterPlan.viewOf vp).FromPrivate vp
        (x, letterRecord "private" "id") (c.converter, c.input) := by
  obtain ⟨vp, hvp, c, hc, hshape⟩ := exists_letter_call letterPlan_calls.1
  obtain ⟨x, -, hfrom | ⟨_, hnone, -⟩⟩ :=
    (origin_of_generate generate_letterSet hvp _ _ _).2 c hc hshape
  · exact ⟨vp, hvp, x, c, hc, hshape, hfrom⟩
  · cases hnone

/-- **Notes can be misread.** Notes are deprecated, but a letter that is one is not: the note is run
    through a converter that reads private records although there is none. -/
theorem not_fromPrivate_letter :
    generate letterSet {} = .ok letterPlan ∧ ∃ vp ∈ letterPlan.versions,
    ∃ c ∈ (convertUpLogged vp "ToPublicLetter" (some (letterRecord "v2" "label"))
        { message := "private.Letter" }).calls,
      c.converter.shape = .upFromPrivate ∧
        ¬∃ x, vp.converter? "ToPublicLetter" = some (.message x) ∧
        (letterPlan.viewOf vp).FromPrivate vp (x, { message := "private.Letter" })
          (c.converter, c.input) := by
  obtain ⟨vp, hvp, c, hc, hshape⟩ := exists_letter_call letterPlan_calls.2
  refine ⟨generate_letterSet, vp, hvp, c, hc, hshape, ?_⟩
  rintro ⟨x, -, hfrom⟩
  exact View.not_fromPrivate_empty hfrom

end Plan

end Lineage
