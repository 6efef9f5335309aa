import Lineage.Proofs.Chain.Claims
import Lineage.Proofs.Plan.Sample
import Lineage.Proofs.Service.Restore
import Lineage.Proofs.Service.Up

namespace Lineage

/-!
# Down and up again

In the latest version, the converters to and from the private version undo each other.

* `Service.AtLatest`, `Service.Returning` — the two converters of a message, and what they rely on,
* `Returning.exists_undoes` — the value of an entry that is converted down comes back,
* `Service.Passed` — a private record holds what the entries of a record become,
  `Returning.exists_passed` — the way down succeeds and leads to one,
* `Returning.restores` — the way up restores the record,
* `Service.restored_of_generate` — so it is with the converters of a generated plan.
-/

open Service

/-- In a generated plan, plain fields of a message of the latest version that are not deprecated
    have private counterparts of their own. -/
theorem Plan.fieldsApart_of_generate {set : DescriptorSet} {config : Config} {plan : Plan}
    (h : generate set config = .ok plan) {m : MessageId}
    (hlatest : (plan.chain.version (plan.chain.message m).version).isLatest)
    (hpublic : (plan.chain.message m).version.index + 1 < plan.chain.versions.size)
    (hlive : ∀ f ∈ (plan.chain.message m).fields, (plan.chain.field f).deprecated = false) :
    plan.chain.FieldsApart m := by
  have hlinked := (generated_of_generate h).linked
  obtain ⟨_, _, _, hc⟩ := ofPackages_of_generate h
  by_cases hm : m.index < plan.chain.messages.size
  · exact (Chain.distinctIn_of_ofPackages hc hm hpublic).fieldsApart hlinked hpublic hlatest hlive
  · -- what the chain does not have has no fields
    intro f hf
    rw [Chain.message, getD_of_not_lt hm] at hf
    cases hf

/-- A converter leaves out no field of a message, if it is one of the message. -/
def Converter.convertsAll (m : MessageId) : Converter → Bool
  | .message x => x.message != m || x.unconverted.isEmpty
  | .enumeration _ => true

namespace Chain

/-- A message whose records lose nothing on the way to the private version: nothing of it is
    deprecated, all its fields are converted, plain fields have plain counterparts, and oneofs,
    variants and the values of its enums have private counterparts of their own. -/
structure Matched (c : Chain) (vp : VersionPlan) (m : MessageId) : Prop where
  live : (c.message m).deprecated = false
  liveFields : ∀ f ∈ (c.message m).fields, (c.field f).deprecated = false
  liveOneofs : ∀ o ∈ (c.message m).oneofs, (c.oneof o).deprecated = false
  converted : ∀ e ∈ vp.converters, e.2.convertsAll m
  plain : ∀ f ∈ (c.message m).fields, (c.field f).oneof = none →
    ∀ t ∈ (c.field f).link.next.toList ++ (c.field f).link.final.toList, (c.field t).oneof = none
  apart : c.MembersApart m

instance (c : Chain) (vp : VersionPlan) (m : MessageId) : Decidable (c.Matched vp m) :=
  decidable_of_iff ((c.message m).deprecated = false ∧
    (∀ f ∈ (c.message m).fields, (c.field f).deprecated = false) ∧
    (∀ o ∈ (c.message m).oneofs, (c.oneof o).deprecated = false) ∧
    (∀ e ∈ vp.converters, e.2.convertsAll m) ∧
    (∀ f ∈ (c.message m).fields, (c.field f).oneof = none →
      ∀ t ∈ (c.field f).link.next.toList ++ (c.field f).link.final.toList,
        (c.field t).oneof = none) ∧ c.MembersApart m)
    ⟨fun ⟨h, h', h'', hc, hp, ha⟩ => ⟨h, h', h'', hc, hp, ha⟩,
      fun h => ⟨h.live, h.liveFields, h.liveOneofs, h.converted, h.plain, h.apart⟩⟩

/-- What must be received is set in all records of an entry. -/
def ReceivedAt (c : Chain) (m : MessageId) (name : String) (v : Value) : Prop :=
  ∀ x ∈ c.recordsAt m name v, c.Everywhere c.Received x.1 x.2

end Chain

namespace Service

/-- The latest version and a plan that provides what it asks for. -/
structure AtLatest (w : View) (vp : VersionPlan) (Root : Request → Prop) (count : Nat) : Prop where
  linked : w.chain.Linked count
  uniqueMembers : w.chain.UniqueMembers
  uniqueValues : w.chain.UniqueValues
  isLatest : w.isLatest
  provides : vp.Provides w Root

/-- The converter to the private version and one from there of a message whose members all have
    private counterparts of their own and are converted. -/
structure Returning (w : View) (Root : Request → Prop) (kind : ConverterKind) (m : MessageId)
    (x y : MessageConverter) : Prop where
  askedDown : w.Asked Root ⟨.toPrivate, .message m⟩
  askedUp : w.Asked Root ⟨kind, .message m⟩
  isUp : kind.isDown = false
  down : (w.messageConverter .toPrivate m).result = .ok x
  up : (w.messageConverter kind m).result = .ok y
  downConverted : x.unconverted = []
  upConverted : y.unconverted = []
  fields : w.chain.FieldsApart m
  members : w.chain.MembersApart m

/-- How the value of a field gets to another one in the private version and back. -/
structure Returns (w : View) (kind : ConverterKind) (m : MessageId) (f s : FieldId)
    (down up : Action) : Prop where
  down : w.Conveys .toPrivate f s s down (w.messageConverter .toPrivate m).requests
  up : w.Conveys (View.nestedUp (w.head kind m) true) f s s up (w.messageConverter kind m).requests

variable {w : View} {vp : VersionPlan} {Root : Request → Prop} {count : Nat}
  {Reached : MessageId → Prop} {kind : ConverterKind} {m : MessageId}
  {x y : MessageConverter} {room : Nat} {r p : Record}

/-- What is under the name of a member is restored from what is under that of its counterpart, by
    whatever brings it back. -/
structure Restored (w : View) (vp : VersionPlan) (kind : ConverterKind) (m : MessageId)
    (name : String) (f s : FieldId) (entry v u : Value) : Prop where
  isEmpty : u.isEmpty = v.isEmpty
  up : ∀ down up, Returns w kind m f s down up → ∀ k besides, u.depth < k →
    Restores (w.chain.ReceivedAt m name entry) (convertWithin vp k up u besides) v

/-- A private record holds what the entries of a record become: nothing for what is not set, and
    otherwise a value that the way up restores. -/
structure Passed (w : View) (vp : VersionPlan) (kind : ConverterKind) (m : MessageId)
    (r p : Record) : Prop where
  fields : ∀ f ∈ (w.chain.message m).fields, (w.chain.field f).oneof = none →
    ∀ s, (w.chain.field f).link.final = some s →
      r.get? (w.chain.field f).name = none ∧ p.get? (w.chain.field s).name = none ∨
      ∃ v u, r.get? (w.chain.field f).name = some v ∧ p.get? (w.chain.field s).name = some u ∧
        Restored w vp kind m (w.chain.field f).name f s v v u
  oneofs : ∀ o ∈ (w.chain.message m).oneofs, ∀ q, (w.chain.oneof o).link.final = some q →
    r.get? (w.chain.oneof o).name = none ∧ p.get? (w.chain.oneof q).name = none ∨
    ∃ f ∈ (w.chain.oneof o).fields, ∃ t v u, (w.chain.field f).link.final = some t ∧
      r.get? (w.chain.oneof o).name = some (.oneof (w.chain.field f).name v) ∧
      p.get? (w.chain.oneof q).name = some (.oneof (w.chain.field t).name u) ∧
      Restored w vp kind m (w.chain.oneof o).name f t (.oneof (w.chain.field f).name v) v u

namespace Returning

variable (hr : Returning w Root kind m x y) (ha : AtLatest w vp Root count)
include hr ha

/-- The converter reads private records alone. -/
theorem shape : w.shape kind = .upFromPrivate := Chain.shape_of_isLatest ha.isLatest hr.isUp

/-- The message is public. -/
theorem isPublic : (w.chain.message m).version.index + 1 < count :=
  View.public_of_messageConverter ha.linked hr.down

omit ha in
/-- The message has a private counterpart. -/
theorem exists_final : ∃ m', (w.chain.message m).link.final = some m' :=
  ⟨_, (View.messageConverter_spec hr.down).counterpart⟩

/-! ### The ways of members -/

omit ha in
/-- A plain field has an assignment both ways. -/
theorem exists_assignments {f : FieldId} (hf : f ∈ (w.chain.message m).fields)
    (hplain : (w.chain.field f).oneof = none) :
    (∃ a ∈ x.assignments, w.AssignsDown .toPrivate (w.messageConverter .toPrivate m).requests
      (w.chain.field f) a) ∧
    ∃ b ∈ y.assignments, w.AssignsUp (w.head kind m) (w.messageConverter kind m).requests
      (w.chain.field f) b := by
  have hmem := Chain.mem_plainFields.mpr ⟨f, hf, hplain, rfl⟩
  constructor
  · obtain ⟨hnot, -⟩ | ⟨_, -, -, hleft⟩ | hassigns :=
      (View.messageConverter_down hr.down rfl).fields _ hmem
    · cases hnot
    · rw [hr.downConverted] at hleft
      cases hleft
    · exact hassigns
  · obtain ⟨_, -, -, hleft⟩ | hassigns := (View.messageConverter_up hr.up hr.isUp).fields _ hmem
    · rw [hr.upConverted] at hleft
      cases hleft
    · exact hassigns

/-- The way to the private version, and back, of a plain field. -/
theorem returns_field {f s : FieldId} (hf : f ∈ (w.chain.message m).fields)
    (hs : (w.chain.field f).link.final = some s) {a b : Assignment}
    (hassigns : w.AssignsDown .toPrivate (w.messageConverter .toPrivate m).requests
      (w.chain.field f) a)
    (hassigns' : w.AssignsUp (w.head kind m) (w.messageConverter kind m).requests
      (w.chain.field f) b) : Returns w kind m f s a.action b.action := by
  have hwf := ha.linked.framed.wellFormed
  have hid : (w.chain.field f).id = f := hwf.field_id ((hwf.mem_fields m f).mp hf).1
  obtain ⟨t, ht, -, hconveys⟩ := hassigns.target
  obtain rfl := Option.some.inj (Eq.trans ht.symm hs)
  obtain ⟨t', ht', hconveys', -⟩ := assignedUp_private (convertWithin vp 0) "" {}
    (hr.shape ha) hassigns'
  obtain rfl := Option.some.inj (ht'.symm.trans hs)
  rw [hid] at hconveys hconveys'
  exact ⟨hconveys, hconveys'⟩

/-- A oneof has a mapping both ways. -/
theorem exists_mappings {o : OneofId} (ho : o ∈ (w.chain.message m).oneofs) :
    (∃ g ∈ x.oneofs, w.MapsDown .toPrivate (w.messageConverter .toPrivate m).requests
      x.unconverted (w.chain.oneof o) g) ∧
    ∃ g ∈ y.oneofs, w.MapsUp (w.head kind m) (w.messageConverter kind m).requests y.unconverted
      (w.chain.oneof o) g := by
  have hmem := List.mem_map_of_mem (f := w.chain.oneof) ho
  refine ⟨?_, (View.messageConverter_up hr.up hr.isUp).oneofs _ hmem⟩
  obtain hskip | hmaps := (View.messageConverter_down hr.down rfl).oneofs _ hmem
  · obtain ⟨hnot, -⟩ | hnone := hskip
    · cases hnot
    · obtain ⟨m', hm'⟩ := hr.exists_final
      obtain ⟨q, hq, -⟩ := ha.linked.oneof_final ho (hr.isPublic ha) hm'
      cases hq.symm.trans hnone
  · exact hmaps

/-- The way to the private version, and back, of a variant. -/
theorem exists_returns {o : OneofId} (ho : o ∈ (w.chain.message m).oneofs) {f t : FieldId}
    (hf : f ∈ (w.chain.oneof o).fields) (ht : (w.chain.field f).link.final = some t) :
    ∃ a b, Returns w kind m f t a b := by
  have hwf := ha.linked.framed.wellFormed
  have hid : (w.chain.field f).id = f := hwf.field_id ((hwf.mem_variants o f).mp hf).1
  have hmem := List.mem_map_of_mem (f := w.chain.field) hf
  obtain ⟨⟨g, -, hmaps⟩, ⟨g', -, hmaps'⟩⟩ := hr.exists_mappings ha ho
  have hvariants := hmaps'.variants
  rw [show ((w.head kind m).shape == .upFromPrivate || (w.chain.oneof o).deprecated) = true by
    simp [View.head, hr.shape ha]] at hvariants
  rw [hr.downConverted] at hmaps
  rw [hr.upConverted] at hvariants
  -- as there is a private counterpart, only the arm is left, on the way down and on the way up
  obtain (⟨hnot, -⟩ | hnone) | hleft | ⟨a, -, harms⟩ := hmaps.variants _ hmem
  · cases hnot
  · cases ht.symm.trans hnone
  · cases hleft
  obtain (⟨hnot, -⟩ | hnone) | hleft | ⟨b, -, harms'⟩ := hvariants _ hmem
  · cases hnot
  · cases ht.symm.trans hnone
  · cases hleft
  obtain ⟨s, hs, -, hconveys⟩ := harms.target
  obtain rfl := Option.some.inj (Eq.trans hs.symm ht)
  obtain ⟨s', hs', -, hconveys'⟩ := harms'.source
  obtain rfl := Option.some.inj (Eq.trans hs'.symm ht)
  rw [checkedVariant_private, hid] at hconveys'
  rw [hid] at hconveys
  exact ⟨a.action, b.action, hconveys, hconveys'⟩

/-! ### The way down -/

section
variable (hbelow : ∀ j < room, UndoneBelow w vp Root Reached j)
  (hreached : ∀ n ∈ w.chain.referred m, Reached n)
  (htyped : w.chain.WellTyped m r) (hdepth : r.depth < room)
include hbelow hreached htyped hdepth

/-- **The value of an entry** comes back. -/
theorem exists_undoes {f s : FieldId} (hf : f ∈ (w.chain.message m).fields) {name : String}
    {entry v : Value} (hget : r.get? name = some entry)
    (hentry : w.chain.entry m name entry = some (f, v))
    (hfits : w.chain.fits (w.chain.field f) v = true) {a b : Action}
    (hreturns : Returns w kind m f s a b) :
    ∃ u, Undoes vp room a b (w.chain.ReceivedAt m name entry) v u := by
  have hrecords := Chain.recordsAt_eq hentry
  obtain ⟨_, -, -, hasked⟩ := ha.provides.message hr.askedDown
  obtain ⟨_, -, -, hasked'⟩ := ha.provides.message hr.askedUp
  have hchildren := (Chain.everywhere_iff.mp htyped).2
  have hlt : v.depth < room :=
    lt_of_le_of_lt ((depth_le_of_entry hentry).trans (Record.depth_le_of_get? hget)) hdepth
  obtain ⟨u, hu⟩ := Service.exists_undoes ha.provides ha.isLatest hreturns.down hasked hreturns.up
    hasked' (View.isDown_nestedUp _ _) ha.linked ha.uniqueValues hbelow
    (fun n htype => hreached n (Chain.mem_referred hf htype))
    (fun e htype => hr.members.values e (Chain.mem_referredEnums hf htype)) hfits
    (fun x hx => hchildren x (Chain.mem_children hget (hrecords ▸ hx))) hlt
  refine ⟨u, hu.down, hu.isEmpty, fun k besides hk => (hu.up k besides hk).of_iff ?_⟩
  rw [Chain.ReceivedAt, hrecords]

/-- What is written for a plain field: nothing if it is not set, and otherwise a value that the way
    up restores. -/
theorem assignedDown_cases {f s : FieldId} (hf : f ∈ (w.chain.message m).fields)
    (hplain : (w.chain.field f).oneof = none) (hs : (w.chain.field f).link.final = some s)
    {a : Assignment} (hassigns : w.AssignsDown .toPrivate
      (w.messageConverter .toPrivate m).requests (w.chain.field f) a) :
    r.get? (w.chain.field f).name = none ∧
        assignedDown (convertWithin vp room) r a = .ok none ∨
      ∃ v u, r.get? (w.chain.field f).name = some v ∧
        convertWithin vp room a.action v none = .ok u ∧
        assignedDown (convertWithin vp room) r a = .ok (some (a.target, u)) ∧
        Restored w vp kind m (w.chain.field f).name f s v v u := by
  unfold assignedDown
  rw [hassigns.source]
  cases hget : r.get? (w.chain.field f).name with
  | none => exact .inl ⟨rfl, rfl⟩
  | some v =>
    obtain ⟨hentry, hfits⟩ :=
      (Chain.everywhere_iff.mp htyped).1.get?_field ha.uniqueMembers hf hget
    obtain ⟨-, b, -, hassigns'⟩ := hr.exists_assignments hf hplain
    have hreturns := hr.returns_field ha hf hs hassigns hassigns'
    obtain ⟨u, hu⟩ := hr.exists_undoes ha hbelow hreached htyped hdepth hf hget hentry hfits
      hreturns
    refine .inr ⟨v, u, rfl, hu.down, ?_, hu.isEmpty, fun a' b' hreturns' k besides hk => ?_⟩
    · dsimp only
      rw [hu.down]
      rfl
    · obtain rfl := hreturns'.up.unique hreturns.up
      exact hu.up k besides hk

/-- What is written for a oneof: nothing if no variant is set, and otherwise the counterpart of the
    variant, with a value that the way up restores. -/
theorem mappedDown_cases {o q : OneofId} (ho : o ∈ (w.chain.message m).oneofs)
    (hq : (w.chain.oneof o).link.final = some q) :
    r.get? (w.chain.oneof o).name = none ∧ (∀ g, w.MapsDown .toPrivate
        (w.messageConverter .toPrivate m).requests x.unconverted (w.chain.oneof o) g →
          mappedDown (convertWithin vp room) r g = .ok none) ∨
      ∃ f ∈ (w.chain.oneof o).fields, ∃ t v u, (w.chain.field f).link.final = some t ∧
        r.get? (w.chain.oneof o).name = some (.oneof (w.chain.field f).name v) ∧
        (∀ g, w.MapsDown .toPrivate (w.messageConverter .toPrivate m).requests x.unconverted
          (w.chain.oneof o) g → mappedDown (convertWithin vp room) r g
            = .ok (some ((w.chain.oneof q).name, .oneof (w.chain.field t).name u))) ∧
        Restored w vp kind m (w.chain.oneof o).name f t (.oneof (w.chain.field f).name v) v u := by
  cases hget : r.get? (w.chain.oneof o).name with
  | none =>
    refine .inl ⟨rfl, fun g hmaps => ?_⟩
    have hselect : selectArm g r = none := by
      unfold selectArm
      rw [hmaps.source, hget]
    unfold mappedDown
    rw [hselect]
  | some entry =>
    obtain ⟨f, hf, v, rfl, hentry, hfits⟩ :=
      (Chain.everywhere_iff.mp htyped).1.get?_oneof ha.uniqueMembers ho hget
    have hfield := ha.linked.framed.wellFormed.mem_fields_of_variant ho hf
    -- the variant that is set has a counterpart, and a way there and back
    obtain ⟨m', hm'⟩ := hr.exists_final
    obtain ⟨t, ht, -⟩ := ha.linked.field_final hfield (hr.isPublic ha) hm'
    obtain ⟨a, b, hreturns⟩ := hr.exists_returns ha ho hf ht
    obtain ⟨u, hu⟩ := hr.exists_undoes ha hbelow hreached htyped hdepth hfield hget hentry hfits
      hreturns
    refine .inr ⟨f, hf, t, v, u, ht, rfl, fun g hmaps => ?_, hu.isEmpty,
      fun a' b' hreturns' k besides hk => ?_⟩
    · obtain ⟨action, hconveys, hwrite⟩ := mappedDown_variant ha.linked ha.uniqueMembers ho
        (convertWithin vp room) hmaps hf (by rintro ⟨hnot, -⟩; cases hnot)
        (by simp [hr.downConverted]) hq ht hget
      obtain rfl := hconveys.unique hreturns.down
      rw [hwrite, hu.down]
      rfl
    · obtain rfl := hreturns'.up.unique hreturns.up
      exact hu.up k besides hk

/-- **The way down** succeeds, and leads to a record that holds what the entries become. -/
theorem exists_passed : ∃ p, runDown (convertWithin vp room) x r = .ok p ∧
    Passed w vp kind m r p := by
  have hparts := View.messageConverter_down hr.down rfl
  obtain ⟨m', hm'⟩ := hr.exists_final
  have hlink : View.downLink .toPrivate (w.chain.message m).link = some m' := hm'
  have hpublic := hr.isPublic ha
  -- no step can fail, so the way down succeeds; then what is written is read off member by member
  have hassigned : ∀ a ∈ x.assignments, ∃ y, assignedDown (convertWithin vp room) r a = .ok y := by
    intro a hmem
    obtain ⟨_, hfield, hassigns⟩ := hparts.assigned a hmem
    obtain ⟨f, hf, hplain, rfl⟩ := Chain.mem_plainFields.mp hfield
    obtain ⟨s, hs, -⟩ := ha.linked.field_final hf hpublic hm'
    obtain ⟨-, hwrite⟩ | ⟨_, _, -, -, hwrite, -⟩ :=
      hr.assignedDown_cases ha hbelow hreached htyped hdepth hf hplain hs hassigns
    · exact ⟨_, hwrite⟩
    · exact ⟨_, hwrite⟩
  have hmapped : ∀ g ∈ x.oneofs, ∃ y, mappedDown (convertWithin vp room) r g = .ok y := by
    intro g hmem
    obtain ⟨_, honeof, hmaps⟩ := hparts.mapped g hmem
    obtain ⟨o, ho, rfl⟩ := List.mem_map.mp honeof
    obtain ⟨q, hq, -⟩ := ha.linked.oneof_final ho hpublic hm'
    obtain ⟨-, hwrite⟩ | ⟨_, _, _, _, _, -, -, hwrite, -⟩ :=
      hr.mappedDown_cases ha hbelow hreached htyped hdepth ho hq
    · exact ⟨_, hwrite g hmaps⟩
    · exact ⟨_, hwrite g hmaps⟩
  obtain ⟨p, hp⟩ := exists_runDown hassigned hmapped
  refine ⟨p, hp, fun f hf hplain s hs => ?_, fun o ho q hq => ?_⟩
  · obtain ⟨⟨a, hmem, hassigns⟩, -⟩ := hr.exists_assignments hf hplain
    have hget :=
      get?_down ha.linked ha.uniqueMembers hpublic hlink hr.down rfl hp hf hmem hassigns hs
      fun f' hf' hplain' hs' => hr.fields f' hf' f hf hplain' hplain (Eq.trans hs' hs.symm)
    obtain ⟨hnone, -⟩ | ⟨v, u, hv, hu, -, hrestored⟩ :=
      hr.assignedDown_cases ha hbelow hreached htyped hdepth hf hplain hs hassigns
    · obtain ⟨hnone', hnone''⟩ | ⟨v, _, hv, -⟩ := hget
      · exact .inl ⟨hnone', hnone''⟩
      · cases hnone.symm.trans hv
    · obtain ⟨hnone, -⟩ | ⟨v', u', hv', hu', hconvert⟩ := hget
      · cases hv.symm.trans hnone
      · obtain rfl := Option.some.inj (hv.symm.trans hv')
        obtain rfl := Except.ok.inj (hu.symm.trans hconvert)
        exact .inr ⟨v, u, hv, hu', hrestored⟩
  · have halone : ∀ o' ∈ (w.chain.message m).oneofs,
        (w.chain.oneof o').link.final = some q → o' = o :=
      fun o' ho' hq' => hr.members.oneofs o' ho' o ho (hq'.trans hq.symm)
    have hlive : ¬(ConverterKind.toPrivate = .toNext ∧ (w.chain.oneof o).deprecated = true) := by
      rintro ⟨hnot, -⟩
      cases hnot
    obtain ⟨hnone, hwrite⟩ | ⟨f, hf, t, v, u, ht, hget, hwrite, hrestored⟩ :=
      hr.mappedDown_cases ha hbelow hreached htyped hdepth ho hq
    · exact .inl ⟨hnone, get?_oneof_down ha.linked ha.uniqueMembers ho hpublic hlink hr.down rfl hp
        hq halone hlive hwrite (by simp)⟩
    · exact .inr ⟨f, hf, t, v, u, ht, hget, get?_oneof_down ha.linked ha.uniqueMembers ho hpublic
        hlink hr.down rfl hp hq halone hlive hwrite (by simp), hrestored⟩

end

/-! ### The way up -/

/-- What is checked of the private record is what must be received. -/
theorem received_iff (hpassed : Passed w vp kind m r p) :
    (∀ q ∈ y.required, isReceived p q = true) ↔ w.chain.Received m r := by
  have hparts := View.messageConverter_up hr.up hr.isUp
  have hshape := hr.shape ha
  obtain ⟨m', hm'⟩ := hr.exists_final
  -- what is set is set on both sides
  have hfield : ∀ {f : FieldId} {q : RequiredCheck}, f ∈ (w.chain.message m).fields →
      (w.chain.field f).oneof = none → w.ReceivesField (w.shape kind) (w.chain.field f) q →
      isReceived p q = r.isSet (w.chain.field f).name := by
    rintro f q hf hplain ⟨s, hs, rfl⟩
    rw [show w.readsPrivate (w.shape kind) (w.chain.field f) = true by
      simp [View.readsPrivate, hshape]] at hs
    show p.isSet (w.chain.field s).name = _
    unfold Record.isSet
    obtain ⟨hnone, hnone'⟩ | ⟨v, u, hv, hu, hrestored⟩ := hpassed.fields f hf hplain s hs
    · rw [hnone, hnone']
    · rw [hv, hu, Option.any_some, Option.any_some, hrestored.isEmpty]
  have honeof : ∀ {o : OneofId} {q : RequiredCheck}, o ∈ (w.chain.message m).oneofs →
      w.ReceivesOneof (w.shape kind) (w.chain.oneof o) q →
      isReceived p q = (r.get? (w.chain.oneof o).name).isSome := by
    rintro o q ho ⟨s, hs, rfl⟩
    rw [show (w.shape kind == .upFromPrivate || (w.chain.oneof o).deprecated) = true by
      simp [hshape]] at hs
    show (p.get? (w.chain.oneof s).name).isSome = _
    obtain ⟨hnone, hnone'⟩ | ⟨_, -, _, _, _, -, hv, hu, -⟩ := hpassed.oneofs o ho s hs
    · rw [hnone, hnone']
    · rw [hv, hu]
      rfl
  -- the checks are those of the members that must be received, and of no others
  constructor
  · intro h
    constructor
    · intro f hf hplain hrequired
      obtain ⟨q, hq, hreceives⟩ := hparts.checksField _
        (Chain.mem_plainFields.mpr ⟨f, hf, hplain, rfl⟩) hrequired
      exact hfield hf hplain hreceives ▸ h q hq
    · intro o ho hrequired
      obtain ⟨q, hq, hreceives⟩ := hparts.checksOneof _ (List.mem_map_of_mem ho) hrequired
      exact honeof ho hreceives ▸ h q hq
  · intro h q hq
    obtain ⟨_, hmem, hrequired, hreceives⟩ | ⟨_, hmem, hrequired, hreceives⟩ :=
      hparts.checked q hq
    · obtain ⟨f, hf, hplain, rfl⟩ := Chain.mem_plainFields.mp hmem
      rw [hfield hf hplain hreceives]
      exact h.fields f hf hplain hrequired
    · obtain ⟨o, ho, rfl⟩ := List.mem_map.mp hmem
      rw [honeof ho hreceives]
      exact h.oneofs o ho hrequired

/-- The checks of the private record. -/
theorem restores_checks (p : Record) : Restores (∀ q ∈ y.required, isReceived p q = true)
    (y.required.forM (checkReceived y.function none p)) () := by
  have hshape := hr.shape ha
  refine Restores.forM fun q hq => ?_
  have hside : q.side = .ofPrivate := by
    obtain ⟨f, -, -, _, -, rfl⟩ | ⟨o, -, -, _, -, rfl⟩ :=
      (View.messageConverter_up hr.up hr.isUp).checked q hq
    · simp [View.readsPrivate, hshape, View.upSide]
    · simp [hshape, View.upSide]
  rw [checkReceived_private hside]
  cases hreceived : isReceived p q with
  | true => exact .of_ok rfl rfl
  | false => exact ⟨by simp, fun _ => ⟨_, rfl, rfl⟩⟩

/-- What the way up writes under the name of a member restores what the record holds there. -/
theorem restores_assigned (hpassed : Passed w vp kind m r p) {k : Nat} (hk : p.depth < k)
    {a : Assignment} (hmem : a ∈ y.assignments) :
    Restores (∀ v, r.get? a.target = some v → w.chain.ReceivedAt m a.target v)
      (assignedUp (convertWithin vp k) y.function none p a)
      ((r.get? a.target).map (a.target, ·)) := by
  obtain ⟨_, hfield, hassigns⟩ := (View.messageConverter_up hr.up hr.isUp).assigned a hmem
  obtain ⟨f, hf, hplain, rfl⟩ := Chain.mem_plainFields.mp hfield
  obtain ⟨s, hs, -, heq⟩ := assignedUp_private (convertWithin vp k) y.function p (hr.shape ha)
    hassigns
  rw [heq, hassigns.target]
  obtain ⟨hnone, hnone'⟩ | ⟨v, u, hv, hu, hrestored⟩ := hpassed.fields f hf hplain s hs
  · rw [hnone, hnone']
    exact .of_ok rfl (by simp)
  · obtain ⟨⟨b, -, hassigns'⟩, -⟩ := hr.exists_assignments hf hplain
    have hreturns := hr.returns_field ha hf hs hassigns' hassigns
    have hlt : u.depth < k := lt_of_le_of_lt (Record.depth_le_of_get? hu) hk
    rw [hv, hu]
    exact ((hrestored.up _ _ hreturns k (some u) hlt).map _).of_iff (by simp)

/-- Every oneof is restored if what it holds has been received. -/
theorem restores_mapped (hpassed : Passed w vp kind m r p) {k : Nat} (hk : p.depth < k)
    {g : OneofMapping} (hmem : g ∈ y.oneofs) :
    Restores (∀ v, r.get? g.target = some v → w.chain.ReceivedAt m g.target v)
      (mappedUp (convertWithin vp k) y.function none p g)
      ((r.get? g.target).map (g.target, ·)) := by
  obtain ⟨_, honeof, hmaps⟩ := (View.messageConverter_up hr.up hr.isUp).mapped g hmem
  obtain ⟨o, ho, rfl⟩ := List.mem_map.mp honeof
  obtain ⟨m', hm'⟩ := hr.exists_final
  have hpublic := hr.isPublic ha
  obtain ⟨q, hq, -⟩ := ha.linked.oneof_final ho hpublic hm'
  rw [hmaps.target]
  obtain ⟨hnone, hnone'⟩ | ⟨f, hf, t, v, u, ht, hv, hu, hrestored⟩ := hpassed.oneofs o ho q hq
  · rw [hnone, mappedUp_private_none _ _ (hr.shape ha) hmaps hq hnone']
    exact .of_ok rfl (by simp)
  · -- what comes up is the variant that went down, as no other one leads to its counterpart
    obtain ⟨action, hconveys, heq⟩ := mappedUp_private (convertWithin vp k) y.function
      ha.linked ha.uniqueMembers (hr.shape ha) hpublic hm' ho hmaps hf
      (by simp [hr.upConverted]) hq ht
      (fun f' hf' ht' => hr.members.variants o ho f' hf' f hf (ht'.trans ht.symm)) hu
    obtain ⟨a, b, hreturns⟩ := hr.exists_returns ha ho hf ht
    have hlt : u.depth < k := by
      have hle := Record.depth_le_of_get? hu
      rw [Value.depth] at hle
      omega
    rw [heq, hv]
    exact ((hrestored.up _ _ ⟨hreturns.down, hconveys⟩ k (some u) hlt).map _).of_iff (by simp)

omit ha in
/-- Something is written under every name that the record has. -/
theorem exists_written (htyped : w.chain.Typed m r) {name : String} {v : Value}
    (hget : r.get? name = some v) :
    (∃ a ∈ y.assignments, a.target = name) ∨ ∃ g ∈ y.oneofs, g.target = name := by
  obtain ⟨f, u, hentry, -⟩ := htyped.exists_entry hget
  obtain ⟨hf, hplain, rfl, -⟩ | ⟨o, ho, -, rfl, -⟩ := Chain.entry_eq_some hentry
  · obtain ⟨-, a, ha, hassigns⟩ := hr.exists_assignments hf hplain
    exact .inl ⟨a, ha, hassigns.target⟩
  · obtain ⟨g, hg, hmaps⟩ := (View.messageConverter_up hr.up hr.isUp).oneofs _
      (List.mem_map_of_mem ho)
    exact .inr ⟨g, hg, hmaps.target⟩

omit ha in
/-- All that the record holds, written into an empty record, is the record. -/
theorem write_eq (htyped : w.chain.Typed m r) :
    ({ message := y.publicName } : Record).write
      ((y.assignments.map fun a => (r.get? a.target).map (a.target, ·)).reduceOption ++
        (y.oneofs.map fun g => (r.get? g.target).map (g.target, ·)).reduceOption) = r := by
  obtain ⟨_, _, hparts⟩ := View.messageConverter_parts hr.up
  have hmessage : r.message = y.publicName := htyped.message.trans hparts.publicName.symm
  rw [← hmessage]
  refine Record.write_eq_self htyped.sorted fun name v => ?_
  rw [List.mem_append, Record.mem_found, Record.mem_found, ← or_and_right]
  exact and_iff_right_of_imp (hr.exists_written htyped)

/-- **The way up** restores the record, if all that must be received is set. -/
theorem restores (hpassed : Passed w vp kind m r p) (htyped : w.chain.Typed m r) {k : Nat}
    (hk : p.depth < k) : Restores (w.chain.Everywhere w.chain.Received m r)
      (runUp (convertWithin vp k) y none p) r := by
  rw [runUp_eq]
  refine Restores.of_iff (.bind (hr.restores_checks ha p)
    (.bind (.mapM fun a hmem => hr.restores_assigned ha hpassed hk hmem)
      (.bind (.mapM fun g hmem => hr.restores_mapped ha hpassed hk hmem)
        (.of_ok (congrArg Except.ok (hr.write_eq htyped)) trivial)))) ?_
  -- the conditions of the steps are those of the record and of the records in its entries
  rw [hr.received_iff ha hpassed, Chain.everywhere_iff, and_true]
  refine and_congr_right fun _ => ⟨?_, ?_⟩
  · rintro ⟨hassigned, hmapped⟩ x hx
    obtain ⟨⟨name, v⟩, hmem, hx⟩ := List.mem_flatMap.mp hx
    have hget : r.get? name = some v := (Sorted.get?_eq_some_iff htyped.sorted).mpr hmem
    obtain ⟨a, ha, rfl⟩ | ⟨g, hg, rfl⟩ := hr.exists_written htyped hget
    · exact hassigned a ha v hget x hx
    · exact hmapped g hg v hget x hx
  · intro hall
    exact ⟨fun a _ v hget x hx => hall x (Chain.mem_children hget hx),
      fun g _ v hget x hx => hall x (Chain.mem_children hget hx)⟩

end Returning

/-- **At any depth.** Records of messages that reach no others than such messages come back. -/
theorem undoneBelow (ha : AtLatest w vp Root count)
    (hreached : ∀ n, Reached n → ∀ k ∈ w.chain.referred n, Reached k)
    (hconverted : ∀ n, Reached n → ∀ e ∈ vp.converters, e.2.convertsAll n)
    (hfields : ∀ n, Reached n → w.chain.FieldsApart n)
    (hmembers : ∀ n, Reached n → w.chain.MembersApart n) (room : Nat) :
    UndoneBelow w vp Root Reached room := by
  -- by strong induction: a nested record needs less room than the record that it is in
  induction room using Nat.strong_induction_on with
  | _ room ih =>
    intro m kind r x y hm hasked hasked' hup hx hy htyped hdepth
    -- the converters of the message are those that are found under their names
    have hnone : ∀ {kind : ConverterKind} {z : MessageConverter},
        w.Asked Root ⟨kind, .message m⟩ → (w.messageConverter kind m).result = .ok z →
        z.unconverted = [] := by
      intro kind z hasked hz
      obtain ⟨z', hfound, hz', -⟩ := ha.provides.message hasked
      obtain rfl := Except.ok.inj (hz.symm.trans hz')
      have hall := hconverted m hm _ (Sorted.mem_of_get? hfound)
      simpa [Converter.convertsAll, (View.messageConverter_spec hz).message] using hall
    have hr : Returning w Root kind m x y := ⟨hasked, hasked', hup, hx, hy, hnone hasked hx,
      hnone hasked' hy, hfields m hm, hmembers m hm⟩
    obtain ⟨p, hp, hpassed⟩ := hr.exists_passed ha ih (hreached m hm) htyped hdepth
    exact ⟨p, hp, fun k hk => hr.restores ha hpassed (Chain.everywhere_iff.mp htyped).1 hk⟩

/-- The two converters of a message of the latest version, found under their names. -/
structure BothWays (plan : Plan) (v : VersionId) (vp : VersionPlan) (m : MessageId)
    (down up : String) : Prop where
  version : plan.versions[v.index]? = some vp
  isLatest : (plan.chain.version v).isLatest
  unambiguous : (plan.chain.viewOf (plan.chain.version v)).Unambiguous
    (plan.chain.AsksFor (plan.chain.version v))
  down : (vp.converter? down).map (·.request) = some ⟨.toPrivate, .message m⟩
  up : (vp.converter? up).map (·.request) = some ⟨.toPublic, .message m⟩

/-- The latest version is the last public one. -/
theorem index_of_isLatest {plan : Plan} (hplan : plan.Generated) {v : VersionId} {vp : VersionPlan}
    (hvp : plan.versions[v.index]? = some vp) (hlatest : (plan.chain.version v).isLatest) :
    v.index + 2 = plan.chain.versions.size := by
  rw [hplan.linked.framed.isLatest_eq (hplan.getElem?_eq_some hvp).1] at hlatest
  exact beq_iff_eq.mp hlatest

namespace BothWays

variable {plan : Plan} {v : VersionId} {down up : String} (hways : BothWays plan v vp m down up)
include hways

/-- The version that is converted from is the last public one. -/
theorem index_eq (hplan : plan.Generated) : v.index + 2 = plan.chain.versions.size :=
  index_of_isLatest hplan hways.version hways.isLatest

/-- The latest version of a generated plan, with protobuf's unique names. -/
theorem atLatest (hplan : plan.Generated) (hmembers : plan.chain.UniqueMembers)
    (hvalues : plan.chain.UniqueValues) :
    AtLatest (plan.chain.viewOf (plan.chain.version v)) vp
      (plan.chain.AsksFor (plan.chain.version v)) plan.chain.versions.size := by
  have hframed := hplan.linked.framed
  obtain ⟨hlt, hok⟩ := hplan.getElem?_eq_some hways.version
  have hindex := hways.index_eq hplan
  have hprivate : (plan.chain.version v).isPrivate = false :=
    hframed.isPrivate_eq_false (by omega)
  refine ⟨hplan.linked, hmembers, hvalues, ?_,
    Plan.provides_of_versionPlan hok hprivate hways.unambiguous⟩
  show (plan.chain.version (plan.chain.version v).id).isLatest = true
  rw [hframed.version_id hlt]
  exact hways.isLatest

end BothWays

/-- The converter of a kind for a message that is found in the plan of a public version. -/
theorem exists_found {plan : Plan} (hplan : plan.Generated) {v : VersionId}
    (hv : v.index + 1 < plan.chain.versions.size) {vp : VersionPlan}
    (hvp : plan.versions[v.index]? = some vp) {function : String} {kind : ConverterKind}
    {m : MessageId} (hfound : (vp.converter? function).map (·.request) = some ⟨kind, .message m⟩) :
    ∃ x, vp.converter? function = some (.message x) ∧
      (plan.chain.viewOf (plan.chain.version v)).Asked (plan.chain.AsksFor (plan.chain.version v))
        ⟨kind, .message m⟩ ∧
      ((plan.chain.viewOf (plan.chain.version v)).messageConverter kind m).result = .ok x := by
  obtain ⟨x, hx, hrequest⟩ := Option.map_eq_some_iff.mp hfound
  obtain ⟨hasked, _, hok⟩ := hplan.asked hv hvp hx
  rw [hrequest] at hasked hok
  obtain ⟨y, rfl, hok', -⟩ := View.converter_of_message hok
  exact ⟨y, hx, hasked, hok'⟩

/-- **Down and up again.** In the latest version of a generated plan, with protobuf's unique names:
    if the records of a message and of all messages that it reaches lose nothing on the way to the
    private version, and the plain fields of those among them that are of an earlier version have
    private counterparts of their own, then every record of the message is made into a private one,
    of which the converter to the public version makes the record again if all that must be received
    is set.  It refuses the private record if a plain field or a oneof that must be received is
    missing.

    Whether a variant that must be received is set is asked for on its own: no converter checks it,
    and so of records in which such a variant alone is missing nothing is promised, neither that
    they are made again nor that they are refused. -/
theorem restored_of_generate {set : DescriptorSet} {config : Config} {plan : Plan}
    (h : Plan.generate set config = .ok plan) (hmembers : plan.chain.UniqueMembers)
    (hvalues : plan.chain.UniqueValues) {v : VersionId} {vp : VersionPlan} {m : MessageId}
    {down up : String} (hways : BothWays plan v vp m down up)
    (hmatched : ∀ n, plan.chain.Reaches m n → plan.chain.Matched vp n)
    (hearlier : ∀ n, plan.chain.Reaches m n → (plan.chain.message n).version ≠ v →
      plan.chain.FieldsApart n)
    {r : Record} (hr : plan.chain.WellTyped m r) :
    ∃ p, convertDown vp down r = .ok p ∧
      (plan.chain.Everywhere plan.chain.Received m r →
        plan.chain.Everywhere plan.chain.VariantsReceived m r → convertUp vp up none p = .ok r) ∧
      (¬plan.chain.Everywhere plan.chain.Received m r →
        ∃ e, convertUp vp up none p = .error e ∧ e.code = .invalidArgument) := by
  have hplan := Plan.generated_of_generate h
  have ha := hways.atLatest hplan hmembers hvalues
  have hpublic : v.index + 1 < plan.chain.versions.size := by
    have hindex := hways.index_eq hplan
    omega
  have hfields : ∀ n, plan.chain.Reaches m n → plan.chain.FieldsApart n := by
    intro n hn
    by_cases hversion : (plan.chain.message n).version = v
    · exact Plan.fieldsApart_of_generate h (by rw [hversion]; exact hways.isLatest)
        (by rw [hversion]; exact hpublic) (hmatched n hn).liveFields
    · exact hearlier n hn hversion
  have hbelow := undoneBelow ha (fun n hn k hk => hn.tail hk)
    (fun n hn => (hmatched n hn).converted) hfields fun n hn => (hmatched n hn).apart
  obtain ⟨x, hx, hasked, hokx⟩ := exists_found hplan hpublic hways.version hways.down
  obtain ⟨y, hy, hasked', hoky⟩ := exists_found hplan hpublic hways.version hways.up
  obtain ⟨p, hp, hrestores⟩ := hbelow (r.depth + 1) .refl hasked hasked' rfl hokx hoky hr
    (Nat.lt_succ_self _)
  -- the room that a conversion up allows for is enough for the private record
  have hback := hrestores _ (Nat.lt_succ_of_le (le_max_right 0 p.depth))
  refine ⟨p, ?_, fun hreceived _ => ?_, fun hmissing => ?_⟩
  · rw [convertDown_eq hx hokx rfl]
    exact hp
  · rw [convertUp_eq hy hoky rfl]
    exact hback.ok hreceived
  · rw [convertUp_eq hy hoky rfl]
    exact hback.refused hmissing

/-! ### Samples -/

/-- What is checked of the plan of the latest version by evaluation. -/
theorem exists_bothWays {plan : Plan} (hplan : plan.Generated)
    (hun : plan.chain.UnambiguousConverters) {v : VersionId} {m : MessageId} {down up : String}
    {P : VersionPlan → Prop} [DecidablePred P] (hlatest : (plan.chain.version v).isLatest)
    (h : (plan.versions[v.index]?).any (fun vp => decide (
      (vp.converter? down).map (·.request) = some ⟨.toPrivate, .message m⟩ ∧
      (vp.converter? up).map (·.request) = some ⟨.toPublic, .message m⟩ ∧ P vp)) = true) :
    ∃ vp, BothWays plan v vp m down up ∧ P vp := by
  have hframed := hplan.linked.framed
  cases hvp : plan.versions[v.index]? with
  | none =>
    rw [hvp] at h
    cases h
  | some vp =>
    rw [hvp, Option.any_some] at h
    obtain ⟨hdown, hup, hP⟩ := of_decide_eq_true h
    have hindex := index_of_isLatest hplan hvp hlatest
    have hid := hframed.version_id (hplan.getElem?_eq_some hvp).1
    exact ⟨vp, ⟨hvp, hlatest, hun _ (hframed.mem_publicVersions.mpr ⟨by rw [hid]; omega,
      by rw [hid]⟩), hdown, hup⟩, hP⟩

/-- An item of the sample: a kind, a list of parts, and a part as its choice. -/
def itemRecord : Record :=
  { message := "v2.Item"
    fields := [
      ("choice", .oneof "part" (.message "v2.Part" [("name", .str "lid")])),
      ("kind", .enumeration "NONE"),
      ("parts", .list [.message "v2.Part" [("name", .str "leg")], .message "v2.Part" []])] }

set_option maxRecDepth 10000 in
/-- An item of the second version of the sample. -/
theorem restored_sample : ∃ vp p, Plan.itemPlan.versions[1]? = some vp ∧
    convertDown vp "ToPrivateItem" itemRecord = .ok p ∧
    convertUp vp "ToPublicItem" none p = .ok itemRecord := by
  obtain ⟨hplanned, hvalues, hlatest, hclosed, hown, hchildren⟩ :
      (Plan.itemPlan.versions[1]?).any (fun vp => decide (
        (vp.converter? "ToPrivateItem").map (·.request) = some ⟨.toPrivate, .message ⟨3⟩⟩ ∧
        (vp.converter? "ToPublicItem").map (·.request) = some ⟨.toPublic, .message ⟨3⟩⟩ ∧
        ∀ n ∈ [⟨2⟩, ⟨3⟩], Plan.itemPlan.chain.Matched vp n)) = true ∧
      Plan.itemPlan.chain.UniqueValues ∧ (Plan.itemPlan.chain.version ⟨1⟩).isLatest = true ∧
      (∀ n ∈ [⟨2⟩, ⟨3⟩], (Plan.itemPlan.chain.message n).version = ⟨1⟩ ∧
        ∀ k ∈ Plan.itemPlan.chain.referred n, k ∈ [⟨2⟩, ⟨3⟩]) ∧
      (Plan.itemPlan.chain.Typed ⟨3⟩ itemRecord ∧ Plan.itemPlan.chain.Received ⟨3⟩ itemRecord ∧
        Plan.itemPlan.chain.VariantsReceived ⟨3⟩ itemRecord) ∧
      ∀ x ∈ Plan.itemPlan.chain.children ⟨3⟩ itemRecord, (Plan.itemPlan.chain.Typed x.1 x.2 ∧
        Plan.itemPlan.chain.Received x.1 x.2 ∧ Plan.itemPlan.chain.VariantsReceived x.1 x.2) ∧
        (Plan.itemPlan.chain.children x.1 x.2).isEmpty = true := by decide +kernel
  have hplan := Plan.generated_of_generate Plan.generate_itemSet
  obtain ⟨vp, hways, hmatched⟩ := exists_bothWays hplan (hplan.unambiguousConverters
    Plan.itemPlan_checked.2.1.uniqueFields Plan.itemPlan_checked.2.2.2) hlatest hplanned
  have hreached : ∀ n, Plan.itemPlan.chain.Reaches ⟨3⟩ n → n ∈ [⟨2⟩, ⟨3⟩] := fun n hn =>
    hn.mem_of_closed (by simp) fun k hk => (hclosed k hk).2
  obtain ⟨p, hp, hback, -⟩ := restored_of_generate Plan.generate_itemSet
    Plan.itemPlan_checked.2.1 hvalues hways (fun n hn => hmatched n (hreached n hn))
    (fun n hn hnot => absurd (hclosed n (hreached n hn)).1 hnot)
    (Chain.everywhere_of_children hown.1 fun x hx => ⟨(hchildren x hx).1.1, (hchildren x hx).2⟩)
  exact ⟨vp, p, hways.version, hp, hback
    (Chain.everywhere_of_children hown.2.1 fun x hx => ⟨(hchildren x hx).1.2.1, (hchildren x hx).2⟩)
    (Chain.everywhere_of_children hown.2.2 fun x hx =>
      ⟨(hchildren x hx).1.2.2, (hchildren x hx).2⟩)⟩

/-- A record converted down and up again, if both succeed. -/
def downAndUp (vp : VersionPlan) (down up : String) (r : Record) : Option Record :=
  ((convertDown vp down r).bind (convertUp vp up none)).toOption

/-- A round trip goes down and then up. -/
theorem downAndUp_eq_some {down up : String} {q : Record} (h : downAndUp vp down up r = some q) :
    ∃ p, convertDown vp down r = .ok p ∧ convertUp vp up none p = .ok q := by
  unfold downAndUp at h
  cases hok : (convertDown vp down r).bind (convertUp vp up none) with
  | error e =>
    rw [hok] at h
    cases h
  | ok q' =>
    rw [hok] at h
    obtain rfl := Option.some.inj h
    exact bind_eq_ok.mp hok

/-- A person of the sample with a name of the first version, both of whose fields are set. -/
def namedPerson : Record :=
  { message := "v2.Person"
    fields := [
      ("contact", .oneof "mail" (.str "m")),
      ("name", .message "v1.Name" [("name", .str "b"), ("old", .str "a")])] }

/-- A person of the sample whose contact is not the variant that must be received. -/
def calledPerson : Record :=
  { message := "v2.Person", fields := [("contact", .oneof "phone" (.str "p"))] }

set_option maxRecDepth 10000 in
/-- Two fields of an earlier version that have one private counterpart do not both come back, and a
    variant that must be received is not asked for. -/
theorem not_restored_of_merged : Plan.generate Plan.personSet {} = .ok Plan.personPlan ∧
    Plan.personPlan.chain.UniqueMembers ∧ Plan.personPlan.chain.UniqueValues ∧
    ∃ vp, BothWays Plan.personPlan ⟨1⟩ vp ⟨2⟩ "ToPrivatePerson" "ToPublicPerson" ∧
      (∀ n, Plan.personPlan.chain.Reaches ⟨2⟩ n → Plan.personPlan.chain.Matched vp n) ∧
      (Plan.personPlan.chain.WellTyped ⟨2⟩ namedPerson ∧
        Plan.personPlan.chain.Everywhere Plan.personPlan.chain.Received ⟨2⟩ namedPerson ∧
        Plan.personPlan.chain.Everywhere Plan.personPlan.chain.VariantsReceived ⟨2⟩ namedPerson ∧
        ∃ p q, convertDown vp "ToPrivatePerson" namedPerson = .ok p ∧
          convertUp vp "ToPublicPerson" none p = .ok q ∧ q ≠ namedPerson) ∧
      Plan.personPlan.chain.WellTyped ⟨2⟩ calledPerson ∧
        ¬Plan.personPlan.chain.Everywhere Plan.personPlan.chain.VariantsReceived ⟨2⟩ calledPerson ∧
        ∃ p q, convertDown vp "ToPrivatePerson" calledPerson = .ok p ∧
          convertUp vp "ToPublicPerson" none p = .ok q := by
  obtain ⟨hplanned, hvalues, hlatest, hclosed, hown, hchildren, hown', hchildren', hmissing⟩ :
      (Plan.personPlan.versions[1]?).any (fun vp => decide (
        (vp.converter? "ToPrivatePerson").map (·.request) = some ⟨.toPrivate, .message ⟨2⟩⟩ ∧
        (vp.converter? "ToPublicPerson").map (·.request) = some ⟨.toPublic, .message ⟨2⟩⟩ ∧
        (∀ n ∈ [⟨0⟩, ⟨2⟩], Plan.personPlan.chain.Matched vp n) ∧
        (downAndUp vp "ToPrivatePerson" "ToPublicPerson" namedPerson).any (fun q =>
          decide ((q.valueAt [("name", none)] "old").bind Value.string? = some "b")) = true ∧
        (downAndUp vp "ToPrivatePerson" "ToPublicPerson" calledPerson).isSome = true)) = true ∧
      Plan.personPlan.chain.UniqueValues ∧ (Plan.personPlan.chain.version ⟨1⟩).isLatest = true ∧
      (∀ n ∈ [⟨0⟩, ⟨2⟩], ∀ k ∈ Plan.personPlan.chain.referred n, k ∈ [⟨0⟩, ⟨2⟩]) ∧
      (Plan.personPlan.chain.Typed ⟨2⟩ namedPerson ∧
        Plan.personPlan.chain.Received ⟨2⟩ namedPerson ∧
        Plan.personPlan.chain.VariantsReceived ⟨2⟩ namedPerson) ∧
      (∀ x ∈ Plan.personPlan.chain.children ⟨2⟩ namedPerson, (Plan.personPlan.chain.Typed x.1 x.2 ∧
        Plan.personPlan.chain.Received x.1 x.2 ∧ Plan.personPlan.chain.VariantsReceived x.1 x.2) ∧
        (Plan.personPlan.chain.children x.1 x.2).isEmpty = true) ∧
      Plan.personPlan.chain.Typed ⟨2⟩ calledPerson ∧
      (∀ x ∈ Plan.personPlan.chain.children ⟨2⟩ calledPerson, Plan.personPlan.chain.Typed x.1 x.2 ∧
        (Plan.personPlan.chain.children x.1 x.2).isEmpty = true) ∧
      ¬Plan.personPlan.chain.VariantsReceived ⟨2⟩ calledPerson := by decide +kernel
  have hplan := Plan.generated_of_generate Plan.generate_personSet
  obtain ⟨vp, hways, hmatched, hnamed, hcalled⟩ := exists_bothWays hplan
    (hplan.unambiguousConverters Plan.personPlan_checked.2.1.uniqueFields
      Plan.personPlan_checked.2.2) hlatest hplanned
  have hreached : ∀ n, Plan.personPlan.chain.Reaches ⟨2⟩ n → n ∈ [⟨0⟩, ⟨2⟩] := fun n hn =>
    hn.mem_of_closed (by simp) hclosed
  refine ⟨Plan.generate_personSet, Plan.personPlan_checked.2.1, hvalues, vp, hways,
    fun n hn => hmatched n (hreached n hn), ⟨?_, ?_, ?_, ?_⟩, ?_, ?_, ?_⟩
  · exact Chain.everywhere_of_children hown.1 fun x hx =>
      ⟨(hchildren x hx).1.1, (hchildren x hx).2⟩
  · exact Chain.everywhere_of_children hown.2.1 fun x hx =>
      ⟨(hchildren x hx).1.2.1, (hchildren x hx).2⟩
  · exact Chain.everywhere_of_children hown.2.2 fun x hx =>
      ⟨(hchildren x hx).1.2.2, (hchildren x hx).2⟩
  · cases hq : downAndUp vp "ToPrivatePerson" "ToPublicPerson" namedPerson with
    | none =>
      rw [hq] at hnamed
      cases hnamed
    | some q =>
      rw [hq, Option.any_some] at hnamed
      obtain ⟨p, hp, hback⟩ := downAndUp_eq_some hq
      refine ⟨p, q, hp, hback, ?_⟩
      rintro rfl
      have hold := of_decide_eq_true hnamed
      revert hold
      decide
  · exact Chain.everywhere_of_children hown' hchildren'
  · exact fun h => hmissing (h _ .refl)
  · obtain ⟨q, hq⟩ := Option.isSome_iff_exists.mp hcalled
    obtain ⟨p, hp, hback⟩ := downAndUp_eq_some hq
    exact ⟨p, q, hp, hback⟩

end Service

end Lineage
