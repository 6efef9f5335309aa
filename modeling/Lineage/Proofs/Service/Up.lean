import Lineage.Proofs.Service.Down

namespace Lineage.Service

/-!
# One conversion up from the private version

What a converter that reads the private record alone writes for one member.

* `assignedUp_private` — a plain field, `mappedUp_private` — the variant of a oneof that is set,
  `mappedUp_private_none` — a oneof of which none is set,
* `checkReceived_eq`, `checkReceived_private` — what is checked of the record that is read.
-/

variable {w : View} {kind : ConverterKind} {id : MessageId} {asked : List Request}
  (convert : Convert) (function : String) {final : Record}

/-- A plain field on the way up from the private version. -/
theorem assignedUp_private (final : Record) (hshape : w.shape kind = .upFromPrivate) {f : Field}
    {a : Assignment} (hassigns : w.AssignsUp (w.head kind id) asked f a) :
    ∃ s, f.link.final = some s ∧
      w.Conveys (View.nestedUp (w.head kind id) true) f.id s s a.action asked ∧
      assignedUp convert function none final a = match final.get? (w.chain.field s).name with
        | none => .ok none
        | some u => (convert a.action u (some u)).map fun v => some (f.name, v) := by
  have hprivate : w.readsPrivate (w.head kind id).shape f = true := by
    simp [View.readsPrivate, View.head, hshape]
  obtain ⟨s, hs, hsource, hconveys⟩ := hassigns.source
  have hside := hassigns.side
  rw [hprivate] at hs hside hconveys
  refine ⟨s, hs, hconveys, ?_⟩
  unfold assignedUp
  rw [hside, hsource, hassigns.target]
  show (match final.get? (w.chain.field s).name with | none => _ | some v => _) = _
  cases final.get? (w.chain.field s).name with
  | none => rfl
  | some u =>
    show (do return some (f.name, ← convert a.action u (some u)) :
      Except Status (Option Mutation)) = (convert a.action u (some u)).map fun v => some (f.name, v)
    cases convert a.action u (some u) <;> rfl

/-- The nested converter of a variant that is read from the private record works against its type
    there. -/
theorem checkedVariant_private (nested : ConverterKind) (v : Field) (s : FieldId) :
    w.checkedVariant true nested v s = s := by
  unfold View.checkedVariant
  split
  · split <;> rfl
  · rfl

/-- Nothing is written for a oneof of which no variant is set. -/
theorem mappedUp_private_none (hshape : w.shape kind = .upFromPrivate) {names : List String}
    {o : Oneof} {g : OneofMapping} (hmaps : w.MapsUp (w.head kind id) asked names o g)
    {q : OneofId} (hq : o.link.final = some q) (hget : final.get? (w.chain.oneof q).name = none) :
    mappedUp convert function none final g = .ok none := by
  have hprivate : ((w.head kind id).shape == .upFromPrivate || o.deprecated) = true := by
    simp [View.head, hshape]
  obtain ⟨s, hs, hsource⟩ := hmaps.source
  have hside : g.side = .ofPrivate := by
    rw [hmaps.side, hprivate]
    rfl
  rw [hprivate] at hs
  obtain rfl := Option.some.inj (Eq.trans hs.symm hq)
  have hselect : selectArm g final = none := by
    unfold selectArm
    rw [hsource, hget]
  unfold mappedUp
  rw [hside]
  simp only [pick, bind, Except.bind, hselect]
  rfl

/-- **The variant that is set** in the private version is received as the variant that it is the
    counterpart of, if it is the counterpart of one alone. -/
theorem mappedUp_private {count : Nat} (h : w.chain.Linked count)
    (hmembers : w.chain.UniqueMembers) (hshape : w.shape kind = .upFromPrivate)
    (hpublic : (w.chain.message id).version.index + 1 < count) {id' : MessageId}
    (hlink : (w.chain.message id).link.final = some id') {o : OneofId}
    (ho : o ∈ (w.chain.message id).oneofs) {names : List String} {g : OneofMapping}
    (hmaps : w.MapsUp (w.head kind id) asked names (w.chain.oneof o) g) {f t : FieldId}
    {q : OneofId} (hf : f ∈ (w.chain.oneof o).fields) (hnames : (w.chain.field f).name ∉ names)
    (hq : (w.chain.oneof o).link.final = some q) (ht : (w.chain.field f).link.final = some t)
    (halone : ∀ f' ∈ (w.chain.oneof o).fields, (w.chain.field f').link.final = some t → f' = f)
    {u : Value} (hget : final.get? (w.chain.oneof q).name
      = some (.oneof (w.chain.field t).name u)) :
    ∃ action, w.Conveys (View.nestedUp (w.head kind id) true) f t t action asked ∧
      mappedUp convert function none final g = (convert action u (some u)).map fun v =>
        some ((w.chain.oneof o).name, .oneof (w.chain.field f).name v) := by
  have hwf := h.framed.wellFormed
  have hprivate : ((w.head kind id).shape == .upFromPrivate || (w.chain.oneof o).deprecated)
      = true := by simp [View.head, hshape]
  obtain ⟨s, hs, hsource⟩ := hmaps.source
  have hside : g.side = .ofPrivate := by
    rw [hmaps.side, hprivate]
    rfl
  have harmed := hmaps.armed
  have hvariants := hmaps.variants
  rw [hprivate] at hs harmed hvariants
  obtain rfl := Option.some.inj (Eq.trans hs.symm hq)
  have hfinal : ∀ {f' t' : FieldId}, f' ∈ (w.chain.oneof o).fields →
      (w.chain.field f').link.final = some t' → t' ∈ (w.chain.message id').fields := by
    intro f' t' hf' ht'
    obtain ⟨p, hp, hmem⟩ := h.field_final (hwf.mem_fields_of_variant ho hf') hpublic hlink
    obtain rfl := Option.some.inj (ht'.symm.trans hp)
    exact hmem
  obtain hskip | hleft | ⟨a, ha, harms⟩ := hvariants _ (List.mem_map_of_mem hf)
  · obtain ⟨hnot, -⟩ | hnone := hskip
    · cases hnot
    · cases ht.symm.trans hnone
  · exact absurd hleft hnames
  · have hname : a.source = (w.chain.field t).name := by
      obtain ⟨t', ht', hsource', -⟩ := harms.source
      obtain rfl := Option.some.inj (Eq.trans ht'.symm ht)
      exact hsource'
    obtain ⟨b, hb, hsource', hselect⟩ := selectArm_eq (by rw [hsource]; exact hget) ha hname
    obtain ⟨_, hvariant, harms'⟩ := harmed b hb
    obtain ⟨f', hf', rfl⟩ := List.mem_map.mp hvariant
    obtain ⟨t', ht', hname', hconveys⟩ := harms'.source
    -- an arm that reads the name reads the counterpart, which is that of the variant alone
    obtain rfl := hmembers.uniqueFields.eq (hfinal hf' ht') (hfinal hf ht)
      (hname'.symm.trans hsource')
    obtain rfl := halone f' hf' ht'
    rw [checkedVariant_private,
      hwf.field_id ((hwf.mem_fields id f').mp (hwf.mem_fields_of_variant ho hf')).1] at hconveys
    refine ⟨b.action, hconveys, ?_⟩
    unfold mappedUp
    rw [hside, hmaps.target]
    simp only [pick, bind, Except.bind, hselect, harms'.target, BEq.rfl, if_true]
    cases convert b.action u (some u) <;> rfl

/-- What is demanded of a record is there. -/
def isReceived (final : Record) (q : RequiredCheck) : Bool :=
  match q.target with
  | .field => final.isSet q.name
  | .oneof => (final.get? q.name).isSome

/-- A check of whichever record is picked. -/
theorem checkReceived_eq {function : String} {next : Option Record} {final record : Record}
    {q : RequiredCheck} (hpick : pick function next final q.side = .ok record) :
    checkReceived function next final q
      = if isReceived record q then .ok () else .error (.required q.publicName) := by
  unfold checkReceived isReceived
  rw [hpick]
  cases q.target <;> rfl

/-- A check of the private record. -/
theorem checkReceived_private {function : String} {final : Record} {q : RequiredCheck}
    (hside : q.side = .ofPrivate) :
    checkReceived function none final q
      = if isReceived final q then .ok () else .error (.required q.publicName) :=
  checkReceived_eq (by rw [hside]; rfl)

end Lineage.Service
