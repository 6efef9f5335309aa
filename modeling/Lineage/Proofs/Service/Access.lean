import Lineage.Proofs.Chain.Counterpart
import Lineage.Proofs.Service.Hop
import Lineage.Proofs.Service.Write

namespace Lineage

/-!
# Values inside records

* `Record.recordAt`, `Record.valueAt` — what is found along a path of fields and list positions,
* `convertWithin_item` — a conversion keeps what is found at a position at its position,
* `get?_up` — what a conversion up writes under the name of a field is made from what its assignment
  reads,
* `RunsUp` — a run of a converter that leads up; `RunsUp.get?` — where the value of a copied field
  comes from, `RunsUp.nested` — where the record in a message field comes from.
-/

/-- A message field reaches another one, unless it is unconvertible, as a message field with a type
    of the chain. -/
theorem classifyPair_message {f g : Field} {n : MessageId} (hkind : f.kind = .message)
    (htype : f.typeRef = some (.message n)) (h : classifyPair f g ≠ .unconvertible) :
    classifyPair f g = .convert .message ∧ g.kind = .message ∧ f.repeated = g.repeated := by
  unfold classifyPair at h ⊢
  rw [hkind, htype] at h ⊢
  split at h
  · exact absurd rfl h
  · rename_i hrepeated
    rw [if_neg hrepeated]
    have hsame : f.repeated = g.repeated := by simpa using hrepeated
    -- only a message field with a type of the chain is left on the other side
    cases hg : g.kind with
    | message =>
      rw [hg] at h
      cases htype' : g.typeRef with
      | none =>
        rw [htype'] at h
        exact absurd rfl h
      | some t =>
        rw [htype'] at h
        cases t with
        | message n' => exact ⟨rfl, rfl, hsame⟩
        | _ => exact absurd rfl h
    | _ =>
      rw [hg] at h
      exact absurd rfl h

namespace View

variable {w : View} {kind : ConverterKind}

/-- What is nested in a conversion up goes up. -/
theorem isDown_nestedUp (h : Head) (fromPrivate : Bool) :
    (nestedUp h fromPrivate).isDown = false := by
  unfold nestedUp
  split <;> rfl

/-- In the latest version, what leads up does not face a next version. -/
theorem facesNext_of_isLatest (hlatest : w.isLatest) (hup : kind.isDown = false) :
    w.facesNext kind = false := by
  cases kind <;> simp_all [facesNext, ConverterKind.isDown]

/-- A nested conversion of what is read from the private record reads nothing else. -/
theorem shape_nestedUp_private (hup : kind.isDown = false) (id : MessageId) (s : Subject) :
    w.shape (w.request (nestedUp (w.head kind id) true) s).kind = .upFromPrivate := by
  unfold nestedUp
  split
  · rfl
  · rename_i hnot
    simp only [head, Bool.or_eq_true, Bool.and_eq_true, beq_iff_eq, and_true, not_or] at hnot
    have hlatest : w.isLatest := by
      cases kind <;> simp_all [shape, facesNext, ConverterKind.isDown]
    exact Chain.shape_of_isLatest hlatest (Chain.isDown_request rfl s)

/-- What leads up reads the next version's record besides the private one, or the private
    one alone. -/
theorem shape_of_up (hup : kind.isDown = false) :
    w.shape kind = .upFromNext ∨ w.shape kind = .upFromPrivate := by
  unfold shape
  rw [hup]
  cases w.facesNext kind
  · exact .inr rfl
  · exact .inl rfl

/-- A converter that reads anything from the next version's record reads that record. -/
theorem shape_of_readsNext (hup : kind.isDown = false) {f : Field}
    (hnext : w.readsPrivate (w.shape kind) f = false) : w.shape kind = .upFromNext := by
  simp only [readsPrivate, Bool.or_eq_false_iff, beq_eq_false_iff_ne] at hnext
  exact (shape_of_up hup).resolve_right hnext.1.1

/-- Only converters to the public type read the next version's record. -/
theorem kind_of_upFromNext (hup : kind.isDown = false) (hshape : w.shape kind = .upFromNext) :
    kind = .toPublic := by
  cases kind with
  | toPublic => rfl
  | toDeprecatedPublic => cases hshape
  | _ => cases hup

/-- A nested conversion of what is read from the next version's record reads the private record
    besides. -/
theorem shape_nestedUp_next (hup : kind.isDown = false) (id : MessageId) {f : Field} {s : Subject}
    (hs : subjectOf f.typeRef = some s) (hnext : w.readsPrivate (w.shape kind) f = false) :
    w.request (nestedUp (w.head kind id) false) s = ⟨.toPublic, s⟩ ∧
      w.shape .toPublic = .upFromNext := by
  have hshape := shape_of_readsNext hup hnext
  simp only [readsPrivate, Bool.or_eq_false_iff] at hnext
  have hlive : w.isDeprecated s = false := by simpa [typeDeprecated, hs] using hnext.2
  obtain rfl := kind_of_upFromNext hup hshape
  have hnested : nestedUp (w.head .toPublic id) false = .toPublic := by simp [nestedUp, head]
  rw [hnested]
  exact ⟨request_of_live hlive, hshape⟩

end View

namespace Service

/-! ### Paths -/

/-- What a value holds at a position of a list, or the value itself if no position is asked for. -/
def Value.item : Option Nat → Value → Option Value
  | none, v => some v
  | some i, .list items => items[i]?
  | some _, _ => none

/-- The record that a value holds at a position, if one is asked for. -/
def Value.recordOf (position : Option Nat) (v : Value) : Option Record :=
  (v.item position).bind Value.record?

namespace Record

/-- The record that a field holds. -/
def nested (r : Record) (name : String) (position : Option Nat) : Option Record :=
  (r.get? name).bind (·.recordOf position)

/-- The record at the end of a path of fields, each with a position if it is repeated. -/
def recordAt : List (String × Option Nat) → Record → Option Record
  | [], r => some r
  | (name, position) :: rest, r => (r.nested name position).bind (recordAt rest)

/-- The value of a field of the record at the end of a path. -/
def valueAt (r : Record) (path : List (String × Option Nat)) (name : String) : Option Value :=
  (r.recordAt path).bind (·.get? name)

@[simp] theorem recordAt_nil (r : Record) : r.recordAt [] = some r := rfl

@[simp] theorem recordAt_cons (r : Record) (name : String) (position : Option Nat)
    (rest : List (String × Option Nat)) :
    r.recordAt ((name, position) :: rest) = (r.nested name position).bind (recordAt rest) := rfl

/-- A field that is missing holds no record. -/
theorem nested_of_none {r : Record} {name : String} (h : r.get? name = none)
    (position : Option Nat) : r.nested name position = none := by
  rw [nested, h]
  rfl

/-- A field that is there holds what its value holds. -/
theorem nested_of_some {r : Record} {name : String} {v : Value} (h : r.get? name = some v)
    (position : Option Nat) : r.nested name position = v.recordOf position := by
  rw [nested, h]
  rfl

/-- The record in a field, if there is a field. -/
theorem bind_nested (r : Record) (name : Option String) (position : Option Nat) :
    ((name.bind r.get?).bind (Value.item position)).bind Value.record?
      = name.bind (r.nested · position) := by
  cases name with
  | none => rfl
  | some name =>
    show ((r.get? name).bind (Value.item position)).bind Value.record?
      = (r.get? name).bind (Value.recordOf position)
    cases r.get? name <;> rfl

end Record

/-! ### Conversions of what values hold -/

/-- Each item is converted with the private item at its position. -/
theorem convertItems_getElem? {f : Value → Option Value → Except Status Value}
    {vs ps us : List Value} (h : convertItems f vs ps = .ok us) (i : Nat) :
    vs[i]? = none ∧ us[i]? = none ∨
      ∃ v u, vs[i]? = some v ∧ us[i]? = some u ∧ f v ps[i]? = .ok u := by
  -- by the values, from which the private items are taken off one by one
  induction vs generalizing ps us i with
  | nil =>
    obtain rfl := Except.ok.inj h
    exact .inl ⟨rfl, rfl⟩
  | cons v vs ih =>
    obtain ⟨first, hfirst, h⟩ := bind_eq_ok.mp h
    obtain ⟨rest, hrest, h⟩ := bind_eq_ok.mp h
    obtain rfl := pure_eq_ok.mp h
    cases i with
    | zero =>
      refine .inr ⟨v, first, rfl, rfl, ?_⟩
      rw [← List.head?_eq_getElem?]
      exact hfirst
    | succ i =>
      have hitem := ih hrest i
      rw [List.getElem?_tail] at hitem
      exact hitem

/-- The conversion of a value that is no list, by a message converter, makes a record into
    a record. -/
theorem convertNamed_message {vp : VersionPlan} {convert : Convert} {function : String}
    {x : MessageConverter} (hx : vp.converter? function = some (.message x)) {v u : Value}
    {besides : Option Value} (h : convertNamed vp convert function v besides = .ok u) :
    ∃ input output, v.record? = some input ∧ u = output.toValue ∧
      convertRecord convert x input besides = .ok output := by
  unfold convertNamed at h
  rw [hx] at h
  split at h
  · rename_i heq
    cases heq
  · rename_i y name fields heq
    obtain rfl := Converter.message.inj (Option.some.inj heq)
    obtain ⟨output, houtput, rfl⟩ := map_eq_ok.mp h
    exact ⟨_, output, rfl, rfl, houtput⟩
  · cases h
  · cases h

/-- The items of a private list. -/
def privateItems : Option Value → List Value
  | some (.list items) => items
  | _ => []

/-- The private items are those of the private value. -/
theorem privateItems_getElem? (besides : Option Value) (i : Nat) :
    (privateItems besides)[i]? = besides.bind (Value.item (some i)) := by
  cases besides with
  | none => rfl
  | some p => cases p <;> rfl

/-- A list is converted item by item. -/
theorem convertWithin_list {vp : VersionPlan} {n : Nat} {reference : ConverterRef}
    {items : List Value} {besides : Option Value} :
    convertWithin vp (n + 1) (.convert reference) (.list items) besides
      = (convertItems (convertWithin vp n (.convert reference)) items
          (privateItems besides)).map .list := by
  cases besides with
  | none => rfl
  | some p => cases p <;> rfl

/-- **Items of a conversion.** A record that a message converter finds in a value is converted to
    the one at its place, with what the private value holds there. -/
theorem convertWithin_item {vp : VersionPlan} {n : Nat} {reference : ConverterRef}
    {x : MessageConverter} (hx : vp.converter? reference.function = some (.message x))
    {v u : Value} {besides : Option Value}
    (h : convertWithin vp n (.convert reference) v besides = .ok u) (position : Option Nat) :
    v.recordOf position = none ∧ u.recordOf position = none ∨
      ∃ k input output, v.recordOf position = some input ∧ u.recordOf position = some output ∧
        convertRecord (convertWithin vp k) x input (besides.bind (Value.item position))
          = .ok output := by
  -- items of a list may be lists again
  induction n generalizing v u besides position with
  | zero => cases h
  | succ n ih =>
    by_cases hlist : ∃ items, v = .list items
    · obtain ⟨items, rfl⟩ := hlist
      rw [convertWithin_list] at h
      obtain ⟨us, hus, rfl⟩ := map_eq_ok.mp h
      cases position with
      | none => exact .inl ⟨rfl, rfl⟩
      | some i =>
        obtain ⟨hnone, hnone'⟩ | ⟨a, b, ha, hb, hab⟩ := convertItems_getElem? hus i
        · refine .inl ⟨?_, ?_⟩
          · simp [Value.recordOf, Value.item, hnone]
          · simp [Value.recordOf, Value.item, hnone']
        · rw [privateItems_getElem?] at hab
          have hown : ∀ b : Option Value, b.bind (Value.item none) = b := by
            rintro (_ | _) <;> rfl
          have hitem := ih hab none
          rw [hown] at hitem
          simpa only [Value.recordOf, Value.item, ha, hb, Option.bind_some] using hitem
    · have hconvert :
          convertNamed vp (convertWithin vp n) reference.function v besides = .ok u := by
        cases v <;> first | exact h | exact absurd ⟨_, rfl⟩ hlist
      obtain ⟨input, output, hv, rfl, hrun⟩ := convertNamed_message hx hconvert
      cases position with
      | none =>
        refine .inr ⟨n, input, output, hv, rfl, ?_⟩
        rw [← hrun]
        cases besides <;> rfl
      | some i =>
        refine .inl ⟨?_, rfl⟩
        cases v <;> first | rfl | exact absurd ⟨_, rfl⟩ hlist

/-- The record in a field of a converted record is made from that in the field that it is
    made of. -/
theorem nested_converted {vp : VersionPlan} {n : Nat} {reference : ConverterRef}
    {x : MessageConverter} (hx : vp.converter? reference.function = some (.message x))
    {record out : Record} {name target : String} {besides : Value → Option Value}
    (h : record.get? name = none ∧ out.get? target = none ∨
      ∃ v u, record.get? name = some v ∧ out.get? target = some u ∧
        convertWithin vp n (.convert reference) v (besides v) = .ok u) (position : Option Nat) :
    out.nested target position = none ∧ record.nested name position = none ∨
      ∃ v k b a, record.get? name = some v ∧ out.nested target position = some a ∧
        record.nested name position = some b ∧
        convertRecord (convertWithin vp k) x b ((besides v).bind (Value.item position))
          = .ok a := by
  obtain ⟨hget, hget'⟩ | ⟨v, u, hv, hu, hconvert⟩ := h
  · exact .inl ⟨Record.nested_of_none hget' position, Record.nested_of_none hget position⟩
  · rw [Record.nested_of_some hv, Record.nested_of_some hu]
    obtain ⟨hitem, hitem'⟩ | ⟨k, b, a, hb, ha, hrecord⟩ := convertWithin_item hx hconvert position
    · exact .inl ⟨hitem', hitem⟩
    · exact .inr ⟨v, k, b, a, hv, ha, hb, hrecord⟩

/-! ### What a conversion up writes -/

section
variable {w : View} {kind : ConverterKind} {id : MessageId} {x : MessageConverter} {h : View.Head}
  {asked : List Request}

/-- The assignments of one field do the same. -/
theorem assignedUp_congr {f : Field} {a b : Assignment} (ha : w.AssignsUp h asked f a)
    (hb : w.AssignsUp h asked f b) (convert : Convert) (function : String) (next : Option Record)
    (final : Record) :
    assignedUp convert function next final a = assignedUp convert function next final b := by
  have hside : a.side = b.side := ha.side.trans hb.side.symm
  have htarget : a.target = b.target := ha.target.trans hb.target.symm
  have hbesides : a.privateSource = b.privateSource := by rw [ha.besides, hb.besides, hside]
  obtain ⟨s, hs, hsource, hconveys⟩ := ha.source
  obtain ⟨s', hs', hsource', hconveys'⟩ := hb.source
  obtain rfl := Option.some.inj (hs.symm.trans hs')
  have haction : a.action = b.action := hconveys.unique hconveys'
  unfold assignedUp
  rw [hside, htarget, hbesides, hsource, hsource', haction]

/-- **What a conversion up writes** under the name of a plain field is what the field's assignment
    makes, if it reads anything. -/
theorem get?_up (hmembers : w.chain.UniqueMembers)
    (hx : (w.messageConverter kind id).result = .ok x) (hup : kind.isDown = false)
    {convert : Convert} {next : Option Record} {final out : Record}
    (hrun : runUp convert x next final = .ok out) {f : FieldId}
    (hf : f ∈ (w.chain.message id).fields) {a : Assignment} (ha : a ∈ x.assignments)
    (hassigns : w.AssignsUp (w.head kind id) (w.messageConverter kind id).requests
      (w.chain.field f) a) :
    ∃ source, pick x.function next final a.side = .ok source ∧
      (source.get? a.source = none ∧ out.get? (w.chain.field f).name = none ∨
        ∃ v u, source.get? a.source = some v ∧ out.get? (w.chain.field f).name = some u ∧
          convert a.action v (if a.side == .ofPrivate then some v else
            a.privateSource.bind final.get?) = .ok u) := by
  have hparts := View.messageConverter_up hx hup
  obtain ⟨ws, rfl, hassigned, -, hws⟩ := runUp_eq_ok hrun
  -- what is written under the name is written by an assignment of the field
  have howner : ∀ u, ((w.chain.field f).name, u) ∈ ws →
      assignedUp convert x.function next final a = .ok (some ((w.chain.field f).name, u)) := by
    intro u hu
    obtain ⟨b, hb, hwrite⟩ | ⟨o, ho, hwrite⟩ := (hws _).mp hu
    · obtain ⟨_, hfield, hb'⟩ := hparts.assigned b hb
      obtain ⟨g, hg, -, rfl⟩ := Chain.mem_plainFields.mp hfield
      obtain rfl :=
        hmembers.uniqueFields.eq hg hf (hb'.target.symm.trans (assignedUp_target hwrite))
      rw [assignedUp_congr hassigns hb']
      exact hwrite
    · -- a oneof has another name than the field
      obtain ⟨_, honeof, hmaps⟩ := hparts.mapped o ho
      obtain ⟨o', ho', rfl⟩ := List.mem_map.mp honeof
      exact absurd ((mappedUp_target hwrite).symm.trans hmaps.target)
        (hmembers.field_ne_oneof hf ho')
  -- so there is what the assignment makes, and nothing if it reads nothing
  obtain ⟨made, hmade⟩ := hassigned a ha
  obtain ⟨source, hsource, hwrite⟩ := bind_eq_ok.mp hmade
  refine ⟨source, hsource, ?_⟩
  cases hget : source.get? a.source with
  | none =>
    rw [hget] at hwrite
    obtain rfl := pure_eq_ok.mp hwrite
    refine .inl ⟨rfl, ?_⟩
    cases hout : (({ message := x.publicName } : Record).write ws).get? (w.chain.field f).name with
    | none => rfl
    | some u =>
      have hmem := howner u (Record.mem_of_get?_write hout)
      cases hmade.symm.trans hmem
  | some v =>
    rw [hget] at hwrite
    obtain ⟨u, hu, hwrite⟩ := bind_eq_ok.mp hwrite
    obtain rfl := pure_eq_ok.mp hwrite
    rw [hassigns.target] at hmade
    refine .inr ⟨v, u, rfl, ?_, hu⟩
    refine Record.get?_write_eq ((hws _).mpr (.inl ⟨a, ha, hmade⟩)) fun u' hu' => ?_
    have hsame := (howner u' hu').symm.trans hmade
    exact (Prod.mk.inj (Option.some.inj (Except.ok.inj hsame))).2

/-- Where the assignment of a field reads: the private record, or the next version's record and the
    private one besides. -/
theorem pick_up (hup : kind.isDown = false) {f : Field} {a : Assignment}
    (hassigns : w.AssignsUp (w.head kind id) asked f a) {function : String} {next : Option Record}
    {final source : Record} (hpick : pick function next final a.side = .ok source) :
    (w.readsPrivate (w.shape kind) f = true ∧ source = final ∧ a.side = .ofPrivate ∧
        ∃ p, f.link.final = some p ∧ a.source = (w.chain.field p).name ∧
          w.Conveys (View.nestedUp (w.head kind id) true) f.id p p a.action asked) ∨
      w.readsPrivate (w.shape kind) f = false ∧ w.shape kind = .upFromNext ∧ next = some source ∧
        a.side = .ofNext ∧ a.privateSource = f.link.final.map (fun p => (w.chain.field p).name) ∧
        ∃ g, f.link.next = some g ∧ a.source = (w.chain.field g).name ∧
          w.Conveys (View.nestedUp (w.head kind id) false) f.id g g a.action asked := by
  obtain ⟨s, hs, hsource, hconveys⟩ := hassigns.source
  have hside := hassigns.side
  change a.side = View.upSide (w.readsPrivate (w.shape kind) f) at hside
  change View.upLink (w.readsPrivate (w.shape kind) f) f.link = some s at hs
  change w.Conveys (View.nestedUp (w.head kind id) (w.readsPrivate (w.shape kind) f)) f.id s s
    a.action asked at hconveys
  rw [hside] at hpick
  -- the side of the assignment says which record is picked
  cases hprivate : w.readsPrivate (w.shape kind) f with
  | true =>
    rw [hprivate] at hpick hs hside hconveys
    exact .inl ⟨rfl, (Except.ok.inj hpick).symm, hside, s, hs, hsource, hconveys⟩
  | false =>
    rw [hprivate] at hpick hs hside hconveys
    have hbesides := hassigns.besides
    rw [hside] at hbesides
    exact .inr ⟨rfl, View.shape_of_readsNext hup hprivate, pick_ofNext.mp hpick, hside,
      hbesides, s, hs, hsource, hconveys⟩

end

/-! ### Runs of converters that lead up -/

/-- A converter that leads up, of a kind for a message, and is asked for makes a record. -/
structure RunsUp (w : View) (vp : VersionPlan) (Root : Request → Prop) (kind : ConverterKind)
    (id : MessageId) (next : Option Record) (final out : Record) : Prop where
  asked : w.Asked Root ⟨kind, .message id⟩
  up : kind.isDown = false
  exists_run : ∃ x n, (w.messageConverter kind id).result = .ok x ∧
    runUp (convertWithin vp n) x next final = .ok out

section
variable {w : View} {vp : VersionPlan} {Root : Request → Prop} {kind : ConverterKind}
  {id : MessageId} {next : Option Record} {final out : Record} {count : Nat} {f : FieldId}

/-- **Copied fields.** The value of a copied field is that of its private counterpart, or that of
    its next counterpart. -/
theorem RunsUp.get? (hlinked : w.chain.Linked count) (hmembers : w.chain.UniqueMembers)
    (h : RunsUp w vp Root kind id next final out) (hf : f ∈ (w.chain.message id).fields)
    (hcopied : w.chain.Copied f) :
    (∃ p, (w.chain.field f).link.final = some p ∧
        out.get? (w.chain.field f).name = final.get? (w.chain.field p).name) ∨
      w.shape kind = .upFromNext ∧ ∃ record g, next = some record ∧
        (w.chain.field f).link.next = some g ∧
        out.get? (w.chain.field f).name = record.get? (w.chain.field g).name := by
  obtain ⟨-, hup, x, n, hok, hrun⟩ := h
  have hwf := hlinked.framed.wellFormed
  have hid : (w.chain.field f).id = f := hwf.field_id ((hwf.mem_fields id f).mp hf).1
  have hleads : ∀ {b s}, View.upLink b (w.chain.field f).link = some s → w.chain.Leads f s := by
    rintro (_ | _) s hs
    · exact .inl hs
    · exact .inr hs
  obtain ⟨s, hs, hnone, -⟩ | ⟨a, ha, hassigns⟩ := (View.messageConverter_up hok hup).fields _
    (Chain.mem_plainFields.mpr ⟨f, hf, hcopied.plain, rfl⟩)
  · -- a copied field is never unconverted
    rw [hid, View.action_copy (hcopied.classifyPair (hleads hs))] at hnone
    cases hnone
  · obtain ⟨source, hpick, hget⟩ := get?_up hmembers hok hup hrun hf ha hassigns
    have haction : a.action = .copy := by
      obtain ⟨s, hs, -, hconveys⟩ := hassigns.source
      have hresult := hconveys.result
      rw [hid, View.action_copy (hcopied.classifyPair (hleads hs))] at hresult
      exact (Option.some.inj (Except.ok.inj hresult)).symm
    -- whatever is read is there afterwards
    have hout : out.get? (w.chain.field f).name = source.get? a.source := by
      obtain ⟨hnone, hnone'⟩ | ⟨y, u, hy, hu, hconvert⟩ := hget
      · rw [hnone, hnone']
      · rw [haction, convertWithin_copy] at hconvert
        rw [hy, hu, Except.ok.inj hconvert]
    obtain ⟨-, rfl, -, p, hp, hsource, -⟩ | ⟨-, hshape, rfl, -, -, g, hg, hsource, -⟩ :=
      pick_up hup hassigns hpick
    · exact .inl ⟨p, hp, hsource ▸ hout⟩
    · exact .inr ⟨hshape, source, g, rfl, hg, hsource ▸ hout⟩

/-- What is conveyed to or from a message field is converted by the converter of its type, if that
    is asked for, and the other field has a counterpart of the type as its type. -/
theorem exists_nested (hprovides : vp.Provides w Root) {asked : List Request}
    (hasked : ∀ q ∈ asked, w.Asked Root q) {s : FieldId} {a : Action}
    (hconveys : w.Conveys kind f s s a asked) (hkind : (w.chain.field f).kind = .message)
    {m : MessageId} (htype : (w.chain.field f).typeRef = some (.message m)) :
    (w.chain.field s).kind = .message ∧
      (w.chain.field f).repeated = (w.chain.field s).repeated ∧
      (∃ m', (w.chain.field s).typeRef = some (.message m') ∧
        w.side (w.request kind (.message m)).kind (w.chain.message m).link = some m') ∧
      ∃ y reference, a = .convert reference ∧
        vp.converter? reference.function = some (.message y) ∧
        w.Asked Root ⟨(w.request kind (.message m)).kind, .message m⟩ ∧
        (w.messageConverter (w.request kind (.message m)).kind m).result = .ok y := by
  -- an action there is, so the pair is convertible, and a message field can only be converted
  have hpropagates : classifyPair (w.chain.field f) (w.chain.field s) ≠ .unconvertible := by
    intro hnone
    obtain ⟨-, hcopy | hshared⟩ | ⟨k, _, _, hconvert, -⟩ := hconveys.cases
    · cases hnone.symm.trans hcopy
    · cases hnone.symm.trans hshared
    · cases hnone.symm.trans hconvert
  obtain ⟨hconvert, hkind', hrepeated⟩ := classifyPair_message hkind htype hpropagates
  obtain ⟨-, hcopy | hshared⟩ | ⟨_, subject, t, -, hsubject, hother, hcounterpart, rfl, hmem⟩ :=
    hconveys.cases
  · cases hconvert.symm.trans hcopy
  · cases hconvert.symm.trans hshared
  · rw [htype] at hsubject
    obtain rfl := Option.some.inj hsubject
    obtain ⟨m', hside, rfl⟩ := Option.map_eq_some_iff.mp hcounterpart
    have htype' : (w.chain.field s).typeRef = some (.message m') := by
      revert hother
      unfold View.subjectOf
      split
      · rename_i heq
        rw [heq]
        rintro ⟨⟩
        rfl
      · rintro ⟨⟩
      · rintro ⟨⟩
    obtain ⟨y, hy, hok, -⟩ := hprovides.message (hasked _ hmem)
    exact ⟨hkind', hrepeated, ⟨m', htype', hside⟩, y, _, rfl, hy, hasked _ hmem, hok⟩

/-- What is conveyed to or from an enum field is converted by the converter of its enum, if that is
    asked for. -/
theorem exists_nested_enumeration (hprovides : vp.Provides w Root) {asked : List Request}
    (hasked : ∀ q ∈ asked, w.Asked Root q) {s : FieldId} {a : Action}
    (hconveys : w.Conveys kind f s s a asked) {e : EnumId}
    (htype : (w.chain.field f).typeRef = some (.enumeration e)) {k : ConvertKind}
    (hclass : classifyPair (w.chain.field f) (w.chain.field s) = .convert k) :
    ∃ y table reference, a = .convert reference ∧
      vp.converter? reference.function = some (.enumeration y) ∧
      w.enumConverter (w.request kind (.enumeration e)).kind e = .ok (y, table) := by
  obtain ⟨-, hcopy | hshared⟩ | ⟨_, subject, t, -, hsubject, -, -, rfl, hmem⟩ := hconveys.cases
  · cases hclass.symm.trans hcopy
  · cases hclass.symm.trans hshared
  · rw [htype] at hsubject
    obtain rfl := Option.some.inj hsubject
    obtain ⟨y, table, hy, hok⟩ := hprovides.enumeration (hasked _ hmem)
    exact ⟨y, table, _, rfl, hy, hok⟩

section
variable {nested : ConverterKind} {m : MessageId} (hasked : w.Asked Root ⟨nested, .message m⟩)
  (hup : nested.isDown = false) {y : MessageConverter} {k : Nat} {b a : Record}
  {besides : Option Value} (hy : (w.messageConverter nested m).result = .ok y)
  (h : convertRecord (convertWithin vp k) y b besides = .ok a)
include hasked hup hy h

/-- A record that is converted up from the private record alone is made from it. -/
theorem runsUp_of_private (hshape : w.shape nested = .upFromPrivate) :
    RunsUp w vp Root nested m none b a := by
  unfold convertRecord at h
  rw [(View.messageConverter_spec hy).shape, hshape] at h
  exact ⟨hasked, hup, y, k, hy, h⟩

/-- A record that is converted up from the next version's record is made from it and the record
    besides. -/
theorem runsUp_of_next (hshape : w.shape nested = .upFromNext) :
    RunsUp w vp Root nested m (some b) ((besides.bind Value.record?).getD {}) a := by
  unfold convertRecord at h
  rw [(View.messageConverter_spec hy).shape, hshape] at h
  exact ⟨hasked, hup, y, k, hy, h⟩

end

/-- **Message fields.** The record in a message field that is not left out is made from that in its
    private counterpart, or from that in its next counterpart and the one in its private counterpart
    besides. -/
theorem RunsUp.nested (hlinked : w.chain.Linked count) (hmembers : w.chain.UniqueMembers)
    (hprovides : vp.Provides w Root) (h : RunsUp w vp Root kind id next final out)
    (hf : f ∈ (w.chain.message id).fields) (hplain : (w.chain.field f).oneof = none)
    (hcrosses : ∀ x, (w.messageConverter kind id).result = .ok x →
      (w.chain.field f).name ∉ x.unconverted)
    (hkind : (w.chain.field f).kind = .message) {m : MessageId}
    (htype : (w.chain.field f).typeRef = some (.message m)) (position : Option Nat) :
    (∃ p, (w.chain.field f).link.final = some p ∧
        (out.nested (w.chain.field f).name position = none ∧
            final.nested (w.chain.field p).name position = none ∨
          ∃ nested a b, out.nested (w.chain.field f).name position = some a ∧
            final.nested (w.chain.field p).name position = some b ∧
            w.shape nested = .upFromPrivate ∧ RunsUp w vp Root nested m none b a)) ∨
      w.shape kind = .upFromNext ∧ ∃ record g m', next = some record ∧
        (w.chain.field f).link.next = some g ∧ (w.chain.field g).kind = .message ∧
        (w.chain.field g).repeated = (w.chain.field f).repeated ∧
        (w.chain.field g).typeRef = some (.message m') ∧ (w.chain.message m).link.next = some m' ∧
        (out.nested (w.chain.field f).name position = none ∧
            record.nested (w.chain.field g).name position = none ∨
          ∃ a b, out.nested (w.chain.field f).name position = some a ∧
            record.nested (w.chain.field g).name position = some b ∧
            RunsUp w vp Root .toPublic m (some b) ((((w.chain.field f).link.final.bind fun p =>
              final.nested (w.chain.field p).name position)).getD {}) a) := by
  obtain ⟨hasked, hup, x, n, hok, hrun⟩ := h
  have hwf := hlinked.framed.wellFormed
  have hid : (w.chain.field f).id = f := hwf.field_id ((hwf.mem_fields id f).mp hf).1
  obtain ⟨x', -, hok', hrequests⟩ := hprovides.message hasked
  obtain rfl := Except.ok.inj (hok.symm.trans hok')
  obtain ⟨_, -, -, hleft⟩ | ⟨a, ha, hassigns⟩ := (View.messageConverter_up hok hup).fields _
    (Chain.mem_plainFields.mpr ⟨f, hf, hplain, rfl⟩)
  · exact absurd hleft (hcrosses x hok)
  obtain ⟨source, hpick, hget⟩ := get?_up hmembers hok hup hrun hf ha hassigns
  obtain ⟨-, rfl, -, p, hp, hsource, hconveys⟩ |
    ⟨hprivate, hshape, rfl, hside, hbesides, g, hg, hsource, hconveys⟩ :=
      pick_up hup hassigns hpick
  · -- the private record alone
    rw [hid] at hconveys
    obtain ⟨-, -, -, y, reference, haction, hy, hnested, hoky⟩ :=
      exists_nested hprovides hrequests hconveys hkind htype
    have hfrom := View.shape_nestedUp_private hup id (.message m) (w := w)
    rw [hsource, haction] at hget
    refine .inl ⟨p, hp, (nested_converted hy hget position).imp_right ?_⟩
    rintro ⟨_, k, b, a, -, ha, hb, hrecord⟩
    exact ⟨_, a, b, ha, hb, hfrom, runsUp_of_private hnested
      (Chain.isDown_request (View.isDown_nestedUp _ _) _) hoky hrecord hfrom⟩
  · -- the next version's record, with the private one besides
    rw [hid] at hconveys
    obtain ⟨hkind', hrepeated, ⟨m', htype', hlink⟩, y, reference, haction, hy, hnested, hoky⟩ :=
      exists_nested hprovides hrequests hconveys hkind htype
    obtain ⟨hrequest, hfrom⟩ := View.shape_nestedUp_next (w := w) hup id
      (f := w.chain.field f) (s := .message m) (by rw [htype]; rfl) hprivate
    rw [hrequest] at hlink hnested hoky
    rw [View.side, if_pos (View.facesNext_of_upFromNext hfrom)] at hlink
    rw [hsource, haction, hside, hbesides] at hget
    refine .inr ⟨hshape, source, g, m', rfl, hg, hkind', hrepeated.symm, htype', hlink,
      (nested_converted hy hget position).imp_right ?_⟩
    rintro ⟨value, k, b, a, -, ha, hb, hrecord⟩
    have hruns := runsUp_of_next hnested rfl hoky hrecord hfrom
    rw [if_neg (by decide), Record.bind_nested, Option.bind_map] at hruns
    exact ⟨a, b, ha, hb, hruns⟩

end

end Service

end Lineage
