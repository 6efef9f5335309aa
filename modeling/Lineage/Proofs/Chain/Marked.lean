import Lineage.Proofs.Chain.Claims

namespace Lineage

/-!
# Messages that methods use

* `Chain.IsRequest`, `Chain.IsResponse` — some method takes or returns the message,
* `Marked` — exactly the requests and responses are marked as such,
* `SameMarks` — what a declaration keeps that is no method, `Marked.addMethod` — what a method adds,
* `marked_of_ofPackages` — chains as they are built.
-/

/-- The marks of a message: whether some method takes it, and whether some method returns it. -/
def Message.marks (m : Message) : Bool × Bool := (m.isInput, m.isOutput)

namespace Chain

/-- Some method takes the message. -/
def IsRequest (c : Chain) (m : MessageId) : Prop := ∃ r ∈ c.methods, r.input = m

/-- Some method returns the message. -/
def IsResponse (c : Chain) (m : MessageId) : Prop := ∃ r ∈ c.methods, r.output = m

/-- The messages are at their positions, and exactly those that methods use are marked. -/
structure Marked (c : Chain) : Prop where
  ids : c.messages.map (·.id.index) = .range c.messages.size
  requests : ∀ m, (c.message m).isInput ↔ c.IsRequest m
  responses : ∀ m, (c.message m).isOutput ↔ c.IsResponse m

variable {source : AnnotationSource} {c c' : Chain}

/-! ### Declarations that are no methods -/

/-- The methods are the same, and so are the marks of every message. -/
structure SameMarks (c c' : Chain) : Prop where
  methods : c'.methods = c.methods
  ids : c.messages.map (·.id.index) = .range c.messages.size →
    c'.messages.map (·.id.index) = .range c'.messages.size
  marks : ∀ m, (c'.message m).marks = (c.message m).marks

/-- Marks that are the same are right if they were. -/
theorem SameMarks.marked (h : SameMarks c c') (hc : c.Marked) : c'.Marked where
  ids := h.ids hc.ids
  requests m := by
    have hmark : (c'.message m).isInput = (c.message m).isInput := congrArg Prod.fst (h.marks m)
    rw [hmark, hc.requests, IsRequest, IsRequest, h.methods]
  responses m := by
    have hmark : (c'.message m).isOutput = (c.message m).isOutput := congrArg Prod.snd (h.marks m)
    rw [hmark, hc.responses, IsResponse, IsResponse, h.methods]

/-- A modification shows at its position, if there is one, and nowhere else. -/
theorem getD_modify {α : Type} (a : Array α) (i k : Nat) (f : α → α) (d : α) :
    (a.modify i f).getD k d = if i = k ∧ k < a.size then f (a.getD k d) else a.getD k d := by
  rw [Array.getD_eq_getD_getElem?, Array.getD_eq_getD_getElem?, Array.getElem?_modify]
  by_cases hk : k < a.size
  · by_cases hi : i = k <;> simp [hi, hk]
  · simp [hk]

/-- A change of one message that keeps its position and its marks. -/
theorem sameMarks_modify {i : Nat} {f : Message → Message} (hmethods : c'.methods = c.methods)
    (hmessages : c'.messages = c.messages.modify i f) (hid : ∀ m, (f m).id = m.id)
    (hmarks : ∀ m, (f m).marks = m.marks) : SameMarks c c' where
  methods := hmethods
  ids hids := by
    rw [hmessages, map_modify_of_forall _ _ _ fun m => by rw [hid], Array.size_modify, hids]
  marks m := by
    unfold Chain.message
    rw [hmessages, getD_modify]
    split
    · exact hmarks _
    · rfl

/-- Declaring a message marks nothing. -/
theorem sameMarks_addMessage {v : VersionId} {s : MessageSchema}
    (h : addMessage source v c s = .ok c') : SameMarks c c' := by
  obtain ⟨deprecated, delegate, -, -, rfl⟩ := addMessage_eq_ok h
  refine ⟨rfl, fun hids => ?_, fun m => ?_⟩
  · rw [Array.map_push, hids, Array.size_push, range_push]
  · -- the new message is unmarked, like the one that a position outside the chain stands for
    unfold Chain.message
    rw [Array.getD_eq_getD_getElem?, Array.getElem?_push]
    split
    · rename_i hm
      rw [hm, Array.getD_eq_getD_getElem?, Array.getElem?_eq_none (Nat.le_refl _)]
      rfl
    · rw [Array.getD_eq_getD_getElem?]

/-- Declaring an enum marks nothing. -/
theorem sameMarks_addEnum {v : VersionId} {s : EnumSchema} (h : addEnum source v c s = .ok c') :
    SameMarks c c' := by
  obtain ⟨deprecated, delegate, xs, -, -, -, rfl⟩ := addEnum_eq_ok h
  exact ⟨rfl, fun hids => hids, fun _ => rfl⟩

/-- Declaring a oneof marks nothing. -/
theorem sameMarks_addOneof {m : MessageId} {name : String} {s : OneofSchema}
    (h : addOneof source m name c s = .ok c') : SameMarks c c' := by
  obtain ⟨deprecated, delegate, validate, receive, -, -, -, -, rfl⟩ := addOneof_eq_ok h
  exact sameMarks_modify (i := m.index)
    (f := fun x => { x with oneofs := x.oneofs ++ [⟨c.oneofs.size⟩] })
    rfl rfl (fun _ => rfl) fun _ => rfl

/-- Declaring a field marks nothing. -/
theorem sameMarks_addField {m : MessageId} {name : String} {s : FieldSchema}
    (h : addField source m name c s = .ok c') : SameMarks c c' := by
  obtain ⟨deprecated, delegate, validate, receive, f, -, -, -, -, -, -, rfl⟩ := addField_eq_ok h
  exact sameMarks_modify (i := m.index)
    (f := fun x => { x with fields := x.fields ++ [⟨c.fields.size⟩] })
    rfl rfl (fun _ => rfl) fun _ => rfl

/-! ### Methods -/

/-- A message found by its full name is at its position. -/
theorem Marked.messageNamed?_lt (hc : c.Marked) {name : String} {m : MessageId}
    (hm : c.messageNamed? name = some m) : m.index < c.messages.size := by
  obtain ⟨x, hx, rfl⟩ := Option.map_eq_some_iff.mp hm
  have hmem : x ∈ c.messages := by simpa using List.mem_of_find?_eq_some hx
  exact id_lt hc.ids hmem

/-- A message that is marked now was marked, or is the one that is used now. -/
theorem mark_modify_iff (mark : Message → Bool) {f : Message → Message} {messages : Array Message}
    {i : Nat} (hi : i < messages.size) (hf : ∀ m, mark (f m)) (k : Nat) :
    mark ((messages.modify i f).getD k default) ↔ mark (messages.getD k default) ∨ i = k := by
  rw [getD_modify]
  by_cases hk : i = k
  · subst hk
    simp [hi, hf]
  · simp [hk]

/-- A method marks the message that it takes and the one that it returns. -/
theorem Marked.addMethod (hc : c.Marked) {v : VersionId} {package : String} {s : MethodSchema}
    (h : addMethod source v package c s = .ok c') : c'.Marked := by
  obtain ⟨deprecated, delegate, input, output, -, -, hinput, houtput, rfl⟩ := addMethod_eq_ok h
  have hin := hc.messageNamed?_lt hinput
  have hout := hc.messageNamed?_lt houtput
  let mark : Message → Message := fun m => { m with isInput := true }
  let taken := c.messages.modify input.index mark
  have hsize : taken.size = c.messages.size := Array.size_modify
  refine ⟨?_, fun m => ?_, fun m => ?_⟩
  · simpa [modifyMessage] using hc.ids
  · -- marking what is returned marks no request
    have hkeep : (((taken.modify output.index fun m => { m with isOutput := true }).getD m.index
        default).isInput ↔ (taken.getD m.index default).isInput) := by
      rw [getD_modify]
      split <;> rfl
    refine hkeep.trans ((mark_modify_iff Message.isInput hin (fun _ => rfl) m.index).trans ?_)
    have hold : (c.messages.getD m.index default).isInput ↔ c.IsRequest m := hc.requests m
    rw [hold]
    simp [IsRequest, or_and_right, exists_or, MessageId.ext_iff]
  · have hmarks := mark_modify_iff Message.isOutput
      (f := fun m => { m with isOutput := true }) (hsize ▸ hout) (fun _ => rfl) m.index
    have hkeep : ((taken.getD m.index default).isOutput ↔
        (c.messages.getD m.index default).isOutput) := by
      rw [getD_modify]
      split <;> rfl
    have hold : (c.messages.getD m.index default).isOutput ↔ c.IsResponse m := hc.responses m
    refine hmarks.trans ?_
    rw [hkeep, hold]
    simp [IsResponse, or_and_right, exists_or, MessageId.ext_iff]

/-! ### Whole chains -/

/-- Declaring a version marks the types of its methods, and nothing else. -/
theorem Marked.addVersion {count : Nat} {p : PackageSchema × ServiceSchema} (hc : c.Marked)
    (h : addVersion source count c p = .ok c') : c'.Marked := by
  refine addVersion_preserves Marked (fun _ _ => ⟨hc.ids, hc.requests, hc.responses⟩) ?_ ?_
    ?_ ?_ ?_ h
  · exact fun _ _ t t' ht hs => (sameMarks_addMessage hs).marked ht
  · exact fun _ _ t t' ht hs => (sameMarks_addEnum hs).marked ht
  · exact fun _ _ _ t t' ht hs => (sameMarks_addOneof hs).marked ht
  · exact fun _ _ _ t t' ht hs => (sameMarks_addField hs).marked ht
  · exact fun _ _ _ t t' ht hs => ht.addMethod hs

/-- Links and propagations have no part in the marks. -/
theorem Marked.of_unlinked (h : c.Marked) (hu : c'.unlinked = c.unlinked) : c'.Marked := by
  have hkeep : c'.Marked = c.Marked := by
    refine read_eq hu Marked fun c => propext ?_
    have hids : c.unlinked.messages.map (·.id.index) = c.messages.map (·.id.index) := by
      simp [unlinked, Function.comp_def]
    have hsize : c.unlinked.messages.size = c.messages.size := by simp [unlinked]
    have hrequest : ∀ m, c.unlinked.IsRequest m ↔ c.IsRequest m := by
      simp [IsRequest, unlinked_methods]
    have hresponse : ∀ m, c.unlinked.IsResponse m ↔ c.IsResponse m := by
      simp [IsResponse, unlinked_methods]
    constructor
    · intro h
      refine ⟨by rw [← hids, h.ids, hsize], fun m => ?_, fun m => ?_⟩
      · rw [← hrequest, ← h.requests, unlinked_message]
      · rw [← hresponse, ← h.responses, unlinked_message]
    · intro h
      refine ⟨by rw [hids, h.ids, hsize], fun m => ?_, fun m => ?_⟩
      · rw [hrequest, ← h.requests, unlinked_message]
      · rw [hresponse, ← h.responses, unlinked_message]
  exact hkeep ▸ h

/-- **Chains as they are built**: exactly the messages that methods take or return are marked. -/
theorem marked_of_ofPackages {privatePackage : String} {packages : List PackageSchema}
    (h : ofPackages source privatePackage packages = .ok c) : c.Marked := by
  obtain ⟨versions, declared, linked, -, hstages, rfl⟩ := stages_of_ofPackages h
  have hmarked : declared.Marked := by
    refine foldlM_preserves Marked ⟨by simp, fun m => ?_, fun m => ?_⟩ ?_ hstages.declares
    · exact iff_of_false Bool.false_ne_true (by simp [IsRequest])
    · exact iff_of_false Bool.false_ne_true (by simp [IsResponse])
    · exact fun p _ t t' ht hs => ht.addVersion hs
  -- members inherit deprecation, which leaves messages and methods as they are
  have hinherit : declared.inheritDeprecation.Marked :=
    ⟨hmarked.ids, hmarked.requests, hmarked.responses⟩
  exact hinherit.of_unlinked hstages.unlinked_eq

end Chain

end Lineage
