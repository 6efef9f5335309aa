import Lineage.Proofs.Chain.Membership

namespace Lineage

/-!
# Declared chains

Declaring packages builds a well-formed chain in which nothing is linked yet.

* `addMessage_eq_ok`, `addEnum_eq_ok`, … — what one declaration does,
* `addVersion_preserves` — what every declaration keeps is kept by declaring a version,
* `RequestsMarked` — the message that a method takes is marked as a request,
* `Declaring` — well-formed, the versions at their places, nothing linked, requests marked,
* `Declaring.addMessage`, … — each declaration keeps that,
* `declaring_of_addVersions` — the whole list of packages.
-/

/-- Where a version stands: whether it is private, whether it is the latest one, and where it
    leads. -/
def Version.place (v : Version) : Bool × Bool × Link VersionId := (v.isPrivate, v.isLatest, v.link)

namespace Chain

/-! ### What one declaration does -/

variable {source : AnnotationSource} {c c' : Chain}

/-- A message that is declared is added behind all others, as its annotations say. -/
theorem addMessage_eq_ok {version : VersionId} {s : MessageSchema}
    (h : addMessage source version c s = .ok c') :
    ∃ deprecated delegate,
      source.isDeprecated .message s.carrier = .ok deprecated ∧
      source.delegate? .message s.carrier = .ok delegate ∧
      c' = { c with
        messages := c.messages.push
          { id := ⟨c.messages.size⟩, version, name := s.name, localName := s.localName
            fullName := s.fullName, parent := s.parent.bind (c.findMessage version)
            deprecated, delegate }
        versions := c.versions.modify version.index fun v =>
          { v with messages := v.messages ++ [⟨c.messages.size⟩] } } := by
  simp only [addMessage, annotated, bind_eq_ok, mapError_eq_ok, pure_eq_ok] at h
  obtain ⟨deprecated, hdeprecated, delegate, hdelegate, rfl⟩ := h
  exact ⟨deprecated, delegate, hdeprecated, hdelegate, rfl⟩

/-- A value that is declared is added behind all others, as its annotations say. -/
theorem addValue_eq_ok {enumName : String} {enumeration : EnumId} {s : EnumValueSchema}
    (h : addValue source enumName enumeration c s = .ok c') :
    ∃ deprecated delegate receive,
      source.isDeprecated .enumValue s.carrier = .ok deprecated ∧
      source.delegate? .enumValue s.carrier = .ok delegate ∧
      source.receive .enumValue s.carrier = .ok receive ∧
      c' = { c with
        values := c.values.push
          { id := ⟨c.values.size⟩, enumeration, name := s.name, number := s.number
            deprecated, delegate, receive := receive.names } } := by
  simp only [addValue, annotated, bind_eq_ok, mapError_eq_ok, pure_eq_ok] at h
  obtain ⟨deprecated, hdeprecated, delegate, hdelegate, receive, hreceive, rfl⟩ := h
  exact ⟨deprecated, delegate, receive, hdeprecated, hdelegate, hreceive, rfl⟩

/-- The values of an enum go to the end of the values, one after the other, unlinked. -/
theorem addValues_eq_ok {enumName : String} {enumeration : EnumId} {ss : List EnumValueSchema}
    (h : ss.foldlM (addValue source enumName enumeration) c = .ok c') :
    ∃ xs : Array EnumValue, xs.size = ss.length ∧
      c' = { c with values := c.values ++ xs } ∧
      xs.map (fun x => some x.enumeration.index) = .replicate xs.size (some enumeration.index) ∧
      xs.map (·.id.index) = (Array.range xs.size).map (c.values.size + ·) ∧
      ∀ x ∈ xs, x.link = {} := by
  refine foldlM_invariant (fun made t => ∃ xs : Array EnumValue, xs.size = made.length ∧
      t = { c with values := c.values ++ xs } ∧
      xs.map (fun x => some x.enumeration.index) = .replicate xs.size (some enumeration.index) ∧
      xs.map (·.id.index) = (Array.range xs.size).map (c.values.size + ·) ∧
      ∀ x ∈ xs, x.link = {}) ⟨#[], by simp⟩ ?_ h
  rintro made s rest t t' - ⟨xs, hsize, rfl, howner, hids, hlinks⟩ hadd
  obtain ⟨deprecated, delegate, receive, -, -, -, rfl⟩ := addValue_eq_ok hadd
  refine ⟨xs.push _, by simp [hsize], by rw [Array.append_push], ?_, ?_, ?_⟩
  · rw [Array.map_push, howner, Array.size_push, Array.replicate_succ]
  · rw [Array.map_push, hids, Array.size_push, ← range_push, Array.map_push]
    simp
  · simpa [or_imp, forall_and] using hlinks

/-- An enum that is declared is added behind all others, and so are its values. -/
theorem addEnum_eq_ok {version : VersionId} {s : EnumSchema}
    (h : addEnum source version c s = .ok c') :
    ∃ deprecated delegate, ∃ xs : Array EnumValue,
      source.isDeprecated .enumeration s.carrier = .ok deprecated ∧
      source.delegate? .enumeration s.carrier = .ok delegate ∧
      s.values.foldlM (addValue source s.fullName ⟨c.enums.size⟩) c
        = .ok { c with values := c.values ++ xs } ∧
      c' = { c with
        values := c.values ++ xs
        enums := c.enums.push
          { id := ⟨c.enums.size⟩, version, name := s.name, localName := s.localName
            fullName := s.fullName, parent := s.parent.bind (c.findMessage version)
            values := (List.range s.values.length).map fun i => ⟨c.values.size + i⟩
            deprecated, delegate }
        versions := c.versions.modify version.index fun v =>
          { v with enums := v.enums ++ [⟨c.enums.size⟩] } } := by
  simp only [addEnum, annotated, bind_eq_ok, mapError_eq_ok, pure_eq_ok] at h
  obtain ⟨deprecated, hdeprecated, delegate, hdelegate, withValues, hvalues, rfl⟩ := h
  obtain ⟨xs, -, rfl, -⟩ := addValues_eq_ok hvalues
  exact ⟨deprecated, delegate, xs, hdeprecated, hdelegate, hvalues, rfl⟩

/-- A oneof that is declared is added behind all others, and entered in its message. -/
theorem addOneof_eq_ok {message : MessageId} {messageName : String} {s : OneofSchema}
    (h : addOneof source message messageName c s = .ok c') :
    ∃ deprecated delegate validate receive,
      source.isDeprecated .oneof s.carrier = .ok deprecated ∧
      source.delegate? .oneof s.carrier = .ok delegate ∧
      source.validate .oneof s.carrier = .ok validate ∧
      source.receive .oneof s.carrier = .ok receive ∧
      c' = { c with
        oneofs := c.oneofs.push
          { id := ⟨c.oneofs.size⟩, message, name := s.name, deprecated, delegate
            required := validate.required, receiveRequired := receive.required }
        messages := c.messages.modify message.index fun m =>
          { m with oneofs := m.oneofs ++ [⟨c.oneofs.size⟩] } } := by
  simp only [addOneof, annotated, bind_eq_ok, mapError_eq_ok, pure_eq_ok] at h
  obtain ⟨deprecated, hd, delegate, hg, validate, hv, receive, hr, rfl⟩ := h
  exact ⟨deprecated, delegate, validate, receive, hd, hg, hv, hr, rfl⟩

/-- A field that is declared has a type that is known; it is added behind all others and entered in
    its message, and in its oneof if it is a variant. -/
theorem addField_eq_ok {message : MessageId} {messageName : String} {s : FieldSchema}
    (h : addField source message messageName c s = .ok c') :
    ∃ deprecated delegate validate receive, ∃ f : Field,
      source.isDeprecated .field s.carrier = .ok deprecated ∧
      source.delegate? .field s.carrier = .ok delegate ∧
      source.validate .field s.carrier = .ok validate ∧
      source.receive .field s.carrier = .ok receive ∧
      checkType (messageName ++ "." ++ s.name) s.kind (s.typeName.map (c.typeRef s.kind)) = .ok () ∧
      f = { id := ⟨c.fields.size⟩, message, name := s.name, number := s.number, kind := s.kind
            repeated := s.repeated, typeRef := s.typeName.map (c.typeRef s.kind)
            oneof := s.oneof.bind fun k => (c.message message).oneofs[k]?
            deprecated, delegate, validate, receiveRequired := receive.required } ∧
      c' = { c with
        fields := c.fields.push f
        oneofs := match f.oneof with
          | some o => c.oneofs.modify o.index fun x =>
            { x with fields := x.fields ++ [⟨c.fields.size⟩] }
          | none => c.oneofs
        messages := c.messages.modify message.index fun m =>
          { m with fields := m.fields ++ [⟨c.fields.size⟩] } } := by
  simp only [addField, annotated, bind_eq_ok, mapError_eq_ok, pure_eq_ok] at h
  obtain ⟨deprecated, hd, delegate, hg, validate, hv, receive, hr, _, hcheck, rfl⟩ := h
  refine ⟨deprecated, delegate, validate, receive, _, hd, hg, hv, hr, hcheck, rfl, ?_⟩
  cases s.oneof.bind fun k => (c.message message).oneofs[k]? <;> rfl

/-- A method that is declared has types that are known; they are marked, and it is added behind all
    others. -/
theorem addMethod_eq_ok {version : VersionId} {package : String} {s : MethodSchema}
    (h : addMethod source version package c s = .ok c') :
    ∃ deprecated delegate input output,
      source.isDeprecated .method s.carrier = .ok deprecated ∧
      source.delegate? .method s.carrier = .ok delegate ∧
      c.messageNamed? s.input = some input ∧
      c.messageNamed? s.output = some output ∧
      c' = { (c.modifyMessage input fun m => { m with isInput := true }).modifyMessage output
          fun m => { m with isOutput := true } with
        methods := c.methods.push
          { id := ⟨c.methods.size⟩, version, name := s.name, input, output, deprecated, delegate }
        versions := c.versions.modify version.index fun v =>
          { v with methods := v.methods ++ [⟨c.methods.size⟩] } } := by
  have htype : ∀ {entity name id}, c.methodType entity name = .ok id →
      c.messageNamed? name = some id := by
    intro entity name id h
    unfold methodType at h
    split at h
    · simp_all
    · cases h
  simp only [addMethod, annotated, bind_eq_ok, mapError_eq_ok, pure_eq_ok] at h
  obtain ⟨deprecated, hd, delegate, hg, input, hi, output, ho, rfl⟩ := h
  exact ⟨deprecated, delegate, input, output, hd, hg, htype hi, htype ho, rfl⟩

/-! ### What declarations keep -/

/-- What every declaration of a oneof and of a field keeps is kept by declaring the members of a
    message. -/
theorem addMembers_preserves {m : MessageId × MessageSchema} (Inv : Chain → Prop) (h0 : Inv c)
    (honeof : ∀ name s t t', Inv t → addOneof source m.1 name t s = .ok t' → Inv t')
    (hfield : ∀ name s t t', Inv t → addField source m.1 name t s = .ok t' → Inv t')
    (h : addMembers source c m = .ok c') : Inv c' := by
  obtain ⟨withOneofs, honeofs, hfields⟩ := bind_eq_ok.mp h
  have hmid : Inv withOneofs := foldlM_preserves Inv h0 (fun s _ => honeof _ s) honeofs
  exact foldlM_preserves Inv hmid (fun s _ => hfield _ s) hfields

/-- What holds once a version has its place, and is kept by every declaration in it, holds once the
    version is declared. -/
theorem addVersion_preserves {count : Nat} {p : PackageSchema × ServiceSchema} (Inv : Chain → Prop)
    (hplace : ∀ node, node.package = p.1.name → Inv { c with versions := c.versions.push node })
    (hmessage : ∀ v s t t', Inv t → addMessage source v t s = .ok t' → Inv t')
    (henum : ∀ v s t t', Inv t → addEnum source v t s = .ok t' → Inv t')
    (honeof : ∀ m name s t t', Inv t → addOneof source m name t s = .ok t' → Inv t')
    (hfield : ∀ m name s t t', Inv t → addField source m name t s = .ok t' → Inv t')
    (hmethod : ∀ v package s t t', Inv t → addMethod source v package t s = .ok t' → Inv t')
    (h : addVersion source count c p = .ok c') : Inv c' := by
  simp only [addVersion, bind_eq_ok] at h
  obtain ⟨withMessages, hmessages, withEnums, henums, withMembers, hmembers, hmethods⟩ := h
  have h1 : Inv withMessages :=
    foldlM_preserves Inv (hplace _ rfl) (fun s _ => hmessage _ s) hmessages
  have h2 : Inv withEnums := foldlM_preserves Inv h1 (fun s _ => henum _ s) henums
  have h3 : Inv withMembers := foldlM_preserves Inv h2
    (fun _ _ _ _ ht hs => addMembers_preserves Inv ht (honeof _) (hfield _) hs) hmembers
  exact foldlM_preserves Inv h3 (fun s _ => hmethod _ _ s) hmethods

/-! ### Nothing is linked yet -/

/-- No node has a counterpart yet. -/
structure Unlinked (c : Chain) : Prop where
  messages : ∀ m ∈ c.messages, m.link = {}
  fields : ∀ f ∈ c.fields, f.link = {}
  oneofs : ∀ o ∈ c.oneofs, o.link = {}
  enums : ∀ e ∈ c.enums, e.link = {}
  values : ∀ x ∈ c.values, x.link = {}
  methods : ∀ m ∈ c.methods, m.link = {}

/-- What all entries of an array have, they have after a change that keeps it. -/
theorem forall_mem_modify {α : Type} {p : α → Prop} {f : α → α} {a : Array α} (i : Nat)
    (h : ∀ x ∈ a, p x) (hf : ∀ x, p x → p (f x)) : ∀ x ∈ a.modify i f, p x := by
  intro x hx
  obtain ⟨k, hk⟩ := Array.mem_iff_getElem?.mp hx
  rw [Array.getElem?_modify] at hk
  split at hk
  · obtain ⟨y, hy, rfl⟩ := Option.map_eq_some_iff.mp hk
    exact hf y (h y (Array.mem_iff_getElem?.mpr ⟨_, hy⟩))
  · exact h x (Array.mem_iff_getElem?.mpr ⟨k, hk⟩)

theorem forall_mem_push {α : Type} {p : α → Prop} {a : Array α} {y : α}
    (h : ∀ x ∈ a, p x) (hy : p y) : ∀ x ∈ a.push y, p x := by
  intro x hx
  rcases Array.mem_push.mp hx with hx | rfl
  · exact h x hx
  · exact hy

/-! ### Requests are marked -/

/-- An entry is at its position, so that its position is one of the array. -/
theorem id_lt {α : Type} {a : Array α} {f : α → Nat} (h : a.map f = .range a.size) {x : α}
    (hx : x ∈ a) : f x < a.size := by
  rw [← Array.mem_range, ← h]
  exact Array.mem_map_of_mem hx

/-- A message found by its full name is one of the chain. -/
theorem messageNamed?_lt (h : c.WellFormed) {name : String} {m : MessageId}
    (hm : c.messageNamed? name = some m) : m.index < c.messages.size := by
  obtain ⟨x, hx, rfl⟩ := Option.map_eq_some_iff.mp hm
  have hmem : x ∈ c.messages := by simpa using List.mem_of_find?_eq_some hx
  exact id_lt h.messageIds hmem

/-- The message that a method takes is marked as one. -/
def RequestsMarked (c : Chain) : Prop := ∀ m ∈ c.methods, (c.message m.input).isInput

/-! ### Marks stay -/

/-- A message that is marked as a request stays so, and the methods are the same. -/
structure Remarked (c c' : Chain) : Prop where
  methods : c'.methods = c.methods
  marks : ∀ id, (c.message id).isInput → (c'.message id).isInput

/-- What changes no method and takes no mark away keeps the requests marked. -/
theorem Remarked.requestsMarked (h : Remarked c c') (hc : c.RequestsMarked) :
    c'.RequestsMarked := fun m hm => h.marks _ (hc m (h.methods ▸ hm))

/-- What is added at the end changes nothing before. -/
theorem getD_push_of_lt {α : Type} {a : Array α} {k : Nat} (hk : k < a.size) (x d : α) :
    (a.push x).getD k d = a.getD k d := by
  simp [Array.getD_eq_getD_getElem?, Array.getElem?_push, Nat.ne_of_lt hk]

/-- A message that is marked is one of the chain. -/
theorem lt_of_isInput {id : MessageId} (h : (c.message id).isInput) :
    id.index < c.messages.size := by
  by_contra hlt
  rw [Chain.message, getD_of_not_lt hlt] at h
  cases h

/-- A change that takes no mark away leaves every message marked that was. -/
theorem isInput_modify {f : Message → Message} (hf : ∀ m, m.isInput → (f m).isInput)
    (a : Array Message) (i k : Nat) (h : (a.getD k default).isInput) :
    ((a.modify i f).getD k default).isInput := by
  rw [Array.getD_eq_getD_getElem?] at h ⊢
  rw [Array.getElem?_modify]
  split
  · subst i
    cases hk : a[k]? with
    | none => simpa [hk] using h
    | some m =>
      rw [hk] at h
      exact hf m h
  · exact h

/-- A message that is declared takes no mark away. -/
theorem Remarked.addMessage {v : VersionId} {s : MessageSchema}
    (h : addMessage source v c s = .ok c') : Remarked c c' := by
  obtain ⟨deprecated, delegate, -, -, rfl⟩ := addMessage_eq_ok h
  refine ⟨rfl, fun id hid => ?_⟩
  unfold Chain.message at hid ⊢
  rwa [getD_push_of_lt (lt_of_isInput hid)]

/-- An enum that is declared takes no mark away. -/
theorem Remarked.addEnum {v : VersionId} {s : EnumSchema}
    (h : addEnum source v c s = .ok c') : Remarked c c' := by
  obtain ⟨deprecated, delegate, xs, -, -, -, rfl⟩ := addEnum_eq_ok h
  exact ⟨rfl, fun id hid => hid⟩

/-- A oneof that is declared takes no mark away. -/
theorem Remarked.addOneof {m : MessageId} {name : String} {s : OneofSchema}
    (h : addOneof source m name c s = .ok c') : Remarked c c' := by
  obtain ⟨deprecated, delegate, validate, receive, -, -, -, -, rfl⟩ := addOneof_eq_ok h
  refine ⟨rfl, fun id hid => isInput_modify ?_ _ _ _ hid⟩
  exact fun _ h => h

/-- A field that is declared takes no mark away. -/
theorem Remarked.addField {m : MessageId} {name : String} {s : FieldSchema}
    (h : addField source m name c s = .ok c') : Remarked c c' := by
  obtain ⟨deprecated, delegate, validate, receive, f, -, -, -, -, -, -, rfl⟩ := addField_eq_ok h
  refine ⟨rfl, fun id hid => isInput_modify ?_ _ _ _ hid⟩
  exact fun _ h => h

/-! ### Methods mark -/

/-- A message that is in the chain can be marked. -/
theorem isInput_modify_self {a : Array Message} {k : Nat} (hk : k < a.size) :
    ((a.modify k fun m => { m with isInput := true }).getD k default).isInput := by
  rw [Array.getD_eq_getD_getElem?, Array.getElem?_modify, if_pos rfl,
    Array.getElem?_eq_getElem hk]
  rfl

/-- A method that is declared is added with its request marked. -/
theorem RequestsMarked.addMethod {v : VersionId} {package : String} {s : MethodSchema}
    (hwf : c.WellFormed) (hc : c.RequestsMarked) (h : addMethod source v package c s = .ok c') :
    c'.RequestsMarked := by
  obtain ⟨deprecated, delegate, input, output, -, -, hinput, -, rfl⟩ := addMethod_eq_ok h
  have hlt := messageNamed?_lt hwf hinput
  have hkeep : ∀ (a : Array Message) k, (a.getD k default).isInput →
      ((a.modify output.index fun m => { m with isOutput := true }).getD k default).isInput := by
    intro a k hk
    refine isInput_modify ?_ a _ k hk
    exact fun _ h => h
  intro m hm
  obtain hm | rfl := Array.mem_push.mp hm
  · exact hkeep _ _ (isInput_modify (fun _ _ => rfl) _ _ _ (hc m hm))
  · exact hkeep _ _ (isInput_modify_self hlt)

/-! ### Declaring one after the other -/

/-- The place of the version at a position in a chain of so many versions. -/
def placeIn (count index : Nat) : Bool × Bool × Link VersionId :=
  (versionNode count index "" "").place

/-- A chain in the making: so many versions are declared, each at its place, nothing is linked, and
    requests are marked. -/
structure Declaring (count declared : Nat) (c : Chain) : Prop where
  wellFormed : c.WellFormed
  places : c.versions.map (·.place) = (Array.range declared).map (placeIn count)
  unlinked : c.Unlinked
  requests : c.RequestsMarked

namespace Declaring

variable {count n : Nat} {v : VersionId}

/-- So many versions have been declared. -/
theorem versions_size (h : c.Declaring count n) : c.versions.size = n := by
  simpa using congrArg Array.size h.places

/-- At first nothing is declared. -/
theorem empty : Declaring count 0 {} where
  wellFormed := .empty
  places := by simp
  unlinked := ⟨by simp, by simp, by simp, by simp, by simp, by simp⟩
  requests := by simp [RequestsMarked]

/-- One more version, still without types and methods. -/
theorem pushVersion (h : c.Declaring count n) (package service : String) :
    Declaring count (n + 1)
      { c with versions := c.versions.push (versionNode count n package service) } where
  wellFormed := h.wellFormed.pushVersion _ (by rw [h.versions_size]; rfl) rfl rfl rfl
  places := by
    rw [Array.map_push, h.places, ← range_push, Array.map_push]
    rfl
  unlinked := { h.unlinked with }
  requests := h.requests

/-- A message found for a parent is one of the version. -/
theorem parent_version (h : c.WellFormed) {name : Option String} {p : MessageId}
    (hp : name.bind (c.findMessage v) = some p) :
    (c.messages.map (·.version))[p.index]? = some v := by
  obtain ⟨name, -, hfind⟩ := Option.bind_eq_some_iff.mp hp
  obtain ⟨hlt, hversion, -⟩ := h.findMessage_eq_some hfind
  rw [getElem?_map_getD hlt default, ← Chain.message, hversion]

/-- Declaring a message of a version that there is keeps the chain in order. -/
theorem addMessage {s : MessageSchema} (h : c.Declaring count n) (hv : v.index < n)
    (hadd : addMessage source v c s = .ok c') :
    c'.Declaring count n ∧ c'.messages.size = c.messages.size + 1 := by
  have hmarked := (Remarked.addMessage hadd).requestsMarked h.requests
  obtain ⟨deprecated, delegate, -, -, rfl⟩ := addMessage_eq_ok hadd
  refine ⟨⟨?_, ?_, ?_, hmarked⟩, Array.size_push _⟩
  · exact h.wellFormed.pushMessage v (by rwa [h.versions_size]) _ rfl rfl rfl rfl
      fun p hp => parent_version h.wellFormed hp
  · simpa [Version.place] using h.places
  · exact { h.unlinked with messages := forall_mem_push h.unlinked.messages rfl }

/-- Declaring an enum of a version that there is keeps the chain in order. -/
theorem addEnum {s : EnumSchema} (h : c.Declaring count n) (hv : v.index < n)
    (hadd : addEnum source v c s = .ok c') :
    c'.Declaring count n ∧ c'.messages.size = c.messages.size := by
  have hmarked := (Remarked.addEnum hadd).requestsMarked h.requests
  obtain ⟨deprecated, delegate, xs, -, -, hvalues, rfl⟩ := addEnum_eq_ok hadd
  obtain ⟨ys, hsize, heq, howner, hids, hlinks⟩ := addValues_eq_ok hvalues
  obtain rfl : xs = ys := Array.append_right_inj _ |>.mp (congrArg Chain.values heq)
  refine ⟨⟨?_, ?_, ?_, hmarked⟩, rfl⟩
  · exact h.wellFormed.pushEnum v (by rwa [h.versions_size]) _ xs rfl rfl (by rw [hsize]) howner
      hids fun p hp => parent_version h.wellFormed hp
  · simpa [Version.place] using h.places
  · refine { h.unlinked with enums := forall_mem_push h.unlinked.enums rfl, values := ?_ }
    intro x hx
    rcases Array.mem_append.mp hx with hx | hx
    · exact h.unlinked.values x hx
    · exact hlinks x hx

/-- Declaring a oneof of a message that there is keeps the chain in order. -/
theorem addOneof {m : MessageId} {name : String} {s : OneofSchema} (h : c.Declaring count n)
    (hm : m.index < c.messages.size) (hadd : addOneof source m name c s = .ok c') :
    c'.Declaring count n ∧ c'.messages.size = c.messages.size := by
  have hmarked := (Remarked.addOneof hadd).requestsMarked h.requests
  obtain ⟨deprecated, delegate, validate, receive, -, -, -, -, rfl⟩ := addOneof_eq_ok hadd
  refine ⟨⟨?_, h.places, ?_, hmarked⟩, Array.size_modify⟩
  · exact h.wellFormed.pushOneof m hm _ rfl rfl rfl
  · refine { h.unlinked with oneofs := forall_mem_push h.unlinked.oneofs rfl, messages := ?_ }
    dsimp only
    exact forall_mem_modify m.index h.unlinked.messages fun _ hx => hx

/-- An enum found by its full name is one of the chain. -/
theorem enumNamed?_lt (h : c.WellFormed) {name : String} {e : EnumId}
    (he : c.enumNamed? name = some e) : e.index < c.enums.size := by
  obtain ⟨x, hx, rfl⟩ := Option.map_eq_some_iff.mp he
  have hmem : x ∈ c.enums := by simpa using List.mem_of_find?_eq_some hx
  exact id_lt h.enumIds hmem

/-- A reference to a message leads to one that there is. -/
theorem typeRef_message_lt (h : c.WellFormed) {kind : FieldKind} {name : String} {k : Nat}
    (hk : (c.typeRef kind name).message? = some k) : k < c.messages.size := by
  cases kind with
  | message =>
    cases hn : c.messageNamed? name with
    | none => simp [typeRef, hn, TypeRef.message?] at hk
    | some m =>
      obtain rfl : m.index = k := by simpa [typeRef, hn, TypeRef.message?] using hk
      exact messageNamed?_lt h hn
  | enumeration => cases hn : c.enumNamed? name <;> simp [typeRef, hn, TypeRef.message?] at hk
  | scalar _ => simp [typeRef, TypeRef.message?] at hk

/-- A reference to an enum leads to one that there is. -/
theorem typeRef_enum_lt (h : c.WellFormed) {kind : FieldKind} {name : String} {k : Nat}
    (hk : (c.typeRef kind name).enum? = some k) : k < c.enums.size := by
  cases kind with
  | message => cases hn : c.messageNamed? name <;> simp [typeRef, hn, TypeRef.enum?] at hk
  | enumeration =>
    cases hn : c.enumNamed? name with
    | none => simp [typeRef, hn, TypeRef.enum?] at hk
    | some e =>
      obtain rfl : e.index = k := by simpa [typeRef, hn, TypeRef.enum?] using hk
      exact enumNamed?_lt h hn
  | scalar _ => simp [typeRef, TypeRef.enum?] at hk

/-- Declaring a field of a message that there is keeps the chain in order. -/
theorem addField {m : MessageId} {name : String} {s : FieldSchema} (h : c.Declaring count n)
    (hm : m.index < c.messages.size) (hadd : addField source m name c s = .ok c') :
    c'.Declaring count n ∧ c'.messages.size = c.messages.size := by
  have hmarked := (Remarked.addField hadd).requestsMarked h.requests
  obtain ⟨deprecated, delegate, validate, receive, f, -, -, -, -, -, hf, rfl⟩ := addField_eq_ok hadd
  have honeof : ∀ o, f.oneof = some o → (c.oneofs.map (·.message))[o.index]? = some m := by
    intro o ho
    rw [hf] at ho
    obtain ⟨k, -, hk⟩ := Option.bind_eq_some_iff.mp ho
    obtain ⟨hlt, hmessage⟩ := (h.wellFormed.mem_oneofs m o).mp (List.mem_of_getElem? hk)
    rw [getElem?_map_getD hlt default, ← Chain.oneof, hmessage]
  have hmessageType : ∀ k, f.messageType? = some k → k < c.messages.size := by
    intro k hk
    rw [hf, Field.messageType?] at hk
    obtain ⟨t, ht, hk⟩ := Option.bind_eq_some_iff.mp hk
    obtain ⟨name, -, rfl⟩ := Option.map_eq_some_iff.mp ht
    exact typeRef_message_lt h.wellFormed hk
  have henumType : ∀ k, f.enumType? = some k → k < c.enums.size := by
    intro k hk
    rw [hf, Field.enumType?] at hk
    obtain ⟨t, ht, hk⟩ := Option.bind_eq_some_iff.mp hk
    obtain ⟨name, -, rfl⟩ := Option.map_eq_some_iff.mp ht
    exact typeRef_enum_lt h.wellFormed hk
  refine ⟨⟨?_, h.places, ?_, hmarked⟩, Array.size_modify⟩
  · exact h.wellFormed.pushField m hm f (by rw [hf]) (by rw [hf]) honeof hmessageType henumType
  · refine { h.unlinked with
      fields := forall_mem_push h.unlinked.fields (by rw [hf])
      messages := ?_
      oneofs := ?_ }
    · dsimp only
      exact forall_mem_modify m.index h.unlinked.messages fun _ hx => hx
    · dsimp only
      split
      · rename_i o _
        exact forall_mem_modify o.index h.unlinked.oneofs fun _ hx => hx
      · exact h.unlinked.oneofs

/-- The messages that a method takes and returns are declared, so their versions are not after its
    own. -/
theorem type_version_le (h : c.Declaring count n) (hv : v.index + 1 = n) {name : String}
    {m : MessageId} (hm : c.messageNamed? name = some m) :
    ∃ k, (c.messages.map (·.version.index))[m.index]? = some k ∧ k ≤ v.index := by
  have hlt := messageNamed?_lt h.wellFormed hm
  have hversion := h.wellFormed.message_version_lt hlt
  rw [h.versions_size] at hversion
  exact ⟨_, getElem?_map_getD hlt default _, by rw [← Chain.message]; omega⟩

/-- Declaring a method of the newest version keeps the chain in order. -/
theorem addMethod {package : String} {s : MethodSchema} (h : c.Declaring count n)
    (hv : v.index + 1 = n) (hadd : addMethod source v package c s = .ok c') :
    c'.Declaring count n := by
  have hmarked := h.requests.addMethod h.wellFormed hadd
  obtain ⟨deprecated, delegate, input, output, -, -, hinput, houtput, rfl⟩ := addMethod_eq_ok hadd
  have hshape : SameShape c
      ((c.modifyMessage input fun m => { m with isInput := true }).modifyMessage
      output fun m => { m with isOutput := true }) :=
    ⟨rfl, by simp [modifyMessage], rfl, rfl, rfl, rfl, rfl⟩
  refine ⟨?_, ?_, ?_, hmarked⟩
  · refine (hshape.wellFormed h.wellFormed).pushMethod v
      (by simp [modifyMessage, h.versions_size, ← hv]) _ rfl rfl ?_ ?_
    · simpa [modifyMessage] using h.type_version_le hv hinput
    · simpa [modifyMessage] using h.type_version_le hv houtput
  · simpa [Version.place] using h.places
  · refine { h.unlinked with methods := forall_mem_push h.unlinked.methods rfl, messages := ?_ }
    dsimp only [modifyMessage]
    exact forall_mem_modify _ (forall_mem_modify _ h.unlinked.messages fun _ hx => hx)
      fun _ hx => hx

/-- Declaring the oneofs and fields of a message keeps the chain in order. -/
theorem addMembers {m : MessageId × MessageSchema} (h : c.Declaring count n)
    (hm : m.1.index < c.messages.size) (hadd : addMembers source c m = .ok c') :
    c'.Declaring count n ∧ c'.messages.size = c.messages.size := by
  refine addMembers_preserves (fun t => t.Declaring count n ∧ t.messages.size = c.messages.size) ⟨h,
    rfl⟩ ?_ ?_ hadd
  · rintro name s t t' ⟨ht, hsize⟩ hs
    obtain ⟨ht', hsize'⟩ := ht.addOneof (by rwa [hsize]) hs
    exact ⟨ht', hsize'.trans hsize⟩
  · rintro name s t t' ⟨ht, hsize⟩ hs
    obtain ⟨ht', hsize'⟩ := ht.addField (by rwa [hsize]) hs
    exact ⟨ht', hsize'.trans hsize⟩

/-- **One more version.** -/
theorem addVersion {p : PackageSchema × ServiceSchema} (h : c.Declaring count n)
    (hadd : addVersion source count c p = .ok c') : c'.Declaring count (n + 1) := by
  have hstart := h.pushVersion p.1.name p.2.name
  have hid : c.versions.size = n := h.versions_size
  simp only [Chain.addVersion, bind_eq_ok] at hadd
  obtain ⟨withMessages, hmessages, withEnums, henums, withMembers, hmembers, hmethods⟩ := hadd
  -- every message declared takes one position more
  have h1 : withMessages.Declaring count (n + 1) ∧
      withMessages.messages.size = c.messages.size + p.1.messages.length := by
    refine foldlM_invariant (fun made t => t.Declaring count (n + 1) ∧
      t.messages.size = c.messages.size + made.length) ⟨by rwa [hid], rfl⟩ ?_ hmessages
    rintro made s rest t t' - ⟨ht, hsize⟩ hs
    obtain ⟨ht', hsize'⟩ := ht.addMessage (by simp [hid]) hs
    exact ⟨ht', by rw [hsize', hsize, List.length_append]; rfl⟩
  let Inv (t : Chain) := t.Declaring count (n + 1) ∧
    t.messages.size = c.messages.size + p.1.messages.length
  have h2 : Inv withEnums := by
    refine foldlM_preserves Inv h1 ?_ henums
    rintro s - t t' ⟨ht, hsize⟩ hs
    obtain ⟨ht', hsize'⟩ := ht.addEnum (by simp [hid]) hs
    exact ⟨ht', hsize'.trans hsize⟩
  have h3 : Inv withMembers := by
    refine foldlM_preserves Inv h2 ?_ hmembers
    rintro s hmem t t' ⟨ht, hsize⟩ hs
    obtain ⟨-, hlt, -⟩ := List.mem_zipIdx hmem
    obtain ⟨ht', hsize'⟩ := ht.addMembers (by rw [hsize]; exact hlt) hs
    exact ⟨ht', hsize'.trans hsize⟩
  refine foldlM_preserves (Declaring count (n + 1)) h3.1 ?_ hmethods
  rintro s - t t' ht hs
  exact ht.addMethod (by rw [hid]) hs

end Declaring

/-- **Declared chains are well-formed.** -/
theorem declaring_of_addVersions {count : Nat} {versions : List (PackageSchema × ServiceSchema)}
    (h : versions.foldlM (addVersion source count) {} = .ok c) :
    c.Declaring count versions.length := by
  refine foldlM_invariant (fun made t => t.Declaring count made.length) .empty ?_ h
  rintro made p rest t t' - ht hadd
  rw [List.length_append]
  exact ht.addVersion hadd

/-! ### Deprecation -/

/-- What belongs to something deprecated is deprecated. -/
structure Inherited (c : Chain) : Prop where
  fields : ∀ f ∈ c.fields, (c.message f.message).deprecated → f.deprecated
  oneofs : ∀ o ∈ c.oneofs, (c.message o.message).deprecated → o.deprecated
  values : ∀ x ∈ c.values, (c.enumeration x.enumeration).deprecated → x.deprecated

/-- Deprecation is inherited by all members of what is deprecated. -/
theorem inherited_inheritDeprecation (c : Chain) : c.inheritDeprecation.Inherited where
  fields := by
    intro f hf hm
    obtain ⟨g, -, rfl⟩ := Array.mem_map.mp hf
    exact Bool.or_eq_true_iff.mpr (.inr hm)
  oneofs := by
    intro o ho hm
    obtain ⟨g, -, rfl⟩ := Array.mem_map.mp ho
    exact Bool.or_eq_true_iff.mpr (.inr hm)
  values := by
    intro x hx he
    obtain ⟨g, -, rfl⟩ := Array.mem_map.mp hx
    exact Bool.or_eq_true_iff.mpr (.inr he)

/-- Inheriting deprecation keeps the chain in order. -/
theorem Declaring.inheritDeprecation {count n : Nat} (h : c.Declaring count n) :
    c.inheritDeprecation.Declaring count n := by
  have hshape : SameShape c c.inheritDeprecation :=
    ⟨rfl, rfl, by simp [Chain.inheritDeprecation, deprecateEnums, deprecateMembers],
      by simp [Chain.inheritDeprecation, deprecateEnums, deprecateMembers],
      by simp [Chain.inheritDeprecation, deprecateEnums, deprecateMembers],
      by simp [Chain.inheritDeprecation, deprecateEnums, deprecateMembers], rfl⟩
  refine ⟨hshape.wellFormed h.wellFormed, h.places, ?_, h.requests⟩
  exact { h.unlinked with
    fields := by simpa [Chain.inheritDeprecation, deprecateEnums, deprecateMembers]
      using h.unlinked.fields
    oneofs := by simpa [Chain.inheritDeprecation, deprecateEnums, deprecateMembers]
      using h.unlinked.oneofs
    enums := by simpa [Chain.inheritDeprecation, deprecateEnums, deprecateMembers]
      using h.unlinked.enums
    values := by simpa [Chain.inheritDeprecation, deprecateEnums, deprecateMembers]
      using h.unlinked.values }

end Chain

end Lineage
