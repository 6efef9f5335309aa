import Lineage.Proofs.Chain.Ownership

namespace Lineage

/-!
# Well-formed chains

* `Matched` — references from one array to another that agree on a key,
* `Chain.WellFormed` — every node carries its own position, every owner lists exactly what belongs
  to it, and every reference leads to a node,
* `Chain.WellFormed.pushMessage`, `pushEnum`, `pushField`, … — one declaration more.

Each part is stated about an array of what it is about, so that it does not depend on anything else
that a node holds.
-/

/-! ### Arrays that change in one place -/

/-- A modification does not show in what it does not change. -/
@[simp] theorem map_modify_of_forall {α β : Type} (g : α → β) {f : α → α} (a : Array α) (i : Nat)
    (h : ∀ x, g (f x) = g x) : (a.modify i f).map g = a.map g := by
  apply Array.ext_getElem?
  intro k
  rw [Array.getElem?_map, Array.getElem?_map, Array.getElem?_modify]
  split
  · simp [Function.comp_def, h]
  · rfl

/-- A modification shows as one of what it changes. -/
theorem map_modify_comm {α β : Type} (g : α → β) {f : α → α} {f' : β → β} (a : Array α) (i : Nat)
    (h : ∀ x, g (f x) = f' (g x)) : (a.modify i f).map g = (a.map g).modify i f' := by
  apply Array.ext_getElem?
  intro k
  rw [Array.getElem?_map, Array.getElem?_modify, Array.getElem?_modify, Array.getElem?_map]
  split
  · simp [Function.comp_def, h]
  · rfl

/-- One number more. -/
theorem range_push (n : Nat) : (Array.range n).push n = Array.range (n + 1) := by
  rw [Array.range_succ, Array.push_eq_append]

/-! ### References -/

/-- Every reference leads to an entry with the key of what refers to it. -/
def Matched {κ : Type} (references : Array (κ × Option Nat)) (keys : Array κ) : Prop :=
  ∀ (i : Nat) k r, references[i]? = some (k, some r) → keys[r]? = some k

/-- Every reference leads to an entry whose number is at most that of what refers to it. -/
def Behind (references : Array (Nat × Option Nat)) (numbers : Array Nat) : Prop :=
  ∀ (i : Nat) n r, references[i]? = some (n, some r) → ∃ n', numbers[r]? = some n' ∧ n' ≤ n

/-- What is in an array stays at its position when something is added. -/
theorem getElem?_push_of_some {α : Type} {a : Array α} {i : Nat} {x : α} (y : α)
    (h : a[i]? = some x) : (a.push y)[i]? = some x := by
  rw [Array.getElem?_push, if_neg, h]
  exact Nat.ne_of_lt (Array.getElem?_eq_some_iff.mp h).1

namespace Matched

variable {κ : Type} {references : Array (κ × Option Nat)} {keys : Array κ}

/-- Without references all of them lead to their keys. -/
theorem empty {keys : Array κ} : Matched #[] keys := by
  intro i k r h
  simp at h

/-- One key more changes no reference. -/
theorem pushKey (h : Matched references keys) (key : κ) : Matched references (keys.push key) :=
  fun i k r hr => getElem?_push_of_some key (h i k r hr)

/-- One reference more, which leads to its key. -/
theorem pushReference (h : Matched references keys) (k : κ) (r : Option Nat)
    (hr : ∀ n, r = some n → keys[n]? = some k) : Matched (references.push (k, r)) keys := by
  intro i k' n hi
  rw [Array.getElem?_push] at hi
  split at hi
  · obtain ⟨rfl, rfl⟩ : k = k' ∧ r = some n := by simpa using hi
    exact hr n rfl
  · exact h i k' n hi

end Matched

namespace Behind

variable {references : Array (Nat × Option Nat)} {numbers : Array Nat}

/-- Without references all of them lead back. -/
theorem empty {numbers : Array Nat} : Behind #[] numbers := by
  intro i n r h
  simp at h

/-- One number more changes no reference. -/
theorem pushNumber (h : Behind references numbers) (number : Nat) :
    Behind references (numbers.push number) := by
  intro i n r hr
  obtain ⟨n', hn', hle⟩ := h i n r hr
  exact ⟨n', getElem?_push_of_some number hn', hle⟩

/-- One reference more, which leads back. -/
theorem pushReference (h : Behind references numbers) (n : Nat) (r : Option Nat)
    (hr : ∀ k, r = some k → ∃ n', numbers[k]? = some n' ∧ n' ≤ n) :
    Behind (references.push (n, r)) numbers := by
  intro i n' k hi
  rw [Array.getElem?_push] at hi
  split at hi
  · obtain ⟨rfl, rfl⟩ : n = n' ∧ r = some k := by simpa using hi
    exact hr k rfl
  · exact h i n' k hi

end Behind

/-- One node more, which the owner that it names lists last. -/
theorem Owned.push_modify {N O Id : Type} {nodes : Array N} {owners : Array O}
    {ownerOf : N → Option Nat} {listOf : O → List Id} {index : Id → Nat}
    (h : Owned (nodes.map ownerOf) (owners.map fun o => (listOf o).map index)) {node : N} {k : Nat}
    (hk : k < owners.size) (hnode : ownerOf node = some k) (id : Id) (hid : index id = nodes.size)
    {add : O → O} (hadd : ∀ o, listOf (add o) = listOf o ++ [id]) :
    Owned ((nodes.push node).map ownerOf)
      ((owners.modify k add).map fun o => (listOf o).map index) := by
  have hlists : (owners.modify k add).map (fun o => (listOf o).map index)
      = (owners.map fun o => (listOf o).map index).modify k (· ++ [nodes.size]) :=
    map_modify_comm _ _ _ fun o => by simp [hadd, hid]
  rw [hlists, Array.map_push, hnode]
  simpa using h.pushMember k (by simpa using hk)

/-- One reference more below a bound. -/
theorem lt_of_getElem?_push {references : Array (Option Nat)} {bound : Nat}
    (h : ∀ (i n : Nat), references[i]? = some (some n) → n < bound) {reference : Option Nat}
    (hr : ∀ n, reference = some n → n < bound) (i n : Nat)
    (hi : (references.push reference)[i]? = some (some n)) : n < bound := by
  rw [Array.getElem?_push] at hi
  split at hi
  · exact hr n (Option.some.inj hi)
  · exact h i n hi

/-- The position of the message of the chain that is referred to. -/
def TypeRef.message? : TypeRef → Option Nat
  | .message m => some m.index
  | _ => none

/-- The position of the enum of the chain that is referred to. -/
def TypeRef.enum? : TypeRef → Option Nat
  | .enumeration e => some e.index
  | _ => none

/-- The position of the message of the chain that a field has as its type. -/
def Field.messageType? (f : Field) : Option Nat := f.typeRef.bind TypeRef.message?

/-- The position of the enum of the chain that a field has as its type. -/
def Field.enumType? (f : Field) : Option Nat := f.typeRef.bind TypeRef.enum?

namespace Chain

/-- Every node carries its own position, every owner lists exactly what belongs to it, and every
    reference leads to a node. -/
structure WellFormed (c : Chain) : Prop where
  versionIds : c.versions.map (·.id.index) = .range c.versions.size
  messageIds : c.messages.map (·.id.index) = .range c.messages.size
  fieldIds : c.fields.map (·.id.index) = .range c.fields.size
  oneofIds : c.oneofs.map (·.id.index) = .range c.oneofs.size
  enumIds : c.enums.map (·.id.index) = .range c.enums.size
  valueIds : c.values.map (·.id.index) = .range c.values.size
  methodIds : c.methods.map (·.id.index) = .range c.methods.size
  messages : Owned (c.messages.map fun m => some m.version.index)
    (c.versions.map fun v => v.messages.map (·.index))
  enums : Owned (c.enums.map fun e => some e.version.index)
    (c.versions.map fun v => v.enums.map (·.index))
  methods : Owned (c.methods.map fun m => some m.version.index)
    (c.versions.map fun v => v.methods.map (·.index))
  values : Owned (c.values.map fun x => some x.enumeration.index)
    (c.enums.map fun e => e.values.map (·.index))
  oneofs : Owned (c.oneofs.map fun o => some o.message.index)
    (c.messages.map fun m => m.oneofs.map (·.index))
  fields : Owned (c.fields.map fun f => some f.message.index)
    (c.messages.map fun m => m.fields.map (·.index))
  variants : Owned (c.fields.map fun f => f.oneof.map (·.index))
    (c.oneofs.map fun o => o.fields.map (·.index))
  /-- A variant belongs to the message that its oneof belongs to. -/
  variantOneofs : Matched (c.fields.map fun f => (f.message, f.oneof.map (·.index)))
    (c.oneofs.map (·.message))
  /-- An enclosing message is of the same version, and declared before. -/
  parents : Matched (c.messages.map fun m => (m.version, m.parent.map (·.index)))
    (c.messages.map (·.version))
  parentsBefore : ∀ (i p : Nat), (c.messages.map fun m => m.parent.map (·.index))[i]?
    = some (some p) → p < i
  enumParents : Matched (c.enums.map fun e => (e.version, e.parent.map (·.index)))
    (c.messages.map (·.version))
  /-- The types of a method are of its own version or of an earlier one. -/
  inputs : Behind (c.methods.map fun m => (m.version.index, some m.input.index))
    (c.messages.map (·.version.index))
  outputs : Behind (c.methods.map fun m => (m.version.index, some m.output.index))
    (c.messages.map (·.version.index))
  messageTypes : ∀ (i m : Nat), (c.fields.map (·.messageType?))[i]? = some (some m) →
    m < c.messages.size
  enumTypes : ∀ (i e : Nat), (c.fields.map (·.enumType?))[i]? = some (some e) →
    e < c.enums.size

namespace WellFormed

variable {c : Chain}

/-- The empty chain is well-formed. -/
theorem empty : WellFormed {} where
  versionIds := by simp
  messageIds := by simp
  fieldIds := by simp
  oneofIds := by simp
  enumIds := by simp
  valueIds := by simp
  methodIds := by simp
  messages := by simpa using .empty
  enums := by simpa using .empty
  methods := by simpa using .empty
  values := by simpa using .empty
  oneofs := by simpa using .empty
  fields := by simpa using .empty
  variants := by simpa using .empty
  variantOneofs := by simpa using .empty
  parents := by simpa using .empty
  parentsBefore := by simp
  enumParents := by simpa using .empty
  inputs := by simpa using .empty
  outputs := by simpa using .empty
  messageTypes := by simp
  enumTypes := by simp

/-! ### One declaration more -/

/-- A version that lists nothing yet. -/
theorem pushVersion (h : c.WellFormed) (v : Version) (hid : v.id = ⟨c.versions.size⟩)
    (hm : v.messages = []) (he : v.enums = []) (hs : v.methods = []) :
    WellFormed { c with versions := c.versions.push v } :=
  { h with
    versionIds := by simp [hid, h.versionIds, range_push]
    messages := by simpa [hm] using h.messages.pushOwner
    enums := by simpa [he] using h.enums.pushOwner
    methods := by simpa [hs] using h.methods.pushOwner }

/-- A message without members, of a version that exists. -/
theorem pushMessage (h : c.WellFormed) (v : VersionId) (hv : v.index < c.versions.size)
    (m : Message) (hid : m.id = ⟨c.messages.size⟩) (hm : m.version = v) (hf : m.fields = [])
    (ho : m.oneofs = [])
    (hp : ∀ p, m.parent = some p → (c.messages.map (·.version))[p.index]? = some v) :
    WellFormed { c with
      messages := c.messages.push m
      versions := c.versions.modify v.index fun x =>
        { x with messages := x.messages ++ [⟨c.messages.size⟩] } } := by
  have hparent : ∀ n, m.parent.map (·.index) = some n →
      (c.messages.map (·.version))[n]? = some v := by
    intro n hn
    obtain ⟨p, hpm, rfl⟩ := Option.map_eq_some_iff.mp hn
    exact hp p hpm
  refine { h with
    versionIds := ?_
    messageIds := ?_
    messages := ?_
    enums := ?_
    methods := ?_
    oneofs := ?_
    fields := ?_
    parents := ?_
    parentsBefore := ?_
    enumParents := ?_
    inputs := ?_
    outputs := ?_
    messageTypes := ?_ }
  · simpa using h.versionIds
  · simp [hid, h.messageIds, range_push]
  · dsimp only
    exact h.messages.push_modify hv (by rw [hm]) ⟨c.messages.size⟩ rfl fun _ => rfl
  · simpa using h.enums
  · simpa using h.methods
  · simpa [ho] using h.oneofs.pushOwner
  · simpa [hf] using h.fields.pushOwner
  · dsimp only
    rw [Array.map_push, Array.map_push, hm]
    exact (h.parents.pushKey v).pushReference v _
      fun n hn => getElem?_push_of_some v (hparent n hn)
  · -- the message itself is the only one whose parent is not known to come before
    intro i p hip
    simp only [Array.map_push, Array.getElem?_push, Array.size_map] at hip
    split at hip
    · subst i
      have hlt := (Array.getElem?_eq_some_iff.mp (hparent p (by simpa using hip))).1
      simpa using hlt
    · exact h.parentsBefore i p hip
  · simpa using h.enumParents.pushKey m.version
  · simpa using h.inputs.pushNumber m.version.index
  · simpa using h.outputs.pushNumber m.version.index
  · intro i n hi
    exact Nat.lt_of_lt_of_le (h.messageTypes i n hi) (by simp)

/-- An enum with its values, of a version that exists. -/
theorem pushEnum (h : c.WellFormed) (v : VersionId) (hv : v.index < c.versions.size) (e : Enum)
    (xs : Array EnumValue) (hid : e.id = ⟨c.enums.size⟩) (he : e.version = v)
    (hvalues : e.values = (List.range xs.size).map fun i => ⟨c.values.size + i⟩)
    (hxs : xs.map (fun x => some x.enumeration.index) = .replicate xs.size (some c.enums.size))
    (hxids : xs.map (·.id.index) = (Array.range xs.size).map (c.values.size + ·))
    (hp : ∀ p, e.parent = some p → (c.messages.map (·.version))[p.index]? = some v) :
    WellFormed { c with
      values := c.values ++ xs
      enums := c.enums.push e
      versions := c.versions.modify v.index fun x =>
        { x with enums := x.enums ++ [⟨c.enums.size⟩] } } := by
  refine { h with
    versionIds := by simpa using h.versionIds
    enumIds := by simp [hid, h.enumIds, range_push]
    valueIds := by simp [h.valueIds, hxids, Array.range_add]
    messages := by simpa using h.messages
    methods := by simpa using h.methods
    enums := ?_
    values := ?_
    enumParents := ?_
    enumTypes := ?_ }
  · dsimp only
    exact h.enums.push_modify hv (by rw [he]) ⟨c.enums.size⟩ rfl fun _ => rfl
  · simpa [hxs, hvalues, Function.comp_def] using h.values.pushFamily xs.size
  · dsimp only
    rw [Array.map_push, he]
    refine h.enumParents.pushReference v _ fun n hn => ?_
    obtain ⟨p, hpe, rfl⟩ := Option.map_eq_some_iff.mp hn
    exact hp p hpe
  · intro i n hi
    exact Nat.lt_of_lt_of_le (h.enumTypes i n hi) (by simp)

/-- A oneof without variants, of a message that exists. -/
theorem pushOneof (h : c.WellFormed) (m : MessageId) (hm : m.index < c.messages.size) (o : Oneof)
    (hid : o.id = ⟨c.oneofs.size⟩) (ho : o.message = m) (hf : o.fields = []) :
    WellFormed { c with
      oneofs := c.oneofs.push o
      messages := c.messages.modify m.index fun x =>
        { x with oneofs := x.oneofs ++ [⟨c.oneofs.size⟩] } } := by
  refine { h with
    messageIds := by simpa using h.messageIds
    oneofIds := by simp [hid, h.oneofIds, range_push]
    messages := by simpa using h.messages
    fields := by simpa using h.fields
    variants := by simpa [hf] using h.variants.pushOwner
    variantOneofs := by simpa using h.variantOneofs.pushKey o.message
    parents := by simpa using h.parents
    parentsBefore := by simpa using h.parentsBefore
    enumParents := by simpa using h.enumParents
    inputs := by simpa using h.inputs
    outputs := by simpa using h.outputs
    messageTypes := by simpa using h.messageTypes
    oneofs := ?_ }
  dsimp only
  exact h.oneofs.push_modify hm (by rw [ho]) ⟨c.oneofs.size⟩ rfl fun _ => rfl

/-- A field of a message that exists; a variant also goes to its oneof, which must be one of the
    message. -/
theorem pushField (h : c.WellFormed) (m : MessageId) (hm : m.index < c.messages.size) (f : Field)
    (hid : f.id = ⟨c.fields.size⟩) (hf : f.message = m)
    (ho : ∀ o, f.oneof = some o → (c.oneofs.map (·.message))[o.index]? = some m)
    (hmt : ∀ n, f.messageType? = some n → n < c.messages.size)
    (het : ∀ n, f.enumType? = some n → n < c.enums.size) :
    WellFormed { c with
      fields := c.fields.push f
      oneofs := match f.oneof with
        | some o => c.oneofs.modify o.index fun x =>
          { x with fields := x.fields ++ [⟨c.fields.size⟩] }
        | none => c.oneofs
      messages := c.messages.modify m.index fun x =>
        { x with fields := x.fields ++ [⟨c.fields.size⟩] } } := by
  have hmessageTypes : ∀ (i n : Nat), ((c.fields.push f).map (·.messageType?))[i]? = some (some n) →
      n < c.messages.size := by
    rw [Array.map_push]
    exact lt_of_getElem?_push h.messageTypes hmt
  have henumTypes : ∀ (i n : Nat), ((c.fields.push f).map (·.enumType?))[i]? = some (some n) →
      n < c.enums.size := by
    rw [Array.map_push]
    exact lt_of_getElem?_push h.enumTypes het
  have hmatched : Matched ((c.fields.push f).map fun f => (f.message, f.oneof.map (·.index)))
      (c.oneofs.map (·.message)) := by
    rw [Array.map_push, hf]
    refine h.variantOneofs.pushReference m _ fun n hn => ?_
    obtain ⟨o, hfo, rfl⟩ := Option.map_eq_some_iff.mp hn
    exact ho o hfo
  refine { h with
    messageIds := by simpa using h.messageIds
    fieldIds := by simp [hid, h.fieldIds, range_push]
    messages := by simpa using h.messages
    parents := by simpa using h.parents
    parentsBefore := by simpa using h.parentsBefore
    enumParents := by simpa using h.enumParents
    inputs := by simpa using h.inputs
    outputs := by simpa using h.outputs
    fields := ?_
    messageTypes := by simpa using hmessageTypes
    enumTypes := henumTypes
    oneofIds := ?_
    oneofs := ?_
    variants := ?_
    variantOneofs := ?_ }
  · cases f.oneof <;> simpa using h.oneofIds
  · cases f.oneof <;> simpa using h.oneofs
  · dsimp only
    exact h.fields.push_modify hm (by rw [hf]) ⟨c.fields.size⟩ rfl fun _ => rfl
  · cases hfo : f.oneof with
    | none => simpa [hfo] using h.variants.pushOrphan
    | some o =>
      have hbound : o.index < c.oneofs.size := by
        simpa using (Array.getElem?_eq_some_iff.mp (ho o hfo)).1
      dsimp only
      exact h.variants.push_modify hbound (by rw [hfo]; rfl) ⟨c.fields.size⟩ rfl fun _ => rfl
  · cases hfo : f.oneof with
    | none => exact hmatched
    | some o => simpa using hmatched

/-- A method of a version that exists, with types of that version or of earlier ones. -/
theorem pushMethod (h : c.WellFormed) (v : VersionId) (hv : v.index < c.versions.size) (m : Method)
    (hid : m.id = ⟨c.methods.size⟩) (hm : m.version = v)
    (hi : ∃ n, (c.messages.map (·.version.index))[m.input.index]? = some n ∧ n ≤ v.index)
    (ho : ∃ n, (c.messages.map (·.version.index))[m.output.index]? = some n ∧ n ≤ v.index) :
    WellFormed { c with
      methods := c.methods.push m
      versions := c.versions.modify v.index fun x =>
        { x with methods := x.methods ++ [⟨c.methods.size⟩] } } := by
  refine { h with
    versionIds := by simpa using h.versionIds
    methodIds := by simp [hid, h.methodIds, range_push]
    messages := by simpa using h.messages
    enums := by simpa using h.enums
    methods := ?_
    inputs := ?_
    outputs := ?_ }
  · dsimp only
    exact h.methods.push_modify hv (by rw [hm]) ⟨c.methods.size⟩ rfl fun _ => rfl
  · dsimp only
    rw [Array.map_push, hm]
    refine h.inputs.pushReference v.index _ fun k hk => ?_
    obtain rfl : m.input.index = k := by simpa using hk
    exact hi
  · dsimp only
    rw [Array.map_push, hm]
    refine h.outputs.pushReference v.index _ fun k hk => ?_
    obtain rfl : m.output.index = k := by simpa using hk
    exact ho

end WellFormed

/-! ### Changes that well-formedness is not about -/

/-- Two chains that differ at most in annotations, links and propagations. -/
structure SameShape (c c' : Chain) : Prop where
  versions : c'.versions = c.versions
  messages : c'.messages.map (fun m => (m.id, m.version, m.parent, m.fields, m.oneofs))
    = c.messages.map fun m => (m.id, m.version, m.parent, m.fields, m.oneofs)
  fields : c'.fields.map (fun f => (f.id, f.message, f.oneof, f.typeRef))
    = c.fields.map fun f => (f.id, f.message, f.oneof, f.typeRef)
  oneofs : c'.oneofs.map (fun o => (o.id, o.message, o.fields))
    = c.oneofs.map fun o => (o.id, o.message, o.fields)
  enums : c'.enums.map (fun e => (e.id, e.version, e.parent, e.values))
    = c.enums.map fun e => (e.id, e.version, e.parent, e.values)
  values : c'.values.map (fun x => (x.id, x.enumeration))
    = c.values.map fun x => (x.id, x.enumeration)
  methods : c'.methods.map (fun m => (m.id, m.version, m.input, m.output))
    = c.methods.map fun m => (m.id, m.version, m.input, m.output)

/-- What is read from equal parts of two arrays is equal. -/
theorem map_eq_of_map_eq {α β γ : Type} {a b : Array α} {f : α → β} (h : a.map f = b.map f)
    (g : β → γ) : a.map (fun x => g (f x)) = b.map fun x => g (f x) := by
  simpa only [Array.map_map, Function.comp_def] using congrArg (Array.map g) h

/-- Arrays with the same images are of one size. -/
theorem size_eq_of_map_eq {α β : Type} {a b : Array α} {f : α → β} (h : a.map f = b.map f) :
    a.size = b.size := by
  simpa using congrArg Array.size h

/-- A chain of the same shape is well-formed as well. -/
theorem SameShape.wellFormed {c c' : Chain} (hs : SameShape c c') (h : c.WellFormed) :
    c'.WellFormed := by
  have hm {γ : Type} := map_eq_of_map_eq (γ := γ) hs.messages
  have hf {γ : Type} := map_eq_of_map_eq (γ := γ) hs.fields
  have ho {γ : Type} := map_eq_of_map_eq (γ := γ) hs.oneofs
  have he {γ : Type} := map_eq_of_map_eq (γ := γ) hs.enums
  have hx {γ : Type} := map_eq_of_map_eq (γ := γ) hs.values
  have hr {γ : Type} := map_eq_of_map_eq (γ := γ) hs.methods
  have hversion : c'.messages.map (·.version) = c.messages.map (·.version) := hm fun s => s.2.1
  have hindex : c'.messages.map (·.version.index) = c.messages.map (·.version.index) :=
    hm fun s => s.2.1.index
  exact {
    versionIds := by rw [hs.versions]; exact h.versionIds
    messageIds := by
      rw [size_eq_of_map_eq hs.messages]; exact (hm fun s => s.1.index).trans h.messageIds
    fieldIds := by rw [size_eq_of_map_eq hs.fields]; exact (hf fun s => s.1.index).trans h.fieldIds
    oneofIds := by rw [size_eq_of_map_eq hs.oneofs]; exact (ho fun s => s.1.index).trans h.oneofIds
    enumIds := by rw [size_eq_of_map_eq hs.enums]; exact (he fun s => s.1.index).trans h.enumIds
    valueIds := by rw [size_eq_of_map_eq hs.values]; exact (hx fun s => s.1.index).trans h.valueIds
    methodIds := by
      rw [size_eq_of_map_eq hs.methods]; exact (hr fun s => s.1.index).trans h.methodIds
    messages := by
      have howner := hm fun s => some s.2.1.index
      rw [hs.versions]; exact howner ▸ h.messages
    enums := by
      have howner := he fun s => some s.2.1.index
      rw [hs.versions]; exact howner ▸ h.enums
    methods := by
      have howner := hr fun s => some s.2.1.index
      rw [hs.versions]; exact howner ▸ h.methods
    values := by
      have howner := hx fun s => some s.2.index
      have hlist := he fun s => s.2.2.2.map (·.index)
      exact howner ▸ hlist ▸ h.values
    oneofs := by
      have howner := ho fun s => some s.2.1.index
      have hlist := hm fun s => s.2.2.2.2.map (·.index)
      exact howner ▸ hlist ▸ h.oneofs
    fields := by
      have howner := hf fun s => some s.2.1.index
      have hlist := hm fun s => s.2.2.2.1.map (·.index)
      exact howner ▸ hlist ▸ h.fields
    variants := by
      have howner := hf fun s => s.2.2.1.map (·.index)
      have hlist := ho fun s => s.2.2.map (·.index)
      exact howner ▸ hlist ▸ h.variants
    variantOneofs := by
      have href := hf fun s => (s.2.1, s.2.2.1.map (·.index))
      have hkey := ho fun s => s.2.1
      exact href ▸ hkey ▸ h.variantOneofs
    parents := by
      have href := hm fun s => (s.2.1, s.2.2.1.map (·.index))
      rw [hversion]; exact href ▸ h.parents
    parentsBefore := by
      have href := hm fun s => s.2.2.1.map (·.index)
      exact href ▸ h.parentsBefore
    enumParents := by
      have href := he fun s => (s.2.1, s.2.2.1.map (·.index))
      rw [hversion]; exact href ▸ h.enumParents
    inputs := by
      have href := hr fun s => (s.2.1.index, some s.2.2.1.index)
      rw [hindex]; exact href ▸ h.inputs
    outputs := by
      have href := hr fun s => (s.2.1.index, some s.2.2.2.index)
      rw [hindex]; exact href ▸ h.outputs
    messageTypes := by
      have href := hf fun s => Option.bind s.2.2.2 TypeRef.message?
      rw [size_eq_of_map_eq hs.messages]; exact href ▸ h.messageTypes
    enumTypes := by
      have href := hf fun s => Option.bind s.2.2.2 TypeRef.enum?
      rw [size_eq_of_map_eq hs.enums]; exact href ▸ h.enumTypes }

end Chain

end Lineage
