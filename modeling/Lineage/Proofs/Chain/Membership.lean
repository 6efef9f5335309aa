import Lineage.Proofs.Chain.WellFormed

namespace Lineage

/-!
# What belongs to what

In a well-formed chain the list of an owner holds exactly the nodes that name it as their owner.

* `Owned.mem_list` — that, for any kind of node,
* `Chain.WellFormed.mem_messages`, `mem_fields`, `mem_values`, … — for each kind of node,
* `Chain.WellFormed.message_id`, … — a node carries its position,
* `Chain.WellFormed.input_behind`, `output_behind` — the types of a method are not of a later
  version,
* `Chain.WellFormed.findMessage_eq_some`, … — what a look-up by name finds.
-/

variable {N O Id : Type} {nodes : Array N} {owners : Array O} {ownerOf : N → Option Nat}
  {listOf : O → List Id} {index : Id → Nat}

/-- Within the bounds no default is needed. -/
theorem getElem?_eq_some_getD {a : Array N} {k : Nat} (hk : k < a.size) (d : N) :
    a[k]? = some (a.getD k d) := by
  simp [Array.getD_eq_getD_getElem?, hk]

/-- Within the bounds no default is needed, also after a map. -/
theorem getElem?_map_getD {a : Array N} {k : Nat} (hk : k < a.size) (d : N) (f : N → O) :
    (a.map f)[k]? = some (f (a.getD k d)) := by
  rw [Array.getElem?_map, getElem?_eq_some_getD hk d, Option.map_some]

/-- Outside of an array stands what there is by default. -/
theorem getD_of_not_lt {a : Array N} {k : Nat} (hk : ¬k < a.size) (d : N) : a.getD k d = d := by
  simp [Array.getD_eq_getD_getElem?, hk]

/-- What holds of all entries of an array and of the default holds at every position. -/
theorem forall_getD {p : N → Prop} {a : Array N} {d : N} (h : ∀ x ∈ a, p x) (hd : p d) (k : Nat) :
    p (a.getD k d) := by
  by_cases hk : k < a.size
  · exact h _ (Array.mem_of_getElem? (getElem?_eq_some_getD hk d))
  · rwa [getD_of_not_lt hk]

namespace Owned

/-- **Membership.** An owner lists what names it as its owner, and nothing else. -/
theorem mem_list (h : Owned (nodes.map ownerOf) (owners.map fun o => (listOf o).map index))
    (hindex : ∀ a b, index a = index b → a = b) (dn : N) (d : O) (hd : listOf d = []) (k : Nat)
    (id : Id) :
    id ∈ listOf (owners.getD k d) ↔
      index id < nodes.size ∧ ownerOf (nodes.getD (index id) dn) = some k := by
  have hnode : (nodes.map ownerOf)[index id]? = some (some k) ↔
      index id < nodes.size ∧ ownerOf (nodes.getD (index id) dn) = some k := by
    by_cases hid : index id < nodes.size
    · rw [getElem?_map_getD hid dn]
      simp [hid]
    · simp [hid]
  rw [← hnode]
  by_cases hk : k < owners.size
  · rw [← h.mem_iff (getElem?_map_getD hk d fun o => (listOf o).map index), List.mem_map]
    constructor
    · exact fun hid => ⟨id, hid, rfl⟩
    · rintro ⟨a, ha, heq⟩
      exact hindex a id heq ▸ ha
  · -- an owner that does not exist lists nothing, and nothing names it
    rw [getD_of_not_lt hk, hd]
    constructor
    · simp
    · intro hid
      have hbound := h.bound _ _ hid
      rw [Array.size_map] at hbound
      exact absurd hbound hk

/-- The owner of a node is among the owners. -/
theorem bound_of_lt (h : Owned (nodes.map ownerOf) (owners.map fun o => (listOf o).map index))
    {k : Nat} (hk : k < nodes.size) (dn : N) {owner : Nat}
    (ho : ownerOf (nodes.getD k dn) = some owner) : owner < owners.size := by
  have hbound := h.bound k owner (by rw [getElem?_map_getD hk dn, ho])
  rwa [Array.size_map] at hbound

/-- What an owner lists is in the order of the positions. -/
theorem pairwise_list (h : Owned (nodes.map ownerOf) (owners.map fun o => (listOf o).map index))
    (d : O) (hd : listOf d = []) (k : Nat) :
    (listOf (owners.getD k d)).Pairwise fun a b => index a < index b := by
  by_cases hk : k < owners.size
  · have hpair := h.pairwise (getElem?_map_getD hk d fun o => (listOf o).map index)
    exact List.pairwise_map.mp hpair
  · have hnone : owners.getD k d = d := by simp [Array.getD_eq_getD_getElem?, hk]
    rw [hnone, hd]
    exact .nil

end Owned

/-- What a reference leads to exists, with a number that is not greater. -/
theorem Behind.getD {references : Array (Nat × Option Nat)} {numbers : N → Nat}
    (h : Behind references (nodes.map numbers)) {i n k : Nat}
    (hi : references[i]? = some (n, some k)) (d : N) :
    k < nodes.size ∧ numbers (nodes.getD k d) ≤ n := by
  obtain ⟨n', hn', hle⟩ := h i n k hi
  have hk : k < nodes.size := by simpa using (Array.getElem?_eq_some_iff.mp hn').1
  rw [getElem?_map_getD hk d, Option.some.injEq] at hn'
  exact ⟨hk, hn' ▸ hle⟩

namespace Chain.WellFormed

variable {c : Chain}

/-! ### Members of versions, messages, oneofs and enums -/

/-- A version lists the messages that name it as their version. -/
theorem mem_messages (h : c.WellFormed) (v : VersionId) (m : MessageId) :
    m ∈ (c.version v).messages ↔ m.index < c.messages.size ∧ (c.message m).version = v := by
  have hmem : m ∈ (c.version v).messages ↔
      m.index < c.messages.size ∧ some (c.message m).version.index = some v.index :=
    h.messages.mem_list (fun _ _ => MessageId.ext) default default rfl v.index m
  rw [hmem, Option.some.injEq, VersionId.ext_iff]

/-- A version lists the enums that name it as their version. -/
theorem mem_enums (h : c.WellFormed) (v : VersionId) (e : EnumId) :
    e ∈ (c.version v).enums ↔ e.index < c.enums.size ∧ (c.enumeration e).version = v := by
  have hmem : e ∈ (c.version v).enums ↔
      e.index < c.enums.size ∧ some (c.enumeration e).version.index = some v.index :=
    h.enums.mem_list (fun _ _ => EnumId.ext) default default rfl v.index e
  rw [hmem, Option.some.injEq, VersionId.ext_iff]

/-- A version lists the methods that name it as their version. -/
theorem mem_methods (h : c.WellFormed) (v : VersionId) (m : MethodId) :
    m ∈ (c.version v).methods ↔ m.index < c.methods.size ∧ (c.method m).version = v := by
  have hmem : m ∈ (c.version v).methods ↔
      m.index < c.methods.size ∧ some (c.method m).version.index = some v.index :=
    h.methods.mem_list (fun _ _ => MethodId.ext) default default rfl v.index m
  rw [hmem, Option.some.injEq, VersionId.ext_iff]

/-- An enum lists the values that name it as their enum. -/
theorem mem_values (h : c.WellFormed) (e : EnumId) (x : ValueId) :
    x ∈ (c.enumeration e).values ↔ x.index < c.values.size ∧ (c.value x).enumeration = e := by
  have hmem : x ∈ (c.enumeration e).values ↔
      x.index < c.values.size ∧ some (c.value x).enumeration.index = some e.index :=
    h.values.mem_list (fun _ _ => ValueId.ext) default default rfl e.index x
  rw [hmem, Option.some.injEq, EnumId.ext_iff]

/-- A message lists the oneofs that name it as their message. -/
theorem mem_oneofs (h : c.WellFormed) (m : MessageId) (o : OneofId) :
    o ∈ (c.message m).oneofs ↔ o.index < c.oneofs.size ∧ (c.oneof o).message = m := by
  have hmem : o ∈ (c.message m).oneofs ↔
      o.index < c.oneofs.size ∧ some (c.oneof o).message.index = some m.index :=
    h.oneofs.mem_list (fun _ _ => OneofId.ext) default default rfl m.index o
  rw [hmem, Option.some.injEq, MessageId.ext_iff]

/-- A message lists the fields that name it as their message. -/
theorem mem_fields (h : c.WellFormed) (m : MessageId) (f : FieldId) :
    f ∈ (c.message m).fields ↔ f.index < c.fields.size ∧ (c.field f).message = m := by
  have hmem : f ∈ (c.message m).fields ↔
      f.index < c.fields.size ∧ some (c.field f).message.index = some m.index :=
    h.fields.mem_list (fun _ _ => FieldId.ext) default default rfl m.index f
  rw [hmem, Option.some.injEq, MessageId.ext_iff]

/-- A oneof lists the fields that name it as their oneof. -/
theorem mem_variants (h : c.WellFormed) (o : OneofId) (f : FieldId) :
    f ∈ (c.oneof o).fields ↔ f.index < c.fields.size ∧ (c.field f).oneof = some o := by
  have hmem : f ∈ (c.oneof o).fields ↔
      f.index < c.fields.size ∧ (c.field f).oneof.map (·.index) = some o.index :=
    h.variants.mem_list (fun _ _ => FieldId.ext) default default rfl o.index f
  rw [hmem, Option.map_eq_some_iff]
  refine and_congr_right fun _ => ⟨?_, fun hf => ⟨o, hf, rfl⟩⟩
  rintro ⟨o', ho', heq⟩
  exact OneofId.ext heq ▸ ho'

/-! ### Lists are in the order of positions -/

/-- The messages of a version are listed in the order of their positions. -/
theorem pairwise_messages (h : c.WellFormed) (v : VersionId) :
    (c.version v).messages.Pairwise fun a b => a.index < b.index :=
  h.messages.pairwise_list default rfl v.index

/-- The enums of a version are listed in the order of their positions. -/
theorem pairwise_enums (h : c.WellFormed) (v : VersionId) :
    (c.version v).enums.Pairwise fun a b => a.index < b.index :=
  h.enums.pairwise_list default rfl v.index

/-- The methods of a version are listed in the order of their positions. -/
theorem pairwise_methods (h : c.WellFormed) (v : VersionId) :
    (c.version v).methods.Pairwise fun a b => a.index < b.index :=
  h.methods.pairwise_list default rfl v.index

/-- The values of an enum are listed in the order of their positions. -/
theorem pairwise_values (h : c.WellFormed) (e : EnumId) :
    (c.enumeration e).values.Pairwise fun a b => a.index < b.index :=
  h.values.pairwise_list default rfl e.index

/-- The oneofs of a message are listed in the order of their positions. -/
theorem pairwise_oneofs (h : c.WellFormed) (m : MessageId) :
    (c.message m).oneofs.Pairwise fun a b => a.index < b.index :=
  h.oneofs.pairwise_list default rfl m.index

/-- The fields of a message are listed in the order of their positions. -/
theorem pairwise_fields (h : c.WellFormed) (m : MessageId) :
    (c.message m).fields.Pairwise fun a b => a.index < b.index :=
  h.fields.pairwise_list default rfl m.index

/-! ### Owners exist -/

/-- The version of a message is one of the chain. -/
theorem message_version_lt (h : c.WellFormed) {m : MessageId} (hm : m.index < c.messages.size) :
    (c.message m).version.index < c.versions.size :=
  h.messages.bound_of_lt hm default rfl

/-- The version of an enum is one of the chain. -/
theorem enum_version_lt (h : c.WellFormed) {e : EnumId} (he : e.index < c.enums.size) :
    (c.enumeration e).version.index < c.versions.size :=
  h.enums.bound_of_lt he default rfl

/-- The version of a method is one of the chain. -/
theorem method_version_lt (h : c.WellFormed) {m : MethodId} (hm : m.index < c.methods.size) :
    (c.method m).version.index < c.versions.size :=
  h.methods.bound_of_lt hm default rfl

/-- The enum of a value is one of the chain. -/
theorem value_enum_lt (h : c.WellFormed) {x : ValueId} (hx : x.index < c.values.size) :
    (c.value x).enumeration.index < c.enums.size :=
  h.values.bound_of_lt hx default rfl

/-- The message of a oneof is one of the chain. -/
theorem oneof_message_lt (h : c.WellFormed) {o : OneofId} (ho : o.index < c.oneofs.size) :
    (c.oneof o).message.index < c.messages.size :=
  h.oneofs.bound_of_lt ho default rfl

/-- The message of a field is one of the chain. -/
theorem field_message_lt (h : c.WellFormed) {f : FieldId} (hf : f.index < c.fields.size) :
    (c.field f).message.index < c.messages.size :=
  h.fields.bound_of_lt hf default rfl

/-- The oneof of a variant is one of the chain. -/
theorem field_oneof_lt (h : c.WellFormed) {f : FieldId} (hf : f.index < c.fields.size)
    {o : OneofId} (ho : (c.field f).oneof = some o) : o.index < c.oneofs.size :=
  h.variants.bound_of_lt hf default (by rw [← Chain.field, ho]; rfl)

/-- A variant and its oneof belong to one message. -/
theorem oneof_message_eq (h : c.WellFormed) {f : FieldId} (hf : f.index < c.fields.size)
    {o : OneofId} (ho : (c.field f).oneof = some o) :
    (c.oneof o).message = (c.field f).message := by
  have hkey := h.variantOneofs f.index (c.field f).message o.index
    (by rw [getElem?_map_getD hf default, ← Chain.field, ho]; rfl)
  rw [getElem?_map_getD (h.field_oneof_lt hf ho) default] at hkey
  exact Option.some.inj hkey

/-- A variant is a field of the message that its oneof belongs to. -/
theorem mem_fields_of_variant (h : c.WellFormed) {m : MessageId} {o : OneofId}
    (ho : o ∈ (c.message m).oneofs) {f : FieldId} (hf : f ∈ (c.oneof o).fields) :
    f ∈ (c.message m).fields := by
  obtain ⟨hlt, honeof⟩ := (h.mem_variants o f).mp hf
  refine (h.mem_fields m f).mpr ⟨hlt, ?_⟩
  rw [← h.oneof_message_eq hlt honeof]
  exact ((h.mem_oneofs m o).mp ho).2

/-- An enclosing message is of the same version and declared before. -/
theorem parent_eq (h : c.WellFormed) {m p : MessageId} (hm : m.index < c.messages.size)
    (hp : (c.message m).parent = some p) :
    p.index < m.index ∧ (c.message p).version = (c.message m).version := by
  have hbefore := h.parentsBefore m.index p.index
    (by rw [getElem?_map_getD hm default, ← Chain.message, hp]; rfl)
  have hkey := h.parents m.index (c.message m).version p.index
    (by rw [getElem?_map_getD hm default, ← Chain.message, hp]; rfl)
  rw [getElem?_map_getD (Nat.lt_trans hbefore hm) default] at hkey
  exact ⟨hbefore, Option.some.inj hkey⟩

/-- The message that encloses an enum is one of the chain, and of the same version. -/
theorem enum_parent_eq (h : c.WellFormed) {e : EnumId} {p : MessageId}
    (he : e.index < c.enums.size) (hp : (c.enumeration e).parent = some p) :
    p.index < c.messages.size ∧ (c.message p).version = (c.enumeration e).version := by
  have hkey := h.enumParents e.index (c.enumeration e).version p.index
    (by rw [getElem?_map_getD he default, ← Chain.enumeration, hp]; rfl)
  have hlt : p.index < c.messages.size := by
    simpa using (Array.getElem?_eq_some_iff.mp hkey).1
  rw [getElem?_map_getD hlt default] at hkey
  exact ⟨hlt, Option.some.inj hkey⟩

/-! ### Positions -/

/-- A node knows its position. -/
theorem index_getD {index : N → Nat} (h : nodes.map index = .range nodes.size)
    {k : Nat} (hk : k < nodes.size) (d : N) : index (nodes.getD k d) = k := by
  have hget := getElem?_map_getD hk d index
  rw [h] at hget
  simpa [hk] using hget.symm

/-- A message knows its position. -/
theorem message_id (h : c.WellFormed) {m : MessageId} (hm : m.index < c.messages.size) :
    (c.message m).id = m := MessageId.ext (index_getD h.messageIds hm default)

/-- A field knows its position. -/
theorem field_id (h : c.WellFormed) {f : FieldId} (hf : f.index < c.fields.size) :
    (c.field f).id = f := FieldId.ext (index_getD h.fieldIds hf default)

/-- A oneof knows its position. -/
theorem oneof_id (h : c.WellFormed) {o : OneofId} (ho : o.index < c.oneofs.size) :
    (c.oneof o).id = o := OneofId.ext (index_getD h.oneofIds ho default)

/-- A method knows its position. -/
theorem method_id (h : c.WellFormed) {m : MethodId} (hm : m.index < c.methods.size) :
    (c.method m).id = m := MethodId.ext (index_getD h.methodIds hm default)

/-! ### Types of methods -/

/-- A method takes a message of its own or of an earlier version. -/
theorem input_behind (h : c.WellFormed) {m : MethodId} (hm : m.index < c.methods.size) :
    (c.method m).input.index < c.messages.size ∧
      (c.message (c.method m).input).version.index ≤ (c.method m).version.index :=
  h.inputs.getD (getElem?_map_getD hm default _) default

/-- A method returns a message of its own or of an earlier version. -/
theorem output_behind (h : c.WellFormed) {m : MethodId} (hm : m.index < c.methods.size) :
    (c.method m).output.index < c.messages.size ∧
      (c.message (c.method m).output).version.index ≤ (c.method m).version.index :=
  h.outputs.getD (getElem?_map_getD hm default _) default

/-! ### Look-ups by name -/

/-- A message that is found is of the version and has the local name. -/
theorem findMessage_eq_some (h : c.WellFormed) {v : VersionId} {name : String} {m : MessageId}
    (hfind : c.findMessage v name = some m) :
    m.index < c.messages.size ∧ (c.message m).version = v ∧ (c.message m).localName = name := by
  have hmem := (h.mem_messages v m).mp (by simpa using List.mem_of_find?_eq_some hfind)
  exact ⟨hmem.1, hmem.2, by simpa using List.find?_some hfind⟩

/-- An enum that is found is of the version and has the local name. -/
theorem findEnum_eq_some (h : c.WellFormed) {v : VersionId} {name : String} {e : EnumId}
    (hfind : c.findEnum v name = some e) :
    e.index < c.enums.size ∧ (c.enumeration e).version = v ∧
      (c.enumeration e).localName = name := by
  have hmem := (h.mem_enums v e).mp (by simpa using List.mem_of_find?_eq_some hfind)
  exact ⟨hmem.1, hmem.2, by simpa using List.find?_some hfind⟩

/-- A method that is found is of the version and has the name. -/
theorem findMethod_eq_some (h : c.WellFormed) {v : VersionId} {name : String} {m : MethodId}
    (hfind : c.findMethod v name = some m) :
    m.index < c.methods.size ∧ (c.method m).version = v ∧ (c.method m).name = name := by
  have hmem := (h.mem_methods v m).mp (by simpa using List.mem_of_find?_eq_some hfind)
  exact ⟨hmem.1, hmem.2, by simpa using List.find?_some hfind⟩

/-- A field that is found is of the message and has the name. -/
theorem findField_eq_some (h : c.WellFormed) {m : MessageId} {name : String} {f : FieldId}
    (hfind : c.findField m name = some f) :
    f.index < c.fields.size ∧ (c.field f).message = m ∧ (c.field f).name = name := by
  have hmem := (h.mem_fields m f).mp (List.mem_of_find?_eq_some hfind)
  exact ⟨hmem.1, hmem.2, by simpa using List.find?_some hfind⟩

/-- A oneof that is found is of the message and has the name. -/
theorem findOneof_eq_some (h : c.WellFormed) {m : MessageId} {name : String} {o : OneofId}
    (hfind : c.findOneof m name = some o) :
    o.index < c.oneofs.size ∧ (c.oneof o).message = m ∧ (c.oneof o).name = name := by
  have hmem := (h.mem_oneofs m o).mp (List.mem_of_find?_eq_some hfind)
  exact ⟨hmem.1, hmem.2, by simpa using List.find?_some hfind⟩

/-- A variant that is found is of the oneof and has the name. -/
theorem findVariant_eq_some (h : c.WellFormed) {o : OneofId} {name : String} {f : FieldId}
    (hfind : c.findVariant o name = some f) :
    f.index < c.fields.size ∧ (c.field f).oneof = some o ∧ (c.field f).name = name := by
  have hmem := (h.mem_variants o f).mp (List.mem_of_find?_eq_some hfind)
  exact ⟨hmem.1, hmem.2, by simpa using List.find?_some hfind⟩

/-- A value that is found is of the enum and has the name. -/
theorem findValue_eq_some (h : c.WellFormed) {e : EnumId} {name : String} {x : ValueId}
    (hfind : c.findValue e name = some x) :
    x.index < c.values.size ∧ (c.value x).enumeration = e ∧ (c.value x).name = name := by
  have hmem := (h.mem_values e x).mp (List.mem_of_find?_eq_some hfind)
  exact ⟨hmem.1, hmem.2, by simpa using List.find?_some hfind⟩

end Chain.WellFormed

end Lineage
