import Lineage.Chain.Build
import Lineage.Proofs.Chain.Declared

namespace Lineage

/-!
# Nodes of every kind

Linking treats six kinds of nodes alike.  A `Node` is a node of any kind; what the kinds have in
common is read off it.

* `Chain.Has`, `Chain.versionOf`, `Chain.owners`, `Chain.links` — existence, version, owners, links,
* `Chain.nodesOf` — the nodes of a version, in the order in which they are linked,
* `Chain.unlinked` — a chain without what linking adds: links and propagations,
* `Chain.Framed` — what holds of a chain independent of its links.
-/

/-- A node of a chain. -/
inductive Node where
  | message (id : MessageId)
  | enumeration (id : EnumId)
  | value (id : ValueId)
  | oneof (id : OneofId)
  | field (id : FieldId)
  | method (id : MethodId)
deriving DecidableEq

/-- The kind of declaration that a node stands for. -/
def Node.kind : Node → EntityKind
  | message _ => .message
  | enumeration _ => .enumeration
  | value _ => .enumValue
  | oneof _ => .oneof
  | field _ => .field
  | method _ => .method

/-- Both counterparts renamed. -/
def Link.map {α β : Type} (f : α → β) (l : Link α) : Link β :=
  { next := l.next.map f, final := l.final.map f }

@[simp] theorem Link.map_next {α β : Type} (f : α → β) (l : Link α) :
    (l.map f).next = l.next.map f := rfl

@[simp] theorem Link.map_final {α β : Type} (f : α → β) (l : Link α) :
    (l.map f).final = l.final.map f := rfl

@[simp] theorem Link.map_empty {α β : Type} (f : α → β) : Link.map f {} = {} := rfl

/-- The counterpart across the hop is carried over with the link. -/
@[simp] theorem Link.map_hop {α β : Type} (f : α → β) (l : Link α) :
    (l.map f).hop = l.hop.map f := by
  cases h : l.next <;> simp [Link.hop, Link.map, h]

namespace Chain

/-! ### What nodes of all kinds have in common -/

/-- A node is one of the chain. -/
def Has (c : Chain) : Node → Prop
  | .message m => m.index < c.messages.size
  | .enumeration e => e.index < c.enums.size
  | .value x => x.index < c.values.size
  | .oneof o => o.index < c.oneofs.size
  | .field f => f.index < c.fields.size
  | .method m => m.index < c.methods.size

/-- The version that owns a node. -/
def versionOf (c : Chain) : Node → VersionId
  | .message m => (c.message m).version
  | .enumeration e => (c.enumeration e).version
  | .value x => (c.enumeration (c.value x).enumeration).version
  | .oneof o => (c.message (c.oneof o).message).version
  | .field f => (c.message (c.field f).message).version
  | .method m => (c.method m).version

/-- What a node is a member of, inside its version. -/
def owners (c : Chain) : Node → List Node
  | .value x => [.enumeration (c.value x).enumeration]
  | .oneof o => [.message (c.oneof o).message]
  | .field f => .message (c.field f).message :: ((c.field f).oneof.map Node.oneof).toList
  | _ => []

/-- The message that encloses a declaration. -/
def enclosing (c : Chain) : Node → Option Node
  | .message m => (c.message m).parent.map .message
  | .enumeration e => (c.enumeration e).parent.map .message
  | _ => none

/-- The counterparts of a node. -/
def links (c : Chain) : Node → Link Node
  | .message m => (c.message m).link.map .message
  | .enumeration e => (c.enumeration e).link.map .enumeration
  | .value x => (c.value x).link.map .value
  | .oneof o => (c.oneof o).link.map .oneof
  | .field f => (c.field f).link.map .field
  | .method m => (c.method m).link.map .method

/-- Whether a node is deprecated. -/
def isDeprecated (c : Chain) : Node → Bool
  | .message m => (c.message m).deprecated
  | .enumeration e => (c.enumeration e).deprecated
  | .value x => (c.value x).deprecated
  | .oneof o => (c.oneof o).deprecated
  | .field f => (c.field f).deprecated
  | .method m => (c.method m).deprecated

/-- The name of a node. -/
def nameOf (c : Chain) : Node → String
  | .message m => (c.message m).name
  | .enumeration e => (c.enumeration e).name
  | .value x => (c.value x).name
  | .oneof o => (c.oneof o).name
  | .field f => (c.field f).name
  | .method m => (c.method m).name

/-- The name that the annotations of a node give to its counterpart. -/
def delegateOf (c : Chain) : Node → Option String
  | .message m => (c.message m).delegate
  | .enumeration e => (c.enumeration e).delegate
  | .value x => (c.value x).delegate
  | .oneof o => (c.oneof o).delegate
  | .field f => (c.field f).delegate
  | .method m => (c.method m).delegate

/-! ### The nodes of a version -/

/-- The messages of a version. -/
def messagesOf (c : Chain) (v : VersionId) : List Node := (c.version v).messages.map .message

/-- The enums of a version, each followed by its values. -/
def enumsOf (c : Chain) (v : VersionId) : List Node :=
  (c.version v).enums.flatMap fun e => .enumeration e :: (c.enumeration e).values.map .value

/-- The oneofs and fields of the messages of a version. -/
def membersOf (c : Chain) (v : VersionId) : List Node :=
  (c.version v).messages.flatMap fun m =>
    (c.message m).oneofs.map .oneof ++ (c.message m).fields.map .field

/-- The methods of a version. -/
def methodsOf (c : Chain) (v : VersionId) : List Node := (c.version v).methods.map .method

/-- All nodes of a version, in the order in which they are linked. -/
def nodesOf (c : Chain) (v : VersionId) : List Node :=
  c.messagesOf v ++ c.enumsOf v ++ c.membersOf v ++ c.methodsOf v

/-- **The nodes of a version** are the nodes that it owns. -/
theorem WellFormed.mem_nodesOf {c : Chain} (h : c.WellFormed) (v : VersionId) (n : Node) :
    n ∈ c.nodesOf v ↔ c.Has n ∧ c.versionOf n = v := by
  cases n with
  | message m =>
    simp [nodesOf, messagesOf, enumsOf, membersOf, methodsOf, Has, versionOf, h.mem_messages]
  | enumeration e =>
    simp [nodesOf, messagesOf, enumsOf, membersOf, methodsOf, Has, versionOf, h.mem_enums]
  | value x =>
    simp only [nodesOf, messagesOf, enumsOf, membersOf, methodsOf, Has, versionOf, h.mem_enums,
      h.mem_values, List.mem_append, List.mem_flatMap, List.mem_map, List.mem_cons, reduceCtorEq,
      Node.value.injEq, exists_eq_right, and_false, exists_false, or_false, false_or]
    constructor
    · rintro ⟨e, ⟨-, rfl⟩, hx, rfl⟩
      exact ⟨hx, rfl⟩
    · rintro ⟨hx, rfl⟩
      exact ⟨_, ⟨h.value_enum_lt hx, rfl⟩, hx, rfl⟩
  | oneof o =>
    simp only [nodesOf, messagesOf, enumsOf, membersOf, methodsOf, Has, versionOf, h.mem_messages,
      h.mem_oneofs, List.mem_append, List.mem_flatMap, List.mem_map, List.mem_cons, reduceCtorEq,
      Node.oneof.injEq, exists_eq_right, and_false, exists_false, or_false, false_or]
    constructor
    · rintro ⟨m, ⟨-, rfl⟩, ho, rfl⟩
      exact ⟨ho, rfl⟩
    · rintro ⟨ho, rfl⟩
      exact ⟨_, ⟨h.oneof_message_lt ho, rfl⟩, ho, rfl⟩
  | field f =>
    simp only [nodesOf, messagesOf, enumsOf, membersOf, methodsOf, Has, versionOf, h.mem_messages,
      h.mem_fields, List.mem_append, List.mem_flatMap, List.mem_map, List.mem_cons, reduceCtorEq,
      Node.field.injEq, exists_eq_right, and_false, exists_false, or_false, false_or]
    constructor
    · rintro ⟨m, ⟨-, rfl⟩, hf, rfl⟩
      exact ⟨hf, rfl⟩
    · rintro ⟨hf, rfl⟩
      exact ⟨_, ⟨h.field_message_lt hf, rfl⟩, hf, rfl⟩
  | method m =>
    simp [nodesOf, messagesOf, enumsOf, membersOf, methodsOf, Has, versionOf, h.mem_methods]

/-- The owners of a node are nodes of its version. -/
theorem WellFormed.has_owner {c : Chain} (h : c.WellFormed) {n o : Node} (hn : c.Has n)
    (ho : o ∈ c.owners n) : c.Has o ∧ c.versionOf o = c.versionOf n := by
  cases n with
  | message m | enumeration e | method m => simp [owners] at ho
  | value x =>
    obtain rfl := List.mem_singleton.mp ho
    exact ⟨h.value_enum_lt hn, rfl⟩
  | oneof x =>
    obtain rfl := List.mem_singleton.mp ho
    exact ⟨h.oneof_message_lt hn, rfl⟩
  | field f =>
    rcases List.mem_cons.mp ho with rfl | ho
    · exact ⟨h.field_message_lt hn, rfl⟩
    · obtain ⟨x, hx, rfl⟩ := Option.map_eq_some_iff.mp (Option.mem_toList.mp ho)
      refine ⟨h.field_oneof_lt hn hx, ?_⟩
      rw [versionOf, h.oneof_message_eq hn hx, versionOf]

/-! ### What linking adds -/

/-- The chain without links and propagations. -/
def unlinked (c : Chain) : Chain :=
  { c with
    messages := c.messages.map fun m => { m with link := {} }
    fields := c.fields.map fun f => { f with link := {}, propagation := default }
    oneofs := c.oneofs.map fun o => { o with link := {} }
    enums := c.enums.map fun e => { e with link := {} }
    values := c.values.map fun x => { x with link := {} }
    methods := c.methods.map fun m => { m with link := {} } }

/-- The default of an array does not show if a map keeps it. -/
theorem getD_map {α : Type} {f : α → α} {d : α} (hd : f d = d) (a : Array α) (k : Nat) :
    (a.map f).getD k d = f (a.getD k d) := by
  rw [Array.getD_eq_getD_getElem?, Array.getD_eq_getD_getElem?, Array.getElem?_map]
  cases a[k]? with
  | none => simp [hd]
  | some x => simp

section
variable (c : Chain)

@[simp] theorem unlinked_version (v : VersionId) : c.unlinked.version v = c.version v := rfl

/-- Without links, fields keep all but their links and propagations. -/
theorem unlinked_fields : c.unlinked.fields =
    c.fields.map fun f => { f with link := {}, propagation := default } := rfl

/-- Without links, methods keep all but their links. -/
theorem unlinked_methods : c.unlinked.methods = c.methods.map fun m => { m with link := {} } := rfl

/-- Without links, oneofs keep all but their links. -/
theorem unlinked_oneofs : c.unlinked.oneofs = c.oneofs.map fun o => { o with link := {} } := rfl

/-- Without links, values keep all but their links. -/
theorem unlinked_values : c.unlinked.values = c.values.map fun x => { x with link := {} } := rfl

@[simp] theorem unlinked_message (m : MessageId) :
    c.unlinked.message m = { c.message m with link := {} } := getD_map rfl _ _

@[simp] theorem unlinked_field (f : FieldId) :
    c.unlinked.field f = { c.field f with link := {}, propagation := default } :=
  getD_map rfl _ _

@[simp] theorem unlinked_oneof (o : OneofId) :
    c.unlinked.oneof o = { c.oneof o with link := {} } := getD_map rfl _ _

@[simp] theorem unlinked_enumeration (e : EnumId) :
    c.unlinked.enumeration e = { c.enumeration e with link := {} } := getD_map rfl _ _

@[simp] theorem unlinked_value (x : ValueId) :
    c.unlinked.value x = { c.value x with link := {} } := getD_map rfl _ _

@[simp] theorem unlinked_method (m : MethodId) :
    c.unlinked.method m = { c.method m with link := {} } := getD_map rfl _ _

/-- The version of a node does not depend on links. -/
@[simp] theorem unlinked_versionOf (n : Node) : c.unlinked.versionOf n = c.versionOf n := by
  cases n <;> simp [versionOf]

/-- The owners of a node do not depend on links. -/
@[simp] theorem unlinked_owners (n : Node) : c.unlinked.owners n = c.owners n := by
  cases n <;> simp [owners]

/-- What encloses a node does not depend on links. -/
@[simp] theorem unlinked_enclosing (n : Node) : c.unlinked.enclosing n = c.enclosing n := by
  cases n <;> simp [enclosing]

/-- The nodes of a version do not depend on links. -/
@[simp] theorem unlinked_nodesOf (v : VersionId) : c.unlinked.nodesOf v = c.nodesOf v := by
  simp [nodesOf, messagesOf, enumsOf, membersOf, methodsOf]

@[simp] theorem unlinked_findMessage : c.unlinked.findMessage = c.findMessage := by
  funext v name
  simp [findMessage]

@[simp] theorem unlinked_findEnum : c.unlinked.findEnum = c.findEnum := by
  funext v name
  simp [findEnum]

@[simp] theorem unlinked_findMethod : c.unlinked.findMethod = c.findMethod := by
  funext v name
  simp [findMethod]

@[simp] theorem unlinked_findField : c.unlinked.findField = c.findField := by
  funext m name
  simp [findField]

@[simp] theorem unlinked_findOneof : c.unlinked.findOneof = c.findOneof := by
  funext m name
  simp [findOneof]

@[simp] theorem unlinked_findVariant : c.unlinked.findVariant = c.findVariant := by
  funext o name
  simp [findVariant]

@[simp] theorem unlinked_findValue : c.unlinked.findValue = c.findValue := by
  funext e name
  simp [findValue]

end

/-- What does not depend on links and propagations is equal in chains that differ in nothing
    else. -/
theorem read_eq {α : Type} {c c' : Chain} (h : c'.unlinked = c.unlinked) (f : Chain → α)
    (hf : ∀ c : Chain, f c.unlinked = f c) : f c' = f c := by
  rw [← hf c', h, hf c]

/-- Chains that differ in links only have the same shape. -/
theorem sameShape_of_unlinked {c c' : Chain} (h : c'.unlinked = c.unlinked) : SameShape c c' where
  versions := read_eq h (·.versions) fun _ => rfl
  messages := read_eq h (fun c => c.messages.map _) fun c => by simp [unlinked]
  fields := read_eq h (fun c => c.fields.map _) fun c => by simp [unlinked]
  oneofs := read_eq h (fun c => c.oneofs.map _) fun c => by simp [unlinked]
  enums := read_eq h (fun c => c.enums.map _) fun c => by simp [unlinked]
  values := read_eq h (fun c => c.values.map _) fun c => by simp [unlinked]
  methods := read_eq h (fun c => c.methods.map _) fun c => by simp [unlinked]

/-- Chains that differ in links only have the same nodes. -/
theorem has_of_unlinked {c c' : Chain} (h : c'.unlinked = c.unlinked) (n : Node) :
    c'.Has n ↔ c.Has n := by
  have hs := sameShape_of_unlinked h
  cases n with
  | message m => rw [Has, Has, size_eq_of_map_eq hs.messages]
  | enumeration e => rw [Has, Has, size_eq_of_map_eq hs.enums]
  | value x => rw [Has, Has, size_eq_of_map_eq hs.values]
  | oneof o => rw [Has, Has, size_eq_of_map_eq hs.oneofs]
  | field f => rw [Has, Has, size_eq_of_map_eq hs.fields]
  | method m => rw [Has, Has, size_eq_of_map_eq hs.methods]

section
variable {c c' : Chain} (h : c'.unlinked = c.unlinked)
include h

/-- In chains that differ in links only a node is of the same version. -/
theorem versionOf_of_unlinked (n : Node) : c'.versionOf n = c.versionOf n :=
  read_eq h (fun c => c.versionOf n) fun c => unlinked_versionOf c n

/-- In chains that differ in links only a version has the same nodes. -/
theorem nodesOf_of_unlinked (v : VersionId) : c'.nodesOf v = c.nodesOf v :=
  read_eq h (fun c => c.nodesOf v) fun c => unlinked_nodesOf c v

/-- In chains that differ in links only a message has the same fields. -/
theorem fields_of_unlinked (m : MessageId) : (c'.message m).fields = (c.message m).fields :=
  read_eq h (fun c => (c.message m).fields) fun c => by simp

/-- In chains that differ in links only a message has the same oneofs. -/
theorem oneofs_of_unlinked (m : MessageId) : (c'.message m).oneofs = (c.message m).oneofs :=
  read_eq h (fun c => (c.message m).oneofs) fun c => by simp

end

/-! ### The frame of a chain -/

/-- What holds of a chain of so many versions independent of its links: it is well-formed, its
    versions are at their places, members inherit deprecation, and requests are marked. -/
structure Framed (count : Nat) (c : Chain) : Prop where
  wellFormed : c.WellFormed
  places : c.versions.map (·.place) = (Array.range count).map (placeIn count)
  inherited : c.Inherited
  requests : c.RequestsMarked

namespace Framed

variable {c c' : Chain} {count : Nat} {v : VersionId}

/-- Whether a chain is framed does not depend on links. -/
theorem of_unlinked (h : c.Framed count) (hu : c'.unlinked = c.unlinked) : c'.Framed count where
  wellFormed := (sameShape_of_unlinked hu).wellFormed h.wellFormed
  places := (read_eq hu (·.versions) fun _ => rfl) ▸ h.places
  inherited := by
    have hkeep : c'.Inherited = c.Inherited := by
      refine read_eq hu Inherited fun c => propext ⟨fun h => ⟨?_, ?_, ?_⟩, fun h => ⟨?_, ?_, ?_⟩⟩
      · simpa [unlinked_fields] using h.fields
      · simpa [unlinked_oneofs] using h.oneofs
      · simpa [unlinked_values] using h.values
      · simpa [unlinked_fields] using h.fields
      · simpa [unlinked_oneofs] using h.oneofs
      · simpa [unlinked_values] using h.values
    exact hkeep ▸ h.inherited
  requests := by
    have hkeep : c'.RequestsMarked = c.RequestsMarked := by
      refine read_eq hu RequestsMarked fun c => ?_
      unfold RequestsMarked
      simp [unlinked_methods]
    exact hkeep ▸ h.requests

/-- A framed chain has so many versions. -/
theorem versions_size (h : c.Framed count) : c.versions.size = count := by
  simpa using congrArg Array.size h.places

/-- A version has the place that its position gives it. -/
theorem place_eq (h : c.Framed count) (hv : v.index < count) :
    (c.version v).place = placeIn count v.index := by
  have hplace : (c.versions.map (·.place))[v.index]? = some (c.version v).place :=
    getElem?_map_getD (h.versions_size.symm ▸ hv) default _
  rw [h.places] at hplace
  simpa [hv] using hplace.symm

/-- The last version is the private one. -/
theorem isPrivate_eq (h : c.Framed count) (hv : v.index < count) :
    (c.version v).isPrivate = (v.index + 1 == count) := congrArg (·.1) (h.place_eq hv)

/-- All versions in front of the last one are public. -/
theorem isPrivate_eq_false (h : c.Framed count) (hpublic : v.index + 1 < count) :
    (c.version v).isPrivate = false := by
  rw [h.isPrivate_eq (Nat.lt_of_succ_lt hpublic), beq_eq_false_iff_ne]
  exact Nat.ne_of_lt hpublic

/-- The latest version is the one in front of the private version. -/
theorem isLatest_eq (h : c.Framed count) (hv : v.index < count) :
    (c.version v).isLatest = (v.index + 2 == count) := congrArg (·.2.1) (h.place_eq hv)

/-- A version leads to the one behind it and to the last one; the last one leads nowhere. -/
theorem link_eq (h : c.Framed count) (hv : v.index < count) :
    (c.version v).link = if v.index + 1 == count then {}
      else { next := some ⟨v.index + 1⟩, final := some ⟨count - 1⟩ } :=
  congrArg (·.2.2) (h.place_eq hv)

/-- A public version leads to the one behind it and to the last one. -/
theorem link_public (h : c.Framed count) (hv : v.index + 1 < count) :
    (c.version v).link = { next := some ⟨v.index + 1⟩, final := some ⟨count - 1⟩ } := by
  rw [h.link_eq (Nat.lt_of_succ_lt hv), if_neg]
  simpa using Nat.ne_of_lt hv

/-- The private version leads nowhere. -/
theorem link_private (h : c.Framed count) (hv : v.index + 1 = count) :
    (c.version v).link = {} := by
  rw [h.link_eq (hv ▸ Nat.lt_succ_self _), if_pos]
  simpa using hv

/-- A version knows its position. -/
theorem version_id (h : c.Framed count) (hv : v.index < count) : (c.version v).id = v := by
  have hid : (c.versions.map (·.id.index))[v.index]? = some (c.version v).id.index :=
    getElem?_map_getD (h.versions_size.symm ▸ hv) default _
  rw [h.wellFormed.versionIds, h.versions_size] at hid
  exact VersionId.ext (by simpa [hv] using hid.symm)

/-- The public versions are all but the last one, in the order of their positions. -/
theorem publicVersions_eq (h : c.Framed count) :
    c.publicVersions = (List.range (count - 1)).map fun k => c.version ⟨k⟩ := by
  have hall : c.versions.toList = (List.range count).map fun k => c.version ⟨k⟩ := by
    refine List.ext_getElem (by simp [h.versions_size]) fun k hk _ => ?_
    simp [Chain.version, Array.getD_eq_getD_getElem?, Array.getElem?_eq_getElem hk]
  rw [publicVersions, hall]
  cases hc : count with
  | zero => rfl
  | succ n =>
    have hfirst : ∀ v ∈ (List.range n).map fun k => c.version ⟨k⟩, (!v.isPrivate) = true := by
      intro v hv
      obtain ⟨k, hk, rfl⟩ := List.mem_map.mp hv
      have hlt := List.mem_range.mp hk
      rw [h.isPrivate_eq_false (v := ⟨k⟩) (show k + 1 < count by omega), Bool.not_false]
    have hlast : (!(c.version ⟨n⟩).isPrivate) = false := by
      rw [h.isPrivate_eq (v := ⟨n⟩) (show n < count by omega), hc]
      simp
    rw [List.range_succ, List.map_append, List.filter_append, List.filter_eq_self.mpr hfirst]
    simp [hlast]

/-- The public versions are those in front of the last one. -/
theorem mem_publicVersions (h : c.Framed count) {v : Version} :
    v ∈ c.publicVersions ↔ v.id.index + 1 < count ∧ c.version v.id = v := by
  rw [h.publicVersions_eq, List.mem_map]
  constructor
  · rintro ⟨k, hk, rfl⟩
    have hlt : k + 1 < count := by have := List.mem_range.mp hk; omega
    rw [h.version_id (v := ⟨k⟩) (Nat.lt_of_succ_lt hlt)]
    exact ⟨hlt, rfl⟩
  · rintro ⟨hlt, heq⟩
    exact ⟨v.id.index, List.mem_range.mpr (by omega), heq⟩

/-- The public versions are listed in the order of their positions. -/
theorem pairwise_publicVersions (h : c.Framed count) :
    c.publicVersions.Pairwise fun v w => v.id.index < w.id.index := by
  rw [h.publicVersions_eq, List.pairwise_map]
  refine List.pairwise_lt_range.imp_of_mem fun {k j} hk hj hlt => ?_
  have hk := List.mem_range.mp hk
  have hj := List.mem_range.mp hj
  rw [h.version_id (v := ⟨k⟩) (show k < count by omega),
    h.version_id (v := ⟨j⟩) (show j < count by omega)]
  exact hlt

/-- A node is of one of the versions. -/
theorem versionOf_lt (h : c.Framed count) {n : Node} (hn : c.Has n) :
    (c.versionOf n).index < count := by
  rw [← h.versions_size]
  cases n with
  | message m => exact h.wellFormed.message_version_lt hn
  | enumeration e => exact h.wellFormed.enum_version_lt hn
  | value x => exact h.wellFormed.enum_version_lt (h.wellFormed.value_enum_lt hn)
  | oneof o => exact h.wellFormed.message_version_lt (h.wellFormed.oneof_message_lt hn)
  | field f => exact h.wellFormed.message_version_lt (h.wellFormed.field_message_lt hn)
  | method m => exact h.wellFormed.method_version_lt hn

/-! Members inherit the deprecation of what they belong to. -/

/-- A field of a deprecated message is deprecated. -/
theorem field_deprecated (h : c.Framed count) {f : FieldId} (hf : f.index < c.fields.size)
    (hm : (c.message (c.field f).message).deprecated) : (c.field f).deprecated :=
  h.inherited.fields _ (Array.mem_of_getElem? (getElem?_eq_some_getD hf default)) hm

/-- A oneof of a deprecated message is deprecated. -/
theorem oneof_deprecated (h : c.Framed count) {o : OneofId} (ho : o.index < c.oneofs.size)
    (hm : (c.message (c.oneof o).message).deprecated) : (c.oneof o).deprecated :=
  h.inherited.oneofs _ (Array.mem_of_getElem? (getElem?_eq_some_getD ho default)) hm

/-- A value of a deprecated enum is deprecated. -/
theorem value_deprecated (h : c.Framed count) {x : ValueId} (hx : x.index < c.values.size)
    (he : (c.enumeration (c.value x).enumeration).deprecated) : (c.value x).deprecated :=
  h.inherited.values _ (Array.mem_of_getElem? (getElem?_eq_some_getD hx default)) he

end Framed

end Chain

end Lineage
