import Lineage.Proofs.Chain.Claims
import Lineage.Proofs.Chain.Coherent

namespace Lineage

/-!
# Integrity of chains

A chain refers to its versions and nodes by position only.  In a chain as it is built every position
leads to a version or node, which carries that position, and everything is listed once, by what it
belongs to.

* `Chain.Ref`, `Chain.Present`, `Chain.idAt` — a version or node, whether the chain has it, and the
  position it carries,
* `Chain.refs`, `Chain.named` — what a version or node refers to, and what look-ups by name find in
  it,
* `Chain.Sound` — positions, references and lists agree with each other,
* `Chain.Obtained` — what can be obtained from a chain, `Sound.present` — it is there,
* `Linked.sound`, `sound_of_ofPackages` — chains as they are built.
-/

/-- Both counterparts. -/
def Link.targets {Id : Type} (l : Link Id) : List Id := l.next.toList ++ l.final.toList

/-- The targets of a link are where it leads. -/
theorem Link.mem_targets {Id : Type} {l : Link Id} {t : Id} : t ∈ l.targets ↔ l.Leads t := by
  simp [targets, Leads]

/-- The node that a type is, unless no version owns it. -/
def TypeRef.node? : TypeRef → Option Node
  | .message m => some (.message m)
  | .enumeration e => some (.enumeration e)
  | .external _ => none

namespace Chain

/-! ### References -/

/-- A version or a node. -/
inductive Ref where
  | version (id : VersionId)
  | node (n : Node)
deriving DecidableEq

/-- A version or node is one of the chain. -/
def Present (c : Chain) : Ref → Prop
  | .version v => v.index < c.versions.size
  | .node n => c.Has n

/-- What the version or node at a position says that its position is. -/
def idAt (c : Chain) : Ref → Ref
  | .version v => .version (c.version v).id
  | .node (.message m) => .node (.message (c.message m).id)
  | .node (.enumeration e) => .node (.enumeration (c.enumeration e).id)
  | .node (.value x) => .node (.value (c.value x).id)
  | .node (.oneof o) => .node (.oneof (c.oneof o).id)
  | .node (.field f) => .node (.field (c.field f).id)
  | .node (.method r) => .node (.method (c.method r).id)

/-- What a version lists. -/
def listed (c : Chain) (v : VersionId) : List Node :=
  (c.version v).messages.map .message ++ (c.version v).enums.map .enumeration
    ++ (c.version v).methods.map .method

/-- What a node lists. -/
def members (c : Chain) : Node → List Node
  | .message m => (c.message m).fields.map .field ++ (c.message m).oneofs.map .oneof
  | .enumeration e => (c.enumeration e).values.map .value
  | .oneof o => (c.oneof o).fields.map .field
  | .value _ | .field _ | .method _ => []

/-- The types that a node names: that of a field, those of a method. -/
def types (c : Chain) : Node → List Node
  | .field f => ((c.field f).typeRef.bind TypeRef.node?).toList
  | .method r => [.message (c.method r).input, .message (c.method r).output]
  | .message _ | .enumeration _ | .value _ | .oneof _ => []

/-- The version that a node names as its own; members name none. -/
def ownVersion (c : Chain) : Node → Option VersionId
  | .message m => some (c.message m).version
  | .enumeration e => some (c.enumeration e).version
  | .method r => some (c.method r).version
  | .value _ | .oneof _ | .field _ => none

/-- The nodes that a node refers to. -/
def nodeRefs (c : Chain) (n : Node) : List Node :=
  c.owners n ++ (c.enclosing n).toList ++ c.members n ++ c.types n ++ (c.links n).targets

/-- What a version or node refers to. -/
def refs (c : Chain) : Ref → List Ref
  | .version v => (c.listed v).map .node ++ (c.version v).link.targets.map .version
  | .node n => (c.ownVersion n).toList.map .version ++ (c.nodeRefs n).map .node

/-- What is found under a name in a version, message, oneof or enum. -/
def named (c : Chain) (name : String) : Ref → List Node
  | .version v => ((c.findMessage v name).map .message).toList
      ++ ((c.findEnum v name).map .enumeration).toList
      ++ ((c.findMethod v name).map .method).toList
  | .node (.message m) => ((c.findField m name).map .field).toList
      ++ ((c.findOneof m name).map .oneof).toList
  | .node (.oneof o) => ((c.findVariant o name).map .field).toList
  | .node (.enumeration e) => ((c.findValue e name).map .value).toList
  | .node (.value _) | .node (.field _) | .node (.method _) => []

/-- A list has exactly the positions with a property, each once. -/
def Lists {Id : Type} (list : List Id) (belongs : Id → Prop) : Prop :=
  list.Nodup ∧ ∀ i, i ∈ list ↔ belongs i

/-- Every position leads to what carries it, every reference and every look-up by name to what is
    there, and every node is listed once, by what it belongs to. -/
structure Sound (c : Chain) : Prop where
  ids : ∀ r, c.Present r → c.idAt r = r
  refs : ∀ r, c.Present r → ∀ t ∈ c.refs r, c.Present t
  named : ∀ r, c.Present r → ∀ name, ∀ n ∈ c.named name r, c.Has n
  messages : ∀ v, Lists (c.version v).messages fun m =>
    c.Has (.message m) ∧ (c.message m).version = v
  enums : ∀ v, Lists (c.version v).enums fun e =>
    c.Has (.enumeration e) ∧ (c.enumeration e).version = v
  methods : ∀ v, Lists (c.version v).methods fun r =>
    c.Has (.method r) ∧ (c.method r).version = v
  values : ∀ e, Lists (c.enumeration e).values fun x =>
    c.Has (.value x) ∧ (c.value x).enumeration = e
  oneofs : ∀ m, Lists (c.message m).oneofs fun o =>
    c.Has (.oneof o) ∧ (c.oneof o).message = m
  fields : ∀ m, Lists (c.message m).fields fun f =>
    c.Has (.field f) ∧ (c.field f).message = m
  /-- A variant and its oneof are of one message. -/
  variants : ∀ o, Lists (c.oneof o).fields fun f =>
    c.Has (.field f) ∧ (c.field f).oneof = some o ∧ (c.oneof o).message = (c.field f).message

/-- What can be obtained from a chain: from what it has, by way of references and names. -/
inductive Obtained (c : Chain) : Ref → Prop where
  | carried {r : Ref} : c.Present r → c.Obtained (c.idAt r)
  | referred {r t : Ref} : c.Obtained r → t ∈ c.refs r → c.Obtained t
  | found {r : Ref} {n : Node} (name : String) : c.Obtained r → n ∈ c.named name r →
      c.Obtained (.node n)

variable {c : Chain} {count : Nat}

/-- **Whatever is obtained from a sound chain is there.** -/
theorem Sound.present (h : c.Sound) {r : Ref} (hr : c.Obtained r) : c.Present r := by
  induction hr with
  | carried hpresent =>
    rw [h.ids _ hpresent]
    exact hpresent
  | referred _ hmem ih => exact h.refs _ ih _ hmem
  | found name _ hmem ih => exact h.named _ ih name _ hmem

/-! ### Positions and members -/

namespace WellFormed

variable (h : c.WellFormed)
include h

/-- An enum knows its position. -/
theorem enum_id {e : EnumId} (he : e.index < c.enums.size) : (c.enumeration e).id = e :=
  EnumId.ext (index_getD h.enumIds he default)

/-- A value knows its position. -/
theorem value_id {x : ValueId} (hx : x.index < c.values.size) : (c.value x).id = x :=
  ValueId.ext (index_getD h.valueIds hx default)

/-- A version knows its position. -/
theorem version_id {v : VersionId} (hv : v.index < c.versions.size) : (c.version v).id = v :=
  VersionId.ext (index_getD h.versionIds hv default)

/-- The variants of a oneof are listed in the order of their positions. -/
theorem pairwise_variants (o : OneofId) :
    (c.oneof o).fields.Pairwise fun a b => a.index < b.index :=
  h.variants.pairwise_list default rfl o.index

/-- Everything carries its own position. -/
theorem idAt_eq {r : Ref} (hr : c.Present r) : c.idAt r = r := by
  cases r with
  | version v => exact congrArg Ref.version (h.version_id hr)
  | node n =>
    cases n with
    | message m => exact congrArg (Ref.node <| .message ·) (h.message_id hr)
    | enumeration e => exact congrArg (Ref.node <| .enumeration ·) (h.enum_id hr)
    | value x => exact congrArg (Ref.node <| .value ·) (h.value_id hr)
    | oneof o => exact congrArg (Ref.node <| .oneof ·) (h.oneof_id hr)
    | field f => exact congrArg (Ref.node <| .field ·) (h.field_id hr)
    | method r => exact congrArg (Ref.node <| .method ·) (h.method_id hr)

/-- A variant belongs to its oneof only if both belong to one message. -/
theorem mem_variants_iff (o : OneofId) (f : FieldId) : f ∈ (c.oneof o).fields ↔
    c.Has (.field f) ∧ (c.field f).oneof = some o ∧ (c.oneof o).message = (c.field f).message := by
  rw [h.mem_variants]
  constructor
  · rintro ⟨hf, ho⟩
    exact ⟨hf, ho, h.oneof_message_eq hf ho⟩
  · rintro ⟨hf, ho, -⟩
    exact ⟨hf, ho⟩

/-! ### What is referred to -/

/-- What a version lists is in the chain. -/
theorem has_listed {v : VersionId} {t : Node} (ht : t ∈ c.listed v) : c.Has t := by
  rcases List.mem_append.mp ht with ht | ht
  · rcases List.mem_append.mp ht with ht | ht
    · obtain ⟨m, hm, rfl⟩ := List.mem_map.mp ht
      exact ((h.mem_messages v m).mp hm).1
    · obtain ⟨e, he, rfl⟩ := List.mem_map.mp ht
      exact ((h.mem_enums v e).mp he).1
  · obtain ⟨r, hr, rfl⟩ := List.mem_map.mp ht
    exact ((h.mem_methods v r).mp hr).1

/-- The members of a node are in the chain. -/
theorem has_member {n t : Node} (ht : t ∈ c.members n) : c.Has t := by
  cases n with
  | message m =>
    rcases List.mem_append.mp ht with ht | ht
    · obtain ⟨f, hf, rfl⟩ := List.mem_map.mp ht
      exact ((h.mem_fields m f).mp hf).1
    · obtain ⟨o, ho, rfl⟩ := List.mem_map.mp ht
      exact ((h.mem_oneofs m o).mp ho).1
  | enumeration e =>
    obtain ⟨x, hx, rfl⟩ := List.mem_map.mp ht
    exact ((h.mem_values e x).mp hx).1
  | oneof o =>
    obtain ⟨f, hf, rfl⟩ := List.mem_map.mp ht
    exact ((h.mem_variants o f).mp hf).1
  | value x | field f | method r => cases ht

/-- What encloses a node is in the chain. -/
theorem has_enclosing {n t : Node} (hn : c.Has n) (ht : c.enclosing n = some t) : c.Has t := by
  cases n with
  | message m =>
    obtain ⟨p, hp, rfl⟩ := Option.map_eq_some_iff.mp ht
    exact Nat.lt_trans (h.parent_eq hn hp).1 hn
  | enumeration e =>
    obtain ⟨p, hp, rfl⟩ := Option.map_eq_some_iff.mp ht
    exact (h.enum_parent_eq hn hp).1
  | value x | oneof o | field f | method r => cases ht

/-- The types of a node are in the chain. -/
theorem has_type {n t : Node} (hn : c.Has n) (ht : t ∈ c.types n) : c.Has t := by
  cases n with
  | field f =>
    obtain ⟨ref, href, hnode⟩ := Option.bind_eq_some_iff.mp (Option.mem_toList.mp ht)
    cases ref with
    | message m =>
      obtain rfl := Option.some.inj hnode
      refine h.messageTypes f.index m.index ?_
      rw [getElem?_map_getD hn default, ← Chain.field, Field.messageType?, href]
      rfl
    | enumeration e =>
      obtain rfl := Option.some.inj hnode
      refine h.enumTypes f.index e.index ?_
      rw [getElem?_map_getD hn default, ← Chain.field, Field.enumType?, href]
      rfl
    | external name => cases hnode
  | method r =>
    rcases List.mem_pair.mp ht with rfl | rfl
    · exact (h.input_behind hn).1
    · exact (h.output_behind hn).1
  | message m | enumeration e | value x | oneof o => cases ht

/-- The version that a node names is one of the chain. -/
theorem ownVersion_lt {n : Node} {v : VersionId} (hn : c.Has n) (hv : c.ownVersion n = some v) :
    v.index < c.versions.size := by
  cases n with
  | message m =>
    obtain rfl := Option.some.inj hv
    exact h.message_version_lt hn
  | enumeration e =>
    obtain rfl := Option.some.inj hv
    exact h.enum_version_lt hn
  | method r =>
    obtain rfl := Option.some.inj hv
    exact h.method_version_lt hn
  | value x | oneof o | field f => cases hv

/-- What is found under a name is there. -/
theorem has_named {r : Ref} {name : String} {n : Node} (hn : n ∈ c.named name r) : c.Has n := by
  cases r with
  | version v =>
    simp only [Chain.named, List.mem_append, Option.mem_toList, Option.map_eq_some_iff] at hn
    rcases hn with (⟨m, hm, rfl⟩ | ⟨e, he, rfl⟩) | ⟨r, hr, rfl⟩
    · exact (h.findMessage_eq_some hm).1
    · exact (h.findEnum_eq_some he).1
    · exact (h.findMethod_eq_some hr).1
  | node t =>
    cases t with
    | message m =>
      simp only [Chain.named, List.mem_append, Option.mem_toList, Option.map_eq_some_iff] at hn
      rcases hn with ⟨f, hf, rfl⟩ | ⟨o, ho, rfl⟩
      · exact (h.findField_eq_some hf).1
      · exact (h.findOneof_eq_some ho).1
    | oneof o =>
      obtain ⟨f, hf, rfl⟩ := Option.map_eq_some_iff.mp (Option.mem_toList.mp hn)
      exact (h.findVariant_eq_some hf).1
    | enumeration e =>
      obtain ⟨x, hx, rfl⟩ := Option.map_eq_some_iff.mp (Option.mem_toList.mp hn)
      exact (h.findValue_eq_some hx).1
    | value x | field f | method r => cases hn

end WellFormed

/-! ### Counterparts -/

namespace Linked

variable (h : c.Linked count)
include h

/-- A counterpart is there: a node of a public version has counterparts that are, and one of the
    private version has none. -/
theorem has_counterpart {n t : Node} (hn : c.Has n) (ht : (c.links n).Leads t) : c.Has t := by
  have hwf := h.framed.wellFormed
  have hlt := h.framed.versionOf_lt hn
  -- a counterpart is listed by a later version
  by_cases hpublic : (c.versionOf n).index + 1 < count
  · have hcoherent := h.coherent hn hpublic
    rcases ht with hnext | hfinal
    · exact ((hwf.mem_nodesOf _ t).mp (hcoherent.next t hnext).2.1).1
    · obtain ⟨p, hp, -, hmem, -⟩ := hcoherent.final
      obtain rfl : p = t := Option.some.inj (hp.symm.trans hfinal)
      exact ((hwf.mem_nodesOf _ p).mp hmem).1
  · have hlast : (c.versionOf n).index + 1 = count := by omega
    rw [h.unlinked n hn hlast] at ht
    rcases ht with hnext | hfinal
    · cases hnext
    · cases hfinal

/-- The counterparts of a version are versions. -/
theorem version_counterpart_lt {v w : VersionId} (hv : v.index < c.versions.size)
    (hw : (c.version v).link.Leads w) : w.index < c.versions.size := by
  rw [h.framed.versions_size] at hv ⊢
  by_cases hpublic : v.index + 1 < count
  · rw [h.framed.link_public hpublic] at hw
    rcases hw with hnext | hfinal
    · obtain rfl := Option.some.inj hnext
      exact hpublic
    · obtain rfl := Option.some.inj hfinal
      show count - 1 < count
      omega
  · rw [h.framed.link_private (by omega)] at hw
    rcases hw with hnext | hfinal
    · cases hnext
    · cases hfinal

/-- Every reference leads to what is there. -/
theorem present_of_mem_refs {r t : Ref} (hr : c.Present r) (ht : t ∈ c.refs r) : c.Present t := by
  have hwf := h.framed.wellFormed
  cases r with
  | version v =>
    rcases List.mem_append.mp ht with ht | ht
    · obtain ⟨n, hn, rfl⟩ := List.mem_map.mp ht
      exact hwf.has_listed hn
    · obtain ⟨w, hw, rfl⟩ := List.mem_map.mp ht
      exact h.version_counterpart_lt hr (Link.mem_targets.mp hw)
  | node n =>
    rcases List.mem_append.mp ht with ht | ht
    · obtain ⟨v, hv, rfl⟩ := List.mem_map.mp ht
      exact hwf.ownVersion_lt hr (Option.mem_toList.mp hv)
    · obtain ⟨t, hnode, rfl⟩ := List.mem_map.mp ht
      simp only [nodeRefs, List.mem_append, Option.mem_toList] at hnode
      rcases hnode with (((howner | hparent) | hmember) | htype) | hlink
      · exact (hwf.has_owner hr howner).1
      · exact hwf.has_enclosing hr hparent
      · exact hwf.has_member hmember
      · exact hwf.has_type hr htype
      · exact h.has_counterpart hr (Link.mem_targets.mp hlink)

/-- **Linked chains are sound.** -/
theorem sound : c.Sound := by
  have hwf := h.framed.wellFormed
  exact {
    ids := fun r => hwf.idAt_eq
    refs := fun r hr t ht => h.present_of_mem_refs hr ht
    named := fun r _ name n hn => hwf.has_named hn
    messages := fun v => ⟨nodup_of_pairwise (hwf.pairwise_messages v), hwf.mem_messages v⟩
    enums := fun v => ⟨nodup_of_pairwise (hwf.pairwise_enums v), hwf.mem_enums v⟩
    methods := fun v => ⟨nodup_of_pairwise (hwf.pairwise_methods v), hwf.mem_methods v⟩
    values := fun e => ⟨nodup_of_pairwise (hwf.pairwise_values e), hwf.mem_values e⟩
    oneofs := fun m => ⟨nodup_of_pairwise (hwf.pairwise_oneofs m), hwf.mem_oneofs m⟩
    fields := fun m => ⟨nodup_of_pairwise (hwf.pairwise_fields m), hwf.mem_fields m⟩
    variants := fun o => ⟨nodup_of_pairwise (hwf.pairwise_variants o), hwf.mem_variants_iff o⟩ }

end Linked

/-- **Integrity.** A chain as it is built is sound, and has all that can be obtained from it. -/
theorem sound_of_ofPackages {source : AnnotationSource} {privatePackage : String}
    {packages : List PackageSchema} (h : ofPackages source privatePackage packages = .ok c) :
    c.Sound ∧ ∀ r, c.Obtained r → c.Present r := by
  have hsound := (linked_of_ofPackages h).sound
  exact ⟨hsound, fun r hr => hsound.present hr⟩

set_option maxRecDepth 10000 in
/-- In the sample, the field of the private version that the first field of the first version leads
    to. -/
theorem sound_sample : ∃ packages c t,
    ofPackages AnnotationStyle.comments.source "private" packages = .ok c ∧
      (c.field ⟨0⟩).link.final = some t ∧ t.index = 10 ∧ c.Sound ∧ c.Obtained (.node (.field t)) ∧
      c.Has (.field t) := by
  have hok : (match sampleChain with
      | .ok c => (c.fields.size, (c.field ⟨0⟩).link.final)
      | .error _ => (0, none)) = (15, some ⟨10⟩) := by decide +kernel
  unfold sampleChain at hok
  cases hpackages : sampleSet.packages with
  | error e => simp [hpackages] at hok
  | ok packages =>
    simp only [hpackages] at hok
    cases hc : ofPackages AnnotationStyle.comments.source "private" packages with
    | error e => simp [hc] at hok
    | ok c =>
      simp only [hc, Prod.mk.injEq] at hok
      obtain ⟨hsize, hfinal⟩ := hok
      obtain ⟨hsound, hpresent⟩ := sound_of_ofPackages hc
      have hfirst : c.Present (.node (.field ⟨0⟩)) := by
        show 0 < c.fields.size
        omega
      have hfield : c.Obtained (.node (.field ⟨0⟩)) := hsound.ids _ hfirst ▸ .carried hfirst
      have htarget : c.Obtained (.node (.field ⟨10⟩)) := by
        refine .referred hfield (List.mem_append_right _ (List.mem_map_of_mem ?_))
        refine List.mem_append_right _ (Link.mem_targets.mpr (.inr ?_))
        rw [links, Link.map_final, hfinal]
        rfl
      exact ⟨packages, c, ⟨10⟩, hc, hfinal, rfl, hsound, htarget, hpresent _ htarget⟩

end Chain

end Lineage
