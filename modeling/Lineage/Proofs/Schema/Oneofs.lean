import Lineage.Proofs.Schema.Flattened

namespace Lineage

/-!
# The oneofs of messages

An optional field has a oneof of its own in the descriptor, which is no declaration and is dropped.
So the position of a oneof in the schema of a message is not the one in its descriptor, by which its
fields refer to it.

* `keptPositions` — the positions of the oneofs that a message declares; `oneofSlot_eq_some_iff` — a
  field is given the place of its oneof among these,
* `FileDescriptor.KeepsOneofs` — what is said of the oneofs of a message;
  `keepsOneofs_of_messageSchema`,
* `FileDescriptor.Small` — a file whose lists of messages and oneofs are not too long;
  `describesOneofs_of_schema` — it is said of all messages of such a file, if it can be read,
* `DescriptorSet.oneofs_of_packages` — and of all messages of a descriptor set.
-/

open Schema

/-! ### Positions -/

namespace Schema

/-- The positions of the oneofs that a message declares. -/
def keptPositions (m : MessageDescriptor) : List Nat := m.declaredOneofs.map (·.2)

/-- The kept positions are in their order. -/
theorem pairwise_keptPositions (m : MessageDescriptor) : (keptPositions m).Pairwise (· < ·) :=
  List.pairwise_map.mpr ((pairwise_zipIdx m.oneofs).filter _)

/-- A position is kept if some field is a variant of the oneof there. -/
theorem mem_keptPositions {m : MessageDescriptor} {i : Nat} :
    i ∈ keptPositions m ↔ i < m.oneofs.length ∧ ∃ d ∈ m.fields, d.IsVariantOf i := by
  simp only [keptPositions, MessageDescriptor.declaredOneofs, List.mem_map, List.mem_filter,
    decide_eq_true_eq, Prod.exists, List.mk_mem_zipIdx_iff_getElem?]
  constructor
  · rintro ⟨o, _, ⟨ho, hvariant⟩, rfl⟩
    exact ⟨(List.getElem?_eq_some_iff.mp ho).1, hvariant⟩
  · rintro ⟨hi, hvariant⟩
    exact ⟨_, i, ⟨List.getElem?_eq_getElem hi, hvariant⟩, rfl⟩

/-- A field is given the place of its oneof among those that are kept. -/
theorem oneofSlot_eq_some_iff {m : MessageDescriptor} {d : FieldDescriptor} {k : Nat} :
    oneofSlot m d = some k ↔ ∃ i, (keptPositions m)[k]? = some i ∧ d.IsVariantOf i := by
  have hslot : oneofSlot m d = if d.proto3Optional.getD false then none else
      (keptPositions m).findIdx? fun (i : Nat) => d.oneofIndex == some (i : Int) := by
    rw [oneofSlot, realOneofs_eq, keptPositions, List.findIdx?_map]
    rfl
  rw [hslot]
  split
  · rename_i hoptional
    have hsome : d.proto3Optional = some true := by
      rcases hp : d.proto3Optional with _ | _ | _ <;> simp [hp] at hoptional ⊢
    simp [FieldDescriptor.IsVariantOf, hsome]
  · rename_i hoptional
    have hplain : d.proto3Optional ≠ some true := fun h => by simp [h] at hoptional
    rw [List.findIdx?_eq_some_iff_getElem]
    simp only [beq_iff_eq]
    constructor
    · rintro ⟨hk, hindex, -⟩
      exact ⟨_, List.getElem?_eq_getElem hk, hindex, hplain⟩
    · rintro ⟨i, hi, hindex, -⟩
      obtain ⟨hk, rfl⟩ := List.getElem?_eq_some_iff.mp hi
      refine ⟨hk, hindex, fun j hj hother => ?_⟩
      -- positions increase, so no other one among them is referred to
      have hlt :=
        List.pairwise_iff_getElem.mp (pairwise_keptPositions m) j k (Nat.lt_trans hj hk) hk hj
      rw [hindex, Option.some.injEq] at hother
      omega

end Schema

/-! ### One message -/

namespace FileDescriptor

variable {f : FileDescriptor}

/-- What is said of the oneofs and fields of the message at an address, where oneofs are kept from
    some positions. -/
structure KeepsOneofs (f : FileDescriptor) (a : List Nat) (m : MessageDescriptor) (kept : List Nat)
    (s : MessageSchema) : Prop where
  /-- Oneofs stay in the order of their declaration. -/
  ordered : kept.Pairwise (· < ·)
  /-- A oneof is dropped if only optional fields refer to it, or none. -/
  mem : ∀ i, i ∈ kept ↔ i < m.oneofs.length ∧ ∃ d ∈ m.fields, d.IsVariantOf i
  /-- A oneof has the comments at the path of its position in the descriptor. -/
  oneofs : List.Forall₂ (fun i o => ∃ d, m.oneofs[i]? = some d ∧
    f.Carries (.oneof a i) d.name d.options o.name o.carrier) kept s.oneofs
  /-- A field has a oneof if it is a variant of one that there is. -/
  variants : List.Forall₂ (fun d t => t.oneof.isSome ↔ ∃ i < m.oneofs.length, d.IsVariantOf i)
    m.fields s.fields
  /-- The oneof of a field is the one that it refers to. -/
  refers : List.Forall₂ (fun d t => ∀ k, t.oneof = some k ↔
    ∃ i, kept[k]? = some i ∧ d.IsVariantOf i) m.fields s.fields
  /-- Every oneof has a variant. -/
  used : ∀ k < s.oneofs.length, ∃ t ∈ s.fields, t.oneof = some k

/-- A oneof that is ingested has its name, and carries its comments and options. -/
theorem carries_of_oneofSchema {a : List Nat} {o : OneofDescriptor × Nat} (ho : o.2 < 0x80000000)
    {s : OneofSchema} (h : oneofSchema f.context (messagePath a) o = .ok s) :
    f.Carries (.oneof a o.2) o.1.name o.1.options s.name s.carrier := by
  obtain ⟨name, hname, h⟩ := bind_eq_ok.mp h
  obtain rfl := pure_eq_ok.mp h
  have hnamed : o.1.name = some name := by
    cases hn : o.1.name with
    | none => rw [hn] at hname; cases hname
    | some n => rw [hn] at hname; cases hname; rfl
  exact carries hnamed (Path.child_eq ho ..)

/-- A field that is ingested has its slot among the kept oneofs. -/
theorem oneof_of_fieldSchema {ctx : Context} {m : MessageDescriptor} {fullName : String}
    {path : Path} {d : FieldDescriptor × Nat} {t : FieldSchema}
    (h : fieldSchema ctx m fullName path d = .ok t) :
    t.oneof = oneofSlot m d.1 := by
  obtain ⟨name, -, h⟩ := bind_eq_ok.mp h
  dsimp only at h
  split at h
  · cases h
  · obtain rfl := pure_eq_ok.mp h
    rfl

/-- **The oneofs of a message** that can be read. -/
theorem keepsOneofs_of_messageSchema {a : List Nat} {parent : Option String} {m : MessageDescriptor}
    {s : MessageSchema} (hshort : Short m.oneofs)
    (h : messageSchema f.context parent (messagePath a) m = .ok s) :
    f.KeepsOneofs a m (keptPositions m) s := by
  obtain ⟨name, -, h⟩ := bind_eq_ok.mp h
  obtain ⟨oneofs, honeofs, h⟩ := bind_eq_ok.mp h
  obtain ⟨fields, hfields, h⟩ := bind_eq_ok.mp h
  obtain rfl := pure_eq_ok.mp h
  rw [realOneofs_eq] at honeofs
  have hslots : List.Forall₂ (fun d t => t.oneof = oneofSlot m d) m.fields fields := by
    rw [← List.zipIdx_map_fst 0 m.fields, List.forall₂_map_left_iff]
    exact (mapM_eq_ok.mp hfields).imp fun _ _ => oneof_of_fieldSchema
  have hrefers : List.Forall₂ (fun d t => ∀ k, t.oneof = some k ↔
      ∃ i, (keptPositions m)[k]? = some i ∧ d.IsVariantOf i) m.fields fields :=
    hslots.imp fun d t ht k => by rw [ht, oneofSlot_eq_some_iff]
  have hlength : (keptPositions m).length = oneofs.length := by
    rw [keptPositions, List.length_map, (mapM_eq_ok.mp honeofs).length_eq]
  refine ⟨pairwise_keptPositions m, fun i => mem_keptPositions, ?_, ?_, hrefers, ?_⟩
  · have hkept : ∀ o ∈ m.declaredOneofs, m.oneofs[o.2]? = some o.1 := fun o ho =>
      List.mem_zipIdx_iff_getElem?.mp (List.mem_of_mem_filter ho)
    rw [keptPositions, List.forall₂_map_left_iff]
    refine ((List.forall₂_and_left _ _).mpr ⟨hkept, mapM_eq_ok.mp honeofs⟩).imp fun o t ⟨ho,
      hread⟩ => ?_
    have hlt : o.2 < 0x80000000 := Nat.lt_trans (List.getElem?_eq_some_iff.mp ho).1 hshort
    exact ⟨o.1, ho, carries_of_oneofSchema hlt hread⟩
  · refine ((List.forall₂_and_left _ _).mpr ⟨fun d hd => hd, hrefers⟩).imp
      fun d t ⟨hd, hrefer⟩ => ?_
    rw [Option.isSome_iff_exists]
    constructor
    · rintro ⟨k, hk⟩
      obtain ⟨i, hi, hvariant⟩ := (hrefer k).mp hk
      exact ⟨i, (mem_keptPositions.mp (List.mem_of_getElem? hi)).1, hvariant⟩
    · rintro ⟨i, hi, hvariant⟩
      obtain ⟨k, hk⟩ := List.mem_iff_getElem?.mp (mem_keptPositions.mpr ⟨hi, d, hd, hvariant⟩)
      exact ⟨k, (hrefer k).mpr ⟨i, hk, hvariant⟩⟩
  · intro k hk
    have hk : k < (keptPositions m).length := hlength ▸ hk
    obtain ⟨-, d, hd, hvariant⟩ := mem_keptPositions.mp (List.getElem_mem hk)
    obtain ⟨t, ht, hrefer⟩ := forall₂_exists_right hrefers hd
    exact ⟨t, ht, (hrefer k).mpr ⟨_, List.getElem?_eq_getElem hk, hvariant⟩⟩

end FileDescriptor

/-! ### All messages of a file -/

/-- A message in which no list of messages or oneofs is too long for its positions to stand in a
    path. -/
inductive MessageDescriptor.Small : MessageDescriptor → Prop
  | intro {m : MessageDescriptor} (oneofs : Short m.oneofs) (nested : Short m.nested)
      (inner : ∀ n ∈ m.nested, n.Small) : m.Small

/-- A file in which no list of messages or oneofs is too long for its positions to stand in
    a path. -/
structure FileDescriptor.Small (f : FileDescriptor) : Prop where
  messages : Short f.messages
  inner : ∀ m ∈ f.messages, m.Small

/-- Messages that are nested in a message are read one by one. -/
theorem Schema.exists_of_nestedTypes {ctx : Context} {outer : String} {path : Path} {index : Nat}
    {messages : List MessageDescriptor} {t : Types}
    (h : nestedTypes ctx outer path index messages = .ok t) :
    ∃ results, (messages.zipIdx index).mapM
      (fun m => messageTypes ctx (some outer) (path.child .messageNested m.2) m.1) = .ok results ∧
      t = concat results := by
  induction messages generalizing index t with
  | nil =>
    rw [nestedTypes] at h
    obtain rfl := pure_eq_ok.mp h
    exact ⟨[], rfl, rfl⟩
  | cons m rest ih =>
    rw [nestedTypes] at h
    obtain ⟨first, hfirst, h⟩ := bind_eq_ok.mp h
    obtain ⟨others, hothers, h⟩ := bind_eq_ok.mp h
    obtain rfl := pure_eq_ok.mp h
    obtain ⟨results, hresults, rfl⟩ := ih hothers
    refine ⟨first :: results, ?_, rfl⟩
    rw [List.zipIdx_cons, List.mapM_cons]
    exact bind_eq_ok.mpr ⟨first, hfirst, bind_eq_ok.mpr ⟨results, hresults, rfl⟩⟩

namespace FileDescriptor

variable {f : FileDescriptor}

/-- What is said of the oneofs of a message with its address. -/
def DescribesOneofs (f : FileDescriptor) (x : List Nat × MessageDescriptor)
    (s : MessageSchema) : Prop :=
  ∃ kept, f.KeepsOneofs x.1 x.2 kept s

/-- A walk through a message, if it succeeds, says of every message in it what there is to say of
    its oneofs. -/
def WalksOneofs (f : FileDescriptor) (m : MessageDescriptor) : Prop :=
  ∀ a parent t, a ≠ [] → messageTypes f.context parent (messagePath a) m = .ok t →
    List.Forall₂ f.DescribesOneofs (under a (walk (fun m => [m]) (fun _ => []) m)) t.messages

/-- The messages that are declared in a message or at the top of a file. -/
theorem describesOneofs_of_mapM {a : List Nat} {parent : Option String}
    {messages : List MessageDescriptor} {results : List Types} (path : Nat → Path)
    (hwalks : ∀ m ∈ messages, f.WalksOneofs m) (hshort : Short messages)
    (hpath : ∀ i, i < 0x80000000 → path i = messagePath (a ++ [i]))
    (h : (messages.zipIdx.mapM fun m => messageTypes f.context parent (path m.2) m.1) =
      .ok results) :
    List.Forall₂ f.DescribesOneofs (under a (walkFrom (fun m => [m]) (fun _ => []) 0 messages))
      (concat results).messages := by
  rw [under_walkFrom]
  have hsteps :=
    (List.forall₂_and_left _ _).mpr ⟨fun m (hm : m ∈ messages.zipIdx) => hm, mapM_eq_ok.mp h⟩
  refine List.rel_flatMap hsteps fun m t ⟨hm, hread⟩ => ?_
  rw [hpath _ (hshort.lt hm)] at hread
  exact hwalks _ (List.fst_mem_of_mem_zipIdx hm) _ _ _ (by simp) hread

/-- The oneofs of a small message are walked. -/
theorem walksOneofs_of_small {m : MessageDescriptor} (hm : m.Small) : f.WalksOneofs m := by
  -- by the messages nested in it, which are read at addresses of their own
  induction hm with
  | @intro m honeofs hnested _ ih =>
    intro a parent t ha h
    rw [messageTypes_eq] at h
    obtain ⟨schema, hschema, h⟩ := bind_eq_ok.mp h
    obtain ⟨inner, hinner, h⟩ := bind_eq_ok.mp h
    obtain ⟨own, -, h⟩ := bind_eq_ok.mp h
    obtain rfl := pure_eq_ok.mp h
    obtain ⟨results, hresults, rfl⟩ := exists_of_nestedTypes hinner
    have hinside := describesOneofs_of_mapM ((messagePath a).child .messageNested) ih hnested
      (fun i hi => child_messageNested hi ha) hresults
    rw [under_walk]
    exact List.rel_append
      (List.rel_append (.cons ⟨_, keepsOneofs_of_messageSchema honeofs hschema⟩ .nil) hinside) .nil

/-- The messages of a file that can be read, in the order of a pre-order walk. -/
theorem describesOneofs_of_schema (hsmall : f.Small) {part : PackageSchema}
    (h : f.schema = .ok part) :
    List.Forall₂ f.DescribesOneofs f.placedMessages part.messages := by
  obtain ⟨results, hresults, h⟩ := bind_eq_ok.mp h
  obtain ⟨enums, -, h⟩ := bind_eq_ok.mp h
  obtain ⟨services, -, h⟩ := bind_eq_ok.mp h
  obtain rfl := pure_eq_ok.mp h
  have htop : List.Forall₂ f.DescribesOneofs f.placedMessages (concat results).messages := by
    rw [placedMessages, ← under_nil (walkFrom _ _ _ _)]
    exact describesOneofs_of_mapM (Path.child [] .fileMessage)
      (fun m hm => walksOneofs_of_small (hsmall.inner m hm))
      hsmall.messages (fun i hi => child_fileMessage hi) hresults
  show List.Forall₂ _ f.placedMessages (results.foldl (· ++ ·) ({} : Types)).messages
  rwa [foldl_append]

end FileDescriptor

/-- **Oneofs.** In a descriptor set that can be read, and in which no list of messages or oneofs is
    too long, each file contributes the schemas of its messages to its package.  In each of them the
    oneofs with variants are kept in their order, with their own names, options and comments, the
    others are dropped, and every field is given the place of the oneof that it is a variant of, and
    none if there is no such oneof. -/
theorem DescriptorSet.oneofs_of_packages {set : DescriptorSet} {packages : List PackageSchema}
    (h : set.packages = .ok packages) (hsmall : ∀ f ∈ set.files, f.Small) :
    ∀ f ∈ set.files, ∃ p ∈ packages, p.name = f.packageName ∧ p.Gathers set.files ∧
      ∃ part, f.schema = .ok part ∧
        List.Forall₂ f.DescribesOneofs f.placedMessages part.messages := by
  intro f hf
  obtain ⟨parts, hparts, -⟩ := bind_eq_ok.mp h
  have hread : ∀ g ∈ set.files, ∃ part, g.schema = .ok part := fun g hg =>
    (forall₂_exists_right (mapM_eq_ok.mp hparts) hg).imp fun _ => And.right
  obtain ⟨packages', hpackages, hgather⟩ := set.packages_gather hread
  obtain rfl := Except.ok.inj (h.symm.trans hpackages)
  obtain ⟨p, hp, hname, hgathers⟩ := hgather f hf
  obtain ⟨part, hpart⟩ := hread f hf
  exact ⟨p, hp, hname, hgathers, part, hpart,
    FileDescriptor.describesOneofs_of_schema (hsmall f hf) hpart⟩

/-! ### A set -/

/-- A message with oneofs of its own between those of optional fields, and one that nothing refers
    to.  Two fields refer to oneofs that there are not. -/
def contactMessage : MessageDescriptor :=
  { name := some "Contact"
    fields := [
      { name := some "email", type := some "TYPE_STRING", oneofIndex := some 1 },
      { name := some "nickname", type := some "TYPE_STRING", oneofIndex := some 0,
        proto3Optional := some true },
      { name := some "home", type := some "TYPE_STRING", oneofIndex := some 3 },
      { name := some "age", type := some "TYPE_INT32", oneofIndex := some 2,
        proto3Optional := some true },
      { name := some "before", type := some "TYPE_STRING", oneofIndex := some (-1) },
      { name := some "behind", type := some "TYPE_STRING", oneofIndex := some 9 },
      { name := some "letters", type := some "TYPE_STRING", oneofIndex := some 1 }]
    oneofs := [{ name := some "_nickname" }, { name := some "written" }, { name := some "_age" },
      { name := some "address" }, { name := some "_gone" }] }

/-- A set of one file with this message at the top. -/
def contactSet : DescriptorSet :=
  { files := [
      { package := some "people.v1"
        messages := [contactMessage]
        locations := some [
          { path := [4, 0, 8, 1], leading := some " second" },
            { path := [4, 0, 8, 3], leading := some " fourth" }] }] }

set_option maxRecDepth 10000 in
/-- The second and the fourth oneof become the first and the second one, with their own comments. -/
theorem oneofs_contact :
    ∃ packages, contactSet.packages = .ok packages ∧ (∀ f ∈ contactSet.files, f.Small) ∧
    (∀ f ∈ contactSet.files, ∃ p ∈ packages, p.name = f.packageName ∧ p.Gathers contactSet.files ∧
      ∃ part, f.schema = .ok part ∧ List.Forall₂ f.DescribesOneofs f.placedMessages part.messages) ∧
    packages.flatMap (fun p => p.messages.map fun m =>
        (m.oneofs.map fun o => (o.name, o.carrier.comments.leading), m.fields.map (·.oneof))) =
      [([("written", " second"), ("address", " fourth")],
        [some 0, none, some 1, none, none, none, some 0])] := by
  have hsmall : ∀ f ∈ contactSet.files, f.Small := List.forall_mem_singleton.mpr
    ⟨by decide, List.forall_mem_singleton.mpr
      (.intro (by decide) (by decide) (by simp [contactMessage]))⟩
  have hread : (contactSet.packages.toOption.map fun packages => packages.flatMap fun p =>
      p.messages.map fun m =>
        (m.oneofs.map fun o => (o.name, o.carrier.comments.leading), m.fields.map (·.oneof))) =
      some [([("written", " second"), ("address", " fourth")],
          [some 0, none, some 1, none, none, none, some 0])] := by
    decide +kernel
  obtain ⟨packages, hpackages, hvalues⟩ := Option.map_eq_some_iff.mp hread
  have hok := toOption_eq_some.mp hpackages
  exact ⟨packages, hok, hsmall, DescriptorSet.oneofs_of_packages hok hsmall, hvalues⟩

end Lineage
