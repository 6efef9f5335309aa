import Lineage.Proofs.Chain.Integrity

namespace Lineage

/-!
# What type names lead to

Fields and methods name their types in full.  Versions are declared one after the other, so that a
version sees the types of its own and of earlier versions only: a name that only a later version
declares leads nowhere.

* `seen?` — what a version sees under a name, `Chain.typeSeen` — the type that a field of the
  version refers to,
* `declaredNames`, `Chain.Declares` — the types declared by the versions so far, in the order of
  declaration,
* `Chain.Referring` — every field refers to what its version sees, `Declares.addVersion` — one more
  version,
* `Chain.typeSeen_of_ofPackages` — so it is in chains as they are built;
  `external_iff_of_ofPackages` — what that means for messages.
-/

/-! ### Names in the order of declaration -/

section
variable {Id : Type} {entries : List (Id × Nat × String)} {version : Nat} {name : String}

/-- What a version sees under a full name: of the entries of that name that the version or an
    earlier one owns the last.  An entry holds a type, the position of its version and its full
    name. -/
def seen? (entries : List (Id × Nat × String)) (version : Nat) (name : String) : Option Id :=
  ((entries.filter (·.2.1 ≤ version)).reverse.find? (·.2.2 == name)).map (·.1)

/-- No entry is seen if all entries of the name are of later versions. -/
theorem seen?_eq_none :
    seen? entries version name = none ↔ ∀ e ∈ entries, e.2.2 = name → version < e.2.1 := by
  simp only [seen?, Option.map_eq_none_iff, List.find?_eq_none, List.mem_reverse, List.mem_filter,
    decide_eq_true_eq, beq_iff_eq]
  constructor
  · exact fun h e he hname => Nat.lt_of_not_le fun hle => h e ⟨he, hle⟩ hname
  · exact fun h e he hname => absurd he.2 (Nat.not_le_of_lt (h e he.1 hname))

/-- What is seen is an entry of the name, of the version or an earlier one. -/
theorem mem_of_seen? {id : Id} (h : seen? entries version name = some id) :
    ∃ w, (id, w, name) ∈ entries ∧ w ≤ version := by
  obtain ⟨⟨id', w, name'⟩, hfind, rfl⟩ := Option.map_eq_some_iff.mp h
  obtain rfl : name' = name := by simpa using List.find?_some hfind
  have hmem := List.mem_reverse.mp (List.mem_of_find?_eq_some hfind)
  obtain ⟨he, hle⟩ := List.mem_filter.mp hmem
  exact ⟨w, he, by simpa using hle⟩

/-- Types of later versions are not seen. -/
theorem seen?_append {later : List (Id × Nat × String)} (h : ∀ e ∈ later, version < e.2.1) :
    seen? (entries ++ later) version name = seen? entries version name := by
  have hnone : later.filter (·.2.1 ≤ version) = [] := by
    rw [List.filter_eq_nil_iff]
    intro e he
    simpa using h e he
  rw [seen?, seen?, List.filter_append, hnone, List.append_nil]

/-- The entries of what a version declares, at the positions from the given one on. -/
def entriesFrom {α : Type} (start version : Nat) (id : Nat → Id) (name : α → String)
    (declared : List α) : List (Id × Nat × String) :=
  (declared.zipIdx start).map fun d => (id d.2, version, name d.1)

/-- The entries of a package have its version and the declared names. -/
theorem entriesFrom_snd {α : Type} (start version : Nat) (id : Nat → Id) (name : α → String)
    (declared : List α) :
    (entriesFrom start version id name declared).map (·.2)
      = (declared.map name).map (version, ·) := by
  conv_rhs => rw [← List.zipIdx_map_fst start declared, List.map_map, List.map_map]
  rw [entriesFrom, List.map_map]
  rfl

/-- An earlier version does not see what a later one declares. -/
theorem seen?_append_entriesFrom {α : Type} {start later : Nat} {id : Nat → Id} {name' : α → String}
    {declared : List α} (h : version < later) :
    seen? (entries ++ entriesFrom start later id name' declared) version name
      = seen? entries version name := by
  refine seen?_append fun e he => ?_
  obtain ⟨d, -, rfl⟩ := List.mem_map.mp he
  exact h

/-- As long as no later version is declared, everything is seen. -/
theorem seen?_of_forall_le (h : ∀ e ∈ entries, e.2.1 ≤ version) :
    seen? entries version name = (entries.reverse.find? (·.2.2 == name)).map (·.1) := by
  have hall : entries.filter (·.2.1 ≤ version) = entries := by
    rw [List.filter_eq_self]
    intro e he
    simpa using h e he
  rw [seen?, hall]

end

/-- The names that versions declare, with the positions of the versions. -/
def declaredNames (names : PackageSchema → List String)
    (versions : List (PackageSchema × ServiceSchema)) : List (Nat × String) :=
  versions.zipIdx.flatMap fun v => (names v.1.1).map (v.2, ·)

/-- The names declared by one more package come last, with the next number. -/
theorem declaredNames_append (names : PackageSchema → List String)
    (made : List (PackageSchema × ServiceSchema)) (p : PackageSchema × ServiceSchema) :
    declaredNames names (made ++ [p])
      = declaredNames names made ++ (names p.1).map (made.length, ·) := by
  simp [declaredNames, List.zipIdx_append]

/-- A name is declared by the version whose package declares it. -/
theorem mem_declaredNames {names : PackageSchema → List String}
    {versions : List (PackageSchema × ServiceSchema)} {e : Nat × String} :
    e ∈ declaredNames names versions ↔ ∃ p, versions[e.1]? = some p ∧ e.2 ∈ names p.1 := by
  rw [declaredNames, List.mem_flatMap]
  constructor
  · rintro ⟨v, hv, he⟩
    obtain ⟨name, hname, rfl⟩ := List.mem_map.mp he
    exact ⟨v.1, List.mem_zipIdx_iff_getElem?.mp hv, hname⟩
  · rintro ⟨p, hp, hname⟩
    exact ⟨(p, e.1), List.mem_zipIdx_iff_getElem?.mpr hp, List.mem_map.mpr ⟨e.2, hname, rfl⟩⟩

/-- Declared names have the number of a version. -/
theorem lt_of_mem_declaredNames {names : PackageSchema → List String}
    {versions : List (PackageSchema × ServiceSchema)} {e : Nat × String}
    (h : e ∈ declaredNames names versions) : e.1 < versions.length := by
  obtain ⟨p, hp, -⟩ := mem_declaredNames.mp h
  exact (List.getElem?_eq_some_iff.mp hp).1

/-- A name under which there is no entry is one that no version declares. -/
theorem not_mem_names {Id : Type} {entries : List (Id × Nat × String)} {name : String}
    {names : PackageSchema → List String} {made : List (PackageSchema × ServiceSchema)}
    (hentries : entries.map (·.2) = declaredNames names made)
    (hnone : (entries.reverse.find? (·.2.2 == name)).map (·.1) = none) :
    ∀ p ∈ made, name ∉ names p.1 := by
  intro p hp hname
  obtain ⟨k, hk⟩ := List.mem_iff_getElem?.mp hp
  have hdeclared : (k, name) ∈ declaredNames names made := mem_declaredNames.mpr ⟨p, hk, hname⟩
  rw [← hentries] at hdeclared
  obtain ⟨e, he, heq⟩ := List.mem_map.mp hdeclared
  rw [Option.map_eq_none_iff, List.find?_eq_none] at hnone
  exact hnone e (List.mem_reverse.mpr he) (by simp [heq])

/-- The full names of the messages of a package. -/
def PackageSchema.messageNames (p : PackageSchema) : List String := p.messages.map (·.fullName)

/-- The full names of the enums of a package. -/
def PackageSchema.enumNames (p : PackageSchema) : List String := p.enums.map (·.fullName)

namespace Chain

/-- The messages, each with its position, the position of its version and its full name. -/
def messageEntries (c : Chain) : List (MessageId × Nat × String) :=
  (c.messages.map fun m => (m.id, m.version.index, m.fullName)).toList

/-- The enums, each with its position, the position of its version and its full name. -/
def enumEntries (c : Chain) : List (EnumId × Nat × String) :=
  (c.enums.map fun e => (e.id, e.version.index, e.fullName)).toList

/-- The fields, each with its message, its kind and what it refers to. -/
def fieldEntries (c : Chain) : List (MessageId × FieldKind × Option TypeRef) :=
  (c.fields.map fun f => (f.message, f.kind, f.typeRef)).toList

/-- What a field of a kind in a version refers to by a full name. -/
def typeSeen (c : Chain) (version : Nat) (kind : FieldKind) (name : String) : TypeRef :=
  match kind with
  | .message => ((seen? c.messageEntries version name).map TypeRef.message).getD (.external name)
  | .enumeration =>
    ((seen? c.enumEntries version name).map TypeRef.enumeration).getD (.external name)
  | .scalar _ => .external name

/-- The full name of what is referred to. -/
def typeName (c : Chain) : TypeRef → String
  | .message m => (c.message m).fullName
  | .enumeration e => (c.enumeration e).fullName
  | .external name => name

variable {source : AnnotationSource} {c c' : Chain}

/-- The message found by a full name is the last entry of the name. -/
theorem messageNamed?_eq (name : String) :
    c.messageNamed? name = (c.messageEntries.reverse.find? (·.2.2 == name)).map (·.1) := by
  simp [messageNamed?, messageEntries, ← List.map_reverse, List.find?_map, Function.comp_def]

/-- The enum found by a full name is the last entry of the name. -/
theorem enumNamed?_eq (name : String) :
    c.enumNamed? name = (c.enumEntries.reverse.find? (·.2.2 == name)).map (·.1) := by
  simp [enumNamed?, enumEntries, ← List.map_reverse, List.find?_map, Function.comp_def]

/-! ### What is declared so far -/

/-- Versions are declared, with the types of their packages in this order. -/
structure Declares (made : List (PackageSchema × ServiceSchema)) (c : Chain) : Prop where
  versions : c.versions.size = made.length
  messages : c.messageEntries.map (·.2) = declaredNames (·.messageNames) made
  enums : c.enumEntries.map (·.2) = declaredNames (·.enumNames) made

/-- Every field refers to what its version sees, and an enum field to an enum. -/
def Referring (c : Chain) : Prop :=
  ∀ f ∈ c.fieldEntries, ∀ t, f.2.2 = some t → ∃ v n name, (f.1, v, n) ∈ c.messageEntries ∧
    t = c.typeSeen v f.2.1 name ∧
    (f.2.1 = .enumeration → (seen? c.enumEntries v name).isSome)

/-- The same types are declared. -/
structure SameTypes (c c' : Chain) : Prop where
  versions : c'.versions.size = c.versions.size
  messages : c'.messageEntries = c.messageEntries
  enums : c'.enumEntries = c.enumEntries

/-- A chain has the same types as itself. -/
theorem SameTypes.refl (c : Chain) : SameTypes c c := ⟨rfl, rfl, rfl⟩

/-- Having the same types is transitive. -/
theorem SameTypes.trans {d : Chain} (h : SameTypes c d) (h' : SameTypes d c') : SameTypes c c' :=
  ⟨h'.versions.trans h.versions, h'.messages.trans h.messages, h'.enums.trans h.enums⟩

/-- Chains with the same types declare the same names. -/
theorem SameTypes.declares {made : List (PackageSchema × ServiceSchema)} (h : SameTypes c c')
    (hc : c.Declares made) : c'.Declares made where
  versions := h.versions.trans hc.versions
  messages := h.messages ▸ hc.messages
  enums := h.enums ▸ hc.enums

/-- In chains with the same types a name leads to the same type. -/
theorem SameTypes.typeSeen_eq (h : SameTypes c c') (v : Nat) (kind : FieldKind) (name : String) :
    c'.typeSeen v kind name = c.typeSeen v kind name := by
  simp only [typeSeen, h.messages, h.enums]

/-- Chains with the same types and fields have the same references. -/
theorem SameTypes.referring (h : SameTypes c c') (hfields : c'.fieldEntries = c.fieldEntries)
    (hc : c.Referring) : c'.Referring := by
  intro f hf t ht
  obtain ⟨v, n, name, hv, hseen, henum⟩ := hc f (hfields ▸ hf) t ht
  exact ⟨v, n, name, h.messages ▸ hv, hseen.trans (h.typeSeen_eq v _ name).symm, h.enums ▸ henum⟩

namespace Declares

/-- At first no name is declared. -/
theorem empty : Declares [] {} where
  versions := rfl
  messages := by simp [messageEntries, declaredNames]
  enums := by simp [enumEntries, declaredNames]

variable {made : List (PackageSchema × ServiceSchema)} (h : c.Declares made)
include h

/-- The version of a message is one of those declared so far. -/
theorem message_lt {e : MessageId × Nat × String} (he : e ∈ c.messageEntries) :
    e.2.1 < made.length :=
  lt_of_mem_declaredNames (h.messages ▸ List.mem_map_of_mem he)

/-- The version of an enum is one of those declared so far. -/
theorem enum_lt {e : EnumId × Nat × String} (he : e ∈ c.enumEntries) : e.2.1 < made.length :=
  lt_of_mem_declaredNames (h.enums ▸ List.mem_map_of_mem he)

/-- What is found by name so far is what the last version sees. -/
theorem messageNamed?_eq_seen {v : Nat} (hv : v + 1 = made.length) (name : String) :
    c.messageNamed? name = seen? c.messageEntries v name := by
  rw [messageNamed?_eq, seen?_of_forall_le]
  intro e he
  have hlt := h.message_lt he
  omega

/-- The enum found by a full name is the one that the newest version sees. -/
theorem enumNamed?_eq_seen {v : Nat} (hv : v + 1 = made.length) (name : String) :
    c.enumNamed? name = seen? c.enumEntries v name := by
  rw [enumNamed?_eq, seen?_of_forall_le]
  intro e he
  have hlt := h.enum_lt he
  omega

/-- A type is referred to as the newest version sees it. -/
theorem typeRef_eq_typeSeen {v : Nat} (hv : v + 1 = made.length) (kind : FieldKind)
    (name : String) : c.typeRef kind name = c.typeSeen v kind name := by
  cases kind with
  | message => rw [typeRef, typeSeen, h.messageNamed?_eq_seen hv]
  | enumeration => rw [typeRef, typeSeen, h.enumNamed?_eq_seen hv]
  | scalar k => rfl

/-- A name under which no message is found has not been declared for one. -/
theorem not_mem_messageNames {name : String} (hnone : c.messageNamed? name = none) :
    ∀ p ∈ made, name ∉ p.1.messageNames :=
  not_mem_names h.messages ((messageNamed?_eq name).symm.trans hnone)

/-- A name under which no enum is found has not been declared for one. -/
theorem not_mem_enumNames {name : String} (hnone : c.enumNamed? name = none) :
    ∀ p ∈ made, name ∉ p.1.enumNames :=
  not_mem_names h.enums ((enumNamed?_eq name).symm.trans hnone)

end Declares

/-! ### The types of one more version -/

/-- The messages of a package go to the end of the messages, one after the other. -/
theorem addMessages_entries {v : VersionId} {ss : List MessageSchema}
    (h : ss.foldlM (addMessage source v) c = .ok c') :
    c'.versions.size = c.versions.size ∧ c'.enumEntries = c.enumEntries ∧
      c'.fieldEntries = c.fieldEntries ∧ c'.messageEntries =
        c.messageEntries ++ entriesFrom c.messages.size v.index .mk (·.fullName) ss := by
  let Inv (made : List MessageSchema) (t : Chain) :=
    -- the size says at which position the next message is
    t.messages.size = c.messages.size + made.length ∧ t.versions.size = c.versions.size ∧
      t.enumEntries = c.enumEntries ∧ t.fieldEntries = c.fieldEntries ∧
      t.messageEntries = c.messageEntries ++
        entriesFrom c.messages.size v.index .mk (·.fullName) made
  have hrun : Inv ss c' := by
    refine foldlM_invariant Inv (by simp [Inv, entriesFrom]) ?_ h
    rintro made s rest t t' - ⟨hsize, hversions, henums, hfields, hmessages⟩ hadd
    obtain ⟨deprecated, delegate, -, -, rfl⟩ := addMessage_eq_ok hadd
    refine ⟨?_, ?_, henums, hfields, ?_⟩
    · simp [hsize, Nat.add_assoc]
    · simpa using hversions
    · rw [messageEntries, Array.map_push, Array.toList_push, ← messageEntries, hmessages]
      simp [entriesFrom, hsize, List.zipIdx_append]
  exact hrun.2

/-- The enums of a package go to the end of the enums, one after the other. -/
theorem addEnums_entries {v : VersionId} {ss : List EnumSchema}
    (h : ss.foldlM (addEnum source v) c = .ok c') :
    c'.versions.size = c.versions.size ∧ c'.messageEntries = c.messageEntries ∧
      c'.fieldEntries = c.fieldEntries ∧ c'.enumEntries =
        c.enumEntries ++ entriesFrom c.enums.size v.index .mk (·.fullName) ss := by
  let Inv (made : List EnumSchema) (t : Chain) :=
    t.enums.size = c.enums.size + made.length ∧ t.versions.size = c.versions.size ∧
      t.messageEntries = c.messageEntries ∧ t.fieldEntries = c.fieldEntries ∧
      t.enumEntries = c.enumEntries ++ entriesFrom c.enums.size v.index .mk (·.fullName) made
  have hrun : Inv ss c' := by
    refine foldlM_invariant Inv (by simp [Inv, entriesFrom]) ?_ h
    rintro made s rest t t' - ⟨hsize, hversions, hmessages, hfields, henums⟩ hadd
    obtain ⟨deprecated, delegate, xs, -, -, -, rfl⟩ := addEnum_eq_ok hadd
    refine ⟨?_, ?_, hmessages, hfields, ?_⟩
    · simp [hsize, Nat.add_assoc]
    · simpa using hversions
    · rw [enumEntries, Array.map_push, Array.toList_push, ← enumEntries, henums]
      simp [entriesFrom, hsize, List.zipIdx_append]
  exact hrun.2

/-- **The types of one more version.** All of them are declared before the first field is. -/
theorem Declares.addTypes {made : List (PackageSchema × ServiceSchema)} (h : c.Declares made)
    (hc : c.Referring) {p : PackageSchema × ServiceSchema} {node : Version} {d e : Chain}
    (hmessages : p.1.messages.foldlM (addMessage source ⟨c.versions.size⟩)
      { c with versions := c.versions.push node } = .ok d)
    (henums : p.1.enums.foldlM (addEnum source ⟨c.versions.size⟩) d = .ok e) :
    e.Declares (made ++ [p]) ∧ e.Referring ∧
      ∀ s ∈ p.1.messages.zipIdx c.messages.size,
        (⟨s.2⟩, made.length, s.1.fullName) ∈ e.messageEntries := by
  obtain ⟨hversions, henumsSame, hfields, hentries⟩ := addMessages_entries hmessages
  obtain ⟨hversions', hmessagesSame, hfields', hentries'⟩ := addEnums_entries henums
  have hme : e.messageEntries = c.messageEntries ++
      entriesFrom c.messages.size made.length .mk (·.fullName) p.1.messages := by
    rw [hmessagesSame, hentries, ← h.versions]
    rfl
  have hee : e.enumEntries = c.enumEntries ++
      entriesFrom d.enums.size made.length .mk (·.fullName) p.1.enums := by
    rw [hentries', henumsSame, ← h.versions]
    rfl
  have hfe : e.fieldEntries = c.fieldEntries := hfields'.trans hfields
  refine ⟨⟨?_, ?_, ?_⟩, ?_, ?_⟩
  · rw [hversions', hversions, Array.size_push, h.versions, List.length_append,
      List.length_singleton]
  · rw [hme, List.map_append, h.messages, declaredNames_append, entriesFrom_snd,
      PackageSchema.messageNames]
  · rw [hee, List.map_append, h.enums, declaredNames_append, entriesFrom_snd,
      PackageSchema.enumNames]
  · -- earlier versions do not see the new types
    intro f hf t ht
    obtain ⟨v, n, name, hv, hseen, henum⟩ := hc f (hfe ▸ hf) t ht
    have hlt : v < made.length := h.message_lt hv
    have hm : ∀ name, seen? e.messageEntries v name = seen? c.messageEntries v name :=
      fun name => by
      rw [hme, seen?_append_entriesFrom hlt]
    have he : ∀ name, seen? e.enumEntries v name = seen? c.enumEntries v name := fun name => by
      rw [hee, seen?_append_entriesFrom hlt]
    refine ⟨v, n, name, ?_, ?_, ?_⟩
    · rw [hme]
      exact List.mem_append_left _ hv
    · simp only [hseen, typeSeen, hm, he]
    · rwa [he]
  · intro s hs
    rw [hme]
    exact List.mem_append_right _ (List.mem_map_of_mem hs)

/-! ### Members and methods -/

/-- Declaring a oneof changes neither types nor fields. -/
theorem sameTypes_addOneof {m : MessageId} {name : String} {s : OneofSchema}
    (h : addOneof source m name c s = .ok c') :
    SameTypes c c' ∧ c'.fieldEntries = c.fieldEntries := by
  obtain ⟨deprecated, delegate, validate, receive, -, -, -, -, rfl⟩ := addOneof_eq_ok h
  refine ⟨⟨rfl, ?_, rfl⟩, rfl⟩
  simp [messageEntries]

/-- Declaring a method changes neither types nor fields. -/
theorem sameTypes_addMethod {v : VersionId} {package : String} {s : MethodSchema}
    (h : addMethod source v package c s = .ok c') :
    SameTypes c c' ∧ c'.fieldEntries = c.fieldEntries := by
  obtain ⟨deprecated, delegate, input, output, -, -, -, -, rfl⟩ := addMethod_eq_ok h
  refine ⟨⟨by simp, ?_, rfl⟩, rfl⟩
  simp [messageEntries, modifyMessage]

/-- Declaring a field adds one reference, which passes the check of its kind. -/
theorem sameTypes_addField {m : MessageId} {n : String} {s : FieldSchema}
    (h : addField source m n c s = .ok c') :
    SameTypes c c' ∧
      c'.fieldEntries = c.fieldEntries ++ [(m, s.kind, s.typeName.map (c.typeRef s.kind))] ∧
      checkType (n ++ "." ++ s.name) s.kind (s.typeName.map (c.typeRef s.kind)) = .ok () := by
  obtain ⟨deprecated, delegate, validate, receive, f, -, -, -, -, hcheck, hf, rfl⟩ :=
    addField_eq_ok h
  refine ⟨⟨rfl, by simp [messageEntries], rfl⟩, ?_, hcheck⟩
  rw [fieldEntries, Array.map_push, Array.toList_push, ← fieldEntries, hf]

/-- An enum field that sees no enum is refused. -/
theorem isSome_of_checkType {entity name : String} {v : Nat}
    (h : checkType entity .enumeration (some (c.typeSeen v .enumeration name)) = .ok ()) :
    (seen? c.enumEntries v name).isSome := by
  cases hseen : seen? c.enumEntries v name with
  | some e => rfl
  | none =>
    rw [typeSeen, hseen] at h
    cases h

/-- **One more field** refers to what its version sees. -/
theorem Referring.addField {made : List (PackageSchema × ServiceSchema)} (hd : c.Declares made)
    (hc : c.Referring) {v : Nat} (hv : v + 1 = made.length) {m : MessageId} {n : String}
    {s : FieldSchema} (hm : (m, v, n) ∈ c.messageEntries) (h : addField source m n c s = .ok c') :
    SameTypes c c' ∧ c'.Referring := by
  obtain ⟨hsame, hentries, hcheck⟩ := sameTypes_addField h
  refine ⟨hsame, fun e he t ht => ?_⟩
  rw [hentries] at he
  obtain he | he := List.mem_append.mp he
  · -- an earlier field, for which no types have come
    obtain ⟨v, n, name, hv, hseen, henum⟩ := hc e he t ht
    exact ⟨v, n, name, hsame.messages ▸ hv, hseen.trans (hsame.typeSeen_eq v _ name).symm,
      hsame.enums ▸ henum⟩
  · -- the new field, whose version is the last so far and sees all types
    obtain rfl := List.mem_singleton.mp he
    obtain ⟨name, hname, rfl⟩ := Option.map_eq_some_iff.mp ht
    refine ⟨v, n, name, hsame.messages ▸ hm, ?_, fun hkind => ?_⟩
    · rw [hsame.typeSeen_eq, hd.typeRef_eq_typeSeen hv]
    · have hkind : s.kind = .enumeration := hkind
      rw [hname, Option.map_some, hd.typeRef_eq_typeSeen hv, hkind] at hcheck
      rw [hsame.enums]
      exact isSome_of_checkType hcheck

/-- Fields that are declared refer to what the newest version sees. -/
theorem Referring.addFields {made : List (PackageSchema × ServiceSchema)} (hd : c.Declares made)
    (hc : c.Referring) {v : Nat} (hv : v + 1 = made.length) {m : MessageId} {n : String}
    {ss : List FieldSchema} (hm : (m, v, n) ∈ c.messageEntries)
    (h : ss.foldlM (Chain.addField source m n) c = .ok c') : SameTypes c c' ∧ c'.Referring := by
  refine foldlM_preserves (fun t => SameTypes c t ∧ t.Referring) ⟨.refl c, hc⟩ ?_ h
  rintro s - t t' ⟨hsame, ht⟩ hs
  obtain ⟨hsame', ht'⟩ := ht.addField (hsame.declares hd) hv (hsame.messages ▸ hm) hs
  exact ⟨hsame.trans hsame', ht'⟩

/-- Oneofs that are declared keep the references. -/
theorem Referring.addOneofs (hc : c.Referring) {m : MessageId} {n : String} {ss : List OneofSchema}
    (h : ss.foldlM (addOneof source m n) c = .ok c') : SameTypes c c' ∧ c'.Referring := by
  refine foldlM_preserves (fun t => SameTypes c t ∧ t.Referring) ⟨.refl c, hc⟩ ?_ h
  rintro s - t t' ⟨hsame, ht⟩ hs
  obtain ⟨hsame', hfields⟩ := sameTypes_addOneof hs
  exact ⟨hsame.trans hsame', hsame'.referring hfields ht⟩

/-- The members of messages that are declared. -/
theorem Referring.addMembers {made : List (PackageSchema × ServiceSchema)} (hd : c.Declares made)
    (hc : c.Referring) {v : Nat} (hv : v + 1 = made.length) {ms : List (MessageSchema × Nat)}
    (hms : ∀ m ∈ ms, (⟨m.2⟩, v, m.1.fullName) ∈ c.messageEntries)
    (h : ms.foldlM (fun c m => Chain.addMembers source c (⟨m.2⟩, m.1)) c = .ok c') :
    SameTypes c c' ∧ c'.Referring := by
  refine foldlM_preserves (fun t => SameTypes c t ∧ t.Referring) ⟨.refl c, hc⟩ ?_ h
  rintro m hm t t' ⟨hsame, ht⟩ hs
  obtain ⟨withOneofs, honeofs, hfields⟩ := bind_eq_ok.mp hs
  obtain ⟨hsame', ht'⟩ := ht.addOneofs honeofs
  have hboth := hsame.trans hsame'
  obtain ⟨hsame'', ht''⟩ :=
    ht'.addFields (hboth.declares hd) hv (hboth.messages ▸ hms m hm) hfields
  exact ⟨hboth.trans hsame'', ht''⟩

/-- Methods that are declared keep the references. -/
theorem Referring.addMethods (hc : c.Referring) {v : VersionId} {package : String}
    {ss : List MethodSchema} (h : ss.foldlM (addMethod source v package) c = .ok c') :
    SameTypes c c' ∧ c'.Referring := by
  refine foldlM_preserves (fun t => SameTypes c t ∧ t.Referring) ⟨.refl c, hc⟩ ?_ h
  rintro s - t t' ⟨hsame, ht⟩ hs
  obtain ⟨hsame', hfields⟩ := sameTypes_addMethod hs
  exact ⟨hsame.trans hsame', hsame'.referring hfields ht⟩

/-- **One more version.** -/
theorem Declares.addVersion {made : List (PackageSchema × ServiceSchema)} {count : Nat}
    {p : PackageSchema × ServiceSchema} (hd : c.Declares made) (hc : c.Referring)
    (h : addVersion source count c p = .ok c') : c'.Declares (made ++ [p]) ∧ c'.Referring := by
  simp only [Chain.addVersion, bind_eq_ok] at h
  obtain ⟨withMessages, hmessages, withEnums, henums, withMembers, hmembers, hmethods⟩ := h
  obtain ⟨hd₁, hc₁, hms⟩ := hd.addTypes hc hmessages henums
  obtain ⟨hsame₂, hc₂⟩ := hc₁.addMembers hd₁ (by simp) hms hmembers
  obtain ⟨hsame₃, hc₃⟩ := hc₂.addMethods hmethods
  exact ⟨(hsame₂.trans hsame₃).declares hd₁, hc₃⟩

/-- All versions being declared, the chain has their names and refers to what was seen. -/
theorem declares_of_addVersions {count : Nat} {versions : List (PackageSchema × ServiceSchema)}
    (h : versions.foldlM (addVersion source count) {} = .ok c) :
    c.Declares versions ∧ c.Referring := by
  refine foldlM_invariant (fun made t => t.Declares made ∧ t.Referring) ⟨.empty, ?_⟩ ?_ h
  · intro f hf
    simp [fieldEntries] at hf
  · rintro made p rest t t' - ⟨hd, hc⟩ hadd
    exact hd.addVersion hc hadd

/-! ### Whole chains -/

/-- Links, propagations and inherited deprecation have no part in what is referred to. -/
theorem Referring.of_unlinked (h : c.Referring) (hu : c'.unlinked = c.unlinked) : c'.Referring := by
  have hsame : SameTypes c c' := by
    refine ⟨read_eq hu (·.versions.size) fun _ => rfl, ?_, ?_⟩
    · exact read_eq hu messageEntries fun c => by simp [messageEntries, unlinked, Function.comp_def]
    · exact read_eq hu enumEntries fun c => by simp [enumEntries, unlinked, Function.comp_def]
  refine hsame.referring ?_ h
  exact read_eq hu fieldEntries fun c => by simp [fieldEntries, unlinked, Function.comp_def]

/-- Inheriting deprecation keeps the references. -/
theorem Referring.inheritDeprecation (h : c.Referring) : c.inheritDeprecation.Referring := by
  have hsame : SameTypes c c.inheritDeprecation := by
    refine ⟨rfl, rfl, ?_⟩
    simp [enumEntries, Chain.inheritDeprecation, deprecateEnums, deprecateMembers,
      Function.comp_def]
  refine hsame.referring ?_ h
  simp [fieldEntries, Chain.inheritDeprecation, deprecateEnums, deprecateMembers, Function.comp_def]

/-- The fields of every chain that is built refer to what their versions saw. -/
theorem referring_of_ofPackages {privatePackage : String} {packages : List PackageSchema}
    (h : ofPackages source privatePackage packages = .ok c) : c.Referring := by
  obtain ⟨versions, declared, linked, -, hstages, rfl⟩ := stages_of_ofPackages h
  exact (declares_of_addVersions hstages.declares).2.inheritDeprecation.of_unlinked
    hstages.unlinked_eq

/-- The entry of a message is what it says of itself. -/
theorem WellFormed.mem_messageEntries (h : c.WellFormed) {m : MessageId} {v : Nat} {name : String} :
    (m, v, name) ∈ c.messageEntries ↔ c.Has (.message m) ∧
      (c.message m).version.index = v ∧ (c.message m).fullName = name := by
  rw [messageEntries, Array.mem_toList_iff, Array.mem_map]
  constructor
  · rintro ⟨x, hx, heq⟩
    obtain ⟨k, hk⟩ := Array.mem_iff_getElem?.mp hx
    have hlt := (Array.getElem?_eq_some_iff.mp hk).1
    obtain rfl : c.message ⟨k⟩ = x := by
      rw [getElem?_eq_some_getD hlt default] at hk
      exact Option.some.inj hk
    rw [h.message_id (m := ⟨k⟩) hlt] at heq
    obtain ⟨rfl, rfl, rfl⟩ := heq
    exact ⟨hlt, rfl, rfl⟩
  · rintro ⟨hlt, rfl, rfl⟩
    exact ⟨_, Array.mem_of_getElem? (getElem?_eq_some_getD hlt default),
      congrArg (·, _, _) (h.message_id hlt)⟩

/-- The type that a field refers to is the one that its version sees under some name. -/
theorem typeSeen_of_ofPackages {privatePackage : String} {packages : List PackageSchema}
    (h : ofPackages source privatePackage packages = .ok c) {f : FieldId} (hf : c.Has (.field f))
    {t : TypeRef} (ht : (c.field f).typeRef = some t) :
    ∃ name, t = c.typeSeen (c.versionOf (.field f)).index (c.field f).kind name ∧
      ((c.field f).kind = .enumeration →
        (seen? c.enumEntries (c.versionOf (.field f)).index name).isSome) := by
  have hwf := (linked_of_ofPackages h).framed.wellFormed
  have hmem : ((c.field f).message, (c.field f).kind, (c.field f).typeRef) ∈ c.fieldEntries := by
    rw [fieldEntries, Array.mem_toList_iff]
    exact Array.mem_map_of_mem (Array.mem_of_getElem? (getElem?_eq_some_getD hf default))
  obtain ⟨v, n, name, hv, hseen, henum⟩ := referring_of_ofPackages h _ hmem t ht
  obtain ⟨-, rfl, -⟩ := hwf.mem_messageEntries.mp hv
  exact ⟨name, hseen, henum⟩

/-- A field of enum kind refers to an enum of the chain, if to anything. -/
theorem enumeration_of_ofPackages {privatePackage : String} {packages : List PackageSchema}
    (h : ofPackages source privatePackage packages = .ok c) {f : FieldId} (hf : c.Has (.field f))
    (hkind : (c.field f).kind = .enumeration) {t : TypeRef} (ht : (c.field f).typeRef = some t) :
    ∃ e, t = .enumeration e := by
  obtain ⟨name, rfl, henum⟩ := typeSeen_of_ofPackages h hf ht
  obtain ⟨e, he⟩ := Option.isSome_iff_exists.mp (henum hkind)
  exact ⟨e, by rw [hkind, typeSeen, he]; rfl⟩

/-- A field of message kind refers to a type outside the chain if all messages of that name are of
    later versions, and else to a message. -/
theorem external_iff_of_ofPackages {privatePackage : String} {packages : List PackageSchema}
    (h : ofPackages source privatePackage packages = .ok c) {f : FieldId} (hf : c.Has (.field f))
    (hkind : (c.field f).kind = .message) {t : TypeRef} (ht : (c.field f).typeRef = some t) :
    t = .external (c.typeName t) ↔ ∀ m, c.Has (.message m) →
      (c.message m).fullName = c.typeName t →
        (c.versionOf (.field f)).index < (c.message m).version.index := by
  have hwf := (linked_of_ofPackages h).framed.wellFormed
  obtain ⟨name, rfl, -⟩ := typeSeen_of_ofPackages h hf ht
  rw [hkind, typeSeen]
  cases hseen : seen? c.messageEntries (c.versionOf (.field f)).index name with
  | none =>
    refine iff_of_true rfl fun m hm hname => ?_
    exact seen?_eq_none.mp hseen _ (hwf.mem_messageEntries.mpr ⟨hm, rfl, hname⟩) rfl
  | some m =>
    obtain ⟨w, hmem, hle⟩ := mem_of_seen? hseen
    obtain ⟨hm, rfl, -⟩ := hwf.mem_messageEntries.mp hmem
    refine iff_of_false (by simp) fun hlater => ?_
    exact absurd (hlater m hm rfl) (Nat.not_lt_of_le hle)

end Chain

end Lineage
