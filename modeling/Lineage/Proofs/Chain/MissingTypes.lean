import Lineage.Proofs.Chain.References

namespace Lineage

/-!
# Missing types

A version that refers to a type which neither it nor an earlier version declares misses that type,
even if a later version declares it.

* `Chain.Unseen` — an enum field or a method that refers to such a type,
* `Chain.Declares.unseen_of_addVersion` — declaring a version misses no other types,
  `Chain.sparesTypes_resolve`, `sparesTypes_orderVersions` — ordering and linking miss none,
* `Chain.references_of_ofPackages` — which fields refer outside the chain, and which types are
  missing.
-/

/-- An error that says that a type is not found. -/
def ChainError.missesType : ChainError → Bool
  | typeNotFound .. => true
  | _ => false

namespace Chain

/-! ### Names that lead nowhere -/

/-- Among the versions so far, a version refers to a type that none of them declares: by an enum
    field, or by what a method takes or returns. -/
inductive Unseen (versions : List (PackageSchema × ServiceSchema))
    (p : PackageSchema × ServiceSchema) : String → String → Prop
  | field {m : MessageSchema} {s : FieldSchema} {name : String} (hm : m ∈ p.1.messages)
    (hs : s ∈ m.fields) (hkind : s.kind = .enumeration) (hname : s.typeName = some name)
    (hnone : ∀ v ∈ versions, name ∉ v.1.enumNames) :
    Unseen versions p (m.fullName ++ "." ++ s.name) name
  | method {s : MethodSchema} {name : String} (hs : s ∈ p.2.methods)
    (hname : name = s.input ∨ name = s.output) (hnone : ∀ v ∈ versions, name ∉ v.1.messageNames) :
    Unseen versions p (p.1.name ++ "." ++ s.name) name

/-- The error of a computation is never that a type is not found. -/
abbrev SparesTypes {α : Type} (x : Except ChainError α) : Prop :=
  FailsWith (fun e : ChainError => ¬e.missesType) x

variable {source : AnnotationSource} {c c' : Chain}

/-- Reading an annotation misses no type. -/
theorem sparesTypes_annotated {α : Type} (kind : EntityKind) (entity : String)
    (r : Except AnnotationError α) : SparesTypes (annotated kind entity r) := by
  intro e he
  obtain ⟨cause, -, rfl⟩ := mapError_eq_error.mp he
  exact Bool.false_ne_true

/-- Declaring a message misses no type. -/
theorem sparesTypes_addMessage (v : VersionId) (c : Chain) (s : MessageSchema) :
    SparesTypes (addMessage source v c s) :=
  .bind (sparesTypes_annotated _ _ _) fun _ => .bind (sparesTypes_annotated _ _ _) fun _ => .ok

/-- Declaring a value misses no type. -/
theorem sparesTypes_addValue (name : String) (e : EnumId) (c : Chain) (s : EnumValueSchema) :
    SparesTypes (addValue source name e c s) :=
  .bind (sparesTypes_annotated _ _ _) fun _ => .bind (sparesTypes_annotated _ _ _) fun _ =>
    .bind (sparesTypes_annotated _ _ _) fun _ => .ok

/-- Declaring an enum misses no type. -/
theorem sparesTypes_addEnum (v : VersionId) (c : Chain) (s : EnumSchema) :
    SparesTypes (addEnum source v c s) :=
  .bind (sparesTypes_annotated _ _ _) fun _ => .bind (sparesTypes_annotated _ _ _) fun _ =>
    .bind (.foldlM fun _ _ => sparesTypes_addValue _ _ _ _) fun _ => .ok

/-- Declaring a oneof misses no type. -/
theorem sparesTypes_addOneof (m : MessageId) (name : String) (c : Chain) (s : OneofSchema) :
    SparesTypes (addOneof source m name c s) :=
  .bind (sparesTypes_annotated _ _ _) fun _ => .bind (sparesTypes_annotated _ _ _) fun _ =>
    .bind (sparesTypes_annotated _ _ _) fun _ => .bind (sparesTypes_annotated _ _ _) fun _ => .ok

/-- A field misses a type only if it is of enum kind, and its type is no enum that has been
    declared. -/
theorem addField_eq_typeNotFound {m : MessageId} {n entity name : String} {s : FieldSchema}
    (h : addField source m n c s = .error (.typeNotFound entity name)) :
    entity = n ++ "." ++ s.name ∧ s.kind = .enumeration ∧ s.typeName = some name ∧
      c.enumNamed? name = none := by
  -- annotations are read first, and their errors are of another sort
  have hmisses : ¬¬(ChainError.typeNotFound entity name).missesType := not_not_intro rfl
  obtain ⟨deprecated, -, h⟩ := (sparesTypes_annotated _ _ _).of_bind_error hmisses h
  obtain ⟨delegate, -, h⟩ := (sparesTypes_annotated _ _ _).of_bind_error hmisses h
  obtain ⟨validate, -, h⟩ := (sparesTypes_annotated _ _ _).of_bind_error hmisses h
  obtain ⟨receive, -, h⟩ := (sparesTypes_annotated _ _ _).of_bind_error hmisses h
  obtain h | ⟨-, -, h⟩ := bind_eq_error.mp h
  · unfold checkType at h
    split at h
    · rename_i name' hkind htype
      obtain ⟨rfl, rfl⟩ : n ++ "." ++ s.name = entity ∧ name' = name := by simpa using h
      obtain ⟨typeName, hname, hexternal⟩ := Option.map_eq_some_iff.mp htype
      rw [hkind, typeRef] at hexternal
      cases hfound : c.enumNamed? typeName with
      | some e => simp [hfound] at hexternal
      | none =>
        obtain rfl : typeName = name' := by simpa [hfound] using hexternal
        exact ⟨rfl, hkind, hname, hfound⟩
    · cases h
  · cases h

/-- A method misses a type only if it takes or returns what has not been declared as a message. -/
theorem addMethod_eq_typeNotFound {v : VersionId} {package entity name : String} {s : MethodSchema}
    (h : addMethod source v package c s = .error (.typeNotFound entity name)) :
    entity = package ++ "." ++ s.name ∧ (name = s.input ∨ name = s.output) ∧
      c.messageNamed? name = none := by
  have hmisses : ¬¬(ChainError.typeNotFound entity name).missesType := not_not_intro rfl
  have htype : ∀ {name' : String},
      c.methodType (package ++ "." ++ s.name) name' = .error (.typeNotFound entity name) →
        entity = package ++ "." ++ s.name ∧ name = name' ∧ c.messageNamed? name = none := by
    intro name' h
    unfold methodType at h
    split at h
    · cases h
    · rename_i hnone
      obtain ⟨rfl, rfl⟩ : package ++ "." ++ s.name = entity ∧ name' = name := by simpa using h
      exact ⟨rfl, rfl, hnone⟩
  obtain ⟨deprecated, -, h⟩ := (sparesTypes_annotated _ _ _).of_bind_error hmisses h
  obtain ⟨delegate, -, h⟩ := (sparesTypes_annotated _ _ _).of_bind_error hmisses h
  obtain h | ⟨input, -, h⟩ := bind_eq_error.mp h
  · obtain ⟨hentity, hname, hnone⟩ := htype h
    exact ⟨hentity, .inl hname, hnone⟩
  · obtain h | ⟨output, -, h⟩ := bind_eq_error.mp h
    · obtain ⟨hentity, hname, hnone⟩ := htype h
      exact ⟨hentity, .inr hname, hnone⟩
    · cases h

/-- A version that misses a type misses one that neither it nor an earlier version declares. -/
theorem Declares.unseen_of_addVersion {made : List (PackageSchema × ServiceSchema)} {count : Nat}
    {p : PackageSchema × ServiceSchema} {entity name : String} (hd : c.Declares made)
    (hc : c.Referring)
    (h : Chain.addVersion source count c p = .error (.typeNotFound entity name)) :
    Unseen (made ++ [p]) p entity name := by
  have hmisses : ¬¬(ChainError.typeNotFound entity name).missesType := not_not_intro rfl
  obtain ⟨withMessages, hmessages, h⟩ :=
    FailsWith.of_bind_error (.foldlM fun _ _ => sparesTypes_addMessage _ _ _) hmisses h
  obtain ⟨withEnums, henums, h⟩ :=
    FailsWith.of_bind_error (.foldlM fun _ _ => sparesTypes_addEnum _ _ _) hmisses h
  obtain ⟨hd₁, hc₁, hms⟩ := hd.addTypes hc hmessages henums
  obtain h | ⟨withMembers, hmembers, h⟩ := bind_eq_error.mp h
  · -- a field of one of the messages
    obtain ⟨before, m, after, t, hsplit, hbefore, h⟩ := foldlM_error_split h
    have hmem : ∀ s ∈ before ++ [m], s ∈ p.1.messages.zipIdx c.messages.size := by
      intro s hs
      rw [hsplit]
      simp only [List.mem_append, List.mem_cons, List.not_mem_nil, or_false] at hs ⊢
      tauto
    obtain ⟨hsame, ht⟩ := hc₁.addMembers hd₁ (by simp)
      (fun s hs => hms s (hmem s (List.mem_append_left _ hs))) hbefore
    obtain ⟨withOneofs, honeofs, h⟩ :=
      FailsWith.of_bind_error (.foldlM fun _ _ => sparesTypes_addOneof _ _ _ _) hmisses h
    obtain ⟨hsame', ht'⟩ := ht.addOneofs honeofs
    obtain ⟨done, s, todo, t', hfields, hdone, h⟩ := foldlM_error_split h
    have hboth := hsame.trans hsame'
    have hmSplit := hmem m (by simp)
    obtain ⟨hsame'', -⟩ := ht'.addFields (hboth.declares hd₁) (by simp)
      (hboth.messages ▸ hms m hmSplit) hdone
    obtain ⟨rfl, hkind, hname, hnone⟩ := addField_eq_typeNotFound h
    have hdeclares := (hboth.trans hsame'').declares hd₁
    exact .field (List.fst_mem_of_mem_zipIdx hmSplit) (by rw [hfields]; simp) hkind hname
      (hdeclares.not_mem_enumNames hnone)
  · -- what a method takes or returns
    obtain ⟨hsame, ht⟩ := hc₁.addMembers hd₁ (by simp) hms hmembers
    obtain ⟨done, s, todo, t', hmethods, hdone, h⟩ := foldlM_error_split h
    obtain ⟨hsame', -⟩ := ht.addMethods hdone
    obtain ⟨rfl, hname, hnone⟩ := addMethod_eq_typeNotFound h
    have hdeclares := (hsame.trans hsame').declares hd₁
    exact .method (by rw [hmethods]; simp) hname (hdeclares.not_mem_messageNames hnone)

/-! ### Linking and ordering miss no types -/

/-- A look-up of a node misses no type. -/
theorem sparesTypes_orMissing {α : Type} {found : Option α} {error : Missing → ChainError}
    (h : ∀ m, (error m).missesType = false) (missing : Missing) :
    SparesTypes (orMissing found error missing) := by
  unfold orMissing
  split
  · exact .ok
  · exact .error (by simp [h])

/-- What comes of a look-up that must succeed. -/
theorem sparesTypes_lookUp {α β : Type} {found : Option α} {error : Missing → ChainError}
    (h : ∀ m, (error m).missesType = false) (missing : Missing) (result : α → β) :
    SparesTypes (do return result (← orMissing found error missing)) :=
  .bind (sparesTypes_orMissing h missing) fun _ => .ok

/-- Linking a message misses no type. -/
theorem sparesTypes_messageLink (c : Chain) (m : Message) : SparesTypes (c.messageLink m) := by
  unfold messageLink
  split
  · exact .ok
  · exact sparesTypes_lookUp (fun _ => rfl) _ _

/-- Linking an enum misses no type. -/
theorem sparesTypes_enumLink (c : Chain) (e : Enum) : SparesTypes (c.enumLink e) := by
  unfold enumLink
  split
  · exact .ok
  · exact sparesTypes_lookUp (fun _ => rfl) _ _

/-- Linking a value misses no type. -/
theorem sparesTypes_valueLink (c : Chain) (x : EnumValue) : SparesTypes (c.valueLink x) := by
  unfold valueLink
  dsimp only
  split
  · exact .ok
  · exact sparesTypes_lookUp (fun _ => rfl) _ _

/-- Linking a oneof misses no type. -/
theorem sparesTypes_oneofLink (c : Chain) (o : Oneof) : SparesTypes (c.oneofLink o) := by
  unfold oneofLink
  split
  · exact .ok
  · exact sparesTypes_lookUp (fun _ => rfl) _ _

/-- Linking a method misses no type. -/
theorem sparesTypes_methodLink (c : Chain) (m : Method) : SparesTypes (c.methodLink m) := by
  unfold methodLink
  split
  · exact .ok
  · exact sparesTypes_lookUp (fun _ => rfl) _ _

/-- Looking for the counterpart of a field misses no type. -/
theorem sparesTypes_fieldTarget (c : Chain) (f : Field) : SparesTypes (c.fieldTarget f) := by
  unfold fieldTarget
  dsimp only
  split <;> split
  · exact .ok
  · refine .map ?_
    exact sparesTypes_orMissing (fun _ => rfl) _
  · exact .ok
  · refine .map ?_
    exact sparesTypes_orMissing (fun _ => rfl) _

/-- Claiming a counterpart misses no type. -/
theorem sparesTypes_claim (c : Chain) (f : Field) (found : FieldId) (claimed : Claimed) :
    SparesTypes (c.claim f found claimed) := by
  unfold claim
  split
  · split
    · exact .error Bool.false_ne_true
    · exact .ok
  · exact .ok

/-- Resolving a message misses no type. -/
theorem sparesTypes_resolveMessage (c : Chain) (m : MessageId) : SparesTypes (c.resolveMessage m) :=
  .bind (sparesTypes_messageLink _ _) fun link => by cases link <;> exact .ok

/-- Resolving a value misses no type. -/
theorem sparesTypes_resolveValue (c : Chain) (x : ValueId) : SparesTypes (c.resolveValue x) :=
  .bind (sparesTypes_valueLink _ _) fun link => by cases link <;> exact .ok

/-- Resolving an enum misses no type. -/
theorem sparesTypes_resolveEnum (c : Chain) (e : EnumId) : SparesTypes (c.resolveEnum e) := by
  refine .bind (sparesTypes_enumLink _ _) fun link => ?_
  cases link with
  | none => exact .ok
  | some link => exact .foldlM sparesTypes_resolveValue

/-- Resolving a oneof misses no type. -/
theorem sparesTypes_resolveOneof (c : Chain) (o : OneofId) : SparesTypes (c.resolveOneof o) :=
  .bind (sparesTypes_oneofLink _ _) fun link => by cases link <;> exact .ok

/-- Resolving a field misses no type. -/
theorem sparesTypes_resolveField (state : Chain × Claimed) (f : FieldId) :
    SparesTypes (resolveField state f) := by
  refine .bind (sparesTypes_fieldTarget _ _) fun target => ?_
  cases target with
  | none => exact .ok
  | some found => exact .bind (sparesTypes_claim _ _ _ _) fun _ => .ok

/-- Resolving the members of a message misses no type. -/
theorem sparesTypes_resolveMembers (c : Chain) (m : MessageId) : SparesTypes (c.resolveMembers m) :=
  .bind (.foldlM sparesTypes_resolveOneof) fun _ =>
    .bind (.foldlM sparesTypes_resolveField) fun _ => .ok

/-- Resolving a method misses no type. -/
theorem sparesTypes_resolveMethod (c : Chain) (m : MethodId) : SparesTypes (c.resolveMethod m) :=
  .bind (sparesTypes_methodLink _ _) fun link => by cases link <;> exact .ok

/-- Resolving all versions misses no type. -/
theorem sparesTypes_resolve (c : Chain) : SparesTypes c.resolve :=
  .foldlM fun _ _ => .bind (.foldlM sparesTypes_resolveMessage) fun _ =>
    .bind (.foldlM sparesTypes_resolveEnum) fun _ =>
      .bind (.foldlM sparesTypes_resolveMembers) fun _ => .foldlM sparesTypes_resolveMethod

/-- Looking for the service of a package misses no type. -/
theorem sparesTypes_serviceOf (p : PackageSchema) : SparesTypes (serviceOf p) := by
  unfold serviceOf
  split
  · exact .ok
  · exact .ok
  · exact .error Bool.false_ne_true

/-- Ordering the versions misses no type. -/
theorem sparesTypes_orderVersions (privatePackage : String) (packages : List PackageSchema) :
    SparesTypes (orderVersions privatePackage packages) := by
  unfold orderVersions
  split
  · exact .error Bool.false_ne_true
  · refine .bind (sparesTypes_serviceOf _) fun service => ?_
    cases service with
    | none => exact .error Bool.false_ne_true
    | some service =>
      refine .bind (.mapM fun p => .map (sparesTypes_serviceOf p)) fun candidates => ?_
      dsimp only
      split
      · exact .error Bool.false_ne_true
      · exact .ok

/-! ### Whole chains -/

/-- **Types and the order of versions.** A version sees the types of its own and of earlier versions
    only.  A field of message kind refers to a type outside the chain exactly if all messages of
    that name are of later versions, and a type is reported as missing only if neither the version
    that refers to it nor an earlier one declares it. -/
theorem references_of_ofPackages {privatePackage : String} {packages : List PackageSchema} :
    (∀ c, ofPackages source privatePackage packages = .ok c → ∀ f, c.Has (.field f) →
      (c.field f).kind = .message → ∀ t, (c.field f).typeRef = some t →
        (t = .external (c.typeName t) ↔ ∀ m, c.Has (.message m) →
          (c.message m).fullName = c.typeName t →
            (c.versionOf (.field f)).index < (c.message m).version.index)) ∧
    (∀ entity name, ofPackages source privatePackage packages = .error (.typeNotFound entity name) →
      ∃ before v after, orderVersions privatePackage packages = .ok (before ++ v :: after) ∧
        Unseen (before ++ [v]) v entity name) := by
  refine ⟨fun c h f hf hkind t ht => external_iff_of_ofPackages h hf hkind ht, ?_⟩
  intro entity name h
  have hmisses : ¬¬(ChainError.typeNotFound entity name).missesType := not_not_intro rfl
  obtain ⟨versions, hversions, h⟩ :=
    (sparesTypes_orderVersions privatePackage packages).of_bind_error hmisses h
  obtain h | ⟨declared, -, h⟩ := bind_eq_error.mp h
  · -- the versions before the one that misses the type are declared
    obtain ⟨before, v, after, t, rfl, hbefore, h⟩ := foldlM_error_split h
    obtain ⟨hd, hc⟩ := declares_of_addVersions hbefore
    exact ⟨before, v, after, hversions, hd.unseen_of_addVersion hc h⟩
  · obtain ⟨linked, -, h⟩ := (sparesTypes_resolve _).of_bind_error hmisses h
    cases h

/-! ### A sample -/

/-- A package of letters, each with a note and a kind of given types, and a method that returns a
    given type. -/
def letterFile (package note kind output : String) : FileDescriptor :=
  { name := package ++ ".proto"
    package
    messages := [
      { name := "Letter"
        fields := [sampleField "note" "TYPE_MESSAGE" note, sampleField "kind" "TYPE_ENUM" kind] },
      { name := "Note", fields := [sampleField "text" "TYPE_STRING"] }]
    enums := [{ name := "Kind", values := [{ name := "NONE", number := some 0 }] }]
    services := [{
      name := "Service"
      methods := [{ name := "Get", inputType := package ++ ".Letter", outputType := output }] }] }

/-- Three versions of letters, the first one with given types. -/
def letterPackages (note kind output : String) : List PackageSchema :=
  let own (package : String) :=
    letterFile package (package ++ ".Note") (package ++ ".Kind") (package ++ ".Note")
  let files := [letterFile "v1" note kind output, own "v2", own "private"]
  ({ files : DescriptorSet }.packages.toOption).getD []

/-- The outcome of building the chain of the letters. -/
def buildLetters (note kind output : String) : Except ChainError Chain :=
  ofPackages AnnotationStyle.comments.source "private" (letterPackages note kind output)

/-- The chain of letters whose notes are of the second version. -/
def letterChain : Chain := ((buildLetters "v2.Note" "v1.Kind" "v1.Note").toOption).getD {}

/-- The error of a computation. -/
def errorOf {α : Type} (x : Except ChainError α) : Option ChainError :=
  match x with
  | .ok _ => none
  | .error e => some e

/-- What a computation fails with is its error. -/
theorem errorOf_eq_some {α : Type} {x : Except ChainError α} {e : ChainError} :
    errorOf x = some e ↔ x = .error e := by
  cases x <;> simp [errorOf]

set_option maxRecDepth 10000 in
/-- What is checked of the sample by evaluation: 0 is the note of the first version, 2 that of the
    second one, whose note is message 3. -/
theorem letterChain_checked :
    (buildLetters "v2.Note" "v1.Kind" "v1.Note").toOption = some letterChain ∧
    0 < letterChain.fields.size ∧ 3 < letterChain.messages.size ∧ 3 < letterChain.fields.size ∧
    (letterChain.field ⟨0⟩).kind = .message ∧ (letterChain.field ⟨3⟩).kind = .message ∧
    (letterChain.field ⟨0⟩).typeRef = some (.external "v2.Note") ∧
    (letterChain.field ⟨3⟩).typeRef = some (.message ⟨3⟩) ∧
    (letterChain.message ⟨3⟩).fullName = "v2.Note" ∧
    errorOf (buildLetters "v1.Note" "v1.Kind" "v2.Note") = some (.typeNotFound "v1.Get" "v2.Note") ∧
    errorOf (buildLetters "v1.Note" "v2.Kind" "v1.Note")
      = some (.typeNotFound "v1.Letter.kind" "v2.Kind") ∧
    (∃ p ∈ letterPackages "v1.Note" "v1.Kind" "v2.Note", "v2.Note" ∈ p.messageNames) ∧
    (∃ p ∈ letterPackages "v1.Note" "v2.Kind" "v1.Note", "v2.Kind" ∈ p.enumNames) := by
  decide +kernel

/-- The sample is built. -/
theorem ofPackages_letters :
    ofPackages AnnotationStyle.comments.source "private"
      (letterPackages "v2.Note" "v1.Kind" "v1.Note") = .ok letterChain :=
  toOption_eq_some.mp letterChain_checked.1

/-- The note of the first version is outside the chain for it, since the second version owns it; a
    method of the first version that returns it is refused. -/
theorem references_letters :
    (letterChain.field ⟨0⟩).typeRef = some (.external "v2.Note") ∧
    (∀ m, letterChain.Has (.message m) → (letterChain.message m).fullName = "v2.Note" →
      (letterChain.versionOf (.field ⟨0⟩)).index < (letterChain.message m).version.index) ∧
    (letterChain.field ⟨3⟩).typeRef = some (.message ⟨3⟩) ∧
    ¬ (∀ m, letterChain.Has (.message m) → (letterChain.message m).fullName = "v2.Note" →
      (letterChain.versionOf (.field ⟨3⟩)).index < (letterChain.message m).version.index) ∧
    ∃ before v after, orderVersions "private" (letterPackages "v1.Note" "v1.Kind" "v2.Note")
        = .ok (before ++ v :: after) ∧ Unseen (before ++ [v]) v "v1.Get" "v2.Note" := by
  obtain ⟨-, h0, -, h3, hkind0, hkind3, htype0, htype3, hname, herror, -⟩ := letterChain_checked
  have hchain := references_of_ofPackages.1 _ ofPackages_letters
  refine ⟨htype0, (hchain ⟨0⟩ h0 hkind0 _ htype0).mp rfl, htype3, fun hlater => ?_, ?_⟩
  · have hexternal := (hchain ⟨3⟩ h3 hkind3 _ htype3).mpr (by simpa [typeName, hname] using hlater)
    cases hexternal
  · exact references_of_ofPackages.2 _ _ (errorOf_eq_some.mp herror)

/-- **The order of versions decides.** A type of the chain is outside of it for a field of an
    earlier version, and is reported as missing if a method or an enum field of an earlier version
    refers to it. -/
theorem references_depend_on_order :
    (∃ f m name, ofPackages AnnotationStyle.comments.source "private"
        (letterPackages "v2.Note" "v1.Kind" "v1.Note") = .ok letterChain ∧
      letterChain.Has (.field f) ∧ (letterChain.field f).kind = .message ∧
      (letterChain.field f).typeRef = some (.external name) ∧
      letterChain.Has (.message m) ∧ (letterChain.message m).fullName = name) ∧
    (∃ entity name, ofPackages AnnotationStyle.comments.source "private"
        (letterPackages "v1.Note" "v1.Kind" "v2.Note") = .error (.typeNotFound entity name) ∧
      ∃ p ∈ letterPackages "v1.Note" "v1.Kind" "v2.Note", name ∈ p.messageNames) ∧
    (∃ entity name, ofPackages AnnotationStyle.comments.source "private"
        (letterPackages "v1.Note" "v2.Kind" "v1.Note") = .error (.typeNotFound entity name) ∧
      ∃ p ∈ letterPackages "v1.Note" "v2.Kind" "v1.Note", name ∈ p.enumNames) := by
  obtain ⟨-, hf, hm, -, hkind, -, htype, -, hname, hmethod, henum, hdeclared, hdeclared'⟩ :=
    letterChain_checked
  exact ⟨⟨⟨0⟩, ⟨3⟩, "v2.Note", ofPackages_letters, hf, hkind, htype, hm, hname⟩,
    ⟨_, _, errorOf_eq_some.mp hmethod, hdeclared⟩, ⟨_, _, errorOf_eq_some.mp henum, hdeclared'⟩⟩

end Chain

end Lineage
