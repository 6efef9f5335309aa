import Lineage.Chain.Build
import Lineage.Proofs.Outcome

namespace Lineage

/-!
# Chains of schemas that differ in their carriers

A chain depends on the carriers of its declarations only through the answers to the four questions:
packages that differ in nothing else have the same chain as long as all declarations get the same
answers.

* `FieldSchema.Alike`, … , `PackageSchema.Alike` — declarations that differ at most in their
  carriers,
* `AnnotationSource.Agree` — two sources give the same answers for related carriers,
* `Chain.addField_alike`, … , `Chain.addVersion_alike` — such declarations are declared alike,
* `SameOutcome`, `orderVersions_alike` — their versions are ordered alike, `Chain.ofPackages_alike`
  — so their chains are the same.
-/

/-! ### Schemas -/

section
variable (R : EntityKind → Carrier → Carrier → Prop)

/-- Fields that differ at most in their carriers. -/
def FieldSchema.Alike (s t : FieldSchema) : Prop :=
  ∃ carrier, t = { s with carrier } ∧ R .field s.carrier carrier

/-- Oneofs that differ at most in their carriers. -/
def OneofSchema.Alike (s t : OneofSchema) : Prop :=
  ∃ carrier, t = { s with carrier } ∧ R .oneof s.carrier carrier

/-- Messages that differ at most in their own carriers and in those of their fields and oneofs. -/
def MessageSchema.Alike (s t : MessageSchema) : Prop :=
  ∃ fields oneofs carrier, t = { s with fields, oneofs, carrier } ∧
    List.Forall₂ (FieldSchema.Alike R) s.fields fields ∧
    List.Forall₂ (OneofSchema.Alike R) s.oneofs oneofs ∧ R .message s.carrier carrier

/-- Enum values that differ at most in their carriers. -/
def EnumValueSchema.Alike (s t : EnumValueSchema) : Prop :=
  ∃ carrier, t = { s with carrier } ∧ R .enumValue s.carrier carrier

/-- Enums that differ at most in their own carriers and in those of their values. -/
def EnumSchema.Alike (s t : EnumSchema) : Prop :=
  ∃ values carrier, t = { s with values, carrier } ∧
    List.Forall₂ (EnumValueSchema.Alike R) s.values values ∧ R .enumeration s.carrier carrier

/-- Methods that differ at most in their carriers. -/
def MethodSchema.Alike (s t : MethodSchema) : Prop :=
  ∃ carrier, t = { s with carrier } ∧ R .method s.carrier carrier

/-- Services have no annotations of their own. -/
def ServiceSchema.Alike (s t : ServiceSchema) : Prop :=
  ∃ methods carrier, t = { s with methods, carrier } ∧
    List.Forall₂ (MethodSchema.Alike R) s.methods methods

/-- Packages that differ at most in the carriers of what they declare. -/
def PackageSchema.Alike (p q : PackageSchema) : Prop :=
  ∃ services messages enums, q = { p with services, messages, enums } ∧
    List.Forall₂ (ServiceSchema.Alike R) p.services services ∧
    List.Forall₂ (MessageSchema.Alike R) p.messages messages ∧
    List.Forall₂ (EnumSchema.Alike R) p.enums enums

end

/-- Two sources give the same answers for related carriers. -/
structure AnnotationSource.Agree (source source' : AnnotationSource)
    (R : EntityKind → Carrier → Carrier → Prop) : Prop where
  delegate : ∀ kind c c', R kind c c' → source'.delegate? kind c' = source.delegate? kind c
  deprecated : ∀ kind c c', R kind c c' → source'.isDeprecated kind c' = source.isDeprecated kind c
  validate : ∀ kind c c', R kind c c' → source'.validate kind c' = source.validate kind c
  receive : ∀ kind c c', R kind c c' → source'.receive kind c' = source.receive kind c

/-! ### Declaring -/

/-- Steps that agree one by one. -/
theorem foldlM_forall₂ {ε σ α β : Type} {R : α → β → Prop} {f : σ → α → Except ε σ}
    {g : σ → β → Except ε σ} {xs : List α} {ys : List β} (h : List.Forall₂ R xs ys)
    (hstep : ∀ x y, R x y → ∀ s, g s y = f s x) (s : σ) : ys.foldlM g s = xs.foldlM f s := by
  induction h generalizing s with
  | nil => rfl
  | cons hxy _ ih =>
    rw [List.foldlM_cons, List.foldlM_cons, hstep _ _ hxy]
    exact congrArg _ (funext ih)

/-- Lists that are related one by one stay so when their positions are added. -/
theorem forall₂_zipIdx {α β : Type} {R : α → β → Prop} {xs : List α} {ys : List β}
    (h : List.Forall₂ R xs ys) (k : Nat) :
    List.Forall₂ (fun x y => y.2 = x.2 ∧ R x.1 y.1) (xs.zipIdx k) (ys.zipIdx k) := by
  induction h generalizing k with
  | nil => exact .nil
  | cons hxy _ ih => exact .cons ⟨rfl, hxy⟩ (ih (k + 1))

namespace Chain

section
variable {source source' : AnnotationSource} {R : EntityKind → Carrier → Carrier → Prop}
  (h : source.Agree source' R)
include h

/-- Messages that are alike are declared alike. -/
theorem addMessage_alike {s t : MessageSchema} (hs : s.Alike R t) (v : VersionId) (c : Chain) :
    addMessage source' v c t = addMessage source v c s := by
  obtain ⟨fields, oneofs, carrier, rfl, -, -, hc⟩ := hs
  simp only [addMessage, h.deprecated _ _ _ hc, h.delegate _ _ _ hc]

/-- Values that are alike are declared alike. -/
theorem addValue_alike {s t : EnumValueSchema} (hs : s.Alike R t) (name : String) (e : EnumId)
    (c : Chain) : addValue source' name e c t = addValue source name e c s := by
  obtain ⟨carrier, rfl, hc⟩ := hs
  simp only [addValue, h.deprecated _ _ _ hc, h.delegate _ _ _ hc, h.receive _ _ _ hc]

/-- Enums that are alike are declared alike. -/
theorem addEnum_alike {s t : EnumSchema} (hs : s.Alike R t) (v : VersionId) (c : Chain) :
    addEnum source' v c t = addEnum source v c s := by
  obtain ⟨values, carrier, rfl, hvalues, hc⟩ := hs
  have hfold : ∀ e, values.foldlM (addValue source' s.fullName e) c
      = s.values.foldlM (addValue source s.fullName e) c := fun e =>
    foldlM_forall₂ hvalues (fun _ _ hxy c => addValue_alike h hxy s.fullName e c) c
  simp only [addEnum, h.deprecated _ _ _ hc, h.delegate _ _ _ hc, hfold, hvalues.length_eq]

/-- Oneofs that are alike are declared alike. -/
theorem addOneof_alike {s t : OneofSchema} (hs : s.Alike R t) (m : MessageId) (name : String)
    (c : Chain) : addOneof source' m name c t = addOneof source m name c s := by
  obtain ⟨carrier, rfl, hc⟩ := hs
  simp only [addOneof, h.deprecated _ _ _ hc, h.delegate _ _ _ hc, h.validate _ _ _ hc,
    h.receive _ _ _ hc]

/-- Fields that are alike are declared alike. -/
theorem addField_alike {s t : FieldSchema} (hs : s.Alike R t) (m : MessageId) (name : String)
    (c : Chain) : addField source' m name c t = addField source m name c s := by
  obtain ⟨carrier, rfl, hc⟩ := hs
  simp only [addField, h.deprecated _ _ _ hc, h.delegate _ _ _ hc, h.validate _ _ _ hc,
    h.receive _ _ _ hc]

/-- The members of messages that are alike are declared alike. -/
theorem addMembers_alike {s t : MessageSchema} (hs : s.Alike R t) (m : MessageId) (c : Chain) :
    addMembers source' c (m, t) = addMembers source c (m, s) := by
  -- the carrier of the message itself has been read when the message was added
  obtain ⟨fields, oneofs, carrier, rfl, hfields, honeofs, -⟩ := hs
  have hfirst : oneofs.foldlM (addOneof source' m s.fullName) c
      = s.oneofs.foldlM (addOneof source m s.fullName) c :=
    foldlM_forall₂ honeofs (fun _ _ hxy c => addOneof_alike h hxy m s.fullName c) c
  have hsecond : ∀ c, fields.foldlM (addField source' m s.fullName) c
      = s.fields.foldlM (addField source m s.fullName) c :=
    foldlM_forall₂ hfields fun _ _ hxy c => addField_alike h hxy m s.fullName c
  simp only [addMembers, hfirst, hsecond]

/-- Methods that are alike are declared alike. -/
theorem addMethod_alike {s t : MethodSchema} (hs : s.Alike R t) (v : VersionId) (package : String)
    (c : Chain) : addMethod source' v package c t = addMethod source v package c s := by
  obtain ⟨carrier, rfl, hc⟩ := hs
  simp only [addMethod, h.deprecated _ _ _ hc, h.delegate _ _ _ hc]

/-- **A version** is declared alike. -/
theorem addVersion_alike {p q : PackageSchema × ServiceSchema} (hp : p.1.Alike R q.1)
    (hs : p.2.Alike R q.2) (count : Nat) (c : Chain) :
    addVersion source' count c q = addVersion source count c p := by
  obtain ⟨p, s⟩ := p
  obtain ⟨q, t⟩ := q
  obtain ⟨services, messages, enums, rfl, -, hmessages, henums⟩ := hp
  obtain ⟨methods, carrier, rfl, hmethods⟩ := hs
  have hfirst : ∀ v c, messages.foldlM (addMessage source' v) c
      = p.messages.foldlM (addMessage source v) c := fun v =>
    foldlM_forall₂ hmessages fun _ _ hxy c => addMessage_alike h hxy v c
  have hsecond : ∀ v c, enums.foldlM (addEnum source' v) c = p.enums.foldlM (addEnum source v) c :=
    fun v => foldlM_forall₂ henums fun _ _ hxy c => addEnum_alike h hxy v c
  have hthird : ∀ first c,
      (messages.zipIdx first).foldlM (fun c m => addMembers source' c (⟨m.2⟩, m.1)) c
        = (p.messages.zipIdx first).foldlM (fun c m => addMembers source c (⟨m.2⟩, m.1)) c := by
    intro first
    refine foldlM_forall₂ (forall₂_zipIdx hmessages first) ?_
    rintro ⟨x, i⟩ ⟨y, j⟩ ⟨rfl, hxy⟩ c
    exact addMembers_alike h hxy _ c
  have hlast : ∀ v c, methods.foldlM (addMethod source' v p.name) c
      = s.methods.foldlM (addMethod source v p.name) c := fun v =>
    foldlM_forall₂ hmethods fun _ _ hxy c => addMethod_alike h hxy v p.name c
  simp only [addVersion, hfirst, hsecond, hthird, hlast]

end

end Chain

/-! ### Ordering -/

/-- Both fail in the same way, or both succeed with related results. -/
inductive SameOutcome {ε α β : Type} (R : α → β → Prop) : Except ε α → Except ε β → Prop where
  | error (e : ε) : SameOutcome R (.error e) (.error e)
  | ok {a : α} {b : β} : R a b → SameOutcome R (.ok a) (.ok b)

namespace SameOutcome

variable {ε α β γ δ : Type} {R : α → β → Prop} {S : γ → δ → Prop}

/-- What goes on alike from the same outcome has the same outcome. -/
theorem bind {x : Except ε α} {y : Except ε β} {f : α → Except ε γ} {g : β → Except ε δ}
    (h : SameOutcome R x y) (hfg : ∀ a b, R a b → SameOutcome S (f a) (g b)) :
    SameOutcome S (x >>= f) (y >>= g) := by
  cases h with
  | error e => exact .error e
  | ok hab => exact hfg _ _ hab

/-- Lists that are treated alike one by one have the same outcome. -/
theorem mapM {f : α → Except ε γ} {g : β → Except ε δ} {xs : List α} {ys : List β}
    (h : List.Forall₂ R xs ys) (hfg : ∀ a b, R a b → SameOutcome S (f a) (g b)) :
    SameOutcome (List.Forall₂ S) (xs.mapM f) (ys.mapM g) := by
  induction h with
  | nil => exact .ok .nil
  | cons hxy _ ih =>
    rw [List.mapM_cons, List.mapM_cons]
    refine (hfg _ _ hxy).bind fun a b hab => ?_
    exact ih.bind fun as bs hrest => .ok (.cons hab hrest)

end SameOutcome

/-- Related elements are inserted at the same place. -/
theorem insertBefore_forall₂ {α β : Type} {R : α → β → Prop} {cmp : α → α → Ordering}
    {cmp' : β → β → Ordering} (hcmp : ∀ a b c d, R a b → R c d → cmp' b d = cmp a c) {x : α} {y : β}
    (hxy : R x y) {xs : List α} {ys : List β} (h : List.Forall₂ R xs ys) :
    List.Forall₂ R (insertBefore cmp x xs) (insertBefore cmp' y ys) := by
  induction h with
  | nil => exact .cons hxy .nil
  | @cons a b xs ys hab hrest ih =>
    rw [insertBefore, insertBefore, hcmp x y a b hxy hab]
    split
    · exact .cons hab ih
    · exact .cons hxy (.cons hab hrest)

/-- Lists that are related one by one are sorted alike. -/
theorem stableSort_forall₂ {α β : Type} {R : α → β → Prop} {cmp : α → α → Ordering}
    {cmp' : β → β → Ordering} (hcmp : ∀ a b c d, R a b → R c d → cmp' b d = cmp a c) {xs : List α}
    {ys : List β} (h : List.Forall₂ R xs ys) :
    List.Forall₂ R (stableSort cmp xs) (stableSort cmp' ys) := by
  induction h with
  | nil => exact .nil
  | cons hxy _ ih => exact insertBefore_forall₂ hcmp hxy ih

/-- In lists that are related one by one, what is found is related. -/
theorem find?_forall₂ {α β : Type} {R : α → β → Prop} {p : α → Bool} {q : β → Bool}
    (hpq : ∀ a b, R a b → q b = p a) {xs : List α} {ys : List β} (h : List.Forall₂ R xs ys) :
    Option.Rel R (xs.find? p) (ys.find? q) := by
  induction h with
  | nil => exact .none
  | @cons a b xs ys hab _ ih =>
    rw [List.find?_cons, List.find?_cons, hpq a b hab]
    cases p a with
    | true => exact .some hab
    | false => exact ih

namespace Chain

variable {R : EntityKind → Carrier → Carrier → Prop}

/-- Packages with their services. -/
def AlikeVersions (R : EntityKind → Carrier → Carrier → Prop)
    (p q : PackageSchema × ServiceSchema) : Prop := p.1.Alike R q.1 ∧ p.2.Alike R q.2

/-- Packages that are alike have one name. -/
theorem name_alike {p q : PackageSchema} (h : p.Alike R q) : q.name = p.name := by
  obtain ⟨services, messages, enums, rfl, -⟩ := h
  rfl

/-- Packages that are alike have services that are alike. -/
theorem serviceOf_alike {p q : PackageSchema} (h : p.Alike R q) :
    SameOutcome (Option.Rel (ServiceSchema.Alike R)) (serviceOf p) (serviceOf q) := by
  obtain ⟨services, messages, enums, rfl, hservices, -, -⟩ := h
  unfold serviceOf
  dsimp only
  generalize p.services = xs at hservices ⊢
  -- none, one, or at least two
  rcases hservices with _ | ⟨hs, _ | ⟨ht, _⟩⟩
  · exact .ok .none
  · exact .ok (.some hs)
  · obtain ⟨_, _, rfl, -⟩ := hs
    obtain ⟨_, _, rfl, -⟩ := ht
    exact .error _

/-- Packages that are alike make versions that are alike. -/
theorem withService_alike {p q : PackageSchema} (h : p.Alike R q) :
    SameOutcome (Option.Rel (AlikeVersions R)) (withService p) (withService q) := by
  have hservice := serviceOf_alike h
  unfold withService
  generalize serviceOf p = x at hservice ⊢
  generalize serviceOf q = y at hservice ⊢
  cases hservice with
  | error e => exact .error e
  | ok hs =>
    refine .ok ?_
    cases hs with
    | none => exact .none
    | some hs => exact .some ⟨h, hs⟩

/-- The private version follows the public ones, if there are any. -/
theorem sorted_alike {p q : PackageSchema} {s t : ServiceSchema} (hp : p.Alike R q)
    (hs : s.Alike R t) {versions versions' : List (PackageSchema × ServiceSchema)}
    (h : List.Forall₂ (AlikeVersions R) versions versions') {e : ChainError} :
    SameOutcome (List.Forall₂ (AlikeVersions R))
      (do
        if versions.isEmpty then Except.error e
        return stableSort (fun a b => versionOrder a.1.name b.1.name) versions ++ [(p, s)])
      (do
        if versions'.isEmpty then Except.error e
        return stableSort (fun a b => versionOrder a.1.name b.1.name) versions' ++ [(q, t)]) := by
  have hsorted : List.Forall₂ (AlikeVersions R)
      (stableSort (fun a b => versionOrder a.1.name b.1.name) versions)
      (stableSort (fun a b => versionOrder a.1.name b.1.name) versions') :=
    stableSort_forall₂ (fun a b c d hab hcd => by rw [name_alike hab.1, name_alike hcd.1]) h
  have hlast : AlikeVersions R (p, s) (q, t) := ⟨hp, hs⟩
  have hall := List.rel_append hsorted (.cons hlast .nil)
  cases h with
  | nil => exact .error e
  | cons _ _ => exact .ok hall

/-- **Versions** are ordered alike. -/
theorem orderVersions_alike {packages packages' : List PackageSchema}
    (h : List.Forall₂ (PackageSchema.Alike R) packages packages') (privatePackage : String) :
    SameOutcome (List.Forall₂ (AlikeVersions R)) (orderVersions privatePackage packages)
      (orderVersions privatePackage packages') := by
  have hfind := find?_forall₂ (p := (·.name == privatePackage)) (q := (·.name == privatePackage))
    (fun a b hab => by rw [name_alike hab]) h
  have hpublic : List.Forall₂ (PackageSchema.Alike R) (packages.filter (·.name != privatePackage))
      (packages'.filter (·.name != privatePackage)) := by
    refine List.rel_filter (fun a b hab => ?_) h
    show (a.name != privatePackage) = true ↔ (b.name != privatePackage) = true
    rw [name_alike hab]
  unfold orderVersions
  generalize packages.find? (·.name == privatePackage) = found at hfind ⊢
  generalize packages'.find? (·.name == privatePackage) = found' at hfind ⊢
  cases hfind with
  | none => exact .error _
  | some hpq =>
    refine (serviceOf_alike hpq).bind fun s t hst => ?_
    cases hst with
    | none => exact name_alike hpq ▸ .error _
    | some hst =>
      refine (SameOutcome.mapM hpublic fun a b hab => withService_alike hab).bind ?_
      intro candidates candidates' hcandidates
      exact sorted_alike hpq hst (List.rel_filterMap (fun a b hab => hab) hcandidates)

/-- **Alike packages have the same chain**, or fail to have one in the same way. -/
theorem ofPackages_alike {source source' : AnnotationSource} (h : source.Agree source' R)
    {packages packages' : List PackageSchema}
    (hp : List.Forall₂ (PackageSchema.Alike R) packages packages') (privatePackage : String) :
    ofPackages source' privatePackage packages' = ofPackages source privatePackage packages := by
  have hversions := orderVersions_alike hp privatePackage
  unfold ofPackages
  generalize orderVersions privatePackage packages = x at hversions ⊢
  generalize orderVersions privatePackage packages' = y at hversions ⊢
  cases hversions with
  | error e => rfl
  | ok hversions =>
    rename_i versions versions'
    have hdeclared : versions'.foldlM (addVersion source' versions'.length) {}
        = versions.foldlM (addVersion source versions.length) {} := by
      rw [hversions.length_eq]
      exact foldlM_forall₂ hversions
        (fun p q hpq c => addVersion_alike h hpq.1 hpq.2 versions'.length c) {}
    show (versions'.foldlM (addVersion source' versions'.length) {} >>= _) = _
    rw [hdeclared]
    rfl

end Chain

end Lineage
