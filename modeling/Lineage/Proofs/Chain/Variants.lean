import Lineage.Proofs.Chain.Counterpart

namespace Lineage.Chain

/-!
# Counterparts and oneofs

A record keeps a variant under the name of its oneof, so a field and its counterparts should agree
on whether they are variants.  A variant finds its counterpart among the variants of its oneof's
counterpart; a plain field finds its own among all the fields of the message's counterpart, variants
included.

* `RespectsOneof` — the counterparts of a field are variants exactly if it is one, of the oneof's
  counterparts,
* `JoinsOneof` — a plain field whose look-up by name finds a variant, `Follows` — the fields that a
  field leads to version by version,
* `Coherent.respectsOneof_of_variant` — variants respect their oneofs,
* `respectsOneof_of_ofPackages` — a field of a built chain does exactly if no field that follows it
  joins a oneof.
-/

variable {c : Chain} {count : Nat} {f g p : FieldId}

/-- A counterpart is a variant exactly if the field is one, and then of its oneof's counterpart. -/
def SameSide (c : Chain) (counterpart : Link OneofId → Option OneofId) (f g : FieldId) : Prop :=
  ((c.field f).oneof = none ↔ (c.field g).oneof = none) ∧
    ∀ o, (c.field f).oneof = some o →
      ∃ t, counterpart (c.oneof o).link = some t ∧ (c.field g).oneof = some t

/-- Both counterparts of a field are where it is itself, outside any oneof or in the counterpart of
    its oneof. -/
structure RespectsOneof (c : Chain) (f : FieldId) : Prop where
  next : ∀ g, (c.field f).link.next = some g → c.SameSide Link.next f g
  final : ∀ p, (c.field f).link.final = some p → c.SameSide Link.final f p

/-- A plain field whose look-up by name finds a variant: a plain field became one, or a name came to
    be one's. -/
def JoinsOneof (c : Chain) (f : FieldId) : Prop :=
  (c.field f).oneof = none ∧
    ∃ m g, c.memberTarget (c.field f).message (c.field f).deprecated = some m ∧
      c.findField m ((c.field f).delegate.getD (c.field f).name) = some g ∧
      (c.field g).oneof ≠ none

/-- The fields that a field leads to version by version, itself included. -/
abbrev Follows (c : Chain) : FieldId → FieldId → Prop :=
  Relation.ReflTransGen fun f g => (c.field f).link.next = some g

/-- Only the field itself follows a field that leads to no next version. -/
theorem forall_follows_iff_of_last {P : FieldId → Prop} (hnext : (c.field f).link.next = none) :
    (∀ x, c.Follows f x → P x) ↔ P f := by
  constructor
  · exact fun h => h f .refl
  · rintro h x hx
    obtain rfl | ⟨g, hg, -⟩ := Relation.ReflTransGen.cases_head hx
    · exact h
    · rw [hnext] at hg
      cases hg

/-- What follows a field is the field itself, or follows the next one. -/
theorem forall_follows_iff {P : FieldId → Prop} (hnext : (c.field f).link.next = some g) :
    (∀ x, c.Follows f x → P x) ↔ P f ∧ ∀ x, c.Follows g x → P x := by
  constructor
  · exact fun h => ⟨h f .refl, fun x hx => h x (.head hnext hx)⟩
  · rintro ⟨hf, hg⟩ x hx
    obtain rfl | ⟨g', hg', hx⟩ := Relation.ReflTransGen.cases_head hx
    · exact hf
    · obtain rfl : g = g' := Option.some.inj (hnext.symm.trans hg')
      exact hg x hx

/-! ### Variants -/

/-- The counterpart of a variant is a variant of what its oneof leads to, if members lie in what
    their owners lead to. -/
theorem sameSide_of_inside {counterpart : Link OneofId → Option OneofId} {o : OneofId}
    {n : Option Node} (hvariant : (c.field f).oneof = some o)
    (hlink : n = (counterpart (c.oneof o).link).map Node.oneof)
    (hinside : ∃ x, n = some x ∧ x ∈ c.owners (.field g)) : c.SameSide counterpart f g := by
  obtain ⟨x, rfl, hx⟩ := hinside
  obtain ⟨t, ht, rfl⟩ := Option.map_eq_some_iff.mp hlink.symm
  have hg : (c.field g).oneof = some t := by
    cases hg : (c.field g).oneof <;> simp_all [owners]
  refine ⟨by simp [hvariant, hg], fun o' ho' => ?_⟩
  obtain rfl : o = o' := Option.some.inj (hvariant.symm.trans ho')
  exact ⟨t, ht, hg⟩

/-- **Variants.** A coherent variant respects its oneof. -/
theorem Coherent.respectsOneof_of_variant {o : OneofId} (hc : c.Coherent (.field f))
    (hvariant : (c.field f).oneof = some o) : c.RespectsOneof f := by
  have howner : .oneof o ∈ c.owners (.field f) := by simp [owners, hvariant]
  constructor
  case next =>
    intro g hg
    exact sameSide_of_inside hvariant rfl (hc.insideNext _ howner (.field g) (by simp [links, hg]))
  case final =>
    intro p hp
    exact sameSide_of_inside hvariant rfl (hc.insideFinal _ howner (.field p) (by simp [links, hp]))

/-- A plain field respects oneofs if its direct counterparts are plain. -/
theorem respectsOneof_iff_of_plain (hplain : (c.field f).oneof = none) :
    c.RespectsOneof f ↔ (∀ g, (c.field f).link.next = some g → (c.field g).oneof = none) ∧
      ∀ p, (c.field f).link.final = some p → (c.field p).oneof = none := by
  constructor
  · exact fun h => ⟨fun g hg => (h.next g hg).1.mp hplain, fun p hp => (h.final p hp).1.mp hplain⟩
  · rintro ⟨hnext, hfinal⟩
    exact ⟨fun g hg => ⟨by simp [hplain, hnext g hg], by simp [hplain]⟩,
      fun p hp => ⟨by simp [hplain, hfinal p hp], by simp [hplain]⟩⟩

/-! ### Plain fields -/

namespace Linked

variable (h : c.Linked count)
include h

/-- **One hop.** A plain field's direct counterpart is what its look-up by name finds; it joins a
    oneof exactly if that is a variant. -/
theorem plain_hop (hf : c.Has (.field f)) (hpublic : (c.versionOf (.field f)).index + 1 < count)
    (hplain : (c.field f).oneof = none) :
    ∃ toFinal g, (c.field f).link = linkTo toFinal g (c.field g).link.final ∧
      (c.JoinsOneof f ↔ (c.field g).oneof ≠ none) := by
  obtain ⟨_, hl, hlinks⟩ := h.stable (.field f) hf hpublic
  obtain ⟨found, hl', rfl⟩ := map_eq_ok.mp hl
  obtain ⟨-, rfl⟩ | ⟨m, g, hm, hg, rfl⟩ := (fieldTarget_plain_eq_ok hplain).mp hl'
  · -- without a counterpart it would have no private one
    obtain ⟨p, hp, -⟩ := (h.coherent hf hpublic).final
    rw [hlinks] at hp
    cases hp
  · have hlink : (c.field f).link = c.fieldLink (c.field f) g :=
      Link.map_inj (fun _ _ heq => Node.field.inj heq) hlinks
    refine ⟨_, g, hlink, ?_, fun hvariant => ⟨hplain, m, g, hm, hg, hvariant⟩⟩
    rintro ⟨-, m', g', hm', hg', hvariant⟩
    obtain rfl : m = m' := Option.some.inj (hm.symm.trans hm')
    obtain rfl : g = g' := Option.some.inj (hg.symm.trans hg')
    exact hvariant

/-- The next counterpart of a public field is a field of the version that follows, a public one. -/
theorem public_of_next (hf : c.Has (.field f))
    (hpublic : (c.versionOf (.field f)).index + 1 < count) (hg : (c.field f).link.next = some g) :
    c.Has (.field g) ∧ (c.versionOf (.field g)).index = (c.versionOf (.field f)).index + 1 ∧
      (c.versionOf (.field g)).index + 1 < count := by
  have hc := h.coherent hf hpublic
  have hlink : (c.links (.field f)).next = some (.field g) := by simp [links, hg]
  obtain ⟨-, hmem, -⟩ := hc.next _ hlink
  obtain ⟨hhas, hversion⟩ := (h.framed.wellFormed.mem_nodesOf _ _).mp hmem
  have hindex : (c.versionOf (.field g)).index = (c.versionOf (.field f)).index + 1 := by
    rw [hversion]
  -- only versions before the latest have next counterparts
  have hlatest := (hc.next_isSome.mp (by rw [hlink]; rfl)).1
  rw [h.framed.isLatest_eq (Nat.lt_of_succ_lt hpublic)] at hlatest
  have hne : (c.versionOf (.field f)).index + 2 ≠ count := by simpa using hlatest
  exact ⟨hhas, hindex, by omega⟩

/-- The next counterpart of a variant is a variant. -/
theorem variant_of_next (hvariant : (c.field f).oneof ≠ none)
    (hg : (c.field f).link.next = some g) :
    (c.field g).oneof ≠ none := by
  have hlead : (c.links (.field f)).Leads (.field g) := Link.leads_map Node.field (.inl hg)
  obtain ⟨o, ho⟩ := Option.ne_none_iff_exists'.mp hvariant
  have hc := h.coherent (has_of_leads hlead) (h.public_of_leads hlead)
  exact ((hc.respectsOneof_of_variant ho).next g hg).1.not.mp hvariant

/-- The private counterpart of a plain field is plain exactly if no field on the way joins
    a oneof. -/
theorem final_plain_iff (hf : c.Has (.field f))
    (hpublic : (c.versionOf (.field f)).index + 1 < count) (hplain : (c.field f).oneof = none) :
    (∀ p, (c.field f).link.final = some p → (c.field p).oneof = none) ↔
      ∀ g, c.Follows f g → ¬ c.JoinsOneof g := by
  -- by the distance to the private version: a field and its next counterpart share the private one
  induction hd : count - (c.versionOf (.field f)).index using Nat.strongRecOn generalizing f with
  | ind d ih =>
    obtain ⟨toFinal, g, hlink, hjoins⟩ := h.plain_hop hf hpublic hplain
    cases toFinal with
    | true =>
      have hfinal : (c.field f).link.final = some g := by rw [hlink]; rfl
      rw [forall_follows_iff_of_last (by rw [hlink]; rfl), hjoins, not_not, hfinal]
      simp
    | false =>
      have hnext : (c.field f).link.next = some g := by rw [hlink]; rfl
      have hshared : (c.field f).link.final = (c.field g).link.final := by rw [hlink]; rfl
      obtain ⟨hg, hindex, hpublic'⟩ := h.public_of_next hf hpublic hnext
      rw [forall_follows_iff hnext, hjoins, not_not, hshared]
      cases hside : (c.field g).oneof with
      | none => rw [ih _ (by omega) hg hpublic' hside rfl, and_iff_right rfl]
      | some o =>
        -- from here on the value is a variant's, to the private version
        obtain ⟨q, hq, -⟩ := (h.coherent hg hpublic').final
        obtain ⟨p, hp, -⟩ := Option.map_eq_some_iff.mp hq
        have hvariant := ((h.coherent hg hpublic').respectsOneof_of_variant hside).final p hp
        simp only [reduceCtorEq, false_and, iff_false]
        intro hall
        simpa [hside] using hvariant.1.mpr (hall p hp)

/-- **Oneof membership.** A public field respects oneofs exactly if no field that follows it joins
    one. -/
theorem respectsOneof_iff (hf : c.Has (.field f))
    (hpublic : (c.versionOf (.field f)).index + 1 < count) :
    c.RespectsOneof f ↔ ∀ g, c.Follows f g → ¬ c.JoinsOneof g := by
  cases hside : (c.field f).oneof with
  | none =>
    rw [respectsOneof_iff_of_plain hside, h.final_plain_iff hf hpublic hside]
    refine and_iff_right_of_imp fun hnone g hg => ?_
    obtain ⟨toFinal, g', hlink, hjoins⟩ := h.plain_hop hf hpublic hside
    have hplain := not_not.mp (hjoins.not.mp (hnone f .refl))
    cases toFinal with
    | true =>
      rw [hlink] at hg
      cases hg
    | false =>
      rw [hlink] at hg
      exact Option.some.inj hg ▸ hplain
  | some o =>
    refine iff_of_true ((h.coherent hf hpublic).respectsOneof_of_variant hside) ?_
    -- what follows a variant is a variant, so that it does not join
    suffices hall : ∀ g, c.Follows f g → (c.field g).oneof ≠ none from
      fun g hg hjoins => hall g hg hjoins.1
    intro g hg
    induction hg with
    | refl => simp [hside]
    | tail _ hnext ih => exact h.variant_of_next ih hnext

end Linked

/-! ### Chains as they are built -/

/-- **Counterparts and oneofs.** In a chain as it is built, every variant of a public version
    respects its oneof, and a field of a public version does exactly if no field that follows it
    joins a oneof: by name alone a plain field can find a variant. -/
theorem respectsOneof_of_ofPackages {source : AnnotationSource} {privatePackage : String}
    {packages : List PackageSchema} (h : ofPackages source privatePackage packages = .ok c)
    {v : Version} (hv : v ∈ c.publicVersions) (hf : .field f ∈ c.nodesOf v.id) :
    ((c.field f).oneof.isSome → c.RespectsOneof f) ∧
      (c.RespectsOneof f ↔ ∀ g, c.Follows f g → ¬ c.JoinsOneof g) := by
  have hlinked := linked_of_ofPackages h
  obtain ⟨hlt, -⟩ := hlinked.framed.mem_publicVersions.mp hv
  obtain ⟨hhas, hversion⟩ := (hlinked.framed.wellFormed.mem_nodesOf v.id _).mp hf
  have hpublic : (c.versionOf (.field f)).index + 1 < c.versions.size := by rwa [hversion]
  refine ⟨fun hvariant => ?_, hlinked.respectsOneof_iff hhas hpublic⟩
  obtain ⟨o, ho⟩ := Option.isSome_iff_exists.mp hvariant
  exact (hlinked.coherent hhas hpublic).respectsOneof_of_variant ho

/-- A package whose requests have a mail address, as a plain field or as a contact. -/
def mailFile (package : String) (contact : Bool) : FileDescriptor :=
  { name := package ++ ".proto"
    package
    messages := [
      { name := "Request"
        oneofs := if contact then [{ name := "contact" }] else []
        fields := [
          sampleField "id" "TYPE_STRING",
          sampleField "mail" "TYPE_STRING" none (if contact then some 0 else none)] },
      { name := "Response" }]
    services := [{
      name := "Service"
      methods := [{
        name := "Get"
        inputType := package ++ ".Request"
        outputType := package ++ ".Response" }] }] }

/-- The mail address becomes a contact in the second version. -/
def mailPackages : List PackageSchema :=
  let files := [mailFile "v1" false, mailFile "v2" true, mailFile "private" true]
  ({ files : DescriptorSet }.packages.toOption).getD []

/-- The chain of the mail addresses. -/
def mailChain : Chain :=
  ((ofPackages AnnotationStyle.comments.source "private" mailPackages).toOption).getD {}

set_option maxRecDepth 10000 in
/-- What is checked of the sample by evaluation: 1 and 3 are the mail addresses of the public
    versions. -/
theorem mailChain_checked :
    (ofPackages AnnotationStyle.comments.source "private" mailPackages).toOption = some mailChain ∧
    (∃ v ∈ mailChain.publicVersions, .field ⟨1⟩ ∈ mailChain.nodesOf v.id) ∧
    (∃ v ∈ mailChain.publicVersions, .field ⟨3⟩ ∈ mailChain.nodesOf v.id) ∧
    ((mailChain.field ⟨1⟩).oneof, (mailChain.field ⟨1⟩).link.next) = (none, some ⟨3⟩) ∧
    (mailChain.field ⟨3⟩).oneof = some ⟨0⟩ := by decide +kernel

/-- The sample is built. -/
theorem ofPackages_mailPackages :
    ofPackages AnnotationStyle.comments.source "private" mailPackages = .ok mailChain :=
  toOption_eq_some.mp mailChain_checked.1

/-- The contact of the second version. -/
theorem respectsOneof_sample : ∃ v : Version,
    ofPackages AnnotationStyle.comments.source "private" mailPackages = .ok mailChain ∧
      v ∈ mailChain.publicVersions ∧ .field ⟨3⟩ ∈ mailChain.nodesOf v.id ∧
      (mailChain.field ⟨3⟩).oneof.isSome ∧ mailChain.RespectsOneof ⟨3⟩ ∧
      ∀ g, mailChain.Follows ⟨3⟩ g → ¬ mailChain.JoinsOneof g := by
  obtain ⟨-, -, ⟨v, hv, hf⟩, -, hvariant⟩ := mailChain_checked
  have hsome : (mailChain.field ⟨3⟩).oneof.isSome := by rw [hvariant]; rfl
  obtain ⟨hrespects, hiff⟩ := respectsOneof_of_ofPackages ofPackages_mailPackages hv hf
  exact ⟨v, ofPackages_mailPackages, hv, hf, hsome, hrespects hsome, hiff.mp (hrespects hsome)⟩

/-- **Plain fields can join oneofs.** The mail address of the first version is no variant, but its
    next counterpart is one. -/
theorem not_respectsOneof_mail : ∃ v : Version,
    ofPackages AnnotationStyle.comments.source "private" mailPackages = .ok mailChain ∧
      v ∈ mailChain.publicVersions ∧ .field ⟨1⟩ ∈ mailChain.nodesOf v.id ∧
      (mailChain.field ⟨1⟩).oneof = none ∧ (mailChain.field ⟨1⟩).link.next = some ⟨3⟩ ∧
      (mailChain.field ⟨3⟩).oneof = some ⟨0⟩ ∧ ¬ mailChain.RespectsOneof ⟨1⟩ := by
  obtain ⟨-, ⟨v, hv, hf⟩, -, hlinks, hvariant⟩ := mailChain_checked
  obtain ⟨hplain, hnext⟩ := Prod.mk.inj hlinks
  refine ⟨v, ofPackages_mailPackages, hv, hf, hplain, hnext, hvariant, fun hrespects => ?_⟩
  have hside := (hrespects.next _ hnext).1.mp hplain
  rw [hvariant] at hside
  cases hside

end Lineage.Chain
