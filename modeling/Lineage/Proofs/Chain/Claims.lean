import Lineage.Proofs.Chain.Variants
import Mathlib.Data.List.Nodup

namespace Lineage.Chain

/-!
# Counterparts that are taken once

Linking the fields of a message refuses two plain fields that are not deprecated and have one direct
counterpart.

* `Claims` — such a field takes its counterpart for itself; `DistinctIn` — no two of a message take
  the same one,
* `distinctIn_resolveMembers` — the members of one message, `distinctIn_resolve` — of all messages,
* `distinctIn_of_ofPackages` — so it is in every chain as it is built,
* `FieldsApart`, `MembersApart` — the members of a message have private counterparts of their own,
  `DistinctIn.fieldsApart` — in the latest version, plain fields that are not deprecated do,
* `Unclaimed`, `Linked.unclaimed_of_final_eq` — fields that have one private counterpart lead to one
  that is deprecated or a variant.
-/

variable {c c' : Chain} {count : Nat}

/-- A list that is sorted by a number has no repetitions. -/
theorem nodup_of_pairwise {α : Type} {key : α → Nat} {xs : List α}
    (h : xs.Pairwise (key · < key ·)) : xs.Nodup :=
  h.imp fun {a b} hlt (heq : a = b) => Nat.ne_of_lt hlt (congrArg key heq)

/-- A plain field that is not deprecated takes its direct counterpart for itself. -/
def Claims (c : Chain) (f : FieldId) : Prop :=
  (c.field f).oneof = none ∧ (c.field f).deprecated = false

/-- No two fields of a message take the same counterpart for themselves. -/
def DistinctIn (c : Chain) (m : MessageId) : Prop :=
  ∀ f ∈ (c.message m).fields, ∀ g ∈ (c.message m).fields, c.Claims f → c.Claims g →
    ∀ t, (c.links (.field f)).hop = some t → (c.links (.field g)).hop = some t → f = g

/-- Whether a field claims its counterpart for itself does not depend on links. -/
theorem claims_of_unlinked (hu : c'.unlinked = c.unlinked) {f : FieldId} :
    c'.Claims f ↔ c.Claims f := by
  have hkeep : (c'.field f).oneof = (c.field f).oneof ∧
      (c'.field f).deprecated = (c.field f).deprecated :=
    ⟨read_eq hu (fun c => (c.field f).oneof) fun c => by simp,
      read_eq hu (fun c => (c.field f).deprecated) fun c => by simp⟩
  rw [Claims, Claims, hkeep.1, hkeep.2]

/-- Whatever else is linked makes no difference. -/
theorem DistinctIn.congr {m : MessageId} (h : c.DistinctIn m) (hu : c'.unlinked = c.unlinked)
    (hlinks : ∀ f ∈ (c.message m).fields, c'.links (.field f) = c.links (.field f)) :
    c'.DistinctIn m := by
  intro f hf g hg hcf hcg t hft hgt
  rw [fields_of_unlinked hu] at hf hg
  rw [claims_of_unlinked hu] at hcf hcg
  rw [hlinks f hf] at hft
  rw [hlinks g hg] at hgt
  exact h f hf g hg hcf hcg t hft hgt

/-! ### One message -/

/-- The direct counterpart of what has been linked is what has been found. -/
theorem linkTo_hop {α : Type} (toFinal : Bool) (found : α) (final : Option α) :
    (linkTo toFinal found final).hop = some found := by
  cases toFinal <;> rfl

/-- What has been claimed by the fields that are linked so far: whoever claims its counterpart is
    entered with it, and no counterpart is entered twice. -/
structure ClaimedBy (c : Chain) (made : List FieldId) (claimed : Claimed) : Prop where
  once : (claimed.map Prod.fst).Nodup
  entered : ∀ f ∈ made, c.Claims f → ∀ t, (c.links (.field f)).hop = some t →
    ∃ g, t = .field g ∧ (g, f) ∈ claimed

/-- What a field claims is entered, if nobody has claimed it before; a field that claims nothing
    leaves the list as it is. -/
theorem claim_eq_ok {f x : FieldId} {claimed taken : Claimed} :
    c.claim (c.field f) x claimed = .ok taken ↔
      (c.Claims f ∧ claimed.lookup x = none ∧ taken = (x, (c.field f).id) :: claimed) ∨
        (¬c.Claims f ∧ taken = claimed) := by
  unfold claim
  split
  · rename_i hclaims
    have hclaims' : c.Claims f := by simpa [Claims] using hclaims
    cases claimed.lookup x with
    | some first => simp [hclaims']
    | none => simpa [hclaims'] using eq_comm
  · rename_i hclaims
    have hclaims' : ¬c.Claims f := by simpa [Claims] using hclaims
    simpa [hclaims'] using eq_comm

/-- What has been entered stays. -/
theorem subset_of_claim {f x : FieldId} {claimed taken : Claimed}
    (h : c.claim (c.field f) x claimed = .ok taken) : claimed ⊆ taken := by
  obtain ⟨-, -, rfl⟩ | ⟨-, rfl⟩ := claim_eq_ok.mp h
  · exact List.subset_cons_self _ _
  · exact List.Subset.refl _

/-- No counterpart is entered twice. -/
theorem nodup_of_claim {f x : FieldId} {claimed taken : Claimed}
    (h : c.claim (c.field f) x claimed = .ok taken) (honce : (claimed.map Prod.fst).Nodup) :
    (taken.map Prod.fst).Nodup := by
  obtain ⟨-, hfree, rfl⟩ | ⟨-, rfl⟩ := claim_eq_ok.mp h
  · refine List.nodup_cons.mpr ⟨fun hmem => ?_, honce⟩
    obtain ⟨⟨_, g⟩, hg, rfl⟩ := List.mem_map.mp hmem
    have hlookup := List.lookup_eq_none_iff.mp hfree _ hg
    simp at hlookup
  · exact honce

/-- One more field. -/
theorem ClaimedBy.resolveField {made : List FieldId} {claimed claimed' : Claimed} {f : FieldId}
    (h : ClaimedBy c made claimed) (hwf : c.WellFormed) (hf : f.index < c.fields.size)
    (hnew : f ∉ made) (hnone : c.links (.field f) = {})
    (hok : resolveField (c, claimed) f = .ok (c', claimed')) :
    ClaimedBy c' (made ++ [f]) claimed' := by
  have hstep := relinked_resolveField hf hok
  have hkeep : ∀ g ∈ made, c'.links (.field g) = c.links (.field g) := by
    intro g hg
    refine hstep.others _ fun heq => hnew ?_
    rwa [← Node.field.inj heq]
  obtain ⟨found, hfound, hok⟩ := bind_eq_ok.mp hok
  -- a field whose owner has no counterpart is left as it is
  cases found with
  | none =>
    obtain ⟨rfl, rfl⟩ := Prod.mk.inj (pure_eq_ok.mp hok)
    refine ⟨h.once, fun g hg hclaims t ht => ?_⟩
    obtain hg | hg := List.mem_append.mp hg
    · exact h.entered g hg hclaims t ht
    · rw [List.mem_singleton.mp hg, hnone] at ht
      cases ht
  | some x =>
    obtain ⟨taken, htaken, hok⟩ := bind_eq_ok.mp hok
    obtain ⟨hc', rfl⟩ := Prod.mk.inj (pure_eq_ok.mp hok)
    have hlink : (c'.links (.field f)).hop = some (.field x) := by
      rw [← hc', links, modifyField, field, getD_modify_self hf]
      exact (congrArg Link.hop (linkTo_map Node.field _ _ _)).trans (linkTo_hop _ _ _)
    refine ⟨nodup_of_claim htaken h.once, fun g hg hclaims t ht => ?_⟩
    rw [claims_of_unlinked hstep.unlinked] at hclaims
    -- the fields before are entered still, and this one is now, if it claims its counterpart
    obtain hg | hg := List.mem_append.mp hg
    · rw [hkeep g hg] at ht
      obtain ⟨y, rfl, hy⟩ := h.entered g hg hclaims t ht
      exact ⟨y, rfl, subset_of_claim htaken hy⟩
    · obtain rfl := List.mem_singleton.mp hg
      obtain ⟨-, -, rfl⟩ | ⟨hnot, -⟩ := claim_eq_ok.mp htaken
      · rw [hwf.field_id hf]
        exact ⟨x, (Option.some.inj (hlink.symm.trans ht)).symm, List.mem_cons_self⟩
      · exact absurd hclaims hnot

/-- **The members of one message.** -/
theorem distinctIn_resolveMembers (hwf : c.WellFormed) {m : MessageId}
    (hnone : ∀ f ∈ (c.message m).fields, c.links (.field f) = {})
    (h : c.resolveMembers m = .ok c') : c'.DistinctIn m := by
  obtain ⟨d, honeofs, h⟩ := bind_eq_ok.mp h
  obtain ⟨⟨c'', claimed⟩, hfields, h⟩ := bind_eq_ok.mp h
  obtain rfl := pure_eq_ok.mp h
  -- the oneofs come first, and link no fields
  have hrun := run_oneofs hwf honeofs
  have hkeep := fields_of_unlinked hrun.unlinked m
  have hnodup : (d.message m).fields.Nodup := by
    rw [hkeep]
    exact nodup_of_pairwise (hwf.pairwise_fields m)
  -- the fields that are linked so far are entered, the others have no links
  let Inv (made : List FieldId) (s : Chain × Claimed) : Prop :=
    s.1.unlinked = d.unlinked ∧ ClaimedBy s.1 made s.2 ∧
      ∀ f ∈ (d.message m).fields, f ∉ made → s.1.links (.field f) = {}
  have hstart : Inv [] (d, []) := by
    refine ⟨rfl, ⟨.nil, by simp⟩, fun f hf _ => ?_⟩
    rw [hkeep] at hf
    rw [hrun.others (by simp), hnone f hf]
  have hstep : ∀ made f rest s s', (d.message m).fields = made ++ f :: rest → Inv made s →
      resolveField s f = .ok s' → Inv (made ++ [f]) s' := by
    intro made f rest ⟨t, taken⟩ ⟨t', taken'⟩ heq ⟨hu, hclaimed, hrest⟩ hok
    have hmem : f ∈ (d.message m).fields := by simp [heq]
    have hnew : f ∉ made := by
      rw [heq] at hnodup
      exact fun hf => (List.nodup_append.mp hnodup).2.2 f hf f List.mem_cons_self rfl
    have hcu : t.unlinked = c.unlinked := hu.trans hrun.unlinked
    have hlt : f.index < t.fields.size := by
      rw [size_eq_of_map_eq (sameShape_of_unlinked hcu).fields]
      rw [hkeep] at hmem
      exact ((hwf.mem_fields m f).mp hmem).1
    have hrelinked := relinked_resolveField hlt hok
    refine ⟨hrelinked.unlinked.trans hu,
      hclaimed.resolveField ((sameShape_of_unlinked hcu).wellFormed hwf) hlt
      hnew (hrest f hmem hnew) hok, fun g hg hnot => ?_⟩
    rw [List.mem_append, not_or, List.mem_singleton] at hnot
    exact (hrelinked.others _ fun heq => hnot.2 (Node.field.inj heq)).trans (hrest g hg hnot.1)
  obtain ⟨hu, hclaimed, -⟩ := foldlM_invariant Inv hstart hstep hfields
  -- two fields with one counterpart are entered with it, and so are one
  intro f hf g hg hcf hcg t hft hgt
  rw [fields_of_unlinked hu] at hf hg
  obtain ⟨x, rfl, hx⟩ := hclaimed.entered f hf hcf t hft
  obtain ⟨y, hy, hy'⟩ := hclaimed.entered g hg hcg _ hgt
  obtain rfl := Node.field.inj hy
  exact congrArg Prod.snd (List.inj_on_of_nodup_map hclaimed.once hx hy' rfl)

/-! ### All messages -/

/-- A step among others that establishes this for a message, if none of the others links a field of
    the message. -/
theorem DistinctIn.of_foldlM {α : Type} {step : Chain → α → Except ChainError Chain}
    (nodes : α → List Node) {before after : List α} {x : α} {m : MessageId}
    (hnone : ∀ f ∈ (c.message m).fields, c.links (.field f) = {})
    (hrun : ∀ y ∈ before ++ x :: after, ∀ t t', t.unlinked = c.unlinked → step t y = .ok t' →
      Run t (nodes y) t')
    (hothers : ∀ y ∈ before ++ after, ∀ f ∈ (c.message m).fields, .field f ∉ nodes y)
    (hx : ∀ t t', t.unlinked = c.unlinked →
      (∀ f ∈ (c.message m).fields, t.links (.field f) = {}) → step t x = .ok t' → t'.DistinctIn m)
    (h : (before ++ x :: after).foldlM step c = .ok c') : c'.DistinctIn m := by
  rw [List.foldlM_append] at h
  obtain ⟨t, hbefore, h⟩ := bind_eq_ok.mp h
  rw [List.foldlM_cons] at h
  obtain ⟨t', hstep, hafter⟩ := bind_eq_ok.mp h
  have hfirst : Run c (before.flatMap nodes) t :=
    Run.of_foldlM id (fun y hy => hrun y (List.mem_append_left _ hy)) hbefore
  have hmid := hrun x (by simp) t t' hfirst.unlinked hstep
  have hu := hmid.unlinked.trans hfirst.unlinked
  have hlast : Run t' (after.flatMap nodes) c' := Run.of_foldlM id
    (fun y hy s s' hs => hrun y (by simp [hy]) s s' (hs.trans hu)) hafter
  -- the steps around find and leave the fields as they are
  have hfree : ∀ {ys : List α}, (∀ y ∈ ys, y ∈ before ++ after) →
      ∀ f ∈ (c.message m).fields, Node.field f ∉ ys.flatMap nodes := by
    intro ys hys f hf hmem
    obtain ⟨y, hy, hfy⟩ := List.mem_flatMap.mp hmem
    exact hothers y (hys y hy) f hf hfy
  have hdistinct : t'.DistinctIn m := hx t t' hfirst.unlinked (fun f hf => by
    rw [hfirst.others (hfree (fun y hy => List.mem_append_left _ hy) f hf), hnone f hf]) hstep
  refine hdistinct.congr hlast.unlinked fun f hf => hlast.others ?_
  rw [fields_of_unlinked hu] at hf
  exact hfree (fun y hy => List.mem_append_right _ hy) f hf

/-- What stands at a place of a list without repetitions stands at no other one. -/
theorem ne_of_mem_split {α : Type} {before after : List α} {x y : α}
    (h : (before ++ x :: after).Nodup) (hy : y ∈ before ++ after) : y ≠ x := by
  rintro rfl
  have hnot := (List.nodup_middle.mp h)
  exact (List.nodup_cons.mp hnot).1 hy

section
variable (hframed : c.Framed count) {m : MessageId} {v : VersionId}
  (hnone : ∀ f ∈ (c.message m).fields, c.links (.field f) = {})
include hframed hnone

/-- The messages of a version. -/
theorem distinctIn_resolveVersion (hpublic : v.index + 1 < count) (hm : m ∈ (c.version v).messages)
    (h : c.resolveVersion (c.version v) = .ok c') : c'.DistinctIn m := by
  have hwf := hframed.wellFormed
  simp only [resolveVersion, bind_eq_ok] at h
  obtain ⟨c1, hmessages, c2, henums, c3, hmembers, hmethods⟩ := h
  have h1 := run_messages hframed rfl hmessages
  have h2 := h1.append (run_enums hframed h1.unlinked hpublic henums)
  have h4 := run_methods hframed
    ((run_members hframed h2.unlinked hmembers).unlinked.trans h2.unlinked) hmethods
  -- neither messages nor enums are members, and no method is
  have hstage : ∀ f, Node.field f ∉ c.messagesOf v ++ c.enumsOf v := by
    intro f hf
    obtain hf | hf := List.mem_append.mp hf
    · cases stage_of_mem_messagesOf hf
    · cases stage_of_mem_enumsOf hf
  have hkeep := fields_of_unlinked h2.unlinked m
  -- it is the members' step that counts, and of those the one of the message
  refine DistinctIn.congr (c := c3) ?_ h4.unlinked fun f _ =>
    h4.others fun hf => by cases stage_of_mem_methodsOf hf
  obtain ⟨before, after, hsplit⟩ := List.append_of_mem hm
  have hnodup : (before ++ m :: after).Nodup := by
    rw [← hsplit]
    exact nodup_of_pairwise (hwf.pairwise_messages v)
  rw [hsplit] at hmembers
  refine DistinctIn.of_foldlM (fun m =>
    (c.message m).oneofs.map .oneof ++ (c.message m).fields.map .field) ?_ ?_ ?_ ?_ hmembers
  · intro f hf
    rw [hkeep] at hf
    rw [h2.others (hstage f), hnone f hf]
  · exact fun y _ t t' ht hy => run_member hframed (ht.trans h2.unlinked) hy
  · intro y hy f hf hmem
    rw [hkeep] at hf
    obtain hmem | hmem := List.mem_append.mp hmem
    · obtain ⟨_, -, hne⟩ := List.mem_map.mp hmem
      cases hne
    · obtain ⟨g, hg, heq⟩ := List.mem_map.mp hmem
      obtain rfl := Node.field.inj heq
      exact ne_of_mem_split hnodup hy
        (((hwf.mem_fields y g).mp hg).2.symm.trans ((hwf.mem_fields m g).mp hf).2)
  · intro t t' ht hlinks ht'
    refine distinctIn_resolveMembers
      ((sameShape_of_unlinked (ht.trans h2.unlinked)).wellFormed hwf) (fun f hf => ?_) ht'
    rw [fields_of_unlinked ht] at hf
    exact hlinks f hf

/-- The messages of all public versions. -/
theorem distinctIn_resolve (hm : m.index < c.messages.size)
    (hpublic : (c.message m).version.index + 1 < count) (h : c.resolve = .ok c') :
    c'.DistinctIn m := by
  have hwf := hframed.wellFormed
  have hid := hframed.version_id (Nat.lt_of_succ_lt hpublic)
  have hmem : c.version (c.message m).version ∈ c.publicVersions.reverse :=
    List.mem_reverse.mpr (hframed.mem_publicVersions.mpr ⟨by rwa [hid], by rw [hid]⟩)
  have hversion : ∀ {t : Chain}, t.unlinked = c.unlinked → ∀ v, t.version v = c.version v :=
    fun hu v => read_eq hu (fun c => c.version v) fun _ => rfl
  obtain ⟨before, after, hsplit⟩ := List.append_of_mem hmem
  have hnodup : (before ++ c.version (c.message m).version :: after).Nodup := by
    rw [← hsplit, List.nodup_reverse]
    exact nodup_of_pairwise hframed.pairwise_publicVersions
  have hall : ∀ {v}, v ∈ before ++ c.version (c.message m).version :: after →
      v.id.index + 1 < count ∧ c.version v.id = v := by
    intro v hv
    rw [← hsplit, List.mem_reverse] at hv
    exact hframed.mem_publicVersions.mp hv
  rw [resolve, hsplit] at h
  refine DistinctIn.of_foldlM (fun v => c.nodesOf v.id) hnone ?_ ?_ ?_ h
  · intro v hv t t' hu hv'
    refine run_version hframed hu ?_ hv'
    rwa [← List.mem_reverse, hsplit]
  · intro v hv f hf hnode
    have hv' := hall (List.mem_append.mpr ((List.mem_append.mp hv).imp_right
      (List.mem_cons_of_mem _)))
    -- a field is a node of the version of its message alone
    have howner : (c.field f).message = m := ((hwf.mem_fields m f).mp hf).2
    have hsame : (c.message (c.field f).message).version = v.id :=
      ((hwf.mem_nodesOf v.id _).mp hnode).2
    rw [howner] at hsame
    refine ne_of_mem_split hnodup hv ?_
    rw [hsame, hv'.2]
  · intro t t' hu hlinks ht
    refine distinctIn_resolveVersion (hframed.of_unlinked hu) (fun f hf => ?_) hpublic
      ?_ (by rwa [hversion hu])
    · rw [fields_of_unlinked hu] at hf
      exact hlinks f hf
    · rw [hversion hu]
      exact (hwf.mem_messages _ m).mpr ⟨hm, rfl⟩

end

/-- **Chains as they are built**: no two plain fields of a public message that are not deprecated
    have one direct counterpart. -/
theorem distinctIn_of_ofPackages {source : AnnotationSource} {privatePackage : String}
    {packages : List PackageSchema} (h : ofPackages source privatePackage packages = .ok c)
    {m : MessageId} (hm : m.index < c.messages.size)
    (hpublic : (c.message m).version.index + 1 < c.versions.size) : c.DistinctIn m := by
  obtain ⟨versions, declared, linked, -, hstages, rfl⟩ := stages_of_ofPackages h
  -- classifying the chain links nothing, so both facts carry over from the linked one
  have hu := hstages.unlinked_eq
  rw [size_eq_of_map_eq (sameShape_of_unlinked hu).messages] at hm
  rw [hstages.classified.framed.versions_size, show (linked.classify.message m).version
    = (declared.inheritDeprecation.message m).version from
      read_eq hu (fun c => (c.message m).version) fun c => by simp] at hpublic
  have hwf := hstages.framed.wellFormed
  have hdistinct : linked.DistinctIn m := distinctIn_resolve hstages.framed
    (fun f hf => hstages.unlinked.links_eq (n := .field f) ((hwf.mem_fields m f).mp hf).1)
      hm hpublic
    hstages.resolves
  exact hdistinct.congr (unlinked_classify linked) fun f _ => links_classify linked _

/-! ### Private counterparts -/

/-- The plain fields of a message have private counterparts of their own. -/
def FieldsApart (c : Chain) (m : MessageId) : Prop :=
  ∀ f ∈ (c.message m).fields, ∀ g ∈ (c.message m).fields, (c.field f).oneof = none →
    (c.field g).oneof = none → (c.field f).link.final = (c.field g).link.final → f = g

instance (c : Chain) (m : MessageId) : Decidable (c.FieldsApart m) :=
  inferInstanceAs (Decidable (∀ f ∈ _, ∀ g ∈ _, _ → _ → _ → _))

/-- The oneofs of a message, the variants of each oneof and the values of the enums of the fields
    have private counterparts of their own. -/
structure MembersApart (c : Chain) (m : MessageId) : Prop where
  oneofs : ∀ o ∈ (c.message m).oneofs, ∀ q ∈ (c.message m).oneofs,
    (c.oneof o).link.final = (c.oneof q).link.final → o = q
  variants : ∀ o ∈ (c.message m).oneofs, ∀ f ∈ (c.oneof o).fields, ∀ g ∈ (c.oneof o).fields,
    (c.field f).link.final = (c.field g).link.final → f = g
  values : ∀ e ∈ c.referredEnums m,
    ∀ x ∈ (c.enumeration e).values, ∀ y ∈ (c.enumeration e).values,
      (c.value x).link.final = (c.value y).link.final → x = y

instance (c : Chain) (m : MessageId) : Decidable (c.MembersApart m) :=
  decidable_of_iff ((∀ o ∈ (c.message m).oneofs, ∀ q ∈ (c.message m).oneofs,
      (c.oneof o).link.final = (c.oneof q).link.final → o = q) ∧
    (∀ o ∈ (c.message m).oneofs, ∀ f ∈ (c.oneof o).fields, ∀ g ∈ (c.oneof o).fields,
      (c.field f).link.final = (c.field g).link.final → f = g) ∧
    ∀ e ∈ c.referredEnums m, ∀ x ∈ (c.enumeration e).values, ∀ y ∈ (c.enumeration e).values,
      (c.value x).link.final = (c.value y).link.final → x = y)
    ⟨fun h => ⟨h.1, h.2.1, h.2.2⟩, fun h => ⟨h.oneofs, h.variants, h.values⟩⟩

/-- In the latest version the direct counterpart of a field is its private one. -/
theorem hop_of_isLatest (h : c.Linked count) {m : MessageId} {f : FieldId}
    (hf : f ∈ (c.message m).fields) (hpublic : (c.message m).version.index + 1 < count)
    (hlatest : (c.version (c.message m).version).isLatest) :
    (c.links (.field f)).hop = (c.field f).link.final.map .field := by
  have hcoherent := h.field_coherent hf hpublic
  have hmessage := ((h.framed.wellFormed.mem_fields m f).mp hf).2
  have hnext : (c.links (.field f)).next = none := by
    cases hsome : (c.links (.field f)).next with
    | none => rfl
    | some t =>
      have hnot := (hcoherent.next_isSome.mp (by rw [hsome]; rfl)).1
      rw [versionOf, hmessage, hlatest] at hnot
      cases hnot
  rw [Link.hop, hnext]
  rfl

/-- In the latest version fields that take their counterparts for themselves have private ones of
    their own. -/
theorem DistinctIn.eq_of_isLatest {m : MessageId} (hd : c.DistinctIn m) (h : c.Linked count)
    (hpublic : (c.message m).version.index + 1 < count)
    (hlatest : (c.version (c.message m).version).isLatest) {f g : FieldId}
    (hf : f ∈ (c.message m).fields) (hg : g ∈ (c.message m).fields) (hclaims : c.Claims f)
    (hclaims' : c.Claims g) (hfinal : (c.field f).link.final = (c.field g).link.final) : f = g := by
  -- equal links alone prove nothing: there must be a counterpart, and there is
  obtain ⟨q, hq, -⟩ := (h.field_coherent hf hpublic).final
  refine hd f hf g hg hclaims hclaims' q ?_ ?_
  · rw [hop_of_isLatest h hf hpublic hlatest]
    exact hq
  · rw [hop_of_isLatest h hg hpublic hlatest, ← hfinal]
    exact hq

/-- **In the latest version** plain fields that are not deprecated have private counterparts of
    their own. -/
theorem DistinctIn.fieldsApart {m : MessageId} (hd : c.DistinctIn m) (h : c.Linked count)
    (hpublic : (c.message m).version.index + 1 < count)
    (hlatest : (c.version (c.message m).version).isLatest)
    (hlive : ∀ f ∈ (c.message m).fields, (c.field f).deprecated = false) : c.FieldsApart m :=
  fun f hf g hg hplain hplain' hfinal => hd.eq_of_isLatest h hpublic hlatest hf hg
    ⟨hplain, hlive f hf⟩ ⟨hplain', hlive g hg⟩ hfinal

/-! ### Private counterparts that are shared -/

/-- A field that takes its counterpart for itself has a next one, unless its version is
    the latest. -/
theorem Linked.exists_next (h : c.Linked count) {m : MessageId} {f : FieldId}
    (hf : f ∈ (c.message m).fields) (hpublic : (c.message m).version.index + 1 < count)
    (hlatest : (c.version (c.message m).version).isLatest = false) (hclaims : c.Claims f) :
    ∃ m' f', (c.message m).link.next = some m' ∧ (c.field f).link.next = some f' := by
  have hmessage := ((h.framed.wellFormed.mem_fields m f).mp hf).2
  have hc := h.field_coherent hf hpublic
  have hnext : (c.links (.field f)).next.isSome := by
    refine hc.next_isSome.mpr ⟨by rwa [versionOf, hmessage], ?_⟩
    simp [bypasses, isDeprecated, hclaims.1, hclaims.2]
  obtain ⟨t, ht⟩ := Option.isSome_iff_exists.mp hnext
  obtain ⟨o, ho, -⟩ := hc.insideNext (.message m) (by simp [owners, hmessage]) t ht
  obtain ⟨m', hm', -⟩ := Option.map_eq_some_iff.mp ho
  obtain ⟨f', hf', -⟩ := Option.map_eq_some_iff.mp ht
  exact ⟨m', f', hm', hf'⟩

/-- Fields that have one private counterpart are the same, if all that follow them take their
    counterparts for themselves. -/
theorem Linked.eq_of_forall_claims (h : c.Linked count)
    (hd : ∀ m, m.index < c.messages.size → (c.message m).version.index + 1 < count → c.DistinctIn m)
    {m : MessageId} {f g : FieldId} (hf : f ∈ (c.message m).fields) (hg : g ∈ (c.message m).fields)
    (hpublic : (c.message m).version.index + 1 < count)
    (hfinal : (c.field f).link.final = (c.field g).link.final)
    (hclaimsf : ∀ x, c.Follows f x → c.Claims x) (hclaimsg : ∀ x, c.Follows g x → c.Claims x) :
    f = g := by
  have hwf := h.framed.wellFormed
  -- by induction on how many versions follow
  obtain ⟨n, hn⟩ : ∃ n, count ≤ (c.message m).version.index + n := ⟨count, by omega⟩
  induction n generalizing m f g with
  | zero => omega
  | succ n ih =>
    obtain ⟨hlt, hmessage⟩ := (hwf.mem_fields m f).mp hf
    have hm : m.index < c.messages.size := hmessage ▸ hwf.field_message_lt hlt
    have hdistinct := hd m hm hpublic
    cases hlatest : (c.version (c.message m).version).isLatest with
    | true =>
      exact hdistinct.eq_of_isLatest h hpublic hlatest hf hg (hclaimsf f .refl) (hclaimsg g .refl)
        hfinal
    | false =>
      obtain ⟨m', f', hm', hf'⟩ := h.exists_next hf hpublic hlatest (hclaimsf f .refl)
      obtain ⟨_, g', -, hg'⟩ := h.exists_next hg hpublic hlatest (hclaimsg g .refl)
      obtain ⟨hmemf, hfinalf⟩ := h.field_next hf hpublic hm' hf'
      obtain ⟨hmemg, hfinalg⟩ := h.field_next hg hpublic hm' hg'
      obtain ⟨-, hindex, hpublic'⟩ :=
        h.public_of_next hlt (by rwa [versionOf, hmessage]) hf'
      have hmessage' := ((hwf.mem_fields m' f').mp hmemf).2
      rw [versionOf, versionOf, hmessage, hmessage'] at hindex
      rw [versionOf, hmessage'] at hpublic'
      obtain rfl : f' = g' := ih hmemf hmemg hpublic' (by rw [hfinalf, hfinalg, hfinal])
        (fun x hx => hclaimsf x (.head hf' hx)) (fun x hx => hclaimsg x (.head hg' hx)) (by omega)
      exact hdistinct f hf g hg (hclaimsf f .refl) (hclaimsg g .refl) (.field f')
        (by simp [links, Link.hop, hf']) (by simp [links, Link.hop, hg'])

/-- One of two fields is deprecated or a variant, or leads to such a field in a version that
    follows. -/
def Unclaimed (c : Chain) (f g : FieldId) : Prop :=
  ∃ x, (c.Follows f x ∨ c.Follows g x) ∧ ((c.field x).deprecated = true ∨ (c.field x).oneof ≠ none)

/-- **Fields that have one private counterpart** lead to one that is deprecated or a variant. -/
theorem Linked.unclaimed_of_final_eq (h : c.Linked count)
    (hd : ∀ m, m.index < c.messages.size → (c.message m).version.index + 1 < count → c.DistinctIn m)
    {m : MessageId} {f g : FieldId} (hf : f ∈ (c.message m).fields) (hg : g ∈ (c.message m).fields)
    (hpublic : (c.message m).version.index + 1 < count) (hne : f ≠ g)
    (hfinal : (c.field f).link.final = (c.field g).link.final) : c.Unclaimed f g := by
  by_contra hnone
  have hclaims : ∀ x, c.Follows f x ∨ c.Follows g x → c.Claims x := by
    intro x hx
    by_contra hnot
    refine hnone ⟨x, hx, ?_⟩
    rw [Claims, not_and_or] at hnot
    exact hnot.symm.imp_left fun hdeprecated => by simpa using hdeprecated
  exact hne (h.eq_of_forall_claims hd hf hg hpublic hfinal (fun x hx => hclaims x (.inl hx))
    fun x hx => hclaims x (.inr hx))

end Lineage.Chain
