import Lineage.Annotation.Style
import Lineage.Proofs.Chain.Claims

namespace Lineage.Chain

/-!
# Linking and classifying again

A chain as it is built is settled: linking its nodes again succeeds and gives each the links that it
has, and classifying its fields again classifies each as it is classified.

* `relink_self` — the links that a public node gets are those that it has,
* `Linked.claim_self` — no field finds its counterpart claimed by another one,
  `Linked.resolveMembers_self` — so the members of a message can be linked again,
* `Linked.resolve_self` — all versions, `classify_classify` — all fields,
* `settled_of_ofPackages` — chains as they are built.
-/

variable {c : Chain} {count : Nat}

/-! ### One node -/

/-- A change that leaves the element at its place as it is changes nothing. -/
theorem modify_eq_self {α : Type} {a : Array α} {k : Nat} {f : α → α} {d : α}
    (h : f (a.getD k d) = a.getD k d) : a.modify k f = a := by
  apply Array.ext_getElem?
  intro j
  rw [Array.getElem?_modify]
  by_cases hj : k = j
  · subst hj
    by_cases hk : k < a.size
    · rw [if_pos rfl, getElem?_eq_some_getD hk d, Option.map_some, h]
    · simp [hk]
  · rw [if_neg hj]

/-- A node gets the links that it has, or none: a chain that stays what it is with either is what
    comes out. -/
theorem relink_self {Id : Type} {node : Id → Node} (hinj : ∀ a b, node a = node b → a = b)
    {links : Except ChainError (Option (Link Id))} {has : Link Id} {l : Option (Link Node)}
    (hl : links.map (Option.map (Link.map node)) = .ok l) (hlinks : has.map node = l.getD {})
    {relink : Option (Link Id) → Except ChainError Chain} (hnone : relink none = .ok c)
    (hhas : relink (some has) = .ok c) : (links >>= relink) = .ok c := by
  obtain ⟨found, rfl, rfl⟩ := map_eq_ok.mp hl
  cases found with
  | none => exact hnone
  | some link =>
    obtain rfl : has = link := Link.map_inj hinj hlinks
    exact hhas

namespace Linked

variable (h : c.Linked count)
include h

/-- A message that is resolved again keeps its links. -/
theorem resolveMessage_self {m : MessageId} (hm : m.index < c.messages.size)
    (hpublic : (c.message m).version.index + 1 < count) : c.resolveMessage m = .ok c := by
  obtain ⟨_, hl, hlinks⟩ := h.stable (.message m) hm hpublic
  refine relink_self (fun _ _ => Node.message.inj) hl hlinks rfl ?_
  refine congrArg (fun messages => Except.ok { c with messages }) (modify_eq_self (d := default) ?_)
  rfl

/-- A value that is resolved again keeps its links. -/
theorem resolveValue_self {x : ValueId} (hx : x.index < c.values.size)
    (hpublic : (c.versionOf (.value x)).index + 1 < count) : c.resolveValue x = .ok c := by
  obtain ⟨_, hl, hlinks⟩ := h.stable (.value x) hx hpublic
  refine relink_self (fun _ _ => Node.value.inj) hl hlinks rfl ?_
  refine congrArg (fun values => Except.ok { c with values }) (modify_eq_self (d := default) ?_)
  rfl

/-- A oneof that is resolved again keeps its links. -/
theorem resolveOneof_self {o : OneofId} (ho : o.index < c.oneofs.size)
    (hpublic : (c.versionOf (.oneof o)).index + 1 < count) : c.resolveOneof o = .ok c := by
  obtain ⟨_, hl, hlinks⟩ := h.stable (.oneof o) ho hpublic
  refine relink_self (fun _ _ => Node.oneof.inj) hl hlinks rfl ?_
  refine congrArg (fun oneofs => Except.ok { c with oneofs }) (modify_eq_self (d := default) ?_)
  rfl

/-- A method that is resolved again keeps its links. -/
theorem resolveMethod_self {r : MethodId} (hr : r.index < c.methods.size)
    (hpublic : (c.method r).version.index + 1 < count) : c.resolveMethod r = .ok c := by
  obtain ⟨_, hl, hlinks⟩ := h.stable (.method r) hr hpublic
  refine relink_self (fun _ _ => Node.method.inj) hl hlinks rfl ?_
  refine congrArg (fun methods => Except.ok { c with methods }) (modify_eq_self (d := default) ?_)
  rfl

/-- An enum, then its values. -/
theorem resolveEnum_self {e : EnumId} (he : e.index < c.enums.size)
    (hpublic : (c.enumeration e).version.index + 1 < count) : c.resolveEnum e = .ok c := by
  obtain ⟨_, hl, hlinks⟩ := h.stable (.enumeration e) he hpublic
  have hsame : (c.modifyEnum e fun x => { x with link := (c.enumeration e).link }) = c := by
    refine congrArg (fun enums => { c with enums }) (modify_eq_self (d := default) ?_)
    rfl
  refine relink_self (fun _ _ => Node.enumeration.inj) hl hlinks rfl ?_
  show (c.enumeration e).values.foldlM resolveValue (c.modifyEnum e _) = .ok c
  rw [hsame]
  refine foldlM_fixed fun x hx => ?_
  obtain ⟨hlt, howner⟩ := (h.framed.wellFormed.mem_values e x).mp hx
  refine h.resolveValue_self hlt ?_
  rw [versionOf, howner]
  exact hpublic

/-- A field finds the counterpart that it has, if it has one. -/
theorem field_link {f : FieldId} (hf : f.index < c.fields.size)
    (hpublic : (c.versionOf (.field f)).index + 1 < count) :
    ∃ found, c.fieldTarget (c.field f) = .ok found ∧
      ∀ g, found = some g → (c.field f).link = c.fieldLink (c.field f) g := by
  obtain ⟨l, hl, hlinks⟩ := h.stable (.field f) hf hpublic
  obtain ⟨found, hfound, rfl⟩ := map_eq_ok.mp hl
  refine ⟨found, hfound, ?_⟩
  rintro g rfl
  exact Link.map_inj (fun _ _ => Node.field.inj) hlinks

/-! ### The fields of a message -/

omit h in
/-- A counterpart that is entered has been claimed by a field before, which has it as its direct
    counterpart. -/
def EnteredBy (c : Chain) (made : List FieldId) (claimed : Claimed) : Prop :=
  ∀ t g, (t, g) ∈ claimed → g ∈ made ∧ c.Claims g ∧ (c.links (.field g)).hop = some (.field t)

omit h in
/-- What has been entered stays entered by one field more. -/
theorem EnteredBy.mono {made : List FieldId} {claimed : Claimed}
    (hentered : EnteredBy c made claimed) (f : FieldId) : EnteredBy c (made ++ [f]) claimed :=
      fun t g hmem =>
  (hentered t g hmem).imp_left (List.mem_append_left _)

section
variable {m : MessageId} (hdistinct : c.DistinctIn m) {made : List FieldId} {claimed : Claimed}
  {f : FieldId} (hf : f ∈ (c.message m).fields) (hmade : ∀ g ∈ made, g ∈ (c.message m).fields)
  (hnew : f ∉ made) (hentered : EnteredBy c made claimed)
include hdistinct hf hmade hnew hentered

/-- One more field claims its counterpart: it is not entered yet, or another field would have the
    same one. -/
theorem claim_self {t : FieldId} (hhop : (c.links (.field f)).hop = some (.field t)) :
    ∃ taken, c.claim (c.field f) t claimed = .ok taken ∧ EnteredBy c (made ++ [f]) taken := by
  have hwf := h.framed.wellFormed
  by_cases hclaims : c.Claims f
  · -- whoever had entered the counterpart would be this field
    have hfree : claimed.lookup t = none := by
      rw [List.lookup_eq_none_iff]
      rintro ⟨t', g⟩ hmem
      obtain ⟨hg, hgclaims, hghop⟩ := hentered t' g hmem
      by_cases ht : t = t'
      · subst ht
        have heq := hdistinct f hf g (hmade g hg) hclaims hgclaims _ hhop hghop
        exact absurd (heq ▸ hg) hnew
      · simpa using ht
    refine ⟨_, claim_eq_ok.mpr (.inl ⟨hclaims, hfree, rfl⟩), fun t' g hmem => ?_⟩
    rw [hwf.field_id ((hwf.mem_fields m f).mp hf).1] at hmem
    rcases List.mem_cons.mp hmem with heq | hmem
    · obtain ⟨rfl, rfl⟩ := Prod.mk.inj heq
      exact ⟨by simp, hclaims, hhop⟩
    · exact hentered.mono f t' g hmem
  · exact ⟨claimed, claim_eq_ok.mpr (.inr ⟨hclaims, rfl⟩), hentered.mono f⟩

/-- One more field: it finds the counterpart that it has, and may claim it. -/
theorem resolveField_self (hpublic : (c.message m).version.index + 1 < count) :
    ∃ claimed', resolveField (c, claimed) f = .ok (c, claimed') ∧
      EnteredBy c (made ++ [f]) claimed' := by
  obtain ⟨hlt, howner⟩ := (h.framed.wellFormed.mem_fields m f).mp hf
  have hversion : (c.versionOf (.field f)).index + 1 < count := by
    rw [versionOf, howner]
    exact hpublic
  obtain ⟨found, hfound, hlink⟩ := h.field_link hlt hversion
  cases found with
  | none =>
    refine ⟨claimed, ?_, hentered.mono f⟩
    rw [resolveField, hfound]
    rfl
  | some t =>
    -- the link that is written is the one that the field has
    have hsame : (c.modifyField f fun x => { x with link := c.fieldLink (c.field f) t }) = c := by
      rw [← hlink t rfl]
      refine congrArg (fun fields => { c with fields }) (modify_eq_self (d := default) ?_)
      rfl
    have hhop : (c.links (.field f)).hop = some (.field t) := by
      rw [links, Link.map_hop, hlink t rfl, fieldLink, linkTo_hop]
      rfl
    obtain ⟨taken, htaken, hentered'⟩ := h.claim_self hdistinct hf hmade hnew hentered hhop
    refine ⟨taken, ?_, hentered'⟩
    rw [resolveField, hfound]
    show (c.claim (c.field f) t claimed >>= fun taken =>
      pure (c.modifyField f fun x => { x with link := c.fieldLink (c.field f) t }, taken)) = _
    rw [htaken, hsame]
    rfl

end

/-- **The members of a message** can be linked again. -/
theorem resolveMembers_self {m : MessageId} (hdistinct : c.DistinctIn m)
    (hpublic : (c.message m).version.index + 1 < count) : c.resolveMembers m = .ok c := by
  have hwf := h.framed.wellFormed
  have honeofs : (c.message m).oneofs.foldlM resolveOneof c = .ok c := by
    refine foldlM_fixed fun o ho => ?_
    obtain ⟨hlt, howner⟩ := (hwf.mem_oneofs m o).mp ho
    refine h.resolveOneof_self hlt ?_
    rw [versionOf, howner]
    exact hpublic
  have hnodup : (c.message m).fields.Nodup := nodup_of_pairwise (hwf.pairwise_fields m)
  -- the chain stays what it is while the list of claims grows
  obtain ⟨⟨c', claimed⟩, hfields, hsame, -⟩ := foldlM_progress (f := resolveField)
    (l := (c.message m).fields) (s := (c, []))
    (fun made s => s.1 = c ∧ EnteredBy c made s.2) ⟨rfl, by simp [EnteredBy]⟩ (by
      rintro made f rest ⟨_, claimed⟩ hsplit ⟨rfl, hentered⟩
      have hnew : f ∉ made := by
        rw [hsplit] at hnodup
        exact fun hf => (List.nodup_append.mp hnodup).2.2 f hf f List.mem_cons_self rfl
      obtain ⟨claimed', hok, hentered'⟩ := h.resolveField_self hdistinct (f := f)
        (by simp [hsplit]) (fun g hg => by simp [hsplit, hg]) hnew hentered hpublic
      exact ⟨_, hok, rfl, hentered'⟩)
  obtain rfl : c' = c := hsame
  rw [resolveMembers, honeofs]
  show ((c'.message m).fields.foldlM resolveField (c', []) >>= fun s => pure s.1) = _
  rw [hfields]
  rfl

/-! ### All versions -/

/-- A public version. -/
theorem resolveVersion_self {v : VersionId} (hpublic : v.index + 1 < count)
    (hdistinct : ∀ m ∈ (c.version v).messages, c.DistinctIn m) :
    c.resolveVersion (c.version v) = .ok c := by
  have hwf := h.framed.wellFormed
  have hmessages : (c.version v).messages.foldlM resolveMessage c = .ok c := by
    refine foldlM_fixed fun m hm => ?_
    obtain ⟨hlt, hversion⟩ := (hwf.mem_messages v m).mp hm
    exact h.resolveMessage_self hlt (hversion.symm ▸ hpublic)
  have henums : (c.version v).enums.foldlM resolveEnum c = .ok c := by
    refine foldlM_fixed fun e he => ?_
    obtain ⟨hlt, hversion⟩ := (hwf.mem_enums v e).mp he
    exact h.resolveEnum_self hlt (hversion.symm ▸ hpublic)
  have hmembers : (c.version v).messages.foldlM resolveMembers c = .ok c := by
    refine foldlM_fixed fun m hm => ?_
    obtain ⟨-, hversion⟩ := (hwf.mem_messages v m).mp hm
    exact h.resolveMembers_self (hdistinct m hm) (hversion.symm ▸ hpublic)
  have hmethods : (c.version v).methods.foldlM resolveMethod c = .ok c := by
    refine foldlM_fixed fun r hr => ?_
    obtain ⟨hlt, hversion⟩ := (hwf.mem_methods v r).mp hr
    exact h.resolveMethod_self hlt (hversion.symm ▸ hpublic)
  simp only [resolveVersion, bind_eq_ok]
  exact ⟨c, hmessages, c, henums, c, hmembers, hmethods⟩

/-- **Linking again** gives every node the links that it has. -/
theorem resolve_self (hdistinct : ∀ m : MessageId, m.index < c.messages.size →
    (c.message m).version.index + 1 < count → c.DistinctIn m) : c.resolve = .ok c := by
  refine foldlM_fixed fun v hv => ?_
  obtain ⟨hpublic, hversion⟩ := h.framed.mem_publicVersions.mp (List.mem_reverse.mp hv)
  rw [← hversion]
  refine h.resolveVersion_self hpublic fun m hm => ?_
  obtain ⟨hlt, howner⟩ := (h.framed.wellFormed.mem_messages v.id m).mp hm
  exact hdistinct m hlt (howner.symm ▸ hpublic)

end Linked

/-! ### Classifying -/

/-- Neither side's classification takes part in classifying a field. -/
theorem classifyPair_classifyField (d : Chain) (f g : Field) :
    classifyPair (c.classifyField f) (d.classifyField g) = classifyPair f g := by
  unfold classifyField
  split <;> split <;> rfl

/-- **Classifying again** classifies every field as it is classified. -/
theorem classify_classify (c : Chain) : c.classify.classify = c.classify := by
  -- only links and what is declared are looked at, and these stay what they are
  have hfield : ∀ t, c.classify.field t = c.classifyField (c.field t) := fun t =>
    getD_map rfl _ _
  have hself : ∀ f, c.classify.classifyField (c.classifyField f) = c.classifyField f := by
    intro f
    have hhop : (c.classifyField f).link.hop = f.link.hop := by rw [(classifyField_eq f).1]
    rw [classifyField, hhop]
    cases ht : f.link.hop with
    | none => rfl
    | some t =>
      have hmine : c.classifyField f = { f with propagation := classifyPair f (c.field t) } := by
        rw [classifyField, ht]
      show { c.classifyField f with
        propagation := classifyPair (c.classifyField f) (c.classify.field t) } = _
      rw [hfield, classifyPair_classifyField, hmine]
  rw [Chain.classify]
  show { c.classify with fields := (c.fields.map c.classifyField).map c.classify.classifyField } = _
  rw [Array.map_map]
  have hcomp : c.classify.classifyField ∘ c.classifyField = c.classifyField := funext hself
  rw [hcomp]
  rfl

/-! ### Chains as they are built -/

/-- **Settled chains.** Linking the nodes of a chain as it is built succeeds once more, and neither
    that nor classifying its fields once more changes anything. -/
theorem settled_of_ofPackages {source : AnnotationSource} {privatePackage : String}
    {packages : List PackageSchema} (h : ofPackages source privatePackage packages = .ok c) :
    c.resolve = .ok c ∧ c.classify = c := by
  constructor
  · exact (linked_of_ofPackages h).resolve_self fun m hm hpublic =>
      distinctIn_of_ofPackages h hm hpublic
  · obtain ⟨_, _, linked, -, -, rfl⟩ := stages_of_ofPackages h
    exact classify_classify linked

/-- Notes, with a nested message whose field refers to them. -/
def noteSchemas (package : String) (fields : List (String × String)) : PackageSchema :=
  let note := package ++ ".Note"
  { name := package
    messages := [
      { name := "Note", localName := "Note", fullName := note, parent := none, oneofs := []
        carrier := {}
        fields := fields.map fun (name, comment) =>
          { name, number := 1, kind := .scalar .string, repeated := false, typeName := none
            oneof := none, carrier := { comments := { leading := comment } } } },
      { name := "Reply", localName := "Note.Reply", fullName := note ++ ".Reply"
        parent := some "Note"
        oneofs := [{ name := "target", carrier := {} }], carrier := {}
        fields := [
          { name := "note", number := 1, kind := .message, repeated := false, typeName := some note
            oneof := some 0, carrier := {} }] }]
    services := [
      { name := "Service", carrier := {}
        methods := [
          { name := "Get", input := note, output := note ++ ".Reply", carrier := {} }] }] }

/-- Notes whose text goes from the first version right to the body of the private one. -/
def notePackages : List PackageSchema :=
  [noteSchemas "v1" [("title", ""), ("text", "gen:svc deprecated\ngen:svc delegate name=body")],
    noteSchemas "v2" [("title", "gen:svc delegate name=heading")],
    noteSchemas "private" [("heading", ""), ("body", "")]]

set_option maxRecDepth 10000 in
/-- Two public versions, with a field that is deprecated and two that have delegates. -/
theorem settled_notePackages : ∃ c,
    ofPackages AnnotationStyle.comments.source "private" notePackages = .ok c ∧
      (c.field ⟨1⟩).link.hop = some ⟨6⟩ ∧ c.resolve = .ok c ∧ c.classify = c := by
  have hok :
      ((ofPackages AnnotationStyle.comments.source "private" notePackages).toOption.map fun c =>
      (c.field ⟨1⟩).link.hop) = some (some ⟨6⟩) := by decide +kernel
  obtain ⟨c, hc, hhop⟩ := Option.map_eq_some_iff.mp hok
  have hchain := toOption_eq_some.mp hc
  exact ⟨c, hchain, hhop, settled_of_ofPackages hchain⟩

end Lineage.Chain
