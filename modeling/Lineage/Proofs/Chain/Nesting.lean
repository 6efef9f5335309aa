import Lineage.Proofs.Chain.Claims
import Lineage.Proofs.Chain.Variants

namespace Lineage.Chain

/-!
# Counterparts of nested types

A message or enum that a message encloses looks for its counterpart inside the counterpart of that
message.

* `localNameOf`, `soughtName` — the name of a type in its version, and the last part of the name
  that it looks for,
* `ResolvesInside` — what is found lies, by its name, in the counterpart that the enclosing message
  has in the same version,
* `Stray` — a type that goes to the version that follows, which the message around it bypasses,
* `Linked.type_found` — what a type of a public version finds, and under which name,
* `Linked.enclosing_counterpart`, `Linked.stray_apart` — whether the enclosing message has a
  counterpart there,
* `resolvesInside_of_ofPackages` — a nested type resolves inside the counterpart of the enclosing
  message exactly if it is not stray; a stray one takes what has its bare name.
-/

/-- The name of a type in its version; any other node has a name of its own only. -/
def localNameOf (c : Chain) : Node → String
  | .message m => (c.message m).localName
  | .enumeration e => (c.enumeration e).localName
  | n => c.nameOf n

/-- The name that a node looks for: the delegate's if there is one, else its own. -/
def soughtName (c : Chain) (n : Node) : String := (c.delegateOf n).getD (c.nameOf n)

/-- A type that lies, by its name, in the counterpart that the message `p` around a nested type `n`
    has in the same version. -/
def ResolvesInside (c : Chain) (n p t : Node) : Prop :=
  ∃ q, (c.links p).Leads q ∧ c.versionOf q = c.versionOf t ∧
    c.localNameOf t = c.localNameOf q ++ "." ++ c.soughtName n

/-- A nested type that goes to the version that follows, alone: the message around it is deprecated
    and bypasses that version. -/
structure Stray (c : Chain) (n p : Node) : Prop where
  bypassed : c.isDeprecated p = true
  live : c.isDeprecated n = false
  early : (c.version (c.versionOf n)).isLatest = false

instance (c : Chain) (n p : Node) : Decidable (c.Stray n p) :=
  decidable_of_iff (c.isDeprecated p = true ∧ c.isDeprecated n = false ∧
      (c.version (c.versionOf n)).isLatest = false)
    ⟨fun h => ⟨h.1, h.2.1, h.2.2⟩, fun h => ⟨h.bypassed, h.live, h.early⟩⟩

/-- Names tell what is nested: the local name of a type has a dot exactly if a message
    encloses it. -/
structure Dotted (c : Chain) : Prop where
  messages : ∀ m ∈ c.messages, m.parent.isSome ↔ '.' ∈ m.localName.toList
  enums : ∀ e ∈ c.enums, e.parent.isSome ↔ '.' ∈ e.localName.toList

instance (c : Chain) : Decidable c.Dotted :=
  decidable_of_iff ((∀ m ∈ c.messages, m.parent.isSome ↔ '.' ∈ m.localName.toList) ∧
      ∀ e ∈ c.enums, e.parent.isSome ↔ '.' ∈ e.localName.toList)
    ⟨fun h => ⟨h.1, h.2⟩, fun h => ⟨h.messages, h.enums⟩⟩

variable {c : Chain} {count : Nat} {n p t : Node}

/-- What encloses a type is a message of its version. -/
theorem WellFormed.enclosing_eq (h : c.WellFormed) (hn : c.Has n) (hp : c.enclosing n = some p) :
    p.kind = .message ∧ c.Has p ∧ c.versionOf p = c.versionOf n := by
  cases n with
  | message m =>
    obtain ⟨p, hparent, rfl⟩ := Option.map_eq_some_iff.mp hp
    obtain ⟨hlt, hversion⟩ := h.parent_eq hn hparent
    exact ⟨rfl, Nat.lt_trans hlt hn, hversion⟩
  | enumeration e =>
    obtain ⟨p, hparent, rfl⟩ := Option.map_eq_some_iff.mp hp
    obtain ⟨hlt, hversion⟩ := h.enum_parent_eq hn hparent
    exact ⟨rfl, hlt, hversion⟩
  | value x | oneof o | field f | method r => cases hp

/-- In a chain with such names, the name of a type tells whether it is nested. -/
theorem Dotted.enclosing_isSome (h : c.Dotted) (ht : c.Has t)
    (hkind : t.kind = .message ∨ t.kind = .enumeration) :
    (c.enclosing t).isSome ↔ '.' ∈ (c.localNameOf t).toList := by
  cases t with
  | message m =>
    have hmem : c.message m ∈ c.messages := Array.mem_of_getElem? (getElem?_eq_some_getD ht default)
    simpa [enclosing, localNameOf] using h.messages _ hmem
  | enumeration e =>
    have hmem : c.enumeration e ∈ c.enums :=
      Array.mem_of_getElem? (getElem?_eq_some_getD ht default)
    simpa [enclosing, localNameOf] using h.enums _ hmem
  | value x | oneof o | field f | method r => simp [Node.kind] at hkind

/-- A message bypasses the version that follows exactly if it is deprecated. -/
theorem bypasses_of_message (hkind : p.kind = .message) : c.bypasses p = c.isDeprecated p := by
  cases p with
  | message m => simp [bypasses]
  | enumeration e | value x | oneof o | field f | method r => cases hkind

/-- The name that is looked up for a nested type: inside the counterpart that the enclosing message
    has on the same way, if it has one. -/
def nestedTarget (c : Chain) (n p : Node) (toFinal : Bool) : String :=
  nestedName ((if toFinal then (c.links p).final else (c.links p).next).map c.localNameOf)
    (c.soughtName n)

/-- What is enclosed by a message looks for a name inside the message's counterpart. -/
theorem targetName_eq {m : MessageId} {name : String} {delegate : Option String} {hop : Hop} :
    c.targetName (some m) name delegate hop = nestedName
      ((if hop.isFinal then (c.links (.message m)).final else (c.links (.message m)).next).map
        c.localNameOf) (delegate.getD name) := by
  rw [targetName, parentCounterpart, Option.bind_some]
  cases hop.isFinal <;> simp [links, Option.map_map, Function.comp_def, localNameOf]

namespace Linked

variable (h : c.Linked count)
include h

/-- **What a nested type finds.** It looks in the private version if it is deprecated or its version
    is the latest one, else in the version that follows, and what it finds has the name that is
    looked up for it. -/
theorem type_found (hn : c.Has n) (hpublic : (c.versionOf n).index + 1 < count)
    (hp : c.enclosing n = some p) {toFinal : Bool}
    (hflag : toFinal = (c.isDeprecated n || (c.versionOf n).index + 2 == count)) :
    ∃ t, (c.links n).hop = some t ∧ c.Has t ∧ t.kind = n.kind ∧
      c.versionOf t = (if toFinal then ⟨count - 1⟩ else ⟨(c.versionOf n).index + 1⟩) ∧
      c.localNameOf t = c.nestedTarget n p toFinal := by
  obtain ⟨_, hl, hlinks⟩ := h.stable n hn hpublic
  cases n with
  | message m =>
    obtain ⟨m', hparent, rfl⟩ := Option.map_eq_some_iff.mp hp
    obtain ⟨l, hl', rfl⟩ := map_eq_ok.mp hl
    obtain ⟨hnone, -⟩ | ⟨hop, found, hhop, hfind, rfl⟩ := messageLink_eq_ok.mp hl'
    · rw [h.framed.hopOf_public (v := (c.message m).version) hpublic] at hnone
      cases hnone
    · obtain ⟨hfinal, hversion⟩ := h.framed.hop_eq hpublic hhop
      obtain ⟨hlt, hfound, hname⟩ := h.framed.wellFormed.findMessage_eq_some hfind
      obtain rfl : toFinal = hop.isFinal := hflag.trans hfinal.symm
      refine ⟨.message found, ?_, hlt, rfl, hfound.trans hversion, ?_⟩
      · rw [hlinks, Option.map_some, Option.getD_some, linkTo_map, linkTo_hop]
      · rw [localNameOf, hname, hparent, targetName_eq]
        rfl
  | enumeration e =>
    obtain ⟨m', hparent, rfl⟩ := Option.map_eq_some_iff.mp hp
    obtain ⟨l, hl', rfl⟩ := map_eq_ok.mp hl
    obtain ⟨hnone, -⟩ | ⟨hop, found, hhop, hfind, rfl⟩ := enumLink_eq_ok.mp hl'
    · rw [h.framed.hopOf_public (v := (c.enumeration e).version) hpublic] at hnone
      cases hnone
    · obtain ⟨hfinal, hversion⟩ := h.framed.hop_eq hpublic hhop
      obtain ⟨hlt, hfound, hname⟩ := h.framed.wellFormed.findEnum_eq_some hfind
      obtain rfl : toFinal = hop.isFinal := hflag.trans hfinal.symm
      refine ⟨.enumeration found, ?_, hlt, rfl, hfound.trans hversion, ?_⟩
      · rw [hlinks, Option.map_some, Option.getD_some, linkTo_map, linkTo_hop]
      · rw [localNameOf, hname, hparent, targetName_eq]
        rfl
  | value x | oneof o | field f | method r => cases hp

/-- A nested type is stray exactly if it goes to the version that follows and the enclosing message
    does not. -/
theorem stray_iff (hpublic : (c.versionOf n).index + 1 < count) {toFinal : Bool}
    (hflag : toFinal = (c.isDeprecated n || (c.versionOf n).index + 2 == count)) :
    c.Stray n p ↔ toFinal = false ∧ c.isDeprecated p = true := by
  have hlatest := h.framed.isLatest_eq (Nat.lt_of_succ_lt hpublic)
  rw [hflag, Bool.or_eq_false_iff]
  constructor
  · rintro ⟨hbypassed, hlive, hearly⟩
    exact ⟨⟨hlive, hlatest ▸ hearly⟩, hbypassed⟩
  · rintro ⟨⟨hlive, hearly⟩, hbypassed⟩
    exact ⟨hbypassed, hlive, hlatest.trans hearly⟩

/-- Unless the nested type is stray, the enclosing message has a counterpart on the same way. -/
theorem enclosing_counterpart (hn : c.Has n) (hpublic : (c.versionOf n).index + 1 < count)
    (hp : c.enclosing n = some p) {toFinal : Bool} (hnot : ¬ (toFinal = false ∧ c.isDeprecated p))
    (hflag : toFinal = (c.isDeprecated n || (c.versionOf n).index + 2 == count)) :
    ∃ q, (if toFinal then (c.links p).final else (c.links p).next) = some q ∧
      c.versionOf q = if toFinal then ⟨count - 1⟩ else ⟨(c.versionOf n).index + 1⟩ := by
  obtain ⟨hkind, hhas, hversion⟩ := h.framed.wellFormed.enclosing_eq hn hp
  have hcoherent := h.coherent hhas (hversion ▸ hpublic)
  cases toFinal with
  | true =>
    obtain ⟨q, hq, -, -, hprivate⟩ := hcoherent.final_version h.framed
    exact ⟨q, hq, hprivate⟩
  | false =>
    -- neither is the message deprecated nor the version the latest one
    have hlive : c.isDeprecated p = false := by simpa using hnot
    obtain ⟨-, hnotLatest⟩ := Bool.or_eq_false_iff.mp hflag.symm
    have hsome : (c.links p).next.isSome := by
      rw [hcoherent.next_isSome, bypasses_of_message hkind, hversion,
        h.framed.isLatest_eq (Nat.lt_of_succ_lt hpublic)]
      exact ⟨hnotLatest, hlive⟩
    obtain ⟨q, hq⟩ := Option.isSome_iff_exists.mp hsome
    obtain ⟨-, hmem, -⟩ := hcoherent.next q hq
    exact ⟨q, hq, hversion ▸ ((h.framed.wellFormed.mem_nodesOf _ _).mp hmem).2⟩

/-- The message around a stray type has its only counterpart in the private version, which the stray
    type does not look in. -/
theorem stray_apart (hn : c.Has n) (hpublic : (c.versionOf n).index + 1 < count)
    (hp : c.enclosing n = some p) (hs : c.Stray n p) :
    (c.links p).next = none ∧
      ∀ q, (c.links p).Leads q → c.versionOf q ≠ ⟨(c.versionOf n).index + 1⟩ := by
  obtain ⟨hkind, hhas, hversion⟩ := h.framed.wellFormed.enclosing_eq hn hp
  have hcoherent := h.coherent hhas (hversion ▸ hpublic)
  have hnone : (c.links p).next = none := by
    rw [← Option.isNone_iff_eq_none, hcoherent.next_isNone h.framed (hversion ▸ hpublic),
      bypasses_of_message hkind, hs.bypassed, Bool.true_or]
  refine ⟨hnone, fun q hq hsame => ?_⟩
  obtain hnext | hfinal := hq
  · rw [hnone] at hnext
    cases hnext
  · obtain ⟨q', hq', -, -, hprivate⟩ := hcoherent.final_version h.framed
    obtain rfl : q = q' := Option.some.inj (hfinal.symm.trans hq')
    have hearly := hs.early
    rw [h.framed.isLatest_eq (Nat.lt_of_succ_lt hpublic), beq_eq_false_iff_ne] at hearly
    have hindex : count - 1 = (c.versionOf n).index + 1 :=
      congrArg VersionId.index (hprivate.symm.trans hsame)
    omega

end Linked

/-- **Nested types.** In a chain as it is built, every nested type of a public version has a direct
    counterpart, and that lies, by its name, in the counterpart that the enclosing message has in
    the same version, exactly if the type is not stray.  The enclosing message of a stray type has
    no counterpart there, and the type takes what has its bare name: if names tell what is nested, a
    type that no message encloses. -/
theorem resolvesInside_of_ofPackages {source : AnnotationSource} {privatePackage : String}
    {packages : List PackageSchema} (h : ofPackages source privatePackage packages = .ok c)
    {v : Version} (hv : v ∈ c.publicVersions) (hn : n ∈ c.nodesOf v.id)
    (hp : c.enclosing n = some p) :
    ∃ t, (c.links n).hop = some t ∧ t.kind = n.kind ∧
      (c.ResolvesInside n p t ↔ ¬ c.Stray n p) ∧
      (c.Stray n p → c.localNameOf t = c.soughtName n ∧
        ∀ q, (c.links p).Leads q → c.versionOf q ≠ c.versionOf t) ∧
      (c.Dotted → '.' ∉ (c.soughtName n).toList → ((c.enclosing t).isSome ↔ ¬ c.Stray n p)) := by
  have hlinked := linked_of_ofPackages h
  obtain ⟨hpublic, -⟩ := hlinked.framed.mem_publicVersions.mp hv
  obtain ⟨hhas, hversion⟩ := (hlinked.framed.wellFormed.mem_nodesOf v.id n).mp hn
  rw [← hversion] at hpublic
  obtain ⟨toFinal, hflag⟩ :
      ∃ b, b = (c.isDeprecated n || (c.versionOf n).index + 2 == c.versions.size) := ⟨_, rfl⟩
  obtain ⟨t, ht, hhast, hkind, htversion, hname⟩ := hlinked.type_found hhas hpublic hp hflag
  have hnested : t.kind = .message ∨ t.kind = .enumeration := by
    rw [hkind]
    cases n with
    | message m => exact .inl rfl
    | enumeration e => exact .inr rfl
    | value x | oneof o | field f | method r => cases hp
  refine ⟨t, ht, hkind, ?_⟩
  by_cases hs : c.Stray n p
  · -- the bare name is looked up in a version where the enclosing message has no counterpart
    obtain ⟨rfl, -⟩ := (hlinked.stray_iff hpublic hflag).mp hs
    obtain ⟨hnone, hapart⟩ := hlinked.stray_apart hhas hpublic hp hs
    have hbare : c.localNameOf t = c.soughtName n := by
      rw [hname, nestedTarget, if_neg Bool.false_ne_true, hnone]
      rfl
    have hother : ∀ q, (c.links p).Leads q → c.versionOf q ≠ c.versionOf t := fun q hq => by
      rw [htversion]
      exact hapart q hq
    refine ⟨iff_of_false ?_ (not_not_intro hs), fun _ => ⟨hbare, hother⟩, fun hdotted hplain => ?_⟩
    · rintro ⟨q, hq, hsame, -⟩
      exact hother q hq hsame
    · rw [hdotted.enclosing_isSome hhast hnested, hbare]
      exact iff_of_false hplain (not_not_intro hs)
  · obtain ⟨q, hq, hqversion⟩ := hlinked.enclosing_counterpart hhas hpublic hp
      (fun hboth => hs ((hlinked.stray_iff hpublic hflag).mpr hboth)) hflag
    have hinside : c.localNameOf t = c.localNameOf q ++ "." ++ c.soughtName n := by
      rw [hname, nestedTarget, hq]
      rfl
    have hleads : (c.links p).Leads q := by
      cases toFinal with
      | true => exact .inr hq
      | false => exact .inl hq
    refine ⟨iff_of_true ⟨q, hleads, hqversion.trans htversion.symm, hinside⟩ hs,
      fun hstray => absurd hstray hs, fun hdotted _ => ?_⟩
    rw [hdotted.enclosing_isSome hhast hnested, hinside]
    exact iff_of_true (by simp) hs

/-! ### A sample -/

/-- A message with one text field and the messages inside it. -/
def boxMessage (name : String) (nested : List MessageDescriptor := []) : MessageDescriptor :=
  { name, fields := [sampleField "text" "TYPE_STRING"], nested }

/-- A package of messages, with a service. -/
def boxFile (package : String) (messages : List MessageDescriptor) (locations : List Location) :
    FileDescriptor :=
  { name := package ++ ".proto", package, messages, services := [{ name := "Service" }], locations }

/-- A shell with a part, which are a case with a piece from the second version on, and a deprecated
    box with a lid; the second version has no box, but a lid of its own. -/
def boxPackages : List PackageSchema :=
  let lid := boxMessage "Lid"
  let caseOf := boxMessage "Case" [boxMessage "Piece"]
  let files := [
    boxFile "v1" [boxMessage "Shell" [boxMessage "Part"], boxMessage "Box" [lid]] [
      { path := [4, 0], leading := some "gen:svc delegate name=Case" },
      { path := [4, 0, 3, 0], leading := some "gen:svc delegate name=Piece" },
      { path := [4, 1], leading := some "gen:svc deprecated" }],
    boxFile "v2" [caseOf, lid] [],
    boxFile "private" [caseOf, boxMessage "Box" [lid], lid] []]
  ({ files : DescriptorSet }.packages.toOption).getD []

/-- The chain of the boxes. -/
def boxChain : Chain :=
  ((ofPackages AnnotationStyle.comments.source "private" boxPackages).toOption).getD {}

set_option maxRecDepth 10000 in
/-- What is checked of the sample by evaluation: 1 is the part in the shell, 3 the lid of the box, 6
    the lid of the second version. -/
theorem boxChain_checked :
    (ofPackages AnnotationStyle.comments.source "private" boxPackages).toOption = some boxChain ∧
    (∃ v ∈ boxChain.publicVersions,
      .message ⟨1⟩ ∈ boxChain.nodesOf v.id ∧ .message ⟨3⟩ ∈ boxChain.nodesOf v.id) ∧
    boxChain.enclosing (.message ⟨1⟩) = some (.message ⟨0⟩) ∧
    boxChain.enclosing (.message ⟨3⟩) = some (.message ⟨2⟩) ∧
    ¬ boxChain.Stray (.message ⟨1⟩) (.message ⟨0⟩) ∧ boxChain.Stray (.message ⟨3⟩) (.message ⟨2⟩) ∧
    boxChain.Dotted ∧ '.' ∉ (boxChain.soughtName (.message ⟨1⟩)).toList ∧
    (boxChain.links (.message ⟨3⟩)).hop = some (.message ⟨6⟩) ∧
    boxChain.enclosing (.message ⟨6⟩) = none := by decide +kernel

/-- The sample is built. -/
theorem ofPackages_boxPackages :
    ofPackages AnnotationStyle.comments.source "private" boxPackages = .ok boxChain :=
  toOption_eq_some.mp boxChain_checked.1

/-- The part in the shell resolves inside the case. -/
theorem resolvesInside_part : ∃ v : Version, ∃ t,
    ofPackages AnnotationStyle.comments.source "private" boxPackages = .ok boxChain ∧
      v ∈ boxChain.publicVersions ∧ .message ⟨1⟩ ∈ boxChain.nodesOf v.id ∧
      boxChain.enclosing (.message ⟨1⟩) = some (.message ⟨0⟩) ∧
      (boxChain.links (.message ⟨1⟩)).hop = some t ∧
      boxChain.ResolvesInside (.message ⟨1⟩) (.message ⟨0⟩) t ∧ (boxChain.enclosing t).isSome := by
  obtain ⟨-, ⟨v, hv, hn, -⟩, hp, -, hnot, -, hdotted, hplain, -⟩ := boxChain_checked
  obtain ⟨t, ht, -, hinside, -, hnested⟩ :=
    resolvesInside_of_ofPackages ofPackages_boxPackages hv hn hp
  exact ⟨v, t, ofPackages_boxPackages, hv, hn, hp, ht, hinside.mpr hnot,
    (hnested hdotted hplain).mpr hnot⟩

/-- **A nested type can stray.** The lid of the deprecated box becomes the lid of the second
    version, which no message encloses; the box has its only counterpart in the private version. -/
theorem not_resolvesInside_lid : ∃ v : Version, ∃ t,
    ofPackages AnnotationStyle.comments.source "private" boxPackages = .ok boxChain ∧
      v ∈ boxChain.publicVersions ∧ .message ⟨3⟩ ∈ boxChain.nodesOf v.id ∧
      boxChain.enclosing (.message ⟨3⟩) = some (.message ⟨2⟩) ∧
      (boxChain.links (.message ⟨3⟩)).hop = some t ∧
      ¬ boxChain.ResolvesInside (.message ⟨3⟩) (.message ⟨2⟩) t ∧ boxChain.enclosing t = none := by
  obtain ⟨-, ⟨v, hv, -, hn⟩, -, hp, -, hstray, -, -, ht, htop⟩ := boxChain_checked
  have hlinked := linked_of_ofPackages ofPackages_boxPackages
  obtain ⟨hhas, hversion⟩ := (hlinked.framed.wellFormed.mem_nodesOf v.id _).mp hn
  have hpublic := (hlinked.framed.mem_publicVersions.mp hv).1
  rw [← hversion] at hpublic
  refine ⟨v, _, ofPackages_boxPackages, hv, hn, hp, ht, ?_, htop⟩
  rintro ⟨q, hq, hsame, -⟩
  exact (hlinked.stray_apart hhas hpublic hp hstray).2 q hq (hsame.trans (by decide +kernel))

end Lineage.Chain
