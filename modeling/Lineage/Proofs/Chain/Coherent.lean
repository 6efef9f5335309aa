import Lineage.Annotation.Style
import Lineage.Proofs.Chain.Resolved
import Lineage.Schema.Ingest

namespace Lineage.Chain

/-!
# Coherent links

* `Coherent` — what the links of a public node lead to: the private version, the version that
  follows, the counterparts of the owners, the delegate's name,
* `Counterpart` — what one hop has found, `Counterpart.coherent` — that is enough to be coherent,
* `Linked.coherent` — every public node of a linked chain is coherent, the latest version first,
* `coherent_of_ofPackages` — so is every public node of a chain as it is built.
-/

variable {c : Chain} {count : Nat}

/-- Whether a node bypasses the version that follows: it is deprecated or, as a variant, its oneof
    is. -/
def bypasses (c : Chain) (n : Node) : Bool :=
  c.isDeprecated n || match n with
    | .field f => (c.field f).oneof.any fun o => (c.oneof o).deprecated
    | _ => false

/-- The kinds of nodes whose counterpart is looked up by its own name, inside what it belongs to. -/
def NamedKind (k : EntityKind) : Prop :=
  k = .field ∨ k = .oneof ∨ k = .enumValue ∨ k = .method

/-- What the links of a public node lead to. -/
structure Coherent (c : Chain) (n : Node) : Prop where
  /-- The private counterpart is a node of the same kind, of the private version. -/
  final : ∃ p, (c.links n).final = some p ∧ p.kind = n.kind ∧ p ∈ c.nodesOf (c.versionOf p) ∧
    (c.version (c.versionOf p)).isPrivate
  /-- There is a next counterpart unless the version is the latest one or the node bypasses. -/
  next_isSome : (c.links n).next.isSome ↔
    (c.version (c.versionOf n)).isLatest = false ∧ c.bypasses n = false
  /-- The next counterpart is a node of the same kind, of the version that follows, with the same
      private counterpart. -/
  next : ∀ t, (c.links n).next = some t → t.kind = n.kind ∧
    t ∈ c.nodesOf ⟨(c.versionOf n).index + 1⟩ ∧ (c.links t).final = (c.links n).final
  /-- The counterparts of a member lie in the counterparts of its owners. -/
  insideNext : ∀ o ∈ c.owners n, ∀ t, (c.links n).next = some t →
    ∃ o', (c.links o).next = some o' ∧ o' ∈ c.owners t
  insideFinal : ∀ o ∈ c.owners n, ∀ p, (c.links n).final = some p →
    ∃ o', (c.links o).final = some o' ∧ o' ∈ c.owners p
  /-- The direct counterpart has the delegate's name if there is one, else the node's own. -/
  named : NamedKind n.kind → ∀ t, (c.links n).hop = some t →
    c.nameOf t = (c.delegateOf n).getD (c.nameOf n)

/-- What one hop has found for a node: in the private version if it bypasses or its version is the
    latest one, else in the version that follows. -/
structure Counterpart (count : Nat) (c : Chain) (n : Node) (toFinal : Bool) (found : Node) :
    Prop where
  links : c.links n = linkTo toFinal found (c.links found).final
  bypass : toFinal = (c.bypasses n || (c.versionOf n).index + 2 == count)
  has : c.Has found
  kind : found.kind = n.kind
  version : c.versionOf found = if toFinal then ⟨count - 1⟩ else ⟨(c.versionOf n).index + 1⟩
  inside : ∀ o ∈ c.owners n,
    ∃ o' ∈ c.owners found, (if toFinal then (c.links o).final else (c.links o).next) = some o'
  named : NamedKind n.kind → c.nameOf found = (c.delegateOf n).getD (c.nameOf n)

/-- A hop to the private version: what it finds is the private counterpart, and there is no next
    one. -/
theorem Counterpart.coherent_of_final (h : c.Framed count) {n found : Node}
    (hc : Counterpart count c n true found) (hpublic : (c.versionOf n).index + 1 < count) :
    c.Coherent n := by
  have hlinks : c.links n = { next := none, final := some found } := hc.links
  have hversion : c.versionOf found = ⟨count - 1⟩ := hc.version
  constructor
  case final =>
    refine ⟨found, by rw [hlinks], hc.kind, (h.wellFormed.mem_nodesOf _ _).mpr ⟨hc.has, rfl⟩, ?_⟩
    rw [hversion, h.isPrivate_eq (show count - 1 < count by omega)]
    simpa using show count - 1 + 1 = count by omega
  case next_isSome =>
    rw [hlinks, h.isLatest_eq (Nat.lt_of_succ_lt hpublic)]
    rcases Bool.or_eq_true_iff.mp hc.bypass.symm with hb | hb <;> simp [hb]
  case next => simp [hlinks]
  case insideNext => simp [hlinks]
  case insideFinal =>
    intro o ho p hp
    obtain ⟨o', ho', hlink⟩ := hc.inside o ho
    rw [hlinks] at hp
    obtain rfl := Option.some.inj hp
    exact ⟨o', hlink, ho'⟩
  case named =>
    intro hnamed t ht
    rw [hlinks] at ht
    obtain rfl : found = t := Option.some.inj ht
    exact hc.named hnamed

/-- A hop to the version that follows: the private counterpart is that of what it finds. -/
theorem Counterpart.coherent_of_next (h : c.Framed count) {n found : Node}
    (hc : Counterpart count c n false found) (hpublic : (c.versionOf n).index + 1 < count)
    (howners : ∀ o ∈ c.owners n, c.Coherent o) (hfound : c.Coherent found) : c.Coherent n := by
  have hlinks : c.links n = { next := some found, final := (c.links found).final } := hc.links
  have hversion : c.versionOf found = ⟨(c.versionOf n).index + 1⟩ := hc.version
  obtain ⟨hbypass, hnotLast⟩ := Bool.or_eq_false_iff.mp hc.bypass.symm
  constructor
  case final =>
    obtain ⟨p, hp, hkind, hmem, hprivate⟩ := hfound.final
    exact ⟨p, by rw [hlinks, hp], hkind.trans hc.kind, hmem, hprivate⟩
  case next_isSome =>
    rw [hlinks, h.isLatest_eq (Nat.lt_of_succ_lt hpublic), hnotLast]
    simp [hbypass]
  case next =>
    intro t ht
    rw [hlinks] at ht
    obtain rfl := Option.some.inj ht
    exact ⟨hc.kind, (h.wellFormed.mem_nodesOf _ _).mpr ⟨hc.has, hversion⟩, by rw [hlinks]⟩
  case insideNext =>
    intro o ho t ht
    obtain ⟨o', ho', hlink⟩ := hc.inside o ho
    rw [hlinks] at ht
    obtain rfl := Option.some.inj ht
    exact ⟨o', hlink, ho'⟩
  case insideFinal =>
    -- from the owner by its next counterpart to the private one, as the node found does
    intro o ho p hp
    obtain ⟨o', ho', hlink⟩ := hc.inside o ho
    rw [hlinks] at hp
    obtain ⟨q, hq, hmem⟩ := hfound.insideFinal o' ho' p hp
    have hshared := ((howners o ho).next o' hlink).2.2
    exact ⟨q, by rw [← hshared, hq], hmem⟩
  case named =>
    intro hnamed t ht
    rw [hlinks] at ht
    obtain rfl : found = t := Option.some.inj ht
    exact hc.named hnamed

/-- **One hop.** A node is coherent if its owners and all nodes of later public versions are. -/
theorem Counterpart.coherent (h : c.Framed count) {n found : Node} {toFinal : Bool}
    (hc : Counterpart count c n toFinal found) (hpublic : (c.versionOf n).index + 1 < count)
    (howners : ∀ o ∈ c.owners n, c.Coherent o)
    (hlater : ∀ t, c.Has t → (c.versionOf n).index < (c.versionOf t).index →
      (c.versionOf t).index + 1 < count → c.Coherent t) : c.Coherent n := by
  cases toFinal with
  | true => exact hc.coherent_of_final h hpublic
  | false =>
    have hindex : (c.versionOf found).index = (c.versionOf n).index + 1 := by
      rw [hc.version]
      rfl
    -- the version that follows is public, or else the hop would have been to the private one
    have hlast := (Bool.or_eq_false_iff.mp hc.bypass.symm).2
    have hne : (c.versionOf n).index + 2 ≠ count := by simpa using hlast
    exact hc.coherent_of_next h hpublic howners (hlater found hc.has (by omega) (by omega))

/-! ### What each kind of node finds -/

/-- A hop leads to the private version for a node that bypasses or is of the latest version, else to
    the version that follows. -/
theorem Framed.hop_eq (h : c.Framed count) {v : VersionId} (hv : v.index + 1 < count)
    {bypass : Bool} {hop : Hop} (hhop : c.hopOf v bypass = some hop) :
    hop.isFinal = (bypass || v.index + 2 == count) ∧
      hop.version = if hop.isFinal then ⟨count - 1⟩ else ⟨v.index + 1⟩ := by
  rw [h.hopOf_public hv] at hhop
  obtain rfl := Option.some.inj hhop
  cases bypass || v.index + 2 == count <;> exact ⟨rfl, rfl⟩

namespace Linked

variable (h : c.Linked count)
include h

/-- A message of a public version has a counterpart. -/
theorem counterpart_message {m : MessageId} (hm : m.index < c.messages.size)
    (hpublic : (c.message m).version.index + 1 < count) :
    ∃ toFinal found, Counterpart count c (.message m) toFinal found := by
  obtain ⟨_, hl, hlinks⟩ := h.stable (.message m) hm hpublic
  obtain ⟨l, hl', rfl⟩ := map_eq_ok.mp hl
  obtain ⟨hnone, -⟩ | ⟨hop, found, hhop, hfind, rfl⟩ := messageLink_eq_ok.mp hl'
  · rw [h.framed.hopOf_public hpublic] at hnone
    cases hnone
  · obtain ⟨hflag, hversion⟩ := h.framed.hop_eq hpublic hhop
    obtain ⟨hlt, hfound, -⟩ := h.framed.wellFormed.findMessage_eq_some hfind
    refine ⟨hop.isFinal, .message found, hlinks.trans (linkTo_map _ _ _ _), ?_, hlt, rfl,
      hfound.trans hversion, by simp [owners], by simp [NamedKind, Node.kind]⟩
    simpa [bypasses, isDeprecated, versionOf] using hflag

/-- An enum of a public version has a counterpart. -/
theorem counterpart_enumeration {e : EnumId} (he : e.index < c.enums.size)
    (hpublic : (c.enumeration e).version.index + 1 < count) :
    ∃ toFinal found, Counterpart count c (.enumeration e) toFinal found := by
  obtain ⟨_, hl, hlinks⟩ := h.stable (.enumeration e) he hpublic
  obtain ⟨l, hl', rfl⟩ := map_eq_ok.mp hl
  obtain ⟨hnone, -⟩ | ⟨hop, found, hhop, hfind, rfl⟩ := enumLink_eq_ok.mp hl'
  · rw [h.framed.hopOf_public hpublic] at hnone
    cases hnone
  · obtain ⟨hflag, hversion⟩ := h.framed.hop_eq hpublic hhop
    obtain ⟨hlt, hfound, -⟩ := h.framed.wellFormed.findEnum_eq_some hfind
    refine ⟨hop.isFinal, .enumeration found, hlinks.trans (linkTo_map _ _ _ _), ?_, hlt, rfl,
      hfound.trans hversion, by simp [owners], by simp [NamedKind, Node.kind]⟩
    simpa [bypasses, isDeprecated, versionOf] using hflag

/-- A method of a public version has a counterpart. -/
theorem counterpart_method {r : MethodId} (hr : r.index < c.methods.size)
    (hpublic : (c.method r).version.index + 1 < count) :
    ∃ toFinal found, Counterpart count c (.method r) toFinal found := by
  obtain ⟨_, hl, hlinks⟩ := h.stable (.method r) hr hpublic
  obtain ⟨l, hl', rfl⟩ := map_eq_ok.mp hl
  obtain ⟨hnone, -⟩ | ⟨hop, found, hhop, hfind, rfl⟩ := methodLink_eq_ok.mp hl'
  · rw [h.framed.hopOf_public hpublic] at hnone
    cases hnone
  · obtain ⟨hflag, hversion⟩ := h.framed.hop_eq hpublic hhop
    obtain ⟨hlt, hfound, hname⟩ := h.framed.wellFormed.findMethod_eq_some hfind
    refine ⟨hop.isFinal, .method found, hlinks.trans (linkTo_map _ _ _ _), ?_, hlt, rfl,
      hfound.trans hversion, by simp [owners], fun _ => hname⟩
    simpa [bypasses, isDeprecated, versionOf] using hflag

end Linked

/-! ### What members find

Members look in the counterpart of their owner, so what they find lies in it. -/

/-- A coherent node has a private counterpart of its kind. -/
theorem Coherent.final_version {n : Node} (hc : c.Coherent n) (h : c.Framed count) :
    ∃ p, (c.links n).final = some p ∧ p.kind = n.kind ∧ c.Has p ∧ c.versionOf p = ⟨count - 1⟩ := by
  obtain ⟨p, hp, hkind, hmem, hprivate⟩ := hc.final
  obtain ⟨hhas, -⟩ := (h.wellFormed.mem_nodesOf _ _).mp hmem
  refine ⟨p, hp, hkind, hhas, VersionId.ext ?_⟩
  have hlt := h.versionOf_lt hhas
  rw [h.isPrivate_eq hlt, beq_iff_eq] at hprivate
  show (c.versionOf p).index = count - 1
  omega

/-- **The counterpart of an owner.** The counterpart in which a member looks is the private one if
    the member bypasses or its version is the latest one, else the next one. -/
theorem Coherent.target {o : Node} (hc : c.Coherent o) (h : c.Framed count)
    (hpublic : (c.versionOf o).index + 1 < count) (bypass : Bool)
    (hinherit : c.bypasses o → bypass) {toFinal : Bool}
    (hflag : toFinal = (bypass || (c.versionOf o).index + 2 == count)) :
    ∃ t, (if bypass then (c.links o).final else (c.links o).hop) = some t ∧
      (if toFinal then (c.links o).final else (c.links o).next) = some t ∧
      t.kind = o.kind ∧ c.Has t ∧
      c.versionOf t = if toFinal then ⟨count - 1⟩ else ⟨(c.versionOf o).index + 1⟩ := by
  have hlatest : (c.version (c.versionOf o)).isLatest = ((c.versionOf o).index + 2 == count) :=
    h.isLatest_eq (Nat.lt_of_succ_lt hpublic)
  obtain ⟨p, hp, hkind, hhas, hversion⟩ := hc.final_version h
  -- what does not bypass looks in the next counterpart, which there is but in the latest version
  cases hb : bypass with
  | true =>
    rw [hb, Bool.true_or] at hflag
    exact ⟨p, by simpa using hp, by simpa [hflag] using hp, hkind,
      hhas, by simpa [hflag] using hversion⟩
  | false =>
    have hnot : c.bypasses o = false :=
      Bool.eq_false_iff.mpr fun hbypass => by simpa [hb] using hinherit hbypass
    rw [hb, Bool.false_or] at hflag
    cases hl : ((c.versionOf o).index + 2 == count) with
    | true =>
      rw [hl] at hflag hlatest
      have hnone : (c.links o).next = none := by
        rw [← Option.not_isSome_iff_eq_none, hc.next_isSome, hlatest]
        simp
      exact ⟨p, by simpa [Link.hop, hnone] using hp, by simpa [hflag] using hp, hkind, hhas,
        by simpa [hflag] using hversion⟩
    | false =>
      rw [hl] at hflag hlatest
      obtain ⟨t, ht⟩ := Option.isSome_iff_exists.mp (hc.next_isSome.mpr ⟨hlatest, hnot⟩)
      obtain ⟨hkind, hmem, -⟩ := hc.next t ht
      obtain ⟨hhas, hversion⟩ := (h.wellFormed.mem_nodesOf _ _).mp hmem
      exact ⟨t, by simp [Link.hop, ht], by simp [hflag, ht], hkind, hhas,
        by simp [hflag, hversion]⟩

/-- A node has no next counterpart if it bypasses or its version is the latest one. -/
theorem Coherent.next_isNone {o : Node} (hc : c.Coherent o) (h : c.Framed count)
    (hpublic : (c.versionOf o).index + 1 < count) :
    (c.links o).next.isNone = (c.bypasses o || (c.versionOf o).index + 2 == count) := by
  have hnext := hc.next_isSome
  rw [h.isLatest_eq (Nat.lt_of_succ_lt hpublic)] at hnext
  rw [← Option.not_isSome, Bool.eq_iff_iff, Bool.not_eq_true', Bool.eq_false_iff, ne_eq, hnext]
  cases c.bypasses o <;> simp

/-- The counterparts of a member lie in the counterparts of its owners, on both ways. -/
theorem Coherent.inside {n t : Node} (hc : c.Coherent n) (o : Node) (ho : o ∈ c.owners n)
    {toFinal : Bool}
    (ht : (if toFinal then (c.links n).final else (c.links n).next) = some t) :
    ∃ o' ∈ c.owners t, (if toFinal then (c.links o).final else (c.links o).next) = some o' := by
  cases toFinal with
  | true =>
    obtain ⟨o', hlink, ho'⟩ := hc.insideFinal o ho t ht
    exact ⟨o', ho', hlink⟩
  | false =>
    obtain ⟨o', hlink, ho'⟩ := hc.insideNext o ho t ht
    exact ⟨o', ho', hlink⟩

namespace Linked

variable (h : c.Linked count)
include h

/-- A value of a public version has a counterpart if its enum is coherent. -/
theorem counterpart_value {x : ValueId} (hx : x.index < c.values.size)
    (hpublic : (c.versionOf (.value x)).index + 1 < count)
    (howner : c.Coherent (.enumeration (c.value x).enumeration)) :
    ∃ toFinal found, Counterpart count c (.value x) toFinal found := by
  have hinherit := h.framed.value_deprecated hx
  obtain ⟨t, -, ht, hkind, hhas, hversion⟩ := howner.target h.framed hpublic
    (c.value x).deprecated (by simpa [bypasses, isDeprecated] using hinherit) rfl
  obtain ⟨e, rfl⟩ : ∃ e, t = .enumeration e := by cases t <;> simp_all [Node.kind]
  -- the value's own test whether it looks in the private enum comes to the same
  have hbypass : c.valueBypasses (c.value x) = ((c.value x).deprecated ||
      (c.versionOf (.enumeration (c.value x).enumeration)).index + 2 == count) := by
    have hnone := howner.next_isNone h.framed hpublic
    simp only [links, Link.map_next, Option.isNone_map, bypasses, isDeprecated, Bool.or_false]
      at hnone
    rw [valueBypasses, hnone, ← Bool.or_assoc]
    congr 1
    cases hd : (c.value x).deprecated with
    | true => rfl
    | false => simpa [hd] using hinherit
  rw [← hbypass] at ht hversion
  have htarget : c.valueTarget (c.value x) = some e := by
    rw [valueTarget]
    split at ht <;> rename_i hb <;> simp only [hb, if_true] <;> simpa [links] using ht
  obtain ⟨_, hl, hlinks⟩ := h.stable (.value x) hx hpublic
  obtain ⟨l, hl', rfl⟩ := map_eq_ok.mp hl
  obtain ⟨hnone, -⟩ | ⟨e', found, hfrom, hfind, rfl⟩ := valueLink_eq_ok.mp hl'
  · rw [htarget] at hnone
    cases hnone
  · obtain rfl : e = e' := Option.some.inj (htarget.symm.trans hfrom)
    obtain ⟨hlt, hfound, hname⟩ := h.framed.wellFormed.findValue_eq_some hfind
    refine ⟨c.valueBypasses (c.value x), .value found, hlinks.trans (linkTo_map _ _ _ _), ?_, hlt,
      rfl, ?_, ?_, fun _ => hname⟩
    · simpa [bypasses, isDeprecated, versionOf] using hbypass
    · rw [versionOf, hfound]
      exact hversion
    · intro o ho
      obtain rfl := List.mem_singleton.mp ho
      exact ⟨.enumeration e, by simp [owners, hfound], ht⟩

/-- A version is recognised as the private one exactly if it is. -/
theorem version_beq_finalVersion {m : MessageId} (hpublic : (c.message m).version.index + 1 < count)
    {bypass toFinal : Bool} (hflag : toFinal = (bypass || (c.message m).version.index + 2 == count))
    {v : VersionId}
    (hv : v = if toFinal then ⟨count - 1⟩ else ⟨(c.message m).version.index + 1⟩) :
    (v == c.finalVersion m) = toFinal := by
  have hfinal : c.finalVersion m = ⟨count - 1⟩ := by
    rw [finalVersion, h.framed.link_public hpublic]
    rfl
  rw [hv, hfinal]
  cases toFinal with
  | true => simp
  | false =>
    have hlast := (Bool.or_eq_false_iff.mp hflag.symm).2
    have hne : (c.message m).version.index + 2 ≠ count := by simpa using hlast
    have hbefore : (c.message m).version.index + 1 ≠ count - 1 := by omega
    simpa using hbefore

/-- What a member of a message looks in. -/
theorem member_target {m : MessageId} (hpublic : (c.message m).version.index + 1 < count)
    (howner : c.Coherent (.message m)) (bypass : Bool)
    (hinherit : (c.message m).deprecated → bypass) {toFinal : Bool}
    (hflag : toFinal = (bypass || (c.message m).version.index + 2 == count)) :
    ∃ t, c.memberTarget m bypass = some t ∧
      (if toFinal then (c.links (.message m)).final else (c.links (.message m)).next)
        = some (.message t) ∧
      (c.message t).version
        = if toFinal then ⟨count - 1⟩ else ⟨(c.message m).version.index + 1⟩ := by
  obtain ⟨t, htarget, ht, hkind, hhas, hversion⟩ := howner.target h.framed hpublic bypass
    (by simpa [bypasses, isDeprecated] using hinherit) hflag
  obtain ⟨t, rfl⟩ : ∃ m, t = .message m := by cases t <;> simp_all [Node.kind]
  refine ⟨t, ?_, ht, hversion⟩
  rw [memberTarget]
  split at htarget <;> rename_i hb <;> simp only [hb, if_true] <;> simpa [links] using htarget

/-- A oneof of a public version has a counterpart if its message is coherent. -/
theorem counterpart_oneof {o : OneofId} (ho : o.index < c.oneofs.size)
    (hpublic : (c.versionOf (.oneof o)).index + 1 < count)
    (howner : c.Coherent (.message (c.oneof o).message)) :
    ∃ toFinal found, Counterpart count c (.oneof o) toFinal found := by
  obtain ⟨t, htarget, ht, hversion⟩ := h.member_target hpublic howner
    (c.oneof o).deprecated (h.framed.oneof_deprecated ho) rfl
  obtain ⟨_, hl, hlinks⟩ := h.stable (.oneof o) ho hpublic
  obtain ⟨l, hl', rfl⟩ := map_eq_ok.mp hl
  obtain ⟨hnone, -⟩ | ⟨t', found, hfrom, hfind, rfl⟩ := oneofLink_eq_ok.mp hl'
  · rw [htarget] at hnone
    cases hnone
  · obtain rfl : t = t' := Option.some.inj (htarget.symm.trans hfrom)
    obtain ⟨hlt, hfound, hname⟩ := h.framed.wellFormed.findOneof_eq_some hfind
    rw [h.version_beq_finalVersion hpublic rfl hversion] at hlinks
    refine ⟨_, .oneof found, hlinks.trans (linkTo_map _ _ _ _), ?_, hlt, rfl, ?_, ?_,
      fun _ => hname⟩
    · simp [bypasses, isDeprecated, versionOf]
    · rw [versionOf, hfound]
      exact hversion
    · intro m hm
      obtain rfl := List.mem_singleton.mp hm
      exact ⟨.message t, by simp [owners, hfound], ht⟩

/-- A plain field of a public version has a counterpart if its message is coherent. -/
theorem counterpart_plain {f : FieldId} (hf : f.index < c.fields.size)
    (hpublic : (c.versionOf (.field f)).index + 1 < count) (hplain : (c.field f).oneof = none)
    (howner : c.Coherent (.message (c.field f).message)) :
    ∃ toFinal found, Counterpart count c (.field f) toFinal found := by
  obtain ⟨t, htarget, ht, hversion⟩ := h.member_target hpublic howner
    (c.field f).deprecated (h.framed.field_deprecated hf) rfl
  obtain ⟨_, hl, hlinks⟩ := h.stable (.field f) hf hpublic
  obtain ⟨found, hl', rfl⟩ := map_eq_ok.mp hl
  obtain ⟨hnone, -⟩ | ⟨t', found, hfrom, hfind, rfl⟩ := (fieldTarget_plain_eq_ok hplain).mp hl'
  · rw [htarget] at hnone
    cases hnone
  · obtain rfl : t = t' := Option.some.inj (htarget.symm.trans hfrom)
    obtain ⟨hlt, hfound, hname⟩ := h.framed.wellFormed.findField_eq_some hfind
    rw [Option.map_some, Option.getD_some, fieldLink, hfound,
      h.version_beq_finalVersion hpublic rfl hversion] at hlinks
    refine ⟨_, .field found, hlinks.trans (linkTo_map _ _ _ _), ?_, hlt, rfl, ?_, ?_,
      fun _ => hname⟩
    · simp [bypasses, isDeprecated, versionOf, hplain]
    · rw [versionOf, hfound]
      exact hversion
    · intro m hm
      obtain rfl : m = .message (c.field f).message := by simpa [owners, hplain] using hm
      exact ⟨.message t, by simp [owners, hfound], ht⟩

/-- What a variant looks in. -/
theorem variant_target {f : FieldId} {o : OneofId}
    (hpublic : (c.versionOf (.oneof o)).index + 1 < count) (howner : c.Coherent (.oneof o))
    {toFinal : Bool} (hflag : toFinal = (((c.field f).deprecated || (c.oneof o).deprecated) ||
      (c.versionOf (.oneof o)).index + 2 == count)) :
    ∃ t, t.index < c.oneofs.size ∧ c.variantTarget (c.field f) o = some t ∧
      (if toFinal then (c.links (.oneof o)).final else (c.links (.oneof o)).next)
        = some (.oneof t) ∧
      c.versionOf (.oneof t)
        = if toFinal then ⟨count - 1⟩ else ⟨(c.versionOf (.oneof o)).index + 1⟩ := by
  obtain ⟨t, htarget, ht, hkind, hhas, hversion⟩ := howner.target h.framed hpublic
    ((c.field f).deprecated || (c.oneof o).deprecated)
    (by simpa [bypasses, isDeprecated] using Or.inr) hflag
  obtain ⟨t, rfl⟩ : ∃ x, t = .oneof x := by cases t <;> simp_all [Node.kind]
  refine ⟨t, hhas, ?_, ht, hversion⟩
  rw [variantTarget]
  cases hd : (c.oneof o).deprecated with
  | true =>
    -- a deprecated oneof has no next counterpart, so that the hop of the oneof is a bypass
    have hnone := howner.next_isNone h.framed hpublic
    simp only [bypasses, isDeprecated, hd, Bool.true_or, Option.isNone_iff_eq_none] at hnone
    simp only [hd, Bool.or_true, if_true] at htarget
    have hhop : (c.links (.oneof o)).hop = some (.oneof t) := by
      rw [Link.hop, hnone, Option.none_or, htarget]
    simpa [links] using hhop
  | false =>
    rw [hd, Bool.or_false] at htarget
    split at htarget <;> rename_i hb <;> simp only [hb] <;> simpa [links] using htarget

/-- A variant of a public version has a counterpart if its oneof is coherent. -/
theorem counterpart_variant {f : FieldId} {o : OneofId} (hf : f.index < c.fields.size)
    (hpublic : (c.versionOf (.field f)).index + 1 < count) (hvariant : (c.field f).oneof = some o)
    (howner : c.Coherent (.oneof o)) :
    ∃ toFinal found, Counterpart count c (.field f) toFinal found := by
  have hwf := h.framed.wellFormed
  have ho := hwf.field_oneof_lt hf hvariant
  have hmessage := hwf.oneof_message_eq hf hvariant
  have hsame : c.versionOf (.oneof o) = c.versionOf (.field f) := by
    rw [versionOf, hmessage, versionOf]
  obtain ⟨t, hhas, htarget, ht, hversion⟩ :=
    h.variant_target (f := f) (by rwa [hsame]) howner rfl
  obtain ⟨_, hl, hlinks⟩ := h.stable (.field f) hf hpublic
  obtain ⟨found, hl', rfl⟩ := map_eq_ok.mp hl
  obtain ⟨hnone, -⟩ | ⟨t', found, hfrom, hfind, rfl⟩ := (fieldTarget_variant_eq_ok hvariant).mp hl'
  · rw [htarget] at hnone
    cases hnone
  · obtain rfl : t = t' := Option.some.inj (htarget.symm.trans hfrom)
    obtain ⟨hlt, hfound, hname⟩ := hwf.findVariant_eq_some hfind
    have hfoundMessage := hwf.oneof_message_eq hlt hfound
    rw [versionOf, hfoundMessage, hsame] at hversion
    rw [hsame] at ht
    rw [Option.map_some, Option.getD_some, fieldLink,
      h.version_beq_finalVersion hpublic rfl hversion] at hlinks
    refine ⟨_, .field found, hlinks.trans (linkTo_map _ _ _ _), ?_, hlt, rfl, hversion, ?_,
      fun _ => hname⟩
    · simp [bypasses, isDeprecated, versionOf, hvariant]
    · -- the message's counterpart is that of the message of the oneof
      intro x hx
      obtain rfl | rfl : x = .message (c.field f).message ∨ x = .oneof o := by
        simpa [owners, hvariant] using hx
      · obtain ⟨o', ho', hlink⟩ := howner.inside (.message (c.field f).message)
          (by simp [owners, hmessage]) ht
        obtain rfl : o' = .message (c.field found).message := by
          simpa [owners, hfoundMessage] using ho'
        exact ⟨_, by simp [owners], hlink⟩
      · exact ⟨.oneof t, by simp [owners, hfound], ht⟩

omit h in
/-- An owner of an owner is a message, which has no owner. -/
theorem owners_owner {n o m : Node} (ho : o ∈ c.owners n) (hm : m ∈ c.owners o) :
    c.owners m = [] := by
  cases o with
  | message _ | enumeration _ | method _ => simp [owners] at hm
  | oneof x =>
    obtain rfl := List.mem_singleton.mp hm
    rfl
  | value x =>
    obtain rfl := List.mem_singleton.mp hm
    rfl
  | field f => cases n <;> simp [owners] at ho

/-- A node finds a counterpart if its owners are coherent. -/
theorem counterpart {n : Node} (hn : c.Has n) (hpublic : (c.versionOf n).index + 1 < count)
    (howners : ∀ o ∈ c.owners n, c.Coherent o) :
    ∃ toFinal found, Counterpart count c n toFinal found := by
  cases n with
  | message m => exact h.counterpart_message hn hpublic
  | enumeration e => exact h.counterpart_enumeration hn hpublic
  | value x => exact h.counterpart_value hn hpublic (howners _ (by simp [owners]))
  | oneof o => exact h.counterpart_oneof hn hpublic (howners _ (by simp [owners]))
  | field f =>
    cases hf : (c.field f).oneof with
    | none => exact h.counterpart_plain hn hpublic hf (howners _ (by simp [owners]))
    | some o => exact h.counterpart_variant hn hpublic hf (howners _ (by simp [owners, hf]))
  | method r => exact h.counterpart_method hn hpublic

/-- **Coherence.** Every node of a public version is coherent. -/
theorem coherent {n : Node} (hn : c.Has n) (hpublic : (c.versionOf n).index + 1 < count) :
    c.Coherent n := by
  -- by the distance to the last version, and inside a version from owners to members
  induction hd : count - (c.versionOf n).index using Nat.strongRecOn generalizing n with
  | ind d ih =>
    have hlater : ∀ t, c.Has t → (c.versionOf n).index < (c.versionOf t).index →
        (c.versionOf t).index + 1 < count → c.Coherent t := fun t ht hlt htp =>
      ih _ (by omega) ht htp rfl
    have hstep : ∀ m, c.Has m → c.versionOf m = c.versionOf n →
        (∀ o ∈ c.owners m, c.Coherent o) → c.Coherent m := fun m hm hv howners => by
      obtain ⟨toFinal, found, hc⟩ := h.counterpart hm (hv ▸ hpublic) howners
      exact hc.coherent h.framed (hv ▸ hpublic) howners (hv ▸ hlater)
    have hwf := h.framed.wellFormed
    refine hstep n hn rfl fun o ho => ?_
    obtain ⟨hhas, hv⟩ := hwf.has_owner hn ho
    refine hstep o hhas hv fun m hm => ?_
    obtain ⟨hhas', hv'⟩ := hwf.has_owner hhas hm
    refine hstep m hhas' (hv'.trans hv) ?_
    simp [owners_owner ho hm]

end Linked

/-- **Links of built chains are coherent.** In a chain as it is built, every node of every public
    version is coherent. -/
theorem coherent_of_ofPackages {source : AnnotationSource} {privatePackage : String}
    {packages : List PackageSchema} (h : ofPackages source privatePackage packages = .ok c)
    {v : Version} (hv : v ∈ c.publicVersions) {n : Node} (hn : n ∈ c.nodesOf v.id) :
    c.Coherent n := by
  have hlinked := linked_of_ofPackages h
  obtain ⟨hpublic, -⟩ := hlinked.framed.mem_publicVersions.mp hv
  obtain ⟨hhas, hversion⟩ := (hlinked.framed.wellFormed.mem_nodesOf v.id n).mp hn
  exact hlinked.coherent hhas (by rwa [hversion])

/-! ### A sample -/

/-- A field of a type. -/
def sampleField (name type : String) (typeName : Option String := none)
    (oneofIndex : Option Int := none) : FieldDescriptor :=
  { name, number := some 1, type, typeName, oneofIndex }

/-- A package with a service of one method. -/
def sampleFile (package : String) : FileDescriptor :=
  { name := package ++ ".proto"
    package
    messages := [
      { name := "Request"
        fields := [
          sampleField "id" "TYPE_STRING",
          sampleField "part" "TYPE_MESSAGE" (package ++ ".Part"),
          sampleField "left" "TYPE_INT32" none (some 0)]
        oneofs := [{ name := "choice" }] },
      { name := "Part", fields := [sampleField "kind" "TYPE_ENUM" (package ++ ".Kind")] },
      { name := "Response", fields := [sampleField "id" "TYPE_STRING"] }]
    enums := [{ name := "Kind", values := [{ name := "NONE", number := some 0 }] }]
    services := [{
      name := "Service"
      methods := [{
        name := "Get"
        inputType := package ++ ".Request"
        outputType := package ++ ".Response" }] }] }

/-- Two public versions and the private one. -/
def sampleSet : DescriptorSet := { files := ["v1", "v2", "private"].map sampleFile }

/-- The chain of the sample, if it is built. -/
def sampleChain : Except ChainError Chain :=
  match sampleSet.packages with
  | .ok packages => ofPackages AnnotationStyle.comments.source "private" packages
  | .error _ => .error (.emptyChain "")

set_option maxRecDepth 10000 in
/-- A variant in the first version of the sample. -/
theorem coherent_sample : ∃ packages c, ∃ v : Version,
    ofPackages AnnotationStyle.comments.source "private" packages = .ok c ∧
      v ∈ c.publicVersions ∧ .field ⟨2⟩ ∈ c.nodesOf v.id ∧ c.Coherent (.field ⟨2⟩) := by
  have hok : sampleChain.toOption.any (fun c => c.publicVersions.any fun v =>
      v.id == ⟨0⟩ && (c.nodesOf v.id).contains (.field ⟨2⟩)) = true := by decide +kernel
  obtain ⟨c, hc, hchecked⟩ := exists_of_toOption_any hok
  simp only [List.any_eq_true, Bool.and_eq_true, List.contains_iff_mem] at hchecked
  obtain ⟨v, hv, -, hn⟩ := hchecked
  unfold sampleChain at hc
  split at hc
  · exact ⟨_, c, v, hc, hv, hn, coherent_of_ofPackages hc hv hn⟩
  · cases hc

end Lineage.Chain
