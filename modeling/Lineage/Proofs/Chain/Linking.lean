import Lineage.Proofs.Chain.Node

namespace Lineage

/-!
# The links of one node

* `messageLink_eq_ok`, `valueLink_eq_ok`, … — when a node of a kind gets its links, and which,
* `Chain.linkOf` — the links that a node of any kind gets,
* `Chain.Forward` — links lead to later versions; `linkOf_found` — new links do so too,
* `Chain.linkOf_transfer` — the links of a node depend on those of its owners, of the message that
  encloses it and of later versions only.
-/

/-- One of the counterparts is a given one. -/
def Link.Leads {α : Type} (l : Link α) (t : α) : Prop := l.next = some t ∨ l.final = some t

/-- A link leads to the counterpart across the hop. -/
theorem Link.leads_of_hop {α : Type} {l : Link α} {t : α} (h : l.hop = some t) : l.Leads t := by
  rcases Option.or_eq_some_iff.mp h with hnext | ⟨-, hfinal⟩
  · exact .inl hnext
  · exact .inr hfinal

/-- A link that is carried over leads to what is carried over. -/
theorem Link.leads_map {α β : Type} (f : α → β) {l : Link α} {t : α} (h : l.Leads t) :
    (l.map f).Leads (f t) := by
  rcases h with h | h
  · exact .inl (by rw [Link.map_next, h, Option.map_some])
  · exact .inr (by rw [Link.map_final, h, Option.map_some])

/-- Links that are carried over to the same link are the same. -/
theorem Link.map_inj {α β : Type} {f : α → β} (hf : ∀ a b, f a = f b → a = b) {l l' : Link α}
    (h : l.map f = l'.map f) : l = l' := by
  have hinj : Function.Injective (Option.map f) := Option.map_injective fun a b => hf a b
  cases l
  cases l'
  rw [Link.map, Link.map, Link.mk.injEq] at h
  rw [Link.mk.injEq]
  exact ⟨hinj h.1, hinj h.2⟩

namespace Chain

variable {c c' : Chain}

/-! ### What is looked up -/

/-- A look-up succeeds with what was found. -/
theorem orMissing_eq_ok {α : Type} {found : Option α} {e : Missing → ChainError} {m : Missing}
    {a : α} : orMissing found e m = .ok a ↔ found = some a := by
  cases found <;> simp [orMissing]

/-- A link that comes out of a map has been there before it. -/
theorem map_map_eq_ok_some {α β : Type} {r : Except ChainError (Option α)} {f : α → β} {b : β} :
    r.map (Option.map f) = .ok (some b) ↔ ∃ a, r = .ok (some a) ∧ f a = b := by
  simp only [map_eq_ok, Option.map_eq_some_iff]
  constructor
  · rintro ⟨_, hr, a, rfl, rfl⟩
    exact ⟨a, hr, rfl⟩
  · rintro ⟨a, hr, rfl⟩
    exact ⟨some a, hr, a, rfl, rfl⟩

/-- A look-up in a target, if there is one, that must succeed. -/
theorem lookUp_eq_ok {α β γ : Type} {r : Except ChainError (Option γ)} {target : Option α}
    {find : α → Option β} {result : α → β → γ} {l : Option γ}
    (hnone : target = none → r = .ok none)
    (hsome : ∀ t, target = some t → ∃ error missing,
      r = orMissing (find t) error missing >>= fun found => .ok (some (result t found))) :
    r = .ok l ↔ (target = none ∧ l = none) ∨
      ∃ t found, target = some t ∧ find t = some found ∧ l = some (result t found) := by
  cases target with
  | none => simp [hnone rfl, eq_comm]
  | some t =>
    obtain ⟨error, missing, rfl⟩ := hsome t rfl
    simp only [bind_eq_ok, orMissing_eq_ok, Except.ok.injEq, reduceCtorEq, false_and, false_or,
      Option.some.injEq]
    constructor
    · rintro ⟨found, hfound, rfl⟩
      exact ⟨t, found, rfl, hfound, rfl⟩
    · rintro ⟨_, found, rfl, hfound, rfl⟩
      exact ⟨found, hfound, rfl⟩

/-- A new link leads to what was found, or to its private counterpart. -/
theorem linkTo_leads {α : Type} {toFinal : Bool} {found t : α} {final : Option α}
    (h : (linkTo toFinal found final).Leads t) : t = found ∨ final = some t := by
  cases toFinal with
  | false => simpa [linkTo, Link.Leads, eq_comm] using h
  | true => exact .inl (by simpa [linkTo, Link.Leads, eq_comm] using h)

@[simp] theorem linkTo_map {α β : Type} (f : α → β) (toFinal : Bool) (found : α)
    (final : Option α) : (linkTo toFinal found final).map f
      = linkTo toFinal (f found) (final.map f) := by
  cases toFinal <;> rfl

section
variable {m : Message} {e : Enum} {x : EnumValue} {o : Oneof} {f : Field} {r : Method}

/-- A message gets its links by a hop and what is found there. -/
theorem messageLink_eq_ok {l : Option (Link MessageId)} :
    c.messageLink m = .ok l ↔ (c.hopOf m.version m.deprecated = none ∧ l = none) ∨
      ∃ hop found, c.hopOf m.version m.deprecated = some hop ∧
        c.findMessage hop.version (c.targetName m.parent m.name m.delegate hop) = some found ∧
        l = some (linkTo hop.isFinal found (c.message found).link.final) := by
  refine lookUp_eq_ok (fun h => ?_) fun t h => ⟨_, _, by rw [messageLink, h]; rfl⟩
  rw [messageLink, h]

/-- An enum gets its links by a hop and what is found there. -/
theorem enumLink_eq_ok {l : Option (Link EnumId)} :
    c.enumLink e = .ok l ↔ (c.hopOf e.version e.deprecated = none ∧ l = none) ∨
      ∃ hop found, c.hopOf e.version e.deprecated = some hop ∧
        c.findEnum hop.version (c.targetName e.parent e.name e.delegate hop) = some found ∧
        l = some (linkTo hop.isFinal found (c.enumeration found).link.final) := by
  refine lookUp_eq_ok (fun h => ?_) fun t h => ⟨_, _, by rw [enumLink, h]; rfl⟩
  rw [enumLink, h]

/-- A method gets its links by a hop and what is found there. -/
theorem methodLink_eq_ok {l : Option (Link MethodId)} :
    c.methodLink r = .ok l ↔ (c.hopOf r.version r.deprecated = none ∧ l = none) ∨
      ∃ hop found, c.hopOf r.version r.deprecated = some hop ∧
        c.findMethod hop.version (r.delegate.getD r.name) = some found ∧
        l = some (linkTo hop.isFinal found (c.method found).link.final) := by
  refine lookUp_eq_ok (fun h => ?_) fun t h => ⟨_, _, by rw [methodLink, h]; rfl⟩
  rw [methodLink, h]

/-- Whether a value looks in the private counterpart of its enum. -/
def valueBypasses (c : Chain) (x : EnumValue) : Bool :=
  x.deprecated || (c.enumeration x.enumeration).link.next.isNone

/-- The enum in which a value looks. -/
def valueTarget (c : Chain) (x : EnumValue) : Option EnumId :=
  if c.valueBypasses x then (c.enumeration x.enumeration).link.final
  else (c.enumeration x.enumeration).link.next

/-- A value gets its links from the counterpart of its enum. -/
theorem valueLink_eq_ok {l : Option (Link ValueId)} :
    c.valueLink x = .ok l ↔ (c.valueTarget x = none ∧ l = none) ∨
      ∃ target found, c.valueTarget x = some target ∧
        c.findValue target (x.delegate.getD x.name) = some found ∧
        l = some (linkTo (c.valueBypasses x) found (c.value found).link.final) := by
  have hlook : (if x.deprecated || (c.enumeration x.enumeration).link.next.isNone then
      (c.enumeration x.enumeration).link.final else (c.enumeration x.enumeration).link.next)
      = c.valueTarget x := rfl
  refine lookUp_eq_ok (fun h => ?_) fun t h => ⟨_, _, by rw [valueLink, hlook, h]; rfl⟩
  rw [valueLink, hlook, h]

/-- A oneof gets its links from the counterpart of its message. -/
theorem oneofLink_eq_ok {l : Option (Link OneofId)} :
    c.oneofLink o = .ok l ↔ (c.memberTarget o.message o.deprecated = none ∧ l = none) ∨
      ∃ target found, c.memberTarget o.message o.deprecated = some target ∧
        c.findOneof target (o.delegate.getD o.name) = some found ∧
        l = some (linkTo ((c.message target).version == c.finalVersion o.message) found
          (c.oneof found).link.final) := by
  refine lookUp_eq_ok (fun h => ?_) fun t h => ⟨_, _, by rw [oneofLink, h]; rfl⟩
  rw [oneofLink, h]

/-- A plain field finds its counterpart in that of its message. -/
theorem fieldTarget_plain_eq_ok (hplain : f.oneof = none) {found : Option FieldId} :
    c.fieldTarget f = .ok found ↔
      (c.memberTarget f.message f.deprecated = none ∧ found = none) ∨
      ∃ target g, c.memberTarget f.message f.deprecated = some target ∧
        c.findField target (f.delegate.getD f.name) = some g ∧ found = some g := by
  refine lookUp_eq_ok (fun h => ?_) fun t h =>
    ⟨_, _, by simp only [fieldTarget, hplain, h]; rfl⟩
  simp only [fieldTarget, hplain, h]

/-- A variant finds its counterpart in that of its oneof. -/
theorem fieldTarget_variant_eq_ok {x : OneofId} (hvariant : f.oneof = some x)
    {found : Option FieldId} :
    c.fieldTarget f = .ok found ↔
      (c.variantTarget f x = none ∧ found = none) ∨
      ∃ target g, c.variantTarget f x = some target ∧
        c.findVariant target (f.delegate.getD f.name) = some g ∧ found = some g := by
  refine lookUp_eq_ok (fun h => ?_) fun t h =>
    ⟨_, _, by simp only [fieldTarget, hvariant, h]; rfl⟩
  simp only [fieldTarget, hvariant, h]

end

/-! ### Nodes of any kind -/

/-- The links that a node gets, if any. -/
def linkOf (c : Chain) : Node → Except ChainError (Option (Link Node))
  | .message m => (c.messageLink (c.message m)).map (Option.map (Link.map .message))
  | .enumeration e => (c.enumLink (c.enumeration e)).map (Option.map (Link.map .enumeration))
  | .value x => (c.valueLink (c.value x)).map (Option.map (Link.map .value))
  | .oneof o => (c.oneofLink (c.oneof o)).map (Option.map (Link.map .oneof))
  | .field f => (c.fieldTarget (c.field f)).map
      (Option.map fun found => (c.fieldLink (c.field f) found).map .field)
  | .method m => (c.methodLink (c.method m)).map (Option.map (Link.map .method))

/-- Links lead to later versions. -/
def Forward (c : Chain) : Prop :=
  ∀ n t, c.Has n → (c.links n).Leads t → (c.versionOf n).index < (c.versionOf t).index

/-- Where a node of a public version looks. -/
theorem Framed.hopOf_public {count : Nat} (h : c.Framed count) {v : VersionId}
    (hv : v.index + 1 < count) (bypass : Bool) :
    c.hopOf v bypass = some (if bypass || v.index + 2 == count then .final ⟨count - 1⟩
      else .next ⟨v.index + 1⟩) := by
  simp only [hopOf, h.link_public hv, h.isLatest_eq (Nat.lt_of_succ_lt hv)]
  cases bypass || v.index + 2 == count <;> rfl

/-- A node of the private version does not look anywhere. -/
theorem Framed.hopOf_private {count : Nat} (h : c.Framed count) {v : VersionId}
    (hv : v.index + 1 = count) (bypass : Bool) : c.hopOf v bypass = none := by
  simp only [hopOf, h.link_private hv]
  split <;> rfl

/-- A hop leads to a later version. -/
theorem Framed.hop_lt {count : Nat} (h : c.Framed count) {v : VersionId} (hv : v.index < count)
    {bypass : Bool} {hop : Hop} (hhop : c.hopOf v bypass = some hop) :
    v.index < hop.version.index := by
  by_cases hlast : v.index + 1 = count
  · rw [h.hopOf_private hlast] at hhop
    cases hhop
  · have hpublic : v.index + 1 < count := by omega
    rw [h.hopOf_public hpublic] at hhop
    obtain rfl := Option.some.inj hhop
    split
    · show v.index < count - 1
      omega
    · exact Nat.lt_succ_self _

/-- The counterpart in which a member of a message looks is of a later version. -/
theorem Forward.memberTarget_lt (hf : c.Forward) {m t : MessageId} {bypass : Bool}
    (hm : m.index < c.messages.size) (ht : c.memberTarget m bypass = some t) :
    (c.message m).version.index < (c.message t).version.index := by
  refine hf (.message m) (.message t) hm (Link.leads_map _ ?_)
  rw [memberTarget] at ht
  split at ht
  · exact .inr ht
  · exact Link.leads_of_hop ht

/-- The counterpart in which a variant looks is of a later version. -/
theorem Forward.variantTarget_lt (hf : c.Forward) {f : Field} {o t : OneofId}
    (ho : o.index < c.oneofs.size) (ht : c.variantTarget f o = some t) :
    (c.message (c.oneof o).message).version.index
      < (c.message (c.oneof t).message).version.index := by
  refine hf (.oneof o) (.oneof t) ho (Link.leads_map _ ?_)
  rw [variantTarget] at ht
  split at ht
  · exact .inr ht
  · exact Link.leads_of_hop ht

/-- The counterpart in which a value looks is of a later version. -/
theorem Forward.valueTarget_lt (hf : c.Forward) {x : EnumValue} {t : EnumId}
    (hx : x.enumeration.index < c.enums.size) (ht : c.valueTarget x = some t) :
    (c.enumeration x.enumeration).version.index < (c.enumeration t).version.index := by
  refine hf (.enumeration x.enumeration) (.enumeration t) hx (Link.leads_map _ ?_)
  rw [valueTarget] at ht
  split at ht
  · exact .inr ht
  · exact .inl ht

/-- The counterpart of a field is of a later version. -/
theorem Framed.fieldTarget_lt {count : Nat} (h : c.Framed count) (hf : c.Forward) {f g : FieldId}
    (hn : f.index < c.fields.size) (hg : c.fieldTarget (c.field f) = .ok (some g)) :
    g.index < c.fields.size ∧ (c.versionOf (.field f)).index < (c.versionOf (.field g)).index := by
  rw [versionOf, versionOf]
  cases ho : (c.field f).oneof with
  | none =>
    obtain ⟨-, ⟨⟩⟩ | ⟨target, _, htarget, hfind, ⟨⟩⟩ := (fieldTarget_plain_eq_ok ho).mp hg
    obtain ⟨hlt, howner, -⟩ := h.wellFormed.findField_eq_some hfind
    rw [howner]
    exact ⟨hlt, hf.memberTarget_lt (h.wellFormed.field_message_lt hn) htarget⟩
  | some o =>
    obtain ⟨-, ⟨⟩⟩ | ⟨target, _, htarget, hfind, ⟨⟩⟩ := (fieldTarget_variant_eq_ok ho).mp hg
    obtain ⟨hlt, howner, -⟩ := h.wellFormed.findVariant_eq_some hfind
    have hlater := hf.variantTarget_lt (h.wellFormed.field_oneof_lt hn ho) htarget
    rw [h.wellFormed.oneof_message_eq hn ho, h.wellFormed.oneof_message_eq hlt howner] at hlater
    exact ⟨hlt, hlater⟩

/-- **What is found.** A node gets its links from a node of its kind in a later version. -/
theorem linkOf_found {count : Nat} (h : c.Framed count) (hf : c.Forward) {n : Node}
    (hn : c.Has n) {l : Link Node} (hl : c.linkOf n = .ok (some l)) :
    ∃ toFinal found, l = linkTo toFinal found (c.links found).final ∧ c.Has found ∧
      found.kind = n.kind ∧ (c.versionOf n).index < (c.versionOf found).index := by
  have hv := h.versionOf_lt hn
  -- what a version lists is looked up in a later version, a member in the counterpart of its owner
  cases n with
  | message m =>
    obtain ⟨l', hl', rfl⟩ := map_map_eq_ok_some.mp hl
    obtain ⟨-, ⟨⟩⟩ | ⟨hop, found, hhop, hfind, hlink⟩ := messageLink_eq_ok.mp hl'
    obtain rfl := Option.some.inj hlink
    obtain ⟨hlt, hversion, -⟩ := h.wellFormed.findMessage_eq_some hfind
    refine ⟨_, .message found, linkTo_map _ _ _ _, hlt, rfl, ?_⟩
    rw [versionOf, versionOf, hversion]
    exact h.hop_lt hv hhop
  | enumeration e =>
    obtain ⟨l', hl', rfl⟩ := map_map_eq_ok_some.mp hl
    obtain ⟨-, ⟨⟩⟩ | ⟨hop, found, hhop, hfind, hlink⟩ := enumLink_eq_ok.mp hl'
    obtain rfl := Option.some.inj hlink
    obtain ⟨hlt, hversion, -⟩ := h.wellFormed.findEnum_eq_some hfind
    refine ⟨_, .enumeration found, linkTo_map _ _ _ _, hlt, rfl, ?_⟩
    rw [versionOf, versionOf, hversion]
    exact h.hop_lt hv hhop
  | value x =>
    obtain ⟨l', hl', rfl⟩ := map_map_eq_ok_some.mp hl
    obtain ⟨-, ⟨⟩⟩ | ⟨target, found, htarget, hfind, hlink⟩ := valueLink_eq_ok.mp hl'
    obtain rfl := Option.some.inj hlink
    obtain ⟨hlt, howner, -⟩ := h.wellFormed.findValue_eq_some hfind
    refine ⟨_, .value found, linkTo_map _ _ _ _, hlt, rfl, ?_⟩
    rw [versionOf, versionOf, howner]
    exact hf.valueTarget_lt (h.wellFormed.value_enum_lt hn) htarget
  | oneof o =>
    obtain ⟨l', hl', rfl⟩ := map_map_eq_ok_some.mp hl
    obtain ⟨-, ⟨⟩⟩ | ⟨target, found, htarget, hfind, hlink⟩ := oneofLink_eq_ok.mp hl'
    obtain rfl := Option.some.inj hlink
    obtain ⟨hlt, howner, -⟩ := h.wellFormed.findOneof_eq_some hfind
    refine ⟨_, .oneof found, linkTo_map _ _ _ _, hlt, rfl, ?_⟩
    rw [versionOf, versionOf, howner]
    exact hf.memberTarget_lt (h.wellFormed.oneof_message_lt hn) htarget
  | field f =>
    obtain ⟨found, hfound, rfl⟩ := map_map_eq_ok_some.mp hl
    obtain ⟨hlt, hlater⟩ := h.fieldTarget_lt hf hn hfound
    exact ⟨_, .field found, linkTo_map _ _ _ _, hlt, rfl, hlater⟩
  | method m =>
    obtain ⟨l', hl', rfl⟩ := map_map_eq_ok_some.mp hl
    obtain ⟨-, ⟨⟩⟩ | ⟨hop, found, hhop, hfind, hlink⟩ := methodLink_eq_ok.mp hl'
    obtain rfl := Option.some.inj hlink
    obtain ⟨hlt, hversion, -⟩ := h.wellFormed.findMethod_eq_some hfind
    refine ⟨_, .method found, linkTo_map _ _ _ _, hlt, rfl, ?_⟩
    rw [versionOf, versionOf, hversion]
    exact h.hop_lt hv hhop

/-! ### What the links of a node depend on -/

/-- The nodes of its own version that the links of a node depend on. -/
def uses (c : Chain) (n : Node) : List Node := c.owners n ++ (c.enclosing n).toList

/-- Two chains agree on everything that the links of a node depend on. -/
structure SameUses (c c' : Chain) (n : Node) : Prop where
  unlinked : c'.unlinked = c.unlinked
  uses : ∀ t ∈ c.uses n, c'.links t = c.links t
  later : ∀ t, (c.versionOf n).index < (c.versionOf t).index → c'.links t = c.links t

namespace SameUses

variable {n : Node} (hs : SameUses c c' n)
include hs

/-- A message that is used has the same links in both chains. -/
theorem message_link {m : MessageId} (hm : .message m ∈ c.uses n) :
    (c'.message m).link = (c.message m).link :=
  Link.map_inj (fun _ _ => Node.message.inj) (hs.uses _ hm)

/-- A oneof that is used has the same links in both chains. -/
theorem oneof_link {o : OneofId} (ho : .oneof o ∈ c.uses n) :
    (c'.oneof o).link = (c.oneof o).link :=
  Link.map_inj (fun _ _ => Node.oneof.inj) (hs.uses _ ho)

/-- An enum that is used has the same links in both chains. -/
theorem enum_link {e : EnumId} (he : .enumeration e ∈ c.uses n) :
    (c'.enumeration e).link = (c.enumeration e).link :=
  Link.map_inj (fun _ _ => Node.enumeration.inj) (hs.uses _ he)

/-- A node looks in the same version in both chains. -/
theorem hopOf_eq : c'.hopOf = c.hopOf := read_eq hs.unlinked hopOf fun _ => rfl

/-- A type looks under the same name if the message that encloses it has the same counterparts. -/
theorem targetName_eq {parent : Option MessageId}
    (hparent : ∀ p, parent = some p → (c'.message p).link = (c.message p).link) (name : String)
    (delegate : Option String) (hop : Hop) :
    c'.targetName parent name delegate hop = c.targetName parent name delegate hop := by
  have hname : ∀ m, (c'.message m).localName = (c.message m).localName := fun m =>
    read_eq hs.unlinked (fun c => (c.message m).localName) fun c => by simp
  have hcounterpart : c'.parentCounterpart parent hop = c.parentCounterpart parent hop := by
    cases parent with
    | none => rfl
    | some p => simp only [parentCounterpart, Option.bind_some, hparent p rfl]
  simp only [targetName, hcounterpart, hname]

/-- A member of a message that is used looks in the same message in both chains. -/
theorem memberTarget_eq {m : MessageId} (hm : .message m ∈ c.uses n) (bypass : Bool) :
    c'.memberTarget m bypass = c.memberTarget m bypass := by
  rw [memberTarget, memberTarget, hs.message_link hm]

/-- Both chains have the same private version. -/
theorem finalVersion_eq (m : MessageId) : c'.finalVersion m = c.finalVersion m :=
  read_eq hs.unlinked (fun c => c.finalVersion m) fun c => by simp [finalVersion]

/-- A message is of the same version in both chains. -/
theorem message_version_eq (m : MessageId) : (c'.message m).version = (c.message m).version :=
  read_eq hs.unlinked (fun c => (c.message m).version) fun c => by simp

/-! What the links of a node depend on of the node itself is no link. -/

/-- The links of a message do not depend on those that it has. -/
theorem messageLink_eq (m : MessageId) :
    c'.messageLink (c'.message m) = c'.messageLink (c.message m) := by
  have hread := congrArg (fun c => c'.messageLink (c.message m)) hs.unlinked
  simp only [unlinked_message] at hread
  exact hread

/-- The links of an enum do not depend on those that it has. -/
theorem enumLink_eq (e : EnumId) :
    c'.enumLink (c'.enumeration e) = c'.enumLink (c.enumeration e) := by
  have hread := congrArg (fun c => c'.enumLink (c.enumeration e)) hs.unlinked
  simp only [unlinked_enumeration] at hread
  exact hread

/-- The links of a value do not depend on those that it has. -/
theorem valueLink_eq (x : ValueId) :
    c'.valueLink (c'.value x) = c'.valueLink (c.value x) := by
  have hread := congrArg (fun c => c'.valueLink (c.value x)) hs.unlinked
  simp only [unlinked_value] at hread
  exact hread

/-- The links of a oneof do not depend on those that it has. -/
theorem oneofLink_eq (o : OneofId) :
    c'.oneofLink (c'.oneof o) = c'.oneofLink (c.oneof o) := by
  have hread := congrArg (fun c => c'.oneofLink (c.oneof o)) hs.unlinked
  simp only [unlinked_oneof] at hread
  exact hread

/-- The counterpart of a field does not depend on the links that it has. -/
theorem fieldTarget_eq (f : FieldId) :
    c'.fieldTarget (c'.field f) = c'.fieldTarget (c.field f) := by
  have hread := congrArg (fun c => c'.fieldTarget (c.field f)) hs.unlinked
  simp only [unlinked_field] at hread
  exact hread

/-- The links of a method do not depend on those that it has. -/
theorem methodLink_eq (m : MethodId) :
    c'.methodLink (c'.method m) = c'.methodLink (c.method m) := by
  have hread := congrArg (fun c => c'.methodLink (c.method m)) hs.unlinked
  simp only [unlinked_method] at hread
  exact hread

/-! The counterparts in which members look. -/

/-- A value of an enum that is used looks in the same enum in both chains. -/
theorem valueTarget_eq {x : EnumValue} (he : .enumeration x.enumeration ∈ c.uses n) :
    c'.valueBypasses x = c.valueBypasses x ∧ c'.valueTarget x = c.valueTarget x := by
  simp [valueTarget, valueBypasses, hs.enum_link he, and_self]

/-- A variant of a oneof that is used looks in the same oneof in both chains. -/
theorem variantTarget_eq {f : Field} {o : OneofId} (ho : .oneof o ∈ c.uses n) :
    c'.variantTarget f o = c.variantTarget f o := by
  have hdeprecated : (c'.oneof o).deprecated = (c.oneof o).deprecated :=
    read_eq hs.unlinked (fun c => (c.oneof o).deprecated) fun c => by simp
  rw [variantTarget, variantTarget, hdeprecated, hs.oneof_link ho]

/-! ### The links of nodes of each kind -/

variable {count : Nat} (h : c.Framed count)
include h

/-- A message gets the same links in both chains. -/
theorem message {m : MessageId} (hn : n = .message m) (hm : c.Has n)
    {l : Option (Link MessageId)} (hl : c.messageLink (c.message m) = .ok l) :
    c'.messageLink (c'.message m) = .ok l := by
  subst hn
  have hparent : ∀ p, (c.message m).parent = some p → (c'.message p).link = (c.message p).link :=
    fun p hp => hs.message_link (by simp [Chain.uses, enclosing, hp])
  rw [hs.messageLink_eq, messageLink_eq_ok, hs.hopOf_eq]
  refine (messageLink_eq_ok.mp hl).imp_right ?_
  rintro ⟨hop, found, hhop, hfind, hlink⟩
  have hversion := (h.wellFormed.findMessage_eq_some hfind).2.1
  have hlater := hs.later (.message found)
    (by rw [versionOf, versionOf, hversion]; exact h.hop_lt (h.versionOf_lt hm) hhop)
  refine ⟨hop, found, hhop, ?_, ?_⟩
  · rw [hs.targetName_eq hparent, read_eq hs.unlinked findMessage unlinked_findMessage, hfind]
  · rw [Link.map_inj (fun _ _ => Node.message.inj) hlater, hlink]

/-- An enum gets the same links in both chains. -/
theorem enumeration {e : EnumId} (hn : n = .enumeration e) (he : c.Has n)
    {l : Option (Link EnumId)} (hl : c.enumLink (c.enumeration e) = .ok l) :
    c'.enumLink (c'.enumeration e) = .ok l := by
  subst hn
  have hparent : ∀ p, (c.enumeration e).parent = some p →
      (c'.message p).link = (c.message p).link :=
    fun p hp => hs.message_link (by simp [Chain.uses, enclosing, hp])
  rw [hs.enumLink_eq, enumLink_eq_ok, hs.hopOf_eq]
  refine (enumLink_eq_ok.mp hl).imp_right ?_
  rintro ⟨hop, found, hhop, hfind, hlink⟩
  have hversion := (h.wellFormed.findEnum_eq_some hfind).2.1
  have hlater := hs.later (.enumeration found)
    (by rw [versionOf, versionOf, hversion]; exact h.hop_lt (h.versionOf_lt he) hhop)
  refine ⟨hop, found, hhop, ?_, ?_⟩
  · rw [hs.targetName_eq hparent, read_eq hs.unlinked findEnum unlinked_findEnum, hfind]
  · rw [Link.map_inj (fun _ _ => Node.enumeration.inj) hlater, hlink]

/-- A method gets the same links in both chains. -/
theorem method {m : MethodId} (hn : n = .method m) (hm : c.Has n) {l : Option (Link MethodId)}
    (hl : c.methodLink (c.method m) = .ok l) : c'.methodLink (c'.method m) = .ok l := by
  subst hn
  rw [hs.methodLink_eq, methodLink_eq_ok, hs.hopOf_eq]
  refine (methodLink_eq_ok.mp hl).imp_right ?_
  rintro ⟨hop, found, hhop, hfind, hlink⟩
  have hversion := (h.wellFormed.findMethod_eq_some hfind).2.1
  have hlater := hs.later (.method found)
    (by rw [versionOf, versionOf, hversion]; exact h.hop_lt (h.versionOf_lt hm) hhop)
  refine ⟨hop, found, hhop, ?_, ?_⟩
  · rw [read_eq hs.unlinked findMethod unlinked_findMethod, hfind]
  · rw [Link.map_inj (fun _ _ => Node.method.inj) hlater, hlink]

/-! Members look in the counterpart of what owns them, which is of a later version. -/

variable (hf : c.Forward)
include hf

/-- A value gets the same links in both chains. -/
theorem value {x : ValueId} (hn : n = .value x) (hx : c.Has n) {l : Option (Link ValueId)}
    (hl : c.valueLink (c.value x) = .ok l) : c'.valueLink (c'.value x) = .ok l := by
  subst hn
  obtain ⟨hbypass, htargets⟩ := hs.valueTarget_eq (x := c.value x) (by simp [Chain.uses, owners])
  rw [hs.valueLink_eq, valueLink_eq_ok, hbypass, htargets]
  refine (valueLink_eq_ok.mp hl).imp_right ?_
  rintro ⟨target, found, htarget, hfind, hlink⟩
  have howner := (h.wellFormed.findValue_eq_some hfind).2.1
  have hlater := hs.later (.value found) (by
    rw [versionOf, versionOf, howner]
    exact hf.valueTarget_lt (h.wellFormed.value_enum_lt hx) htarget)
  refine ⟨target, found, htarget, ?_, ?_⟩
  · rw [read_eq hs.unlinked findValue unlinked_findValue, hfind]
  · rw [Link.map_inj (fun _ _ => Node.value.inj) hlater, hlink]

/-- A oneof gets the same links in both chains. -/
theorem oneof {o : OneofId} (hn : n = .oneof o) (ho : c.Has n) {l : Option (Link OneofId)}
    (hl : c.oneofLink (c.oneof o) = .ok l) : c'.oneofLink (c'.oneof o) = .ok l := by
  subst hn
  have htargets := hs.memberTarget_eq (m := (c.oneof o).message) (by simp [Chain.uses, owners])
  simp only [hs.oneofLink_eq, oneofLink_eq_ok, htargets, hs.finalVersion_eq,
    hs.message_version_eq]
  refine (oneofLink_eq_ok.mp hl).imp_right ?_
  rintro ⟨target, found, htarget, hfind, hlink⟩
  have howner := (h.wellFormed.findOneof_eq_some hfind).2.1
  have hlater := hs.later (.oneof found) (by
    rw [versionOf, versionOf, howner]
    exact hf.memberTarget_lt (h.wellFormed.oneof_message_lt ho) htarget)
  refine ⟨target, found, htarget, ?_, ?_⟩
  · rw [read_eq hs.unlinked findOneof unlinked_findOneof, hfind]
  · rw [Link.map_inj (fun _ _ => Node.oneof.inj) hlater, hlink]

omit h hf in
/-- A field finds the same counterpart: a variant in that of its oneof, any other field in that of
    its message. -/
theorem field_target {f : FieldId} (hn : n = .field f) {found : Option FieldId}
    (hl : c.fieldTarget (c.field f) = .ok found) : c'.fieldTarget (c'.field f) = .ok found := by
  subst hn
  rw [hs.fieldTarget_eq]
  cases ho : (c.field f).oneof with
  | none =>
    have htargets := hs.memberTarget_eq (m := (c.field f).message) (by simp [Chain.uses, owners])
    rw [fieldTarget_plain_eq_ok ho, htargets, read_eq hs.unlinked findField unlinked_findField]
    exact (fieldTarget_plain_eq_ok ho).mp hl
  | some o =>
    have htargets := hs.variantTarget_eq (f := c.field f) (o := o)
      (by simp [Chain.uses, owners, ho])
    rw [fieldTarget_variant_eq_ok ho, htargets,
      read_eq hs.unlinked findVariant unlinked_findVariant]
    exact (fieldTarget_variant_eq_ok ho).mp hl

/-- A field with a counterpart gets the same links in both chains. -/
theorem field_link {f found : FieldId} (hn : n = .field f) (hhas : c.Has n)
    (hl : c.fieldTarget (c.field f) = .ok (some found)) :
    c'.fieldLink (c'.field f) found = c.fieldLink (c.field f) found := by
  subst hn
  have hlater := hs.later (.field found) (h.fieldTarget_lt hf hhas hl).2
  have hmessage : ∀ x, (c'.field x).message = (c.field x).message := fun x =>
    read_eq hs.unlinked (fun c => (c.field x).message) fun c => by simp
  simp only [fieldLink, hmessage, hs.finalVersion_eq, hs.message_version_eq,
    Link.map_inj (fun _ _ => Node.field.inj) hlater]

end SameUses

/-- **Frame of linking.** The links of a node are those it gets in any chain that agrees on what
    they depend on. -/
theorem linkOf_transfer {count : Nat} (h : c.Framed count) (hf : c.Forward) {n : Node}
    (hn : c.Has n) (hs : SameUses c c' n) {l : Option (Link Node)} (hl : c.linkOf n = .ok l) :
    c'.linkOf n = .ok l := by
  -- each kind depends on its own part of what the chains agree on
  cases n with
  | message m =>
    obtain ⟨l', hl', rfl⟩ := map_eq_ok.mp hl
    exact map_eq_ok.mpr ⟨l', hs.message h rfl hn hl', rfl⟩
  | enumeration e =>
    obtain ⟨l', hl', rfl⟩ := map_eq_ok.mp hl
    exact map_eq_ok.mpr ⟨l', hs.enumeration h rfl hn hl', rfl⟩
  | value x =>
    obtain ⟨l', hl', rfl⟩ := map_eq_ok.mp hl
    exact map_eq_ok.mpr ⟨l', hs.value h hf rfl hn hl', rfl⟩
  | oneof o =>
    obtain ⟨l', hl', rfl⟩ := map_eq_ok.mp hl
    exact map_eq_ok.mpr ⟨l', hs.oneof h hf rfl hn hl', rfl⟩
  | field f =>
    obtain ⟨found, hfound, rfl⟩ := map_eq_ok.mp hl
    refine map_eq_ok.mpr ⟨found, hs.field_target rfl hfound, ?_⟩
    cases found with
    | none => rfl
    | some found => simp only [Option.map_some, hs.field_link h hf rfl hn hfound]
  | method m =>
    obtain ⟨l', hl', rfl⟩ := map_eq_ok.mp hl
    exact map_eq_ok.mpr ⟨l', hs.method h rfl hn hl', rfl⟩

end Chain

end Lineage
