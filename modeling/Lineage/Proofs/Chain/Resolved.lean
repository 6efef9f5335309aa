import Lineage.Proofs.Chain.Linking

namespace Lineage.Chain

/-!
# Resolved chains

Linking visits the nodes one by one and gives each its links once.

* `Relinked` — one node gets its links; `Run` — the nodes of a list do, one after the other,
* `run_resolve` — linking a chain is a run over its public nodes, the latest version first,
* `Independent` — a node may be linked after another one without a difference for that one,
* `Run.fixpoint` — after a run in such an order, every node has the links that it gets in the end,
* `Stages` — the stages in which a chain is built; `linked_of_ofPackages` — chains as they are built
  are linked.
-/

variable {c c' : Chain}

/-! ### Runs -/

/-- One node gets its links, and nothing else changes. -/
structure Relinked (c : Chain) (n : Node) (c' : Chain) : Prop where
  unlinked : c'.unlinked = c.unlinked
  others : ∀ t, t ≠ n → c'.links t = c.links t
  link : ∃ l, c.linkOf n = .ok l ∧ c'.links n = l.getD (c.links n)

/-- The nodes of a list get their links one after the other. -/
inductive Run : Chain → List Node → Chain → Prop
  | nil (c : Chain) : Run c [] c
  | cons {c d c' : Chain} {n : Node} {ns : List Node} (step : Relinked c n d) (rest : Run d ns c') :
      Run c (n :: ns) c'

namespace Run

/-- One node with new links is a run. -/
theorem single {n : Node} (h : Relinked c n c') : Run c [n] c' := .cons h (.nil c')

/-- A run behind a run is one run. -/
theorem append {d : Chain} {ns ms : List Node} (h : Run c ns d) (h' : Run d ms c') :
    Run c (ns ++ ms) c' := by
  induction h with
  | nil c => exact h'
  | cons step _ ih => exact .cons step (ih h')

/-- A run changes links only. -/
theorem unlinked {ns : List Node} (h : Run c ns c') : c'.unlinked = c.unlinked := by
  induction h with
  | nil c => rfl
  | cons step _ ih => rw [ih, step.unlinked]

/-- Only the nodes of the list get links. -/
theorem others {ns : List Node} (h : Run c ns c') {t : Node} (ht : t ∉ ns) :
    c'.links t = c.links t := by
  induction h with
  | nil c => rfl
  | cons step _ ih =>
    rw [List.mem_cons, not_or] at ht
    rw [ih ht.2, step.others t ht.1]

/-- A run of steps, each of which links some nodes, links all of them. -/
theorem of_foldlM {σ α : Type} (chain : σ → Chain) {f : σ → α → Except ChainError σ}
    {nodes : α → List Node} {xs : List α} {s s' : σ}
    (hstep : ∀ x ∈ xs, ∀ t t', (chain t).unlinked = (chain s).unlinked → f t x = .ok t' →
      Run (chain t) (nodes x) (chain t'))
    (h : xs.foldlM f s = .ok s') : Run (chain s) (xs.flatMap nodes) (chain s') := by
  refine foldlM_invariant (fun made t => Run (chain s) (made.flatMap nodes) (chain t)) (.nil _) ?_ h
  intro made x rest t t' hxs hmade hx
  rw [List.flatMap_append, List.flatMap_singleton]
  exact hmade.append (hstep x (by simp [hxs]) t t' hmade.unlinked hx)

end Run

/-! ### Linking one node -/

/-- What is modified is found modified. -/
theorem getD_modify_self {α : Type} {a : Array α} {k : Nat} (hk : k < a.size) (f : α → α) (d : α) :
    (a.modify k f).getD k d = f (a.getD k d) := by
  rw [Array.getD_eq_getD_getElem?, Array.getElem?_modify, if_pos rfl, getElem?_eq_some_getD hk d]
  rfl

/-- What is not modified stays as it was. -/
theorem getD_modify_ne {α : Type} {a : Array α} {k j : Nat} (h : k ≠ j) (f : α → α) (d : α) :
    (a.modify k f).getD j d = a.getD j d := by
  simp [Array.getD_eq_getD_getElem?, Array.getElem?_modify, h]

/-- A node without links is left alone. -/
theorem Relinked.refl {n : Node} (h : c.linkOf n = .ok none) : Relinked c n c :=
  ⟨rfl, fun _ _ => rfl, none, h, rfl⟩

/-- A message that is given its links is linked again. -/
theorem relinked_modifyMessage {m : MessageId} (hm : m.index < c.messages.size) {l : Link MessageId}
    (hl : c.linkOf (.message m) = .ok (some (l.map .message))) :
    Relinked c (.message m) (c.modifyMessage m fun x => { x with link := l }) := by
  refine ⟨by simp [unlinked, modifyMessage], ?_, _, hl, ?_⟩
  · rintro (t | t | t | t | t | t) ht
    case message =>
      have hne : m.index ≠ t.index := fun he => ht (congrArg _ (MessageId.ext he.symm))
      exact congrArg (fun x : Message => x.link.map Node.message) (getD_modify_ne hne _ _)
    all_goals rfl
  · exact congrArg (fun x : Message => x.link.map Node.message) (getD_modify_self hm _ _)

/-- An enum that is given its links is linked again. -/
theorem relinked_modifyEnum {e : EnumId} (he : e.index < c.enums.size) {l : Link EnumId}
    (hl : c.linkOf (.enumeration e) = .ok (some (l.map .enumeration))) :
    Relinked c (.enumeration e) (c.modifyEnum e fun x => { x with link := l }) := by
  refine ⟨by simp [unlinked, modifyEnum], ?_, _, hl, ?_⟩
  · rintro (t | t | t | t | t | t) ht
    case enumeration =>
      have hne : e.index ≠ t.index := fun he => ht (congrArg _ (EnumId.ext he.symm))
      exact congrArg (fun x : Enum => x.link.map Node.enumeration) (getD_modify_ne hne _ _)
    all_goals rfl
  · exact congrArg (fun x : Enum => x.link.map Node.enumeration) (getD_modify_self he _ _)

/-- A value that is given its links is linked again. -/
theorem relinked_modifyValue {x : ValueId} (hx : x.index < c.values.size) {l : Link ValueId}
    (hl : c.linkOf (.value x) = .ok (some (l.map .value))) :
    Relinked c (.value x) (c.modifyValue x fun x => { x with link := l }) := by
  refine ⟨by simp [unlinked, modifyValue], ?_, _, hl, ?_⟩
  · rintro (t | t | t | t | t | t) ht
    case value =>
      have hne : x.index ≠ t.index := fun he => ht (congrArg _ (ValueId.ext he.symm))
      exact congrArg (fun x : EnumValue => x.link.map Node.value) (getD_modify_ne hne _ _)
    all_goals rfl
  · exact congrArg (fun x : EnumValue => x.link.map Node.value) (getD_modify_self hx _ _)

/-- A oneof that is given its links is linked again. -/
theorem relinked_modifyOneof {o : OneofId} (ho : o.index < c.oneofs.size) {l : Link OneofId}
    (hl : c.linkOf (.oneof o) = .ok (some (l.map .oneof))) :
    Relinked c (.oneof o) (c.modifyOneof o fun x => { x with link := l }) := by
  refine ⟨by simp [unlinked, modifyOneof], ?_, _, hl, ?_⟩
  · rintro (t | t | t | t | t | t) ht
    case oneof =>
      have hne : o.index ≠ t.index := fun he => ht (congrArg _ (OneofId.ext he.symm))
      exact congrArg (fun x : Oneof => x.link.map Node.oneof) (getD_modify_ne hne _ _)
    all_goals rfl
  · exact congrArg (fun x : Oneof => x.link.map Node.oneof) (getD_modify_self ho _ _)

/-- A field that is given its links is linked again. -/
theorem relinked_modifyField {f : FieldId} (hf : f.index < c.fields.size) {l : Link FieldId}
    (hl : c.linkOf (.field f) = .ok (some (l.map .field))) :
    Relinked c (.field f) (c.modifyField f fun x => { x with link := l }) := by
  refine ⟨by simp [unlinked, modifyField], ?_, _, hl, ?_⟩
  · rintro (t | t | t | t | t | t) ht
    case field =>
      have hne : f.index ≠ t.index := fun he => ht (congrArg _ (FieldId.ext he.symm))
      exact congrArg (fun x : Field => x.link.map Node.field) (getD_modify_ne hne _ _)
    all_goals rfl
  · exact congrArg (fun x : Field => x.link.map Node.field) (getD_modify_self hf _ _)

/-- A method that is given its links is linked again. -/
theorem relinked_modifyMethod {r : MethodId} (hr : r.index < c.methods.size) {l : Link MethodId}
    (hl : c.linkOf (.method r) = .ok (some (l.map .method))) :
    Relinked c (.method r) (c.modifyMethod r fun x => { x with link := l }) := by
  refine ⟨by simp [unlinked, modifyMethod], ?_, _, hl, ?_⟩
  · rintro (t | t | t | t | t | t) ht
    case method =>
      have hne : r.index ≠ t.index := fun he => ht (congrArg _ (MethodId.ext he.symm))
      exact congrArg (fun x : Method => x.link.map Node.method) (getD_modify_ne hne _ _)
    all_goals rfl
  · exact congrArg (fun x : Method => x.link.map Node.method) (getD_modify_self hr _ _)

/-- Resolving a message links it and nothing else. -/
theorem relinked_resolveMessage {m : MessageId} (hm : m.index < c.messages.size)
    (h : c.resolveMessage m = .ok c') : Relinked c (.message m) c' := by
  obtain ⟨l, hl, h⟩ := bind_eq_ok.mp h
  have hlink : c.linkOf (.message m) = .ok (l.map (Link.map .message)) := map_eq_ok.mpr ⟨l, hl, rfl⟩
  cases l with
  | none => exact pure_eq_ok.mp h ▸ .refl hlink
  | some l => exact pure_eq_ok.mp h ▸ relinked_modifyMessage hm hlink

/-- Resolving a value links it and nothing else. -/
theorem relinked_resolveValue {x : ValueId} (hx : x.index < c.values.size)
    (h : c.resolveValue x = .ok c') : Relinked c (.value x) c' := by
  obtain ⟨l, hl, h⟩ := bind_eq_ok.mp h
  have hlink : c.linkOf (.value x) = .ok (l.map (Link.map .value)) := map_eq_ok.mpr ⟨l, hl, rfl⟩
  cases l with
  | none => exact pure_eq_ok.mp h ▸ .refl hlink
  | some l => exact pure_eq_ok.mp h ▸ relinked_modifyValue hx hlink

/-- Resolving a oneof links it and nothing else. -/
theorem relinked_resolveOneof {o : OneofId} (ho : o.index < c.oneofs.size)
    (h : c.resolveOneof o = .ok c') : Relinked c (.oneof o) c' := by
  obtain ⟨l, hl, h⟩ := bind_eq_ok.mp h
  have hlink : c.linkOf (.oneof o) = .ok (l.map (Link.map .oneof)) := map_eq_ok.mpr ⟨l, hl, rfl⟩
  cases l with
  | none => exact pure_eq_ok.mp h ▸ .refl hlink
  | some l => exact pure_eq_ok.mp h ▸ relinked_modifyOneof ho hlink

/-- Resolving a method links it and nothing else. -/
theorem relinked_resolveMethod {r : MethodId} (hr : r.index < c.methods.size)
    (h : c.resolveMethod r = .ok c') : Relinked c (.method r) c' := by
  obtain ⟨l, hl, h⟩ := bind_eq_ok.mp h
  have hlink : c.linkOf (.method r) = .ok (l.map (Link.map .method)) := map_eq_ok.mpr ⟨l, hl, rfl⟩
  cases l with
  | none => exact pure_eq_ok.mp h ▸ .refl hlink
  | some l => exact pure_eq_ok.mp h ▸ relinked_modifyMethod hr hlink

/-- Resolving a field links it and nothing else. -/
theorem relinked_resolveField {f : FieldId} {claimed claimed' : Claimed}
    (hf : f.index < c.fields.size) (h : resolveField (c, claimed) f = .ok (c', claimed')) :
    Relinked c (.field f) c' := by
  obtain ⟨found, hfound, h⟩ := bind_eq_ok.mp h
  have hlink : c.linkOf (.field f)
      = .ok (found.map fun g => (c.fieldLink (c.field f) g).map .field) :=
    map_eq_ok.mpr ⟨found, hfound, rfl⟩
  cases found with
  | none =>
    obtain ⟨rfl, -⟩ := Prod.mk.inj (pure_eq_ok.mp h)
    exact .refl hlink
  | some g =>
    obtain ⟨_, -, h⟩ := bind_eq_ok.mp h
    obtain ⟨rfl, -⟩ := Prod.mk.inj (pure_eq_ok.mp h)
    exact relinked_modifyField hf hlink

/-! ### Linking versions -/

/-- An enum of a public version and its values. -/
theorem run_resolveEnum {count : Nat} (hframed : c.Framed count) {e : EnumId}
    (he : e.index < c.enums.size) (hpublic : (c.enumeration e).version.index + 1 < count)
    (h : c.resolveEnum e = .ok c') :
    Run c (.enumeration e :: (c.enumeration e).values.map .value) c' := by
  obtain ⟨l, hl, h⟩ := bind_eq_ok.mp h
  have hlink : c.linkOf (.enumeration e) = .ok (l.map (Link.map .enumeration)) :=
    map_eq_ok.mpr ⟨l, hl, rfl⟩
  cases l with
  | none =>
    obtain ⟨hnone, -⟩ | ⟨_, _, _, _, ⟨⟩⟩ := enumLink_eq_ok.mp hl
    rw [hframed.hopOf_public hpublic] at hnone
    cases hnone
  | some l =>
    have hstep := relinked_modifyEnum he hlink
    refine .cons hstep ?_
    rw [List.map_eq_flatMap]
    refine Run.of_foldlM id (fun x hx t t' ht hx' => .single (relinked_resolveValue ?_ hx')) h
    have hsize := size_eq_of_map_eq (sameShape_of_unlinked (ht.trans hstep.unlinked)).values
    rw [hsize]
    exact ((hframed.wellFormed.mem_values e x).mp hx).1

/-- The oneofs of a message. -/
theorem run_oneofs (hwf : c.WellFormed) {m : MessageId}
    (h : (c.message m).oneofs.foldlM resolveOneof c = .ok c') :
    Run c ((c.message m).oneofs.map .oneof) c' := by
  rw [List.map_eq_flatMap]
  refine Run.of_foldlM id (fun o ho t t' ht ho' => .single (relinked_resolveOneof ?_ ho')) h
  rw [size_eq_of_map_eq (sameShape_of_unlinked ht).oneofs]
  exact ((hwf.mem_oneofs m o).mp ho).1

/-- The oneofs and fields of a message. -/
theorem run_resolveMembers (hwf : c.WellFormed) {m : MessageId} (h : c.resolveMembers m = .ok c') :
    Run c ((c.message m).oneofs.map .oneof ++ (c.message m).fields.map .field) c' := by
  obtain ⟨d, honeofs, h⟩ := bind_eq_ok.mp h
  obtain ⟨⟨c'', claimed⟩, hfields, h⟩ := bind_eq_ok.mp h
  obtain rfl := pure_eq_ok.mp h
  have hrun := run_oneofs hwf honeofs
  refine hrun.append ?_
  have hkeep := fields_of_unlinked hrun.unlinked m
  rw [List.map_eq_flatMap, ← hkeep]
  refine Run.of_foldlM Prod.fst
    (fun f hf t t' ht hf' => .single (relinked_resolveField ?_ hf')) hfields
  rw [hkeep] at hf
  rw [size_eq_of_map_eq (sameShape_of_unlinked (ht.trans hrun.unlinked)).fields]
  exact ((hwf.mem_fields m f).mp hf).1

/-! The nodes of a version are linked in four passes.  Each finds the lists of the chain as they
were before the first one, as linking changes nothing but links. -/

section
variable {count : Nat} (hframed : c.Framed count) {v : VersionId} {d d' : Chain}
  (hu : d.unlinked = c.unlinked)
include hframed hu

/-- The messages of a version are linked one after the other. -/
theorem run_messages (h : (c.version v).messages.foldlM resolveMessage d = .ok d') :
    Run d (c.messagesOf v) d' := by
  rw [messagesOf, List.map_eq_flatMap]
  refine Run.of_foldlM id (fun m hm t t' ht hm' => .single (relinked_resolveMessage ?_ hm')) h
  rw [size_eq_of_map_eq (sameShape_of_unlinked (ht.trans hu)).messages]
  exact ((hframed.wellFormed.mem_messages v m).mp hm).1

/-- The enums of a version are linked one after the other, each before its values. -/
theorem run_enums (hpublic : v.index + 1 < count)
    (h : (c.version v).enums.foldlM resolveEnum d = .ok d') : Run d (c.enumsOf v) d' := by
  refine Run.of_foldlM id (fun e he t t' ht he' => ?_) h
  have hu' : t.unlinked = c.unlinked := ht.trans hu
  obtain ⟨hlt, hversion⟩ := (hframed.wellFormed.mem_enums v e).mp he
  have hkeep : (t.enumeration e).version = (c.enumeration e).version ∧
      (t.enumeration e).values = (c.enumeration e).values :=
    ⟨read_eq hu' (fun c => (c.enumeration e).version) fun c => by simp,
      read_eq hu' (fun c => (c.enumeration e).values) fun c => by simp⟩
  rw [← hkeep.2]
  refine run_resolveEnum (hframed.of_unlinked hu') ?_ ?_ he'
  · rwa [size_eq_of_map_eq (sameShape_of_unlinked hu').enums]
  · rwa [hkeep.1, hversion]

/-- The oneofs of a message are linked one after the other, then its fields. -/
theorem run_member {m : MessageId} (h : d.resolveMembers m = .ok d') :
    Run d ((c.message m).oneofs.map .oneof ++ (c.message m).fields.map .field) d' := by
  rw [← oneofs_of_unlinked hu, ← fields_of_unlinked hu]
  exact run_resolveMembers (hframed.of_unlinked hu).wellFormed h

/-- The members of the messages of a version are linked message by message. -/
theorem run_members (h : (c.version v).messages.foldlM resolveMembers d = .ok d') :
    Run d (c.membersOf v) d' :=
  Run.of_foldlM id (fun _ _ _ _ ht => run_member hframed (ht.trans hu)) h

/-- The methods of a version are linked one after the other. -/
theorem run_methods (h : (c.version v).methods.foldlM resolveMethod d = .ok d') :
    Run d (c.methodsOf v) d' := by
  rw [methodsOf, List.map_eq_flatMap]
  refine Run.of_foldlM id (fun r hr t t' ht hr' => .single (relinked_resolveMethod ?_ hr')) h
  have hsize : t.methods.size = c.methods.size :=
    size_eq_of_map_eq (sameShape_of_unlinked (ht.trans hu)).methods
  exact hsize ▸ ((hframed.wellFormed.mem_methods v r).mp hr).1

end

/-- All nodes of a public version. -/
theorem run_resolveVersion {count : Nat} (hframed : c.Framed count) {v : VersionId}
    (hpublic : v.index + 1 < count) (h : c.resolveVersion (c.version v) = .ok c') :
    Run c (c.nodesOf v) c' := by
  simp only [resolveVersion, bind_eq_ok] at h
  obtain ⟨c1, hmessages, c2, henums, c3, hmembers, hmethods⟩ := h
  have h1 := run_messages hframed rfl hmessages
  have h2 := h1.append (run_enums hframed h1.unlinked hpublic henums)
  have h3 := h2.append (run_members hframed h2.unlinked hmembers)
  exact h3.append (run_methods hframed h3.unlinked hmethods)

/-- The nodes of the public versions, in the order in which they are linked. -/
def publicNodes (c : Chain) : List Node := c.publicVersions.reverse.flatMap fun v => c.nodesOf v.id

/-- The same nodes are linked if others are linked before. -/
theorem run_version {count : Nat} (hframed : c.Framed count) {d d' : Chain}
    (hu : d.unlinked = c.unlinked) {v : Version} (hv : v ∈ c.publicVersions)
    (h : d.resolveVersion v = .ok d') :
    Run d (c.nodesOf v.id) d' := by
  obtain ⟨hpublic, heq⟩ := hframed.mem_publicVersions.mp hv
  have hversion :
    d.version v.id = v := (read_eq hu (fun c => c.version v.id) fun _ => rfl).trans heq
  rw [← nodesOf_of_unlinked hu]
  exact run_resolveVersion (hframed.of_unlinked hu) hpublic (by rwa [hversion])

/-- **Linking is a run** over the nodes of the public versions. -/
theorem run_resolve {count : Nat} (hframed : c.Framed count) (h : c.resolve = .ok c') :
    Run c c.publicNodes c' :=
  Run.of_foldlM id (fun _ hv _ _ ht => run_version hframed ht (List.mem_reverse.mp hv)) h

/-! ### The order of a run -/

/-- A node may get its links after another one without a difference for that one: it is no node that
    the links of the other one depend on. -/
structure Independent (c : Chain) (n later : Node) : Prop where
  ne : later ≠ n
  unused : later ∉ c.uses n
  notLater : ¬ (c.versionOf n).index < (c.versionOf later).index

/-- Where in a version a node of a kind is linked. -/
def stage : Node → Nat
  | .message _ => 0
  | .enumeration _ | .value _ => 1
  | .oneof _ | .field _ => 2
  | .method _ => 3

/-- The nodes whose links are used by a node are of no later stage. -/
theorem stage_le_of_mem_uses {n t : Node} (ht : t ∈ c.uses n) : stage t ≤ stage n := by
  -- by what a node of each kind hangs from
  cases n with
  | message m =>
    obtain ⟨p, -, rfl⟩ : ∃ p, (c.message m).parent = some p ∧ .message p = t := by
      simpa [uses, owners, enclosing] using ht
    exact Nat.le_refl _
  | enumeration e =>
    obtain ⟨p, -, rfl⟩ : ∃ p, (c.enumeration e).parent = some p ∧ .message p = t := by
      simpa [uses, owners, enclosing] using ht
    exact Nat.zero_le _
  | value x =>
    obtain rfl : t = .enumeration (c.value x).enumeration := by
      simpa [uses, owners, enclosing] using ht
    exact Nat.le_refl _
  | oneof o =>
    obtain rfl : t = .message (c.oneof o).message := by simpa [uses, owners, enclosing] using ht
    exact Nat.zero_le _
  | field f =>
    obtain rfl | ⟨o, -, rfl⟩ : t = .message (c.field f).message ∨
        ∃ o, (c.field f).oneof = some o ∧ .oneof o = t := by
      simpa [uses, owners, enclosing] using ht
    · exact Nat.zero_le _
    · exact Nat.le_refl _
  | method r => simp [uses, owners, enclosing] at ht

/-- A node of a later stage is another one, and is not used. -/
theorem unused_of_stage_lt {n later : Node} (h : stage n < stage later) :
    later ≠ n ∧ later ∉ c.uses n :=
  ⟨fun heq => Nat.lt_irrefl _ (heq ▸ h),
    fun hused => Nat.not_le_of_lt h (stage_le_of_mem_uses hused)⟩

/-- Messages are linked first. -/
theorem stage_of_mem_messagesOf {v : VersionId} {n : Node} (h : n ∈ c.messagesOf v) :
    stage n = 0 := by
  obtain ⟨m, -, rfl⟩ := List.mem_map.mp h
  rfl

/-- Enums and their values are linked after messages. -/
theorem stage_of_mem_enumsOf {v : VersionId} {n : Node} (h : n ∈ c.enumsOf v) : stage n = 1 := by
  obtain ⟨e, -, h⟩ := List.mem_flatMap.mp h
  rcases List.mem_cons.mp h with rfl | h
  · rfl
  · obtain ⟨x, -, rfl⟩ := List.mem_map.mp h
    rfl

/-- Members are linked after enums. -/
theorem stage_of_mem_membersOf {v : VersionId} {n : Node} (h : n ∈ c.membersOf v) :
    stage n = 2 := by
  obtain ⟨m, -, h⟩ := List.mem_flatMap.mp h
  rcases List.mem_append.mp h with h | h
  · obtain ⟨o, -, rfl⟩ := List.mem_map.mp h
    rfl
  · obtain ⟨f, -, rfl⟩ := List.mem_map.mp h
    rfl

/-- Methods are linked last. -/
theorem stage_of_mem_methodsOf {v : VersionId} {n : Node} (h : n ∈ c.methodsOf v) :
    stage n = 3 := by
  obtain ⟨r, -, rfl⟩ := List.mem_map.mp h
  rfl

section
variable (h : c.WellFormed) (v : VersionId)
include h

/-- Enclosing messages come before the messages that they enclose. -/
theorem pairwise_messagesOf :
    (c.messagesOf v).Pairwise fun n later => later ≠ n ∧ later ∉ c.uses n := by
  refine List.pairwise_map.mpr ((h.pairwise_messages v).imp_of_mem ?_)
  intro a b ha _ hlt
  refine ⟨fun heq => Nat.ne_of_gt hlt (by rw [Node.message.inj heq]), fun hused => ?_⟩
  have hparent : (c.message a).parent = some b := by simpa [uses, owners, enclosing] using hused
  exact Nat.lt_asymm hlt (h.parent_eq ((h.mem_messages v a).mp ha).1 hparent).1

/-- Enums come before their values. -/
theorem pairwise_enumsOf :
    (c.enumsOf v).Pairwise fun n later => later ≠ n ∧ later ∉ c.uses n := by
  refine List.pairwise_flatMap.mpr ⟨fun e _ => List.pairwise_cons.mpr ⟨?_, ?_⟩, ?_⟩
  · simp [uses, owners, enclosing]
  · refine List.pairwise_map.mpr ((h.pairwise_values e).imp fun {a b} hlt => ?_)
    refine ⟨fun heq => Nat.ne_of_gt hlt (by rw [Node.value.inj heq]), ?_⟩
    simp [uses, owners, enclosing]
  · -- across two enums: a value belongs to one enum only
    refine (h.pairwise_enums v).imp fun {e e'} hlt => ?_
    have hne : e' ≠ e := fun heq => Nat.ne_of_gt hlt (by rw [heq])
    simp only [List.mem_cons, List.mem_map, forall_eq_or_imp, forall_exists_index, and_imp,
      forall_apply_eq_imp_iff₂]
    refine ⟨⟨?_, ?_⟩, fun x hx => ⟨?_, fun y hy => ?_⟩⟩
    · simp [uses, owners, enclosing, hne]
    · simp [uses, owners, enclosing]
    · have howner := ((h.mem_values e x).mp hx).2
      simp [uses, owners, enclosing, howner, hne]
    · have howner := ((h.mem_values e x).mp hx).2
      have howner' := ((h.mem_values e' y).mp hy).2
      refine ⟨?_, by simp [uses, owners, enclosing]⟩
      rintro ⟨⟩
      exact hne (howner'.symm.trans howner)

/-- The oneofs of a message come before its fields. -/
theorem pairwise_membersOf :
    (c.membersOf v).Pairwise fun n later => later ≠ n ∧ later ∉ c.uses n := by
  refine List.pairwise_flatMap.mpr ⟨fun m _ => List.pairwise_append.mpr ⟨?_, ?_, ?_⟩, ?_⟩
  · refine List.pairwise_map.mpr ((h.pairwise_oneofs m).imp fun {a b} hlt => ?_)
    refine ⟨fun heq => Nat.ne_of_gt hlt (by rw [Node.oneof.inj heq]), ?_⟩
    simp [uses, owners, enclosing]
  · refine List.pairwise_map.mpr ((h.pairwise_fields m).imp fun {a b} hlt => ?_)
    refine ⟨fun heq => Nat.ne_of_gt hlt (by rw [Node.field.inj heq]), ?_⟩
    simp [uses, owners, enclosing]
  · simp [uses, owners, enclosing]
  · -- across two messages: a member belongs to one message only
    refine (h.pairwise_messages v).imp fun {m m'} hlt => ?_
    have hne : m' ≠ m := fun heq => Nat.ne_of_gt hlt (by rw [heq])
    simp only [List.mem_append, List.mem_map]
    rintro n (⟨o, ho, rfl⟩ | ⟨f, hf, rfl⟩) later (⟨o', ho', rfl⟩ | ⟨f', hf', rfl⟩)
    · refine ⟨?_, by simp [uses, owners, enclosing]⟩
      rintro ⟨⟩
      exact hne (((h.mem_oneofs m' o).mp ho').2.symm.trans ((h.mem_oneofs m o).mp ho).2)
    · simp [uses, owners, enclosing]
    · -- the oneof of a field is one of the field's message
      obtain ⟨hlt, hmessage⟩ := (h.mem_fields m f).mp hf
      have howner := ((h.mem_oneofs m' o').mp ho').2
      refine ⟨by simp, fun hused => ?_⟩
      have honeof : (c.field f).oneof = some o' := by simpa [uses, owners, enclosing] using hused
      have hsame := h.oneof_message_eq hlt honeof
      exact hne (by rw [← howner, hsame, hmessage])
    · refine ⟨?_, by simp [uses, owners, enclosing]⟩
      rintro ⟨⟩
      exact hne (((h.mem_fields m' f).mp hf').2.symm.trans ((h.mem_fields m f).mp hf).2)

/-- A node of a version does not depend on nodes of that version that are linked later. -/
theorem pairwise_nodesOf :
    (c.nodesOf v).Pairwise fun n later => later ≠ n ∧ later ∉ c.uses n := by
  have hmessages : ∀ n ∈ c.messagesOf v, stage n = 0 := fun n => stage_of_mem_messagesOf
  have henums : ∀ n ∈ c.enumsOf v, stage n = 1 := fun n => stage_of_mem_enumsOf
  have hmembers : ∀ n ∈ c.membersOf v, stage n = 2 := fun n => stage_of_mem_membersOf
  have hmethods : ∀ n ∈ c.methodsOf v, stage n = 3 := fun n => stage_of_mem_methodsOf
  have hdistinct : (c.methodsOf v).Pairwise fun n later => later ≠ n ∧ later ∉ c.uses n := by
    refine List.pairwise_map.mpr ((h.pairwise_methods v).imp fun {a b} hlt => ?_)
    refine ⟨fun heq => Nat.ne_of_gt hlt (by rw [Node.method.inj heq]), ?_⟩
    simp [uses, owners, enclosing]
  -- inside a stage by its own lemma, across stages by their order
  simp only [nodesOf, List.pairwise_append, List.mem_append]
  refine ⟨⟨⟨pairwise_messagesOf h v, pairwise_enumsOf h v, ?_⟩, pairwise_membersOf h v, ?_⟩,
    hdistinct, ?_⟩
  · intro n hn later hlater
    exact unused_of_stage_lt (by rw [hmessages n hn, henums later hlater]; decide)
  · rintro n (hn | hn) later hlater
    · exact unused_of_stage_lt (by rw [hmessages n hn, hmembers later hlater]; decide)
    · exact unused_of_stage_lt (by rw [henums n hn, hmembers later hlater]; decide)
  · rintro n ((hn | hn) | hn) later hlater
    · exact unused_of_stage_lt (by rw [hmessages n hn, hmethods later hlater]; decide)
    · exact unused_of_stage_lt (by rw [henums n hn, hmethods later hlater]; decide)
    · exact unused_of_stage_lt (by rw [hmembers n hn, hmethods later hlater]; decide)

end

/-- What a node depends on is of its own version. -/
theorem WellFormed.versionOf_of_mem_uses (h : c.WellFormed) {n t : Node} (hn : c.Has n)
    (ht : t ∈ c.uses n) : c.versionOf t = c.versionOf n := by
  rcases List.mem_append.mp ht with ht | ht
  · exact (h.has_owner hn ht).2
  · have hparent := Option.mem_toList.mp ht
    cases n with
    | message m =>
      obtain ⟨p, hp, rfl⟩ := Option.map_eq_some_iff.mp hparent
      exact (h.parent_eq hn hp).2
    | enumeration e =>
      obtain ⟨p, hp, rfl⟩ := Option.map_eq_some_iff.mp hparent
      exact (h.enum_parent_eq hn hp).2
    | value _ | oneof _ | field _ | method _ => cases hparent

/-- **The order of a run.** No public node depends on nodes that are linked later. -/
theorem pairwise_publicNodes {count : Nat} (h : c.Framed count) :
    c.publicNodes.Pairwise c.Independent := by
  have hwf := h.wellFormed
  refine List.pairwise_flatMap.mpr ⟨fun v _ => ?_, ?_⟩
  · refine (pairwise_nodesOf hwf v.id).imp_of_mem fun {n later} hn hlater hunused => ?_
    obtain ⟨-, hn⟩ := (hwf.mem_nodesOf v.id n).mp hn
    obtain ⟨-, hlater⟩ := (hwf.mem_nodesOf v.id later).mp hlater
    exact ⟨hunused.1, hunused.2, by rw [hn, hlater]; exact Nat.lt_irrefl _⟩
  · refine List.pairwise_reverse.mpr
      (h.pairwise_publicVersions.imp fun {w v} hlt n hn later hl => ?_)
    obtain ⟨hhas, hn⟩ := (hwf.mem_nodesOf v.id n).mp hn
    obtain ⟨-, hl⟩ := (hwf.mem_nodesOf w.id later).mp hl
    have hne : c.versionOf later ≠ c.versionOf n := by
      rw [hn, hl]
      exact fun heq => Nat.ne_of_lt hlt (by rw [heq])
    exact ⟨fun heq => hne (by rw [heq]), fun hused => hne (hwf.versionOf_of_mem_uses hhas hused),
      by rw [hn, hl]; exact Nat.lt_asymm hlt⟩

/-! ### After the run -/

/-- Nothing depends on its own links. -/
theorem WellFormed.not_mem_uses_self (h : c.WellFormed) {n : Node} (hn : c.Has n) :
    n ∉ c.uses n := by
  intro hused
  cases n with
  | message m =>
    have hparent : (c.message m).parent = some m := by simpa [uses, owners, enclosing] using hused
    exact Nat.lt_irrefl _ (h.parent_eq hn hparent).1
  | enumeration _ | value _ | oneof _ | field _ | method _ =>
    simp [uses, owners, enclosing] at hused

/-- Links still lead to later versions when one more node is linked. -/
theorem Relinked.forward {count : Nat} {n : Node} (h : c.Framed count) (hf : c.Forward)
    (hn : c.Has n) (hstep : Relinked c n c') : c'.Forward := by
  have hversion := versionOf_of_unlinked hstep.unlinked
  have hhas : ∀ {t}, c'.Has t → c.Has t := fun {t} ht => (has_of_unlinked hstep.unlinked t).mp ht
  intro m t hm ht
  rw [hversion, hversion]
  -- only the node itself has new links, and what is found for it comes later
  by_cases hmn : m = n
  · subst hmn
    obtain ⟨l, hl, hlink⟩ := hstep.link
    rw [hlink] at ht
    cases l with
    | none => exact hf m t hn ht
    | some l =>
      obtain ⟨toFinal, found, rfl, hfound, -, hlt⟩ := linkOf_found h hf hn hl
      rcases linkTo_leads ht with rfl | hfinal
      · exact hlt
      · exact Nat.lt_trans hlt (hf found t hfound (.inr hfinal))
  · rw [hstep.others m hmn] at ht
    exact hf m t (hhas hm) ht

/-- **Links are stable.** After a run, links lead to later versions, and every linked node has the
    links that it gets in the chain that the run has led to. -/
theorem Run.fixpoint {count : Nat} {ns : List Node} (hrun : Run c ns c') (h : c.Framed count)
    (hf : c.Forward) (hhas : ∀ n ∈ ns, c.Has n) (horder : ns.Pairwise c.Independent) :
    c'.Forward ∧ ∀ n ∈ ns, ∃ l, c'.linkOf n = .ok l ∧ c'.links n = l.getD (c.links n) := by
  -- by the nodes in their order: the later ones leave alone what the first one depends on
  induction hrun with
  | nil c => exact ⟨hf, by simp⟩
  | @cons c d c' n ns hstep hrest ih =>
    obtain ⟨hn, hns⟩ := List.forall_mem_cons.mp hhas
    obtain ⟨hlater, horder⟩ := List.pairwise_cons.mp horder
    have hu := hstep.unlinked
    have huses : ∀ t, d.uses t = c.uses t := fun t =>
      read_eq hu (fun c => c.uses t) fun c => by simp [uses]
    have hversion := versionOf_of_unlinked hu
    obtain ⟨hforward, hlinked⟩ := ih (h.of_unlinked hu) (hstep.forward h hf hn)
      (fun t ht => (has_of_unlinked hu t).mpr (hns t ht))
      (horder.imp fun hi => ⟨hi.ne, by rw [huses]; exact hi.unused,
        by rw [hversion, hversion]; exact hi.notLater⟩)
    refine ⟨hforward, List.forall_mem_cons.mpr ⟨?_, ?_⟩⟩
    · -- neither this step nor the later ones change what the links of the node depend on
      have hkept : ∀ t, t ≠ n → t ∉ ns → c'.links t = c.links t := fun t hne hnot => by
        rw [hrest.others hnot, hstep.others t hne]
      have hself : n ∉ ns := fun hmem => (hlater n hmem).ne rfl
      have hsame : SameUses c c' n := by
        refine ⟨hrest.unlinked.trans hu, fun t ht => hkept t ?_ ?_, fun t ht => hkept t ?_ ?_⟩
        · rintro rfl
          exact h.wellFormed.not_mem_uses_self hn ht
        · exact fun hmem => (hlater t hmem).unused ht
        · rintro rfl
          exact Nat.lt_irrefl _ ht
        · exact fun hmem => (hlater t hmem).notLater ht
      obtain ⟨l, hl, hlink⟩ := hstep.link
      exact ⟨l, linkOf_transfer h hf hn hsame hl, by rw [hrest.others hself, hlink]⟩
    · intro t ht
      obtain ⟨l, hl, hlink⟩ := hlinked t ht
      exact ⟨l, hl, by rw [hlink, hstep.others t (hlater t ht).ne]⟩

/-! ### Chains as they are built -/

/-- A linked chain of so many versions: links lead to later versions, every node of a public version
    has the links that it gets, and no node of the private version has any. -/
structure Linked (count : Nat) (c : Chain) : Prop where
  framed : c.Framed count
  forward : c.Forward
  stable : ∀ n, c.Has n → (c.versionOf n).index + 1 < count →
    ∃ l, c.linkOf n = .ok l ∧ c.links n = l.getD {}
  unlinked : ∀ n, c.Has n → (c.versionOf n).index + 1 = count → c.links n = {}

/-- Before it is resolved a node has no links. -/
theorem Unlinked.links_eq (h : c.Unlinked) {n : Node} (hn : c.Has n) : c.links n = {} := by
  cases n with
  | message m =>
    rw [links, h.messages (c.message m) (Array.mem_of_getElem? (getElem?_eq_some_getD hn _))]
    rfl
  | enumeration e =>
    rw [links, h.enums (c.enumeration e) (Array.mem_of_getElem? (getElem?_eq_some_getD hn _))]
    rfl
  | value x =>
    rw [links, h.values (c.value x) (Array.mem_of_getElem? (getElem?_eq_some_getD hn _))]
    rfl
  | oneof o =>
    rw [links, h.oneofs (c.oneof o) (Array.mem_of_getElem? (getElem?_eq_some_getD hn _))]
    rfl
  | field f =>
    rw [links, h.fields (c.field f) (Array.mem_of_getElem? (getElem?_eq_some_getD hn _))]
    rfl
  | method r =>
    rw [links, h.methods (c.method r) (Array.mem_of_getElem? (getElem?_eq_some_getD hn _))]
    rfl

/-- The public nodes are the nodes of all versions but the last one. -/
theorem mem_publicNodes {count : Nat} (h : c.Framed count) (n : Node) :
    n ∈ c.publicNodes ↔ c.Has n ∧ (c.versionOf n).index + 1 < count := by
  simp only [publicNodes, List.mem_flatMap, List.mem_reverse, h.mem_publicVersions,
    h.wellFormed.mem_nodesOf]
  constructor
  · rintro ⟨v, ⟨hlt, -⟩, hn, hv⟩
    exact ⟨hn, by rw [hv]; exact hlt⟩
  · rintro ⟨hn, hlt⟩
    have hid := h.version_id (Nat.lt_of_succ_lt hlt)
    exact ⟨c.version (c.versionOf n), ⟨by rw [hid]; exact hlt, by rw [hid]⟩, hn, hid.symm⟩

/-- Linking a declared chain links it. -/
theorem linked_resolve {count : Nat} (h : c.Framed count) (hnone : c.Unlinked)
    (hresolve : c.resolve = .ok c') : c'.Linked count := by
  have hrun := run_resolve h hresolve
  have hu := hrun.unlinked
  have hforward : c.Forward := by
    intro n t hn ht
    rw [hnone.links_eq hn] at ht
    rcases ht with ⟨⟨⟩⟩ | ⟨⟨⟩⟩
  obtain ⟨hforward', hlinked⟩ := hrun.fixpoint h hforward
    (fun n hn => ((mem_publicNodes h n).mp hn).1) (pairwise_publicNodes h)
  have hversion := versionOf_of_unlinked hu
  refine ⟨h.of_unlinked hu, hforward', fun n hn hpublic => ?_, fun n hn hprivate => ?_⟩
  · rw [has_of_unlinked hu] at hn
    rw [hversion] at hpublic
    obtain ⟨l, hl, hlink⟩ := hlinked n ((mem_publicNodes h n).mpr ⟨hn, hpublic⟩)
    exact ⟨l, hl, by rw [hlink, hnone.links_eq hn]⟩
  · rw [has_of_unlinked hu] at hn
    rw [hversion] at hprivate
    rw [hrun.others fun hmem => Nat.ne_of_lt ((mem_publicNodes h n).mp hmem).2 hprivate,
      hnone.links_eq hn]

/-- Classifying a field changes its propagation only. -/
theorem classifyField_eq (f : Field) : (c.classifyField f).link = f.link ∧
    { c.classifyField f with link := {}, propagation := default }
      = { f with link := {}, propagation := default } := by
  unfold classifyField
  split <;> exact ⟨rfl, rfl⟩

/-- Classifying fields changes nothing but their propagations. -/
theorem unlinked_classify (c : Chain) : c.classify.unlinked = c.unlinked := by
  simp [Chain.classify, Chain.unlinked, Function.comp_def, (classifyField_eq _).2]

/-- Classification changes no links. -/
theorem links_classify (c : Chain) (n : Node) : c.classify.links n = c.links n := by
  cases n with
  | field n =>
    by_cases hn : n.index < c.fields.size
    · have hget := getElem?_map_getD hn default c.classifyField
      simp only [links, field, Chain.classify, Array.getD_eq_getD_getElem?] at hget ⊢
      rw [hget, Option.getD_some, (classifyField_eq _).1]
    · simp [links, field, Chain.classify, Array.getD_eq_getD_getElem?, hn]
  | _ => rfl

/-- A linked chain is linked when it is classified. -/
theorem Linked.classify {count : Nat} (h : c.Linked count) : c.classify.Linked count := by
  have hu := unlinked_classify c
  have hlinks := links_classify c
  have hversion := versionOf_of_unlinked hu
  refine ⟨h.framed.of_unlinked hu, fun n t hn ht => ?_, fun n hn hv => ?_, fun n hn hv => ?_⟩
  · rw [hlinks] at ht
    rw [hversion, hversion]
    exact h.forward n t ((has_of_unlinked hu n).mp hn) ht
  · rw [has_of_unlinked hu] at hn
    obtain ⟨l, hl, hlink⟩ := h.stable n hn (by rwa [← hversion])
    have hsame : SameUses c c.classify n := ⟨hu, fun t _ => hlinks t, fun t _ => hlinks t⟩
    exact ⟨l, linkOf_transfer h.framed h.forward hn hsame hl, by rw [hlinks, hlink]⟩
  · rw [hlinks, h.unlinked n ((has_of_unlinked hu n).mp hn) (by rwa [← hversion])]

/-- The stages in which a chain is built: its versions are declared, deprecation is inherited, and
    the nodes are linked.  Classifying its fields is the last one. -/
structure Stages (source : AnnotationSource) (versions : List (PackageSchema × ServiceSchema))
    (declared linked : Chain) : Prop where
  declares : versions.foldlM (addVersion source versions.length) {} = .ok declared
  framed : declared.inheritDeprecation.Framed versions.length
  unlinked : declared.inheritDeprecation.Unlinked
  resolves : declared.inheritDeprecation.resolve = .ok linked

namespace Stages

variable {source : AnnotationSource} {versions : List (PackageSchema × ServiceSchema)}
  {declared linked : Chain} (h : Stages source versions declared linked)
include h

/-- A chain that is linked stays so when its fields are classified. -/
theorem classified : linked.classify.Linked versions.length :=
  (linked_resolve h.framed h.unlinked h.resolves).classify

/-- Linking and classifying change nothing but links and propagations. -/
theorem unlinked_eq : linked.classify.unlinked = declared.inheritDeprecation.unlinked :=
  (unlinked_classify linked).trans (run_resolve h.framed h.resolves).unlinked

end Stages

/-- A chain that is built is declared, linked and classified, one after the other. -/
theorem stages_of_ofPackages {source : AnnotationSource} {privatePackage : String}
    {packages : List PackageSchema} (h : ofPackages source privatePackage packages = .ok c) :
    ∃ versions declared linked, orderVersions privatePackage packages = .ok versions ∧
      Stages source versions declared linked ∧ c = linked.classify := by
  simp only [ofPackages, bind_eq_ok, pure_eq_ok] at h
  obtain ⟨versions, hversions, declared, hdeclared, linked, hlinked, rfl⟩ := h
  have hd := (declaring_of_addVersions hdeclared).inheritDeprecation
  have hframed : declared.inheritDeprecation.Framed versions.length :=
    ⟨hd.wellFormed, hd.places, inherited_inheritDeprecation declared, hd.requests⟩
  exact ⟨versions, declared, linked, hversions, ⟨hdeclared, hframed, hd.unlinked, hlinked⟩, rfl⟩

/-- **Built chains are linked.** -/
theorem linked_of_ofPackages {source : AnnotationSource} {privatePackage : String}
    {packages : List PackageSchema} (h : ofPackages source privatePackage packages = .ok c) :
    c.Linked c.versions.size := by
  obtain ⟨versions, declared, linked, -, hstages, rfl⟩ := stages_of_ofPackages h
  have hresult := hstages.classified
  rwa [hresult.framed.versions_size]

end Lineage.Chain
