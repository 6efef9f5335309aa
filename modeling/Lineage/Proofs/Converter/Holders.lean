import Lineage.Proofs.Chain.Claims
import Lineage.Proofs.Chain.Integrity
import Lineage.Proofs.Service.Enumeration
import Mathlib.Data.List.Induction
import Mathlib.Data.List.Pairwise

namespace Lineage

/-!
# Who receives a value

The two rounds of claims on the values of a counterpart, in closed form.

* `Chain.delegator`, `Chain.mentioned`, `Chain.HoldsValue` — the first value whose delegate is a
  given one, the values that an annotation names, and the value that holds a given one on either
  account,
* `Chain.Refused` — an annotation that cannot be followed,
* `Chain.ownClaims` — the claims of one value, its delegate first,
* `Chain.holderOf_canonicalClaims`, `Chain.canonicalClaims_filter` — the first round,
* `Chain.place`, `Chain.place_run` — the second round is one run over the pairs that are claimed; it
  succeeds exactly if nobody claims what another holds, and then adds what was free, each pair once,
* `Chain.explicitClaims_eq_ok` — the second round as this run,
* `Chain.receivers_eq_error` — there is a table unless an annotation is refused, `Chain.Receives` —
  what it says,
* `Chain.receives_of_ofPackages` — both hold of every enum and its counterparts in a chain as it is
  built.
-/

section
variable {α β : Type} [BEq α] [LawfulBEq α] [BEq β] [LawfulBEq β]

/-- An element at the end stays if it has not occurred before. -/
theorem eraseDups_concat (xs : List α) (a : α) :
    (xs ++ [a]).eraseDups = if a ∈ xs then xs.eraseDups else xs.eraseDups ++ [a] := by
  rw [List.eraseDups_append]
  split <;> rename_i h <;> simp [List.removeAll, h, List.eraseDups_cons]

/-- It does not matter whether some entries are left out before or after. -/
theorem filter_eraseDups (p : α → Bool) (xs : List α) :
    xs.eraseDups.filter p = (xs.filter p).eraseDups := by
  -- from the end of the list, as the first of equal entries stays
  induction xs using List.reverseRecOn with
  | nil => rfl
  | append_singleton xs a ih =>
    rw [eraseDups_concat, List.filter_append]
    cases hp : p a with
    | false => split <;> simp [hp, ih]
    | true =>
      have hmem : a ∈ xs.filter p ↔ a ∈ xs := by simp [hp]
      rw [List.filter_cons_of_pos hp, List.filter_nil, eraseDups_concat, ← ih]
      simp only [hmem]
      split <;> simp [hp]

/-- Duplicates can be erased before an injective map. -/
theorem eraseDups_map {f : α → β} (hf : Function.Injective f) (xs : List α) :
    (xs.map f).eraseDups = xs.eraseDups.map f := by
  induction xs using List.reverseRecOn with
  | nil => rfl
  | append_singleton xs a ih =>
    rw [List.map_append, List.map_singleton, eraseDups_concat, eraseDups_concat, ih]
    simp only [List.mem_map_of_injective hf]
    split <;> simp

end

/-- A computation fails if it does not succeed. -/
theorem exists_error_iff {ε α : Type} {x : Except ε α} :
    (∃ e, x = .error e) ↔ ¬ ∃ a, x = .ok a := by
  cases x <;> simp

/-- If all keys are different, the first entry with a key is the only one. -/
theorem find?_map_eq_some {α β γ : Type} [BEq β] [LawfulBEq β] {key : α → β} {g : α → γ}
    {xs : List α} (h : (xs.map key).Nodup) {b : β} {y : γ} :
    (xs.find? (key · == b)).map g = some y ↔ ∃ x ∈ xs, key x = b ∧ g x = y := by
  constructor
  · intro hy
    obtain ⟨x, hx, rfl⟩ := Option.map_eq_some_iff.mp hy
    exact ⟨x, List.mem_of_find?_eq_some hx, by simpa using List.find?_some hx, rfl⟩
  · rintro ⟨x, hx, rfl, rfl⟩
    rw [find?_of_nodup h hx, Option.map_some]

/-- Of what is collected from several owners, the part of one owner is what is collected from it. -/
theorem filter_flatMap_of_nodup {α β : Type} [DecidableEq α] {owner : β → α} {owners : List α}
    {g : α → List β} (howner : ∀ u, ∀ b ∈ g u, owner b = u) (hnodup : owners.Nodup) {v : α}
    (hv : v ∈ owners) : (owners.flatMap g).filter (owner · == v) = g v := by
  rw [List.filter_flatMap]
  have hown : (g v).filter (owner · == v) = g v :=
    List.filter_eq_self.mpr fun b hb => by simp [howner v b hb]
  have hother : ∀ u ∈ owners, u ≠ v → (g u).filter (owner · == v) = [] := fun u _ hu =>
    List.filter_eq_nil_iff.mpr fun b hb => by simpa [howner u b hb] using hu
  induction owners with
  | nil => cases hv
  | cons u owners ih =>
    obtain ⟨hfirst, hnodup⟩ := List.nodup_cons.mp hnodup
    rw [List.flatMap_cons]
    obtain rfl | hv := List.mem_cons.mp hv
    · -- nothing comes from the owners after it
      have hrest : owners.flatMap (fun u => (g u).filter (owner · == v)) = [] :=
        List.flatMap_eq_nil_iff.mpr fun u hu =>
          hother u (List.mem_cons_of_mem _ hu) fun heq => hfirst (heq ▸ hu)
      rw [hown, hrest, List.append_nil]
    · rw [hother u List.mem_cons_self fun heq => hfirst (heq ▸ hv), List.nil_append]
      exact ih hnodup hv fun u hu => hother u (List.mem_cons_of_mem _ hu)

namespace Chain

variable {c : Chain} {source : EnumId} {values : List ValueId} {claims claims' : List ClaimOn}

/-! ### Who should receive a value -/

/-- The first of some values whose delegate in a counterpart is a given value. -/
def delegator (c : Chain) (source : EnumId) (values : List ValueId) (s : ValueId) :
    Option ValueId :=
  values.find? fun v => c.delegateIn source v == some s

/-- The values of a counterpart that the annotation of a value names, in its order. -/
def mentioned (c : Chain) (source : EnumId) (v : ValueId) : List ValueId :=
  (c.value v).receive.filterMap (c.findValue source)

/-- A value holds a value of the counterpart: it is the first one with that delegate, or nobody has
    that delegate and its annotation names it. -/
def HoldsValue (c : Chain) (source : EnumId) (values : List ValueId) (p s : ValueId) : Prop :=
  c.delegator source values s = some p ∨
    c.delegator source values s = none ∧ p ∈ values ∧ s ∈ c.mentioned source p

/-- Some annotation cannot be followed. -/
inductive Refused (c : Chain) (source : EnumId) (values : List ValueId) : Prop
  /-- It names no value of the counterpart. -/
  | unknown {p : ValueId} {name : String} (hp : p ∈ values) (hname : name ∈ (c.value p).receive)
      (hunknown : c.findValue source name = none)
  /-- It names a value that another value holds. -/
  | held {p q s : ValueId} (hp : p ∈ values) (hs : s ∈ c.mentioned source p)
      (hq : c.HoldsValue source values q s) (hne : q ≠ p)

/-- The claims of a value: on its delegate, unless an earlier value has it, then on each value that
    its annotation names and that is nobody's delegate, in the order in which they are
    first named. -/
def ownClaims (c : Chain) (source : EnumId) (values : List ValueId) (v : ValueId) : List ClaimOn :=
  ((c.delegateIn source v).filter fun d => c.delegator source values d == some v).toList.map
      (⟨v, ·, .canonical⟩) ++
    ((c.mentioned source v).filter fun s => (c.delegator source values s).isNone).eraseDups.map
      (⟨v, ·, .explicit⟩)

/-! ### The first round -/

/-- One claim more holds a value that nobody has held before. -/
theorem holderOf_concat (k : ClaimOn) (s : ValueId) :
    holderOf (claims ++ [k]) s =
      (holderOf claims s).or (if k.source = s then some k.holder else none) := by
  unfold holderOf
  rw [List.find?_append, Option.map_or]
  by_cases hk : k.source = s <;> simp [hk]

/-- If every value is claimed once, its holder is the one who claims it. -/
theorem holderOf_eq_some (h : (claims.map (·.source)).Nodup) {p s : ValueId} :
    holderOf claims s = some p ↔ ∃ k ∈ claims, k.source = s ∧ k.holder = p :=
  find?_map_eq_some h

/-- A canonical delegate holds a value that nobody has held before. -/
theorem holderOf_addCanonical (v s : ValueId) : holderOf (c.addCanonical source claims v) s =
    (holderOf claims s).or (if c.delegateIn source v = some s then some v else none) := by
  unfold addCanonical
  cases hd : c.delegateIn source v with
  | none => simp
  | some d =>
    dsimp only
    split <;> rename_i hheld
    · -- a held delegate is not claimed again
      by_cases hds : d = s
      · subst hds
        obtain ⟨holder, hholder⟩ := Option.isSome_iff_exists.mp hheld
        rw [hholder, Option.some_or]
      · simp [hds]
    · rw [holderOf_concat]
      simp

/-- **The first round.** A value is held by the first value whose delegate it is. -/
theorem holderOf_canonicalClaims (s : ValueId) :
    holderOf (c.canonicalClaims source values) s = c.delegator source values s := by
  have hrun : ∀ claims, holderOf (values.foldl (c.addCanonical source) claims) s =
      (holderOf claims s).or (c.delegator source values s) := by
    induction values with
    | nil => simp [delegator]
    | cons v values ih =>
      intro claims
      rw [List.foldl_cons, ih, holderOf_addCanonical, Option.or_assoc]
      by_cases hd : c.delegateIn source v = some s <;> simp [hd, delegator]
  exact hrun []

/-- Every claim of the first round is that of the value that holds. -/
theorem mem_canonicalClaims_iff (h : ClaimsFor c source (c.canonicalClaims source values))
    {k : ClaimOn} :
    k ∈ c.canonicalClaims source values ↔
      c.delegator source values k.source = some k.holder ∧ k.claim = .canonical := by
  constructor
  · intro hk
    rw [← holderOf_canonicalClaims, holderOf_eq_some h.once]
    exact ⟨⟨k, hk, rfl, rfl⟩, (delegate_of_mem_canonicalClaims hk).2.2⟩
  · rintro ⟨hholder, hclaim⟩
    rw [← holderOf_canonicalClaims, holderOf_eq_some h.once] at hholder
    obtain ⟨k', hk', hsource, hholder⟩ := hholder
    -- both are claims of the same value on the same value
    have hclaim' := (delegate_of_mem_canonicalClaims hk').2.2
    obtain rfl : k' = k := by
      cases k
      cases k'
      simp_all
    exact hk'

/-- The delegator of a value is a value with that delegate. -/
theorem delegateIn_of_delegator {v s : ValueId} (h : c.delegator source values s = some v) :
    v ∈ values ∧ c.delegateIn source v = some s :=
  ⟨List.mem_of_find?_eq_some h, by simpa using List.find?_some h⟩

/-- Of the first round, a value has the claim on its delegate, if it holds that. -/
theorem canonicalClaims_filter (h : ClaimsFor c source (c.canonicalClaims source values))
    (v : ValueId) :
    (c.canonicalClaims source values).filter (·.holder == v) =
      ((c.delegateIn source v).filter fun d => c.delegator source values d == some v).toList.map
        (⟨v, ·, .canonical⟩) := by
  have hmem : ∀ k, k ∈ (c.canonicalClaims source values).filter (·.holder == v) ↔
      c.delegator source values k.source = some v ∧ k = ⟨v, k.source, .canonical⟩ := by
    intro k
    rw [List.mem_filter, mem_canonicalClaims_iff h, beq_iff_eq]
    cases k
    constructor
    · rintro ⟨⟨hholder, rfl⟩, rfl⟩
      exact ⟨hholder, rfl⟩
    · rintro ⟨hholder, heq⟩
      cases heq
      exact ⟨⟨hholder, rfl⟩, rfl⟩
  have hnodup : ((c.canonicalClaims source values).filter (·.holder == v)).Nodup :=
    (List.Nodup.of_map _ h.once).filter _
  -- it holds at most one value, its delegate
  cases hd : (c.delegateIn source v).filter fun d => c.delegator source values d == some v with
  | none =>
    refine List.eq_nil_iff_forall_not_mem.mpr fun k hk => ?_
    obtain ⟨hholder, -⟩ := (hmem k).mp hk
    have hnone := Option.filter_eq_none_iff.mp hd k.source (delegateIn_of_delegator hholder).2
    simp [hholder] at hnone
  | some d =>
    obtain ⟨hdelegate, hholds⟩ := Option.filter_eq_some_iff.mp hd
    rw [Option.toList_some, List.map_singleton, ← List.perm_singleton,
      List.perm_ext_iff_of_nodup hnodup (List.nodup_singleton _)]
    intro k
    rw [hmem, List.mem_singleton]
    constructor
    · rintro ⟨hholder, heq⟩
      have hsame := Option.some.inj (hdelegate.symm.trans (delegateIn_of_delegator hholder).2)
      rw [heq, ← hsame]
    · rintro rfl
      exact ⟨by simpa using hholds, rfl⟩

/-! ### The second round -/

/-- A value claims another one: it must be free, or be the value's own already. -/
def place (claims : List ClaimOn) (k : ValueId × ValueId) : Option (List ClaimOn) :=
  match holderOf claims k.2 with
  | none => some (claims ++ [⟨k.1, k.2, .explicit⟩])
  | some holder => if holder = k.1 then some claims else none

/-- A claim by name succeeds if the name is one of the counterpart and there is place. -/
theorem addExplicit_eq_ok {v : ValueId} {name : String} :
    c.addExplicit source v claims name = .ok claims' ↔
      ∃ s, c.findValue source name = some s ∧ place claims (v, s) = some claims' := by
  unfold addExplicit place
  cases hfind : c.findValue source name with
  | none => simp
  | some s =>
    cases hholder : holderOf claims s with
    | none => simp [hholder]
    | some holder => by_cases hown : holder = v <;> simp [hholder, hown]

/-- A run whose steps are runs themselves, under a condition on each step, is one run. -/
theorem foldlM_eq_ok_iff {ε σ α β : Type} {f : σ → α → Except ε σ} {step : σ → β → Option σ}
    {ok : α → Prop} {parts : α → List β}
    (h : ∀ s a t, f s a = .ok t ↔ ok a ∧ (parts a).foldlM step s = some t) {xs : List α} {s t : σ} :
    xs.foldlM f s = .ok t ↔ (∀ a ∈ xs, ok a) ∧ (xs.flatMap parts).foldlM step s = some t := by
  induction xs generalizing s with
  | nil => simp [pure, Except.pure]
  | cons a xs ih =>
    rw [List.foldlM_cons, bind_eq_ok, List.flatMap_cons, List.foldlM_append, List.forall_mem_cons]
    simp only [h, ih, Option.bind_eq_bind, Option.bind_eq_some_iff]
    constructor
    · rintro ⟨u, ⟨hok, hu⟩, hall, ht⟩
      exact ⟨⟨hok, hall⟩, u, hu, ht⟩
    · rintro ⟨⟨hok, hall⟩, u, hu, ht⟩
      exact ⟨u, ⟨hok, hu⟩, hall, ht⟩

/-- The pairs that annotations claim, value by value. -/
def wanted (c : Chain) (source : EnumId) (values : List ValueId) : List (ValueId × ValueId) :=
  values.flatMap fun v => (c.mentioned source v).map fun s => (v, s)

/-- A value wants what its annotation mentions. -/
theorem mem_wanted {p s : ValueId} :
    (p, s) ∈ c.wanted source values ↔ p ∈ values ∧ s ∈ c.mentioned source p := by
  simp [wanted]

/-- The second round is one run over the pairs that are claimed, if all names are known. -/
theorem explicitClaims_eq_ok : c.explicitClaims source values claims = .ok claims' ↔
    (∀ p ∈ values, ∀ name ∈ (c.value p).receive, (c.findValue source name).isSome) ∧
      (c.wanted source values).foldlM place claims = some claims' := by
  have hname : ∀ v claims name claims', c.addExplicit source v claims name = .ok claims' ↔
      (c.findValue source name).isSome ∧
        ((c.findValue source name).toList.map fun s => (v, s)).foldlM place claims =
            some claims' := by
    intro v claims name claims'
    rw [addExplicit_eq_ok]
    cases c.findValue source name <;> simp
  -- the names of each value, then the values
  refine foldlM_eq_ok_iff fun claims v claims' => ?_
  rw [foldlM_eq_ok_iff (hname v), mentioned, List.filterMap_eq_flatMap_toList, List.map_flatMap]

/-- What nobody holds so far. -/
def free (claims : List ClaimOn) (k : ValueId × ValueId) : Bool := (holderOf claims k.2).isNone

/-- Nobody claims what is another's: neither what another holds already nor what another claims as
    well. -/
structure Compatible (claims : List ClaimOn) (ks : List (ValueId × ValueId)) : Prop where
  held : ∀ k ∈ ks, ∀ holder, holderOf claims k.2 = some holder → holder = k.1
  apart : ks.Pairwise fun k k' => k.2 = k'.2 → k.1 = k'.1

/-- Whoever claims the same is the same. -/
theorem Compatible.eq {ks : List (ValueId × ValueId)} (h : Compatible claims ks) {p q s : ValueId}
    (hp : (p, s) ∈ ks) (hq : (q, s) ∈ ks) : p = q := by
  have hsymm : Std.Symm fun k k' : ValueId × ValueId => k.2 = k'.2 → k.1 = k'.1 :=
    ⟨fun _ _ hkk' heq => (hkk' heq.symm).symm⟩
  exact List.Pairwise.forall_of_forall (fun _ _ _ => rfl) h.apart hp hq rfl

/-- One more claim on what is free. -/
theorem compatible_cons_free {k : ValueId × ValueId} {ks : List (ValueId × ValueId)}
    (hfree : holderOf claims k.2 = none) : Compatible claims (k :: ks) ↔
      Compatible (claims ++ [⟨k.1, k.2, .explicit⟩]) ks := by
  have hnow : ∀ s, holderOf (claims ++ [⟨k.1, k.2, .explicit⟩]) s =
      (holderOf claims s).or (if k.2 = s then some k.1 else none) := fun s => holderOf_concat _ s
  constructor
  · intro h
    obtain ⟨hfirst, hrest⟩ := List.pairwise_cons.mp h.apart
    refine ⟨fun k' hk' holder hholder => ?_, hrest⟩
    rw [hnow] at hholder
    obtain hholder | ⟨-, hholder⟩ := Option.or_eq_some_iff.mp hholder
    · exact h.held k' (List.mem_cons_of_mem _ hk') holder hholder
    · split at hholder
      · rename_i hsame
        exact (Option.some.inj hholder).symm.trans (hfirst k' hk' hsame)
      · cases hholder
  · intro h
    refine ⟨fun k' hk' holder hholder => ?_,
      List.pairwise_cons.mpr ⟨fun k' hk' hsame => ?_, h.apart⟩⟩
    · obtain rfl | hk' := List.mem_cons.mp hk'
      · rw [hfree] at hholder
        cases hholder
      · exact h.held k' hk' holder (by rw [hnow, hholder, Option.some_or])
    · -- what the first one claims is its own for all that follow
      refine h.held k' hk' k.1 ?_
      rw [hnow, ← hsame, hfree, Option.none_or, if_pos rfl]

/-- One more claim of a value on what it holds. -/
theorem compatible_cons_own {k : ValueId × ValueId} {ks : List (ValueId × ValueId)}
    (hown : holderOf claims k.2 = some k.1) :
    Compatible claims (k :: ks) ↔ Compatible claims ks := by
  constructor
  · intro h
    exact ⟨fun k' hk' => h.held k' (List.mem_cons_of_mem _ hk'), (List.pairwise_cons.mp h.apart).2⟩
  · intro h
    refine ⟨fun k' hk' holder hholder => ?_,
      List.pairwise_cons.mpr ⟨fun k' hk' hsame => ?_, h.apart⟩⟩
    · obtain rfl | hk' := List.mem_cons.mp hk'
      · exact Option.some.inj (hholder.symm.trans hown)
      · exact h.held k' hk' holder hholder
    · exact h.held k' hk' k.1 (hsame ▸ hown)

/-- **The second round** succeeds exactly if nobody claims what is another's, and adds every claim
    on what was free, once. -/
theorem place_run {ks : List (ValueId × ValueId)} : ks.foldlM place claims = some claims' ↔
    Compatible claims ks ∧
      claims' = claims ++ (ks.filter (free claims)).eraseDups.map fun k =>
        ⟨k.1, k.2, .explicit⟩ := by
  induction ks generalizing claims with
  | nil => simpa [eq_comm] using fun _ => ⟨by simp, by simp⟩
  | cons k ks ih =>
    rw [List.foldlM_cons]
    cases hholder : holderOf claims k.2 with
    | none =>
      have hstep : place claims k = some (claims ++ [⟨k.1, k.2, .explicit⟩]) := by
        rw [place, hholder]
      rw [hstep, Option.bind_eq_bind, Option.bind_some, ih, ← compatible_cons_free hholder]
      refine and_congr_right fun h => ?_
      have hfirst := (List.pairwise_cons.mp h.apart).1
      -- of the rest, what is still free is what was free but the claim just made
      have hrest : ks.filter (free (claims ++ [⟨k.1, k.2, .explicit⟩])) =
          (ks.filter (free claims)).filter fun k' => !k' == k := by
        rw [List.filter_filter]
        refine List.filter_congr fun k' hk' => ?_
        have hsame : k.2 = k'.2 ↔ k' = k :=
          ⟨fun heq => (Prod.ext (hfirst k' hk' heq) heq).symm, fun heq => heq ▸ rfl⟩
        unfold free
        rw [holderOf_concat]
        by_cases heq : k' = k <;> simp [hsame, heq]
      have hfree : free claims k = true := by rw [free, hholder]; rfl
      rw [hrest, List.filter_cons_of_pos hfree, List.eraseDups_cons, List.map_cons,
        List.append_assoc]
      rfl
    | some holder =>
      have hnotFree : ¬ free claims k = true := by simp [free, hholder]
      by_cases hown : holder = k.1
      · have hstep : place claims k = some claims := by rw [place, hholder]; exact if_pos hown
        rw [hstep, Option.bind_eq_bind, Option.bind_some, ih,
          compatible_cons_own (by rw [hholder, hown]), List.filter_cons_of_neg hnotFree]
      · have hstep : place claims k = none := by rw [place, hholder]; exact if_neg hown
        rw [hstep]
        refine iff_of_false (fun h => by cases h) fun h => ?_
        exact hown (h.1.held k List.mem_cons_self holder hholder)

/-! ### Tables -/

/-- The second round succeeds exactly if no annotation is refused. -/
theorem compatible_iff_not_refused :
    ((∀ p ∈ values, ∀ name ∈ (c.value p).receive, (c.findValue source name).isSome) ∧
      Compatible (c.canonicalClaims source values) (c.wanted source values)) ↔
      ¬ c.Refused source values := by
  constructor
  · rintro ⟨hknown, hcompatible⟩ (⟨hp, hname, hunknown⟩ | ⟨hp, hs, hq, hne⟩)
    · have hsome := hknown _ hp _ hname
      rw [hunknown] at hsome
      cases hsome
    · have hmem := mem_wanted.mpr ⟨hp, hs⟩
      obtain hq | ⟨-, hmember, hmentioned⟩ := hq
      · exact hne (hcompatible.held _ hmem _ ((holderOf_canonicalClaims _).trans hq))
      · -- of two that name it, one would have to give way
        exact hne (hcompatible.eq (mem_wanted.mpr ⟨hmember, hmentioned⟩) hmem)
  · intro hnot
    -- nobody holds what a value names but the value itself
    have hown :
        ∀ p ∈ values, ∀ s ∈ c.mentioned source p, ∀ q, c.HoldsValue source values q s → q = p :=
      fun p hp s hs q hq => by_contra fun hne => hnot (.held hp hs hq hne)
    refine ⟨fun p hp name hname => ?_, ⟨?_, List.pairwise_of_forall_mem_list ?_⟩⟩
    · by_contra hunknown
      exact hnot (.unknown hp hname (by simpa using hunknown))
    · rintro ⟨p, s⟩ hk holder hholder
      obtain ⟨hp, hs⟩ := mem_wanted.mp hk
      exact hown p hp s hs holder (.inl ((holderOf_canonicalClaims s).symm.trans hholder))
    · rintro ⟨p, s⟩ hk ⟨p', s'⟩ hk' (rfl : s = s')
      obtain ⟨hp, hs⟩ := mem_wanted.mp hk
      obtain ⟨hp', hs'⟩ := mem_wanted.mp hk'
      cases hd : c.delegator source values s with
      | none => exact hown p' hp' s hs' p (.inr ⟨hd, hp, hs⟩)
      | some u => exact (hown p hp s hs u (.inl hd)).symm.trans (hown p' hp' s hs' u (.inl hd))

/-- What a table says about the values of an enum and of a counterpart. -/
structure Receives (c : Chain) (e source : EnumId) (table : ReceiveTable) : Prop where
  enums : table.enumeration = e ∧ table.source = source
  /-- A value of the counterpart is received at most once. -/
  once : (table.entries.map (·.source)).Nodup
  /-- It is received as the value that holds it. -/
  lookup : ∀ p s, table.lookup s = some p ↔ c.HoldsValue source (c.enumeration e).values p s
  /-- The entries are grouped by value, as declared. -/
  grouped : table.entries = (c.enumeration e).values.flatMap fun v =>
    (c.ownClaims source (c.enumeration e).values v).map c.receiveEntry

section
variable (hok : c.explicitClaims source values (c.canonicalClaims source values) = .ok claims)
include hok

/-- Both rounds together: the claims of the first one, then what was free, as far as annotations
    claim it. -/
theorem claims_eq : claims = c.canonicalClaims source values ++
    ((c.wanted source values).filter (free (c.canonicalClaims source values))).eraseDups.map
      fun k => ⟨k.1, k.2, .explicit⟩ :=
  (place_run.mp (explicitClaims_eq_ok.mp hok).2).2

variable (hfor : ClaimsFor c source (c.canonicalClaims source values))
include hfor

/-- After both rounds, whoever should hold a value claims it, and nobody else does. -/
theorem exists_claim_iff {p s : ValueId} :
    (∃ k ∈ claims, k.source = s ∧ k.holder = p) ↔ c.HoldsValue source values p s := by
  rw [claims_eq hok]
  constructor
  · rintro ⟨k, hk, rfl, rfl⟩
    obtain hk | hk := List.mem_append.mp hk
    · exact .inl ((mem_canonicalClaims_iff hfor).mp hk).1
    · obtain ⟨⟨p, s⟩, hmem, rfl⟩ := List.mem_map.mp hk
      obtain ⟨hwanted, hfree⟩ := List.mem_filter.mp (List.mem_eraseDups.mp hmem)
      rw [free, holderOf_canonicalClaims, Option.isNone_iff_eq_none] at hfree
      exact .inr ⟨hfree, mem_wanted.mp hwanted⟩
  · rintro (hd | ⟨hnone, hwanted⟩)
    · exact ⟨⟨p, s, .canonical⟩,
        List.mem_append_left _ ((mem_canonicalClaims_iff hfor).mpr ⟨hd, rfl⟩), rfl, rfl⟩
    · have hfree : free (c.canonicalClaims source values) (p, s) = true := by
        rw [free, holderOf_canonicalClaims, hnone, Option.isNone_none]
      refine ⟨⟨p, s, .explicit⟩,
        List.mem_append_right _ (List.mem_map.mpr ⟨(p, s), ?_, rfl⟩), rfl, rfl⟩
      exact List.mem_eraseDups.mpr (List.mem_filter.mpr ⟨mem_wanted.mpr hwanted, hfree⟩)

/-- After both rounds, the claims of a value are its own: on its delegate, then those of its
    annotation. -/
theorem claims_filter (hnodup : values.Nodup) {v : ValueId} (hv : v ∈ values) :
    claims.filter (·.holder == v) = c.ownClaims source values v := by
  have hpart :
      (c.wanted source values).filter (·.1 == v) = (c.mentioned source v).map fun s => (v, s) :=
    filter_flatMap_of_nodup (fun u b hb => by
      obtain ⟨s, -, rfl⟩ := List.mem_map.mp hb
      rfl) hnodup hv
  have hpair : Function.Injective fun s : ValueId => (v, s) := fun s s' h => (Prod.mk.inj h).2
  have hfree : (free (c.canonicalClaims source values) ∘ fun s => (v, s))
      = fun s => (c.delegator source values s).isNone := by
    funext s
    rw [Function.comp_apply, free, holderOf_canonicalClaims]
  -- of what annotations claim, the part of the value, then what is free of it, each once
  have hexplicit : ((c.wanted source values).filter
      (free (c.canonicalClaims source values))).eraseDups.filter
      (·.1 == v) = ((c.mentioned source v).filter fun s =>
        (c.delegator source values s).isNone).eraseDups.map
        fun s => (v, s) := by
    rw [filter_eraseDups, List.filter_comm, hpart, List.filter_map, hfree, eraseDups_map hpair]
  rw [claims_eq hok, List.filter_append, canonicalClaims_filter hfor, ownClaims, List.filter_map]
  refine congrArg _ ?_
  rw [show ((fun k : ClaimOn => k.holder == v) ∘ fun k : ValueId × ValueId => ⟨k.1, k.2, .explicit⟩)
      = fun k => k.1 == v from rfl, hexplicit, List.map_map]
  rfl

end

/-- There is a table unless an annotation is refused. -/
theorem receivers_eq_error {e : EnumId} :
    (∃ error, c.receivers e source = .error error) ↔ c.Refused source (c.enumeration e).values := by
  rw [exists_error_iff, not_iff_comm, ← compatible_iff_not_refused]
  simp only [receivers, bind_eq_ok, pure_eq_ok, explicitClaims_eq_ok, place_run]
  constructor
  · rintro ⟨hknown, hcompatible⟩
    exact ⟨_, _, ⟨hknown, hcompatible, rfl⟩, rfl⟩
  · rintro ⟨-, -, ⟨hknown, hcompatible, -⟩, -⟩
    exact ⟨hknown, hcompatible⟩

/-- **Tables.** A table says who holds which value, and lists the claims of each value in turn. -/
theorem receives_of_receivers {e : EnumId} {table : ReceiveTable}
    (hinside : ∀ v ∈ (c.enumeration e).values, ∀ d, c.delegateIn source v = some d →
      d ∈ (c.enumeration source).values)
    (hnodup : (c.enumeration e).values.Nodup) (hok : c.receivers e source = .ok table) :
    c.Receives e source table := by
  obtain ⟨claims, hclaims, hok⟩ := bind_eq_ok.mp hok
  obtain rfl := pure_eq_ok.mp hok
  have hfor := claimsFor_canonicalClaims hinside
  have honce := (hfor.explicitClaims hclaims).1.once
  -- each claim is an entry of one value only
  have honce' : (((c.enumeration e).values.flatMap fun v =>
      (claims.filter (·.holder == v)).map c.receiveEntry).map (·.source)).Nodup := by
    simp only [List.map_flatMap, List.map_map]
    refine List.nodup_flatMap.mpr ⟨fun v _ => honce.sublist (List.filter_sublist.map _), ?_⟩
    refine hnodup.imp fun {u v} hne s hu hv => hne ?_
    obtain ⟨k, hk, rfl⟩ := List.mem_map.mp hu
    obtain ⟨k', hk', hsame⟩ := List.mem_map.mp hv
    obtain ⟨hmem, hholder⟩ := List.mem_filter.mp hk
    obtain ⟨hmem', hholder'⟩ := List.mem_filter.mp hk'
    rw [← eq_of_beq hholder, ← eq_of_beq hholder',
      List.inj_on_of_nodup_map honce hmem' hmem hsame]
  refine ⟨⟨rfl, rfl⟩, honce', fun p s => ?_, ?_⟩
  · rw [ReceiveTable.lookup, find?_map_eq_some honce', ← exists_claim_iff hclaims hfor]
    constructor
    · rintro ⟨r, hr, rfl, rfl⟩
      obtain ⟨v, -, hr⟩ := List.mem_flatMap.mp hr
      obtain ⟨k, hk, rfl⟩ := List.mem_map.mp hr
      exact ⟨k, (List.mem_filter.mp hk).1, rfl, rfl⟩
    · rintro ⟨k, hk, rfl, rfl⟩
      have hmember : k.holder ∈ (c.enumeration e).values := by
        obtain hd | ⟨-, hmember, -⟩ := (exists_claim_iff hclaims hfor).mp ⟨k, hk, rfl, rfl⟩
        · exact (delegateIn_of_delegator hd).1
        · exact hmember
      exact ⟨c.receiveEntry k, List.mem_flatMap.mpr ⟨k.holder, hmember,
        List.mem_map_of_mem (List.mem_filter.mpr ⟨hk, beq_self_eq_true _⟩)⟩, rfl, rfl⟩
  · refine List.flatMap_congr fun v hv => ?_
    rw [claims_filter hclaims hfor hnodup hv]

/-! ### Delegates of a linked chain -/

namespace Linked

variable {count : Nat} (h : c.Linked count)
include h

/-- A next counterpart is not of the private version. -/
theorem next_not_private {n t : Node} (ht : (c.links n).next = some t) :
    (c.version (c.versionOf t)).isPrivate = false := by
  have hpublic := h.public_of_leads (.inl ht)
  have hcoherent := h.coherent (has_of_leads (.inl ht)) hpublic
  have hversion := ((h.framed.wellFormed.mem_nodesOf _ _).mp (hcoherent.next t ht).2.1).2
  have hlatest := (hcoherent.next_isSome.mp (by rw [ht]; rfl)).1
  rw [h.framed.isLatest_eq (Nat.lt_of_succ_lt hpublic), beq_eq_false_iff_ne] at hlatest
  rw [hversion, h.framed.isPrivate_eq (show (c.versionOf n).index + 1 < count from hpublic),
    beq_eq_false_iff_ne]
  exact hlatest

/-- The delegate of a value in an enum is its counterpart there. -/
theorem delegateIn_iff {source : EnumId} {v s : ValueId} : c.delegateIn source v = some s ↔
    (c.value v).link.Leads s ∧ (c.value s).enumeration = source := by
  unfold delegateIn
  dsimp only
  rw [Option.filter_eq_some_iff, beq_iff_eq]
  refine and_congr_left fun hsource => ?_
  have hversion : c.versionOf (.value s) = (c.enumeration source).version := by
    rw [versionOf, hsource]
  rw [← hversion]
  constructor
  · intro hlink
    split at hlink
    · exact .inr hlink
    · exact .inl hlink
  · -- the version of the delegate tells which of the links is followed
    rintro (hnext | hfinal)
    · have hlink : (c.links (.value v)).next = some (.value s) := by simp [links, hnext]
      rw [if_neg (by simp [h.next_not_private hlink]), hnext]
    · have hlink : (c.links (.value v)).final = some (.value s) := by simp [links, hfinal]
      obtain ⟨q, hq, -, -, hprivate⟩ :=
        (h.coherent (has_of_leads (.inr hlink)) (h.public_of_leads (.inr hlink))).final
      obtain rfl := Option.some.inj (hlink.symm.trans hq)
      rw [if_pos hprivate, hfinal]

/-- The delegate of a value in an enum is a value of the enum. -/
theorem mem_of_delegateIn {source : EnumId} {v d : ValueId} (hd : c.delegateIn source v = some d) :
    d ∈ (c.enumeration source).values := by
  obtain ⟨hleads, hsource⟩ := h.delegateIn_iff.mp hd
  have hlink : (c.links (.value v)).Leads (.value d) := Link.leads_map Node.value hleads
  exact (h.framed.wellFormed.mem_values source d).mpr
    ⟨h.has_counterpart (has_of_leads hlink) hlink, hsource⟩

end Linked

/-- **Receive tables.** In a chain as it is built, for every enum and any enum that its values may
    come from, its counterparts above all: the delegate of a value is its counterpart there; there
    is no table exactly if an annotation names what that enum does not have, or what another value
    holds; and otherwise the table receives every value of it at most once, as the value that holds
    it, in the order of the values, of each the delegate first and then what its
    annotation names. -/
theorem receives_of_ofPackages {annotations : AnnotationSource} {privatePackage : String}
    {packages : List PackageSchema} (h : ofPackages annotations privatePackage packages = .ok c)
    (e source : EnumId) :
    (∀ v ∈ (c.enumeration e).values, ∀ s, c.delegateIn source v = some s ↔
      (c.value v).link.Leads s ∧ (c.value s).enumeration = source) ∧
    ((∃ error, c.receivers e source = .error error) ↔
      c.Refused source (c.enumeration e).values) ∧
    ∀ table, c.receivers e source = .ok table → c.Receives e source table := by
  have hlinked := linked_of_ofPackages h
  have hinside : ∀ v ∈ (c.enumeration e).values, ∀ d, c.delegateIn source v = some d →
      d ∈ (c.enumeration source).values := fun v _ d hd => hlinked.mem_of_delegateIn hd
  have hnodup : (c.enumeration e).values.Nodup :=
    nodup_of_pairwise (hlinked.framed.wellFormed.pairwise_values e)
  exact ⟨fun v _ s => hlinked.delegateIn_iff, receivers_eq_error,
    fun table htable => receives_of_receivers hinside hnodup htable⟩

/-! ### A sample -/

/-- An enum with values of some names. -/
def kindEnum (name : String) (values : List String) : EnumDescriptor :=
  { name, values := values.map fun v => { name := v, number := some 0 } }

/-- A package of enums, with a service for items that have a kind. -/
def kindFile (package : String) (enums : List EnumDescriptor) (locations : List Location) :
    FileDescriptor :=
  { name := package ++ ".proto"
    package
    enums
    messages := [{
      name := "Item"
      fields := [sampleField "kind" "TYPE_ENUM" (package ++ ".Kind")] }]
    services := [{
      name := "Service"
      methods := [{
        name := "Get", inputType := package ++ ".Item", outputType := package ++ ".Item" }] }]
    locations }

/-- Two kinds have the same delegate, and annotations name some values twice; of the modes one
    receives the other. -/
def kindSet : DescriptorSet :=
  { files := [
      kindFile "v1" [kindEnum "Kind" ["A", "B", "C"], kindEnum "Mode" ["ON", "OFF"]] [
        { path := [5, 0, 2, 0]
          leading := some "gen:svc delegate name=X\ngen:svc receive name=X name=Y name=Y" },
        { path := [5, 0, 2, 1], leading := some "gen:svc delegate name=X" },
        { path := [5, 0, 2, 2], leading := some "gen:svc receive name=Z" },
        { path := [5, 1, 2, 0], leading := some "gen:svc receive name=OFF" }],
      kindFile "private" [kindEnum "Kind" ["X", "Y", "Z", "C", "D"],
        kindEnum "Mode" ["ON", "OFF"]] []] }

/-- The packages of the kinds. -/
def kindPackages : List PackageSchema := (kindSet.packages.toOption).getD []

/-- The chain of the kinds. -/
def kindChain : Chain :=
  ((ofPackages AnnotationStyle.comments.source "private" kindPackages).toOption).getD {}

set_option maxRecDepth 10000 in
/-- What is checked of the sample by evaluation: 0 and 2 are the kinds, 1 and 3 the modes. -/
theorem kindChain_checked :
    (ofPackages AnnotationStyle.comments.source "private" kindPackages).toOption = some kindChain ∧
    (kindChain.receivers ⟨0⟩ ⟨2⟩).toOption.any (fun t =>
      t.entries.map (fun r => (r.sourceName, r.targetName)) =
        [("X", "A"), ("Y", "A"), ("C", "C"), ("Z", "C")]) = true ∧
    (kindChain.receivers ⟨1⟩ ⟨3⟩).toOption = none := by decide +kernel

/-- The table of the kinds, and the modes, which have none. -/
theorem receives_kind :
    ofPackages AnnotationStyle.comments.source "private" kindPackages = .ok kindChain ∧
      (∃ table, kindChain.receivers ⟨0⟩ ⟨2⟩ = .ok table ∧ kindChain.Receives ⟨0⟩ ⟨2⟩ table ∧
        table.entries.map (fun r => (r.sourceName, r.targetName)) =
          [("X", "A"), ("Y", "A"), ("C", "C"), ("Z", "C")]) ∧
      kindChain.Refused ⟨3⟩ (kindChain.enumeration ⟨1⟩).values := by
  obtain ⟨hok, hkinds, hmodes⟩ := kindChain_checked
  have hchain := toOption_eq_some.mp hok
  obtain ⟨table, htable, hentries⟩ := (Option.any_eq_true _ _).mp hkinds
  have htable := toOption_eq_some.mp htable
  obtain ⟨-, hrefused, -⟩ := receives_of_ofPackages hchain ⟨1⟩ ⟨3⟩
  obtain ⟨-, -, hreceives⟩ := receives_of_ofPackages hchain ⟨0⟩ ⟨2⟩
  refine ⟨hchain, ⟨table, htable, hreceives table htable, of_decide_eq_true hentries⟩,
    hrefused.mp (exists_error_iff.mpr ?_)⟩
  rintro ⟨t, ht⟩
  rw [ht] at hmodes
  cases hmodes

end Chain

end Lineage
