import Lineage.Converter.Receive
import Lineage.Proofs.Chain.Membership
import Lineage.Proofs.Outcome
import Mathlib.Data.List.Nodup

namespace Lineage.Chain

/-!
# What receive tables hold

* `ClaimsFor` — claims on values of a counterpart, each of which is claimed once,
* `claimsFor_canonicalClaims`, `ClaimsFor.explicitClaims` — both rounds of claims make such claims,
  and the second one keeps those of the first,
* `mem_canonicalClaims` — a value whose delegate is no other value's claims it,
* `receivers_eq_ok` — the entries of a table are its claims.
-/

variable {c : Chain} {source : EnumId} {claims claims' : List ClaimOn}

/-- Claims on values of an enum, each of which is claimed once. -/
structure ClaimsFor (c : Chain) (source : EnumId) (claims : List ClaimOn) : Prop where
  once : (claims.map (·.source)).Nodup
  inside : ∀ k ∈ claims, k.source ∈ (c.enumeration source).values

/-- At first nobody claims anything. -/
theorem ClaimsFor.nil (c : Chain) (source : EnumId) : ClaimsFor c source [] :=
  ⟨.nil, by simp⟩

/-- Nobody holds a value if no claim is on it. -/
theorem holderOf_eq_none {v : ValueId} : holderOf claims v = none ↔ ∀ k ∈ claims, k.source ≠ v := by
  simp [holderOf]

/-- One more claim, on a value that nobody has claimed. -/
theorem ClaimsFor.concat (h : ClaimsFor c source claims) {k : ClaimOn}
    (hfree : holderOf claims k.source = none) (hk : k.source ∈ (c.enumeration source).values) :
    ClaimsFor c source (claims ++ [k]) := by
  constructor
  · rw [List.map_append, List.map_singleton, List.nodup_append]
    refine ⟨h.once, List.nodup_singleton _, fun a ha b hb heq => ?_⟩
    obtain ⟨k', hk', rfl⟩ := List.mem_map.mp ha
    exact holderOf_eq_none.mp hfree k' hk' (heq.trans (List.mem_singleton.mp hb))
  · intro k' hk'
    obtain hk' | hk' := List.mem_append.mp hk'
    · exact h.inside k' hk'
    · exact List.mem_singleton.mp hk' ▸ hk

/-- Who claims the same value is the same. -/
theorem ClaimsFor.eq (h : ClaimsFor c source claims) {k k' : ClaimOn} (hk : k ∈ claims)
    (hk' : k' ∈ claims) (hsame : k.source = k'.source) : k = k' :=
  List.inj_on_of_nodup_map h.once hk hk' hsame

/-! ### The delegates -/

/-- The claims of the delegates are on values of the counterpart, each claimed once. -/
theorem claimsFor_canonicalClaims {values : List ValueId}
    (hinside : ∀ v ∈ values, ∀ d, c.delegateIn source v = some d →
      d ∈ (c.enumeration source).values) :
    ClaimsFor c source (c.canonicalClaims source values) := by
  unfold canonicalClaims
  refine List.foldlRecOn values _ (ClaimsFor.nil c source) fun claims h v hv => ?_
  unfold addCanonical
  split
  · exact h
  · rename_i d hd
    split
    · exact h
    · rename_i hfree
      exact h.concat (by simpa using hfree) (hinside v hv d hd)

/-- A claim that is made is never taken back. -/
theorem addCanonical_subset (v : ValueId) : claims ⊆ c.addCanonical source claims v := by
  unfold addCanonical
  split
  · exact List.Subset.refl _
  · split
    · exact List.Subset.refl _
    · exact List.subset_append_left _ _

/-- Whoever holds a value on account of the delegates has it as its delegate. -/
theorem delegate_of_mem_canonicalClaims {values : List ValueId} {k : ClaimOn}
    (hk : k ∈ c.canonicalClaims source values) :
    k.holder ∈ values ∧ c.delegateIn source k.holder = some k.source ∧ k.claim = .canonical := by
  have hall : ∀ k ∈ c.canonicalClaims source values, k.holder ∈ values ∧
      c.delegateIn source k.holder = some k.source ∧ k.claim = .canonical := by
    unfold canonicalClaims
    refine List.foldlRecOn (motive := fun claims => ∀ k ∈ claims, k.holder ∈ values ∧
      c.delegateIn source k.holder = some k.source ∧ k.claim = .canonical) values
      (c.addCanonical source) (fun _ hk => absurd hk List.not_mem_nil) fun claims h v hv k hk => ?_
    unfold addCanonical at hk
    split at hk
    · exact h k hk
    · rename_i d hd
      split at hk
      · exact h k hk
      · obtain hk | hk := List.mem_append.mp hk
        · exact h k hk
        · obtain rfl := List.mem_singleton.mp hk
          exact ⟨hv, hd, rfl⟩
  exact hall k hk

/-- **A value whose delegate is no other value's** claims it. -/
theorem mem_canonicalClaims {values : List ValueId} {v d : ValueId} (hv : v ∈ values)
    (hd : c.delegateIn source v = some d)
    (halone : ∀ u ∈ values, c.delegateIn source u = some d → u = v) :
    ⟨v, d, .canonical⟩ ∈ c.canonicalClaims source values := by
  -- what comes after the value's turn only adds claims; at its turn it claims, or the claim is
  -- there
  obtain ⟨before, rest, rfl⟩ := List.append_of_mem hv
  have hsubset :
      ∀ (rest : List ValueId) claims, claims ⊆ rest.foldl (c.addCanonical source) claims := by
    intro rest
    induction rest with
    | nil => exact fun claims => List.Subset.refl _
    | cons u rest ih => exact fun claims => List.Subset.trans (addCanonical_subset u) (ih _)
  unfold canonicalClaims
  rw [List.foldl_append, List.foldl_cons]
  refine hsubset rest _ ?_
  unfold addCanonical
  rw [hd]
  dsimp only
  split
  · -- who holds it already is the value itself
    rename_i hheld
    obtain ⟨holder, hholder⟩ := Option.isSome_iff_exists.mp hheld
    obtain ⟨k, hk, -⟩ := Option.map_eq_some_iff.mp hholder
    have hmem := List.mem_of_find?_eq_some hk
    have hsource : k.source = d := by simpa using List.find?_some hk
    obtain ⟨hmember, hdelegate, hclaim⟩ := delegate_of_mem_canonicalClaims hmem
    have hown := halone k.holder (List.mem_append_left _ hmember) (hsource ▸ hdelegate)
    have hk : k = ⟨v, d, .canonical⟩ := by rw [← hown, ← hsource, ← hclaim]
    exact hk ▸ hmem
  · exact List.mem_append_right _ (List.mem_singleton.mpr rfl)

/-! ### What annotations name -/

/-- A claim by name keeps the claims that were made before. -/
theorem ClaimsFor.addExplicit (h : ClaimsFor c source claims) {v : ValueId} {name : String}
    (hok : c.addExplicit source v claims name = .ok claims') :
    ClaimsFor c source claims' ∧ claims ⊆ claims' := by
  unfold Chain.addExplicit at hok
  split at hok
  · cases hok
  · rename_i received hreceived
    split at hok
    · rename_i hfree
      obtain rfl := Except.ok.inj hok
      exact ⟨h.concat hfree (List.mem_of_find?_eq_some hreceived), List.subset_append_left _ _⟩
    · split at hok
      · obtain rfl := Except.ok.inj hok
        exact ⟨h, List.Subset.refl _⟩
      · cases hok

/-- The claims of annotations come on top of others. -/
theorem ClaimsFor.explicitClaims (h : ClaimsFor c source claims) {values : List ValueId}
    (hok : c.explicitClaims source values claims = .ok claims') :
    ClaimsFor c source claims' ∧ claims ⊆ claims' := by
  unfold Chain.explicitClaims at hok
  -- the values in turn, and for each of them the names of its annotation
  refine foldlM_preserves (fun made => ClaimsFor c source made ∧ claims ⊆ made)
    ⟨h, List.Subset.refl _⟩ (fun v _ made made' hmade hv => ?_) hok
  refine foldlM_preserves (fun made => ClaimsFor c source made ∧ claims ⊆ made) hmade
    (fun name _ made made' hmade hname => ?_) hv
  obtain ⟨hclaims, hsubset⟩ := hmade.1.addExplicit hname
  exact ⟨hclaims, List.Subset.trans hmade.2 hsubset⟩

/-! ### Tables -/

/-- **The entries of a table** are claims on values of the counterpart, each claimed once: those of
    the delegates and those of the annotations. -/
theorem receivers_eq_ok {e : EnumId} {table : ReceiveTable}
    (hinside : ∀ v ∈ (c.enumeration e).values, ∀ d, c.delegateIn source v = some d →
      d ∈ (c.enumeration source).values)
    (hok : c.receivers e source = .ok table) :
    ∃ claims, ClaimsFor c source claims ∧
      c.canonicalClaims source (c.enumeration e).values ⊆ claims ∧
      table.entries = (c.enumeration e).values.flatMap fun v =>
        (claims.filter (·.holder == v)).map c.receiveEntry := by
  obtain ⟨claims, hclaims, hok⟩ := bind_eq_ok.mp hok
  obtain rfl := pure_eq_ok.mp hok
  obtain ⟨hfor, hsubset⟩ := (claimsFor_canonicalClaims hinside).explicitClaims hclaims
  exact ⟨claims, hfor, hsubset, rfl⟩

end Lineage.Chain
