import Lineage.Sorted
import Mathlib.Data.List.Perm.Basic
import Mathlib.Data.String.Basic

namespace Lineage.Sorted

/-!
# Entries that are sorted

* `pairwise_insert` — entries stay sorted when one is put at its place,
* `insert_perm` — an entry of a new name leaves the others as they are,
* `nodup_names` — sorted entries have different names,
* `get?_eq_some_iff` — the first entry of a name is the only one,
* `eq_of_get?` — sorted entries are determined by what is found in them.
-/

variable {α : Type u} {entries entries' : List (String × α)}

/-- Entries stay sorted when one is put at its place. -/
theorem pairwise_insert (h : entries.Pairwise (·.1 < ·.1)) (name : String) (value : α) :
    (insert name value entries).Pairwise (·.1 < ·.1) := by
  induction entries with
  | nil => exact List.pairwise_singleton _ _
  | cons e rest ih =>
    obtain ⟨he, hrest⟩ := List.pairwise_cons.mp h
    simp only [insert]
    split
    · rename_i hlt
      refine List.pairwise_cons.mpr ⟨fun a ha => ?_, h⟩
      obtain rfl | ha := List.mem_cons.mp ha
      · exact hlt
      · exact lt_trans hlt (he a ha)
    · rename_i hle
      split
      · rename_i heq
        rw [beq_iff_eq] at heq
        exact List.pairwise_cons.mpr ⟨fun a ha => heq ▸ he a ha, hrest⟩
      · rename_i hne
        refine List.pairwise_cons.mpr ⟨fun a ha => ?_, ih hrest⟩
        obtain rfl | ha := mem_insert ha
        · exact lt_of_le_of_ne (not_lt.mp hle) fun heq => hne (by simpa using heq.symm)
        · exact he a ha

/-- An entry of a new name leaves the others as they are. -/
theorem insert_perm {name : String} (h : name ∉ entries.map (·.1)) (value : α) :
    (insert name value entries).Perm ((name, value) :: entries) := by
  induction entries with
  | nil => exact .refl _
  | cons e rest ih =>
    obtain ⟨hne, hrest⟩ := not_or.mp (List.mem_cons.not.mp h)
    simp only [insert]
    split
    · exact .refl _
    · rw [if_neg (by simpa using hne)]
      exact ((ih hrest).cons e).trans (.swap _ _ _)

/-- Sorted entries have different names. -/
theorem nodup_names (h : entries.Pairwise (·.1 < ·.1)) : (entries.map (·.1)).Nodup :=
  List.pairwise_map.mpr (h.imp fun hlt => ne_of_lt hlt)

/-- The first entry of a name is the only one. -/
theorem get?_eq_some_iff (h : entries.Pairwise (·.1 < ·.1)) {name : String} {value : α} :
    get? entries name = some value ↔ (name, value) ∈ entries := by
  refine ⟨mem_of_get?, fun hmem => ?_⟩
  induction entries with
  | nil => cases hmem
  | cons e rest ih =>
    obtain ⟨he, hrest⟩ := List.pairwise_cons.mp h
    rw [get?_cons]
    obtain rfl | hmem := List.mem_cons.mp hmem
    · exact if_pos rfl
    · rw [if_neg (he _ hmem).ne', ih hrest hmem]

/-- **Sorted entries are determined by what is found in them.** -/
theorem eq_of_get? (h : entries.Pairwise (·.1 < ·.1)) (h' : entries'.Pairwise (·.1 < ·.1))
    (heq : ∀ name, get? entries name = get? entries' name) : entries = entries' := by
  have hnodup : ∀ {xs : List (String × α)}, xs.Pairwise (·.1 < ·.1) → xs.Nodup := fun hxs =>
    hxs.imp fun {a b} hlt (he : a = b) => lt_irrefl b.1 (he ▸ hlt)
  have hmem : ∀ e, e ∈ entries ↔ e ∈ entries' := fun e => by
    rw [← get?_eq_some_iff h, heq, get?_eq_some_iff h']
  -- the same entries without repetitions are a permutation, and sorted ones are equal
  refine ((List.perm_ext_iff_of_nodup (hnodup h) (hnodup h')).mpr hmem).eq_of_pairwise ?_ h h'
  intro a b _ _ hab hba
  exact absurd hba (lt_asymm hab)

end Lineage.Sorted
