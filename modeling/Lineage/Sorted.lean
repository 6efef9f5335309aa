namespace Lineage.Sorted

/-!
# Entries sorted by name

A list of named entries whose names increase strictly is a finite map with one representation.

* `insert` — the map with one more entry, or with the entry of that name replaced,
* `erase`  — the map without a name,
* `ofList` — the map of a list in which the last entry of a name counts,
* `get?`   — the entry of a name; `get?_insert` says what `insert` changes, `insert_comm` that it
  does not matter which of two names comes first.
-/

variable {α : Type u}

/-- Put an entry at its place; an entry of the same name is replaced. -/
def insert (name : String) (value : α) : List (String × α) → List (String × α)
  | [] => [(name, value)]
  | (n, v) :: rest =>
    if name < n then (name, value) :: (n, v) :: rest
    else if name == n then (name, value) :: rest
    else (n, v) :: insert name value rest

/-- The first entry of a name. -/
def get? (entries : List (String × α)) (name : String) : Option α := entries.lookup name

/-- The entries of other names. -/
def erase (entries : List (String × α)) (name : String) : List (String × α) :=
  entries.filter (·.1 != name)

/-- The map in which the last entry of each name counts. -/
def ofList (entries : List (String × α)) : List (String × α) :=
  entries.foldl (fun acc e => insert e.1 e.2 acc) []

/-! ### Laws -/

@[simp] theorem get?_nil (name : String) : get? ([] : List (String × α)) name = none := rfl

/-- The first entry of a name counts. -/
theorem get?_cons (e : String × α) (name : String) (rest : List (String × α)) :
    get? (e :: rest) name = if name = e.1 then some e.2 else get? rest name := by
  rw [get?, List.lookup_cons, get?]
  by_cases h : name = e.1
  · simp [h]
  · simp [h, beq_eq_false_iff_ne.2 h]

/-- What is entered is found. -/
theorem get?_insert_self (name : String) (value : α) (entries : List (String × α)) :
    get? (insert name value entries) name = some value := by
  induction entries with
  | nil => simp [insert, get?_cons]
  | cons e rest ih =>
    simp only [insert]
    split
    · simp [get?_cons]
    · split
      · simp [get?_cons]
      · next h => simp_all [get?_cons]

/-- What is entered under another name does not count. -/
theorem get?_insert_ne {name other : String} (h : other ≠ name) (value : α)
    (entries : List (String × α)) :
    get? (insert name value entries) other = get? entries other := by
  induction entries with
  | nil => simp [insert, get?_cons, h]
  | cons e rest ih =>
    simp only [insert]
    split
    · simp [get?_cons, h]
    · split
      · next heq => rw [beq_iff_eq] at heq; subst heq; simp [get?_cons, h]
      · simp [get?_cons, ih]

/-- `insert` changes the entry of its own name and no other. -/
theorem get?_insert (name other : String) (value : α) (entries : List (String × α)) :
    get? (insert name value entries) other
      = if other = name then some value else get? entries other := by
  by_cases h : other = name
  · subst h; simp [get?_insert_self]
  · simp [h, get?_insert_ne h]

/-- Names can be entered in any order. -/
theorem insert_comm_of_lt {a b : String} (h : a < b) (x y : α) (entries : List (String × α)) :
    insert a x (insert b y entries) = insert b y (insert a x entries) := by
  have hba : ¬b < a := String.lt_asymm h
  have hne : a ≠ b := fun heq => String.lt_irrefl b (heq ▸ h)
  induction entries with
  | nil => simp [insert, h, hba, hne.symm]
  | cons e rest ih =>
    obtain ⟨n, v⟩ := e
    by_cases hn : a < n
    · by_cases hb : b < n
      · simp [insert, hn, hb, h, hba, hne.symm]
      · by_cases hbn : b = n
        · subst hbn
          simp [insert, h, hba, hne.symm]
        · simp [insert, hn, hb, hbn, hba, hne.symm]
    · -- the entry stays in front of both
      have hb : ¬b < n := fun hb => hn (String.lt_trans h hb)
      by_cases han : a = n
      · subst han
        simp [insert, hba, hne.symm]
      · have hbn : b ≠ n := fun hbn => hn (hbn ▸ h)
        simp [insert, hn, han, hb, hbn, ih]

/-- Entries of different names may be put in either order. -/
theorem insert_comm {a b : String} (h : a ≠ b) (x y : α) (entries : List (String × α)) :
    insert a x (insert b y entries) = insert b y (insert a x entries) := by
  by_cases hab : a < b
  · exact insert_comm_of_lt hab x y entries
  · have hba : b < a := by
      apply Classical.byContradiction
      intro hba
      exact h (String.le_antisymm (String.not_lt.mp hba) (String.not_lt.mp hab))
    exact (insert_comm_of_lt hba y x entries).symm

/-- An entry is the new one, or has been there. -/
theorem mem_insert {name : String} {value : α} {entries : List (String × α)} {e : String × α}
    (h : e ∈ insert name value entries) : e = (name, value) ∨ e ∈ entries := by
  induction entries with
  | nil => exact .inl (List.mem_singleton.mp h)
  | cons x rest ih =>
    simp only [insert] at h
    split at h
    · exact List.mem_cons.mp h
    · split at h
      · exact (List.mem_cons.mp h).imp_right (List.mem_cons_of_mem _)
      · obtain rfl | h := List.mem_cons.mp h
        · exact .inr List.mem_cons_self
        · exact (ih h).imp_right (List.mem_cons_of_mem _)

/-- What is found is an entry. -/
theorem mem_of_get? {entries : List (String × α)} {name : String} {value : α}
    (h : get? entries name = some value) : (name, value) ∈ entries := by
  induction entries with
  | nil => cases h
  | cons e rest ih =>
    rw [get?_cons] at h
    split at h
    · obtain rfl := Option.some.inj h
      rename_i heq
      exact heq ▸ List.mem_cons_self
    · exact List.mem_cons_of_mem _ (ih h)

end Lineage.Sorted
