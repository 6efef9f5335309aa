import Lineage.Files.Tree

namespace Lineage.Files

/-!
# Written files

* `placeOf?` — where an artifact goes,
* `Tree.Holds` — a file with some content at a place,
* `Tree.Keeps` — files are left as they are, but for those of some path texts,
* `Tree.write_holds` — an artifact that is written is held, and the files at other places are kept,
* `Tree.writeAll_holds` — artifacts that go to different places are all held when they are written.
-/

/-! ### Places -/

/-- A walk in two parts goes on where its first part ends. -/
theorem walk_append (p : Place) (xs ys : List Step) :
    (walk p (xs ++ ys)).2 = (walk p xs).2.bind fun q => (walk q ys).2 := by
  induction xs generalizing p with
  | nil => rfl
  | cons x xs ih =>
    cases x with
    | enter name => exact ih (name :: p)
    | up =>
      cases p with
      | nil => rfl
      | cons _ outer => exact ih outer

/-- What the texts of all places within a place begin with. -/
def Place.lead (p : Place) : String := if p.isEmpty then "" else p.text ++ "/"

/-- Where an artifact of a name goes, below a place. -/
def placeOf? (base : Place) (name : String) : Option Place :=
  let path := Path.ofText name
  (walk [] path.parent).2.bind fun directory => path.file.map (· :: (directory ++ base))

namespace Tree

variable {t t' t₁ : Tree} {p q base : Place} {but : List String} {content : String}

/-! ### Files that are kept -/

/-- A file with a content is found at a place. -/
def Holds (t : Tree) (p : Place) (content : String) : Prop := t.entry? p = some (.file content)

/-- Files are left as they are, but for those of some path texts. -/
def Keeps (but : List String) (t t' : Tree) : Prop :=
  ∀ p content, p.text ∉ but → t.Holds p content → t'.Holds p content

/-- Nothing changes. -/
theorem Keeps.refl (but : List String) (t : Tree) : Keeps but t t := fun _ _ _ h => h

/-- Two changes that keep files keep them together. -/
theorem Keeps.trans (h : Keeps but t t₁) (h' : Keeps but t₁ t') : Keeps but t t' :=
  fun p content hp hold => h' p content hp (h p content hp hold)

/-- What may be changed may be enlarged. -/
theorem Keeps.mono {all : List String} (h : Keeps but t t') (hsub : but ⊆ all) :
    Keeps all t t' :=
  fun p content hp => h p content fun hmem => hp (hsub hmem)

/-- No file is held at the root. -/
theorem Holds.ne_nil (h : t.Holds p content) : p ≠ [] := by
  rintro rfl
  cases h

/-- Below the root a place holds its entry. -/
theorem get?_entries (hp : p ≠ []) : Sorted.get? t.entries p.text = t.entry? p := by
  rw [ entry?, if_neg (by simpa using hp)]

/-- A new entry leaves the files of other path texts as they are. -/
theorem keeps_insert (t : Tree) (p : Place) (e : Entry) : Keeps [p.text] t (t.insert p e) := by
  intro q content hq h
  have hne := h.ne_nil
  unfold Holds at *
  rw [← get?_entries hne] at *
  have htext : q.text ≠ p.text := fun heq => hq (List.mem_singleton.mpr heq)
  exact (Sorted.get?_insert_ne htext _ _).trans h

/-- Making a directory leaves all files as they are. -/
theorem keeps_ensureDirectory (h : t.ensureDirectory p = some t') : Keeps [] t t' := by
  unfold ensureDirectory at h
  split at h
  · obtain rfl := Option.some.inj h
    exact .refl _ _
  · cases h
  · -- nothing is there, so no file has that path text
    next hnone =>
    split at h
    · obtain rfl := Option.some.inj h
      intro q content _ hq
      refine keeps_insert t p .directory q content (fun hmem => ?_) hq
      have htext := List.mem_singleton.mp hmem
      have hp : p ≠ [] := by
        rintro rfl
        cases hnone
      have hq' : q ≠ [] := hq.ne_nil
      rw [Holds, ← get?_entries hq', htext, get?_entries hp, hnone] at hq
      cases hq
    · cases h

/-- Making directories keeps all files. -/
theorem keeps_ensureAll (t : Tree) (ps : List Place) : Keeps [] t (t.ensureAll ps).1 := by
  induction ps generalizing t with
  | nil => exact .refl _ _
  | cons p ps ih =>
    unfold ensureAll
    split
    · next t₁ h => exact (keeps_ensureDirectory h).trans (ih t₁)
    · exact .refl _ _

/-- Making way keeps all files, and leads to where the steps lead. -/
theorem makeWay_eq (t : Tree) (base : Place) (steps : List Step) :
    Keeps [] t (t.makeWay base steps).1 ∧
      ∀ d, (t.makeWay base steps).2 = some d → ∃ q, (walk [] steps).2 = some q ∧ q ++ base = d := by
  rcases hwalk : walk [] steps with ⟨entered, stop⟩
  have hkeeps := keeps_ensureAll t (entered.map (· ++ base))
  simp only [makeWay, hwalk]
  split
  · next h =>
    rw [h] at hkeeps
    exact ⟨hkeeps, fun d hd => Option.map_eq_some_iff.mp hd⟩
  · next h =>
    rw [h] at hkeeps
    exact ⟨hkeeps, fun d hd => by cases hd⟩

/-! ### Files that are written -/

/-- A file that is written is held, and all others are kept. -/
theorem writeFile_holds (h : t.writeFile p content = some t') :
    t'.Holds p content ∧ Keeps [p.text] t t' := by
  unfold writeFile at h
  split at h
  · cases h
  · next hdirectory =>
    split at h
    · obtain rfl := Option.some.inj h
      have hp : p ≠ [] := by
        rintro rfl
        exact hdirectory rfl
      refine ⟨?_, keeps_insert t p _⟩
      rw [Holds, ← get?_entries hp]
      exact Sorted.get?_insert_self _ _ _
    · cases h

/-- **An artifact that is written** is held where it goes, and the files at other places
    are kept. -/
theorem write_holds {a : Generated.Artifact} (h : t.write base a = (t', true)) :
    ∃ p, placeOf? base a.name = some p ∧ t'.Holds p a.content ∧ Keeps [p.text] t t' := by
  unfold write at h
  dsimp only at h
  split at h
  · cases h
  · -- making the directories on the way keeps all files, and the walk ends in the last of them
    obtain ⟨hkeeps, hend⟩ := makeWay_eq t base (Path.ofText a.name).parent
    split at h
    · cases h
    · next t₁ directory hway =>
      rw [hway] at hkeeps hend
      obtain ⟨q, hwalk, rfl⟩ := hend _ rfl
      split at h
      · next t₂ hfile =>
        obtain ⟨rfl, -⟩ := Prod.mk.inj h
        obtain ⟨name, hname, hwrite⟩ := Option.bind_eq_some_iff.mp hfile
        obtain ⟨hheld, hrest⟩ := writeFile_holds hwrite
        refine ⟨name :: (q ++ base), ?_, hheld, (hkeeps.mono (List.nil_subset _)).trans hrest⟩
        simp [placeOf?, hwalk, hname]
      · cases h

/-- **Artifacts that go to different places** are all held when they are written. -/
theorem writeAll_holds {artifacts : List Generated.Artifact}
    (h : t.writeAll base artifacts = (t', none))
    (hplaces : artifacts.Pairwise fun a b => ∀ p ∈ placeOf? base a.name,
      ∀ q ∈ placeOf? base b.name, p.text ≠ q.text) :
    (∀ a ∈ artifacts, ∃ p, placeOf? base a.name = some p ∧ t'.Holds p a.content) ∧
      ∀ p content, (∀ a ∈ artifacts, ∀ q ∈ placeOf? base a.name, p.text ≠ q.text) →
        t.Holds p content → t'.Holds p content := by
  induction artifacts generalizing t with
  | nil =>
    obtain ⟨rfl, -⟩ := Prod.mk.inj h
    exact ⟨fun a ha => absurd ha List.not_mem_nil, fun _ _ _ hold => hold⟩
  | cons a rest ih =>
    obtain ⟨ha, hrest⟩ := List.pairwise_cons.mp hplaces
    unfold writeAll at h
    split at h
    · next t₁ hwrite =>
      obtain ⟨p, hp, hheld, hkept⟩ := write_holds hwrite
      obtain ⟨hall, hkeeps⟩ := ih h hrest
      constructor
      · intro b hb
        obtain rfl | hb := List.mem_cons.mp hb
        · -- what is written after it goes elsewhere
          exact ⟨p, hp, hkeeps p _ (fun b hb q hq => ha b hb p hp q hq) hheld⟩
        · exact hall b hb
      · intro q content hq hold
        refine hkeeps q content (fun b hb => hq b (List.mem_cons_of_mem _ hb)) ?_
        refine hkept q content (fun hmem => ?_) hold
        exact hq a List.mem_cons_self p hp (List.mem_singleton.mp hmem)
    · cases h

end Tree

end Lineage.Files
