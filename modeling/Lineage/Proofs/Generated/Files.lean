import Lineage.Proofs.Files.Tree
import Lineage.Proofs.Plan.Sample
import Lineage.Proofs.Text.Words
import Mathlib.Data.List.Infix

namespace Lineage

/-!
# Files of units

The unit of a version goes into a directory of the version's short name, which is the last segment
of its package.

* `Config.versionPath_eq`, `Config.registerPath_eq` — the paths of units, which all begin alike,
* `unitPath_inj` — what follows tells the units of different short names apart,
* `Files.exists_text_placeOf?` — the places that they are written to, which all begin alike too,
* `Plan.FiledApart` — units have files of their own as far as short names tell versions apart,
* `Plan.filedApart_of_generate` — the units of every plan that is generated,
* `Plan.not_distinct_names` — two packages with one short name are put into one file.
-/

/-! ### Paths -/

/-- A relative path is joined behind the base. -/
theorem joinPath_of_head? {base path : String} (h : path.toList.head? ≠ some '/') :
    joinPath base path = base
      ++ (if base.isEmpty || base.toList.getLast? == some '/' then "" else "/") ++ path := by
  rw [joinPath, if_neg (by simpa using h)]
  split
  · rw [String.append_empty]
  · rfl

/-- A name without separators is a relative path. -/
theorem head?_of_not_mem {path : String} (h : '/' ∉ path.toList) :
    path.toList.head? ≠ some '/' :=
  fun hhead => h (List.mem_of_mem_head? hhead)

/-- A path that is joined to another is found at the end. -/
theorem suffix_joinPath (base path : String) : path.toList <:+ (joinPath base path).toList := by
  by_cases h : path.toList.head? = some '/'
  · rw [joinPath, if_pos (by simpa using h)]
  · rw [joinPath_of_head? h, String.toList_append]
    exact List.suffix_append _ _

/-- The path of a version's unit within the directory of all units. -/
def unitPath (shortName : String) : String :=
  (if shortName.isEmpty then "" else shortName ++ "/") ++ "service.rs.txt"

@[simp] theorem unitPath_empty : unitPath "" = "service.rs.txt" := rfl

/-- A unit with a name is in a directory of that name. -/
theorem unitPath_of_ne {a : String} (h : a ≠ "") : unitPath a = a ++ "/" ++ "service.rs.txt" := by
  rw [unitPath, if_neg (by simpa using h)]

/-- Units of different short names have different paths. -/
theorem unitPath_inj {a b : String} (h : unitPath a = unitPath b) : a = b := by
  -- without a short name there is no directory, and with one there is its separator
  have hdirectory := (String.append_left_inj _).mp h
  have hne (s : String) : s ++ "/" ≠ "" := by simp
  by_cases ha : a = ""
  · by_cases hb : b = ""
    · rw [ha, hb]
    · simp [ha, hb, (hne b).symm] at hdirectory
  · by_cases hb : b = ""
    · simp [ha, hb, hne a] at hdirectory
    · simpa [ha, hb, String.append_left_inj] using hdirectory

namespace Config

variable {c : Config} {a : String}

/-- What the paths of all units begin with. -/
def lead (c : Config) : String :=
  c.outPrefix ++ if c.outPrefix.isEmpty || c.outPrefix.toList.getLast? == some '/' then "" else "/"

/-- What leads to the units is empty or a directory. -/
theorem lead_closed (c : Config) : c.lead = "" ∨ c.lead.toList.getLast? = some '/' := by
  unfold lead
  by_cases hempty : c.outPrefix = ""
  · simp [hempty]
  · by_cases hlast : c.outPrefix.toList.getLast? = some '/'
    · simp [hlast]
    · simp [hempty, hlast]

/-- The register is where the configuration leads to. -/
theorem registerPath_eq (c : Config) : c.registerPath = c.lead ++ "register.rs.txt" :=
  joinPath_of_head? (by decide)

/-- The unit of a version is where the configuration leads to. -/
theorem versionPath_eq (h : '/' ∉ a.toList) : c.versionPath a = c.lead ++ unitPath a := by
  have hinner : joinPath c.outPrefix a = c.lead ++ a := joinPath_of_head? (head?_of_not_mem h)
  rw [versionPath, joinPath_of_head? (by decide), hinner]
  by_cases ha : a = ""
  · -- the unit is put directly into the directory of all units
    subst ha
    rw [String.append_empty, unitPath_empty, if_pos ?_, String.append_empty]
    obtain hlead | hlead := c.lead_closed <;> simp [hlead]
  · have hlast : a.toList.getLast? ≠ some '/' := fun hlast => h (List.mem_of_getLast? hlast)
    rw [unitPath_of_ne ha, if_neg (by simp [ha, hlast])]
    simp only [String.append_assoc]

/-- Version paths end in the name of a version's file, whatever the short name is. -/
theorem versionPath_ne_registerPath (c : Config) (a : String) :
    c.versionPath a ≠ c.registerPath := by
  intro h
  have hservice : "service.rs.txt".toList <:+ c.registerPath.toList := h ▸ suffix_joinPath _ _
  have hregister : "register.rs.txt".toList <:+ c.registerPath.toList := suffix_joinPath _ _
  have hend := List.suffix_of_suffix_length_le hservice hregister (by decide)
  exact absurd hend (by decide)

end Config

/-! ### Places -/

namespace Files

/-- A text that is one step of a path, into what it names. -/
def IsPart (name : String) : Prop :=
  '/' ∉ name.toList ∧ Step.ofPart? name.toList = some (.enter name)

/-- Names without points are parts of paths. -/
theorem isPart_of_not_mem {name : String} (hne : name ≠ "") (hsep : '/' ∉ name.toList)
    (hpoint : '.' ∉ name.toList) : IsPart name := by
  refine ⟨hsep, ?_⟩
  unfold Step.ofPart?
  split
  · next h => exact absurd (by simpa using h) hne
  · next h => simp [h] at hpoint
  · next h => simp [h] at hpoint
  · rw [String.ofList_toList]

/-- A walk along names ends within them. -/
theorem walk_names (p : Place) (names : List String) :
    (walk p (names.map .enter)).2 = some (names.reverse ++ p) := by
  induction names generalizing p with
  | nil => rfl
  | cons name names ih =>
    rw [List.reverse_cons, List.append_assoc]
    exact ih (name :: p)

/-- The text of a place below another one. -/
theorem Place.text_names (p : Place) {names : List String} (h : names ≠ []) :
    Place.text (names.reverse ++ p) = p.lead ++ "/".intercalate names := by
  unfold Place.text Place.lead
  rw [List.reverse_append, List.reverse_reverse]
  by_cases hp : p = []
  · simp [hp]
  · rw [String.intercalate_append_of_ne_nil (by simpa using hp) h, if_neg (by simpa using hp)]
    rfl

/-- The path of names below a path: the steps of both, one after the other. -/
theorem ofText_names {lead : String} {ps : List (List Char)}
    (hps : ∀ cs, Text.pieces '/' (lead.toList ++ cs) = ps ++ Text.pieces '/' cs)
    {names : List String} {file : String} (hnames : ∀ name ∈ names ++ [file], IsPart name) :
    (Path.ofText (lead ++ "/".intercalate (names ++ [file]))).parent
        = ps.filterMap Step.ofPart? ++ names.map .enter ∧
      (Path.ofText (lead ++ "/".intercalate (names ++ [file]))).file = some file := by
  have hparts : Text.pieces '/' (lead ++ "/".intercalate (names ++ [file])).toList
      = ps ++ (names ++ [file]).map String.toList := by
    -- no name has a separator, so that names are what is found between separators
    have hjoin : Text.pieces '/' (['/'].intercalate ((names ++ [file]).map String.toList))
        = (names ++ [file]).map String.toList := by
      refine Text.pieces_join (by simp) fun part hpart => ?_
      obtain ⟨name, hname, rfl⟩ := List.mem_map.mp hpart
      exact (hnames name hname).1
    rw [String.toList_append, hps, String.toList_intercalate]
    exact congrArg (ps ++ ·) hjoin
  have hsteps : ((names ++ [file]).map String.toList).filterMap Step.ofPart?
      = (names ++ [file]).map .enter := by
    rw [List.filterMap_map, ← List.filterMap_eq_map]
    exact List.filterMap_congr fun name hname => (hnames name hname).2
  have hlast : (Step.ofPart? file.toList).bind Step.name? = some file := by
    rw [(hnames file (by simp)).2]
    rfl
  constructor
  · rw [Path.parent, Path.ofText]
    dsimp only
    rw [hparts, List.filterMap_append, hsteps, List.map_append, ← List.append_assoc]
    exact List.dropLast_concat
  · rw [Path.ofText]
    dsimp only
    rw [hparts, List.map_append, ← List.append_assoc]
    simpa using hlast

/-- **Artifacts below one directory** are put below one place. -/
theorem exists_text_placeOf? (lead : String) (hlead : lead = "" ∨ lead.toList.getLast? = some '/')
    (base : Place) : ∃ front : Option String, ∀ names : List String, names ≠ [] →
      (∀ name ∈ names, IsPart name) →
        (placeOf? base (lead ++ "/".intercalate names)).map Place.text
          = front.map (· ++ "/".intercalate names) := by
  -- what the names are put after ends in a separator, and its parts are those of a directory
  have hpieces : ∃ ps, ∀ cs, Text.pieces '/' (lead.toList ++ cs) = ps ++ Text.pieces '/' cs := by
    obtain rfl | hlast := hlead
    · exact ⟨[], fun cs => rfl⟩
    · obtain ⟨front, hfront⟩ := List.getLast?_eq_some_iff.mp hlast
      refine ⟨Text.pieces '/' front, fun cs => ?_⟩
      rw [hfront, List.append_assoc]
      exact List.splitOnP_append_cons _ _ (by simp)
  obtain ⟨ps, hps⟩ := hpieces
  refine ⟨(walk [] (ps.filterMap Step.ofPart?)).2.map fun d => Place.lead (d ++ base), ?_⟩
  intro names hne hnames
  obtain ⟨names, file, rfl⟩ := List.eq_nil_or_concat' names |>.resolve_left hne
  obtain ⟨hparent, hfile⟩ := ofText_names hps hnames
  rw [placeOf?, hparent, hfile, walk_append]
  cases (walk [] (ps.filterMap Step.ofPart?)).2 with
  | none => rfl
  | some d =>
    have htext := Place.text_names (d ++ base) (List.append_ne_nil_of_right_ne_nil names
      (List.cons_ne_nil file []))
    simpa [walk_names] using htext

end Files

/-! ### Units of a plan -/

/-- The last segment of a name has no points. -/
theorem point_not_mem_lastSegment (name : String) : '.' ∉ (lastSegment name).toList := by
  rw [lastSegment, String.toList_ofList]
  cases h : (Text.pieces '.' name.toList).getLast? with
  | none => simp
  | some p => exact Text.sep_not_mem_pieces (List.mem_of_getLast? h)

namespace Plan

variable {plan : Plan} {config : Config}

/-- The short names of the versions of a plan. -/
def shortNames (plan : Plan) : List String :=
  plan.versions.map fun vp => (plan.chain.version vp.version).shortName

/-- The units of a plan and the files they go into. -/
structure FiledApart (plan : Plan) (config : Config) : Prop where
  /-- There is one unit for each version, and the one that registers them. -/
  count : (Generated.artifacts plan config).length = plan.chain.versions.size + 1
  /-- No version is put into the file of the register unit. -/
  register : ∀ vp ∈ plan.versions, (Generated.versionArtifact plan config vp).name
    ≠ (Generated.registerArtifact plan config).name
  /-- Units have names of their own iff versions have short names of their own. -/
  distinct : (∀ s ∈ plan.shortNames, '/' ∉ s.toList) →
    (((Generated.artifacts plan config).map (·.name)).Nodup ↔ plan.shortNames.Nodup)
  /-- Units with names of their own are all found where they are written. -/
  written : (∀ s ∈ plan.shortNames, '/' ∉ s.toList) →
    ((Generated.artifacts plan config).map (·.name)).Nodup →
      ∀ t t' base, Files.Tree.writeAll t base (Generated.artifacts plan config) = (t', none) →
        ∀ a ∈ Generated.artifacts plan config, ∃ p, Files.placeOf? base a.name = some p ∧
          t'.Holds p a.content

/-- The artifacts are one unit for each version, and the register. -/
theorem map_name_artifacts (plan : Plan) (config : Config) :
    (Generated.artifacts plan config).map (·.name)
      = plan.shortNames.map config.versionPath ++ [config.registerPath] := by
  simp [Generated.artifacts, shortNames, Generated.versionArtifact, Generated.registerArtifact,
    Function.comp_def]

/-- **Names are distinct** iff short names are. -/
theorem nodup_names_iff (hsep : ∀ s ∈ plan.shortNames, '/' ∉ s.toList) :
    ((Generated.artifacts plan config).map (·.name)).Nodup ↔ plan.shortNames.Nodup := by
  have hregister : config.registerPath ∉ plan.shortNames.map config.versionPath := by
    intro hmem
    obtain ⟨s, -, hs⟩ := List.mem_map.mp hmem
    exact config.versionPath_ne_registerPath s hs
  have hinj : ∀ a ∈ plan.shortNames, ∀ b ∈ plan.shortNames,
      config.versionPath a = config.versionPath b → a = b := by
    intro a ha b hb h
    rw [Config.versionPath_eq (hsep a ha), Config.versionPath_eq (hsep b hb),
      String.append_right_inj] at h
    exact unitPath_inj h
  rw [map_name_artifacts]
  constructor
  · intro h
    exact (List.nodup_append.mp h).1.of_map _
  · intro h
    have hversions : (plan.shortNames.map config.versionPath).Nodup :=
      List.Nodup.map_on hinj h
    rw [← List.concat_eq_append]
    exact hversions.concat hregister

/-- The name of an artifact: parts below what all names begin with. -/
theorem exists_parts (hsep : ∀ s ∈ plan.shortNames, '/' ∉ s.toList) {a : Generated.Artifact}
    (ha : a ∈ Generated.artifacts plan config) : ∃ parts : List String, parts ≠ [] ∧
      (∀ part ∈ parts, Files.IsPart part) ∧ a.name = config.lead ++ "/".intercalate parts := by
  have hfile : Files.IsPart "service.rs.txt" := by
    unfold Files.IsPart
    decide
  have hname := List.mem_map_of_mem (f := (·.name)) ha
  rw [map_name_artifacts] at hname
  obtain hversion | hregister := List.mem_append.mp hname
  · obtain ⟨s, hs, hs'⟩ := List.mem_map.mp hversion
    rw [← hs', Config.versionPath_eq (hsep s hs)]
    by_cases hempty : s = ""
    · refine ⟨["service.rs.txt"], by simp, by simpa using hfile, ?_⟩
      rw [hempty]
      rfl
    · have hpoint : '.' ∉ s.toList := by
        obtain ⟨vp, -, rfl⟩ := List.mem_map.mp hs
        exact point_not_mem_lastSegment _
      refine ⟨[s, "service.rs.txt"], by simp, ?_, ?_⟩
      · simpa using ⟨Files.isPart_of_not_mem hempty (hsep s hs) hpoint, hfile⟩
      · rw [unitPath_of_ne hempty, String.intercalate_cons_cons, String.intercalate_singleton]
  · refine ⟨["register.rs.txt"], by simp, ?_, ?_⟩
    · simp only [List.mem_singleton, forall_eq, Files.IsPart]
      decide
    · rw [List.mem_singleton.mp hregister, Config.registerPath_eq, String.intercalate_singleton]

/-- Artifacts of different names go to different places. -/
theorem name_eq_of_text_eq (hsep : ∀ s ∈ plan.shortNames, '/' ∉ s.toList)
    {a b : Generated.Artifact} (ha : a ∈ Generated.artifacts plan config)
    (hb : b ∈ Generated.artifacts plan config) {base p q : Files.Place}
    (hp : Files.placeOf? base a.name = some p) (hq : Files.placeOf? base b.name = some q)
    (htext : p.text = q.text) : a.name = b.name := by
  -- both places are within one directory, so that their texts begin alike
  obtain ⟨front, hfront⟩ := Files.exists_text_placeOf? config.lead config.lead_closed base
  obtain ⟨xs, hxs, hparts, hname⟩ := exists_parts hsep ha
  obtain ⟨ys, hys, hparts', hname'⟩ := exists_parts hsep hb
  have hx := hfront xs hxs hparts
  have hy := hfront ys hys hparts'
  rw [← hname, hp] at hx
  rw [← hname', hq] at hy
  obtain ⟨f, hf, hx'⟩ := Option.map_eq_some_iff.mp hx.symm
  rw [hf] at hy
  have hy' : q.text = f ++ "/".intercalate ys := Option.some.inj hy
  have htexts := hx'.trans (htext.trans hy')
  rw [hname, hname', (String.append_right_inj f).mp htexts]

/-- The units of a generated plan are filed apart under the stated condition. -/
theorem filedApart (h : plan.Generated) (config : Config) : plan.FiledApart config := by
  constructor
  case count =>
    rw [Generated.artifacts, List.length_append, List.length_map, h.length_versions]
    rfl
  case register =>
    intro vp _
    dsimp only [Generated.versionArtifact, Generated.registerArtifact]
    exact config.versionPath_ne_registerPath _
  case distinct => exact nodup_names_iff
  case written =>
    intro hsep hnames t t' base hwrite
    -- names that differ are those of places that differ
    refine (Files.Tree.writeAll_holds hwrite ?_).1
    have hdistinct := List.pairwise_map.mp hnames
    refine hdistinct.imp_of_mem fun ha hb hne p hp q hq htext => hne ?_
    exact name_eq_of_text_eq hsep ha hb hp hq htext

/-- **Every version of a generated plan** has a file of its own as far as short names tell versions
    apart. -/
theorem filedApart_of_generate {set : DescriptorSet} {settings : Config} {plan : Plan}
    (h : generate set settings = .ok plan) (config : Config) : plan.FiledApart config :=
  filedApart (generated_of_generate h) config

set_option maxRecDepth 10000 in
/-- The units of the sample have names of their own. -/
theorem filedApart_sample : generate noteSet {} = .ok notePlan ∧
    (∀ s ∈ notePlan.shortNames, '/' ∉ s.toList) ∧ notePlan.shortNames.Nodup ∧
      ((Generated.artifacts notePlan {}).map (·.name)).Nodup := by
  obtain ⟨hsep, hnodup⟩ :
      (∀ s ∈ notePlan.shortNames, '/' ∉ s.toList) ∧ notePlan.shortNames.Nodup := by
    decide +kernel
  exact ⟨generate_noteSet, hsep, hnodup,
    ((filedApart_of_generate generate_noteSet {}).distinct hsep).mpr hnodup⟩

/-- Two packages with one short name. -/
def sharedSet : DescriptorSet :=
  { files := ["billing.v1", "people.v1", "private"].map fun package => noteFile package true [] }

/-- The plan of the sample. -/
def sharedPlan : Plan := (generate sharedSet {}).toOption.getD {}

set_option maxRecDepth 10000 in
/-- **Packages with one short name** are put into one file. -/
theorem not_distinct_names : ¬∀ set config plan, generate set config = .ok plan →
    ((Generated.artifacts plan config).map (·.name)).Nodup := by
  intro hall
  obtain ⟨hsome, hshared⟩ : (generate sharedSet {}).toOption.isSome = true ∧
      sharedPlan.shortNames = ["v1", "v1", "private"] := by decide +kernel
  have hnames := hall sharedSet {} sharedPlan (eq_ok_of_isSome hsome)
  rw [map_name_artifacts, hshared] at hnames
  exact absurd (List.nodup_append.mp hnames).1 (by decide)

end Plan

end Lineage
