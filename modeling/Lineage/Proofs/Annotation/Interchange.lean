import Lineage.Proofs.Annotation.Writer
import Lineage.Proofs.Chain.Annotated

namespace Lineage.Annotation

/-!
# Comments and options are interchangeable

* `Rewritten` — the same facts are written in the comments of one carrier and in the option of
  another one,
* `agree_rewritten` — such carriers get the same answers,
* `interchangeable` — all writable facts can be written either way, and are the answers both ways;
  packages whose carriers are rewritten have the same chain.
-/

/-- The same facts are written in the comments of one carrier and in the option of another one. -/
def Rewritten (kind : EntityKind) (carrier carrier' : Carrier) : Prop :=
  ∃ f : Facts, f.Writable ∧ f.InComments carrier ∧ f.InOptions kind carrier'

/-- Carriers that are rewritten get the same answers. -/
theorem agree_rewritten :
    AnnotationStyle.comments.source.Agree AnnotationStyle.options.source Rewritten := by
  have hanswers : ∀ kind c c', Rewritten kind c c' →
      ∃ f : Facts, f.AnsweredBy AnnotationStyle.comments.source kind c ∧
        f.AnsweredBy AnnotationStyle.options.source kind c' := by
    rintro kind c c' ⟨f, hf, hcomments, hoptions⟩
    exact ⟨f, Comments.answeredBy_of_inComments hf hcomments kind,
      Options.answeredBy_of_inOptions hf hoptions⟩
  constructor
  all_goals
    intro kind c c' h
    obtain ⟨f, hc, hc'⟩ := hanswers kind c c' h
  · rw [hc.delegate, hc'.delegate]
  · rw [hc.deprecated, hc'.deprecated]
  · rw [hc.validate, hc'.validate]
  · rw [hc.receive, hc'.receive]

/-- **Comments and options are interchangeable.** All writable facts can be written in comments and
    in options; written either way, they are the answers that a declaration gets; and packages in
    which all comments are rewritten as options have the same chain, or fail to have one in the same
    way. -/
theorem interchangeable :
    (∀ (f : Facts) (kind : EntityKind), f.Writable →
      ∃ carrier carrier', f.InComments carrier ∧ f.InOptions kind carrier') ∧
    (∀ (f : Facts) (kind : EntityKind) (carrier carrier' : Carrier), f.Writable →
      f.InComments carrier → f.InOptions kind carrier' →
        f.AnsweredBy AnnotationStyle.comments.source kind carrier ∧
        f.AnsweredBy AnnotationStyle.options.source kind carrier') ∧
    ∀ (packages packages' : List PackageSchema) (privatePackage : String),
      List.Forall₂ (PackageSchema.Alike Rewritten) packages packages' →
        Chain.ofPackages AnnotationStyle.options.source privatePackage packages'
          = Chain.ofPackages AnnotationStyle.comments.source privatePackage packages := by
  refine ⟨?_, ?_, ?_⟩
  · intro f kind hf
    obtain ⟨carrier, hcarrier⟩ := Facts.exists_inComments hf
    obtain ⟨carrier', hcarrier'⟩ := f.exists_inOptions kind
    exact ⟨carrier, carrier', hcarrier, hcarrier'⟩
  · intro f kind carrier carrier' hf hcomments hoptions
    exact ⟨Comments.answeredBy_of_inComments hf hcomments kind,
      Options.answeredBy_of_inOptions hf hoptions⟩
  · intro packages packages' privatePackage h
    exact Chain.ofPackages_alike agree_rewritten h privatePackage

/-! ### A sample -/

/-- An age that has a delegate and a range. -/
def ageFacts : Facts :=
  { delegate := some "years", validate := { required := true, min := some "1", max := some "64" } }

/-- The facts of the sample can be written. -/
theorem ageFacts_writable : ageFacts.Writable where
  delegate := by rintro d ⟨⟩; decide
  min := by rintro t ⟨⟩; decide
  max := by rintro t ⟨⟩; decide
  members := nofun
  format := nofun
  names := by simp [ageFacts]

/-- The range of the age is split over two lines, with the delegate and prose between them. -/
def agesInComments : Carrier :=
  { comments := {
      leading := " gen:svc validate\tmin=1 \ngen:svc delegate name=years\n"
      detached := ["Years\n  gen:svc  validate max=64 required=true"] } }

/-- One bound of the age is a number, the other one a text. -/
def agesInOptions : Carrier :=
  { options := [("[gen.svc.field]", .object [
      ("delegate", .object [("name", .string "years")]),
      ("validate", .object [("max", .string "64"), ("min", .integer 1),
        ("required", .bool true)])])] }

namespace Comments

open Text

/-- A line without a colon is no directive. -/
theorem prose_of_not_mem {line : List Char} (h : ':' ∉ line) : Prose line := by
  rintro indent c rest - - rfl
  have hcolon : ':' ∈ tag := by decide
  exact h (List.mem_append_right _ (List.mem_append_left _ hcolon))

/-- A word behind one blank. -/
theorem spaced_cons {c : Char} {word rest : List Char} {words : List (List Char)}
    (hc : isBlank c = true) (h : Spaced words rest) :
    Spaced (word :: words) (c :: (word ++ rest)) :=
  @Spaced.cons [c] word rest words (by simp) (by simpa [Blanks] using hc) h

/-- The directives on the age: two in the first block and one in the second. -/
def ageDirectives : List (List Directive) :=
  [[⟨.validate, [⟨"min", "1"⟩]⟩, ⟨.delegate, [⟨"name", "years"⟩]⟩],
    [⟨.validate, [⟨"max", "64"⟩, ⟨"required", "true"⟩]⟩]]

/-- The directives of the sample state its facts. -/
theorem ageFacts_statedBy : ageFacts.StatedBy ageDirectives.flatten where
  delegate := by simp [Stated, linesOf, ageDirectives, ageFacts]
  deprecated := by simp [linesOf, ageDirectives, ageFacts]
  bare := by simp [linesOf, ageDirectives]
  validate := by
    constructor <;>
      simp [Stated, Flagged, valuesOf, linesOf, ageDirectives, ageFacts, constraintKeys]
  receive := by
    constructor <;> simp [Flagged, valuesOf, linesOf, ageDirectives, ageFacts]

/-- The comments of the sample hold its facts. -/
theorem ageFacts_inComments : ageFacts.InComments agesInComments := by
  refine ⟨ageDirectives, .cons ?_ (.cons ?_ .nil), ageFacts_statedBy⟩
  · refine ⟨[some ⟨.validate, [⟨"min", "1"⟩]⟩, some ⟨.delegate, [⟨"name", "years"⟩]⟩, none],
      [" gen:svc validate\tmin=1 ".toList, "gen:svc delegate name=years".toList, []],
      by decide, by decide, by decide, .cons ?_ (.cons ?_ (.cons ?_ .nil)), rfl⟩
    · exact @LineWritten.directive _ [' '] _ (by decide)
        (spaced_cons rfl (spaced_cons rfl (.nil (by decide))))
    · exact @LineWritten.directive _ [] _ (by decide)
        (spaced_cons rfl (spaced_cons rfl (.nil (by decide))))
    · exact .prose (prose_of_not_mem (by decide))
  · refine ⟨[none, some ⟨.validate, [⟨"max", "64"⟩, ⟨"required", "true"⟩]⟩],
      ["Years".toList, "  gen:svc  validate max=64 required=true".toList],
      by decide, by decide, by decide, .cons ?_ (.cons ?_ .nil), rfl⟩
    · exact .prose (prose_of_not_mem (by decide))
    · exact @LineWritten.directive _ [' ', ' '] _ (by decide)
        (@Spaced.cons [' ', ' '] _ _ _ (by decide) (by decide)
          (spaced_cons rfl (spaced_cons rfl (.nil (by decide)))))

end Comments

/-- The options of the sample hold its facts. -/
theorem ageFacts_inOptions : ageFacts.InOptions .field agesInOptions := by
  refine ⟨_, rfl, by simp, ?_⟩
  constructor
  · exact entered_of_lookup rfl ⟨_, rfl, by simp, entered_of_lookup rfl rfl⟩
  · rfl
  · refine ⟨some ageFacts.validate, rfl, entered_of_lookup rfl ⟨_, rfl, by simp, ?_⟩⟩
    constructor
    · exact entered_of_lookup rfl rfl
    · exact entered_of_lookup rfl (.integer 1)
    · exact entered_of_lookup rfl (.text "64")
    · rfl
    · rfl
  · exact ⟨none, rfl, rfl⟩

/-- Nothing is written about most declarations. -/
theorem rewritten_empty (kind : EntityKind) : Rewritten kind {} {} := by
  have hwritable : Facts.Writable {} := ⟨nofun, nofun, nofun, nofun, nofun, by simp⟩
  refine ⟨{}, hwritable, ⟨[[]], .cons ?_ .nil, ?_⟩, ?_⟩
  · exact ⟨[none], [[]], by decide, by decide, by decide,
      .cons (.prose (Comments.prose_of_not_mem (by decide))) .nil, rfl⟩
  · constructor
    · simp [Comments.Stated, Comments.linesOf]
    · simp [Comments.linesOf]
    · simp [Comments.linesOf]
    · constructor <;> simp [Comments.Stated, Comments.Flagged, Comments.valuesOf, Comments.linesOf]
    · constructor <;> simp [Comments.Flagged, Comments.valuesOf, Comments.linesOf]
  · rfl

/-- Persons with one field. -/
def agePackage (package field : String) (carrier : Carrier) : PackageSchema :=
  let person := package ++ ".Person"
  { name := package
    services := [
      { name := "Service", carrier := {}
        methods := [{ name := "Get", input := person, output := person, carrier := {} }] }]
    messages := [
      { name := "Person", localName := "Person", fullName := person, parent := none, oneofs := []
        carrier := {}
        fields := [
          { name := field, number := 1, kind := .scalar .int32, repeated := false, typeName := none
            oneof := none, carrier }] }] }

/-- The age of a person in the public version; the private one has years. -/
def agePackages (carrier : Carrier) : List PackageSchema :=
  [agePackage "v1" "age" carrier, agePackage "private" "years" {}]

/-- The packages of the sample are alike. -/
theorem agePackage_alike {package field : String} {carrier carrier' : Carrier}
    (h : Rewritten .field carrier carrier') :
    (agePackage package field carrier).Alike Rewritten (agePackage package field carrier') := by
  refine ⟨_, _, _, rfl, .cons ?_ .nil, .cons ?_ .nil, .nil⟩
  · exact ⟨_, _, rfl, .cons ⟨_, rfl, rewritten_empty .method⟩ .nil⟩
  · exact ⟨_, _, _, rfl, .cons ⟨_, rfl, h⟩ .nil, .nil, rewritten_empty .message⟩

/-- The age gets the same answers both ways, and the packages have one chain. -/
theorem interchangeable_age : ∃ c,
    ageFacts.Writable ∧ ageFacts.InComments agesInComments ∧
      ageFacts.InOptions .field agesInOptions ∧
      ageFacts.AnsweredBy AnnotationStyle.comments.source .field agesInComments ∧
      ageFacts.AnsweredBy AnnotationStyle.options.source .field agesInOptions ∧
      Chain.ofPackages AnnotationStyle.comments.source "private" (agePackages agesInComments) =
        .ok c ∧
      Chain.ofPackages AnnotationStyle.options.source "private" (agePackages agesInOptions) =
        .ok c := by
  obtain ⟨-, hanswers, hchains⟩ := interchangeable
  have hfield : Rewritten .field agesInComments agesInOptions :=
    ⟨ageFacts, ageFacts_writable, Comments.ageFacts_inComments, ageFacts_inOptions⟩
  have hchain := hchains (agePackages agesInComments) (agePackages agesInOptions) "private"
    (.cons (agePackage_alike hfield) (.cons (agePackage_alike (rewritten_empty .field)) .nil))
  obtain ⟨hcomments, hoptions⟩ := hanswers ageFacts .field agesInComments agesInOptions
    ageFacts_writable Comments.ageFacts_inComments ageFacts_inOptions
  have hok : (Chain.ofPackages AnnotationStyle.comments.source "private"
      (agePackages agesInComments)).toOption.isSome = true := by decide +kernel
  obtain ⟨c, hc⟩ := Option.isSome_iff_exists.mp hok
  have hc := toOption_eq_some.mp hc
  exact ⟨c, ageFacts_writable, Comments.ageFacts_inComments, ageFacts_inOptions,
    hcomments, hoptions, hc, hchain.trans hc⟩

end Lineage.Annotation
