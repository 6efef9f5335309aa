import Lineage.Proofs.Plan.Provided

namespace Lineage.Plan

/-!
# Sample plans

Services of two public versions and the private one.

* `noteSet` — in the first version a request and a response have a note, and a part has a tag, which
  are deprecated: the second version does not have them; `notePlan` — its plan, `generate_noteSet` —
  it is generated,
* `itemSet` — items have a kind, parts and a choice; an old kind is deprecated in the first version,
  and the second version does not have it; `itemPlan` — its plan, `generate_itemSet` — it is
  generated,
* `personSet` — persons of the second version have a name of the first one, of which both fields are
  one in the private version, and a contact, of which one variant must be received; `personPlan` —
  its plan, `generate_personSet` — it is generated,
* `contactSet` — a contact is a mail address, which is deprecated in the first version, or a phone
  number: the second version has only that; `contactPlan` — its plan, `generate_contactSet` — it is
  generated,
* `letterSet` — a letter is a note or a text; notes are deprecated in the first version, and the
  second version has another name for what they say; `letterPlan` — its plan, `generate_letterSet` —
  it is generated,
* `treeSet` — nodes have nodes and may have a group, which has nodes again; in the first version the
  name of a node and what it holds are validated; `treePlan` — its plan, `generate_treeSet` — it is
  generated.
-/

/-- A generation that succeeds generates its plan. -/
theorem eq_ok_of_isSome {result : Except GenerateError Plan} (h : result.toOption.isSome = true) :
    result = .ok (result.toOption.getD {}) := by
  cases result with
  | error e => cases h
  | ok plan => rfl

/-! ### Notes -/

/-- A field of a type. -/
def noteField (name type : String) (typeName : Option String := none) (repeated : Bool := false) :
    FieldDescriptor :=
  { name, number := some 1, type, typeName, label := if repeated then some "LABEL_REPEATED"
    else none }

/-- A package, with or without what the second version does not have. -/
def noteFile (package : String) (noted : Bool) (locations : List Location) : FileDescriptor :=
  let note := if noted then [noteField "note" "TYPE_STRING"] else []
  let tag := if noted then [noteField "tag" "TYPE_STRING"] else []
  { name := package ++ ".proto"
    package
    messages := [
      { name := "Request", fields := noteField "id" "TYPE_STRING" :: note },
      { name := "Part", fields := noteField "name" "TYPE_STRING" :: tag },
      { name := "Response"
        fields := noteField "parts" "TYPE_MESSAGE" (some (package ++ ".Part")) true :: note }]
    services := [{
      name := "Service"
      methods := [{
        name := "Get"
        inputType := package ++ ".Request"
        outputType := package ++ ".Response" }] }]
    locations }

/-- A comment that marks the second field of a message as deprecated. -/
def deprecatesSecond (message : Int) : Location :=
  { path := [4, message, 2, 1], leading := some "gen:svc deprecated" }

/-- Three versions; the notes and tags of the first one are deprecated, and the second one
    has none. -/
def noteSet : DescriptorSet :=
  { files := [noteFile "v1" true ([0, 1, 2].map deprecatesSecond), noteFile "v2" false [],
      noteFile "private" true []] }

/-- The plan of the sample. -/
def notePlan : Plan := (generate noteSet {}).toOption.getD {}

set_option maxRecDepth 10000 in
/-- What is checked of the sample by evaluation. -/
theorem notePlan_checked : (generate noteSet {}).toOption.isSome = true ∧
    notePlan.chain.UniqueMembers ∧ notePlan.chain.UniqueMethods ∧
    ∀ vp ∈ notePlan.versions, vp.ClosedConverters notePlan.chain := by decide +kernel

/-- The plan of notes is generated. -/
theorem generate_noteSet : generate noteSet {} = .ok notePlan :=
  eq_ok_of_isSome notePlan_checked.1

/-- No name of a converter of notes stands for two types. -/
theorem notePlan_unambiguousConverters : notePlan.chain.UnambiguousConverters :=
  (generated_of_generate generate_noteSet).unambiguousConverters
    notePlan_checked.2.1.uniqueFields notePlan_checked.2.2.2

/-! ### Items -/

/-- A package, with or without the old kind. -/
def itemFile (package : String) (kinds : List String) (locations : List Location) :
    FileDescriptor :=
  let part := some (package ++ ".Part")
  { name := package ++ ".proto"
    package
    enums := [{ name := "Kind", values := kinds.map fun k => { name := k, number := some 0 } }]
    messages := [
      { name := "Part", fields := [noteField "name" "TYPE_STRING"] },
      { name := "Item"
        oneofs := [{ name := "choice" }]
        fields := [
          noteField "kind" "TYPE_ENUM" (some (package ++ ".Kind")),
          noteField "parts" "TYPE_MESSAGE" part true,
          { noteField "text" "TYPE_STRING" with oneofIndex := some 0 },
          { noteField "part" "TYPE_MESSAGE" part with oneofIndex := some 0 }] }]
    services := [{
      name := "Service"
      methods := [{
        name := "Get"
        inputType := package ++ ".Item"
        outputType := package ++ ".Item" }] }]
    locations }

/-- Three versions; the old kind of the first one is deprecated, and the second one does not have
    it. -/
def itemSet : DescriptorSet :=
  { files := [
      itemFile "v1" ["NONE", "OLD"]
        [{ path := [5, 0, 2, 1], leading := some "gen:svc deprecated" }],
      itemFile "v2" ["NONE"] [], itemFile "private" ["NONE", "OLD"] []] }

/-- The plan of the sample. -/
def itemPlan : Plan := (generate itemSet {}).toOption.getD {}

set_option maxRecDepth 10000 in
/-- What is checked of the sample by evaluation. -/
theorem itemPlan_checked : (generate itemSet {}).toOption.isSome = true ∧
    itemPlan.chain.UniqueMembers ∧ itemPlan.chain.UniqueMethods ∧
    ∀ vp ∈ itemPlan.versions, vp.ClosedConverters itemPlan.chain := by decide +kernel

/-- The plan of items is generated. -/
theorem generate_itemSet : generate itemSet {} = .ok itemPlan :=
  eq_ok_of_isSome itemPlan_checked.1

/-! ### Persons -/

/-- A name with one field or two. -/
def nameMessage (fields : List String) : MessageDescriptor :=
  { name := "Name", fields := fields.map fun f => noteField f "TYPE_STRING" }

/-- A person with a name of some version. -/
def personMessage (package : String) : MessageDescriptor :=
  { name := "Person"
    oneofs := [{ name := "contact" }]
    fields := [
      noteField "name" "TYPE_MESSAGE" (some (package ++ ".Name")),
      { noteField "mail" "TYPE_STRING" with oneofIndex := some 0 },
      { noteField "phone" "TYPE_STRING" with oneofIndex := some 0 }] }

/-- A package that has persons, unless it has names alone. -/
def personFile (package : String) (messages : List MessageDescriptor) (locations : List Location) :
    FileDescriptor :=
  let person := package ++ ".Person"
  { name := package ++ ".proto"
    package
    messages
    services := [{
      name := "Service"
      methods := (messages.filter (·.name == some "Person")).map fun _ =>
        { name := "Get", inputType := person, outputType := person } }]
    locations }

/-- Names have an old name in both public versions, deprecated in the second one, whose persons have
    the names of the first one. -/
def personSet : DescriptorSet :=
  { files := [
      personFile "v1" [nameMessage ["old", "name"]] [],
      personFile "v2" [nameMessage ["old", "name"], personMessage "v1"] [
        { path := [4, 0, 2, 0], leading := some "gen:svc deprecated\ngen:svc delegate name=name" },
        { path := [4, 1, 2, 1], leading := some "gen:svc receive required=true" }],
      personFile "private" [nameMessage ["name"], personMessage "private"] []] }

/-- The plan of the sample. -/
def personPlan : Plan := (generate personSet {}).toOption.getD {}

set_option maxRecDepth 10000 in
/-- What is checked of the sample by evaluation. -/
theorem personPlan_checked : (generate personSet {}).toOption.isSome = true ∧
    personPlan.chain.UniqueMembers ∧ ∀ vp ∈ personPlan.versions,
      vp.ClosedConverters personPlan.chain := by decide +kernel

/-- The plan of persons is generated. -/
theorem generate_personSet : generate personSet {} = .ok personPlan :=
  eq_ok_of_isSome personPlan_checked.1

/-! ### Contacts -/

/-- A package whose persons have a contact of some variants. -/
def contactFile (package : String) (variants : List String) (locations : List Location) :
    FileDescriptor :=
  let person := package ++ ".Person"
  { name := package ++ ".proto"
    package
    messages := [
      { name := "Person"
        oneofs := [{ name := "contact" }]
        fields := variants.map fun v => { noteField v "TYPE_STRING" with oneofIndex := some 0 } }]
    services := [{
      name := "Service"
      methods := [{ name := "Get", inputType := person, outputType := person }] }]
    locations }

/-- Three versions; contact by mail is deprecated in the first one, and the second one does not have
    it. -/
def contactSet : DescriptorSet :=
  { files := [
      contactFile "v1" ["mail", "phone"]
        [{ path := [4, 0, 2, 0], leading := some "gen:svc deprecated" }],
      contactFile "v2" ["phone"] [], contactFile "private" ["mail", "phone"] []] }

/-- The plan of the sample. -/
def contactPlan : Plan := (generate contactSet {}).toOption.getD {}

set_option maxRecDepth 10000 in
/-- What is checked of the sample by evaluation. -/
theorem contactPlan_checked : (generate contactSet {}).toOption.isSome = true ∧
    contactPlan.chain.UniqueMembers := by decide +kernel

/-- The plan of contacts is generated. -/
theorem generate_contactSet : generate contactSet {} = .ok contactPlan :=
  eq_ok_of_isSome contactPlan_checked.1

/-! ### Letters -/

/-- A package whose letters may be notes, which have one field. -/
def letterFile (package field : String) (locations : List Location) : FileDescriptor :=
  { name := package ++ ".proto"
    package
    messages := [
      { name := "Request" },
      { name := "Note", fields := [noteField field "TYPE_STRING"] },
      { name := "Letter"
        oneofs := [{ name := "body" }]
        fields := [
          { noteField "note" "TYPE_MESSAGE" (some (package ++ ".Note")) with oneofIndex := some 0 },
          { noteField "text" "TYPE_STRING" with oneofIndex := some 0 }] }]
    services := [{
      name := "Service"
      methods := [{
        name := "Get"
        inputType := package ++ ".Request"
        outputType := package ++ ".Letter" }] }]
    locations }

/-- Three versions; notes are deprecated in the first one, and those of the second one have a label
    that stands for the private id. -/
def letterSet : DescriptorSet :=
  { files := [
      letterFile "v1" "id" [{ path := [4, 1], leading := some "gen:svc deprecated" }],
      letterFile "v2" "label"
        [{ path := [4, 1, 2, 0], leading := some "gen:svc delegate name=id" }],
      letterFile "private" "id" []] }

/-- The plan of the sample. -/
def letterPlan : Plan := (generate letterSet {}).toOption.getD {}

set_option maxRecDepth 10000 in
/-- The plan of letters is generated. -/
theorem generate_letterSet : generate letterSet {} = .ok letterPlan :=
  eq_ok_of_isSome (by decide +kernel)

/-! ### Trees -/

/-- A package of trees with kinds of some names. -/
def treeFile (package : String) (kinds : List String) (locations : List Location) :
    FileDescriptor :=
  let typed (name : String) := some (package ++ "." ++ name)
  { name := package ++ ".proto"
    package
    enums := [{ name := "Kind", values := kinds.map fun k => { name := k, number := some 0 } }]
    messages := [
      { name := "Request", fields := [noteField "root" "TYPE_MESSAGE" (typed "Node")] },
      { name := "Node"
        oneofs := [{ name := "body" }]
        fields := [
          noteField "name" "TYPE_STRING",
          noteField "kind" "TYPE_ENUM" (typed "Kind"),
          noteField "nodes" "TYPE_MESSAGE" (typed "Node") true,
          { noteField "text" "TYPE_STRING" with oneofIndex := some 0 },
          { noteField "group" "TYPE_MESSAGE" (typed "Group") with oneofIndex := some 0 }] },
      { name := "Group", fields := [noteField "nodes" "TYPE_MESSAGE" (typed "Node") true] }]
    services := [{
      name := "Service"
      methods := [{
        name := "Get"
        inputType := package ++ ".Request"
        outputType := package ++ ".Node" }] }]
    locations }

/-- Three versions of trees; the first one validates names and bodies, and has a kind that is
    deprecated. -/
def treeSet : DescriptorSet :=
  { files := [
      treeFile "v1" ["NONE", "OLD"] [
        { path := [4, 1, 2, 0], leading := some "gen:svc validate required=true min=2 max=8" },
        { path := [4, 1, 8, 0], leading := some "gen:svc validate required=true" },
        { path := [5, 0, 2, 1], leading := some "gen:svc deprecated" }],
      treeFile "v2" ["NONE"] [], treeFile "private" ["NONE", "OLD"] []] }

/-- The plan of the sample. -/
def treePlan : Plan := (generate treeSet {}).toOption.getD {}

set_option maxRecDepth 10000 in
/-- What is checked of the sample by evaluation. -/
theorem treePlan_checked : (generate treeSet {}).toOption.isSome = true ∧
    treePlan.chain.UniqueMembers ∧ (∀ e ∈ treePlan.chain.enums, e.values ≠ []) ∧
    ∀ vp ∈ treePlan.versions, vp.ClosedConverters treePlan.chain ∧
      (vp.validators.map (·.function)).Nodup := by decide +kernel

/-- The plan of trees is generated. -/
theorem generate_treeSet : generate treeSet {} = .ok treePlan :=
  eq_ok_of_isSome treePlan_checked.1

end Lineage.Plan
