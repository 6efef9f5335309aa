import Lineage.Proofs.Chain.Claims
import Lineage.Proofs.Converter.Mutator
import Lineage.Proofs.Generated.Calls

namespace Lineage

/-!
# Names of generated functions

The functions of a unit are in modules, one for each kind.  A validator is named after a message,
whose dots are underscores in the name, and a setter after a field, whose words have no underscores
in between.  All setters of a unit are in one module.

* `VersionUnit.NamedApart` — no two functions in a module of a unit have one name,
* `VersionPlan.ToldApart` — names tell the messages of validators and the fields of setters apart,
* `Plan.namedApart_of_generate` — the functions of a unit have different names exactly if names tell
  apart what they are for; those of converters always have, `Plan.nodup_converters`,
* `Plan.not_namedApart` — not all names do.
-/

namespace Generated

/-- The setters of a unit, of all private request messages. -/
def VersionUnit.setters (u : VersionUnit) : List Setter := u.mutators.flatMap (·.setters)

/-- No two functions in a module of a unit have one name. -/
structure VersionUnit.NamedApart (u : VersionUnit) : Prop where
  validators : (u.validators.map (·.function)).Nodup
  converters : (u.converters.map (·.signature.function)).Nodup
  setters : (u.setters.map (·.function)).Nodup

section
variable (c : Chain) (vp : VersionPlan)

/-- The validators of a unit have the names of the plan. -/
theorem map_function_validators :
    (ofVersion c vp).validators.map (·.function) = vp.validators.map (·.function) := by
  rw [ofVersion, List.map_map]
  rfl

/-- The converters of a unit have the names of the plan. -/
theorem map_function_converters :
    (ofVersion c vp).converters.map (·.signature.function) = vp.converters.map (·.2.function) := by
  rw [ofVersion, List.map_map]
  exact List.map_congr_left fun e _ => function_signature e.2

/-- The setters of a unit are those of the plan. -/
theorem setters_ofVersion : (ofVersion c vp).setters = vp.mutators.flatMap (·.setters) := by
  rw [VersionUnit.setters, ofVersion, List.flatMap_map]
  rfl

/-- The names of a unit are those that the version plan has. -/
theorem namedApart_iff : (ofVersion c vp).NamedApart ↔ (vp.validators.map (·.function)).Nodup ∧
    (vp.converters.map (·.2.function)).Nodup ∧
      ((vp.mutators.flatMap (·.setters)).map (·.function)).Nodup := by
  rw [← map_function_validators c, ← map_function_converters c, ← setters_ofVersion c]
  exact ⟨fun h => ⟨h.validators, h.converters, h.setters⟩, fun h => ⟨h.1, h.2.1, h.2.2⟩⟩

end

end Generated

/-! ### Names that tell apart -/

/-- The names of setters tell apart the messages and fields that are set. -/
def SetterNamesTell (sets : MessageId → String → Prop) : Prop :=
  ∀ m field m' field', sets m field → sets m' field' →
    setterName field = setterName field' → m = m' ∧ field = field'

namespace VersionPlan

/-- A method has a deprecated input for a field of the private message of its request. -/
def Sets (c : Chain) (vp : VersionPlan) (m : MessageId) (field : String) : Prop :=
  ∃ mp ∈ vp.methods, (c.message mp.input).link.final = some m ∧
    ∃ i ∈ mp.deprecatedInputs, i.privateField = field

/-- Names tell the messages of validators and the fields of setters apart. -/
structure ToldApart (c : Chain) (vp : VersionPlan) : Prop where
  /-- Messages with validators have different names, dots and underscores being the same. -/
  validators : ∀ r ∈ vp.validators, ∀ r' ∈ vp.validators,
    typeIdent (c.message r.message).localName = typeIdent (c.message r'.message).localName →
      r.message = r'.message
  /-- Private fields with setters, in all messages together, have different names when written as
      one word. -/
  setters : SetterNamesTell (vp.Sets c)

section
variable {c : Chain} {vp : VersionPlan}

/-- Setters are told apart if those of any two methods are. -/
theorem setterNamesTell_iff : SetterNamesTell (vp.Sets c) ↔
      ∀ mp ∈ vp.methods, ∀ m ∈ (c.message mp.input).link.final, ∀ i ∈ mp.deprecatedInputs,
        ∀ mp' ∈ vp.methods, ∀ m' ∈ (c.message mp'.input).link.final, ∀ i' ∈ mp'.deprecatedInputs,
          setterName i.privateField = setterName i'.privateField →
            m = m' ∧ i.privateField = i'.privateField := by
  constructor
  · intro h mp hmp m hm i hi mp' hmp' m' hm' i' hi'
    exact h m _ m' _ ⟨mp, hmp, hm, i, hi, rfl⟩ ⟨mp', hmp', hm', i', hi', rfl⟩
  · rintro h m _ m' _ ⟨mp, hmp, hm, i, hi, rfl⟩ ⟨mp', hmp', hm', i', hi', rfl⟩
    exact h mp hmp m hm i hi mp' hmp' m' hm' i' hi'

instance : Decidable (SetterNamesTell (vp.Sets c)) := decidable_of_iff _ setterNamesTell_iff.symm

instance : Decidable (vp.ToldApart c) :=
  decidable_of_iff ((∀ r ∈ vp.validators, ∀ r' ∈ vp.validators,
        typeIdent (c.message r.message).localName = typeIdent (c.message r'.message).localName →
          r.message = r'.message) ∧ SetterNamesTell (vp.Sets c))
    ⟨fun h => ⟨h.1, h.2⟩, fun h => ⟨h.validators, h.setters⟩⟩

end

end VersionPlan

/-! ### Keys and names -/

/-- What keys tell apart has different names exactly if its names tell the keys apart. -/
theorem nodup_map_iff_of_key {α : Type*} {β : Type*} {γ : Type*} {xs : List α} {key : α → β}
    {name : α → γ} (h : (xs.map key).Nodup) :
    (xs.map name).Nodup ↔ ∀ x ∈ xs, ∀ y ∈ xs, name x = name y → key x = key y := by
  rw [List.nodup_map_iff_inj_on (List.Nodup.of_map key h)]
  refine forall₂_congr fun x hx => forall₂_congr fun y hy => imp_congr_right fun _ => ?_
  exact ⟨fun heq => heq ▸ rfl, List.inj_on_of_nodup_map h hx hy⟩

namespace View

/-! ### Setters -/

/-- The setters of mutators, each with the message of its mutator. -/
def settersOf (ks : List Mutator) : List (MessageId × Setter) :=
  ks.flatMap fun k => k.setters.map (k.message, ·)

/-- The setters of all mutators, without their messages. -/
theorem map_snd_settersOf (ks : List Mutator) :
    (settersOf ks).map (·.2) = ks.flatMap (·.setters) := by
  simp [settersOf, List.map_flatMap, Function.comp_def]

/-- The setters of mutators that are apart are told apart by message and field. -/
theorem SetApart.nodup_settersOf {ks : List Mutator} (h : SetApart ks) :
    ((settersOf ks).map fun e => (e.1, e.2.field)).Nodup := by
  rw [settersOf, List.map_flatMap, List.nodup_flatMap]
  constructor
  · intro k hk
    have hfields := (h.fields k hk).map (f := (k.message, ·)) fun _ _ heq => (Prod.mk.inj heq).2
    simpa [Function.comp_def] using hfields
  · refine h.sorted.imp fun {k k'} hlt => ?_
    -- what is set for one message is not set for another
    rintro ⟨m, field⟩ hm hm'
    have hmessage {k : Mutator} (hm : (m, field) ∈ (k.setters.map (k.message, ·)).map
        fun e => (e.1, e.2.field)) : m = k.message := by
      simp only [List.map_map, List.mem_map, Function.comp_def, Prod.mk.injEq] at hm
      obtain ⟨_, -, heq, -⟩ := hm
      exact heq.symm
    rw [← hmessage hm, ← hmessage hm'] at hlt
    exact Nat.lt_irrefl _ hlt

/-- Setters that are named after their fields have different names exactly if the names tell
    messages and fields apart. -/
theorem SetApart.nodup_iff {ks : List Mutator} (h : SetApart ks)
    (hnamed : ∀ k ∈ ks, ∀ s ∈ k.setters, s.function = setterName s.field) :
    ((ks.flatMap (·.setters)).map (·.function)).Nodup ↔ SetterNamesTell (HasSetter ks) := by
  -- message and field are the key of a setter, and its name has to tell them
  rw [← map_snd_settersOf, List.map_map, nodup_map_iff_of_key h.nodup_settersOf]
  constructor
  · rintro h m _ m' _ ⟨k, hk, rfl, s, hs, rfl⟩ ⟨k', hk', rfl, s', hs', rfl⟩ heq
    have hmem {k : Mutator} {s : Setter} (hk : k ∈ ks) (hs : s ∈ k.setters) :
        (k.message, s) ∈ settersOf ks :=
      List.mem_flatMap.mpr ⟨k, hk, List.mem_map_of_mem hs⟩
    rw [← hnamed k hk s hs, ← hnamed k' hk' s' hs'] at heq
    exact Prod.mk.inj (h _ (hmem hk hs) _ (hmem hk' hs') heq)
  · rintro h ⟨m, s⟩ hs ⟨m', s'⟩ hs' heq
    obtain ⟨k, hk, hs⟩ := List.mem_flatMap.mp hs
    obtain ⟨s, hs, ⟨⟩⟩ := List.mem_map.mp hs
    obtain ⟨k', hk', hs'⟩ := List.mem_flatMap.mp hs'
    obtain ⟨s', hs', ⟨⟩⟩ := List.mem_map.mp hs'
    have heq : s.function = s'.function := heq
    rw [hnamed k hk s hs, hnamed k' hk' s' hs'] at heq
    obtain ⟨hmessage, hfield⟩ := h _ _ _ _ ⟨k, hk, rfl, s, hs, rfl⟩ ⟨k', hk', rfl, s', hs', rfl⟩ heq
    exact Prod.ext hmessage hfield

/-- The setter of a deprecated input is named after the private field. -/
theorem setter_of_planned {w : View} {m : Method} {mp : MethodPlan} (h : w.Planned m mp)
    {i : DeprecatedInput} (hi : i ∈ mp.deprecatedInputs) :
    i.setter = setterName i.privateField := by
  obtain ⟨t, -, -, rfl⟩ := h.exists_target
  obtain ⟨x, -, hinput⟩ := mem_deprecatedInputs hi
  unfold inputOf at hinput
  split at hinput
  · obtain rfl := Option.some.inj hinput
    rfl
  · cases hinput

end View

namespace Plan

variable {plan : Plan} {vp : VersionPlan}

/-- The setters of a public version have different names exactly if its fields with setters have. -/
theorem nodup_setters_public {c : Chain} {v : Version} (hok : versionPlan (.ofChain c) v = .ok vp)
    (hpublic : v.isPrivate = false) :
    ((vp.mutators.flatMap (·.setters)).map (·.function)).Nodup ↔ SetterNamesTell (vp.Sets c) := by
  obtain ⟨hplanned, hmutators, -⟩ := versionPlan_public hok hpublic
  -- every setter is that of a deprecated input, which names it after the private field
  have hnamed : ∀ k ∈ vp.mutators, ∀ s ∈ k.setters, s.function = setterName s.field := by
    intro k hk s hs
    rw [hmutators] at hk
    obtain ⟨mp, hmp, -, i, hi, rfl⟩ := (View.mutators_sound _ _ k hk).setters s hs
    obtain ⟨m, -, hplan⟩ := forall₂_exists_left hplanned hmp
    exact View.setter_of_planned hplan hi
  have hsets : View.HasSetter vp.mutators = vp.Sets c := by
    rw [hmutators]
    funext m field
    exact propext View.hasSetter_mutators_iff
  have hapart : View.SetApart vp.mutators := hmutators ▸ View.mutators_setApart _ _
  exact hsets ▸ hapart.nodup_iff hnamed

/-- The private version has no setters, and no methods that set fields. -/
theorem nodup_setters_private {c : Chain} {v : Version} (hok : versionPlan (.ofChain c) v = .ok vp)
    (hprivate : v.isPrivate) : vp.mutators = [] ∧ ∀ m field, ¬vp.Sets c m field := by
  obtain ⟨hmethods, -, hmutators⟩ := versionPlan_private hok hprivate
  refine ⟨hmutators, ?_⟩
  rintro m field ⟨mp, hmp, -, i, hi, -⟩
  rw [hmethods] at hmp
  obtain ⟨_, -, rfl⟩ := List.mem_map.mp hmp
  cases hi

/-! ### Validators -/

/-- The validators of a version have different names exactly if their messages have, dots and
    underscores being the same. -/
theorem nodup_validators_iff {c : Chain} {v : VersionId} (hwf : c.WellFormed)
    (hrules : (Rule.Derivation.ofChain c).versionRules v = .ok vp.validators) :
    (vp.validators.map (·.function)).Nodup ↔ ∀ r ∈ vp.validators, ∀ r' ∈ vp.validators,
      typeIdent (c.message r.message).localName = typeIdent (c.message r'.message).localName →
        r.message = r'.message := by
  have hfor := Rule.Derivation.versionRules_eq_ok hrules
  -- there is one validator for each message, in the order of the messages
  have hmessages : (vp.validators.map (·.message)).Nodup := by
    have heq : List.Forall₂ Eq (c.validatedOf v) (vp.validators.map (·.message)) :=
      List.forall₂_map_right_iff.mpr (hfor.imp fun _ _ hr => hr.message.symm)
    rw [List.forall₂_eq_eq_eq] at heq
    rw [← heq]
    exact (Chain.nodup_of_pairwise (hwf.pairwise_messages v)).filter _
  have hnamed (r : MessageRules) (hr : r ∈ vp.validators) :
      r.function = "Validate" ++ typeIdent (c.message r.message).localName := by
    obtain ⟨m, -, hm⟩ := forall₂_exists_left hfor hr
    rw [hm.function, hm.message]
    rfl
  rw [nodup_map_iff_of_key hmessages]
  refine forall₂_congr fun r hr => forall₂_congr fun r' hr' => ?_
  rw [hnamed r hr, hnamed r' hr', String.append_right_inj]

/-! ### Units -/

/-- The converters of a version have different names. -/
theorem nodup_converters {c : Chain} {v : Version} (hok : versionPlan (.ofChain c) v = .ok vp) :
    (vp.converters.map (·.2.function)).Nodup := by
  obtain ⟨hsorted, hnamed⟩ := sorted_converters hok
  rw [List.map_congr_left hnamed]
  exact Sorted.nodup_names hsorted

/-- The setters of a version have different names exactly if its fields with setters have. -/
theorem nodup_setters_iff {c : Chain} {v : Version} (hok : versionPlan (.ofChain c) v = .ok vp) :
    ((vp.mutators.flatMap (·.setters)).map (·.function)).Nodup ↔ SetterNamesTell (vp.Sets c) := by
  cases hprivate : v.isPrivate with
  | false => exact nodup_setters_public hok hprivate
  | true =>
    obtain ⟨hmutators, hsets⟩ := nodup_setters_private hok hprivate
    refine iff_of_true (by simp [hmutators]) ?_
    exact fun m field _ _ hset => absurd hset (hsets m field)

/-- The functions of a unit have different names exactly if names tell apart what they are for. -/
theorem Generated.namedApart_iff (h : plan.Generated) (hvp : vp ∈ plan.versions) :
    (Lineage.Generated.ofVersion plan.chain vp).NamedApart ↔ vp.ToldApart plan.chain := by
  obtain ⟨v, -, hok⟩ := forall₂_exists_left h.versions hvp
  obtain ⟨hfor, -⟩ := versionPlan_eq_ok hok
  rw [Lineage.Generated.namedApart_iff,
    nodup_validators_iff h.linked.framed.wellFormed hfor.validators, nodup_setters_iff hok]
  exact ⟨fun ⟨hvalidators, _, hsetters⟩ => ⟨hvalidators, hsetters⟩,
    fun htold => ⟨htold.validators, nodup_converters hok, htold.setters⟩⟩

/-- **Names of functions.** The functions in each module of a unit have different names exactly if
    names tell the messages of validators and the fields of setters apart. -/
theorem namedApart_of_generate {set : DescriptorSet} {config : Config}
    (h : generate set config = .ok plan) (hvp : vp ∈ plan.versions) :
    (Lineage.Generated.ofVersion plan.chain vp).NamedApart ↔ vp.ToldApart plan.chain :=
  (generated_of_generate h).namedApart_iff hvp

set_option maxRecDepth 10000 in
/-- The unit of the first version of the sample. -/
theorem namedApart_sample : ∃ vp, generate noteSet {} = .ok notePlan ∧ vp ∈ notePlan.versions ∧
    vp.package = "v1" ∧ vp.ToldApart notePlan.chain ∧
      (Lineage.Generated.ofVersion notePlan.chain vp).NamedApart := by
  have hchecked : notePlan.versions.any (fun vp =>
      vp.package == "v1" && decide (vp.ToldApart notePlan.chain)) = true := by decide +kernel
  simp only [List.any_eq_true, Bool.and_eq_true, beq_iff_eq, decide_eq_true_eq] at hchecked
  obtain ⟨vp, hvp, hpackage, htold⟩ := hchecked
  exact ⟨vp, generate_noteSet, hvp, hpackage, htold,
    (namedApart_of_generate generate_noteSet hvp).mpr htold⟩

/-- A package with two requests that may have a note. -/
def requestsFile (package : String) (noted : Bool) (locations : List Location) : FileDescriptor :=
  { name := package ++ ".proto"
    package
    messages := { name := "Response" } :: ["GetRequest", "PutRequest"].map fun (name : String) =>
      { name, fields := if noted then [noteField "note" "TYPE_STRING"] else [] }
    services := [{
      name := "Service"
      methods := ["Get", "Put"].map fun (name : String) =>
        { name, inputType := package ++ "." ++ name ++ "Request"
          outputType := package ++ ".Response" } }]
    locations }

/-- The second version has no notes; those of the first one are deprecated. -/
def requestsSet : DescriptorSet :=
  { files := [
      requestsFile "v1" true ([1, 2].map fun message =>
        { path := [4, message, 2, 0], leading := some "gen:svc deprecated" }),
      requestsFile "v2" false [], requestsFile "private" true []] }

/-- The plan of the sample. -/
def requestsPlan : Plan := (generate requestsSet {}).toOption.getD {}

set_option maxRecDepth 10000 in
/-- **Requests with one field** have setters of one name. -/
theorem not_namedApart : ¬∀ set config plan vp, generate set config = .ok plan →
    vp ∈ plan.versions → (Lineage.Generated.ofVersion plan.chain vp).NamedApart := by
  intro hall
  obtain ⟨hsome, hchecked⟩ : (generate requestsSet {}).toOption.isSome = true ∧
      requestsPlan.versions.any (fun vp => decide (¬vp.ToldApart requestsPlan.chain)) = true := by
    decide +kernel
  have hok := eq_ok_of_isSome hsome
  simp only [List.any_eq_true, decide_eq_true_eq] at hchecked
  obtain ⟨vp, hvp, hclash⟩ := hchecked
  have hnamed := hall requestsSet {} requestsPlan vp hok hvp
  exact hclash (((generated_of_generate hok).namedApart_iff hvp).mp hnamed)

end Plan

end Lineage
