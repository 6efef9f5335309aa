import Lineage.Proofs.Chain.Counterpart
import Lineage.Proofs.Plan.Sample
import Lineage.Proofs.Service.Access
import Lineage.Proofs.Service.Hop

namespace Lineage

/-!
# Responses are delivered

A value of a private response gets to the public one along the same path, whatever versions are in
between and wherever it is read from at each of them.

* `Chain.privateName`, `Plan.Crosses`, `Plan.Enters` — paths of message fields that are converted
  everywhere, and their private counterparts,
* `Plan.Agrees` — a record holds the same as the private record, at every path,
* `Service.MadeUp` — a record that is made by a converter that leads up; `MadeUp.get?`,
  `MadeUp.nested` — what it holds, `MadeUp.agrees` — it agrees with the private record,
* `Service.run_agrees` — so does what a visit answers,
* `Service.answered_of_generate` — the public response holds what the private one holds.
-/

open Service

namespace Chain

/-- The name of the private counterpart of a field; a private field stands for itself. -/
def privateName (c : Chain) (f : FieldId) : String :=
  (c.field ((c.field f).link.final.getD f)).name

/-- The private name of a field is that of its private counterpart. -/
theorem privateName_eq {c : Chain} {f p : FieldId} (h : (c.field f).link.final = some p) :
    c.privateName f = (c.field p).name := by
  rw [privateName, h]
  rfl

/-- A field of a public message has a private counterpart. -/
theorem Linked.exists_final {c : Chain} {count : Nat} (h : c.Linked count) {m : MessageId}
    {f : FieldId} (hf : f ∈ (c.message m).fields)
    (hpublic : (c.message m).version.index + 1 < count) : ∃ p, (c.field f).link.final = some p := by
  obtain ⟨q, hq, -⟩ := (h.field_coherent hf hpublic).final
  obtain ⟨p, hp, -⟩ := Option.map_eq_some_iff.mp hq
  exact ⟨p, hp⟩

/-- A field and its next counterpart share the name of their private counterpart. -/
theorem Linked.privateName_next {c : Chain} {count : Nat} (h : c.Linked count) {m : MessageId}
    {f g : FieldId} (hf : f ∈ (c.message m).fields)
    (hpublic : (c.message m).version.index + 1 < count)
    (hshared : (c.field g).link.final = (c.field f).link.final) :
    c.privateName g = c.privateName f := by
  obtain ⟨p, hp⟩ := h.exists_final hf hpublic
  rw [privateName_eq hp, privateName_eq (hshared.trans hp)]

/-- The names along a path of fields. -/
def publicPath (c : Chain) (path : List (FieldId × Option Nat)) : List (String × Option Nat) :=
  path.map fun s => ((c.field s.1).name, s.2)

/-- The names along the private counterparts of a path of fields. -/
def privatePath (c : Chain) (path : List (FieldId × Option Nat)) : List (String × Option Nat) :=
  path.map fun s => (c.privateName s.1, s.2)

/-- A record of a message, if any, holds what the private record holds in the counterparts of the
    copied fields. -/
structure Same (c : Chain) (m : MessageId) (record final : Option Record) : Prop where
  isSome : record.isSome = final.isSome
  fields : ∀ f ∈ (c.message m).fields, c.Copied f →
    record.bind (·.get? (c.field f).name) = final.bind (·.get? (c.privateName f))

end Chain

/-- The fields that a converter leaves out for want of a mapping. -/
def Converter.unconverted : Converter → List String
  | .message x => x.unconverted
  | .enumeration _ => []

namespace Plan

/-- A field that leads to plain fields alone, none of which any converter that leads up
    leaves out. -/
def Crosses (plan : Plan) (f : FieldId) : Prop :=
  ∀ g, plan.chain.LeadsTo f g → (plan.chain.field g).oneof = none ∧
    ∀ vp ∈ plan.versions, ∀ function x, vp.converter? function = some (.message x) →
      x.kind.isDown = false → x.message = (plan.chain.field g).message →
      (plan.chain.field g).name ∉ x.unconverted

/-- A path of message fields that cross, each with a position if it is repeated, from one message to
    another. -/
inductive Enters (plan : Plan) : MessageId → List (FieldId × Option Nat) → MessageId → Prop
  | here (m : MessageId) : Enters plan m [] m
  | into {m n k : MessageId} {f : FieldId} {position : Option Nat}
      {rest : List (FieldId × Option Nat)} (hf : f ∈ (plan.chain.message m).fields)
      (hcrosses : plan.Crosses f) (hkind : (plan.chain.field f).kind = .message)
      (htype : (plan.chain.field f).typeRef = some (.message n))
      (hposition : position.isSome = (plan.chain.field f).repeated)
      (hrest : Enters plan n rest k) : Enters plan m ((f, position) :: rest) k

/-- A record of a message holds what the private record holds, at the end of every path. -/
def Agrees (plan : Plan) (m : MessageId) (record final : Record) : Prop :=
  ∀ path n, plan.Enters m path n → plan.chain.Same n (record.recordAt (plan.chain.publicPath path))
    (final.recordAt (plan.chain.privatePath path))

/-- What a field leads to crosses if the field does. -/
theorem Crosses.leads {plan : Plan} {f g : FieldId} (h : plan.Crosses f)
    (hg : plan.chain.Leads f g) : plan.Crosses g :=
  fun x hx => h x (.head hg hx)

section
variable {plan : Plan} {m n : MessageId} {record final : Record} {f : FieldId}
  {position : Option Nat}

/-- What is found in a field of a record that agrees agrees with what is found in the private
    counterpart. -/
theorem Agrees.nested (h : plan.Agrees m record final) (hf : f ∈ (plan.chain.message m).fields)
    (hcrosses : plan.Crosses f) (hkind : (plan.chain.field f).kind = .message)
    (htype : (plan.chain.field f).typeRef = some (.message n))
    (hposition : position.isSome = (plan.chain.field f).repeated) :
    record.nested (plan.chain.field f).name position = none ∧
        final.nested (plan.chain.privateName f) position = none ∨
      ∃ a b, record.nested (plan.chain.field f).name position = some a ∧
        final.nested (plan.chain.privateName f) position = some b ∧ plan.Agrees n a b := by
  have hstep : ∀ rest k, plan.Enters n rest k → plan.chain.Same k
      ((record.nested (plan.chain.field f).name position).bind
        (Record.recordAt (plan.chain.publicPath rest)))
      ((final.nested (plan.chain.privateName f) position).bind
        (Record.recordAt (plan.chain.privatePath rest))) := by
    intro rest k hrest
    exact h _ k (.into hf hcrosses hkind htype hposition hrest)
  -- the empty path says that both are there or neither is; longer ones say what they hold
  have hsome := (hstep [] n (.here n)).isSome
  cases hrecord : record.nested (plan.chain.field f).name position with
  | none =>
    rw [hrecord] at hsome
    cases hfinal : final.nested (plan.chain.privateName f) position with
    | none => exact .inl ⟨rfl, rfl⟩
    | some b =>
      rw [hfinal] at hsome
      cases hsome
  | some a =>
    rw [hrecord] at hsome
    cases hfinal : final.nested (plan.chain.privateName f) position with
    | none =>
      rw [hfinal] at hsome
      cases hsome
    | some b =>
      refine .inr ⟨a, b, rfl, rfl, fun rest k hrest => ?_⟩
      have hsame := hstep rest k hrest
      rwa [hrecord, hfinal] at hsame

end

end Plan

namespace Service

variable {r : Registry} {plan : Plan} {v : Version} {vp : VersionPlan} {Root : Request → Prop}
  {p m t : MethodId} {a : Visit}

/-! ### Records made by converters that lead up -/

/-- A record of a message that a converter that leads up makes from a private record and, if it
    reads that too, a record of the next version that agrees with it. -/
def MadeUp (plan : Plan) (v : Version) (vp : VersionPlan) (Root : Request → Prop) (id : MessageId)
    (final out : Record) : Prop :=
  ∃ kind next, RunsUp (plan.chain.viewOf v) vp Root kind id next final out ∧
    ((plan.chain.viewOf v).shape kind = .upFromNext → ∃ m record, next = some record ∧
      (plan.chain.message id).link.next = some m ∧ plan.Agrees m record final)

section
variable (hplan : plan.Generated) (hmembers : plan.chain.UniqueMembers) {id : MessageId}
  {final out : Record} {f : FieldId}
include hplan hmembers

/-- **Copied fields** of what is made hold what the private record holds. -/
theorem MadeUp.get? (h : MadeUp plan v vp Root id final out)
    (hf : f ∈ (plan.chain.message id).fields) (hcopied : plan.chain.Copied f) :
    out.get? (plan.chain.field f).name = final.get? (plan.chain.privateName f) := by
  obtain ⟨kind, next, hrun, hnext⟩ := h
  have hlinked := hplan.linked
  obtain ⟨x, n, hok, -⟩ := hrun.exists_run
  have hpublic := View.public_of_messageConverter (w := plan.chain.viewOf v) hlinked hok
  -- what is read from the next record is there what the private one holds, as the two agree
  obtain ⟨p, hp, hget⟩ | ⟨hshape, record, g, rfl, hg, hget⟩ :=
    hrun.get? hlinked hmembers hf hcopied
  · rw [Chain.privateName_eq (c := plan.chain) hp]
    exact hget
  · obtain ⟨m, record, hrecord, hm, hagrees⟩ := hnext hshape
    obtain rfl := Option.some.inj hrecord
    obtain ⟨hmem, hfinal⟩ := hlinked.field_next hf hpublic hm hg
    have hsame := (hagrees [] m (.here m)).fields g hmem (hcopied.leads (.inl hg))
    rw [← hlinked.privateName_next hf hpublic hfinal]
    exact hget.trans hsame

/-- **Message fields** that cross hold records that are made from those in their private
    counterparts. -/
theorem MadeUp.nested (hvp : vp ∈ plan.versions)
    (hprovides : vp.Provides (plan.chain.viewOf v) Root) (h : MadeUp plan v vp Root id final out)
    (hf : f ∈ (plan.chain.message id).fields) (hcrosses : plan.Crosses f)
    (hkind : (plan.chain.field f).kind = .message) {n : MessageId}
    (htype : (plan.chain.field f).typeRef = some (.message n)) {position : Option Nat}
    (hposition : position.isSome = (plan.chain.field f).repeated) :
    out.nested (plan.chain.field f).name position = none ∧
        final.nested (plan.chain.privateName f) position = none ∨
      ∃ a b, out.nested (plan.chain.field f).name position = some a ∧
        final.nested (plan.chain.privateName f) position = some b ∧
        MadeUp plan v vp Root n b a := by
  obtain ⟨kind, next, hrun, hnext⟩ := h
  have hlinked := hplan.linked
  obtain ⟨x, fuel, hok, -⟩ := hrun.exists_run
  have hpublic := View.public_of_messageConverter (w := plan.chain.viewOf v) hlinked hok
  obtain ⟨hplain, hconverted⟩ := hcrosses f .refl
  have hleft : ∀ x, ((plan.chain.viewOf v).messageConverter kind id).result = .ok x →
      (plan.chain.field f).name ∉ x.unconverted := by
    intro x hx
    obtain ⟨y, hy, hoky, -⟩ := hprovides.message hrun.asked
    obtain rfl := Except.ok.inj (hx.symm.trans hoky)
    have hspec := View.messageConverter_spec hx
    refine hconverted vp hvp _ x hy (hspec.kind ▸ hrun.up) ?_
    rw [hspec.message, ((hlinked.framed.wellFormed.mem_fields id f).mp hf).2]
  obtain ⟨p, hp, hnested⟩ | ⟨hshape, record, g, m', rfl, hg, hkind', hrepeated, htype', hlink,
      hnested⟩ :=
    hrun.nested hlinked hmembers hprovides hf hplain hleft hkind htype position
  · rw [Chain.privateName_eq (c := plan.chain) hp]
    obtain hnone | ⟨nested, a, b, ha, hb, hshape, hruns⟩ := hnested
    · exact .inl hnone
    · refine .inr ⟨a, b, ha, hb, nested, none, hruns, fun hnext => ?_⟩
      cases hshape.symm.trans hnext
  · obtain ⟨m, record, hrecord, hm, hagrees⟩ := hnext hshape
    obtain rfl := Option.some.inj hrecord
    obtain ⟨hmem, hfinal⟩ := hlinked.field_next hf hpublic hm hg
    have hname := hlinked.privateName_next hf hpublic hfinal
    -- the records of the next version and of the private one lie at one place
    have hbeside := hagrees.nested hmem (hcrosses.leads (.inl hg)) hkind' htype'
      (hposition.trans hrepeated.symm)
    rw [hname] at hbeside
    obtain ⟨hnone, hnone'⟩ | ⟨a, b, ha, hb, hruns⟩ := hnested
    · obtain ⟨-, hprivate⟩ | ⟨_, _, hsome, -⟩ := hbeside
      · exact .inl ⟨hnone, hprivate⟩
      · cases hnone'.symm.trans hsome
    · obtain ⟨hnone, -⟩ | ⟨b', q, hb', hq, hagrees'⟩ := hbeside
      · cases hb.symm.trans hnone
      · obtain rfl := Option.some.inj (hb.symm.trans hb')
        refine .inr ⟨a, q, ha, hq, .toPublic, some b, ?_, fun _ => ⟨m', b, rfl, hlink, hagrees'⟩⟩
        obtain ⟨p, hp⟩ := hlinked.exists_final hf hpublic
        rw [Chain.privateName_eq hp] at hq
        have hbesides : (((plan.chain.field f).link.final.bind fun p =>
            final.nested (plan.chain.field p).name position)).getD {} = q := by
          rw [hp, Option.bind_some, hq]
          rfl
        exact hbesides ▸ hruns

/-- **What is made agrees** with the private record. -/
theorem MadeUp.agrees (hvp : vp ∈ plan.versions)
    (hprovides : vp.Provides (plan.chain.viewOf v) Root) (h : MadeUp plan v vp Root id final out) :
    plan.Agrees id out final := by
  intro path n henters
  -- by induction on the path: the record at each step is made up again, of smaller ones
  induction henters generalizing final out with
  | here m => exact ⟨rfl, fun f hf hcopied => h.get? hplan hmembers hf hcopied⟩
  | into hf hcrosses hkind htype hposition _ ih =>
    obtain ⟨hnone, hnone'⟩ | ⟨a, b, ha, hb, hmade⟩ :=
      h.nested hplan hmembers hvp hprovides hf hcrosses hkind htype hposition
    · simp only [Chain.publicPath, Chain.privatePath, List.map_cons, Record.recordAt_cons, hnone,
        hnone', Option.bind_none]
      exact ⟨rfl, fun _ _ _ => rfl⟩
    · simp only [Chain.publicPath, Chain.privatePath, List.map_cons, Record.recordAt_cons, ha, hb,
        Option.bind_some]
      exact ih hmade

end

/-! ### Calls -/

section
variable (hplan : r.plan.Generated) (hmembers : r.plan.chain.UniqueMembers)
  (hdefault : r.converters = [])
include hplan hmembers hdefault

/-- **One hop.** The response that is made at a visit agrees with the private one, if that of the
    visit that follows does so. -/
theorem Hop.response_agrees {v : VersionPlan} {mp : MethodPlan} (hop : Hop r p m a v mp t)
    {up : String} (hup : mp.up = some up) {next final response : Record}
    (hnext : (r.plan.chain.method t).version.index + 1 < r.plan.chain.versions.size →
      r.plan.Agrees (r.plan.chain.method t).output next final)
    (hok : r.responseOf v mp up next final = .ok response) :
    r.plan.Agrees (r.plan.chain.method m).output response final := by
  obtain ⟨kind, x, function, hfunction, hkind, hisUp, hasked, -, hx, heq⟩ := hop.up
  obtain rfl := Option.some.inj (hup.symm.trans hfunction)
  have hstrategy : r.converterOf v = {} := by rw [Registry.converterOf, hdefault]; rfl
  rw [Registry.responseOf, hstrategy, mapError_eq_ok] at hok
  have hrun := (heq _ _).symm.trans hok
  have hmade : MadeUp r.plan (r.plan.chain.version (r.plan.chain.method m).version) v
      (r.plan.chain.AsksFor (r.plan.chain.version (r.plan.chain.method m).version))
      (r.plan.chain.method m).output final response := by
    refine ⟨kind, _, ⟨hasked, hisUp, x, _, hx, hrun⟩, fun hshape => ?_⟩
    change (r.plan.chain.methodView m).shape kind = .upFromNext at hshape
    rw [hkind] at hshape
    -- only a hop to the next version reads its response, and then the response is not deprecated
    obtain hgoes | hgoes := hop.goes
    · cases (hgoes.up _).symm.trans hshape
    · have hroute : mp.route = .toNext := by rw [hop.planned]; exact hgoes.route
      have hlive : (r.plan.chain.message (r.plan.chain.method m).output).deprecated = false := by
        by_contra hdeprecated
        rw [hgoes.up, View.request_toPublic_of_deprecated (w := r.plan.chain.methodView m)
          (s := .message _) (eq_true_of_ne_false hdeprecated)] at hshape
        cases hshape
      refine ⟨_, next, ?_, hgoes.output hlive, hnext hgoes.isPublic⟩
      rw [hroute]
      rfl
  exact hmade.agrees hplan hmembers (List.mem_of_getElem? hop.hat.1) hop.provides

variable (hnames : r.plan.chain.UniqueMethods) (hun : r.plan.chain.UnambiguousConverters)
include hnames hun

/-- **What a visit answers** agrees with what the backend has answered. -/
theorem run_agrees {visits : Nat} (hof : a.Of r.plan m)
    (hleads : m = p ∧ a.index + 1 = r.plan.chain.versions.size ∨
      a.index + 1 < r.plan.chain.versions.size ∧ (r.plan.chain.method m).link.final = some p)
    {σ : Type} {backend : Backend σ} {state state' : σ} {response final : Record}
    (hrun : a.run r backend visits state = (.ok (response, final), state')) :
    (∃ q, backend.call (r.plan.chain.method p).name q state = (.ok final, state')) ∧
      (a.index + 1 < r.plan.chain.versions.size →
        r.plan.Agrees (r.plan.chain.method m).output response final) := by
  -- by induction on the visits left: the answer of each visit is made of that of the one that
  -- follows
  induction visits generalizing a m response with
  | zero => cases hrun
  | succ visits ih =>
    obtain ⟨rfl, hlast⟩ | ⟨hpublic, hp⟩ := hleads
    · -- the private version
      obtain ⟨v, mp, hfound⟩ := Bound.found hplan hnames
        ⟨m, hof.exists_method, hof.version, hof.name, .inl ⟨rfl, hlast⟩⟩
      have hroute := hfound.private_iff.mpr (hplan.length_versions ▸ hlast)
      rw [Visit.run_backend hfound.hat hroute, (hfound.target hroute).1] at hrun
      refine ⟨⟨a.written, ?_⟩, fun hpublic => by omega⟩
      split at hrun
      · cases hrun
      · obtain ⟨hanswer, hstate⟩ := Prod.mk.inj hrun
        obtain ⟨y, hy, hpair⟩ := map_eq_ok.mp hanswer
        exact Prod.ext (hy.trans (congrArg _ (Prod.mk.inj hpair).2)) hstate
    · obtain ⟨v, mp, t, hop⟩ := exists_hop hplan hnames hun hof hpublic hp
      rw [Visit.run_hop hop.hat hop.route_ne_backend] at hrun
      cases hok : r.handOver v mp a.name a.request a.mutations with
      | error e =>
        rw [hok] at hrun
        cases hrun
      | ok o =>
        rw [hok] at hrun
        obtain ⟨hanswer, hstate⟩ := Prod.mk.inj hrun
        obtain ⟨⟨next, final'⟩, hnext, hresponse⟩ := bind_eq_ok.mp hanswer
        obtain ⟨y, hy, hpair⟩ := map_eq_ok.mp hresponse
        obtain ⟨rfl, rfl⟩ := Prod.mk.inj hpair
        -- the visit that follows
        have hof' := hop.next_of hplan o
        have hindex := hof'.version
        have hleads' : t = p ∧ (a.next r mp o).index + 1 = r.plan.chain.versions.size ∨
            (a.next r mp o).index + 1 < r.plan.chain.versions.size ∧
              (r.plan.chain.method t).link.final = some p := by
          obtain hgoes | hgoes := hop.goes
          · exact .inl ⟨hgoes.target, hindex ▸ hgoes.last⟩
          · exact .inr ⟨hindex ▸ hgoes.isPublic, hgoes.final⟩
        obtain ⟨hbackend, hagrees⟩ := ih hof' hleads' (Prod.ext hnext hstate)
        refine ⟨hbackend, fun _ => ?_⟩
        obtain ⟨-, -, -, -, -, -, hup⟩ := hop.handOver_eq_ok hdefault hok
        exact hop.response_agrees hplan hmembers hdefault hup (fun h => hagrees (hindex ▸ h)) hy

end

/-- **Responses are delivered.** Every call of a public method that succeeds has called the private
    method once, successfully, and along every path of message fields that cross, the public
    response holds in each copied field what the private response holds in its private counterpart:
    both nothing, or the same. -/
theorem answered_of_generate {set : DescriptorSet} {config : Config}
    (h : Plan.generate set config = .ok r.plan) (hdefault : r.converters = [])
    (hmembers : r.plan.chain.UniqueMembers) (hnames : r.plan.chain.UniqueMethods)
    (hun : r.plan.chain.UnambiguousConverters) {package : String}
    (hv : r.plan.chain.versionOf? package = some v) (hpublic : v.isPrivate = false)
    (hm : m ∈ v.methods) {σ : Type} (backend : Backend σ) (state : σ) {request response : Record}
    (hanswer : (r.call backend package (r.plan.chain.method m).name request state).1
      = .ok response) :
    ∃ p q final, (r.plan.chain.method m).link.final = some p ∧
      (r.observe backend package (r.plan.chain.method m).name request state).calls
        = [((r.plan.chain.method p).name, q)] ∧
      (backend.call (r.plan.chain.method p).name q state).1 = .ok final ∧
      ∀ path n, r.plan.Enters (r.plan.chain.method m).output path n →
        ∀ f ∈ (r.plan.chain.message n).fields, r.plan.chain.Copied f →
          response.valueAt (r.plan.chain.publicPath path) (r.plan.chain.field f).name
            = final.valueAt (r.plan.chain.privatePath path) (r.plan.chain.privateName f) := by
  have hplan := Plan.generated_of_generate h
  obtain ⟨hpackage, hsize, hindex, hbefore, p, hp⟩ := exists_start hplan hv hpublic hm
  let start : Visit :=
    { index := v.id.index, name := (r.plan.chain.method m).name, request, mutations := [] }
  have hbound : Bound r.plan p start := ⟨m, hsize, hindex, rfl, .inr ⟨hbefore, hp.final⟩⟩
  change (r.call backend package start.name start.request state).1 = .ok response at hanswer
  change ∃ p q final, _ ∧ (r.observe backend package start.name start.request state).calls = _ ∧ _
  rw [hbound.call_eq_observe hplan hnames hpackage rfl, observe_eq hpackage rfl] at hanswer
  rw [observe_eq hpackage rfl]
  obtain ⟨⟨response', final⟩, hrun, rfl⟩ := map_eq_ok.mp hanswer
  obtain ⟨⟨q, hcall⟩, hagrees⟩ := run_agrees (a := start) hplan hmembers hdefault hnames hun
    ⟨hsize, hindex, rfl⟩ (.inr ⟨hbefore, hp.final⟩) (Prod.ext hrun rfl)
  obtain ⟨hfinal, hstate⟩ := Prod.mk.inj hcall
  refine ⟨p, q, final, hp.final, ?_, hfinal, fun path n henters f hf hcopied => ?_⟩
  · exact congrArg Prod.snd hstate.symm
  · exact (hagrees hbefore path n henters).fields f hf hcopied

/-- A backend that always answers with a response of one part, which has a tag. -/
def partBackend : Backend Unit where
  call _ _ s := (.ok
    { message := "private.Response"
      fields := [("parts", .list [.message "private.Part" [("tag", .str "blue")]])] }, s)

set_option maxRecDepth 10000 in
/-- The tag of a part of a response, which bypasses the second version of the sample. -/
theorem answered_sample : ∃ response,
    (Registry.call { plan := Plan.notePlan } partBackend "v1" "Get" {} ()).1 = .ok response ∧
      response.valueAt [("parts", some 0)] "tag" = some (.str "blue") := by
  obtain ⟨hok, hv, hpublic, hm, hname, hf, hkind, htype, hrepeated, htag, hclosed,
      hcopied, hcrosses, hplain, hconverted, hpath, hpath', hname', hprivate⟩ :
      (Registry.call { plan := Plan.notePlan } partBackend "v1" "Get" {} ()).1.toOption.isSome ∧
      Plan.notePlan.chain.versionOf? "v1" = some (Plan.notePlan.chain.version ⟨0⟩) ∧
      (Plan.notePlan.chain.version ⟨0⟩).isPrivate = false ∧
      ⟨0⟩ ∈ (Plan.notePlan.chain.version ⟨0⟩).methods ∧
      (Plan.notePlan.chain.method ⟨0⟩).name = "Get" ∧
      ⟨4⟩ ∈ (Plan.notePlan.chain.message (Plan.notePlan.chain.method ⟨0⟩).output).fields ∧
      (Plan.notePlan.chain.field ⟨4⟩).kind = .message ∧
      (Plan.notePlan.chain.field ⟨4⟩).typeRef = some (.message ⟨1⟩) ∧
      (some 0).isSome = (Plan.notePlan.chain.field ⟨4⟩).repeated ∧
      ⟨3⟩ ∈ (Plan.notePlan.chain.message ⟨1⟩).fields ∧
      (∀ g ∈ [⟨3⟩, ⟨12⟩], ∀ x ∈ (Plan.notePlan.chain.field g).link.next.toList
        ++ (Plan.notePlan.chain.field g).link.final.toList, x ∈ [⟨3⟩, ⟨12⟩]) ∧
      (∀ g ∈ [⟨3⟩, ⟨12⟩], (Plan.notePlan.chain.field g).oneof = none ∧
        (Plan.notePlan.chain.field g).kind = .scalar .string ∧
        (Plan.notePlan.chain.field g).repeated = (Plan.notePlan.chain.field ⟨3⟩).repeated) ∧
      (∀ g ∈ [⟨4⟩, ⟨8⟩, ⟨13⟩], ∀ x ∈ (Plan.notePlan.chain.field g).link.next.toList
        ++ (Plan.notePlan.chain.field g).link.final.toList, x ∈ [⟨4⟩, ⟨8⟩, ⟨13⟩]) ∧
      (∀ g ∈ [⟨4⟩, ⟨8⟩, ⟨13⟩], (Plan.notePlan.chain.field g).oneof = none) ∧
      (∀ vp ∈ Plan.notePlan.versions, ∀ e ∈ vp.converters, e.2.unconverted = []) ∧
      Plan.notePlan.chain.publicPath [(⟨4⟩, some 0)] = [("parts", some 0)] ∧
      Plan.notePlan.chain.privatePath [(⟨4⟩, some 0)] = [("parts", some 0)] ∧
      (Plan.notePlan.chain.field ⟨3⟩).name = "tag" ∧
      Plan.notePlan.chain.privateName ⟨3⟩ = "tag" := by
    decide +kernel
  have hcross : Plan.notePlan.Crosses ⟨4⟩ := by
    intro g hg
    refine ⟨hplain g (hg.mem_of_closed List.mem_cons_self hcrosses), fun vp hvp name x hx _ _ => ?_⟩
    have hleft : x.unconverted = [] := hconverted vp hvp _ (Sorted.mem_of_get? hx)
    rw [hleft]
    exact List.not_mem_nil
  obtain ⟨response, hresponse⟩ : ∃ response,
      (Registry.call { plan := Plan.notePlan } partBackend "v1" "Get" {} ()).1 = .ok response := by
    cases hcall : (Registry.call { plan := Plan.notePlan } partBackend "v1" "Get" {} ()).1 with
    | error e =>
      rw [hcall] at hok
      cases hok
    | ok response => exact ⟨response, rfl⟩
  refine ⟨response, hresponse, ?_⟩
  obtain ⟨p, q, final, -, -, hfinal, hvalues⟩ := answered_of_generate
    (r := { plan := Plan.notePlan }) Plan.generate_noteSet rfl Plan.notePlan_checked.2.1
    Plan.notePlan_checked.2.2.1 Plan.notePlan_unambiguousConverters hv hpublic hm partBackend ()
    (hname ▸ hresponse)
  have hvalue := hvalues _ _ (.into hf hcross hkind htype hrepeated (.here _)) ⟨3⟩ htag
    (.of_closed [⟨3⟩, ⟨12⟩] List.mem_cons_self hclosed hcopied)
  rw [hpath, hpath', hname', hprivate] at hvalue
  rw [hvalue, ← Except.ok.inj hfinal]
  rfl

end Service

end Lineage
