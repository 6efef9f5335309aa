import Lineage.Chain.Order
import Lineage.Proofs.Decimal.Literal
import Mathlib.Data.List.Chain
import Mathlib.Data.List.Forall2

namespace Lineage

/-!
# Version names in numeric order

* `MaximalRuns` — a text cut into its maximal runs of digits and of other characters;
  `MaximalRuns.eq_runsOf` — there is one way to cut it, `MaximalRuns.append` — texts one after the
  other are cut where they meet,
* `Run.Agrees` — runs that are not told apart, `Run.segment_eq_iff`,
* `NumericOrder` — what is said of a comparison of names that counts runs of digits as numbers,
  `versionOrder_numeric` — the comparison of version names is one.
-/

/-! ### Maximal runs -/

/-- A run has characters, and they are of its sort. -/
structure Run.Proper (r : Run) : Prop where
  nonempty : r.chars ≠ []
  uniform : ∀ c ∈ r.chars, c.isDigit = r.digits

/-- The runs that a text consists of, each as long as it can be: neighbours are not of the same
    sort. -/
structure MaximalRuns (cs : List Char) (rs : List Run) : Prop where
  joined : rs.flatMap (·.chars) = cs
  proper : ∀ r ∈ rs, r.Proper
  maximal : rs.IsChain fun r s => r.digits ≠ s.digits

/-- A character in front joins the first run if it is of the same sort. -/
theorem Run.push_eq (c : Char) (rs : List Run) : Run.push c rs =
    match rs with
    | r :: rest => if r.digits = c.isDigit then { r with chars := c :: r.chars } :: rest
      else ⟨c.isDigit, [c]⟩ :: rs
    | [] => [⟨c.isDigit, [c]⟩] := by
  cases rs with
  | nil => rw [Run.push, Decimal.isDigit_eq]
  | cons r rest => simp only [Run.push, Decimal.isDigit_eq, beq_iff_eq]

namespace MaximalRuns

variable {cs xs ys : List Char} {rs ss : List Run}

/-- No characters have no runs. -/
theorem nil : MaximalRuns [] [] := ⟨rfl, List.forall_mem_nil _, .nil⟩

/-- One more character in front. -/
theorem push (h : MaximalRuns cs rs) (c : Char) : MaximalRuns (c :: cs) (Run.push c rs) := by
  have hjoined : (Run.push c rs).flatMap (·.chars) = c :: cs := by rw [Run.flatMap_push, h.joined]
  have hsingle : Run.Proper ⟨c.isDigit, [c]⟩ := ⟨List.cons_ne_nil _ _, by simp⟩
  refine ⟨hjoined, ?_, ?_⟩ <;> rw [Run.push_eq]
  · cases rs with
    | nil => exact List.forall_mem_singleton.mpr hsingle
    | cons r rest =>
      obtain ⟨hr, hrest⟩ := List.forall_mem_cons.mp h.proper
      dsimp only
      split
      · rename_i hsort
        exact List.forall_mem_cons.mpr
          ⟨⟨List.cons_ne_nil _ _, List.forall_mem_cons.mpr ⟨hsort.symm, hr.uniform⟩⟩, hrest⟩
      · exact List.forall_mem_cons.mpr ⟨hsingle, h.proper⟩
  · cases rs with
    | nil => exact .singleton _
    | cons r rest =>
      dsimp only
      split
      · -- the first run stays of its sort
        exact List.isChain_cons.mpr (List.isChain_cons.mp h.maximal)
      · rename_i hsort
        exact List.isChain_cons_cons.mpr ⟨fun heq => hsort heq.symm, h.maximal⟩

/-- Every text consists of maximal runs. -/
theorem runsOf (cs : List Char) : MaximalRuns cs (runsOf cs) := by
  induction cs with
  | nil => exact nil
  | cons c cs ih => exact ih.push c

/-- A run in front of runs of which the first one is of another sort. -/
theorem runsOf_append {r : Run} (hr : r.Proper) (hrs : ∀ s ∈ rs.head?, r.digits ≠ s.digits)
    (h : Lineage.runsOf cs = rs) : Lineage.runsOf (r.chars ++ cs) = r :: rs := by
  obtain ⟨sort, chars⟩ := r
  obtain ⟨hne, huniform⟩ := hr
  -- from the end of the run: its last character begins it, all others are put in front
  induction chars with
  | nil => exact absurd rfl hne
  | cons c chars ih =>
    obtain ⟨hc, hchars⟩ := List.forall_mem_cons.mp huniform
    obtain rfl | hne := eq_or_ne chars []
    · show Run.push c (Lineage.runsOf cs) = _
      rw [h, Run.push_eq]
      cases rs with
      | nil => simp only [hc]
      | cons s rest => simp only [hc, if_neg (hrs s rfl).symm]
    · show Run.push c (Lineage.runsOf (chars ++ cs)) = _
      rw [ih hrs hne hchars, Run.push_eq]
      simp only [hc, if_true]

/-- **Runs.** There is one way to cut a text into maximal runs. -/
theorem eq_runsOf (h : MaximalRuns cs rs) : rs = Lineage.runsOf cs := by
  induction rs generalizing cs with
  | nil =>
    obtain rfl := h.joined
    rfl
  | cons r rs ih =>
    obtain rfl := h.joined
    obtain ⟨hr, hproper⟩ := List.forall_mem_cons.mp h.proper
    obtain ⟨hfirst, hmaximal⟩ := List.isChain_cons.mp h.maximal
    exact (runsOf_append hr hfirst (ih ⟨rfl, hproper, hmaximal⟩).symm).symm

/-- The last run is of the sort of the last character. -/
theorem exists_getLast? (h : MaximalRuns cs rs) {r : Run} (hr : r ∈ rs.getLast?) :
    ∃ c ∈ cs.getLast?, c.isDigit = r.digits := by
  obtain ⟨before, rfl⟩ := List.getLast?_eq_some_iff.mp hr
  obtain ⟨hne, huniform⟩ := h.proper r (by simp)
  have hlast : cs.getLast? = some (r.chars.getLast hne) := by
    rw [← h.joined, List.flatMap_append, List.flatMap_singleton,
      List.getLast?_append_of_ne_nil _ hne, List.getLast?_eq_some_getLast hne]
  exact ⟨_, hlast, huniform _ (List.getLast_mem hne)⟩

/-- The first run is of the sort of the first character. -/
theorem exists_head? (h : MaximalRuns cs rs) {r : Run} (hr : r ∈ rs.head?) :
    ∃ c ∈ cs.head?, c.isDigit = r.digits := by
  obtain ⟨rest, rfl⟩ := List.head?_eq_some_iff.mp hr
  obtain ⟨hne, huniform⟩ := h.proper r List.mem_cons_self
  obtain ⟨c, chars, hchars⟩ := List.exists_cons_of_ne_nil hne
  refine ⟨c, ?_, huniform c (hchars ▸ List.mem_cons_self)⟩
  rw [← h.joined, List.flatMap_cons, hchars]
  rfl

/-- **Texts one after the other** have their runs one after the other if characters of different
    sorts meet. -/
theorem append (hxs : MaximalRuns xs rs) (hys : MaximalRuns ys ss)
    (hmeet : ∀ x ∈ xs.getLast?, ∀ y ∈ ys.head?, x.isDigit ≠ y.isDigit) :
    MaximalRuns (xs ++ ys) (rs ++ ss) where
  joined := by rw [List.flatMap_append, hxs.joined, hys.joined]
  proper := List.forall_mem_append.mpr ⟨hxs.proper, hys.proper⟩
  maximal := by
    refine List.isChain_append.mpr ⟨hxs.maximal, hys.maximal, fun r hr s hs => ?_⟩
    obtain ⟨x, hx, hxr⟩ := hxs.exists_getLast? hr
    obtain ⟨y, hy, hys⟩ := hys.exists_head? hs
    rw [← hxr, ← hys]
    exact hmeet x hx y hy

/-- A numeral is one run. -/
theorem numeral {ds : List Char} (h : Decimal.Numeral ds) : MaximalRuns ds [⟨true, ds⟩] where
  joined := List.flatMap_singleton _ _
  proper := List.forall_mem_singleton.mpr ⟨h.nonempty, h.digits⟩
  maximal := .singleton _

end MaximalRuns

/-! ### Runs as they are compared -/

/-- The number that a run of digits counts as: larger ones than fit into 64 bits are not
    told apart. -/
def cappedValue (ds : List Char) : Nat := min (Decimal.digitsValue ds) (2 ^ 64 - 1)

/-- Runs that are not told apart: digits of the same number, or the same other characters. -/
inductive Run.Agrees : Run → Run → Prop
  | digits {ds es : List Char} (h : cappedValue ds = cappedValue es) : Agrees ⟨true, ds⟩ ⟨true, es⟩
  | others (cs : List Char) : Agrees ⟨false, cs⟩ ⟨false, cs⟩

/-- A run of digits is compared by the number that it denotes, capped. -/
theorem Run.segment_digits {ds : List Char} (h : ∀ d ∈ ds, d.isDigit) :
    Run.segment ⟨true, ds⟩ = .number (cappedValue ds) := by
  show Segment.number (min (Decimal.valueFrom 0 ds) maxRunValue) = _
  rw [Decimal.valueFrom_eq h]
  rfl

/-- Runs are compared as equal if they agree. -/
theorem Run.segment_eq_iff {r s : Run} (hr : r.Proper) (hs : s.Proper) :
    r.segment = s.segment ↔ r.Agrees s := by
  obtain ⟨sort, cs⟩ := r
  obtain ⟨sort', cs'⟩ := s
  -- runs of different sorts are never equal
  cases sort <;> cases sort'
  case false.false =>
    constructor
    · intro h
      obtain rfl : cs = cs' := String.ofList_injective (Segment.text.inj h)
      exact .others cs
    · rintro ⟨⟩
      rfl
  case true.true =>
    rw [segment_digits hr.uniform, segment_digits hs.uniform]
    constructor
    · intro h
      exact .digits (Segment.number.inj h)
    · rintro ⟨h⟩
      rw [h]
  all_goals
    constructor
    · rintro ⟨⟩
    · rintro ⟨⟩

/-- Runs of two names are compared as equal if they agree one by one. -/
theorem map_segment_eq_iff {rs ss : List Run} (hrs : ∀ r ∈ rs, r.Proper)
    (hss : ∀ s ∈ ss, s.Proper) :
    rs.map Run.segment = ss.map Run.segment ↔ List.Forall₂ Run.Agrees rs ss := by
  induction rs generalizing ss with
  | nil => cases ss <;> simp
  | cons r rs ih =>
    cases ss with
    | nil => simp
    | cons s ss =>
      obtain ⟨hr, hrs⟩ := List.forall_mem_cons.mp hrs
      obtain ⟨hs, hss⟩ := List.forall_mem_cons.mp hss
      rw [List.map_cons, List.map_cons, List.cons_eq_cons, Run.segment_eq_iff hr hs, ih hrs hss,
        List.forall₂_cons]

/-! ### Names as they are compared -/

instance : Std.TransCmp Segment.compare where
  eq_swap {a b} := by
    cases a <;> cases b
    case text.text => exact Std.OrientedOrd.eq_swap
    case number.number => exact Std.OrientedOrd.eq_swap
    all_goals rfl
  isLE_trans {a b c} hab hbc := by
    cases a <;> cases b <;> cases c
    case text.text.text => exact Std.TransOrd.isLE_trans hab hbc
    case number.number.number => exact Std.TransOrd.isLE_trans hab hbc
    -- all others are decided by the sorts: a number precedes no text
    case text.number.text => cases hbc
    case number.number.text => cases hbc
    case number.text.text => cases hab
    case number.text.number => cases hab
    all_goals rfl

instance : Std.LawfulEqCmp Segment.compare where
  compare_self {a} := by
    cases a
    · exact Std.ReflOrd.compare_self
    · exact Std.ReflOrd.compare_self
  eq_of_compare {a b} h := by
    cases a <;> cases b
    case text.text => exact congrArg Segment.text (Std.LawfulEqOrd.eq_of_compare h)
    case number.number => exact congrArg Segment.number (Std.LawfulEqOrd.eq_of_compare h)
    all_goals cases h

/-- Lists are compared lexicographically. -/
theorem compareLists_eq {α : Type} (cmp : α → α → Ordering) (as bs : List α) :
    compareLists cmp as bs = List.compareLex cmp as bs := by
  induction as generalizing bs with
  | nil => cases bs <;> rfl
  | cons a as ih =>
    cases bs with
    | nil => rfl
    | cons b bs =>
      rw [compareLists, ih, List.compareLex_cons_cons]

/-- Names are compared by their segments, lexicographically. -/
theorem versionOrder_eq (a b : String) :
    versionOrder a b = List.compareLex Segment.compare (naturalKey a) (naturalKey b) :=
  compareLists_eq ..

instance : Std.TransCmp versionOrder where
  eq_swap := by
    intro a b
    rw [versionOrder_eq, versionOrder_eq]
    exact Std.OrientedCmp.eq_swap
  isLE_trans := by
    intro a b c hab hbc
    rw [versionOrder_eq] at hab hbc ⊢
    exact Std.TransCmp.isLE_trans hab hbc

/-- Names count as equal if they have the same segments. -/
theorem versionOrder_eq_eq {a b : String} :
    versionOrder a b = .eq ↔ naturalKey a = naturalKey b := by
  rw [versionOrder_eq, Std.LawfulEqCmp.compare_eq_iff_eq]

/-- What follows a common beginning decides. -/
theorem compareLex_append_cons {α : Type} {cmp : α → α → Ordering} [Std.ReflCmp cmp] {x y : α}
    (h : cmp x y = .lt) (before xs ys : List α) :
    List.compareLex cmp (before ++ x :: xs) (before ++ y :: ys) = .lt := by
  induction before with
  | nil => simp [List.compareLex_cons_cons, h]
  | cons b before ih =>
    have hb : cmp b b = .eq := Std.ReflCmp.compare_self
    rw [List.cons_append, List.cons_append, List.compareLex_cons_cons, hb, ih]
    rfl

/-- The runs of a name are its key. -/
theorem MaximalRuns.naturalKey_eq {name : String} {rs : List Run} (h : MaximalRuns name.toList rs) :
    naturalKey name = rs.map Run.segment := by
  rw [naturalKey, h.eq_runsOf]

/-- What is said of a comparison of names by their runs: no two names are incomparable, those are
    equal whose runs agree, and where a smaller number meets a larger one behind a common beginning,
    nothing else matters. -/
structure NumericOrder (cmp : String → String → Ordering) : Prop where
  preorder : Std.TransCmp cmp
  equal : ∀ {a b : String} {rs ss : List Run}, MaximalRuns a.toList rs → MaximalRuns b.toList ss →
    (cmp a b = .eq ↔ List.Forall₂ Run.Agrees rs ss)
  less : ∀ {p d e t u : String}, (∀ c ∈ p.toList.getLast?, ¬c.isDigit) → Decimal.Numeral d.toList →
    Decimal.Numeral e.toList → (∀ c ∈ t.toList.head?, ¬c.isDigit) →
      (∀ c ∈ u.toList.head?, ¬c.isDigit) →
    cappedValue d.toList < cappedValue e.toList → cmp (p ++ d ++ t) (p ++ e ++ u) = .lt

/-- A numeral between texts that do not continue it is a run of its own. -/
theorem naturalKey_numeral {p d t : String} (hp : ∀ c ∈ p.toList.getLast?, ¬c.isDigit)
    (hd : Decimal.Numeral d.toList) (ht : ∀ c ∈ t.toList.head?, ¬c.isDigit) :
    naturalKey (p ++ d ++ t) = naturalKey p ++ .number (cappedValue d.toList) :: naturalKey t := by
  have hrear : MaximalRuns (d.toList ++ t.toList) (⟨true, d.toList⟩ :: runsOf t.toList) :=
    (MaximalRuns.numeral hd).append (.runsOf _) fun x hx y hy heq =>
      ht y hy (heq ▸ hd.digits x (List.mem_of_getLast? hx))
  have hruns : MaximalRuns (p ++ d ++ t).toList
      (runsOf p.toList ++ ⟨true, d.toList⟩ :: runsOf t.toList) := by
    rw [String.toList_append, String.toList_append, List.append_assoc]
    refine (MaximalRuns.runsOf _).append hrear fun x hx y hy heq => hp x hx (heq ▸ ?_)
    rw [List.head?_append_of_ne_nil _ hd.nonempty] at hy
    exact hd.digits y (List.mem_of_head? hy)
  rw [hruns.naturalKey_eq, List.map_append, List.map_cons, Run.segment_digits hd.digits]
  rfl

/-- **The order of version names.** Every name is cut into maximal runs in one way, and version
    names are compared by these runs in numeric order. -/
theorem versionOrder_numeric :
    (∀ name : String, ∃! rs, MaximalRuns name.toList rs) ∧ NumericOrder versionOrder := by
  refine ⟨fun name => ⟨_, .runsOf _, fun rs => MaximalRuns.eq_runsOf⟩, inferInstance, ?_, ?_⟩
  · intro a b rs ss hrs hss
    rw [versionOrder_eq_eq, hrs.naturalKey_eq, hss.naturalKey_eq]
    exact map_segment_eq_iff hrs.proper hss.proper
  · intro p d e t u hp hd he ht hu hlt
    have hnumbers :
        Segment.compare (.number (cappedValue d.toList)) (.number (cappedValue e.toList)) = .lt :=
      Nat.compare_eq_lt.mpr hlt
    rw [versionOrder_eq, naturalKey_numeral hp hd ht, naturalKey_numeral hp he hu]
    exact compareLex_append_cons hnumbers ..

/-- A smaller number comes first whatever follows, leading zeros do not count, and numbers that do
    not fit into 64 bits are not told apart. -/
theorem versionOrder_api :
    versionOrder ("api.v" ++ "2" ++ ".z") ("api.v" ++ "10" ++ ".a") = .lt ∧
      versionOrder "v02" "v2" = .eq ∧
        versionOrder "18446744073709551616" "18446744073709551615" = .eq := by
  have htwo : Decimal.Numeral "2".toList := ⟨by decide, by simp⟩
  have hten : Decimal.Numeral "10".toList := ⟨by decide, by simp⟩
  refine ⟨versionOrder_numeric.2.less (by simp) htwo hten (by simp) (by simp) (by decide), ?_, ?_⟩
  · exact (versionOrder_numeric.2.equal (.runsOf _) (.runsOf _)).mpr
      (.cons (.others ['v']) (.cons (.digits (by decide)) .nil))
  · exact (versionOrder_numeric.2.equal (.runsOf _) (.runsOf _)).mpr
      (.cons (.digits (by decide)) .nil)

end Lineage
