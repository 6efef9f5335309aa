import Lineage.Schema.Ingest
import Mathlib.Data.List.Basic

namespace Lineage

/-!
# Walks through the messages of a file

A message of a file has an address: its position among the messages of the file after the address of
the message that it is nested in, if there is one.

* `trail` — the messages that an address leads through,
* `walk` — what is found in a message and all messages in it, with the addresses; `mem_walk`,
  `pairwise_walkFrom`,
* `FileDescriptor.placedMessages` — all messages of a file, in the order of a pre-order walk;
  `mem_placedMessages`, `pairwise_placedMessages`,
* `FileDescriptor.placedEnums` — all enums of a file; `mem_placedEnums`, `nodup_placedEnums`.
-/

namespace Schema

/-! ### Messages that an address leads through -/

/-- The messages that an address leads through from a message into those nested in it, the outermost
    first. -/
def trail (m : MessageDescriptor) : List Nat → Option (List MessageDescriptor)
  | [] => some []
  | i :: rest => m.nested[i]?.bind fun n => (trail n rest).map (n :: ·)

/-- The empty address leads through nothing. -/
theorem trail_nil (m : MessageDescriptor) : trail m [] = some [] := rfl

/-- An address leads into a nested message and then on from there. -/
theorem trail_cons_eq_some {m : MessageDescriptor} {i : Nat} {a : List Nat}
    {outer : List MessageDescriptor} :
    trail m (i :: a) = some outer ↔
      ∃ n, m.nested[i]? = some n ∧ ∃ inner, trail n a = some inner ∧ n :: inner = outer := by
  simp only [trail, Option.bind_eq_some_iff, Option.map_eq_some_iff]

/-- One step further, into the last message of a trail. -/
theorem trail_concat {m n : MessageDescriptor} {a : List Nat}
    {outer : List MessageDescriptor} {i : Nat} (h : trail m a = some outer)
    (hn : (outer.getLast?.getD m).nested[i]? = some n) :
    trail m (a ++ [i]) = some (outer ++ [n]) := by
  induction a generalizing m outer with
  | nil =>
    obtain rfl : [] = outer := Option.some.inj h
    exact trail_cons_eq_some.mpr ⟨n, hn, [], trail_nil _, rfl⟩
  | cons j a ih =>
    obtain ⟨first, hfirst, inner, hinner, rfl⟩ := trail_cons_eq_some.mp h
    rw [List.getLast?_cons, Option.getD_some] at hn
    exact trail_cons_eq_some.mpr ⟨first, hfirst, inner ++ [n], ih hinner hn, rfl⟩

/-- What holds of a message if it holds of all messages nested in it. -/
theorem message_induction {P : MessageDescriptor → Prop}
    (step : ∀ m : MessageDescriptor, (∀ n ∈ m.nested, P n) → P m) (m : MessageDescriptor) : P m :=
  @MessageDescriptor.rec P (fun messages => ∀ n ∈ messages, P n) (fun _ _ _ _ _ _ h => step _ h)
    (List.forall_mem_nil _) (fun _ _ h hrest => List.forall_mem_cons.mpr ⟨h, hrest⟩) m

/-! ### Walks -/

variable {α : Type u}

/-- What is found in a message, counted from where the address of the message is counted from. -/
def under (a : List Nat) (found : List (List Nat × α)) : List (List Nat × α) :=
  found.map fun x => (a ++ x.1, x.2)

/-- Counted from the same place nothing changes. -/
theorem under_nil (found : List (List Nat × α)) : under [] found = found := List.map_id _

/-- Counted from one place and then from another one before it. -/
theorem under_under (a b : List Nat) (found : List (List Nat × α)) :
    under a (under b found) = under (a ++ b) found := by
  simp [under]

/-- What is found somewhere is found there, counted from farther out. -/
theorem mem_under {a b : List Nat} {x : α} {found : List (List Nat × α)} :
    (b, x) ∈ under a found ↔ ∃ c, (c, x) ∈ found ∧ a ++ c = b := by
  simp [under]

variable (before after : MessageDescriptor → List α)

mutual

/-- What a walk through a message finds, with the address of its message: what it takes of the
    message before it goes into the messages nested there, what it finds in them, and what it takes
    of the message after that. -/
def walk : MessageDescriptor → List (List Nat × α)
  | m@⟨_, _, nested, _, _, _⟩ =>
    (before m).map ([], ·) ++ walkFrom 0 nested ++ (after m).map ([], ·)

/-- What a walk through some messages finds, from a position on. -/
def walkFrom (index : Nat) : List MessageDescriptor → List (List Nat × α)
  | [] => []
  | m :: rest => under [index] (walk m) ++ walkFrom (index + 1) rest

end

variable {before after}

/-- A walk takes something of the message, goes inside, and takes something more. -/
theorem walk_eq (m : MessageDescriptor) :
    walk before after m =
      (before m).map ([], ·) ++ walkFrom before after 0 m.nested ++ (after m).map ([], ·) := by
  cases m
  rw [walk]

/-- A walk through some messages goes through one after the other. -/
theorem walkFrom_eq (messages : List MessageDescriptor) (index : Nat) :
    walkFrom before after index messages =
      (messages.zipIdx index).flatMap fun m => under [m.2] (walk before after m.1) := by
  induction messages generalizing index with
  | nil => rfl
  | cons m rest ih => rw [walkFrom, List.zipIdx_cons, List.flatMap_cons, ih]

/-- A walk through a message, counted from farther out. -/
theorem under_walk (a : List Nat) (m : MessageDescriptor) :
    under a (walk before after m) =
      (before m).map (a, ·) ++ under a (walkFrom before after 0 m.nested) ++
        (after m).map (a, ·) := by
  simp [walk_eq, under, Function.comp_def]

/-- A walk through some messages, counted from farther out. -/
theorem under_walkFrom (a : List Nat)
    (messages : List MessageDescriptor) :
    under a (walkFrom before after 0 messages) =
      messages.zipIdx.flatMap fun m => under (a ++ [m.2]) (walk before after m.1) := by
  rw [walkFrom_eq, under, List.map_flatMap]
  exact List.flatMap_congr fun m _ => under_under a [m.2] _

/-- What a walk through some messages finds is found in one of them. -/
theorem mem_walkFrom {messages : List MessageDescriptor} {a : List Nat} {x : α} :
    (a, x) ∈ walkFrom before after 0 messages ↔
      ∃ i b, a = i :: b ∧ ∃ m, messages[i]? = some m ∧ (b, x) ∈ walk before after m := by
  simp only [walkFrom_eq, List.mem_flatMap, Prod.exists, List.mk_mem_zipIdx_iff_getElem?, mem_under]
  constructor
  · rintro ⟨m, i, hm, b, hb, rfl⟩
    exact ⟨i, b, rfl, m, hm, hb⟩
  · rintro ⟨i, b, rfl, m, hm, hb⟩
    exact ⟨m, i, hm, b, hb, rfl⟩

/-- A walk finds what it takes of the messages that addresses lead to. -/
theorem mem_walk {m : MessageDescriptor} {a : List Nat} {x : α} :
    (a, x) ∈ walk before after m ↔
      ∃ inner, trail m a = some inner ∧
        (x ∈ before (inner.getLast?.getD m) ∨ x ∈ after (inner.getLast?.getD m)) := by
  -- by the address, whose first position leads one message deeper
  induction a generalizing m with
  | nil =>
    have hnested : ([], x) ∉ walkFrom before after 0 m.nested := fun h => by
      obtain ⟨i, b, h, -⟩ := mem_walkFrom.mp h
      cases h
    simp [walk_eq, trail_nil, hnested]
  | cons i a ih =>
    have hown :
        (i :: a, x) ∈ walk before after m ↔ (i :: a, x) ∈ walkFrom before after 0 m.nested := by
      simp [walk_eq]
    rw [hown, mem_walkFrom]
    constructor
    · rintro ⟨j, b, ⟨⟩, n, hn, hx⟩
      obtain ⟨inner, hinner, hx⟩ := ih.mp hx
      refine ⟨n :: inner, trail_cons_eq_some.mpr ⟨n, hn, inner, hinner, rfl⟩, ?_⟩
      rwa [List.getLast?_cons, Option.getD_some]
    · rintro ⟨_, h, hx⟩
      obtain ⟨n, hn, inner, hinner, rfl⟩ := trail_cons_eq_some.mp h
      rw [List.getLast?_cons, Option.getD_some] at hx
      exact ⟨i, a, rfl, n, hn, ih.mpr ⟨inner, hinner, hx⟩⟩

/-- Positions are in their order. -/
theorem pairwise_zipIdx {β : Type v} (l : List β) : l.zipIdx.Pairwise (·.2 < ·.2) := by
  rw [← List.pairwise_map (R := (· < ·)), List.zipIdx_map_snd]
  exact List.pairwise_lt_range' ..

/-- What a walk through some messages finds is in an order if what it finds in each of them is, and
    if the order goes by positions first. -/
theorem pairwise_walkFrom {R : List Nat × α → List Nat × α → Prop}
    {messages : List MessageDescriptor}
    (hin : ∀ i a b x y, R (a, x) (b, y) → R (i :: a, x) (i :: b, y))
    (hacross : ∀ i j a b x y, i < j → R (i :: a, x) (j :: b, y))
    (h : ∀ m ∈ messages, (walk before after m).Pairwise R) :
    (walkFrom before after 0 messages).Pairwise R := by
  rw [walkFrom_eq, List.pairwise_flatMap]
  constructor
  · rintro ⟨m, i⟩ hm
    exact List.pairwise_map.mpr ((h m (List.fst_mem_of_mem_zipIdx hm)).imp fun hr =>
      hin i _ _ _ _ hr)
  · refine (pairwise_zipIdx messages).imp fun {m n} hlt => ?_
    rintro ⟨_, x⟩ hx ⟨_, y⟩ hy
    obtain ⟨a, -, rfl⟩ := mem_under.mp hx
    obtain ⟨b, -, rfl⟩ := mem_under.mp hy
    exact hacross _ _ a b x y hlt

end Schema

open Schema

/-! ### The messages and enums of a file -/

namespace FileDescriptor

variable {f : FileDescriptor}

/-- What is declared at the top of a file, as if a message without a name enclosed it. -/
def top (f : FileDescriptor) : MessageDescriptor := { nested := f.messages, enums := f.enums }

/-- All messages of a file with their addresses: each, then those nested in it. -/
def placedMessages (f : FileDescriptor) : List (List Nat × MessageDescriptor) :=
  walkFrom (fun m => [m]) (fun _ => []) 0 f.messages

/-- All enums of a file with their places: the address of the message they are declared in, none at
    the top, and the position there.  Those of nested messages come first. -/
def placedEnums (f : FileDescriptor) : List (List Nat × EnumDescriptor × Nat) :=
  walk (fun _ => []) (·.enums.zipIdx) f.top

/-- The message at an address, and those that enclose it. -/
def MessageAt (f : FileDescriptor) (a : List Nat) (outer : List MessageDescriptor)
    (m : MessageDescriptor) : Prop :=
  trail f.top a = some (outer ++ [m])

/-- The enum at a place, and the messages that enclose it. -/
def EnumAt (f : FileDescriptor) (a : List Nat) (k : Nat) (outer : List MessageDescriptor)
    (e : EnumDescriptor) : Prop :=
  trail f.top a = some outer ∧ (outer.getLast?.getD f.top).enums[k]? = some e

/-- The placed messages are those at some address. -/
theorem mem_placedMessages {a : List Nat} {m : MessageDescriptor} :
    (a, m) ∈ f.placedMessages ↔ ∃ outer, f.MessageAt a outer m := by
  rw [placedMessages, mem_walkFrom]
  constructor
  · rintro ⟨i, b, rfl, n, hn, hm⟩
    obtain ⟨inner, hinner, hm⟩ := mem_walk.mp hm
    have hlast : (n :: inner).getLast? = some m := by
      rw [List.getLast?_cons]
      simpa [eq_comm] using hm
    obtain ⟨outer, houter⟩ := List.getLast?_eq_some_iff.mp hlast
    exact ⟨outer, trail_cons_eq_some.mpr ⟨n, hn, inner, hinner, houter⟩⟩
  · rintro ⟨outer, h⟩
    cases a with
    | nil =>
      cases outer with
      | nil => cases h
      | cons n outer => cases h
    | cons i b =>
      obtain ⟨n, hn, inner, hinner, houter⟩ := trail_cons_eq_some.mp h
      have hlast := List.getLast?_eq_some_iff.mpr ⟨outer, houter⟩
      rw [List.getLast?_cons, Option.some.injEq] at hlast
      exact ⟨i, b, rfl, n, hn, mem_walk.mpr ⟨inner, hinner, by simp [hlast]⟩⟩

/-- The placed enums are those at some address. -/
theorem mem_placedEnums {a : List Nat} {e : EnumDescriptor} {k : Nat} :
    (a, e, k) ∈ f.placedEnums ↔ ∃ outer, f.EnumAt a k outer e := by
  simp [placedEnums, mem_walk, EnumAt, List.mk_mem_zipIdx_iff_getElem?]

/-- **Pre-order.** Lexicographic order puts a message before those nested in it, and these before
    those that come after it. -/
theorem pairwise_placedMessages : f.placedMessages.Pairwise (·.1 < ·.1) := by
  have hlist : ∀ messages : List MessageDescriptor,
      (∀ m ∈ messages, (walk (fun m => [m]) (fun _ => []) m).Pairwise (·.1 < ·.1)) →
        (walkFrom (fun m => [m]) (fun _ => []) 0 messages).Pairwise (·.1 < ·.1) := fun _ =>
    pairwise_walkFrom (fun _ _ _ _ _ h => List.cons_lt_cons_iff.mpr (.inr ⟨rfl, h⟩))
      fun _ _ _ _ _ _ h => List.cons_lt_cons_iff.mpr (.inl h)
  refine hlist f.messages fun m hm => ?_
  clear hm
  -- the address of the message itself is empty, and the empty address comes before all others
  induction m using message_induction with
  | step m ih =>
    rw [walk_eq, List.map_nil, List.append_nil]
    refine List.pairwise_cons.mpr ⟨fun x hx => ?_, hlist m.nested ih⟩
    obtain ⟨i, b, hib, -⟩ := mem_walkFrom.mp hx
    rw [hib]
    exact List.nil_lt_cons i b

/-- No enum is placed twice. -/
theorem nodup_placedEnums : f.placedEnums.Nodup := by
  rw [placedEnums]
  induction f.top using message_induction with
  | step m ih =>
    have hown : (m.enums.zipIdx.map (([] : List Nat), ·)).Nodup :=
      List.pairwise_map.mpr ((pairwise_zipIdx m.enums).imp fun {x y} hlt heq => by
        obtain rfl := (Prod.mk.inj heq).2
        exact Nat.lt_irrefl _ hlt)
    rw [walk_eq, List.map_nil, List.nil_append, List.nodup_append]
    refine ⟨pairwise_walkFrom ?_ ?_ ih, hown, ?_⟩
    · rintro i a b x y hne ⟨⟩
      exact hne rfl
    · rintro i j a b x y hlt ⟨⟩
      exact Nat.lt_irrefl i hlt
    -- enums of the message itself have the empty address, those of nested messages have not
    · rintro ⟨_, x⟩ hx ⟨b, y⟩ hy ⟨⟩
      obtain ⟨i, a, rfl, -⟩ := mem_walkFrom.mp hx
      simp at hy

end FileDescriptor

end Lineage
