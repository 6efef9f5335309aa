import Lineage.Proofs.Schema.Walk

namespace Lineage

/-!
# Where declarations are

* `Position` — the kind and the place of a declaration, `FileDescriptor.Declares` — one that a file
  has,
* `Position.path` — the path of descriptor positions that leads to a declaration; `Position.ofPath?`
  reads it back,
* `FileDescriptor.Declares.eq_of_path` — different declarations have different paths,
* `CommentsAt` — the comments that the locations of a file have at a path.
-/

namespace Schema

/-! ### Positions and their paths -/

/-- The kind and the place of a declaration.  Messages are given by their address, their fields,
    oneofs and enums by that address and the position there; the address of an enum at the top of a
    file is empty. -/
inductive Position where
  | message (address : List Nat)
  | field (address : List Nat) (index : Nat)
  | oneof (address : List Nat) (index : Nat)
  | enumeration (address : List Nat) (index : Nat)
  | enumValue (address : List Nat) (enumIndex index : Nat)
  | service (index : Nat)
  | method (serviceIndex index : Nat)

/-- The path from a message to one that is nested in it. -/
def nestedPath (a : List Nat) : Path := a.flatMap fun (i : Nat) => [3, (i : Int)]

/-- The path from a file to a message. -/
def messagePath : List Nat → Path
  | [] => []
  | i :: a => 4 :: (i : Int) :: nestedPath a

/-- The path from a file to an enum. -/
def enumPath (a : List Nat) (k : Nat) : Path :=
  if a.isEmpty then [5, (k : Int)] else messagePath a ++ [4, (k : Int)]

namespace Position

/-- The path of descriptor positions from a file to a declaration: in turn the number of the list
    that the next part is in, as the descriptor messages number it, and the position there. -/
def path : Position → Path
  | message a => messagePath a
  | field a i => messagePath a ++ [2, (i : Int)]
  | oneof a i => messagePath a ++ [8, (i : Int)]
  | enumeration a k => enumPath a k
  | enumValue a k i => enumPath a k ++ [2, (i : Int)]
  | service s => [6, (s : Int)]
  | method s i => [6, (s : Int), 2, (i : Int)]

/-- The position that a path leads to from the message at an address. -/
def ofMessagePath? (a : List Nat) : Path → Option Position
  | [] => some (message a)
  | [2, i] => some (field a i.toNat)
  | [8, i] => some (oneof a i.toNat)
  | [4, k] => some (enumeration a k.toNat)
  | [4, k, 2, i] => some (enumValue a k.toNat i.toNat)
  | 3 :: i :: rest => ofMessagePath? (a ++ [i.toNat]) rest
  | _ => none

/-- The position that a path leads to from a file. -/
def ofPath? : Path → Option Position
  | 4 :: i :: rest => ofMessagePath? [i.toNat] rest
  | [5, k] => some (enumeration [] k.toNat)
  | [5, k, 2, i] => some (enumValue [] k.toNat i.toNat)
  | [6, s] => some (service s.toNat)
  | [6, s, 2, i] => some (method s.toNat i.toNat)
  | _ => none

/-- A path into nested messages is read back step by step. -/
theorem ofMessagePath?_nestedPath (a b : List Nat) (rest : Path) :
    ofMessagePath? a (nestedPath b ++ rest) = ofMessagePath? (a ++ b) rest := by
  induction b generalizing a with
  | nil => simp [nestedPath]
  | cons i b ih =>
    have hstep : nestedPath (i :: b) ++ rest = 3 :: (i : Int) :: (nestedPath b ++ rest) := rfl
    rw [hstep, ofMessagePath?, ih, Int.toNat_natCast, List.append_assoc, List.singleton_append]

/-- A path into a message is read back from its address on. -/
theorem ofPath?_messagePath {a : List Nat} (h : a ≠ []) (rest : Path) :
    ofPath? (messagePath a ++ rest) = ofMessagePath? a rest := by
  cases a with
  | nil => exact absurd rfl h
  | cons i a => exact ofMessagePath?_nestedPath [i] a rest

/-- Messages, fields and oneofs are inside the messages of a file. -/
def Proper : Position → Prop
  | message a | field a _ | oneof a _ => a ≠ []
  | _ => True

/-- A path leads to one position only. -/
theorem ofPath?_path {p : Position} (h : p.Proper) : ofPath? p.path = some p := by
  -- after the path of a message, 2, 8 and 4 begin its parts, since 3 is the number of nested
  -- messages
  cases p with
  | message a =>
    rw [path, ← List.append_nil (messagePath a)]
    exact ofPath?_messagePath h []
  | field a i => exact ofPath?_messagePath h _
  | oneof a i => exact ofPath?_messagePath h _
  | enumeration a k =>
    cases a with
    | nil => rfl
    | cons j a => exact ofPath?_messagePath (List.cons_ne_nil j a) _
  | enumValue a k i =>
    cases a with
    | nil => rfl
    | cons j a =>
      rw [path, enumPath, List.isEmpty_cons, if_neg Bool.false_ne_true, List.append_assoc]
      exact ofPath?_messagePath (List.cons_ne_nil j a) _
  | service s => rfl
  | method s i => rfl

/-- Proper positions with one path are the same. -/
theorem eq_of_path {p q : Position} (hp : p.Proper) (hq : q.Proper) (h : p.path = q.path) :
    p = q := by
  have hread := ofPath?_path hp
  rw [h, ofPath?_path hq] at hread
  exact (Option.some.inj hread).symm

end Position

/-! ### The paths that the schema goes by -/

/-- Positions below 2³¹ stand in a path as they are. -/
theorem Path.child_eq {i : Nat} (h : i < 0x80000000) (path : Path) (step : Step) :
    path.child step i = path ++ [step.number, (i : Int)] := by
  have hmin : min (i : Int) 0x7FFFFFFF = i := by omega
  rw [Path.child, hmin]

/-- The path of a message of a file. -/
theorem child_fileMessage {i : Nat} (h : i < 0x80000000) :
    Path.child [] .fileMessage i = messagePath [i] :=
  Path.child_eq h [] .fileMessage

/-- The path of a message nested in another one. -/
theorem child_messageNested {i : Nat} (h : i < 0x80000000) {a : List Nat} (ha : a ≠ []) :
    (messagePath a).child .messageNested i = messagePath (a ++ [i]) := by
  cases a with
  | nil => exact absurd rfl ha
  | cons j a =>
    have hlast : nestedPath (a ++ [i]) = nestedPath a ++ [3, (i : Int)] := by
      rw [nestedPath, List.flatMap_append]
      rfl
    rw [Path.child_eq h, List.cons_append, messagePath, messagePath, hlast]
    rfl

/-- The path of an enum of a file. -/
theorem child_fileEnum {k : Nat} (h : k < 0x80000000) : Path.child [] .fileEnum k = enumPath [] k :=
  Path.child_eq h [] .fileEnum

/-- The path of an enum nested in a message. -/
theorem child_messageEnum {k : Nat} (h : k < 0x80000000) {a : List Nat} (ha : a ≠ []) :
    (messagePath a).child .messageEnum k = enumPath a k := by
  rw [Path.child_eq h, enumPath, if_neg (by simpa using ha)]
  rfl

/-! ### Comments -/

/-- The comments that some locations have at a path: those of the last location that has the path
    and carries any. -/
inductive CommentsAt (locations : List Location) (path : Path) : Comments → Prop
  | last {before after : List Location} {l : Location} (split : locations = before ++ l :: after)
      (here : l.path = path) (carries : carriesComments l)
      (others : ∀ l' ∈ after, l'.path = path → ¬carriesComments l') :
      CommentsAt locations path { leading := l.leading.getD "", detached := l.detached }
  | nowhere (others : ∀ l ∈ locations, l.path = path → ¬carriesComments l) :
      CommentsAt locations path {}

/-- A path has its comments. -/
theorem commentsAt_comments (ctx : Context) (path : Path) :
    CommentsAt ctx.locations path (ctx.comments path) := by
  rw [Context.comments]
  split
  · rename_i l hfind
    obtain ⟨hl, after, before, hsplit, hafter⟩ := List.find?_eq_some_iff_append.mp hfind
    simp only [Bool.and_eq_true, beq_iff_eq] at hl
    have hlocations : ctx.locations = before.reverse ++ l :: after.reverse := by
      rw [← List.reverse_reverse ctx.locations, hsplit]
      simp
    refine .last hlocations hl.2 hl.1 fun l' hl' hpath hcarries => ?_
    simpa [hcarries, hpath] using hafter l' (List.mem_reverse.mp hl')
  · rename_i hfind
    refine .nowhere fun l hl hpath hcarries => ?_
    simpa [hcarries, hpath] using List.find?_eq_none.mp hfind l (List.mem_reverse.mpr hl)

end Schema

open Schema

/-! ### The declarations of a file -/

namespace FileDescriptor

variable {f : FileDescriptor}

/-- A declaration that a file has. -/
def Declares (f : FileDescriptor) : Position → Prop
  | .message a => ∃ outer m, f.MessageAt a outer m
  | .field a i => ∃ outer m, f.MessageAt a outer m ∧ i < m.fields.length
  | .oneof a i => ∃ outer m, f.MessageAt a outer m ∧ i < m.oneofs.length
  | .enumeration a k => ∃ outer e, f.EnumAt a k outer e
  | .enumValue a k i => ∃ outer e, f.EnumAt a k outer e ∧ i < e.values.length
  | .service s => s < f.services.length
  | .method s i => ∃ service, f.services[s]? = some service ∧ i < service.methods.length

/-- The address of a message is not empty. -/
theorem MessageAt.ne_nil {a : List Nat} {outer : List MessageDescriptor} {m : MessageDescriptor}
    (h : f.MessageAt a outer m) : a ≠ [] := by
  rintro rfl
  cases outer <;> cases h

/-- What a file declares is at a proper position. -/
theorem Declares.proper {p : Position} (h : f.Declares p) : p.Proper := by
  cases p with
  | message a =>
    obtain ⟨outer, m, hm⟩ := h
    exact hm.ne_nil
  | field a i | oneof a i =>
    obtain ⟨outer, m, hm, -⟩ := h
    exact hm.ne_nil
  | enumeration | enumValue | service | method => trivial

/-- **Paths.** Different declarations of a file have different paths. -/
theorem Declares.eq_of_path {p q : Position} (hp : f.Declares p) (hq : f.Declares q)
    (h : p.path = q.path) : p = q :=
  Position.eq_of_path hp.proper hq.proper h

end FileDescriptor

end Lineage
