import Lineage.Proofs.Schema.Gathered
import Lineage.Proofs.Schema.Position

namespace Lineage

/-!
# What the schema of a file says

* `FileDescriptor.Complete` — all declarations of a file have names, all fields known types, and no
  list is too long,
* `MessageDescriptor.declaredOneofs` — the oneofs of a message that are declarations of their own,
* `FileDescriptor.Carries` — a declaration has its name, its options and the comments at its own
  path,
* `MessageFits`, `EnumFits`, `ServiceFits` — what else is said of messages, enums and services,
* `FileDescriptor.walked_of_complete` — a walk through a message says it of all messages and enums
  in it,
* `FileDescriptor.Flattens` — a part of a package that says it of all declarations of a file;
  `flattens_of_complete` — what a file contributes to its package is one.
-/

/-! ### Complete files -/

namespace Schema

/-- A list of fewer than 2³¹ entries, whose positions can stand in a path. -/
def Short {α : Type u} (l : List α) : Prop := l.length < 0x80000000

instance {α : Type u} (l : List α) : Decidable (Short l) := inferInstanceAs (Decidable (_ < _))

/-- The positions in a list that is short enough fit into a path. -/
theorem Short.lt {α : Type u} {l : List α} (h : Short l) {x : α × Nat} (hx : x ∈ l.zipIdx) :
    x.2 < 0x80000000 :=
  Nat.lt_trans (List.snd_lt_of_mem_zipIdx hx) h

end Schema

open Schema

/-- An enum with a name whose values all have names. -/
structure EnumDescriptor.Complete (e : EnumDescriptor) : Prop where
  named : e.name.isSome
  values : ∀ v ∈ e.values, v.name.isSome
  short : Short e.values

/-- A message with a name in which all declarations have names and all fields a known type. -/
inductive MessageDescriptor.Complete : MessageDescriptor → Prop
  | intro {m : MessageDescriptor} (named : m.name.isSome)
      (fields : ∀ d ∈ m.fields, d.name.isSome ∧ (FieldKind.ofLabel? (d.type.getD "")).isSome)
      (oneofs : ∀ o ∈ m.oneofs, o.name.isSome)
      (enums : ∀ e ∈ m.enums, e.Complete)
      (nested : ∀ n ∈ m.nested, n.Complete)
      (short : Short m.fields ∧ Short m.oneofs ∧ Short m.enums ∧ Short m.nested) : m.Complete

/-- A service with a name whose methods all have names. -/
structure ServiceDescriptor.Complete (s : ServiceDescriptor) : Prop where
  named : s.name.isSome
  methods : ∀ m ∈ s.methods, m.name.isSome
  short : Short s.methods

/-- A file in which all declarations have names and all fields a known type, and in which no list is
    too long for its positions to stand in a path. -/
structure FileDescriptor.Complete (f : FileDescriptor) : Prop where
  messages : ∀ m ∈ f.messages, m.Complete
  enums : ∀ e ∈ f.enums, e.Complete
  services : ∀ s ∈ f.services, s.Complete
  short : Short f.messages ∧ Short f.enums ∧ Short f.services

/-! ### Oneofs -/

/-- A field is a variant of the oneof at a position: it refers to it, and is not an
    optional field. -/
def FieldDescriptor.IsVariantOf (d : FieldDescriptor) (i : Nat) : Prop :=
  d.oneofIndex = some (i : Int) ∧ d.proto3Optional ≠ some true

instance (d : FieldDescriptor) (i : Nat) : Decidable (d.IsVariantOf i) :=
  inferInstanceAs (Decidable (_ ∧ _))

/-- The oneofs that a message declares, with their positions: those that some field is a variant of.
    The others belong to optional fields. -/
def MessageDescriptor.declaredOneofs (m : MessageDescriptor) : List (OneofDescriptor × Nat) :=
  m.oneofs.zipIdx.filter fun o => ∃ d ∈ m.fields, d.IsVariantOf o.2

namespace Schema

/-- A field is found to be a variant of a oneof exactly if it is one. -/
theorem isVariantOf_iff {i : Nat} {d : FieldDescriptor} : isVariantOf i d ↔ d.IsVariantOf i := by
  rw [isVariantOf, FieldDescriptor.IsVariantOf, Bool.and_eq_true, beq_iff_eq]
  rcases d.proto3Optional with _ | _ | _ <;> simp

/-- The oneofs that are kept are those that are declared. -/
theorem realOneofs_eq (m : MessageDescriptor) : realOneofs m = m.declaredOneofs := by
  refine List.filter_congr fun o _ => ?_
  rw [Bool.eq_iff_iff, decide_eq_true_iff, List.any_eq_true]
  simp only [isVariantOf_iff]

end Schema

/-! ### What is said of declarations -/

namespace Schema

/-- The names of some messages, one after the other. -/
def names (messages : List MessageDescriptor) : List String := messages.map fun m => m.name.getD ""

/-- The local name of the last of some messages that are nested in each other, if there is any. -/
def enclosing (outer : List MessageDescriptor) : Option String :=
  if outer.isEmpty then none else some (".".intercalate (names outer))

/-- The names of a message or an enum that some messages enclose: the local name is the dotted path
    of names from the top, the full name has the package in front. -/
structure Qualified (package : String) (outer : List MessageDescriptor)
    (name localName fullName : String) (parent : Option String) : Prop where
  dotted : localName = ".".intercalate (names outer ++ [name])
  full : fullName = qualify package localName
  inside : parent = enclosing outer

end Schema

namespace FileDescriptor

/-- What is said of a declaration at a position: its own name, the comments at its path and its own
    options. -/
structure Carries (f : FileDescriptor) (p : Position) (named : Option String) (options : Options)
    (name : String) (carrier : Carrier) : Prop where
  name : named = some name
  comments : CommentsAt (f.locations.getD []) p.path carrier.comments
  options : carrier.options = options

/-- What is said of a field of the message at an address. -/
structure FieldFits (f : FileDescriptor) (a : List Nat) (d : FieldDescriptor × Nat)
    (s : FieldSchema) : Prop where
  carries : f.Carries (.field a d.2) d.1.name d.1.options s.name s.carrier
  number : s.number = d.1.number.getD 0
  kind : FieldKind.ofLabel? (d.1.type.getD "") = some s.kind

/-- What is said of the message at an address, which some messages enclose.  The oneofs that it
    declares have the paths of their positions among all oneofs. -/
structure MessageFits (f : FileDescriptor) (a : List Nat) (outer : List MessageDescriptor)
    (m : MessageDescriptor) (s : MessageSchema) : Prop where
  found : f.MessageAt a outer m
  carries : f.Carries (.message a) m.name m.options s.name s.carrier
  qualified : Qualified f.packageName outer s.name s.localName s.fullName s.parent
  fields : List.Forall₂ (f.FieldFits a) m.fields.zipIdx s.fields
  oneofs : List.Forall₂
    (fun o s => f.Carries (.oneof a o.2) o.1.name o.1.options s.name s.carrier)
    m.declaredOneofs s.oneofs

/-- What is said of the enum at a place, which some messages enclose. -/
structure EnumFits (f : FileDescriptor) (a : List Nat) (k : Nat) (outer : List MessageDescriptor)
    (e : EnumDescriptor) (s : EnumSchema) : Prop where
  found : f.EnumAt a k outer e
  carries : f.Carries (.enumeration a k) e.name e.options s.name s.carrier
  qualified : Qualified f.packageName outer s.name s.localName s.fullName s.parent
  values : List.Forall₂
    (fun v s => f.Carries (.enumValue a k v.2) v.1.name v.1.options s.name s.carrier)
    e.values.zipIdx s.values

/-- What is said of the service at a position. -/
structure ServiceFits (f : FileDescriptor) (d : ServiceDescriptor × Nat) (s : ServiceSchema) :
    Prop where
  carries : f.Carries (.service d.2) d.1.name d.1.options s.name s.carrier
  methods : List.Forall₂
    (fun m s => f.Carries (.method d.2 m.2) m.1.name m.1.options s.name s.carrier)
    d.1.methods.zipIdx s.methods

/-- What is said of a message with its address. -/
def DescribesMessage (f : FileDescriptor) (x : List Nat × MessageDescriptor)
    (s : MessageSchema) : Prop :=
  ∃ outer, f.MessageFits x.1 outer x.2 s

/-- What is said of an enum with its place. -/
def DescribesEnum (f : FileDescriptor) (x : List Nat × EnumDescriptor × Nat)
    (s : EnumSchema) : Prop :=
  ∃ outer, f.EnumFits x.1 x.2.2 outer x.2.1 s

/-- A part of a package that says of every declaration of a file what there is to say, once. -/
structure Flattens (f : FileDescriptor) (p : PackageSchema) : Prop where
  name : p.name = f.packageName
  messages : List.Forall₂ f.DescribesMessage f.placedMessages p.messages
  enums : List.Forall₂ f.DescribesEnum f.placedEnums p.enums
  services : List.Forall₂ f.ServiceFits f.services.zipIdx p.services

variable {f : FileDescriptor}

/-- What holds for all declarations of a file. -/
def context (f : FileDescriptor) : Context :=
  { file := f.name.getD "", package := f.packageName, locations := f.locations.getD [] }

/-! ### Declarations one by one -/

/-- A declaration with a name has that name. -/
theorem context_name {named : Option String} (h : named.isSome) (kind : EntityKind) :
    ∃ name, named = some name ∧ f.context.name kind named = .ok name := by
  obtain ⟨name, rfl⟩ := Option.isSome_iff_exists.mp h
  exact ⟨name, rfl, rfl⟩

/-- A declaration has its name, and carries its comments and options. -/
theorem carries {p : Position} {named : Option String} {options : Options} {name : String}
    (h : named = some name) {path : Path} (hpath : path = p.path) :
    f.Carries p named options name (f.context.carrier path options) :=
  ⟨h, hpath ▸ commentsAt_comments f.context path, rfl⟩

/-- A value with a name is ingested at its position. -/
theorem enumValueSchema_ok {a : List Nat} {k : Nat} {v : EnumValueDescriptor × Nat}
    (hv : v.2 < 0x80000000) (h : v.1.name.isSome) :
    ∃ s, enumValueSchema f.context (enumPath a k) v = .ok s ∧
      f.Carries (.enumValue a k v.2) v.1.name v.1.options s.name s.carrier := by
  obtain ⟨name, hname, hok⟩ := context_name h .enumValue
  refine ⟨_, bind_eq_ok.mpr ⟨name, hok, rfl⟩, carries hname (Path.child_eq hv ..)⟩

/-- A oneof with a name is ingested at its position. -/
theorem oneofSchema_ok {a : List Nat} {o : OneofDescriptor × Nat} (ho : o.2 < 0x80000000)
    (h : o.1.name.isSome) :
    ∃ s, oneofSchema f.context (messagePath a) o = .ok s ∧
      f.Carries (.oneof a o.2) o.1.name o.1.options s.name s.carrier := by
  obtain ⟨name, hname, hok⟩ := context_name h .oneof
  refine ⟨_, bind_eq_ok.mpr ⟨name, hok, rfl⟩, carries hname (Path.child_eq ho ..)⟩

/-- A method with a name is ingested at its position. -/
theorem methodSchema_ok {i : Nat} {m : MethodDescriptor × Nat} (hm : m.2 < 0x80000000)
    (h : m.1.name.isSome) :
    ∃ s, methodSchema f.context (Position.service i).path m = .ok s ∧
      f.Carries (.method i m.2) m.1.name m.1.options s.name s.carrier := by
  obtain ⟨name, hname, hok⟩ := context_name h .method
  refine ⟨_, bind_eq_ok.mpr ⟨name, hok, rfl⟩, carries hname (Path.child_eq hm ..)⟩

/-- A field with a name and a kind is ingested at its position. -/
theorem fieldSchema_ok {a : List Nat} {m : MessageDescriptor} {fullName : String}
    {d : FieldDescriptor × Nat} (hd : d.2 < 0x80000000) (h : d.1.name.isSome)
    (hkind : (FieldKind.ofLabel? (d.1.type.getD "")).isSome) :
    ∃ s, fieldSchema f.context m fullName (messagePath a) d = .ok s ∧ f.FieldFits a d s := by
  obtain ⟨name, hname, hok⟩ := context_name (f := f) h .field
  obtain ⟨kind, hkind⟩ := Option.isSome_iff_exists.mp hkind
  simp only [fieldSchema, hok, hkind]
  exact ⟨_, rfl, carries hname (Path.child_eq hd ..), rfl, hkind⟩

/-! ### Messages and enums without what is nested in them -/

/-- A nested name is the names of all enclosing messages and its own. -/
theorem nestedName_enclosing (outer : List MessageDescriptor) (name : String) :
    nestedName (enclosing outer) name = ".".intercalate (names outer ++ [name]) := by
  rw [enclosing]
  cases outer with
  | nil => rfl
  | cons m outer =>
    have hne : names (m :: outer) ≠ [] := List.cons_ne_nil _ _
    rw [String.intercalate_append_of_ne_nil hne (List.cons_ne_nil name [])]
    rfl

/-- A complete enum is ingested at its address. -/
theorem enumSchema_ok {a : List Nat} {k : Nat} {outer : List MessageDescriptor} {e : EnumDescriptor}
    (he : e.Complete) (h : f.EnumAt a k outer e) :
    ∃ s, enumSchema f.context (enclosing outer) (enumPath a k) e = .ok s ∧
      f.EnumFits a k outer e s := by
  obtain ⟨name, hname, hok⟩ := context_name (f := f) he.named .enumeration
  obtain ⟨values, hvalues, hfits⟩ := exists_mapM fun v hv =>
    enumValueSchema_ok (f := f) (a := a) (k := k) (he.short.lt hv)
      (he.values _ (List.fst_mem_of_mem_zipIdx hv))
  refine ⟨_, bind_eq_ok.mpr ⟨name, hok, bind_eq_ok.mpr ⟨values, hvalues, rfl⟩⟩, ?_⟩
  exact ⟨h, carries hname rfl, ⟨nestedName_enclosing outer name, rfl, rfl⟩, hfits⟩

/-- A complete message is ingested at its address. -/
theorem messageSchema_ok {a : List Nat} {outer : List MessageDescriptor} {m : MessageDescriptor}
    (hm : m.Complete) (h : f.MessageAt a outer m) :
    ∃ s, messageSchema f.context (enclosing outer) (messagePath a) m = .ok s ∧
      f.MessageFits a outer m s := by
  obtain ⟨hnamed, hfields, honeofs, -, -, hshort⟩ := hm
  obtain ⟨name, hname, hok⟩ := context_name (f := f) hnamed .message
  obtain ⟨oneofs, honeofs, hfits⟩ := exists_mapM (l := realOneofs m) fun o ho =>
    have ho := List.mem_of_mem_filter ho
    oneofSchema_ok (f := f) (a := a) (hshort.2.1.lt ho) (honeofs _ (List.fst_mem_of_mem_zipIdx ho))
  obtain ⟨fields, hfields, hfits'⟩ := exists_mapM fun d hd =>
    have hd' := hfields _ (List.fst_mem_of_mem_zipIdx hd)
    fieldSchema_ok (f := f) (a := a) (m := m) (hshort.1.lt hd) hd'.1 hd'.2
  refine ⟨_, bind_eq_ok.mpr ⟨name, hok, bind_eq_ok.mpr ⟨oneofs, honeofs,
    bind_eq_ok.mpr ⟨fields, hfields, rfl⟩⟩⟩, ?_⟩
  exact ⟨h, carries hname rfl, ⟨nestedName_enclosing outer name, rfl, rfl⟩, hfits',
    realOneofs_eq m ▸ hfits⟩

/-- A complete service is ingested at its position. -/
theorem serviceSchema_ok {d : ServiceDescriptor × Nat} (hd : d.2 < 0x80000000) (h : d.1.Complete) :
    ∃ s, serviceSchema f.context (Path.child [] .fileService d.2) d.1 = .ok s ∧
      f.ServiceFits d s := by
  have hpath : Path.child [] .fileService d.2 = (Position.service d.2).path :=
    Path.child_eq hd [] .fileService
  obtain ⟨name, hname, hok⟩ := context_name (f := f) h.named .service
  obtain ⟨methods, hmethods, hfits⟩ := exists_mapM fun m hm =>
    methodSchema_ok (f := f) (i := d.2) (h.short.lt hm)
      (h.methods _ (List.fst_mem_of_mem_zipIdx hm))
  rw [hpath]
  exact ⟨_, bind_eq_ok.mpr ⟨methods, hmethods, bind_eq_ok.mpr ⟨name, hok, rfl⟩⟩,
    carries hname rfl, hfits⟩

end FileDescriptor

/-! ### Walks -/

namespace Schema

/-- The messages and enums of some results, one after the other. -/
def concat (results : List Types) : Types :=
  { messages := results.flatMap (·.messages), enums := results.flatMap (·.enums) }

/-- The types of a message: itself, those nested in it, its enums. -/
theorem messageTypes_eq (ctx : Context) (parent : Option String) (path : Path)
    (m : MessageDescriptor) :
    messageTypes ctx parent path m = (do
      let schema ← messageSchema ctx parent path m
      let inner ← nestedTypes ctx schema.localName path 0 m.nested
      let own ← m.enums.zipIdx.mapM fun e =>
        enumSchema ctx (some schema.localName) (path.child .messageEnum e.2) e.1
      return { messages := [schema] } ++ inner ++ { enums := own }) := by
  cases m
  rw [messageTypes]

/-- Nested messages are ingested one after the other. -/
theorem nestedTypes_eq_ok {ctx : Context} {outer : String} {path : Path} {index : Nat}
    {messages : List MessageDescriptor} {results : List Types}
    (h : (messages.zipIdx index).mapM
      (fun m => messageTypes ctx (some outer) (path.child .messageNested m.2) m.1) = .ok results) :
    nestedTypes ctx outer path index messages = .ok (concat results) := by
  induction messages generalizing index results with
  | nil =>
    obtain rfl := pure_eq_ok.mp h
    rw [nestedTypes]
    rfl
  | cons m rest ih =>
    rw [List.zipIdx_cons, List.mapM_cons] at h
    obtain ⟨first, hfirst, h⟩ := bind_eq_ok.mp h
    obtain ⟨others, hothers, h⟩ := bind_eq_ok.mp h
    obtain rfl := pure_eq_ok.mp h
    rw [nestedTypes]
    exact bind_eq_ok.mpr ⟨first, hfirst, bind_eq_ok.mpr ⟨_, ih hothers, rfl⟩⟩

/-- Types are appended sort by sort. -/
theorem append_def (s t : Types) :
    s ++ t = { messages := s.messages ++ t.messages, enums := s.enums ++ t.enums } := rfl

/-- Appending one after the other appends all of them. -/
theorem foldl_append (results : List Types) (t : Types) :
    results.foldl (· ++ ·) t = t ++ concat results := by
  induction results generalizing t with
  | nil => simp [append_def, concat]
  | cons first rest ih =>
    rw [List.foldl_cons, ih]
    simp [append_def, concat]

end Schema

namespace FileDescriptor

variable {f : FileDescriptor}

/-- A result that says what there is to say of all messages and enums in the message at
    an address. -/
structure Lists (f : FileDescriptor) (a : List Nat) (m : MessageDescriptor) (t : Types) : Prop where
  messages :
    List.Forall₂ f.DescribesMessage (under a (walk (fun m => [m]) (fun _ => []) m)) t.messages
  enums : List.Forall₂ f.DescribesEnum (under a (walk (fun _ => []) (·.enums.zipIdx) m)) t.enums

/-- The local name of a message is what encloses those nested in it. -/
theorem MessageFits.enclosing {a : List Nat} {outer : List MessageDescriptor}
    {m : MessageDescriptor} {s : MessageSchema} (h : f.MessageFits a outer m s) :
    some s.localName = enclosing (outer ++ [m]) := by
  have hnames : names (outer ++ [m]) = names outer ++ [s.name] := by
    simp [names, h.carries.name]
  rw [Schema.enclosing, if_neg (by simp), hnames, h.qualified.dotted]

/-- The enums that are declared in a message or at the top of a file. -/
theorem enums_ok {a : List Nat} {outer : List MessageDescriptor} {enums : List EnumDescriptor}
    (path : Nat → Path) (h : trail f.top a = some outer)
    (henums : (outer.getLast?.getD f.top).enums = enums)
    (hcomplete : ∀ e ∈ enums, e.Complete) (hshort : Short enums)
    (hpath : ∀ k, k < 0x80000000 → path k = enumPath a k) :
    ∃ own, (enums.zipIdx.mapM fun e => enumSchema f.context (enclosing outer)
      (path e.2) e.1) = .ok own ∧ List.Forall₂ f.DescribesEnum (enums.zipIdx.map (a, ·)) own := by
  obtain ⟨own, hown, hfits⟩ := exists_mapM fun e (he : e ∈ enums.zipIdx) => by
    have hat : f.EnumAt a e.2 outer e.1 :=
      ⟨h, henums ▸ List.mem_zipIdx_iff_getElem?.mp he⟩
    have hok := enumSchema_ok (hcomplete _ (List.fst_mem_of_mem_zipIdx he)) hat
    rwa [← hpath _ (hshort.lt he)] at hok
  exact ⟨own, hown, List.forall₂_map_left_iff.mpr (hfits.imp fun _ _ hs => ⟨outer, hs⟩)⟩

/-- A walk through a message that succeeds, and says what there is to say of every message and enum
    in it. -/
def Walked (f : FileDescriptor) (m : MessageDescriptor) : Prop :=
  ∀ a outer, f.MessageAt a outer m →
    ∃ t, messageTypes f.context (enclosing outer) (messagePath a) m = .ok t ∧ f.Lists a m t

/-- The messages that are declared in a message or at the top of a file. -/
theorem messages_ok {a : List Nat} {outer : List MessageDescriptor}
    {messages : List MessageDescriptor} (path : Nat → Path) (h : trail f.top a = some outer)
    (hmessages : (outer.getLast?.getD f.top).nested = messages)
    (hwalked : ∀ m ∈ messages, f.Walked m) (hshort : Short messages)
    (hpath : ∀ i, i < 0x80000000 → path i = messagePath (a ++ [i])) :
    ∃ results,
      (messages.zipIdx.mapM fun m => messageTypes f.context (enclosing outer) (path m.2) m.1) =
        .ok results ∧
      List.Forall₂ f.DescribesMessage
        (under a (walkFrom (fun m => [m]) (fun _ => []) 0 messages)) (concat results).messages ∧
      List.Forall₂ f.DescribesEnum
        (under a (walkFrom (fun _ => []) (·.enums.zipIdx) 0 messages)) (concat results).enums := by
  obtain ⟨results, hresults, hlists⟩ := exists_mapM fun m (hm : m ∈ messages.zipIdx) => by
    have hat : f.MessageAt (a ++ [m.2]) outer m.1 :=
      trail_concat h (hmessages ▸ List.mem_zipIdx_iff_getElem?.mp hm)
    have hok := hwalked _ (List.fst_mem_of_mem_zipIdx hm) _ _ hat
    rwa [← hpath _ (hshort.lt hm)] at hok
  refine ⟨results, hresults, ?_⟩
  rw [under_walkFrom, under_walkFrom]
  exact ⟨List.rel_flatMap hlists fun _ _ hm => hm.messages,
    List.rel_flatMap hlists fun _ _ hm => hm.enums⟩

/-- **A walk through a complete message** succeeds, whatever encloses the message. -/
theorem walked_of_complete {m : MessageDescriptor} (hm : m.Complete) : f.Walked m := by
  -- by the messages nested in it, which are walked at addresses and inside messages of their own
  induction hm with
  | @intro m named fields oneofs enums nested short ih =>
    intro a outer h
    obtain ⟨schema, hschema, hfits⟩ :=
      messageSchema_ok (.intro named fields oneofs enums nested short) h
    -- what is nested in the message has the local name of the message in front
    have hinside := hfits.enclosing
    obtain ⟨results, hresults, hmessages, hinner⟩ :=
      messages_ok ((messagePath a).child .messageNested) h (by simp) ih
      short.2.2.2 fun i hi => child_messageNested hi h.ne_nil
    obtain ⟨own, hown, henums⟩ :=
      enums_ok ((messagePath a).child .messageEnum) h (by simp) enums short.2.2.1
      fun k hk => child_messageEnum hk h.ne_nil
    rw [← hinside] at hresults hown
    rw [messageTypes_eq]
    refine ⟨_, bind_eq_ok.mpr ⟨schema, hschema, bind_eq_ok.mpr ⟨_, nestedTypes_eq_ok hresults,
      bind_eq_ok.mpr ⟨own, hown, rfl⟩⟩⟩, ?_, ?_⟩
    · rw [under_walk]
      exact List.rel_append (List.rel_append (.cons ⟨outer, hfits⟩ .nil) hmessages) .nil
    · rw [under_walk]
      exact List.rel_append hinner henums

/-! ### Files -/

/-- A complete file is ingested, and flattened. -/
theorem schema_ok (h : f.Complete) : ∃ p, f.schema = .ok p ∧ f.Flattens p := by
  obtain ⟨results, hresults, hmessages, hinner⟩ :=
    messages_ok (Path.child [] .fileMessage) (trail_nil f.top) rfl
    (fun m hm => walked_of_complete (h.messages m hm)) h.short.1 fun i hi => child_fileMessage hi
  obtain ⟨enums, henums, hfits⟩ :=
    enums_ok (Path.child [] .fileEnum) (trail_nil f.top) rfl h.enums h.short.2.1
    fun k hk => child_fileEnum hk
  obtain ⟨services, hservices, hfits'⟩ := exists_mapM fun d hd =>
    serviceSchema_ok (f := f) (h.short.2.2.lt hd) (h.services _ (List.fst_mem_of_mem_zipIdx hd))
  refine ⟨_, bind_eq_ok.mpr ⟨results, hresults, bind_eq_ok.mpr ⟨enums, henums,
    bind_eq_ok.mpr ⟨services, hservices, rfl⟩⟩⟩, rfl, ?_, ?_, hfits'⟩
  · show List.Forall₂ _ f.placedMessages (results.foldl (· ++ ·) ({} : Types)).messages
    rw [under_nil] at hmessages
    rwa [foldl_append]
  · show List.Forall₂ _ f.placedEnums ((results.foldl (· ++ ·) ({} : Types)).enums ++ enums)
    rw [under_nil] at hinner
    rw [foldl_append, placedEnums, walk_eq]
    exact List.rel_append hinner hfits

/-- **Flattening.** If all declarations of a file have names, all fields known types, and no list is
    too long, the schema of the file says of every declaration what there is to say, once: the
    messages come in the order of a pre-order walk, each before those nested in it, and every
    declaration has the comments at its own path, which no other has.  In any descriptor set that
    can be read, the package of the file has this among what its other files declare. -/
theorem flattens_of_complete (h : f.Complete) :
    (∃ p, f.schema = .ok p ∧ f.Flattens p) ∧
      f.placedMessages.Pairwise (·.1 < ·.1) ∧
      (∀ a m, (a, m) ∈ f.placedMessages ↔ ∃ outer, f.MessageAt a outer m) ∧
      f.placedEnums.Nodup ∧
      (∀ a e k, (a, e, k) ∈ f.placedEnums ↔ ∃ outer, f.EnumAt a k outer e) ∧
      (∀ p q, f.Declares p → f.Declares q → p.path = q.path → p = q) ∧
      ∀ set : DescriptorSet, f ∈ set.files → (∀ g ∈ set.files, ∃ q, g.schema = .ok q) →
        ∃ packages, set.packages = .ok packages ∧
          ∃ p ∈ packages, p.name = f.packageName ∧ p.Gathers set.files := by
  refine ⟨schema_ok h, pairwise_placedMessages, fun _ _ => mem_placedMessages, nodup_placedEnums,
    fun _ _ _ => mem_placedEnums, fun _ _ => Declares.eq_of_path, fun set hf hset => ?_⟩
  obtain ⟨packages, hpackages, hgather⟩ := set.packages_gather hset
  exact ⟨packages, hpackages, hgather f hf⟩

end FileDescriptor

/-! ### A file -/

/-- A message with another inside and an enum, with the oneof of an optional field before one of its
    own. -/
def personMessage : MessageDescriptor :=
  { name := some "Person"
    fields := [
      { name := some "id", number := some 1, type := some "TYPE_STRING" },
      { name := some "email", number := some 2, type := some "TYPE_STRING", oneofIndex := some 1 },
      { name := some "nickname", number := some 3, type := some "TYPE_STRING", oneofIndex := some 0,
        proto3Optional := some true }]
    nested := [
      { name := some "Address"
        fields := [{ name := some "city", number := some 1, type := some "TYPE_STRING" }] }]
    enums := [{
      name := some "Employment"
      values := [{ name := some "EMPLOYED", number := some 0 }] }]
    oneofs := [{ name := some "_nickname" }, { name := some "contact" }] }

/-- A file with two messages at the top, an enum and a service; three locations have the path of the
    same field. -/
def peopleFile : FileDescriptor :=
  { name := some "people/v1/people.proto"
    package := some "people.v1"
    messages := [personMessage, { name := some "Team" }]
    enums := [{ name := some "Role", values := [{ name := some "MEMBER", number := some 0 }] }]
    services := [{ name := some "People", methods := [{ name := some "Get" }] }]
    locations := some [
      { path := [4, 0, 8, 1], leading := some " how to reach them" },
      { path := [4, 0, 3, 0, 2, 0], leading := some " outdated" },
      { path := [4, 0, 3, 0, 2, 0], leading := some " gen:svc validate required=true" },
      { path := [4, 0, 3, 0, 2, 0], trailing := some " nothing in front" }] }

set_option maxRecDepth 10000 in
/-- The message of the sample is complete. -/
theorem personMessage_complete : personMessage.Complete := by
  refine .intro rfl (by decide +kernel) (by decide) ?_ ?_ (by decide)
  · exact List.forall_mem_singleton.mpr ⟨rfl, by decide, by decide⟩
  · exact List.forall_mem_singleton.mpr
      (.intro rfl (by decide +kernel) (by decide) (by simp) (by simp) (by decide))

/-- The file of the sample is complete. -/
theorem peopleFile_complete : peopleFile.Complete where
  messages := List.forall_mem_cons.mpr ⟨personMessage_complete, List.forall_mem_singleton.mpr
    (.intro rfl (by decide) (by decide) (by simp) (by simp) (by decide))⟩
  enums := List.forall_mem_singleton.mpr ⟨rfl, by decide, by decide⟩
  services := List.forall_mem_singleton.mpr ⟨rfl, by decide, by decide⟩
  short := by decide

set_option maxRecDepth 10000 in
/-- The messages of the file in their order, each with the comments of its fields: of the three
    locations at the city, the last one that carries comments counts. -/
theorem flattens_people :
    peopleFile.Complete ∧ peopleFile.placedMessages.map (·.1) = [[0], [0, 0], [1]] ∧
      (∃ p, peopleFile.schema = .ok p ∧ peopleFile.Flattens p) ∧
      peopleFile.schema.toOption.map (fun p => p.messages.map fun m =>
          (m.fullName, m.fields.map (·.carrier.comments.leading))) =
        some [("people.v1.Person", ["", "", ""]),
          ("people.v1.Person.Address", [" gen:svc validate required=true"]),
            ("people.v1.Team", [])] :=
  ⟨peopleFile_complete, rfl,
    (FileDescriptor.flattens_of_complete peopleFile_complete).1, by decide +kernel⟩

end Lineage
