import Lineage.Decimal.Literal

namespace Lineage.Json

/-!
# JSON documents as written

The syntax of JSON, before anything is made of it: numbers keep their digits, objects their entries
in order and with repetitions, and a text that holds half a surrogate pair is kept as absent, so
that whether it matters is decided by who uses it.

* `tokens?`           — the tokens of a text, one automaton step per character,
* `Document.build?`   — the document of a list of tokens, with a stack of the containers still open,
* `Document.ofText?`  — both; absent iff the text is no JSON document.

Neither step recurses into the nesting, so documents may nest without bound.
-/

/-! ### Numbers -/

/-- A number as written; `places` and `exponent` are absent without a point or an `e`. -/
structure NumberText where
  minus : Bool
  whole : List Char
  places : Option (List Char)
  exponent : Option Int

/-- A number: no superfluous leading zero, and a digit on both sides of a point. -/
def NumberText.ofChars? (cs : List Char) : Option NumberText :=
  let (minus, body) := match cs with
    | '-' :: r => (true, r)
    | r => (false, r)
  let whole := body.takeWhile Decimal.isDigit
  let rest := body.dropWhile Decimal.isDigit
  if whole.isEmpty || (1 < whole.length && whole.head? == some '0') then none
  else
    let (places, tail) := match rest with
      | '.' :: r => (some (r.takeWhile Decimal.isDigit), r.dropWhile Decimal.isDigit)
      | r => (none, r)
    if places == some [] then none
    else match tail with
      | [] => some ⟨minus, whole, places, none⟩
      | e :: r =>
        if e == 'e' || e == 'E' then
          (Decimal.integer? r).map fun n => ⟨minus, whole, places, some n⟩
        else none

/-! ### Texts -/

/-- A character of a text between quotes: one that stands for itself or is escaped by a letter, or
    one half of a surrogate pair given by its number. -/
inductive Unit16 where
  | char (c : Char)
  | half (n : Nat)

/-- The number written by four hexadecimal digits. -/
def hex4? (a b c d : Char) : Option Nat :=
  let digit? (c : Char) : Option Nat :=
    if '0' ≤ c && c ≤ '9' then some (c.toNat - 48)
    else if 'a' ≤ c && c ≤ 'f' then some (c.toNat - 87)
    else if 'A' ≤ c && c ≤ 'F' then some (c.toNat - 55)
    else none
  do return ((← digit? a) * 16 + (← digit? b)) * 256 + (← digit? c) * 16 + (← digit? d)

/-- The character that an escape letter stands for. -/
def escapeLetter? : Char → Option Char
  | '"' => some '"'
  | '\\' => some '\\'
  | '/' => some '/'
  | 'b' => some '\x08'
  | 'f' => some '\x0c'
  | 'n' => some '\n'
  | 'r' => some '\r'
  | 't' => some '\t'
  | _ => none

/-- The characters between two quotes with the escapes replaced.  Absent for an unknown escape. -/
def unescape? : List Char → Option (List Unit16)
  | [] => some []
  | '\\' :: 'u' :: a :: b :: c :: d :: rest => do
    let n ← hex4? a b c d
    let u := if 0xD800 ≤ n && n < 0xE000 then Unit16.half n else .char (Char.ofNat n)
    return u :: (← unescape? rest)
  | '\\' :: e :: rest => do
    let c ← escapeLetter? e
    return .char c :: (← unescape? rest)
  | ['\\'] => none
  | c :: rest => return .char c :: (← unescape? rest)

/-- Pairs of surrogate halves joined.  Absent if a half stands alone. -/
def joinHalves? : List Unit16 → Option (List Char)
  | [] => some []
  | .char c :: rest => (joinHalves? rest).map (c :: ·)
  | .half high :: .half low :: rest =>
    if high < 0xDC00 && 0xDC00 ≤ low then
      (joinHalves? rest).map (Char.ofNat (0x10000 + (high - 0xD800) * 0x400 + (low - 0xDC00)) :: ·)
    else none
  | .half _ :: _ => none

/-! ### Tokens -/

/-- A token of JSON. -/
inductive Token where
  | leftBrace
  | rightBrace
  | leftBracket
  | rightBracket
  | comma
  | colon
  /-- A text between quotes, absent if a surrogate half stands alone in it. -/
  | text (s : Option String)
  /-- A run of other characters: a number or a word. -/
  | atom (cs : List Char)

/-- Where the reader of tokens stands; characters read so far are in reverse. -/
inductive Mode where
  | between
  | inAtom (seen : List Char)
  | inText (seen : List Char) (escaped : Bool)

/-- The blanks of JSON. -/
def isSpace (c : Char) : Bool := c == ' ' || c == '\n' || c == '\r' || c == '\t'

/-- The token that a character is on its own. -/
def punctuation? : Char → Option Token
  | '{' => some .leftBrace
  | '}' => some .rightBrace
  | '[' => some .leftBracket
  | ']' => some .rightBracket
  | ',' => some .comma
  | ':' => some .colon
  | _ => none

/-- The token of the characters between two quotes, given in reverse. -/
def textToken? (seen : List Char) : Option Token :=
  (unescape? seen.reverse).map fun us => .text ((joinHalves? us).map String.ofList)

/-- One character outside a text, behind the tokens `out`. -/
def stepOutside (c : Char) (out : List Token) : Mode × List Token :=
  if c == '"' then (.inText [] false, out)
  else if isSpace c then (.between, out)
  else match punctuation? c with
    | some t => (.between, t :: out)
    | none => (.inAtom [c], out)

/-- One character.  A raw control character in a text is refused. -/
def step? (c : Char) : Mode → List Token → Option (Mode × List Token)
  | .between, out => some (stepOutside c out)
  | .inAtom seen, out =>
    if c == '"' || isSpace c || (punctuation? c).isSome then
      some (stepOutside c (.atom seen.reverse :: out))
    else some (.inAtom (c :: seen), out)
  | .inText seen escaped, out =>
    if c.toNat < 0x20 then none
    else if escaped then some (.inText (c :: seen) false, out)
    else if c == '"' then (textToken? seen).map fun t => (.between, t :: out)
    else some (.inText (c :: seen) (c == '\\'), out)

/-- The tokens of the rest of a text. -/
def tokensFrom? : List Char → Mode → List Token → Option (List Token)
  | [], .between, out => some out.reverse
  | [], .inAtom seen, out => some ((Token.atom seen.reverse :: out).reverse)
  | [], .inText _ _, _ => none
  | c :: cs, mode, out =>
    match step? c mode out with
    | some (mode', out') => tokensFrom? cs mode' out'
    | none => none

/-- The tokens of a text. -/
def tokens? (s : String) : Option (List Token) := tokensFrom? s.toList .between []

/-! ### Documents -/

/-- A JSON document as written. -/
inductive Document where
  | null
  | bool (b : Bool)
  | number (n : NumberText)
  | text (s : Option String)
  | array (items : List Document)
  | object (entries : List (Option String × Document))

namespace Document

instance : Inhabited Document := ⟨null⟩

/-- A word or a number. -/
def ofAtom? (cs : List Char) : Option Document :=
  if cs == "null".toList then some null
  else if cs == "true".toList then some (bool true)
  else if cs == "false".toList then some (bool false)
  else (NumberText.ofChars? cs).map number

/-- A container that is still open; what it holds so far is in reverse. -/
inductive Frame where
  | items (done : List Document)
  | entries (done : List (Option String × Document))
  | entry (done : List (Option String × Document)) (key : Option String)

/-- What may come next. -/
inductive Expect where
  | value
  | valueOrClose
  | key
  | keyOrClose
  | colon
  | separator
  | done (d : Document)

/-- A value is complete: it goes into the innermost open container. -/
def complete (d : Document) : List Frame → Option (Expect × List Frame)
  | [] => some (.done d, [])
  | .items ds :: rest => some (.separator, .items (d :: ds) :: rest)
  | .entry es k :: rest => some (.separator, .entries ((k, d) :: es) :: rest)
  | .entries _ :: _ => none

/-- A token at the beginning of a value. -/
def startValue (t : Token) (stack : List Frame) : Option (Expect × List Frame) :=
  match t with
  | .leftBrace => some (.keyOrClose, .entries [] :: stack)
  | .leftBracket => some (.valueOrClose, .items [] :: stack)
  | .text s => complete (.text s) stack
  | .atom cs => (ofAtom? cs).bind (complete · stack)
  | _ => none

/-- A token that closes the innermost open container, if it fits. -/
def close (t : Token) (stack : List Frame) : Option (Expect × List Frame) :=
  match t, stack with
  | .rightBracket, .items ds :: rest => complete (.array ds.reverse) rest
  | .rightBrace, .entries es :: rest => complete (.object es.reverse) rest
  | _, _ => none

/-- A token where a key is expected. -/
def startKey (t : Token) (stack : List Frame) : Option (Expect × List Frame) :=
  match t, stack with
  | .text s, .entries es :: rest => some (.colon, .entry es s :: rest)
  | _, _ => none

/-- One token. -/
def next (t : Token) (stack : List Frame) : Expect → Option (Expect × List Frame)
  | .value => startValue t stack
  | .valueOrClose => (close t stack).or (startValue t stack)
  | .key => startKey t stack
  | .keyOrClose => (close t stack).or (startKey t stack)
  | .colon => match t with
    | .colon => some (.value, stack)
    | _ => none
  | .separator => match t, stack with
    | .comma, .items _ :: _ => some (.value, stack)
    | .comma, .entries _ :: _ => some (.key, stack)
    | _, _ => close t stack
  | .done _ => none

/-- The document of the remaining tokens. -/
def build? : List Token → Expect → List Frame → Option Document
  | [], .done d, _ => some d
  | [], _, _ => none
  | t :: ts, e, stack =>
    match next t stack e with
    | some (e', stack') => build? ts e' stack'
    | none => none

/-- The document that a text is, if it is one. -/
def ofText? (s : String) : Option Document := (tokens? s).bind (build? · .value [])

end Document

end Lineage.Json
