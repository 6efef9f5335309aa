import Lineage.Decimal.Layout
import Lineage.Json.Basic

namespace Lineage.Json

/-!
# Compact JSON text

* `printString` — a text between quotes; only quotes, backslashes and control characters are
  escaped,
* `print` — a value without any blanks, the entries of objects in the order they have.
-/

/-- A hexadecimal digit. -/
def hexDigit (n : Nat) : Char := Nat.digitChar n

/-- How one character is written between quotes. -/
def escapeChar (c : Char) : List Char :=
  match c with
  | '"' => ['\\', '"']
  | '\\' => ['\\', '\\']
  | '\x08' => ['\\', 'b']
  | '\x0c' => ['\\', 'f']
  | '\n' => ['\\', 'n']
  | '\r' => ['\\', 'r']
  | '\t' => ['\\', 't']
  | c =>
    if c.toNat < 0x20 then ['\\', 'u', '0', '0', hexDigit (c.toNat / 16), hexDigit (c.toNat % 16)]
    else [c]

/-- A text between quotes. -/
def printString (s : String) : String := String.ofList ('"' :: s.toList.flatMap escapeChar ++ ['"'])

/-- A binary64 number; what JSON has no number for is `null`. -/
def printFloat (x : Binary64) : String :=
  if x.isFinite then Decimal.Layout.json.text x else "null"

mutual

/-- A value as compact text. -/
def print : Json → String
  | null => "null"
  | bool b => if b then "true" else "false"
  | integer n => toString n
  | float x => printFloat x
  | string s => printString s
  | array items => "[" ++ printItems items ++ "]"
  | object entries => "\x7b" ++ printEntries entries ++ "\x7d"

/-- The items of an array, separated by commas. -/
def printItems : List Json → String
  | [] => ""
  | [x] => print x
  | x :: y :: rest => print x ++ "," ++ printItems (y :: rest)

/-- The entries of an object, separated by commas. -/
def printEntries : List (String × Json) → String
  | [] => ""
  | [(k, v)] => printString k ++ ":" ++ print v
  | (k, v) :: e :: rest => printString k ++ ":" ++ print v ++ "," ++ printEntries (e :: rest)

end

end Lineage.Json
