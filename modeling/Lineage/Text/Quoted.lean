import Lineage.Text.Printable

namespace Lineage.Text

/-!
# Quoted text

A text between double quotes in which every character that could mislead a reader is escaped:
tab, carriage return, line feed, double quote, backslash and NUL by one letter, grapheme extenders
and characters that do not print by their code point in braces.

* `hexDigits` — a number in base sixteen without leading zeros,
* `escape`    — the escaped form of one character,
* `quoted`    — the quoted form of a text.
-/

/-- A number in base sixteen, in lower case, without leading zeros. -/
def hexDigits (n : Nat) : List Char := Nat.toDigits 16 n

/-- How one character is written between the quotes. -/
def escape (c : Char) : List Char :=
  match c with
  | '\x00' => ['\\', '0']
  | '\t' => ['\\', 't']
  | '\r' => ['\\', 'r']
  | '\n' => ['\\', 'n']
  | '"' => ['\\', '"']
  | '\\' => ['\\', '\\']
  | c =>
    if isPrintable c && !isExtender c then [c]
    else ['\\', 'u', '\x7b'] ++ hexDigits c.toNat ++ ['\x7d']

/-- A text between double quotes, escaped. -/
def quoted (s : String) : String :=
  String.ofList ('"' :: s.toList.flatMap escape ++ ['"'])

example : quoted "a\"b\\\n" = "\"a\\\"b\\\\\\n\"" := by decide +kernel
example : quoted "e\u0301" = "\"e\\u\x7b301\x7d\"" := by decide +kernel

end Lineage.Text
