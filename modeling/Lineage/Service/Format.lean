import Lineage.Rule.Basic
import Lineage.Text.Blank
import Lineage.Url.Basic

namespace Lineage.Service

/-!
# Texts in a format

* `isUuid`  — thirty-two hexadecimal digits, plain or in five groups joined by hyphens; the groups
  may stand in braces or behind `urn:uuid:`, in letters of either case,
* `isEmail` — something, an at sign, and a domain with a point inside, without any blank,
* `isUrl`   — an absolute URL,
* `Formats` — checks of texts against all formats, `Formats.standard` — these ones.

What identifiers and addresses look like is a matter of the libraries that read them, so validation
takes the checks as a parameter and relies on one law: a text without characters has no format.
-/

/-- Five groups of hexadecimal digits joined by hyphens. -/
def isHyphenated (cs : List Char) : Bool :=
  let groups := Text.pieces '-' cs
  groups.map List.length == [8, 4, 4, 4, 12] && groups.all (·.all Url.isHexDigit)

/-- What stands between braces. -/
def inBraces? : List Char → Option (List Char)
  | '\x7b' :: rest => if rest.getLast? == some '\x7d' then some rest.dropLast else none
  | _ => none

/-- A universally unique identifier, in one of its written forms. -/
def isUuid (text : String) : Bool :=
  let cs := text.toList
  (cs.length == 32 && cs.all Url.isHexDigit) || isHyphenated cs
    || (inBraces? cs).any isHyphenated
    || (Text.after? "urn:uuid:".toList (cs.map Char.toLower)).any isHyphenated

/-- A domain with a point that is neither its first nor its last character. -/
def hasInnerPoint (domain : List Char) : Bool := ((domain.drop 1).dropLast).contains '.'

/-- An address of a mailbox. -/
def isEmail (text : String) : Bool :=
  let cs := text.toList
  !cs.any Text.isBlank &&
    match Text.pieces '@' cs with
    | [name, domain] => !name.isEmpty && hasInnerPoint domain
    | _ => false

/-- Whether a text has a format. -/
def hasFormat (f : Format) (text : String) : Bool :=
  match f with
  | .uuid => isUuid text
  | .email => isEmail text
  | .url => Url.isUrl text

/-- Checks of texts against formats. -/
structure Formats where
  accepts : Format → String → Bool
  /-- A text without characters has no format. -/
  accepts_empty : ∀ f, accepts f "" = false

/-- The checks that validators work with. -/
def Formats.standard : Formats where
  accepts := hasFormat
  accepts_empty f := by cases f <;> decide +kernel

end Lineage.Service
