import Lineage.Url.Domain

namespace Lineage.Url

/-!
# Absolute URLs

* `Scheme` — the three kinds of schemes,
* `isAuthority` — whether a text starts with user, host and port as a URL may,
* `isUrl` — whether a text is an absolute URL.

Only the scheme and the host with what stands around it can make a text no URL; every path, query
and fragment is accepted.
-/

/-- The kinds of schemes. -/
inductive Scheme where
  /-- Schemes that need a host, such as `https`. -/
  | web
  | file
  | other
deriving DecidableEq

/-- The kind of a scheme. -/
def Scheme.ofName (name : String) : Scheme :=
  if ["http", "https", "ws", "wss", "ftp"].contains name then .web
  else if name == "file" then .file
  else .other

/-- A letter of ASCII. -/
def isLetter (c : Char) : Bool := ('a' ≤ c && c ≤ 'z') || ('A' ≤ c && c ≤ 'Z')

/-- A text cut behind its scheme. -/
def cutScheme? (cs : List Char) : Option (Scheme × List Char) :=
  match Text.cutAt? (· == ':') cs with
  | some (c :: name, rest) =>
    if isLetter c && name.all fun d =>
        isLetter d || d.isDigit || d == '+' || d == '-' || d == '.' then
      some (.ofName (String.ofList ((c :: name).map Char.toLower)), rest)
    else none
  | _ => none

/-- Whether a character ends the authority.  In web URLs a backslash is as good as a slash. -/
def endsAuthority (web : Bool) (c : Char) : Bool :=
  c == '/' || c == '?' || c == '#' || (web && c == '\\')

/-- The host at the start of a text, and what follows it: a colon outside of brackets or the end of
    the authority. -/
def cutHost (web : Bool) : Bool → List Char → List Char × List Char
  | _, [] => ([], [])
  | inBrackets, c :: rest =>
    if endsAuthority web c || (c == ':' && !inBrackets) then ([], c :: rest)
    else
      let (host, more) := cutHost web (c == '[' || (inBrackets && c != ']')) rest
      (c :: host, more)

/-- Whether a text names a host in a URL that is neither of the web nor of files: an address in
    brackets, or any characters but blanks and delimiters. -/
def isOpaqueHost (host : List Char) : Bool :=
  match host with
  | '[' :: rest => rest.getLast? == some ']' && isAddress6 rest.dropLast
  | _ => !host.any fun c => c == '\x00' || " #/:<>?@[\\]^|".toList.contains c

/-- Whether a text starts with a port: digits of a number below 65536, if any. -/
def isPort (cs : List Char) : Bool :=
  let digits := cs.takeWhile Char.isDigit
  valueOf 10 digits < 65536
    && ((cs.dropWhile Char.isDigit).head?.all fun c => endsAuthority true c)

/-- What stands before and behind the last at sign. -/
def cutUser? (cs : List Char) : Option (List Char × List Char) :=
  (Text.cutAt? (· == '@') cs.reverse).map fun p => (p.2.reverse, p.1.reverse)

/-- Whether a host and a port, if there is one, may stand in a URL; `named` says that a user stands
    before them. -/
def isHostAndPort (web named : Bool) (cs : List Char) : Bool :=
  let (host, rest) := cutHost web false cs
  let port := Text.after? [':'] rest
  (if host.isEmpty then !web && !named && port.isNone
    else if web then isHost host else isOpaqueHost host)
    && port.all isPort

/-- Whether a text starts with user, host and port as a URL may.  An at sign with nothing before it
    needs something behind it, unless nothing else follows. -/
def isAuthority (web : Bool) (cs : List Char) : Bool :=
  let authority := cs.takeWhile (!endsAuthority web ·)
  let rest := cs.dropWhile (!endsAuthority web ·)
  match cutUser? authority with
  | none => isHostAndPort web false cs
  | some (user, host) =>
    !(user.isEmpty && host.isEmpty && !rest.isEmpty)
      && isHostAndPort web (!user.isEmpty && user != [':']) (host ++ rest)

/-- Whether a text starts with a host as a file URL may: none, a drive, or a name. -/
def isFileHost (cs : List Char) : Bool :=
  let host := cs.takeWhile (!endsAuthority true ·)
  match host with
  | [] => true
  | [drive, mark] => (isLetter drive && (mark == ':' || mark == '|')) || isHost host
  | _ => isHost host

/-- The characters of a text that count: neither controls and blanks around it nor tabs and line
    ends anywhere. -/
def significant (text : List Char) : List Char :=
  let isEdge (c : Char) : Bool := c.toNat ≤ 0x20
  ((text.dropWhile isEdge).reverse.dropWhile isEdge).reverse.filter fun c =>
    c != '\t' && c != '\n' && c != '\r'

/-- Whether what follows the colon of a scheme makes a URL. -/
def isBehindScheme (scheme : Scheme) (cs : List Char) : Bool :=
  let isSlash (c : Char) : Bool := c == '/' || c == '\\'
  match scheme with
  | .web => isAuthority true (cs.dropWhile isSlash)
  | .file =>
    match cs with
    | a :: b :: rest => !(isSlash a && isSlash b) || isFileHost rest
    | _ => true
  | .other => (Text.after? ['/', '/'] cs).all (isAuthority false)

/-- Whether a text is an absolute URL. -/
def isUrl (text : String) : Bool :=
  (cutScheme? (significant text.toList)).any fun p => isBehindScheme p.1 p.2

end Lineage.Url
