import MissionScript.Yaml.Position
import MissionScript.Yaml.Token

/-!
# Reading tags, anchors and directives

A tag is a handle with a suffix or a whole name between angle brackets; a percent sign in it
introduces the octets of one encoded character. A directive fills a line and gives the version of
the format or the meaning of a handle.
-/

namespace MissionScript

namespace Yaml

namespace Tag

def isUriMark (c : Char) : Bool :=
  [';', '/', '?', ':', '@', '&', '=', '+', '$', '.', '!', '~', '*', '\'', '(', ')'].contains c

/-- A whole name may also hold commas and square brackets. -/
def isUriChar (whole : Bool) (c : Char) : Bool :=
  isWordChar c || isUriMark c || (whole && (c == ',' || c == '[' || c == ']'))

/-- An octet as a percent sign and two hexadecimal digits. -/
def octet? : Text → Option (Nat × Text)
  | '%' :: a :: b :: t => (Text.digits? 16 Text.hexDigit? [a, b]).map (·, t)
  | _ => none

/-- The number of octets that a first octet announces. -/
def octetCount? (n : Nat) : Option Nat :=
  if n < 0x80 then some 1
  else if 0xc0 ≤ n ∧ n < 0xe0 then some 2
  else if 0xe0 ≤ n ∧ n < 0xf0 then some 3
  else if 0xf0 ≤ n ∧ n < 0xf8 then some 4
  else none

/-- Adds the given number of further octets to a code point. -/
def moreOctets? : Nat → Nat → Text → Option (Nat × Text)
  | 0, code, t => some (code, t)
  | n + 1, code, t =>
    match octet? t with
    | some (o, t) => if o / 0x40 = 2 then moreOctets? n (code * 0x40 + o % 0x40) t else none
    | none => none

def escape? (t : Text) : Option (Char × Text) := do
  let (o, t) ← octet? t
  let count ← octetCount? o
  let (code, t) ← moreOctets? (count - 1) (if count = 1 then o else o % Nat.pow 2 (7 - count)) t
  some (Char.ofNat code, t)

/-- The characters of a name up to the first that cannot belong to it. Each step shortens the text,
so its length is fuel enough. -/
def uri? (whole : Bool) : Nat → Text → Option (Text × Text)
  | 0, t => some ([], t)
  | _ + 1, [] => some ([], [])
  | fuel + 1, c :: t =>
    if c = '%' then do
      let (d, t) ← escape? (c :: t)
      let (name, t) ← uri? whole fuel t
      some (d :: name, t)
    else if isUriChar whole c then do
      let (name, t) ← uri? whole fuel t
      some (c :: name, t)
    else some ([], c :: t)

/-- A name of at least one character. -/
def uri1? (whole : Bool) (t : Text) : Option (Text × Text) :=
  (uri? whole t.length t).filter fun r => r.2.length < t.length

/-- An exclamation mark, a word and, if it is there, a second exclamation mark. -/
def handle? : Text → Option (Text × Text)
  | '!' :: t =>
    let word := t.takeWhile isWordChar
    match t.dropWhile isWordChar with
    | '!' :: rest => some ('!' :: (word ++ ['!']), rest)
    | rest => some ('!' :: word, rest)
  | _ => none

def isFullHandle (handle : Text) : Bool := 1 < handle.length && handle.getLast? == some '!'

/-- The handle and suffix of a tag. -/
def parts? (t : Text) : Option (Text × Text × Text) :=
  match t with
  | '!' :: '<' :: t => do
    let (name, t) ← uri1? true t
    match t with
    | '>' :: t => some ([], name, t)
    | _ => none
  | t => do
    let (handle, t) ← handle? t
    if isFullHandle handle then
      let (suffix, t) ← uri1? false t
      some (handle, suffix, t)
    else
      let (suffix, t) ← uri? false t.length t
      let suffix := handle.drop 1 ++ suffix
      some (if suffix.isEmpty then ([], ['!'], t) else (['!'], suffix, t))

/-- A tag ends at a gap, or at a comma inside brackets. -/
def read (flow : Bool) (t : Text) : Option (Token × Text) := do
  let (handle, suffix, t) ← parts? t
  if atGap t || (flow && t.head? == some ',') then some (.tag handle suffix, t) else none

end Tag

namespace Anchor

def endsName (t : Text) : Bool :=
  atGap t || t.head?.any fun c => ['?', ':', ',', ']', '\x7d', '%', '@', '\x60'].contains c

/-- The name of an anchor or alias. -/
def name? (t : Text) : Option (Text × Text) :=
  let name := t.takeWhile isWordChar
  let rest := t.dropWhile isWordChar
  if name.isEmpty || !endsName rest then none else some (name, rest)

end Anchor

namespace Directive

def skipBlanks (t : Text) : Text := t.dropWhile isSpaceOrTab

/-- A number of at most nine digits. -/
def number? (t : Text) : Option (Nat × Text) :=
  let digits := t.takeWhile Text.isAsciiDigit
  if digits.isEmpty || 9 < digits.length then none
  else (Text.digits? 10 Text.decimalDigit? digits).map (·, t.dropWhile Text.isAsciiDigit)

def version? (t : Text) : Option (Token × Text) := do
  let (major, t) ← number? (skipBlanks t)
  match t with
  | '.' :: t =>
    let (minor, t) ← number? t
    some (.versionDirective major minor, t)
  | _ => none

def tag? (t : Text) : Option (Token × Text) := do
  let (handle, t) ← Tag.handle? (skipBlanks t)
  if !(Tag.isFullHandle handle || handle == ['!']) || !(t.head?.any isSpaceOrTab) then none
  else
    let (lead, t) ← Tag.uri1? true (skipBlanks t)
    if atGap t then some (.tagDirective handle lead, t) else none

/-- Reads a directive behind its percent sign, up to the end of its line. -/
def read (t : Text) : Option (Token × Text) := do
  let name := t.takeWhile isWordChar
  let rest := t.dropWhile isWordChar
  let (token, rest) ←
    if !atGap rest then none
    else if name == "YAML".toList then version? rest
    else if name == "TAG".toList then tag? rest
    else none
  let rest := skipBlanks rest
  let rest := if rest.head? == some '#' then rest.dropWhile (!isBreak ·) else rest
  if rest.head?.all isBreak then some (token, rest) else none

end Directive

end Yaml

end MissionScript
