import MissionScript.Text.Basic

/-!
# Characters of YAML

The classes on which reading and writing both depend. The end of the text counts as a blank
wherever an indicator must be followed by one.
-/

namespace MissionScript

namespace Yaml

def isSpaceOrTab (c : Char) : Bool := c == ' ' || c == '\t'

def isBreak (c : Char) : Bool :=
  c == '\n' || c == '\r' || c == '\x85' || c == '\u2028' || c == '\u2029'

/-- A character that ends a word. -/
def isGap (c : Char) : Bool := isSpaceOrTab c || isBreak c

/-- Whether a text starts with a gap or is at its end. -/
def atGap (t : Text) : Bool := t.head?.all isGap

def isWordChar (c : Char) : Bool := c.isAlphanum || c == '_' || c == '-'

/-- Whether a text may hold the character at all. -/
def isReadable (c : Char) : Bool :=
  let n := c.toNat
  n == 0x9 || n == 0xa || n == 0xd || (0x20 ≤ n && n ≤ 0x7e) || n == 0x85 ||
    (0xa0 ≤ n && n ≤ 0xfffd) || 0x10000 ≤ n

/-- Whether a scalar may show the character unescaped. -/
def isShown (c : Char) : Bool :=
  let n := c.toNat
  n == 0xa || (0x20 ≤ n && n ≤ 0x7e) ||
    (0xa0 ≤ n && n != 0xfeff && n != 0xfffe && n != 0xffff)

/-- Three hyphens or three dots at the start of a line, when a gap follows, bound a document. -/
def atDocumentMark : Text → Bool
  | a :: b :: c :: rest => (a == '-' || a == '.') && b == a && c == a && atGap rest
  | _ => false

end Yaml

end MissionScript
