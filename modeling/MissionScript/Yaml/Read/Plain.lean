import MissionScript.Yaml.Fold

/-!
# Reading a plain scalar

A plain scalar ends before a colon with a gap after it, before a hash with a gap in front, at a
line with too little indentation, and inside brackets also before a bracket or a comma.
-/

namespace MissionScript

namespace Yaml

/-- What reading a scalar yields: its text, the place after it and the text that follows. -/
structure Taken where
  text : Text
  position : Position
  rest : Text
  deriving DecidableEq, Repr

def isBracket (c : Char) : Bool := c == '[' || c == ']' || c == '\x7b' || c == '\x7d'

namespace Plain

/-- Whether the scalar stops at a word that follows held white space. -/
def stopsAt (flow : Bool) (indent : Nat) (p : Position) (word : Text) : Bool :=
  (!flow && p.column < indent) || (p.column == 0 && atDocumentMark word) || word.head? == some '#'

def endsAt (flow : Bool) (c : Char) (t : Text) : Bool :=
  (c == ':' && atGap t) || (flow && (c == ',' || isBracket c))

/-- Inside brackets a colon must not touch a following indicator. -/
def misplaces (flow : Bool) (c : Char) (t : Text) : Bool :=
  flow && c == ':' && t.head?.any fun d => d == ',' || d == '?' || isBracket d

/-- Reads on behind `text`; also yields whether a line break was passed last. -/
def readFrom (flow : Bool) (indent : Nat) (p : Position) (text : Text) (held : Held) :
    Text → Option (Taken × Bool)
  | [] => some (⟨text, p, []⟩, held.isBreaks)
  | '\r' :: '\n' :: t => readFrom flow indent (p.newLine 2) text (held.lineBreak '\n') t
  | c :: t =>
    if isBreak c then readFrom flow indent (p.newLine 1) text (held.lineBreak (keptBreak c)) t
    else if isSpaceOrTab c then
      if held.isBreaks && p.column < indent && c == '\t' then none
      else readFrom flow indent p.step text (held.blank c) t
    else if held ≠ .none && stopsAt flow indent p (c :: t) then
      some (⟨text, p, c :: t⟩, held.isBreaks)
    else if misplaces flow c t then none
    else if endsAt flow c t then some (⟨text, p, c :: t⟩, held.isBreaks)
    else readFrom flow indent p.step (text ++ held.join ++ [c]) .none t

def read (flow : Bool) (indent : Nat) (p : Position) (t : Text) : Option (Taken × Bool) :=
  readFrom flow indent p [] .none t

end Plain

end Yaml

end MissionScript
