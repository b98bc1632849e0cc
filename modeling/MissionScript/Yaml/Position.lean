import MissionScript.Yaml.Char

/-!
# Places in a text

A place counts characters, lines and columns. A carriage return with a line feed is one line
break, and line breaks inside a scalar are kept as line feeds, the two Unicode separators apart.
-/

namespace MissionScript

namespace Yaml

structure Position where
  index : Nat := 0
  line : Nat := 0
  column : Nat := 0
  deriving DecidableEq, Repr

namespace Position

/-- The place after the given number of characters of one line. -/
def steps (p : Position) (n : Nat) : Position := ⟨p.index + n, p.line, p.column + n⟩

def step (p : Position) : Position := p.steps 1

/-- The place after a line break of the given number of characters. -/
def newLine (p : Position) (width : Nat) : Position := ⟨p.index + width, p.line + 1, 0⟩

end Position

/-- A line break as a scalar keeps it. -/
def keptBreak (c : Char) : Char := if c = '\u2028' ∨ c = '\u2029' then c else '\n'

/-- The line break that a text starts with, its width, and what follows. -/
def lineBreak? : Text → Option (Char × Nat × Text)
  | '\r' :: '\n' :: t => some ('\n', 2, t)
  | c :: t => if isBreak c then some (keptBreak c, 1, t) else none
  | [] => none

end Yaml

end MissionScript
