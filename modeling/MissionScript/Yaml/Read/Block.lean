import MissionScript.Yaml.Read.Plain

/-!
# Reading a block scalar

A block scalar is the lines below its header that are indented at least as far as its first, or as
the header says. A literal block keeps its lines; a folded one joins neighbouring lines that do not
start with white space. The header also says what becomes of the line breaks at the end.
-/

namespace MissionScript

namespace Yaml

namespace Block

inductive Chomp where
  | strip
  | clip
  | keep
  deriving DecidableEq, Repr

def chomp? : Char → Option Chomp
  | '+' => some .keep
  | '-' => some .strip
  | _ => none

/-- An indentation digit; zero is none. -/
def increment? (c : Char) : Option Nat := (Text.decimalDigit? c).filter (0 < ·)

structure Header where
  chomp : Chomp := .clip
  increment : Option Nat := none
  width : Nat := 0

/-- The indicators behind `|` or `>`, in either order. -/
def header? : Text → Option Header
  | [] => some {}
  | c :: t =>
    match chomp? c with
    | some chomp =>
      match t with
      | d :: _ =>
        if Text.isAsciiDigit d then (increment? d).map fun n => ⟨chomp, some n, 2⟩
        else some ⟨chomp, none, 1⟩
      | [] => some ⟨chomp, none, 1⟩
    | none =>
      if Text.isAsciiDigit c then
        (increment? c).map fun n =>
          match t.head?.bind chomp? with
          | some chomp => ⟨chomp, some n, 2⟩
          | none => ⟨.clip, some n, 1⟩
      else some {}

/-- The state between two lines. -/
structure Gap where
  breaks : Text := []
  /-- The furthest column at which the indentation of a line ended. -/
  widest : Nat := 0
  position : Position
  rest : Text

/-- Passes blank lines and indentation, up to the given column if it is known. A tab cannot indent. -/
def passGap (indent : Option Nat) (breaks : Text) (widest : Nat) (p : Position) :
    Text → Option Gap
  | [] => some ⟨breaks, max widest p.column, p, []⟩
  | '\r' :: '\n' :: t =>
    passGap indent (breaks ++ ['\n']) (max widest p.column) (p.newLine 2) t
  | c :: t =>
    if c = ' ' ∧ indent.all (p.column < ·) then passGap indent breaks widest p.step t
    else if c = '\t' ∧ indent.all (p.column < ·) then none
    else if isBreak c then
      passGap indent (breaks ++ [keptBreak c]) (max widest p.column) (p.newLine 1) t
    else some ⟨breaks, max widest p.column, p, c :: t⟩

/-- Where a line ends: the text of its break, the place behind it and what follows. -/
def endLine (p : Position) (t : Text) : Text × Position × Text :=
  match lineBreak? t with
  | some (c, width, rest) => ([c], p.newLine width, rest)
  | none => ([], p, t)

/-- What is read so far: the text, the break that ended the last line, the blank lines after it, and
whether that line started with white space. -/
structure Lines where
  text : Text := []
  ending : Text := []
  indented : Bool := false

/-- Takes up the lines at the given indentation. Every line has a character, so the length of the
text bounds their number. -/
def readLines (folded : Bool) (indent : Nat) : Nat → Lines → Gap → Option (Lines × Gap)
  | 0, _, _ => none
  | fuel + 1, lines, gap =>
    if gap.position.column ≠ indent ∨ gap.rest = [] then some (lines, gap)
    else
      let blank := gap.rest.head?.any isSpaceOrTab
      let joint :=
        if folded && lines.ending == ['\n'] && !lines.indented && !blank then
          if gap.breaks.isEmpty then [' '] else []
        else lines.ending
      let word := gap.rest.takeWhile (!isBreak ·)
      let (ending, p, rest) :=
        endLine (gap.position.steps word.length) (gap.rest.dropWhile (!isBreak ·))
      match passGap (some indent) [] 0 p rest with
      | some next =>
        readLines folded indent fuel ⟨lines.text ++ joint ++ gap.breaks ++ word, ending, blank⟩ next
      | none => none

/-- Skips blanks and a comment up to the end of the header's line. -/
def endHeader (p : Position) (t : Text) : Option (Position × Text) :=
  let blanks := t.takeWhile isSpaceOrTab
  let t := t.dropWhile isSpaceOrTab
  let comment := if t.head? == some '#' then t.takeWhile (!isBreak ·) else []
  let t := t.drop comment.length
  if t.head?.all isBreak then
    let (_, p, t) := endLine (p.steps (blanks.length + comment.length)) t
    some (p, t)
  else none

/-- Reads behind `|` or `>`, inside a block at the given column. -/
def read (folded : Bool) (parent : Option Nat) (p : Position) (t : Text) : Option Taken := do
  let header ← header? t
  let (p, t) ← endHeader (p.steps header.width) (t.drop header.width)
  let given := header.increment.map (parent.getD 0 + ·)
  let gap ← passGap given [] 0 p t
  let indent := given.getD (max gap.widest (max 1 (parent.elim 0 (· + 1))))
  let (lines, gap) ← readLines folded indent (gap.rest.length + 1) {} gap
  let text := match header.chomp with
    | .strip => lines.text
    | .clip => lines.text ++ lines.ending
    | .keep => lines.text ++ lines.ending ++ gap.breaks
  some ⟨text, gap.position, gap.rest⟩

end Block

end Yaml

end MissionScript
