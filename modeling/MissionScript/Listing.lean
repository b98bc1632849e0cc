import MissionScript.Cleanup
import MissionScript.CompiledUnit
import MissionScript.Decode
import MissionScript.Line

/-!
# Listings

A unit is read statement by statement. The slot table grows by at most one declaration with each,
before the statement is set as a line, and the indent follows the conditional blocks. A listing
is the lines with what the banner above them tells about the unit.
-/

namespace MissionScript

/-- The tables and the marker rule under which units are read. -/
structure Reading where
  tables : SymbolTables
  rule : MarkerRule := .from81

/-- One statement as text, with the token it begins with. -/
structure Statement where
  first : Option Token
  text : Text
  deriving DecidableEq, Repr

namespace Statement

/-- The slot that a statement `int ( … )`, `obj ( … )` or `pos ( … )` declares: the first after
the parenthesis that has no type yet. -/
def declaration? (slots : SlotTable) : List Token → Option (UInt8 × VarType)
  | first :: second :: rest =>
    if rest.length < 2 ∨ second ≠ Token.openParen then none
    else
      (first.name?.bind VarType.ofKeyword?).bind fun ty =>
        rest.findSome? fun
          | .slot slot => if slots.contains slot then none else some (slot, ty)
          | _ => none
  | _ => none

def declared (slots : SlotTable) (tokens : List Token) : Logged SlotTable :=
  match declaration? slots tokens with
  | some (slot, ty) => do
    Logged.tell (.slotDeclared slot ty)
    pure (SlotTable.declare slots slot ty)
  | none => pure slots

/-- Reads one segment, with the slot table before and after it. -/
def render (reading : Reading) (slots : SlotTable) (segment : List UInt8) :
    Logged (Statement × SlotTable) := do
  let tokens ← decode reading.rule reading.tables.functions segment
  let slots ← declared slots tokens
  let line ← Cleanup.stripAccumulator (Line.format (tokens.map (Token.render slots)))
  pure (⟨tokens.head?, Cleanup.substituteStrings reading.tables.strings line⟩, slots)

def closesBlock (s : Statement) : Bool := s.first.any fun t => t.isName "endif" || t.isName "else"

def opensBlock (s : Statement) : Bool := s.first.any fun t => t.isName "if" || t.isName "else"

end Statement

structure ListedLine where
  indent : Nat
  text : Text
  deriving DecidableEq, Repr

def ListedLine.render (l : ListedLine) : Text := List.replicate (2 * l.indent) ' ' ++ l.text

structure Listing where
  unit : CompiledUnit
  lines : List ListedLine
  slots : SlotTable

namespace Listing

/-- The state between two statements. -/
structure Progress where
  slots : SlotTable := .empty
  indent : Nat := 0

/-- Sets one statement as a line: `endif` and `else` step back before it, `if` and `else` step in
after it. -/
def step (reading : Reading) (p : Progress) (segment : List UInt8) :
    Logged (ListedLine × Progress) := do
  let (statement, slots) ← Statement.render reading p.slots segment
  let indent := if statement.closesBlock then p.indent - 1 else p.indent
  pure (⟨indent, statement.text⟩, ⟨slots, if statement.opensBlock then indent + 1 else indent⟩)

/-- The lines of the given statements and the state after them. -/
def linesFrom (reading : Reading) (p : Progress) :
    List (List UInt8) → Logged (List ListedLine × Progress)
  | [] => pure ([], p)
  | segment :: more => do
    let (line, p) ← step reading p segment
    let (lines, p) ← linesFrom reading p more
    pure (line :: lines, p)

def ofUnit (reading : Reading) (unit : CompiledUnit) : Logged Listing := do
  let (lines, p) ← linesFrom reading {} unit.statements
  if p.indent ≠ 0 then Logged.tell (.openBlocks p.indent)
  pure ⟨unit, lines, p.slots⟩

def banner (l : Listing) (fileName : String) : List Text :=
  [("// File: " ++ fileName).toList,
    s!"// Size: {l.unit.size} bytes, segments: {l.unit.segmentCount}, vars: {l.unit.leadingEmpty}".toList,
    []]

def render (l : Listing) : Text := List.intercalate ['\n'] (l.lines.map ListedLine.render)

def renderWithBanner (l : Listing) (fileName : String) : Text :=
  List.intercalate ['\n'] (l.banner fileName ++ l.lines.map ListedLine.render)

end Listing

end MissionScript
