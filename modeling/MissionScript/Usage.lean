import MissionScript.CompiledUnit
import MissionScript.Listing
import MissionScript.NameSet

/-!
# String usage

Which type names a set of units refers to, how often, under which calls and on behalf of which
side. A reference belongs to the innermost open parenthesis that a function name stands before; its
side is read off the first word inside that parenthesis, either a call that yields a side or a
slot to which an earlier statement assigned one.
-/

namespace MissionScript

inductive Side where
  | player
  | secondPlayer
  | enemy
  | neutral
  /-- A side made by the script itself. -/
  | created
  deriving DecidableEq, Repr

namespace Side

def all : List Side := [player, secondPlayer, enemy, neutral, created]

def label : Side → String
  | player => "player"
  | secondPlayer => "second_player"
  | enemy => "enemy"
  | neutral => "neutral"
  | created => "created"

/-- The side that a function yields. -/
def ofGetter? (name : String) : Option Side :=
  if name = "GetPlayerSide" then some player
  else if name = "GetSecondPlayerSide" then some secondPlayer
  else if name = "GetEnemySide" then some enemy
  else if name = "GetNeutralSide" then some neutral
  else if name = "CreateSide" then some created
  else none

end Side

@[ext]
structure SideSet where
  contains : Side → Bool

namespace SideSet

def empty : SideSet := ⟨fun _ => false⟩

def insert (s : SideSet) (x : Side) : SideSet := ⟨fun y => y == x || s.contains y⟩

def union (s t : SideSet) : SideSet := ⟨fun y => s.contains y || t.contains y⟩

/-- The sides of a set in their fixed order. -/
def toList (s : SideSet) : List Side := Side.all.filter s.contains

end SideSet

/-- What is known about the references to one index. -/
structure StringUse where
  name : Option String
  count : Nat := 0
  contexts : NameSet := .empty
  sides : SideSet := .empty
  units : NameSet := .empty

namespace StringUse

def merge (a b : StringUse) : StringUse where
  name := a.name.or b.name
  count := a.count + b.count
  contexts := a.contexts.union b.contexts
  sides := a.sides.union b.sides
  units := a.units.union b.units

end StringUse

/-- One string reference with the call it stands in. -/
structure Reference where
  index : UInt8
  context : Option String
  side : Option Side
  deriving DecidableEq, Repr

namespace Reference

/-- An open parenthesis: the function in front of it, if any, and the side its first word gives,
which is not known before that word. -/
structure Frame where
  call : Option String
  side : Option Side := none
  fresh : Bool := true
  deriving DecidableEq, Repr

/-- The name of a token that can be called. -/
def callName? (functions : FunctionTable) : Token → Option String
  | .name id text => if functions.isKeyword id then none else some text
  | _ => none

def sideOf (bound : ByteMap Side) : Token → Option Side
  | .name _ text => Side.ofGetter? text
  | .slot slot => bound.get? slot
  | _ => none

/-- Lets the innermost parenthesis take note of its first word. -/
def noteFirst (bound : ByteMap Side) (t : Token) : List Frame → List Frame
  | [] => []
  | f :: rest => (if f.fresh then { f with side := sideOf bound t, fresh := false } else f) :: rest

/-- The references among the tokens that follow `before`, with the open parentheses innermost
first. -/
def listFrom (functions : FunctionTable) (bound : ByteMap Side) (before : Option Token)
    (frames : List Frame) : List Token → List Reference
  | [] => []
  | t :: rest =>
    let frames := noteFirst bound t frames
    match t with
    | .stringRef index =>
      let call := frames.find? (·.call.isSome)
      ⟨index, call.bind (·.call), call.bind (·.side)⟩
        :: listFrom functions bound (some t) frames rest
    | _ =>
      let frames :=
        if t = Token.openParen then ⟨before.bind (callName? functions), none, true⟩ :: frames
        else if t = Token.closeParen then frames.tail
        else frames
      listFrom functions bound (some t) frames rest

def list (functions : FunctionTable) (bound : ByteMap Side) (tokens : List Token) :
    List Reference :=
  listFrom functions bound none [] tokens

end Reference

/-- The slot and side of a statement `slot = Getter ( …`, with or without a reference to slot 0
before the getter. -/
def sideAssignment? (functions : FunctionTable) : List Token → Option (UInt8 × Side)
  | .slot slot :: .name _ "=" :: rest =>
    let rest := if rest.head? = some (.slot 0) then rest.tail else rest
    match rest with
    | getter :: paren :: _ =>
      if paren = Token.openParen then
        ((Reference.callName? functions getter).bind Side.ofGetter?).map (slot, ·)
      else none
    | _ => none
  | _ => none

abbrev Usage := ByteMap StringUse

namespace Usage

def record (tables : SymbolTables) (unitName : String) (usage : Usage) (r : Reference) : Usage :=
  let use := (usage.get? r.index).getD { name := tables.string? r.index.toNat }
  usage.insert r.index
    { use with
      count := use.count + 1
      contexts := use.contexts.insert (r.context.getD "<none>")
      sides := match r.side with
        | some side => use.sides.insert side
        | none => use.sides
      units := use.units.insert unitName }

/-- Takes up the statements in order, with the sides that slots are bound to so far. -/
def collectFrom (reading : Reading) (unitName : String) (bound : ByteMap Side) (usage : Usage) :
    List (List UInt8) → Logged Usage
  | [] => pure usage
  | segment :: more => do
    let tokens ← decode reading.rule reading.tables.functions segment
    let bound := match sideAssignment? reading.tables.functions tokens with
      | some (slot, side) => bound.insert slot side
      | none => bound
    let references := Reference.list reading.tables.functions bound tokens
    collectFrom reading unitName bound
      (references.foldl (record reading.tables unitName) usage) more

/-- The references of one unit. -/
def collect (reading : Reading) (unitName : String) (unit : CompiledUnit) : Logged Usage :=
  collectFrom reading unitName .empty .empty unit.statements

/-- The references of both; of two names for one index the left one is kept. -/
def merge (a b : Usage) : Usage :=
  ⟨fun index => match a.get? index, b.get? index with
    | some x, some y => some (x.merge y)
    | some x, none => some x
    | none, y => y⟩

end Usage

end MissionScript
