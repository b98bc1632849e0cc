import MissionScript.ByteMap
import MissionScript.Text.Basic

/-!
# Variable slots

A compiled script names its variables by slot. A slot that a declaration has given a type shows as
`int_3`, any other as `v3`; the first declaration of a slot is kept for good.
-/

namespace MissionScript

inductive VarType where
  | int
  | obj
  | pos
  deriving DecidableEq, Repr

namespace VarType

def keyword : VarType → String
  | int => "int"
  | obj => "obj"
  | pos => "pos"

def ofKeyword? (s : String) : Option VarType :=
  if s = "int" then some int
  else if s = "obj" then some obj
  else if s = "pos" then some pos
  else none

end VarType

abbrev SlotTable := ByteMap VarType

namespace SlotTable

/-- Records the type of a slot unless it has one already. -/
def declare (t : SlotTable) (slot : UInt8) (ty : VarType) : SlotTable :=
  if t.contains slot then t else t.insert slot ty

def name (t : SlotTable) (slot : UInt8) : Text :=
  match t.get? slot with
  | some ty => ty.keyword.toList ++ '_' :: Text.decimal slot.toNat
  | none => 'v' :: Text.decimal slot.toNat

end SlotTable

end MissionScript
