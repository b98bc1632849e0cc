import MissionScript.ByteMap

/-!
# Symbol tables

A script refers to functions and keywords by an id and to type names by an index. The function
table resolves ids, and ids from its threshold on are keywords or operators. The string table
resolves indices; an index fits in seven bits, so a string table has at most 128 names, and the
bound is part of the type.
-/

namespace MissionScript

structure FunctionTable where
  keywordThreshold : UInt8
  names : ByteMap String
  deriving DecidableEq

namespace FunctionTable

def name? (t : FunctionTable) (id : UInt8) : Option String := t.names.get? id

def isKeyword (t : FunctionTable) (id : UInt8) : Bool := t.keywordThreshold ≤ id

/-- The name of an id in the keyword range. -/
def keyword? (t : FunctionTable) (id : UInt8) : Option String :=
  if t.isKeyword id then t.name? id else none

end FunctionTable

structure StringTable where
  names : List String
  length_le : names.length ≤ 128
  deriving DecidableEq

namespace StringTable

def capacity : Nat := 128

/-- A list with more names than an index can address. -/
structure TooLarge where
  length : Nat
  deriving DecidableEq, Repr

def TooLarge.message (e : TooLarge) : String :=
  s!"string table has {e.length} entries, at most {capacity} allowed"

def ofList (names : List String) : Except TooLarge StringTable :=
  if h : names.length ≤ 128 then .ok ⟨names, h⟩ else .error ⟨names.length⟩

def get? (t : StringTable) (index : Nat) : Option String := t.names[index]?

end StringTable

structure SymbolTables where
  functions : FunctionTable
  strings : Option StringTable
  deriving DecidableEq

namespace SymbolTables

def withoutStrings (t : SymbolTables) : SymbolTables := { t with strings := none }

/-- The type name behind a string reference. -/
def string? (t : SymbolTables) (index : Nat) : Option String := t.strings.bind (·.get? index)

end SymbolTables

end MissionScript
