import MissionScript.Slot

/-!
# Tokens

The words of a compiled script: a character, a name from the function table, a variable slot, a
string reference, a small integer, an id without a name, or the end of a cut-off pair.
-/

namespace MissionScript

inductive Token where
  | char (byte : UInt8)
  | name (id : UInt8) (text : String)
  | slot (index : UInt8)
  | stringRef (index : UInt8)
  | integer (value : UInt8)
  | unknown (id : UInt8)
  | terminator
  deriving DecidableEq, Repr

namespace Token

def isPrintable (b : UInt8) : Bool := 0x20 ≤ b && b ≤ 0x7e

/-- The text of a token; a byte without a printable character shows as its code. -/
def render (slots : SlotTable) : Token → Text
  | char b =>
    if isPrintable b then [Char.ofNat b.toNat] else "<0x".toList ++ Text.hexByte b ++ ['>']
  | name _ text => text.toList
  | slot s => SlotTable.name slots s
  | stringRef i => "STR[".toList ++ Text.decimal i.toNat ++ [']']
  | integer v => Text.decimal v.toNat
  | unknown id => "UNK_".toList ++ Text.decimal id.toNat
  | terminator => [';']

def name? : Token → Option String
  | name _ text => some text
  | _ => none

def isName (t : Token) (expected : String) : Bool := t.name? == some expected

def openParen : Token := char 0x28

def closeParen : Token := char 0x29

end Token

end MissionScript
