/-!
# Text as lists of characters

Every line the library builds or takes apart is a list of characters, so that a scanner is a
recursion on its input. Numbers are written here in the two ways the listing uses: in decimal
without leading zeros, and as a byte in two lower-case hexadecimal digits.
-/

namespace MissionScript

abbrev Text := List Char

namespace Text

def decimal (n : Nat) : Text := Nat.toDigits 10 n

def hexByte (b : UInt8) : Text := [Nat.digitChar (b.toNat / 16), Nat.digitChar (b.toNat % 16)]

/-- The lower-case hexadecimal digits of a number, without leading zeros. -/
def hex (n : Nat) : Text := Nat.toDigits 16 n

def isAsciiDigit (c : Char) : Bool := '0' ≤ c && c ≤ '9'

/-- The value of a run of digits of the given base, or none if a character is no such digit. -/
def digits? (base : Nat) (digit? : Char → Option Nat) : Text → Option Nat :=
  List.foldlM (fun n c => (digit? c).map (n * base + ·)) 0

def decimalDigit? (c : Char) : Option Nat :=
  if isAsciiDigit c then some (c.toNat - '0'.toNat) else none

def hexDigit? (c : Char) : Option Nat :=
  if isAsciiDigit c then some (c.toNat - '0'.toNat)
  else if 'a' ≤ c && c ≤ 'f' then some (c.toNat - 'a'.toNat + 10)
  else if 'A' ≤ c && c ≤ 'F' then some (c.toNat - 'A'.toNat + 10)
  else none

/-- What is left of a text that starts with the given characters. -/
def after? : Text → Text → Option Text
  | [], t => some t
  | _ :: _, [] => none
  | c :: p, d :: t => if c = d then after? p t else none

theorem after?_eq_some {p t r : Text} : after? p t = some r ↔ t = p ++ r := by
  induction p generalizing t with
  | nil => simp [after?]
  | cons c p ih =>
    cases t with
    | nil => simp [after?]
    | cons d t =>
      by_cases h : c = d
      · simp [after?, h, ih]
      · simp [after?, h, Ne.symm h]

end Text

end MissionScript
