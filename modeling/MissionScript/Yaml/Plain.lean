import MissionScript.Text.Basic

/-!
# What an unquoted word stands for

An unquoted word may read as nothing, a truth value, a whole number or a decimal fraction. Whole
numbers come in four bases and take a sign; digits after a leading zero are no number, and a
decimal fraction is one only if its value is finite in double precision.
-/

namespace MissionScript

namespace Yaml

namespace Plain

def isNull (t : Text) : Bool :=
  ["null".toList, "Null".toList, "NULL".toList, ['~']].contains t

def isBool (t : Text) : Bool :=
  ["true".toList, "True".toList, "TRUE".toList,
    "false".toList, "False".toList, "FALSE".toList].contains t

def isSign (c : Char) : Bool := c == '+' || c == '-'

def withoutPlus : Text → Text
  | '+' :: t => t
  | t => t

/-- Digits with a leading zero, after at most one sign. -/
def isPadded (t : Text) : Bool :=
  let digits := match t with
    | c :: r => if isSign c then r else t
    | [] => []
  match digits with
  | '0' :: d :: r => (d :: r).all Text.isAsciiDigit
  | _ => false

def digitBelow? (base : Nat) (c : Char) : Option Nat :=
  (Text.hexDigit? c).filter (· < base)

/-- A run of one or more digits of a base. -/
def digits? (base : Nat) (t : Text) : Option Nat :=
  if t.isEmpty then none else Text.digits? base (digitBelow? base) t

/-- Digits in base sixteen, eight or two behind their mark. -/
def marked? : Text → Option Nat
  | '0' :: 'x' :: t => digits? 16 t
  | '0' :: 'o' :: t => digits? 8 t
  | '0' :: 'b' :: t => digits? 2 t
  | _ => none

/-- A whole number that is not written as a negative one. -/
def natural? (t : Text) : Option Nat :=
  let bare := withoutPlus t
  (marked? bare).or (if isPadded t then none else digits? 10 bare)

/-- The absolute value of a whole number written with a minus sign. -/
def negated? : Text → Option Nat
  | '-' :: t => (marked? t).or (if isPadded t then none else digits? 10 t)
  | _ => none

/-- Whole numbers are told apart from other words up to 128 bits. -/
def isInteger (t : Text) : Bool :=
  (natural? t).any (· < Nat.pow 2 128) || (negated? t).any (· ≤ Nat.pow 2 127)

/-- Whether the nearest double to `m * 10 ^ e` is finite: it is below the midpoint of the largest
double and the power of two that follows. The number of digits settles all but one magnitude. -/
def isFinite (m : Nat) (e : Int) : Bool :=
  let bound := Nat.pow 2 1024 - Nat.pow 2 970
  let magnitude := (Nat.toDigits 10 m).length + e
  if m = 0 ∨ magnitude ≤ 308 then true
  else if 309 < magnitude then false
  else if 0 ≤ e then m * Nat.pow 10 e.toNat < bound
  else m < bound * Nat.pow 10 (-e).toNat

/-- An exponent mark with its digits, or nothing. -/
def exponent? : Text → Option Int
  | [] => some 0
  | c :: t =>
    if c = 'e' ∨ c = 'E' then
      match t with
      | '-' :: ds => (digits? 10 ds).map fun n => -(n : Int)
      | '+' :: ds => (digits? 10 ds).map Int.ofNat
      | ds => (digits? 10 ds).map Int.ofNat
    else none

/-- An unsigned decimal number with a finite value: digits, of which a point may stand anywhere
between, before or after, and an exponent. -/
def isFiniteDecimal (t : Text) : Bool :=
  let whole := t.takeWhile Text.isAsciiDigit
  let rest := t.dropWhile Text.isAsciiDigit
  let fraction := match rest with
    | '.' :: r => r.takeWhile Text.isAsciiDigit
    | _ => []
  let rest := match rest with
    | '.' :: r => r.dropWhile Text.isAsciiDigit
    | _ => rest
  match digits? 10 (whole ++ fraction), exponent? rest with
  | some m, some e => isFinite m (e - fraction.length)
  | _, _ => false

def isFraction (t : Text) : Bool :=
  let infinities : List Text := [".inf".toList, ".Inf".toList, ".INF".toList]
  let bare := withoutPlus t
  if bare.length < t.length && bare.head?.any isSign then false
  else
    infinities.contains bare || (infinities.map ('-' :: ·)).contains t ||
      [".nan".toList, ".NaN".toList, ".NAN".toList].contains t ||
      (match bare with
        | '-' :: r => isFiniteDecimal r
        | r => isFiniteDecimal r)

/-- Whether a word has to be quoted to be read as a name. -/
def isTyped (t : Text) : Bool :=
  t.isEmpty || isNull t || isBool t || isInteger t || isPadded t || isFraction t

end Plain

end Yaml

end MissionScript
