import MissionScript.Yaml.Char
import MissionScript.Yaml.Plain

/-!
# Writing a scalar

A text is written plain where that is unambiguous. It stands in single quotes if it would read as
something else or looks like an indicator, as a literal block if it has several lines, and in
double quotes with escapes if neither form can hold it.
-/

namespace MissionScript

namespace Yaml

namespace Scalar

inductive Style where
  | plain
  | singleQuoted
  | doubleQuoted
  | literal
  deriving DecidableEq, Repr

/-- Characters that a plain scalar cannot start with. -/
def isIndicator (c : Char) : Bool :=
  ['#', ',', '[', ']', '\x7b', '\x7d', '&', '*', '!', '|', '>', '\'', '"', '%', '@', '\x60'].contains c

/-- Whether a colon before a gap or a hash after one stands in a text that `before` precedes. -/
def hasInnerIndicator (before : Char) : Text → Bool
  | [] => false
  | c :: t => (c == ':' && atGap t) || (c == '#' && isGap before) || hasInnerIndicator c t

def looksLikeIndicator : Text → Bool
  | [] => false
  | c :: t =>
    isIndicator c || ((c == '?' || c == ':' || c == '-') && atGap t) || hasInnerIndicator c t

def startsLikeDocument (t : Text) : Bool :=
  "---".toList.isPrefixOf t || "...".toList.isPrefixOf t

/-- Whether a character of the first class stands directly before one of the second. -/
def hasPair (p q : Char → Bool) : Text → Bool
  | a :: b :: t => (p a && q b) || hasPair p q (b :: t)
  | _ => false

def hasHidden (t : Text) : Bool := t.any (!isShown ·)

def allowsPlain (t : Text) : Bool :=
  !(t.head?.any fun c => c == ' ' || isBreak c) && !(t.getLast?.any fun c => c == ' ' || isBreak c) &&
    !t.any isBreak && !hasHidden t && !looksLikeIndicator t && !startsLikeDocument t

def allowsSingleQuoted (t : Text) : Bool :=
  !hasHidden t && !hasPair (· == ' ') isBreak t && !hasPair isBreak (· == ' ') t

def allowsLiteral (t : Text) : Bool :=
  !hasHidden t && !hasPair (· == ' ') isBreak t && t.getLast? != some ' '

def style (t : Text) : Style :=
  if t.contains '\n' then if allowsLiteral t then .literal else .doubleQuoted
  else if !Plain.isTyped t && allowsPlain t then .plain
  else if allowsSingleQuoted t then .singleQuoted
  else .doubleQuoted

def spaces (n : Nat) : Text := List.replicate n ' '

/-- The inside of single quotes: a quote is doubled, and a line that follows a separator is
indented. -/
def singleQuotedBody (indent : Nat) (atLine : Bool) : Text → Text
  | [] => if atLine then spaces indent else []
  | c :: t =>
    if isBreak c then c :: singleQuotedBody indent true t
    else
      (if atLine then spaces indent else []) ++ (if c = '\'' then ['\'', '\''] else [c])
        ++ singleQuotedBody indent false t

def upperHex (width n : Nat) : Text :=
  let digits := (Text.hex n).map Char.toUpper
  List.replicate (width - digits.length) '0' ++ digits

def escapeChar (c : Char) : Text :=
  let n := c.toNat
  if n = 0 then ['\\', '0']
  else if n = 0x7 then ['\\', 'a']
  else if n = 0x8 then ['\\', 'b']
  else if n = 0x9 then ['\\', 't']
  else if n = 0xa then ['\\', 'n']
  else if n = 0xb then ['\\', 'v']
  else if n = 0xc then ['\\', 'f']
  else if n = 0xd then ['\\', 'r']
  else if n = 0x1b then ['\\', 'e']
  else if c = '"' then ['\\', '"']
  else if c = '\\' then ['\\', '\\']
  else if n = 0x85 then ['\\', 'N']
  else if n = 0x2028 then ['\\', 'L']
  else if n = 0x2029 then ['\\', 'P']
  else if isShown c then [c]
  else if n ≤ 0xff then ['\\', 'x'] ++ upperHex 2 n
  else if n ≤ 0xffff then ['\\', 'u'] ++ upperHex 4 n
  else ['\\', 'U'] ++ upperHex 8 n

/-- The lines of a literal block, with the end of the last one. -/
def literalBody (indent : Nat) (atLine : Bool) : Text → Text
  | [] => if atLine then [] else ['\n']
  | c :: t =>
    if isBreak c then c :: literalBody indent true t
    else (if atLine then spaces indent else []) ++ c :: literalBody indent false t

/-- The indentation is given if the text does not show it, and the line breaks at the end are
dropped, kept as one or kept all. -/
def literalHeader (t : Text) : Text :=
  let indent := if t.head?.any fun c => c == ' ' || isBreak c then ['2'] else []
  let chomp := match t.reverse with
    | [] => ['-']
    | c :: rest => if !isBreak c then ['-'] else if rest.head?.all isBreak then ['+'] else []
  '|' :: (indent ++ chomp ++ ['\n'])

/-- A scalar in a block whose entries start at the given column, with the end of its line. -/
def write (column : Nat) (t : Text) : Text :=
  match style t with
  | .plain => t ++ ['\n']
  | .singleQuoted => '\'' :: (singleQuotedBody (column + 2) false t ++ ['\'', '\n'])
  | .doubleQuoted => '"' :: (t.flatMap escapeChar ++ ['"', '\n'])
  | .literal => literalHeader t ++ literalBody (column + 2) true t

end Scalar

/-- An entry of a mapping whose value is a scalar. -/
def scalarEntry (column : Nat) (key value : Text) : Text :=
  Scalar.spaces column ++ key ++ ':' :: ' ' :: Scalar.write column value

/-- An entry of a mapping whose value is a list of scalars, one a line. -/
def listEntry (column : Nat) (key : Text) (items : List Text) : Text :=
  Scalar.spaces column ++ key ++
    if items.isEmpty then ": []\n".toList
    else ":\n".toList ++ items.flatMap fun t =>
      Scalar.spaces column ++ '-' :: ' ' :: Scalar.write column t

/-- An entry of a mapping whose value stands for itself. -/
def wordEntry (column : Nat) (key word : Text) : Text :=
  Scalar.spaces column ++ key ++ ':' :: ' ' :: (word ++ ['\n'])

end Yaml

end MissionScript
