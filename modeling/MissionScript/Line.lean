import MissionScript.Text.Basic

/-!
# Setting the words of a line

A compiled number arrives one digit a token. Runs of digit tokens are joined first, with a minus
sign in front of them; then the words are set with one space between, except before a closing
mark and after an opening parenthesis.
-/

namespace MissionScript

namespace Line

def isNumber (t : Text) : Bool := !t.isEmpty && t.all Text.isAsciiDigit

/-- Whether a word and the one after it belong to one number. -/
def joins (t : Text) (next : Option Text) : Bool :=
  (isNumber t || t == ['-']) && next.any isNumber

/-- Joins each run of digit tokens, and a minus sign directly before one, into one word. -/
def mergeNumbers : List Text → List Text
  | [] => []
  | t :: ts =>
    if joins t ts.head? then
      match mergeNumbers ts with
      | [] => [t]
      | n :: more => (t ++ n) :: more
    else t :: mergeNumbers ts

/-- Whether a space stands between two neighbouring words. -/
def gap (left right : Text) : Bool :=
  !(right == [')'] || right == [','] || right == [';']) && !(left == ['('])

def setWords : List Text → Text
  | [] => []
  | [t] => t
  | t :: u :: more => t ++ (if gap t u then [' '] else []) ++ setWords (u :: more)

def format (words : List Text) : Text := setWords (mergeNumbers words)

end Line

end MissionScript
