import MissionScript.Text.Basic

/-!
# Paths

A path is a text of names with slashes between. Repeated slashes, a slash at the end and single
dots that do not start the path make no difference to the names it goes through.
-/

namespace MissionScript

namespace Path

/-- The pieces between slashes, empty ones included. -/
def pieces : Text → List Text
  | [] => [[]]
  | c :: t =>
    if c = '/' then [] :: pieces t
    else match pieces t with
      | [] => [[c]]
      | p :: more => (c :: p) :: more

def isAbsolute (p : Text) : Bool := p.head? == some '/'

/-- The names that a path goes through, with a single dot only at the start. -/
def components (p : Text) : List Text :=
  let lead := if (pieces p).head? == some ['.'] then [['.']] else []
  lead ++ (pieces p).filter fun n => !n.isEmpty && n != ['.']

/-- The last name of a path, unless the path ends by going up or stays where it is. -/
def fileName? (p : Text) : Option Text :=
  (components p).getLast?.filter fun n => n != ['.'] && n != ['.', '.']

/-- A name up to its last dot; a dot in front does not count. -/
def stem (name : Text) : Text :=
  match name.reverse.dropWhile (· != '.') with
  | [] | [_] => name
  | _ :: front => front.reverse

/-- The name of the listing of a unit. -/
def outputName (p : Text) : Text := ((fileName? p).map stem).getD p ++ ".txt".toList

/-- A path continued by another; an absolute one replaces it. -/
def join (dir path : Text) : Text :=
  if isAbsolute path || dir.isEmpty then path
  else if dir.getLast? == some '/' then dir ++ path
  else dir ++ '/' :: path

/-- The path without its last name. -/
def parent? (p : Text) : Option Text :=
  let names := components p
  if names.isEmpty then none
  else some ((if isAbsolute p then ['/'] else []) ++ List.intercalate ['/'] names.dropLast)

end Path

end MissionScript
