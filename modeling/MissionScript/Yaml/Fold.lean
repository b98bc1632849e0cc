import MissionScript.Yaml.Position

/-!
# White space inside a scalar

White space is held back until the next character shows that the scalar goes on. Spaces within a
line are kept; a single line break becomes a space, and of several the first is dropped.
-/

namespace MissionScript

namespace Yaml

inductive Held where
  | none
  | spaces (text : Text)
  | breaks (first more : Text)
  deriving DecidableEq, Repr

namespace Held

def blank (c : Char) : Held → Held
  | none => spaces [c]
  | spaces t => spaces (t ++ [c])
  | breaks first more => breaks first more

def lineBreak (c : Char) : Held → Held
  | breaks first more => breaks first (more ++ [c])
  | _ => breaks [c] []

def isBreaks : Held → Bool
  | breaks .. => true
  | _ => false

/-- The text that the white space becomes between two words. -/
def join : Held → Text
  | none => []
  | spaces t => t
  | breaks first more =>
    if first = ['\n'] then if more.isEmpty then [' '] else more else first ++ more

end Held

end Yaml

end MissionScript
