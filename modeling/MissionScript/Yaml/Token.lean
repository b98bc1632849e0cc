import MissionScript.Text.Basic

/-!
# Tokens of YAML

Where a block begins and ends shows in the indentation only; in the token stream both are tokens
of their own, as are the keys of mappings that no indicator announces.
-/

namespace MissionScript

namespace Yaml

inductive ScalarStyle where
  | plain
  | quoted
  | literal
  | folded
  deriving DecidableEq, Repr

inductive Token where
  | versionDirective (major minor : Nat)
  | tagDirective (handle lead : Text)
  | documentStart
  | documentEnd
  | blockSequenceStart
  | blockMappingStart
  | blockEnd
  | flowSequenceStart
  | flowSequenceEnd
  | flowMappingStart
  | flowMappingEnd
  | blockEntry
  | flowEntry
  | key
  | value
  | alias (name : Text)
  | anchor (name : Text)
  | tag (handle suffix : Text)
  | scalar (style : ScalarStyle) (text : Text)
  deriving DecidableEq, Repr

end Yaml

end MissionScript
