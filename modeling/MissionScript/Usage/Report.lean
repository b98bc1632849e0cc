import MissionScript.Usage
import MissionScript.Yaml.Scalar

/-!
# The usage report

The report lists the indices in ascending order with what is known about each; an index on behalf
of no side has no entry for sides.
-/

namespace MissionScript

namespace StringUse

def toYaml (u : StringUse) : Text :=
  (match u.name with
    | some name => Yaml.scalarEntry 2 "name".toList name.toList
    | none => Yaml.wordEntry 2 "name".toList "null".toList)
    ++ Yaml.wordEntry 2 "count".toList (Text.decimal u.count)
    ++ Yaml.listEntry 2 "contexts".toList (u.contexts.toList.map String.toList)
    ++ (if u.sides.toList.isEmpty then []
      else Yaml.listEntry 2 "sides".toList (u.sides.toList.map (·.label.toList)))
    ++ Yaml.listEntry 2 "units".toList (u.units.toList.map String.toList)

end StringUse

namespace Usage

def toYaml (usage : Usage) : Text :=
  if usage.isEmpty then "\x7b\x7d\n".toList
  else usage.toList.flatMap fun (index, use) =>
    Text.decimal index.toNat ++ ":\n".toList ++ use.toYaml

end Usage

end MissionScript
