import MissionScript.Symbols
import MissionScript.Yaml.Scalar

/-!
# Symbol tables as YAML

The tables are written as a mapping with the keyword threshold, the names by id in ascending order,
and the strings in order, each in its shortest block form.
-/

namespace MissionScript

namespace SymbolTables

def nameEntries (names : List (UInt8 × String)) : Text :=
  if names.isEmpty then "  names: \x7b\x7d\n".toList
  else "  names:\n".toList ++ names.flatMap fun (id, name) =>
    Yaml.scalarEntry 4 (Text.decimal id.toNat) name.toList

def stringEntries : Option StringTable → Text
  | none => "strings: null\n".toList
  | some table => Yaml.listEntry 0 "strings".toList (table.names.map String.toList)

def toYaml (t : SymbolTables) : Text :=
  "functions:\n".toList
    ++ Yaml.wordEntry 2 "keyword_threshold".toList (Text.decimal t.functions.keywordThreshold.toNat)
    ++ nameEntries t.functions.names.toList
    ++ stringEntries t.strings

end SymbolTables

end MissionScript
