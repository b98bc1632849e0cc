import MissionScript.Symbols
import MissionScript.Yaml.Node
import MissionScript.Yaml.Plain
import MissionScript.Yaml.Token.Lexer

/-!
# Symbol tables from YAML

The tables are read off the only document of a text. Fields that are not known are passed over and
a known field may stand only once; of several names for one id the last counts. Numbers must be
unquoted, and any scalar serves as a name with its own text.
-/

namespace MissionScript

namespace SymbolTables

open Yaml (Node)

/-- The node itself, or the one that an alias stands for. -/
def deref (root : Node) : Node → Option Node
  | .alias number => root.anchored? number
  | n => some n

def text? (root : Node) (n : Node) : Option Text := do
  match ← deref root n with
  | .scalar _ _ _ text => some text
  | _ => none

def name? (root : Node) (n : Node) : Option String := (text? root n).map String.ofList

/-- A number is unquoted, or a literal block that is tagged as one. -/
def byte? (root : Node) (n : Node) : Option UInt8 := do
  match ← deref root n with
  | .scalar _ tag style text =>
    if style = .plain ∨ (style = .literal ∧ tag = some "tag:yaml.org,2002:int".toList) then
      let value ← Yaml.Plain.natural? text
      if value < 256 then some (UInt8.ofNat value) else none
    else none
  | _ => none

/-- A plain scalar without characters, as a value that is left out has. -/
def isMissing : Node → Bool
  | .scalar _ _ .plain [] => true
  | _ => false

/-- The entries of a mapping; a missing value is one without entries. -/
def entries? (root : Node) (n : Node) : Option (List (Node × Node)) := do
  let n ← deref root n
  match n with
  | .mapping _ entries => some entries
  | _ => if isMissing n then some [] else none

def items? (root : Node) (n : Node) : Option (List Node) := do
  let n ← deref root n
  match n with
  | .sequence _ items => some items
  | _ => if isMissing n then some [] else none

/-- The value of a field that must not stand twice, if it is there; every key must be a scalar. -/
def field? (root : Node) (name : String) : List (Node × Node) → Option (Option Node)
  | [] => some none
  | (k, v) :: more => do
    let key ← text? root k
    let later ← field? root name more
    if key = name.toList then if later.isSome then none else some (some v) else some later

def required? (root : Node) (name : String) (entries : List (Node × Node)) : Option Node :=
  (field? root name entries).join

def names? (root : Node) (n : Node) : Option (ByteMap String) := do
  let pairs ← (← entries? root n).mapM fun (k, v) => do
    some (← byte? root k, ← name? root v)
  some (ByteMap.ofList pairs)

def functions? (root : Node) (n : Node) : Option FunctionTable := do
  let entries ← entries? root n
  let threshold ← required? root "keyword_threshold" entries
  let names ← required? root "names" entries
  some ⟨← byte? root threshold, ← names? root names⟩

/-- Whether an optional value is absent: unquoted, and without characters or a word for nothing.
With the tag for nothing it must be such a word. -/
def isNothing (n : Node) : Option Bool :=
  match n with
  | .scalar _ none .plain text => some (text.isEmpty || Yaml.Plain.isNull text)
  | .scalar _ (some tag) .plain text =>
    if tag = "tag:yaml.org,2002:null".toList then
      if Yaml.Plain.isNull text then some true else none
    else some false
  | _ => some false

def strings? (root : Node) : Option Node → Option (Option StringTable)
  | none => some none
  | some n => do
    let n ← deref root n
    if ← isNothing n then some none
    else
      let names ← (← items? root n).mapM (name? root)
      match StringTable.ofList names with
      | .ok table => some (some table)
      | .error _ => none

def ofNode? (root : Node) : Option SymbolTables := do
  let entries ← entries? root root
  let functions ← required? root "functions" entries
  let strings ← field? root "strings" entries
  some ⟨← functions? root functions, ← strings? root strings⟩

def ofYaml? (t : Text) : Option SymbolTables :=
  (Yaml.Token.scan t).bind fun tokens => (Node.ofTokens? tokens).bind ofNode?

end SymbolTables

end MissionScript
