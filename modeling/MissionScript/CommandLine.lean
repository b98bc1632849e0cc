import MissionScript.Decode
import MissionScript.Text.Blank

/-!
# The command line

Options take their value as the next argument, behind an equals sign or, for the short ones,
directly. The value of an option is checked once the next option or the end is reached, so of two
faults an unknown argument wins over a bad value in front of it.
-/

namespace MissionScript

def MarkerRule.dropHexMarks : Text → Text
  | '0' :: 'x' :: t => dropHexMarks t
  | t => t

/-- The marker rule that a text names: 81 or 83, in white space and after any number of `0x`. -/
def MarkerRule.ofText (t : Text) : Except Text MarkerRule :=
  let word := dropHexMarks (Text.trim t)
  if word = ['8', '1'] then .ok .from81
  else if word = ['8', '3'] then .ok .from83
  else .error ("unknown marker rule: ".toList ++ word ++ " (expected 81 or 83)".toList)

/-- What the program is asked to do. -/
structure Options where
  input : Text
  output : Option Text := none
  symbols : Option Text := none
  dumpSymbols : Option Text := none
  noStrings : Bool := false
  markerRule : MarkerRule := .from81
  report : Option Text := none
  deriving DecidableEq, Repr

namespace CommandLine

/-- Why no run follows from the arguments. -/
inductive Refusal where
  | missingInput
  | unknownArgument
  /-- A value that is left out, or an empty path. -/
  | invalidValue
  | badMarkerRule
  | repeatedOption
  | valueForFlag
  | help
  | version
  deriving DecidableEq, Repr

inductive Setting where
  | input
  | output
  | symbols
  | dumpSymbols
  | markerRule
  | report
  deriving DecidableEq, Repr

inductive Word where
  | setting (s : Setting)
  | noStrings
  | help
  | version
  deriving DecidableEq, Repr

def long? (name : Text) : Option Word :=
  [("input", Word.setting .input), ("output", .setting .output), ("symbols", .setting .symbols),
    ("dump-symbols", .setting .dumpSymbols), ("no-strings", .noStrings),
    ("marker-rule", .setting .markerRule), ("report", .setting .report), ("help", .help),
    ("version", .version)].lookup (String.ofList name)

def short? (c : Char) : Option Word :=
  [('i', Word.setting .input), ('o', .setting .output), ('h', .help), ('V', .version)].lookup c

/-- The arguments seen so far. -/
structure Progress where
  paths : List (Setting × Text) := []
  markerRule : Option MarkerRule := none
  noStrings : Bool := false
  /-- The last option, with its value if that has been seen, until it is checked. -/
  pending : Option (Setting × Option Text) := none
  /-- Whether a double hyphen was passed. -/
  trailing : Bool := false

namespace Progress

/-- Takes up an option with its value. -/
def accept (p : Progress) (s : Setting) (v : Text) : Except Refusal Progress :=
  if s = .markerRule then
    if p.markerRule.isSome then .error .repeatedOption
    else match MarkerRule.ofText v with
      | .ok rule => .ok { p with markerRule := some rule }
      | .error _ => .error .badMarkerRule
  else if (p.paths.lookup s).isSome then .error .repeatedOption
  else if v.isEmpty then .error .invalidValue
  else .ok { p with paths := (s, v) :: p.paths }

def settle (p : Progress) : Except Refusal Progress :=
  match p.pending with
  | none => .ok p
  | some (_, none) => .error .invalidValue
  | some (s, some v) => { p with pending := none }.accept s v

/-- An option, with its value if that is attached. -/
def option (p : Progress) (w : Word) (attached : Option Text) : Except Refusal Progress :=
  match w, attached with
  | .setting s, some v => do (← p.settle).accept s v
  | .setting s, none => do .ok { ← p.settle with pending := some (s, none) }
  | _, some _ => .error .valueForFlag
  | .noStrings, none => do
    let p ← p.settle
    if p.noStrings then .error .repeatedOption else .ok { p with noStrings := true }
  | .help, none => do let _ ← p.settle; .error .help
  | .version, none => do let _ ← p.settle; .error .version

/-- An argument that is no option: the value of the last one, if that still lacks it. -/
def plainWord (p : Progress) (v : Text) : Except Refusal Progress :=
  match p.pending with
  | some (s, none) => .ok { p with pending := some (s, some v) }
  | _ => .error .unknownArgument

def longOption (p : Progress) (t : Text) : Except Refusal Progress :=
  let attached := match t.dropWhile (· != '=') with
    | _ :: v => some v
    | [] => none
  match long? (t.takeWhile (· != '=')) with
  | some w => p.option w attached
  | none => .error .unknownArgument

/-- A short option; all that follows the letter of a setting is its value. -/
def shortOption (p : Progress) (c : Char) (t : Text) : Except Refusal Progress :=
  match short? c with
  | some (.setting s) =>
    p.option (.setting s) (match t with
      | [] => none
      | '=' :: v => some v
      | v => some v)
  | some w => p.option w none
  | none => .error .unknownArgument

def argument (p : Progress) (t : Text) : Except Refusal Progress :=
  if p.trailing then .error .unknownArgument
  else match t with
    | ['-', '-'] => .ok { p with trailing := true }
    | '-' :: '-' :: t => p.longOption t
    | '-' :: c :: t => p.shortOption c t
    | t => p.plainWord t

def finish (p : Progress) : Except Refusal Options := do
  let p ← p.settle
  match p.paths.lookup .input with
  | none => .error .missingInput
  | some input => .ok {
      input
      output := p.paths.lookup .output
      symbols := p.paths.lookup .symbols
      dumpSymbols := p.paths.lookup .dumpSymbols
      noStrings := p.noStrings
      markerRule := p.markerRule.getD .from81
      report := p.paths.lookup .report }

end Progress

/-- Reads the arguments behind the name of the program. -/
def parse (args : List Text) : Except Refusal Options := do
  (← args.foldlM Progress.argument {}).finish

def versionText : Text := "tok2txt_decompiler 0.1.0\n".toList

def helpLines : List String := [
  "Emperor .tok mission script decompiler",
  "",
  "Usage: tok2txt [OPTIONS] --input <INPUT>",
  "",
  "Options:",
  "  -i, --input <INPUT>                A `.tok` unit, or a directory of them",
  "  -o, --output <OUTPUT>              Output file (single unit, stdout if omitted) or directory (batch)",
  "      --symbols <SYMBOLS>            YAML symbol tables; the built-in tables are used otherwise",
  "      --dump-symbols <DUMP_SYMBOLS>  Write the symbol tables in use to this YAML file",
  "      --no-strings                   Leave `STR[n]` references unresolved",
  "      --marker-rule <MARKER_RULE>    Lookahead threshold for skipping a lone accumulator marker: 81 or 83 [default: 81]",
  "      --report <REPORT>              Write a YAML report of string-table references",
  "  -h, --help                         Print help",
  "  -V, --version                      Print version"]

def helpText : Text := helpLines.flatMap fun line => line.toList ++ ['\n']

end CommandLine

end MissionScript
