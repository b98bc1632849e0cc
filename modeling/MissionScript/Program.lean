import MissionScript.Batch
import MissionScript.CommandLine
import MissionScript.Symbols.BuiltIn
import MissionScript.Symbols.OfYaml
import MissionScript.Symbols.ToYaml
import MissionScript.Usage.Report

/-!
# The program

A run loads the symbol tables, writes them out if asked to, decompiles a unit or a directory of
units, and reports the references. It maps the arguments and the disk to what can be seen of it:
the exit code, the two output streams and the disk afterwards.
-/

namespace MissionScript

namespace Program

/-- What a run changes: the disk and standard output. -/
structure World where
  disk : Disk
  output : Text := []

/-- A run up to some point. A failure keeps what was done before. -/
abbrev Run := ExceptT Failure (StateT World Logged)

/-- A step that yields the disk it leaves behind. -/
def perform {α : Type} (step : Disk → Attempt (α × Disk)) : Run α :=
  ExceptT.mk fun world => do
    let outcome : Except Failure (α × Disk) ← (step world.disk).run
    match outcome with
    | .ok (a, disk) => pure (.ok a, { world with disk })
    | .error failure => pure (.error failure, world)

def print (t : Text) : Run Unit := modify fun w => { w with output := w.output ++ t }

/-- What can be seen of a run. -/
structure Result where
  exit : Nat
  output : Text := []
  log : List Message := []
  errors : List String := []
  disk : Disk

def defaultOutput : Text := "decompiled_missions".toList

def loadTables (options : Options) (disk : Disk) : Attempt (SymbolTables × Disk) := do
  let tables ← match options.symbols with
    | none => pure BuiltIn.tables
    | some path =>
      let text ← Attempt.ofExcept (.readSymbols path) (disk.readText path)
      match SymbolTables.ofYaml? text with
      | some tables => pure tables
      | none => throw (.badSymbols path)
  pure (if options.noStrings then tables.withoutStrings else tables, disk)

def dumpTables (tables : SymbolTables) (path : Text) (disk : Disk) : Attempt (Unit × Disk) := do
  let disk ← Attempt.ofExcept (.writeSymbols path) (disk.writeText path tables.toYaml)
  Attempt.log (.tablesWritten path)
  pure ((), disk)

def reportUsage (usage : Usage) (path : Text) (disk : Disk) : Attempt (Unit × Disk) := do
  let disk ← Attempt.ofExcept (.writeReport path) (disk.writeText path usage.toYaml)
  Attempt.log (.usageReported usage.size path)
  pure ((), disk)

def runBatch (reading : Reading) (inputDir outputDir : Text) (disk : Disk) :
    Attempt (Usage × Disk) := do
  let (summary, disk) ← Batch.run reading disk inputDir outputDir
  Attempt.log (.batchDone summary.decompiled summary.errors)
  pure (summary.usage, disk)

/-- Decompiles one unit: into a file, in a directory that is created if need be, or to standard
output. The directory stays also if the unit fails. -/
def decompileSingle (reading : Reading) (input : Text) : Option Text → Run Usage
  | some output => do
    perform fun disk => do
      pure ((), ← UnitFile.createParent disk output)
    perform fun disk => UnitFile.decompile reading disk input output
  | none => do
    let (usage, text) ← perform fun disk => do
      pure (← UnitFile.decompileToOutput reading disk input, disk)
    print text
    pure usage

/-- Decompiles the input: a directory as a batch, anything else as one unit. -/
def decompile (reading : Reading) (options : Options) : Run Usage := do
  let disk := (← get).disk
  if disk.isDirectory options.input then
    perform (runBatch reading options.input (options.output.getD defaultOutput))
  else decompileSingle reading options.input options.output

def steps (options : Options) : Run Unit := do
  let tables ← perform (loadTables options)
  if let some path := options.dumpSymbols then perform (dumpTables tables path)
  let usage ← decompile ⟨tables, options.markerRule⟩ options
  if let some path := options.report then perform (reportUsage usage path)

/-- The log shows messages for the user, not those about the reading of units. -/
def isShown (m : Message) : Bool := m.level = .info || m.level = .error

def runOptions (disk : Disk) (options : Options) : Result :=
  let r := (steps options).run.run { disk }
  let (outcome, world) := r.value
  let log := r.log.filter isShown
  match outcome with
  | .ok () => { exit := 0, output := world.output, log, disk := world.disk }
  | .error failure =>
    { exit := 1, output := world.output, log, errors := failure.report, disk := world.disk }

/-- Runs the program with the arguments behind its name. -/
def run (disk : Disk) (args : List Text) : Result :=
  match CommandLine.parse args with
  | .ok options => runOptions disk options
  | .error .help => { exit := 0, output := CommandLine.helpText, disk }
  | .error .version => { exit := 0, output := CommandLine.versionText, disk }
  | .error _ => { exit := 2, disk }

end Program

end MissionScript
