import MissionScript.UnitFile

/-!
# Batches

A batch lists every unit of a directory into another. The units are independent of each other: a
unit that fails is counted and the others go on. They may be taken up in any order; the summary
goes through them in the order of their paths.
-/

namespace MissionScript

namespace Batch

def isUnitName (name : Text) : Bool :=
  ".tok".toList.isSuffixOf name && name != "header.tok".toList

/-- Goes down a path piece by piece as far as everything on it exists, and yields the path to show:
a single dot at its start is left out. -/
def descend (disk : Disk) (shown : Text) : List Text → Option Text
  | [] => some shown
  | piece :: more =>
    let next := if shown = ['.'] then piece else Path.join shown piece
    let reached :=
      if piece = ['.'] ∨ piece = ['.', '.'] then disk.isDirectory shown else disk.hasEntry next
    if reached then descend disk next more else none

/-- The pieces of a directory's path, where one slash at the end does not count. -/
def directoryPieces (dir : Text) : List Text :=
  let dir := if Path.isAbsolute dir then dir.drop 1 else dir
  if dir.isEmpty then []
  else Path.pieces (if dir.getLast? == some '/' then dir.dropLast else dir)

/-- The paths of the units in a directory, in ascending order of their names. -/
def findUnits (disk : Disk) (dir : Text) : List Text :=
  let start := if Path.isAbsolute dir then ['/'] else ['.']
  match descend disk start (directoryPieces dir) with
  | none => []
  | some shown =>
    match disk.locate shown with
    | .error _ => []
    | .ok target =>
      if disk.isDirectory shown then
        ((disk.names target.location).toList.map String.toList).filter isUnitName |>.map fun name =>
          if shown = ['.'] then name else Path.join shown name
      else []

def output (outputDir unit : Text) : Text := Path.join outputDir (Path.outputName unit)

/-- What became of one unit. -/
abbrev Outcome := Except Failure Usage

/-- Takes up one unit. Its own messages are not part of the batch's log. -/
def runUnit (reading : Reading) (outputDir : Text) (disk : Disk) (unit : Text) : Outcome × Disk :=
  match (UnitFile.decompile reading disk unit (output outputDir unit)).run.value with
  | .ok (usage, disk) => (.ok usage, disk)
  | .error failure => (.error failure, disk)

/-- Takes up units in the given order. -/
def runUnits (reading : Reading) (outputDir : Text) :
    Disk → List Text → List (Text × Outcome) × Disk
  | disk, [] => ([], disk)
  | disk, unit :: more =>
    let (outcome, disk) := runUnit reading outputDir disk unit
    let (outcomes, disk) := runUnits reading outputDir disk more
    ((unit, outcome) :: outcomes, disk)

structure Summary where
  decompiled : Nat := 0
  errors : Nat := 0
  usage : Usage := .empty

/-- Adds the outcome of one unit. -/
def Summary.add (outputDir : Text) (s : Summary) (unit : Text) : Outcome → Logged Summary
  | .ok usage => do
    Logged.tell (.unitWritten (UnitFile.name unit) (output outputDir unit))
    pure { s with decompiled := s.decompiled + 1, usage := s.usage.merge usage }
  | .error failure => do
    Logged.tell (.unitFailed (UnitFile.name unit) failure.line)
    pure { s with errors := s.errors + 1 }

/-- Goes through the units in the order of their paths. -/
def summarize (outputDir : Text) (outcomes : List (Text × Outcome)) (s : Summary) :
    List Text → Logged Summary
  | [] => pure s
  | unit :: more => do
    let s ← match outcomes.lookup unit with
      | some outcome => s.add outputDir unit outcome
      | none => pure s
    summarize outputDir outcomes s more

/-- Runs a batch whose units are taken up in the order that the schedule gives them. -/
def runWith (schedule : List Text → List Text) (reading : Reading) (disk : Disk)
    (inputDir outputDir : Text) : Attempt (Summary × Disk) := do
  let disk ← Attempt.ofExcept (.createOutput outputDir) (disk.createDirectories outputDir)
  let units := findUnits disk inputDir
  Attempt.log (.batchStarted units.length inputDir)
  let (outcomes, disk) := runUnits reading outputDir disk (schedule units)
  let summary ← Attempt.ofLogged (summarize outputDir outcomes {} units)
  pure (summary, disk)

def run (reading : Reading) (disk : Disk) (inputDir outputDir : Text) : Attempt (Summary × Disk) :=
  runWith id reading disk inputDir outputDir

end Batch

end MissionScript
