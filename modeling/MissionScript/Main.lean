import MissionScript.Program

/-!
# Running the program

The outer layer: it puts what the options name on a disk value, runs the program on it, and makes
the changes of the run real.
-/

namespace MissionScript

namespace Main

def locationText (l : Location) : String := "/" ++ "/".intercalate (l.map String.ofList)

/-- The names in a real directory, or none if there is no directory. -/
def list? (l : Location) : IO (Option (List Text)) := do
  let path := (← IO.currentDir) / locationText l
  if ← path.isDir then
    return some ((← path.readDir).toList.map (·.fileName.toList))
  else return none

/-- Takes over what stands at a place of the real file system. -/
def load (disk : Disk) (l : Location) : IO Disk := do
  if (← list? l).isSome then return disk.put l .directory
  try
    return disk.put l (.file (← IO.FS.readBinFile (locationText l)).toList)
  catch _ => return disk

/-- Loads the places on the way to a path and, if it is a directory, what that holds. -/
def loadPath (disk : Disk) (path : Text) : IO Disk := do
  let names := (Path.pieces path).filter (!·.isEmpty)
  let start := if Path.isAbsolute path then [] else disk.current
  let mut disk := disk
  let mut place := start
  for name in names do
    place := Disk.child place name
    disk ← load disk place
  for name in (← list? place).getD [] do
    disk ← load disk (place ++ [name])
  return disk

def loadDisk (options : Options) : IO Disk := do
  let current := (Path.pieces (← IO.currentDir).toString.toList).filter (!·.isEmpty)
  let mut disk : Disk := { current }
  for n in List.range current.length do
    disk ← load disk (current.take (n + 1))
  let output := options.output.getD Program.defaultOutput
  let others := [options.symbols, options.dumpSymbols, options.report].filterMap id
  for path in options.input :: output :: others do
    disk ← loadPath disk path
  return disk

def applyChange : Location × Entry → IO Unit
  | (l, .directory) => IO.FS.createDirAll (locationText l)
  | (l, .file bytes) => IO.FS.writeBinFile (locationText l) ⟨bytes.toArray⟩

def run (args : List String) : IO UInt32 := do
  let args := args.map String.toList
  let disk ← match CommandLine.parse args with
    | .ok options => loadDisk options
    | .error _ => pure {}
  let result := Program.run disk args
  (Disk.changes disk result.disk).reverse.forM applyChange
  IO.print (String.ofList result.output)
  result.log.forM fun m => IO.eprintln m.render
  if result.exit = 2 then IO.eprintln "Usage: tok2txt [OPTIONS] --input <INPUT>"
  result.errors.forM IO.eprintln
  return UInt32.ofNat result.exit

end Main

end MissionScript

def main (args : List String) : IO UInt32 := MissionScript.Main.run args
