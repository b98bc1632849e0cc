import MissionScript.Failure
import MissionScript.Usage

/-!
# Unit files

One unit is read from a file, listed under a banner with the file's name, and written to a file or
to standard output. The references of the unit are collected once its listing is out.
-/

namespace MissionScript

/-- A step of the program: its messages stay, also if it fails. -/
abbrev Attempt := ExceptT Failure Logged

namespace Attempt

variable {α ε : Type}

def log (m : Message) : Attempt Unit := ExceptT.lift (Logged.tell m)

def ofLogged (x : Logged α) : Attempt α := ExceptT.lift x

/-- Turns the error of a partial step into a failure. -/
def ofExcept (wrap : ε → Failure) : Except ε α → Attempt α
  | .ok a => pure a
  | .error e => throw (wrap e)

end Attempt

namespace UnitFile

/-- The name under which a unit is listed in a file. -/
def name (path : Text) : Text := (Path.fileName? path).getD path

/-- The name under which a unit is listed on standard output. -/
def nameOnOutput (path : Text) : Text := (Path.fileName? path).getD []

def load (disk : Disk) (path : Text) : Attempt CompiledUnit := do
  let bytes ← Attempt.ofExcept (.read path) (disk.read path)
  let unit ← Attempt.ofExcept (.parse path) (CompiledUnit.parse bytes)
  Attempt.ofLogged unit

/-- The text of a unit's listing under a title. -/
def list (reading : Reading) (title : Text) (unit : CompiledUnit) : Attempt Text := do
  let listing ← Attempt.ofLogged (Listing.ofUnit reading unit)
  pure (listing.renderWithBanner (String.ofList title))

def collect (reading : Reading) (title : Text) (unit : CompiledUnit) : Attempt Usage :=
  Attempt.ofLogged (Usage.collect reading (String.ofList title) unit)

/-- Lists a unit into a file. -/
def decompile (reading : Reading) (disk : Disk) (input output : Text) : Attempt (Usage × Disk) := do
  let unit ← load disk input
  let text ← list reading (name input) unit
  let disk ← Attempt.ofExcept (.write output) (disk.writeText output text)
  let usage ← collect reading (name input) unit
  pure (usage, disk)

/-- Lists a unit on standard output. -/
def decompileToOutput (reading : Reading) (disk : Disk) (input : Text) :
    Attempt (Usage × Text) := do
  let unit ← load disk input
  let text ← list reading (nameOnOutput input) unit
  let usage ← collect reading (nameOnOutput input) unit
  pure (usage, text ++ ['\n'])

/-- Creates the directory in which a path's last name stands. -/
def createParent (disk : Disk) (path : Text) : Attempt Disk :=
  Attempt.ofExcept .createParent (disk.createDirectories ((Path.parent? path).getD []))

/-- Lists a unit into a file, in a directory that is created if need be. -/
def decompileInto (reading : Reading) (disk : Disk) (input output : Text) :
    Attempt (Usage × Disk) := do
  let disk ← createParent disk output
  decompile reading disk input output

end UnitFile

end MissionScript
