import MissionScript.NameSet
import MissionScript.Path

/-!
# Files and directories

A disk is a value: the directories and files at each place, and the directory that relative paths
start from. A path is followed name by name, and every name but the last must lead to a directory.
What can go wrong with a path is a cause with the wording of the operating system.
-/

namespace MissionScript

inductive Entry where
  | directory
  | file (bytes : List UInt8)
  deriving DecidableEq, Repr

/-- The names from the root down to a place. -/
abbrev Location := List Text

structure Disk where
  entries : List (Location × Entry) := []
  current : Location := []

namespace Disk

inductive Cause where
  | notFound
  | alreadyExists
  | notDirectory
  | isDirectory
  | zeroInPath
  | invalidText
  deriving DecidableEq, Repr

def Cause.message : Cause → String
  | notFound => "No such file or directory (os error 2)"
  | alreadyExists => "File exists (os error 17)"
  | notDirectory => "Not a directory (os error 20)"
  | isDirectory => "Is a directory (os error 21)"
  | zeroInPath => "file name contained an unexpected NUL byte"
  | invalidText => "stream did not contain valid UTF-8"

/-- What stands at a place; the root is always a directory. -/
def get? (d : Disk) (l : Location) : Option Entry :=
  if l.isEmpty then some .directory else d.entries.lookup l

def put (d : Disk) (l : Location) (e : Entry) : Disk :=
  { d with entries := (l, e) :: d.entries.filter (·.1 != l) }

/-- The names in a directory, in ascending order. -/
def names (d : Disk) (l : Location) : NameSet :=
  (d.entries.filterMap fun e =>
    if e.1.dropLast = l then e.1.getLast?.map String.ofList else none).foldl NameSet.insert .empty

/-! ### Paths -/

def child (l : Location) (name : Text) : Location :=
  if name = ['.'] then l else if name = ['.', '.'] then l.dropLast else l ++ [name]

/-- Goes down from a place by names; what each is looked up in must be a directory. -/
def walk (d : Disk) (l : Location) : List Text → Except Cause Location
  | [] => .ok l
  | name :: more =>
    match d.get? l with
    | some .directory => walk d (child l name) more
    | some (.file _) => .error .notDirectory
    | none => .error .notFound

/-- Where a path leads, whether or not anything stands there. -/
structure Target where
  location : Location
  /-- The path ends with a name and not with dots. -/
  named : Bool
  /-- The path ends with a slash. -/
  slash : Bool

def locate (d : Disk) (path : Text) : Except Cause Target :=
  if path.any (·.toNat == 0) then .error .zeroInPath
  else if path.isEmpty then .error .notFound
  else do
    let names := (Path.pieces path).filter (!·.isEmpty)
    let location ← d.walk (if Path.isAbsolute path then [] else d.current) names
    let named := names.getLast?.any fun n => n != ['.'] && n != ['.', '.']
    .ok ⟨location, named, path.getLast? == some '/'⟩

/-- What stands where a path leads; a file cannot be named with a slash at the end. -/
def entry (d : Disk) (path : Text) : Except Cause Entry := do
  let t ← d.locate path
  match d.get? t.location with
  | none => .error .notFound
  | some .directory => .ok .directory
  | some (.file bytes) => if t.slash then .error .notDirectory else .ok (.file bytes)

def hasEntry (d : Disk) (path : Text) : Bool := (d.entry path).toBool

def isDirectory (d : Disk) (path : Text) : Bool := d.entry path matches .ok .directory

def read (d : Disk) (path : Text) : Except Cause (List UInt8) := do
  match ← d.entry path with
  | .directory => .error .isDirectory
  | .file bytes => .ok bytes

def readText (d : Disk) (path : Text) : Except Cause Text := do
  match String.fromUTF8? ⟨(← d.read path).toArray⟩ with
  | some s => .ok s.toList
  | none => .error .invalidText

/-- Creates or replaces a file in a directory that exists. -/
def write (d : Disk) (path : Text) (bytes : List UInt8) : Except Cause Disk := do
  let t ← d.locate path
  if !t.named || t.slash || d.get? t.location == some .directory then .error .isDirectory
  else .ok (d.put t.location (.file bytes))

def utf8 (t : Text) : List UInt8 := (String.ofList t).toUTF8.toList

def writeText (d : Disk) (path t : Text) : Except Cause Disk := d.write path (utf8 t)

def createDirectory (d : Disk) (path : Text) : Except Cause Disk := do
  let t ← d.locate path
  if !t.named || (d.get? t.location).isSome then .error .alreadyExists
  else .ok (d.put t.location .directory)

/-- Creates a directory and those above it that are missing. The parents of a path are fewer than
its names, which bounds the recursion. -/
def createDirectoriesFrom (d : Disk) : Nat → Text → Except Cause Disk
  | 0, _ => .error .notFound
  | fuel + 1, path =>
    if path.isEmpty then .ok d
    else
      match d.createDirectory path with
      | .ok d => .ok d
      | .error .notFound => do
        let d ← match Path.parent? path with
          | some parent => createDirectoriesFrom d fuel parent
          | none => .error .notFound
        match d.createDirectory path with
        | .ok d => .ok d
        | .error cause => if d.isDirectory path then .ok d else .error cause
      | .error cause => if d.isDirectory path then .ok d else .error cause

def createDirectories (d : Disk) (path : Text) : Except Cause Disk :=
  d.createDirectoriesFrom ((Path.components path).length + 1) path

/-- The entries that are new or differ from an earlier disk, the latest first. -/
def changes (before after : Disk) : List (Location × Entry) :=
  after.entries.filter fun e => before.get? e.1 != some e.2

end Disk

end MissionScript
