import MissionScript.CompiledUnit
import MissionScript.Disk

/-!
# Failures of the program

A failure names what was being done and its cause. It shows as a chain of texts, the outermost
first: on one line with colons between, or as a report with the causes below.
-/

namespace MissionScript

inductive Failure where
  | read (path : Text) (cause : Disk.Cause)
  | parse (path : Text) (cause : CompiledUnit.TooSmall)
  | write (path : Text) (cause : Disk.Cause)
  | createOutput (path : Text) (cause : Disk.Cause)
  | createParent (cause : Disk.Cause)
  | readSymbols (path : Text) (cause : Disk.Cause)
  | badSymbols (path : Text)
  | writeSymbols (path : Text) (cause : Disk.Cause)
  | writeReport (path : Text) (cause : Disk.Cause)
  deriving DecidableEq, Repr

namespace Failure

def chain : Failure → List String
  | read p c => ["read " ++ String.ofList p, c.message]
  | parse p c => ["parse " ++ String.ofList p, c.message]
  | write p c => ["write " ++ String.ofList p, c.message]
  | createOutput p c => ["create " ++ String.ofList p, c.message]
  | createParent c => [c.message]
  | readSymbols p c => ["loading symbols: " ++ String.ofList p, "I/O error: " ++ c.message, c.message]
  | badSymbols p =>
    ["loading symbols: " ++ String.ofList p, "symbol table yaml: not a symbol table",
      "not a symbol table"]
  | writeSymbols p c =>
    ["writing symbols: " ++ String.ofList p, "I/O error: " ++ c.message, c.message]
  | writeReport p c => ["writing report: " ++ String.ofList p, c.message]

/-- The failure on one line. -/
def line (f : Failure) : String := ": ".intercalate f.chain

/-- The failure as a report, the causes numbered if there is more than one. -/
def report (f : Failure) : List String :=
  match f.chain with
  | [] => []
  | [only] => ["Error: " ++ only]
  | [outer, cause] => ["Error: " ++ outer, "", "Caused by:", "    " ++ cause]
  | outer :: causes =>
    ["Error: " ++ outer, "", "Caused by:"]
      ++ causes.mapIdx fun i cause => s!"    {i}: " ++ cause

end Failure

end MissionScript
