import MissionScript.Slot
import MissionScript.Text.Quoted

/-!
# Diagnostics

Reading a unit and running the program leave messages behind. A computation that does so returns
them beside its value, in the order in which they arose, so the log is a value like any other.
-/

namespace MissionScript

inductive Level where
  | trace
  | debug
  | info
  | error
  deriving DecidableEq, Repr

def Level.label : Level → String
  | trace => "TRACE"
  | debug => "DEBUG"
  | info => "INFO"
  | error => "ERROR"

inductive Message where
  /-- An id that the function table does not resolve. -/
  | unresolvedId (id : UInt8)
  /-- A pair that the end of its segment cuts off after the first byte. -/
  | orphanPrefix (byte : UInt8)
  /-- A pair of marker bytes before a byte on which the two marker rules part. -/
  | rulesDisagree (offset : Nat) (ahead : UInt8)
  | sizeMismatch (declared : UInt32) (found : Nat)
  | slotDeclared (slot : UInt8) (type : VarType)
  | openBlocks (count : Nat)
  /-- A cleanup rule changed a line. -/
  | cleaned (rule : String) (before after : Text)
  | tablesWritten (path : Text)
  | batchStarted (units : Nat) (directory : Text)
  | unitWritten (name output : Text)
  | unitFailed (name : Text) (reason : String)
  | batchDone (written failed : Nat)
  | usageReported (entries : Nat) (path : Text)
  deriving DecidableEq, Repr

namespace Message

def level : Message → Level
  | unresolvedId _ | cleaned .. => .trace
  | orphanPrefix _ | rulesDisagree .. | sizeMismatch .. | slotDeclared .. | openBlocks _ => .debug
  | tablesWritten _ | batchStarted .. | unitWritten .. | batchDone .. | usageReported .. => .info
  | unitFailed .. => .error

def text : Message → String
  | unresolvedId id => s!"unresolved function/keyword id {id.toNat}"
  | orphanPrefix b => "orphan prefix 0x" ++ String.ofList (Text.hexByte b) ++ " at end of segment"
  | rulesDisagree i b =>
    s!"accumulator marker at {i} followed by 0x" ++ String.ofList (Text.hexByte b)
      ++ ": skip rules disagree"
  | sizeMismatch d n => s!"header data_size {d.toNat} does not match payload length {n}"
  | slotDeclared s ty => s!"slot {s.toNat} declared as " ++ ty.keyword
  | openBlocks n => s!"unit ends with {n} open block(s)"
  | cleaned rule a b =>
    rule ++ ": " ++ String.ofList (Text.quoted a) ++ " -> " ++ String.ofList (Text.quoted b)
  | tablesWritten p => "symbol tables written to " ++ String.ofList p
  | batchStarted n d => s!"decompiling {n} units from " ++ String.ofList d
  | unitWritten n o => "  " ++ String.ofList n ++ " -> " ++ String.ofList o
  | unitFailed n r => "  " ++ String.ofList n ++ ": " ++ r
  | batchDone w f => s!"Done: {w} files decompiled, {f} errors"
  | usageReported n p => s!"{n} string references reported to " ++ String.ofList p

/-- The message as a line of the log. -/
def render (m : Message) : String := m.level.label ++ " " ++ m.text

end Message

/-- A value with the messages that arose on the way to it. -/
structure Logged (α : Type) where
  value : α
  log : List Message := []

namespace Logged

def tell (m : Message) : Logged Unit := ⟨(), [m]⟩

instance : Monad Logged where
  pure a := ⟨a, []⟩
  bind x f :=
    let y := f x.value
    ⟨y.value, x.log ++ y.log⟩

variable {α β : Type}

@[simp]
theorem value_pure (a : α) : (pure a : Logged α).value = a := rfl

@[simp]
theorem log_pure (a : α) : (pure a : Logged α).log = [] := rfl

@[simp]
theorem value_bind (x : Logged α) (f : α → Logged β) : (x >>= f).value = (f x.value).value := rfl

@[simp]
theorem log_bind (x : Logged α) (f : α → Logged β) :
    (x >>= f).log = x.log ++ (f x.value).log := rfl

@[simp]
theorem value_map (f : α → β) (x : Logged α) : (f <$> x).value = f x.value := rfl

@[simp]
theorem log_map (f : α → β) (x : Logged α) : (f <$> x).log = x.log := List.append_nil _

@[simp]
theorem log_tell (m : Message) : (tell m).log = [m] := rfl

end Logged

end MissionScript
