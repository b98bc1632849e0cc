import MissionScript.Diagnostics

/-!
# Compiled units

A unit is a header of two little-endian 32-bit numbers followed by segments with a zero byte
between any two. The header's numbers are for information only: what counts is the payload.
-/

namespace MissionScript

structure CompiledUnit where
  dataSize : UInt32
  nullCount : UInt32
  payload : List UInt8
  deriving DecidableEq, Repr

namespace CompiledUnit

def headerSize : Nat := 8

/-- Fewer bytes than a header has. -/
structure TooSmall where
  length : Nat
  deriving DecidableEq, Repr

def TooSmall.message (e : TooSmall) : String :=
  s!"unit too small: {e.length} bytes, need at least {headerSize}"

def le32 (a b c d : UInt8) : UInt32 :=
  UInt32.ofNat (a.toNat + 0x100 * (b.toNat + 0x100 * (c.toNat + 0x100 * d.toNat)))

def parse : List UInt8 → Except TooSmall (Logged CompiledUnit)
  | a :: b :: c :: d :: e :: f :: g :: h :: payload => .ok do
    let unit : CompiledUnit := ⟨le32 a b c d, le32 e f g h, payload⟩
    if unit.dataSize.toNat ≠ payload.length then
      Logged.tell (.sizeMismatch unit.dataSize payload.length)
    pure unit
  | bytes => .error ⟨bytes.length⟩

/-- The bytes of the whole unit, header included. -/
def size (u : CompiledUnit) : Nat := headerSize + u.payload.length

/-- The pieces between zero bytes, empty ones included. -/
def split : List UInt8 → List (List UInt8)
  | [] => [[]]
  | b :: rest =>
    if b = 0 then [] :: split rest
    else match split rest with
      | [] => [[b]]
      | s :: more => (b :: s) :: more

def segments (u : CompiledUnit) : List (List UInt8) := split u.payload

/-- The segments that hold a statement. -/
def statements (u : CompiledUnit) : List (List UInt8) := u.segments.filter (!·.isEmpty)

def segmentCount (u : CompiledUnit) : Nat := u.segments.length

/-- The empty segments in front of the first statement, one for each variable slot. -/
def leadingEmpty (u : CompiledUnit) : Nat := (u.segments.takeWhile (·.isEmpty)).length

end CompiledUnit

end MissionScript
