import MissionScript.Proofs.DecodeSteps
import MissionScript.Proofs.Pieces
import MissionScript.Symbols.BuiltIn

/-!
# A listing is made from left to right

The statements of a unit are set one after the other, and all that a statement leaves to the later
ones is a slot table and an indent. A step adds to the slot table and changes nothing in it
(`Progress.le_step`), and so does a run (`Progress.le_linesFrom`). A zero byte ends a segment
wherever it stands, so the pieces of two payloads with a zero byte between are the pieces of both
(`split_append`). Hence the listing of a longer unit begins with that of its front part and goes on
from where that one ended (`ofUnit_append`).
-/

namespace MissionScript

/-! ## The segments of a longer payload -/

namespace CompiledUnit

variable {first later whole : CompiledUnit}
  (h : whole.payload = first.payload ++ 0 :: later.payload)

include h

theorem segments_append : whole.segments = first.segments ++ later.segments := by
  rw [segments, h, split_append]
  rfl

theorem statements_append : whole.statements = first.statements ++ later.statements := by
  rw [statements, segments_append h, List.filter_append]
  rfl

theorem segmentCount_append : whole.segmentCount = first.segmentCount + later.segmentCount := by
  rw [segmentCount, segments_append h, List.length_append]
  rfl

end CompiledUnit

/-! ## The slot table along a run -/

namespace SlotTable

/-- Every slot that the first table has a type for has it in the second. -/
def Le (t t' : SlotTable) : Prop := ∀ slot ty, t.get? slot = some ty → t'.get? slot = some ty

theorem Le.refl (t : SlotTable) : t.Le t := fun _ _ h => h

theorem Le.trans {t t' t'' : SlotTable} (h : t.Le t') (h' : t'.Le t'') : t.Le t'' :=
  fun slot ty hty => h' slot ty (h slot ty hty)

theorem le_declare (t : SlotTable) (slot : UInt8) (ty : VarType) : t.Le (t.declare slot ty) := by
  intro slot' ty' hty
  unfold declare
  split_ifs with hc
  · exact hty
  · have hne : slot' ≠ slot := by
      rintro rfl
      exact hc (by rw [ByteMap.contains, hty]; rfl)
    rw [ByteMap.get?_insert, if_neg hne]
    exact hty

theorem le_declared (t : SlotTable) (tokens : List Token) :
    t.Le (Statement.declared t tokens).value := by
  unfold Statement.declared
  split
  · exact t.le_declare _ _
  · exact .refl t

end SlotTable

namespace Listing

variable (reading : Reading)

theorem linesFrom_cons (p : Progress) (segment : List UInt8) (more : List (List UInt8)) :
    (linesFrom reading p (segment :: more)).value
      = ((step reading p segment).value.1
            :: (linesFrom reading (step reading p segment).value.2 more).value.1,
          (linesFrom reading (step reading p segment).value.2 more).value.2) := rfl

/-- A run over some statements and then others goes on from where the first run ended. -/
theorem linesFrom_append : ∀ (segments more : List (List UInt8)) (p : Progress),
    (linesFrom reading p (segments ++ more)).value
      = ((linesFrom reading p segments).value.1
            ++ (linesFrom reading (linesFrom reading p segments).value.2 more).value.1,
          (linesFrom reading (linesFrom reading p segments).value.2 more).value.2)
  | [], _, _ => rfl
  | segment :: segments, more, p => by
    rw [List.cons_append, linesFrom_cons, linesFrom_append segments more, linesFrom_cons]
    rfl

theorem Progress.le_step (p : Progress) (segment : List UInt8) :
    p.slots.Le (step reading p segment).value.2.slots :=
  p.slots.le_declared (reading.tokens segment)

theorem Progress.le_linesFrom : ∀ (segments : List (List UInt8)) (p : Progress),
    p.slots.Le (linesFrom reading p segments).value.2.slots
  | [], p => .refl p.slots
  | segment :: segments, p => by
    rw [linesFrom_cons]
    exact (p.le_step reading segment).trans (Progress.le_linesFrom segments _)

/-- The slot table and the indent behind the last statement of a unit. -/
def reached (unit : CompiledUnit) : Progress := (linesFrom reading {} unit.statements).value.2

theorem value_ofUnit (unit : CompiledUnit) :
    (ofUnit reading unit).value
      = ⟨unit, (linesFrom reading {} unit.statements).value.1, (reached reading unit).slots⟩ := by
  unfold ofUnit
  simp only [Logged.value_bind]
  split_ifs <;> rfl

/-! ## The state in front of each statement -/

theorem length_linesFrom : ∀ (segments : List (List UInt8)) (p : Progress),
    (linesFrom reading p segments).value.1.length = segments.length
  | [], _ => rfl
  | segment :: segments, p => by
    rw [linesFrom_cons, List.length_cons, length_linesFrom segments, List.length_cons]

theorem getElem?_linesFrom : ∀ {segments : List (List UInt8)} {k : Nat} {segment : List UInt8}
    {p : Progress}, segments[k]? = some segment →
      (linesFrom reading p segments).value.1[k]?
          = some (step reading (linesFrom reading p (segments.take k)).value.2 segment).value.1
        ∧ (linesFrom reading p (segments.take (k + 1))).value.2
          = (step reading (linesFrom reading p (segments.take k)).value.2 segment).value.2
  | [], k, segment, p, h => by simp at h
  | first :: segments, 0, segment, p, h => by
    obtain rfl : first = segment := by simpa using h
    exact ⟨rfl, rfl⟩
  | first :: segments, k + 1, segment, p, h => by
    rw [List.getElem?_cons_succ] at h
    obtain ⟨hline, hstate⟩ := getElem?_linesFrom (p := (step reading p first).value.2) h
    simp only [linesFrom_cons, List.take_succ_cons, List.getElem?_cons_succ]
    exact ⟨hline, hstate⟩

/-- The slot table and the indent in front of the statement with the given number. -/
def stateAt (unit : CompiledUnit) (k : Nat) : Progress :=
  (linesFrom reading {} (unit.statements.take k)).value.2

variable {reading} {unit : CompiledUnit} {k : Nat} {segment : List UInt8}

theorem stateAt_zero : stateAt reading unit 0 = {} := rfl

theorem stateAt_of_length_le (h : unit.statements.length ≤ k) :
    stateAt reading unit k = reached reading unit := by
  rw [stateAt, List.take_of_length_le h]
  rfl

theorem stateAt_succ (h : unit.statements[k]? = some segment) :
    stateAt reading unit (k + 1) = (step reading (stateAt reading unit k) segment).value.2 :=
  (getElem?_linesFrom reading h).2

theorem length_lines (reading : Reading) (unit : CompiledUnit) :
    (ofUnit reading unit).value.lines.length = unit.statements.length := by
  rw [value_ofUnit]
  exact length_linesFrom reading unit.statements {}

theorem getElem?_lines (h : unit.statements[k]? = some segment) :
    (ofUnit reading unit).value.lines[k]?
      = some (step reading (stateAt reading unit k) segment).value.1 := by
  rw [value_ofUnit]
  exact (getElem?_linesFrom reading h).1

end Listing

open Listing

/-- The listing of a unit that goes on behind another one's payload begins with the other's lines
and goes on with those of the later statements, read from the slot table and the indent reached so
far; what was declared stays, and the segments add up. -/
theorem ofUnit_append (reading : Reading) (first later whole : CompiledUnit)
    (h : whole.payload = first.payload ++ 0 :: later.payload) :
    (ofUnit reading first).value.lines <+: (ofUnit reading whole).value.lines
      ∧ (∀ slot ty, (ofUnit reading first).value.slots.get? slot = some ty →
          (ofUnit reading whole).value.slots.get? slot = some ty)
      ∧ (reached reading first).slots = (ofUnit reading first).value.slots
      ∧ (ofUnit reading whole).value.lines = (ofUnit reading first).value.lines
          ++ (linesFrom reading (reached reading first) later.statements).value.1
      ∧ (ofUnit reading whole).value.unit.segmentCount
        = first.segmentCount + later.segmentCount := by
  have hrun := linesFrom_append reading first.statements later.statements {}
  rw [← CompiledUnit.statements_append h] at hrun
  have hreached : reached reading whole
      = (linesFrom reading (reached reading first) later.statements).value.2 := by
    rw [reached, hrun]
    rfl
  simp only [value_ofUnit, hreached, true_and]
  refine ⟨?_, ?_, ?_, CompiledUnit.segmentCount_append h⟩
  · rw [hrun]
    exact List.prefix_append _ _
  · exact Progress.le_linesFrom reading later.statements (reached reading first)
  · rw [hrun]
    rfl

/-- The statements `int (v3)` and `if`, and behind them `endif`. -/
theorem ofUnit_append_sample :
    (ofUnit ⟨BuiltIn.tables, .from81⟩
          ⟨9, 1, [0x80, 0xa2, 0x28, 0x81, 0x83, 0x29, 0, 0x80, 0xa5]⟩).value.slots.get? 3
        = some .int
      ∧ (ofUnit ⟨BuiltIn.tables, .from81⟩ ⟨0, 0,
          [0x80, 0xa2, 0x28, 0x81, 0x83, 0x29, 0, 0x80, 0xa5, 0, 0x80, 0xa7]⟩).value.slots.get? 3
        = some .int := by
  have hfirst : (ofUnit ⟨BuiltIn.tables, .from81⟩
      ⟨9, 1, [0x80, 0xa2, 0x28, 0x81, 0x83, 0x29, 0, 0x80, 0xa5]⟩).value.slots.get? 3
        = some .int := by decide +kernel
  obtain ⟨-, hslots, -⟩ := ofUnit_append ⟨BuiltIn.tables, .from81⟩
    ⟨9, 1, [0x80, 0xa2, 0x28, 0x81, 0x83, 0x29, 0, 0x80, 0xa5]⟩ ⟨2, 0, [0x80, 0xa7]⟩
    ⟨0, 0, [0x80, 0xa2, 0x28, 0x81, 0x83, 0x29, 0, 0x80, 0xa5, 0, 0x80, 0xa7]⟩ rfl
  exact ⟨hfirst, hslots 3 .int hfirst⟩

end MissionScript
