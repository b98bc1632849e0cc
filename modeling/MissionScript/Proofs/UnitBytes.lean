import MissionScript.Proofs.Pieces

/-!
# The bytes of a unit

A unit is written as two numbers of four bytes, the lowest byte first, and its segments with a zero
byte between any two (`encode`). Reading the four bytes of a number gives it back, and so does
writing a number that was read (`le32_bytes32`, `bytes32_le32`); cutting at zero bytes and joining
with them undo each other as long as no segment holds one. So bytes that are long enough for a
header are the written form of exactly one unit (`parse_inverts_encode`).
-/

namespace MissionScript

namespace CompiledUnit

/-! ## The numbers of the header -/

/-- The four bytes of a number, the lowest first. -/
def bytes32 (n : UInt32) : List UInt8 :=
  [.ofNat n.toNat, .ofNat (n.toNat / 0x100), .ofNat (n.toNat / 0x10000),
    .ofNat (n.toNat / 0x1000000)]

theorem toNat_le32 (a b c d : UInt8) : (le32 a b c d).toNat
    = a.toNat + 0x100 * (b.toNat + 0x100 * (c.toNat + 0x100 * d.toNat)) := by
  have ha := a.toNat_lt
  have hb := b.toNat_lt
  have hc := c.toNat_lt
  have hd := d.toNat_lt
  rw [le32, UInt32.toNat_ofNat']
  omega

theorem bytes32_le32 (a b c d : UInt8) : bytes32 (le32 a b c d) = [a, b, c, d] := by
  have ha := a.toNat_lt
  have hb := b.toNat_lt
  have hc := c.toNat_lt
  have hd := d.toNat_lt
  simp only [bytes32, toNat_le32, List.cons.injEq, and_true, ← UInt8.toNat_inj, UInt8.toNat_ofNat']
  omega

theorem le32_bytes32 (n : UInt32) :
    le32 (.ofNat n.toNat) (.ofNat (n.toNat / 0x100)) (.ofNat (n.toNat / 0x10000))
      (.ofNat (n.toNat / 0x1000000)) = n := by
  have hn := n.toNat_lt
  rw [← UInt32.toNat_inj, toNat_le32]
  simp only [UInt8.toNat_ofNat']
  omega

/-! ## The segments of the payload -/

theorem split_zero (bytes : List UInt8) : split (0 :: bytes) = [] :: split bytes := by
  simp [split]

theorem exists_split_cons {b : UInt8} (hb : b ≠ 0) (bytes : List UInt8) :
    ∃ piece more, split bytes = piece :: more ∧ split (b :: bytes) = (b :: piece) :: more := by
  obtain ⟨piece, more, hpieces⟩ :=
    List.exists_cons_of_ne_nil (split_eq_splitOn bytes ▸ List.splitOn_ne_nil 0 bytes)
  exact ⟨piece, more, hpieces, by simp [split, hb, hpieces]⟩

theorem length_split : ∀ bytes : List UInt8, (split bytes).length = bytes.count 0 + 1
  | [] => rfl
  | b :: bytes => by
    have ih := length_split bytes
    by_cases hb : b = 0
    · rw [hb, split_zero, List.length_cons, ih, List.count_cons_self]
    · obtain ⟨piece, more, hpieces, hcons⟩ := exists_split_cons hb bytes
      rw [hpieces] at ih
      rw [hcons, List.count_cons_of_ne hb, ← ih, List.length_cons, List.length_cons]

theorem leading_split_of_ne_zero {b : UInt8} (hb : b ≠ 0) (back : List UInt8) :
    ∀ front : List UInt8, (∀ z ∈ front, z = 0) →
      ((split (front ++ b :: back)).takeWhile (·.isEmpty)).length = front.length
  | [], _ => by
    obtain ⟨piece, more, -, hcons⟩ := exists_split_cons hb back
    simp [hcons]
  | z :: front, h => by
    obtain ⟨rfl, hfront⟩ := List.forall_mem_cons.1 h
    rw [List.cons_append, split_zero]
    simpa using leading_split_of_ne_zero hb back front hfront

theorem leading_split_of_zeros : ∀ {bytes : List UInt8}, (∀ z ∈ bytes, z = 0) →
    ((split bytes).takeWhile (·.isEmpty)).length = (split bytes).length
  | [], _ => rfl
  | z :: bytes, h => by
    obtain ⟨rfl, hbytes⟩ := List.forall_mem_cons.1 h
    rw [split_zero]
    simpa using leading_split_of_zeros hbytes

/-! ## Units -/

/-- The bytes of a unit with the given numbers in its header and the given segments. -/
def encode (dataSize nullCount : UInt32) (segments : List (List UInt8)) : List UInt8 :=
  bytes32 dataSize ++ (bytes32 nullCount ++ [0].intercalate segments)

theorem intercalate_segments (unit : CompiledUnit) :
    [0].intercalate unit.segments = unit.payload := by
  rw [segments, split_eq_splitOn]
  exact List.intercalate_splitOn 0

theorem not_mem_of_mem_segments {unit : CompiledUnit} {segment : List UInt8}
    (h : segment ∈ unit.segments) : 0 ∉ segment := by
  rw [segments, split_eq_splitOn] at h
  exact not_mem_of_mem_splitOn h

theorem value_parse_cons (a b c d e f g h : UInt8) (payload : List UInt8) :
    ∃ unit, parse (a :: b :: c :: d :: e :: f :: g :: h :: payload) = .ok unit
      ∧ unit.value = ⟨le32 a b c d, le32 e f g h, payload⟩ := by
  refine ⟨_, rfl, ?_⟩
  dsimp only
  split_ifs <;> rfl

theorem exists_header {bytes : List UInt8} (h : headerSize ≤ bytes.length) :
    ∃ a b c d e f g h payload, bytes = a :: b :: c :: d :: e :: f :: g :: h :: payload := by
  rcases bytes with _ | ⟨_, _ | ⟨_, _ | ⟨_, _ | ⟨_, _ | ⟨_, _ | ⟨_, _ | ⟨_, _ | ⟨_, rest⟩⟩⟩⟩⟩⟩⟩⟩
  case cons.cons.cons.cons.cons.cons.cons.cons => exact ⟨_, _, _, _, _, _, _, _, rest, rfl⟩
  all_goals simp [headerSize] at h

theorem exists_parse {bytes : List UInt8} (h : headerSize ≤ bytes.length) :
    ∃ unit, parse bytes = .ok unit := by
  obtain ⟨_, _, _, _, _, _, _, _, _, rfl⟩ := exists_header h
  exact ⟨_, rfl⟩

theorem parse_of_lt {bytes : List UInt8} (h : bytes.length < headerSize) :
    parse bytes = .error ⟨bytes.length⟩ := by
  unfold parse
  split
  · simp only [List.length_cons, headerSize] at h
    omega
  · rfl

theorem exists_parse_encode (dataSize nullCount : UInt32) (segments : List (List UInt8)) :
    ∃ unit, parse (encode dataSize nullCount segments) = .ok unit
      ∧ unit.value = ⟨dataSize, nullCount, [0].intercalate segments⟩ := by
  obtain ⟨unit, hparse, hvalue⟩ := value_parse_cons
    (.ofNat dataSize.toNat) (.ofNat (dataSize.toNat / 0x100)) (.ofNat (dataSize.toNat / 0x10000))
    (.ofNat (dataSize.toNat / 0x1000000)) (.ofNat nullCount.toNat)
    (.ofNat (nullCount.toNat / 0x100)) (.ofNat (nullCount.toNat / 0x10000))
    (.ofNat (nullCount.toNat / 0x1000000)) ([0].intercalate segments)
  rw [le32_bytes32, le32_bytes32] at hvalue
  exact ⟨unit, hparse, hvalue⟩

end CompiledUnit

open CompiledUnit

/-- Bytes that are long enough for a header are read as a unit, and writing the header and the
segments of this unit gives the bytes back; what is written from a header and segments without zero
bytes is read as just these. Shorter bytes are refused with their length. There is one segment more
than zero bytes in the payload, and those in front of the first statement are as many as the zero
bytes there, or all of them if there is no statement. -/
theorem parse_inverts_encode :
    (∀ bytes : List UInt8, headerSize ≤ bytes.length → ∃ unit, parse bytes = .ok unit
        ∧ bytes = encode unit.value.dataSize unit.value.nullCount unit.value.segments
        ∧ unit.value.payload = bytes.drop headerSize
        ∧ (∀ segment ∈ unit.value.segments, 0 ∉ segment)
        ∧ unit.value.segmentCount = unit.value.payload.count 0 + 1
        ∧ (∀ front b back, unit.value.payload = front ++ b :: back → (∀ z ∈ front, z = 0) → b ≠ 0 →
            unit.value.leadingEmpty = front.length)
        ∧ ((∀ z ∈ unit.value.payload, z = 0) →
            unit.value.leadingEmpty = unit.value.segmentCount))
      ∧ (∀ dataSize nullCount segments, segments ≠ [] → (∀ segment ∈ segments, 0 ∉ segment) →
        ∃ unit, parse (encode dataSize nullCount segments) = .ok unit
          ∧ unit.value.dataSize = dataSize ∧ unit.value.nullCount = nullCount
          ∧ unit.value.segments = segments)
      ∧ ∀ bytes : List UInt8, bytes.length < headerSize → parse bytes = .error ⟨bytes.length⟩ := by
  refine ⟨fun bytes hsize => ?_, fun dataSize nullCount segments hne hzero => ?_,
    fun bytes hsize => parse_of_lt hsize⟩
  · obtain ⟨a, b, c, d, e, f, g, h, payload, rfl⟩ := exists_header hsize
    obtain ⟨unit, hparse, hvalue⟩ := value_parse_cons a b c d e f g h payload
    refine ⟨unit, hparse, ?_, ?_, fun _ => not_mem_of_mem_segments, length_split _, ?_, ?_⟩
    · rw [encode, intercalate_segments, hvalue, bytes32_le32, bytes32_le32]
      rfl
    · rw [hvalue]
      rfl
    · intro front b back hpayload hfront hb
      rw [leadingEmpty, segments, hpayload]
      exact leading_split_of_ne_zero hb back front hfront
    · exact leading_split_of_zeros
  · obtain ⟨unit, hparse, hvalue⟩ := exists_parse_encode dataSize nullCount segments
    refine ⟨unit, hparse, by rw [hvalue], by rw [hvalue], ?_⟩
    rw [CompiledUnit.segments, hvalue, split_eq_splitOn]
    exact List.splitOn_intercalate 0 hzero hne

/-- Two empty segments, a statement and an empty segment at the end, behind a header whose numbers
are out of step with them. -/
theorem parse_inverts_encode_sample :
    (∃ unit, parse [0x34, 0x12, 0, 0, 3, 0, 0, 0x80, 0, 0, 0x61, 0] = .ok unit
        ∧ unit.value.segmentCount = 4 ∧ unit.value.leadingEmpty = 2)
      ∧ (∃ unit, parse [0, 0, 0, 0, 0, 0, 0, 0, 0] = .ok unit
        ∧ unit.value.leadingEmpty = unit.value.segmentCount)
      ∧ (∃ unit, parse (encode 0x1234 0x80000003 [[], [], [0x61], []]) = .ok unit
        ∧ unit.value.dataSize = 0x1234 ∧ unit.value.nullCount = 0x80000003
        ∧ unit.value.segments = [[], [], [0x61], []])
      ∧ parse [1, 2, 3] = .error ⟨3⟩ := by
  obtain ⟨hread, hwritten, hshort⟩ := parse_inverts_encode
  refine ⟨?_, ?_, hwritten 0x1234 0x80000003 _ (by decide) (by decide),
    hshort [1, 2, 3] (by decide)⟩
  · obtain ⟨unit, hparse, -, hpayload, -, hcount, hleading, -⟩ :=
      hread [0x34, 0x12, 0, 0, 3, 0, 0, 0x80, 0, 0, 0x61, 0] (by decide)
    rw [hpayload] at hcount hleading
    exact ⟨unit, hparse, hcount, hleading [0, 0] 0x61 [0] rfl (by simp) (by decide)⟩
  · obtain ⟨unit, hparse, -, hpayload, -, -, -, hzeros⟩ :=
      hread [0, 0, 0, 0, 0, 0, 0, 0, 0] (by decide)
    rw [hpayload] at hzeros
    exact ⟨unit, hparse, hzeros (by simp [headerSize])⟩

end MissionScript
