import MissionScript.Proofs.DecodeSteps

/-!
# Spans tile their segment

A run of the decoder cuts its segment into pieces, one for each span, and says of every piece how
it was read (`Piece`, `covers_spansFrom`). A dropped marker waits for the slot that it is drawn
into: while markers wait, the next two bytes are one more marker and a byte that the rule drops
markers in front of (`Waits`), so no other token can take them up and none is left at the end.
Hence the spans lie one after the other over the whole segment, a span of three or more bytes is a
slot behind markers, and the higher threshold never draws in more than one (`spans_tile_segment`).
-/

namespace MissionScript

namespace Spanned

/-- The bytes of a segment that a span lies on. -/
def bytes (s : Spanned) (segment : List UInt8) : List UInt8 :=
  (segment.drop s.offset).take s.length

def covers (s : Spanned) (i : Nat) : Bool := s.offset ≤ i && i < s.stop

/-- Spans of at least one byte that lie one after the other from an offset to another. -/
def Tiles : Nat → List Spanned → Nat → Prop
  | start, [], stop => start = stop
  | start, s :: spans, stop => s.offset = start ∧ 0 < s.length ∧ Tiles s.stop spans stop

theorem Tiles.le : ∀ {spans : List Spanned} {start stop : Nat}, Tiles start spans stop →
    start ≤ stop
  | [], start, stop, h => Nat.le_of_eq h
  | s :: spans, start, stop, ⟨hoffset, _, h⟩ => by
    have hle := h.le
    unfold Spanned.stop at hle
    omega

/-- An offset between the ends of a tiling lies in one span of it, and any other in none. -/
theorem Tiles.countP_covers (i : Nat) : ∀ {spans : List Spanned} {start stop : Nat},
    Tiles start spans stop → spans.countP (·.covers i) = if start ≤ i ∧ i < stop then 1 else 0
  | [], start, stop, h => by
    have heq : start = stop := h
    rw [List.countP_nil, if_neg (by omega)]
  | s :: spans, start, stop, ⟨hoffset, hlength, h⟩ => by
    have hle := h.le
    have hcovers : s.covers i = decide (start ≤ i ∧ i < s.stop) := by
      simp [covers, hoffset]
    have hstop : s.stop = start + s.length := by rw [Spanned.stop, hoffset]
    rw [List.countP_cons, h.countP_covers i, hcovers]
    simp only [decide_eq_true_eq]
    split_ifs <;> omega

end Spanned

namespace Decode

open Spanned (Tiles)

variable {rule : MarkerRule} {functions : FunctionTable}

/-- A number of dropped markers that are drawn into the pair of a marker and the given byte: the
last of them was dropped in front of that byte, and every other in front of a marker. -/
def Drawn (rule : MarkerRule) (n : Nat) (s : UInt8) : Prop :=
  (0 < n → rule.threshold ≤ s) ∧ (1 < n → rule.threshold ≤ 0x81)

/-- How the bytes of one span, in front of the bytes behind it, are read as a token. -/
inductive Piece (rule : MarkerRule) (functions : FunctionTable) :
    List UInt8 → List UInt8 → Token → Prop
  | low {b : UInt8} {rest : List UInt8} : b < 0x80 → Piece rule functions [b] rest (.char b)
  | cutOff {p : UInt8} : ¬ p < 0x80 → Piece rule functions [p] [] .terminator
  | pairChar {p s : UInt8} {rest : List UInt8} : ¬ p < 0x80 → s < 0x80 →
      Piece rule functions [p, s] rest (.char s)
  | pair {p s : UInt8} {rest : List UInt8} : ¬ p < 0x80 → ¬ s < 0x80 → ¬ (p = 0x81 ∧ s = 0x81) →
      Piece rule functions [p, s] rest (pairToken functions p s rest).value
  /-- A slot behind the markers that were dropped in front of it. -/
  | slot {n : Nat} {s : UInt8} {rest : List UInt8} : Drawn rule n s → ¬ s < 0x80 →
      (s = 0x81 → rule.drops rest = false) →
      Piece rule functions (List.replicate n 0x81 ++ [0x81, s]) rest (.slot (s - 0x80))

/-- Spans that cut bytes into pieces, the first of them at the given offset. -/
inductive Covers (rule : MarkerRule) (functions : FunctionTable) :
    Nat → List UInt8 → List Spanned → Prop
  | nil {pos : Nat} : Covers rule functions pos [] []
  | cons {pos : Nat} {piece rest : List UInt8} {token : Token} {spans : List Spanned} :
      Piece rule functions piece rest token →
      Covers rule functions (pos + piece.length) rest spans →
      Covers rule functions pos (piece ++ rest) (⟨pos, piece.length, token⟩ :: spans)

/-- Dropped markers that wait in front of the given bytes for the slot that takes them up. -/
def Waits (rule : MarkerRule) (n : Nat) (bytes : List UInt8) : Prop :=
  n = 0 ∨ ∃ s rest, bytes = 0x81 :: s :: rest ∧ Drawn rule n s

theorem Waits.eq_zero {n : Nat} {bytes : List UInt8} (h : Waits rule n bytes)
    (hne : ∀ s rest, bytes = 0x81 :: s :: rest → s < 0x80) : n = 0 := by
  rcases h with hn | ⟨s, rest, hbytes, hdrawn⟩
  · exact hn
  · by_contra hn
    have hthreshold := hdrawn.1 (by omega)
    have hs := hne s rest hbytes
    cases rule <;> simp only [MarkerRule.threshold] at hthreshold <;> grind

theorem Waits.drawn {n : Nat} {s : UInt8} {rest : List UInt8}
    (h : Waits rule n (0x81 :: s :: rest)) : Drawn rule n s := by
  rcases h with rfl | ⟨s', rest', hbytes, hdrawn⟩
  · exact ⟨fun h => absurd h (by omega), fun h => absurd h (by omega)⟩
  · simp only [List.cons.injEq, true_and] at hbytes
    rw [hbytes.1]
    exact hdrawn

/-- A marker that is dropped waits with those before it. -/
theorem Waits.drop {n : Nat} {rest : List UInt8} (h : Waits rule n (0x81 :: 0x81 :: rest))
    (hd : rule.drops rest = true) : Waits rule (n + 1) (0x81 :: rest) := by
  cases rest with
  | nil => simp [MarkerRule.drops] at hd
  | cons b rest =>
    simp only [MarkerRule.drops, List.head?_cons, Option.any_some, decide_eq_true_eq] at hd
    exact Or.inr ⟨b, rest, rfl, fun _ => hd, fun hn => h.drawn.1 (by omega)⟩

theorem Covers.emit (piece : List UInt8) {start stop : Nat} {rest : List UInt8} {token : Token}
    {log : List Message} {later : Logged (List Spanned)}
    (hpiece : Piece rule functions piece rest token) (hstop : stop = start + piece.length)
    (h : Covers rule functions stop rest later.value) :
    Covers rule functions start (piece ++ rest)
      (emit ⟨start, stop - start, token⟩ log later).value := by
  subst hstop
  rw [value_emit, Nat.add_sub_cancel_left]
  exact .cons hpiece h

theorem Covers.emit_drawn {n start : Nat} {s : UInt8} {rest : List UInt8} {token : Token}
    {log : List Message} {later : Logged (List Spanned)}
    (hpiece : Piece rule functions (List.replicate n 0x81 ++ [0x81, s]) rest token)
    (h : Covers rule functions (start + n + 2) rest later.value) :
    Covers rule functions start (List.replicate n 0x81 ++ 0x81 :: s :: rest)
      (Decode.emit ⟨start, start + n + 2 - start, token⟩ log later).value := by
  have hstop : start + n + 2 = start + (List.replicate n (0x81 : UInt8) ++ [0x81, s]).length := by
    simp [Nat.add_assoc]
  have hcovers : Covers rule functions start (List.replicate n 0x81 ++ [0x81, s] ++ rest)
      (Decode.emit ⟨start, start + n + 2 - start, token⟩ log later).value := .emit _ hpiece hstop h
  rwa [List.append_assoc] at hcovers

/-- The spans of a run cut into pieces the markers that wait and the bytes behind them. -/
theorem covers_spansFrom (rule : MarkerRule) (functions : FunctionTable) :
    ∀ (bytes : List UInt8) (n start : Nat), Waits rule n bytes →
      Covers rule functions start (List.replicate n 0x81 ++ bytes)
        (spansFrom rule functions start (start + n) bytes).value
  | [], n, start, h => by
    obtain rfl := h.eq_zero (by simp)
    exact .nil
  | [p], n, start, h => by
    obtain rfl := h.eq_zero (by simp)
    by_cases hp : p < 0x80
    · rw [spansFrom_low hp]
      exact .emit [p] (.low hp) rfl .nil
    · rw [spansFrom_orphan hp]
      exact .emit [p] (.cutOff hp) rfl .nil
  | p :: s :: rest, n, start, h => by
    by_cases hp : p < 0x80
    · obtain rfl := h.eq_zero (by rintro _ _ heq; grind)
      rw [spansFrom_low hp]
      exact .emit [p] (.low hp) rfl
        (covers_spansFrom rule functions (s :: rest) 0 (start + 1) (Or.inl rfl))
    have later := covers_spansFrom rule functions rest 0 (start + n + 2) (Or.inl rfl)
    by_cases hs : s < 0x80
    · obtain rfl := h.eq_zero (by rintro _ _ heq; grind)
      rw [spansFrom_pairChar hp hs]
      exact .emit [p, s] (.pairChar hp hs) rfl later
    by_cases hm : p = 0x81 ∧ s = 0x81
    · obtain ⟨rfl, rfl⟩ := hm
      cases hd : rule.drops rest with
      | false =>
        rw [spansFrom_keptMarker hd]
        have hpiece : Piece rule functions (List.replicate n 0x81 ++ [0x81, 0x81]) rest (.slot 1) :=
          .slot h.drawn hs fun _ => hd
        exact .emit_drawn hpiece later
      | true =>
        rw [spansFrom_droppedMarker hd]
        have hcovers := covers_spansFrom rule functions (0x81 :: rest) (n + 1) start (h.drop hd)
        rw [List.replicate_succ', List.append_assoc] at hcovers
        exact hcovers
    · rw [spansFrom_pair hp hs hm]
      rcases Nat.eq_zero_or_pos n with rfl | hn
      · exact .emit [p, s] (.pair hp hs hm) rfl later
      · -- Markers wait, so the pair is a slot and takes them up.
        obtain rfl : p = 0x81 := by
          rcases h with h | ⟨_, _, hbytes, -⟩
          · omega
          · exact (List.cons.inj hbytes).1
        have hpiece : Piece rule functions (List.replicate n 0x81 ++ [0x81, s]) rest
            (pairToken functions 0x81 s rest).value :=
          .slot h.drawn hs fun heq => absurd ⟨rfl, heq⟩ hm
        exact .emit_drawn hpiece later

theorem covers_decodeSpans (rule : MarkerRule) (functions : FunctionTable) (segment : List UInt8) :
    Covers rule functions 0 segment (decodeSpans rule functions segment).value :=
  covers_spansFrom rule functions segment 0 0 (Or.inl rfl)

/-! ## What the pieces say of the spans -/

theorem Piece.length_pos {piece rest : List UInt8} {token : Token}
    (h : Piece rule functions piece rest token) : 0 < piece.length := by
  cases h <;> simp

theorem Covers.tiles {pos : Nat} {bytes : List UInt8} {spans : List Spanned}
    (h : Covers rule functions pos bytes spans) : Tiles pos spans (pos + bytes.length) := by
  induction h with
  | nil => rfl
  | cons hpiece _ ih =>
    rw [List.length_append, ← Nat.add_assoc]
    exact ⟨rfl, hpiece.length_pos, ih⟩

/-- Each span lies on a piece of the bytes that is read as its token. -/
theorem Covers.piece_of_mem {pos : Nat} {bytes : List UInt8} {spans : List Spanned}
    (h : Covers rule functions pos bytes spans) {s : Spanned} (hs : s ∈ spans) :
    ∃ front piece rest, bytes = front ++ (piece ++ rest) ∧ s.offset = pos + front.length
      ∧ s.length = piece.length ∧ Piece rule functions piece rest s.token := by
  induction h with
  | nil => simp at hs
  | @cons pos piece rest token spans hpiece _ ih =>
    rcases List.mem_cons.1 hs with rfl | hs
    · exact ⟨[], piece, rest, rfl, rfl, rfl, hpiece⟩
    · obtain ⟨front, piece', rest', rfl, hoffset, hlength, hpiece'⟩ := ih hs
      refine ⟨piece ++ front, piece', rest', by simp, ?_, hlength, hpiece'⟩
      rw [hoffset, List.length_append, Nat.add_assoc]

theorem piece_of_mem_decodeSpans {segment : List UInt8} {s : Spanned}
    (hs : s ∈ (decodeSpans rule functions segment).value) :
    s.length = (s.bytes segment).length
      ∧ ∃ rest, Piece rule functions (s.bytes segment) rest s.token := by
  obtain ⟨front, piece, rest, rfl, hoffset, hlength, hpiece⟩ :=
    (covers_decodeSpans rule functions segment).piece_of_mem hs
  have hbytes : s.bytes (front ++ (piece ++ rest)) = piece := by
    rw [Spanned.bytes, hoffset, hlength, Nat.zero_add, List.drop_left, List.take_left]
  rw [hbytes]
  exact ⟨hlength, rest, hpiece⟩

/-- A piece of three or more bytes is a slot behind markers. -/
theorem Piece.eq_slot {piece rest : List UInt8} {token : Token}
    (h : Piece rule functions piece rest token) (hlength : 3 ≤ piece.length) :
    ∃ b : UInt8, 0x80 ≤ b ∧ token = .slot (b - 0x80)
      ∧ piece = List.replicate (piece.length - 1) 0x81 ++ [b] := by
  cases h with
  | low | cutOff | pairChar | pair => simp at hlength
  | @slot n s rest _ hs _ =>
    refine ⟨s, by grind, rfl, ?_⟩
    have hpred : (List.replicate n 0x81 ++ [0x81, s]).length - 1 = n + 1 := by simp
    rw [hpred, List.replicate_succ', List.append_assoc]
    rfl

/-- A marker does not reach the higher threshold, so no second one is dropped in front of it. -/
theorem Piece.length_le {piece rest : List UInt8} {token : Token}
    (h : Piece .from83 functions piece rest token) : piece.length ≤ 3 := by
  cases h with
  | low | cutOff | pairChar | pair => simp
  | @slot n s rest hdrawn _ _ =>
    by_contra hlength
    simp only [List.length_append, List.length_replicate, List.length_cons, List.length_nil]
      at hlength
    exact absurd (hdrawn.2 (by omega)) (by decide)

end Decode

/-- The spans of a segment lie one after the other over all of it, so every byte is in exactly one
of them; a span of three or more bytes is a slot behind markers, and under the higher threshold no
span is longer than that. -/
theorem spans_tile_segment (rule : MarkerRule) (functions : FunctionTable)
    (segment : List UInt8) :
    Spanned.Tiles 0 (decodeSpans rule functions segment).value segment.length
      ∧ (∀ i < segment.length, (decodeSpans rule functions segment).value.countP (·.covers i) = 1)
      ∧ (∀ s ∈ (decodeSpans rule functions segment).value, 3 ≤ s.length →
          ∃ b : UInt8, 0x80 ≤ b ∧ s.token = .slot (b - 0x80)
            ∧ s.bytes segment = List.replicate (s.length - 1) 0x81 ++ [b])
      ∧ ∀ s ∈ (decodeSpans .from83 functions segment).value, s.length ≤ 3 := by
  have htiles : Spanned.Tiles 0 (decodeSpans rule functions segment).value segment.length := by
    simpa using (Decode.covers_decodeSpans rule functions segment).tiles
  refine ⟨htiles, fun i hi => ?_, fun s hs hlength => ?_, fun s hs => ?_⟩
  · rw [htiles.countP_covers i, if_pos ⟨Nat.zero_le i, hi⟩]
  · obtain ⟨heq, rest, hpiece⟩ := Decode.piece_of_mem_decodeSpans hs
    rw [heq] at hlength ⊢
    exact hpiece.eq_slot hlength
  · obtain ⟨heq, rest, hpiece⟩ := Decode.piece_of_mem_decodeSpans hs
    rw [heq]
    exact hpiece.length_le

/-- Two markers are dropped in front of slot 5 under the lower threshold; under the higher one the
first two bytes are slot 1. -/
theorem spans_tile_segment_sample :
    (decodeSpans .from81 ⟨162, .empty⟩ [0x81, 0x81, 0x81, 0x85, 0x41]).value
        = [⟨0, 4, .slot 5⟩, ⟨4, 1, .char 0x41⟩]
      ∧ (decodeSpans .from81 ⟨162, .empty⟩ [0x81, 0x81, 0x81, 0x85, 0x41]).value.countP
          (·.covers 2) = 1
      ∧ (∃ b : UInt8, 0x80 ≤ b ∧ Token.slot 5 = .slot (b - 0x80)
        ∧ Spanned.bytes ⟨0, 4, .slot 5⟩ [0x81, 0x81, 0x81, 0x85, 0x41]
          = List.replicate 3 0x81 ++ [b])
      ∧ (⟨0, 2, .slot 1⟩ : Spanned).length ≤ 3 := by
  obtain ⟨-, honce, hfolded, hshort⟩ :=
    spans_tile_segment .from81 ⟨162, .empty⟩ [0x81, 0x81, 0x81, 0x85, 0x41]
  exact ⟨rfl, honce 2 (by decide), hfolded ⟨0, 4, .slot 5⟩ (by decide) (by decide),
    hshort ⟨0, 2, .slot 1⟩ (by decide)⟩

end MissionScript
