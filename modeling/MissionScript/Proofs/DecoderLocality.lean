import MissionScript.Proofs.SpanTiling

/-!
# The decoder is local

A piece in front of some bytes is read as one span, and what is behind it is read as if it were a
segment of its own (`spans_of_piece`). So the way in which a segment is cut into pieces settles its
spans (`Covers.eq_shift`), and from the offset of any span on the decoder goes on as at the start of
a segment. A piece is told from the two bytes behind it at most (`Piece.congr`), so segments that
begin alike have the same spans up to two bytes in front of the place where they may part
(`spans_of_suffix_and_prefix`).
-/

namespace MissionScript

/-- The span as it lies behind the given number of bytes. -/
def Spanned.shift (n : Nat) (s : Spanned) : Spanned := { s with offset := n + s.offset }

namespace Decode

variable {rule : MarkerRule} {functions : FunctionTable}

/-! ## Spans behind other bytes -/

theorem shift_emit (n : Nat) {start pos width : Nat} {token : Token} {log log' : List Message}
    {later later' : Logged (List Spanned)} (h : later'.value = later.value.map (·.shift n)) :
    (emit ⟨n + start, n + pos + width - (n + start), token⟩ log' later').value
      = (emit ⟨start, pos + width - start, token⟩ log later).value.map (·.shift n) := by
  have hlength : n + pos + width - (n + start) = pos + width - start := by omega
  rw [value_emit, value_emit, List.map_cons, h, hlength]
  rfl

/-- The offsets count from where the run began. -/
theorem spansFrom_shift (rule : MarkerRule) (functions : FunctionTable) (n : Nat) :
    ∀ (bytes : List UInt8) (start pos : Nat),
      (spansFrom rule functions (n + start) (n + pos) bytes).value
        = (spansFrom rule functions start pos bytes).value.map (·.shift n)
  | [], start, pos => rfl
  | [p], start, pos => by
    by_cases hp : p < 0x80
    · rw [spansFrom_low hp, spansFrom_low hp]
      exact shift_emit n rfl
    · rw [spansFrom_orphan hp, spansFrom_orphan hp]
      exact shift_emit n rfl
  | p :: s :: rest, start, pos => by
    by_cases hp : p < 0x80
    · rw [spansFrom_low hp, spansFrom_low hp]
      exact shift_emit n (spansFrom_shift rule functions n (s :: rest) (pos + 1) (pos + 1))
    have later := spansFrom_shift rule functions n rest (pos + 2) (pos + 2)
    by_cases hs : s < 0x80
    · rw [spansFrom_pairChar hp hs, spansFrom_pairChar hp hs]
      exact shift_emit n later
    by_cases hm : p = 0x81 ∧ s = 0x81
    · obtain ⟨rfl, rfl⟩ := hm
      cases hd : rule.drops rest with
      | false =>
        rw [spansFrom_keptMarker hd, spansFrom_keptMarker hd]
        exact shift_emit n later
      | true =>
        rw [spansFrom_droppedMarker hd, spansFrom_droppedMarker hd]
        exact spansFrom_shift rule functions n (0x81 :: rest) start (pos + 1)
    · rw [spansFrom_pair hp hs hm, spansFrom_pair hp hs hm]
      exact shift_emit n later

theorem spansFrom_eq_shift (n : Nat) (bytes : List UInt8) :
    (spansFrom rule functions n n bytes).value
      = (decodeSpans rule functions bytes).value.map (·.shift n) :=
  spansFrom_shift rule functions n bytes 0 0

/-! ## One piece in front of the rest -/

theorem replicate_append_cons (n : Nat) (b : UInt8) (bytes : List UInt8) :
    List.replicate n b ++ b :: bytes = b :: (List.replicate n b ++ bytes) := by
  rw [← List.cons_append, ← List.replicate_succ, List.replicate_succ', List.append_assoc]
  rfl

theorem Drawn.of_succ {n : Nat} {s : UInt8} (h : Drawn rule (n + 1) s) : Drawn rule n s :=
  ⟨fun _ => h.1 (by omega), fun _ => h.2 (by omega)⟩

/-- A marker in front of others that are drawn into a slot is dropped. -/
theorem Drawn.drops {n : Nat} {s : UInt8} (h : Drawn rule (n + 1) s) (rest : List UInt8) :
    rule.drops (List.replicate n 0x81 ++ s :: rest) = true := by
  cases n with
  | zero => simpa [MarkerRule.drops] using h.1 (by omega)
  | succ n => simpa [MarkerRule.drops, List.replicate_succ] using h.2 (by omega)

theorem spansFrom_slot {s : UInt8} {rest : List UInt8} (hs : ¬ s < 0x80)
    (hkept : s = 0x81 → rule.drops rest = false) (start pos : Nat) :
    (spansFrom rule functions start pos (0x81 :: s :: rest)).value
      = ⟨start, pos + 2 - start, .slot (s - 0x80)⟩
          :: (spansFrom rule functions (pos + 2) (pos + 2) rest).value := by
  by_cases hm : s = 0x81
  · subst hm
    rw [spansFrom_keptMarker (hkept rfl)]
    rfl
  · rw [spansFrom_pair (by decide) hs fun h => hm h.2]
    rfl

/-- Markers that are drawn into a slot are read with it. -/
theorem spansFrom_drawn {s : UInt8} {rest : List UInt8} (hs : ¬ s < 0x80)
    (hkept : s = 0x81 → rule.drops rest = false) (start : Nat) :
    ∀ (n pos : Nat), Drawn rule n s →
      (spansFrom rule functions start pos (List.replicate n 0x81 ++ 0x81 :: s :: rest)).value
        = ⟨start, pos + n + 2 - start, .slot (s - 0x80)⟩
            :: (spansFrom rule functions (pos + n + 2) (pos + n + 2) rest).value
  | 0, pos, _ => spansFrom_slot hs hkept start pos
  | n + 1, pos, h => by
    have ih := spansFrom_drawn hs hkept start n (pos + 1) h.of_succ
    rw [replicate_append_cons] at ih
    rw [List.replicate_succ, List.cons_append, replicate_append_cons,
      spansFrom_droppedMarker (h.drops rest), ih, show pos + (n + 1) = pos + 1 + n by omega]

theorem spansFrom_of_piece {piece rest : List UInt8} {token : Token}
    (h : Piece rule functions piece rest token) :
    (spansFrom rule functions 0 0 (piece ++ rest)).value
      = ⟨0, piece.length, token⟩
          :: (spansFrom rule functions piece.length piece.length rest).value := by
  cases h with
  | low hb => exact congrArg Logged.value (spansFrom_low hb rest)
  | cutOff hp => exact congrArg Logged.value (spansFrom_orphan hp)
  | pairChar hp hs => exact congrArg Logged.value (spansFrom_pairChar hp hs rest)
  | pair hp hs hm => exact congrArg Logged.value (spansFrom_pair hp hs hm rest)
  | @slot n s rest hdrawn hs hkept =>
    have hlength : (List.replicate n 0x81 ++ [0x81, s]).length = n + 2 := by simp
    rw [List.append_assoc, hlength]
    simpa using spansFrom_drawn hs hkept 0 n 0 hdrawn

/-- A piece is read as one span, and what is behind it as a segment of its own. -/
theorem spans_of_piece {piece rest : List UInt8} {token : Token}
    (h : Piece rule functions piece rest token) (pos : Nat) :
    (decodeSpans rule functions (piece ++ rest)).value.map (·.shift pos)
      = ⟨pos, piece.length, token⟩
          :: (decodeSpans rule functions rest).value.map (·.shift (pos + piece.length)) := by
  rw [decodeSpans, spansFrom_of_piece h, spansFrom_eq_shift, List.map_cons, List.map_map]
  congr 1
  refine List.map_congr_left fun s _ => ?_
  simp only [Function.comp, Spanned.shift, Nat.add_assoc]

/-- A cut into pieces settles the spans. -/
theorem Covers.eq_shift {pos : Nat} {bytes : List UInt8} {spans : List Spanned}
    (h : Covers rule functions pos bytes spans) :
    spans = (decodeSpans rule functions bytes).value.map (·.shift pos) := by
  induction h with
  | nil => rfl
  | cons hpiece _ ih => rw [spans_of_piece hpiece, ← ih]

/-! ## From a span on -/

theorem Covers.drop {pos : Nat} {bytes : List UInt8} {spans : List Spanned}
    (h : Covers rule functions pos bytes spans) : ∀ {k : Nat} {s : Spanned}, spans[k]? = some s →
      ∃ front rest, bytes = front ++ rest ∧ s.offset = pos + front.length
        ∧ Covers rule functions s.offset rest (spans.drop k) := by
  induction h with
  | nil => simp
  | @cons pos piece rest token spans hpiece hrest ih =>
    intro k s hs
    cases k with
    | zero =>
      obtain rfl := Option.some.inj hs
      exact ⟨[], piece ++ rest, rfl, rfl, .cons hpiece hrest⟩
    | succ k =>
      obtain ⟨front, rest', rfl, hoffset, hdrop⟩ := ih hs
      refine ⟨piece ++ front, rest', (List.append_assoc _ _ _).symm, ?_, hdrop⟩
      rw [hoffset, List.length_append, Nat.add_assoc]

/-! ## Two bytes ahead -/

theorem head?_congr {rest rest' : List UInt8} (h : rest.take 2 = rest'.take 2) :
    rest.head? = rest'.head? := by
  have := congrArg List.head? h
  simpa [List.head?_take] using this

theorem isPrefixOf_congr {a b : UInt8} {rest rest' : List UInt8}
    (h : rest.take 2 = rest'.take 2) :
    [a, b].isPrefixOf rest = [a, b].isPrefixOf rest' := by
  have htake : ∀ bytes : List UInt8,
      [a, b].isPrefixOf bytes = [a, b].isPrefixOf (bytes.take 2)
    | [] | [_] | _ :: _ :: _ => rfl
  rw [htake rest, htake rest', h]

theorem pairToken_congr {p s : UInt8} {rest rest' : List UInt8}
    (h : rest.take 2 = rest'.take 2) :
    pairToken functions p s rest = pairToken functions p s rest' := by
  unfold pairToken extended
  rw [isPrefixOf_congr h, head?_congr h]

theorem drops_congr {rest rest' : List UInt8} (h : rest.take 2 = rest'.take 2) :
    rule.drops rest = rule.drops rest' := by
  unfold MarkerRule.drops
  rw [head?_congr h]

/-- How a piece is read depends on the two bytes behind it at most. -/
theorem Piece.congr {piece rest rest' : List UInt8} {token : Token}
    (h : Piece rule functions piece rest token) (htake : rest.take 2 = rest'.take 2) :
    Piece rule functions piece rest' token := by
  cases h with
  | low hb => exact .low hb
  | cutOff hp =>
    obtain rfl : rest' = [] := by
      cases rest' with
      | nil => rfl
      | cons b rest' => simp at htake
    exact .cutOff hp
  | pairChar hp hs => exact .pairChar hp hs
  | pair hp hs hm =>
    rw [pairToken_congr htake]
    exact .pair hp hs hm
  | slot hdrawn hs hkept =>
    exact .slot hdrawn hs fun heq => (drops_congr htake).symm.trans (hkept heq)

theorem Covers.lt_stop {pos : Nat} {bytes : List UInt8} {spans : List Spanned}
    (h : Covers rule functions pos bytes spans) {s : Spanned} (hs : s ∈ spans) : pos < s.stop := by
  obtain ⟨front, piece, rest, -, hoffset, hlength, hpiece⟩ := h.piece_of_mem hs
  have := hpiece.length_pos
  rw [Spanned.stop, hoffset, hlength]
  omega

/-- Bytes that agree with others beyond a piece in front begin with this piece. -/
theorem exists_append_of_take {piece rest bytes : List UInt8} {n : Nat}
    (htake : (piece ++ rest).take n = bytes.take n) (hn : piece.length ≤ n) :
    ∃ rest', bytes = piece ++ rest'
      ∧ rest.take (n - piece.length) = rest'.take (n - piece.length) := by
  have hfront : piece <+: bytes.take n := by
    rw [← htake, List.take_append, List.take_of_length_le hn]
    exact List.prefix_append _ _
  obtain ⟨rest', rfl⟩ := hfront.trans (List.take_prefix n bytes)
  refine ⟨rest', rfl, ?_⟩
  rw [List.take_append, List.take_append] at htake
  exact List.append_cancel_left htake

/-- Bytes that agree with others have the same spans up to two bytes before the end of what
agrees. -/
theorem Covers.getElem?_congr {pos : Nat} {bytes : List UInt8} {spans : List Spanned}
    (h : Covers rule functions pos bytes spans) :
    ∀ {bytes' : List UInt8} {n k : Nat} {s : Spanned}, bytes.take n = bytes'.take n →
      spans[k]? = some s → s.stop + 2 ≤ pos + n →
      ((decodeSpans rule functions bytes').value.map (·.shift pos))[k]? = some s := by
  induction h with
  | nil => simp
  | @cons pos piece rest token spans hpiece hrest ih =>
    intro bytes' n k s htake hs hstop
    have hpiece_le : pos + piece.length ≤ s.stop := by
      cases k with
      | zero =>
        obtain rfl := Option.some.inj hs
        exact Nat.le_refl _
      | succ k => exact Nat.le_of_lt (hrest.lt_stop (List.mem_of_getElem? hs))
    obtain ⟨rest', rfl, htake'⟩ := exists_append_of_take htake (by omega)
    have hahead : rest.take 2 = rest'.take 2 := by
      have := congrArg (List.take 2) htake'
      rwa [List.take_take, List.take_take, Nat.min_eq_left (by omega)] at this
    rw [spans_of_piece (hpiece.congr hahead)]
    cases k with
    | zero => exact hs
    | succ k => exact ih htake' hs (by omega)

end Decode

/-- The decoder is local: from the offset of any of its spans on it reads a segment as if it began
there, and a segment that agrees with it on its first bytes has the same spans at the same places,
as far as they end two bytes before the end of what agrees. -/
theorem spans_of_suffix_and_prefix (rule : MarkerRule) (functions : FunctionTable)
    (segment : List UInt8) {k : Nat} {s : Spanned}
    (hs : (decodeSpans rule functions segment).value[k]? = some s) :
    (decodeSpans rule functions segment).value.drop k
        = (decodeSpans rule functions (segment.drop s.offset)).value.map (·.shift s.offset)
      ∧ ∀ (segment' : List UInt8) (n : Nat), n ≤ segment.length → n ≤ segment'.length →
          segment.take n = segment'.take n → s.stop + 2 ≤ n →
          (decodeSpans rule functions segment').value[k]? = some s := by
  have hcovers := Decode.covers_decodeSpans rule functions segment
  constructor
  · obtain ⟨front, rest, rfl, hoffset, hdrop⟩ := hcovers.drop hs
    rw [hdrop.eq_shift, hoffset, Nat.zero_add, List.drop_left]
  · intro segment' n _ _ htake hstop
    have hcongr := hcovers.getElem?_congr htake hs (by omega)
    simpa [Spanned.shift] using hcongr

/-- The first two bytes are a call because of the two bytes behind them, so a change of the third
byte behind them keeps the call. -/
theorem spans_of_suffix_and_prefix_sample :
    (decodeSpans .from81 ⟨162, .empty⟩ [0x80, 0xad, 0x80, 0x28, 0x81, 0x81, 0x83]).value[0]?
        = some ⟨0, 2, .unknown 0x2d⟩
      ∧ (decodeSpans .from81 ⟨162, .empty⟩ [0x80, 0xad, 0x80, 0x28, 0x82]).value[0]?
        = some ⟨0, 2, .unknown 0x2d⟩ := by
  have hs : (decodeSpans .from81 ⟨162, .empty⟩
      [0x80, 0xad, 0x80, 0x28, 0x81, 0x81, 0x83]).value[0]? = some ⟨0, 2, .unknown 0x2d⟩ := rfl
  obtain ⟨-, hagree⟩ := spans_of_suffix_and_prefix .from81 ⟨162, .empty⟩
    [0x80, 0xad, 0x80, 0x28, 0x81, 0x81, 0x83] hs
  exact ⟨hs, hagree [0x80, 0xad, 0x80, 0x28, 0x82] 4 (by decide) (by decide) rfl (by decide)⟩

end MissionScript
