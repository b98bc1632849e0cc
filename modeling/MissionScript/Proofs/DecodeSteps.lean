import MissionScript.Listing
import Mathlib.Tactic.Common

/-!
# The steps of the decoder

One equation for each way the decoder can go on from a byte: a low byte stands for itself, a high
byte at the end is cut off, a pair with a low second byte is that character, and a pair of high
bytes is a token of its own (`pairToken`) unless it is a doubled marker, whose first byte the
marker rule may drop. Together they cover every segment, and the marker rule and the offset matter
at a doubled marker only. What the token of a pair can be is said once (`pairToken_cases`). Every
name among the tokens is the one that the function table has for its id
(`Reading.name?_of_mem_tokens`).
-/

namespace MissionScript

/-- Whether the first byte of a doubled marker is dropped in front of the given bytes. -/
def MarkerRule.drops (rule : MarkerRule) (ahead : List UInt8) : Bool :=
  ahead.head?.any (rule.threshold ≤ ·)

namespace Decode

variable {rule : MarkerRule} {functions : FunctionTable} {start pos : Nat}

/-- The token of a pair of high bytes that is no doubled marker. -/
def pairToken (functions : FunctionTable) (p s : UInt8) (ahead : List UInt8) : Logged Token :=
  if p = 0x80 then
    lookup functions (bif [0x80, 0x28].isPrefixOf ahead then s - 0x80 else s)
  else if p = 0x81 then pure (.slot (s - 0x80))
  else if p = 0x82 then pure (.stringRef (s - 0x80))
  else extended functions p s ahead

/-- The messages of a doubled marker, the same under both rules. -/
def markerLog (offset : Nat) : List UInt8 → List Message
  | [] => []
  | b :: _ => if rulesPart b then [.rulesDisagree offset b] else []

theorem highPair_eq {p s : UInt8} (h : ¬ (p = 0x81 ∧ s = 0x81)) (offset : Nat)
    (ahead : List UInt8) :
    highPair rule functions offset p s ahead = some <$> pairToken functions p s ahead := by
  unfold highPair pairToken
  by_cases h0 : p = 0x80
  · simp only [h0, if_true, cond_eq_ite]
  rw [if_neg h0, if_neg h0]
  split_ifs with h1 h2
  · exact absurd ⟨h1, h2⟩ h
  · rfl
  · rfl
  · rfl

/-- What a pair from 0x83 on can be. -/
theorem extended_cases (functions : FunctionTable) (p s : UInt8) (ahead : List UInt8) :
    (∃ id, extended functions p s ahead = lookup functions id)
      ∨ (∃ text, functions.keyword? p = some text
          ∧ extended functions p s ahead = pure (.name p text))
      ∨ extended functions p s ahead = pure (.slot (p - 0x80))
      ∨ (s ≠ 0x80 ∧ extended functions p s ahead = pure (.integer (s - 0x80))) := by
  unfold extended
  cases functions.keyword? p with
  | some text =>
    simp only []
    split_ifs
    · exact Or.inl ⟨_, rfl⟩
    · exact Or.inr (Or.inl ⟨text, rfl, rfl⟩)
    · exact Or.inr (Or.inl ⟨text, rfl, rfl⟩)
  | none =>
    simp only []
    split_ifs with hs
    · exact Or.inl ⟨_, rfl⟩
    · exact Or.inr (Or.inr (Or.inl rfl))
    · exact Or.inl ⟨_, rfl⟩
    · exact Or.inr (Or.inr (Or.inr ⟨hs, rfl⟩))

/-- What a pair of high bytes that is no doubled marker can be. Only a look-up leaves messages. -/
theorem pairToken_cases (functions : FunctionTable) (p s : UInt8) (ahead : List UInt8) :
    (∃ id, pairToken functions p s ahead = lookup functions id)
      ∨ (∃ text, functions.keyword? p = some text
          ∧ pairToken functions p s ahead = pure (.name p text))
      ∨ (∃ b, (b = p ∨ b = s) ∧ pairToken functions p s ahead = pure (.slot (b - 0x80)))
      ∨ (p = 0x82 ∧ pairToken functions p s ahead = pure (.stringRef (s - 0x80)))
      ∨ (s ≠ 0x80 ∧ pairToken functions p s ahead = pure (.integer (s - 0x80))) := by
  unfold pairToken
  split_ifs with h80 h81 h82
  · exact Or.inl ⟨_, rfl⟩
  · exact Or.inr (Or.inr (Or.inl ⟨s, Or.inr rfl, rfl⟩))
  · exact Or.inr (Or.inr (Or.inr (Or.inl ⟨h82, rfl⟩)))
  · rcases extended_cases functions p s ahead with h | h | h | h
    · exact Or.inl h
    · exact Or.inr (Or.inl h)
    · exact Or.inr (Or.inr (Or.inl ⟨p, Or.inl rfl, h⟩))
    · exact Or.inr (Or.inr (Or.inr (Or.inr h)))

theorem doubledMarker_eq (offset : Nat) (ahead : List UInt8) :
    doubledMarker rule offset ahead
      = ⟨if rule.drops ahead then none else some (.slot 1), markerLog offset ahead⟩ := by
  cases ahead with
  | nil => rfl
  | cons b ahead =>
    simp only [doubledMarker, markerLog, MarkerRule.drops, List.head?_cons, Option.any_some,
      decide_eq_true_eq]
    split_ifs <;> rfl

/-- One more span in front, with the messages that came before the later ones. -/
def emit (span : Spanned) (log : List Message) (later : Logged (List Spanned)) :
    Logged (List Spanned) := ⟨span :: later.value, log ++ later.log⟩

@[simp]
theorem value_emit (span : Spanned) (log : List Message) (later : Logged (List Spanned)) :
    (emit span log later).value = span :: later.value := rfl

@[simp]
theorem log_emit (span : Spanned) (log : List Message) (later : Logged (List Spanned)) :
    (emit span log later).log = log ++ later.log := rfl

theorem map_cons_eq_emit (span : Spanned) (later : Logged (List Spanned)) :
    (span :: ·) <$> later = emit span [] later := by
  simp only [Functor.map, Function.comp, List.append_nil]
  rfl

theorem spansFrom_low {p : UInt8} (hp : p < 0x80) (rest : List UInt8) :
    spansFrom rule functions start pos (p :: rest)
      = emit ⟨start, pos + 1 - start, .char p⟩ []
          (spansFrom rule functions (pos + 1) (pos + 1) rest) := by
  rw [← map_cons_eq_emit]
  cases rest with
  | nil =>
    rw [spansFrom.eq_2, if_pos hp, spansFrom.eq_1]
    rfl
  | cons s rest =>
    rw [spansFrom.eq_3, if_pos hp]
    rfl

theorem spansFrom_orphan {p : UInt8} (hp : ¬ p < 0x80) :
    spansFrom rule functions start pos [p]
      = emit ⟨start, pos + 1 - start, .terminator⟩ [.orphanPrefix p] (pure []) := by
  rw [spansFrom.eq_2, if_neg hp]
  rfl

theorem spansFrom_pairChar {p s : UInt8} (hp : ¬ p < 0x80) (hs : s < 0x80) (rest : List UInt8) :
    spansFrom rule functions start pos (p :: s :: rest)
      = emit ⟨start, pos + 2 - start, .char s⟩ []
          (spansFrom rule functions (pos + 2) (pos + 2) rest) := by
  rw [← map_cons_eq_emit, spansFrom.eq_3, if_neg hp, if_pos hs]
  rfl

theorem spansFrom_pair {p s : UInt8} (hp : ¬ p < 0x80) (hs : ¬ s < 0x80)
    (h : ¬ (p = 0x81 ∧ s = 0x81)) (rest : List UInt8) :
    spansFrom rule functions start pos (p :: s :: rest)
      = emit ⟨start, pos + 2 - start, (pairToken functions p s rest).value⟩
          (pairToken functions p s rest).log
          (spansFrom rule functions (pos + 2) (pos + 2) rest) := by
  rw [spansFrom.eq_3, if_neg hp, if_neg hs, highPair_eq h]
  simp only [emit, bind, Functor.map, Function.comp, pure, List.append_nil]

theorem spansFrom_keptMarker {rest : List UInt8} (h : rule.drops rest = false) :
    spansFrom rule functions start pos (0x81 :: 0x81 :: rest)
      = emit ⟨start, pos + 2 - start, .slot 1⟩ (markerLog pos rest)
          (spansFrom rule functions (pos + 2) (pos + 2) rest) := by
  rw [spansFrom.eq_3, if_neg (by decide), if_neg (by decide)]
  simp only [highPair, doubledMarker_eq, h]
  simp [emit, bind, pure]

theorem spansFrom_droppedMarker {rest : List UInt8} (h : rule.drops rest = true) :
    spansFrom rule functions start pos (0x81 :: 0x81 :: rest)
      = ⟨(spansFrom rule functions start (pos + 1) (0x81 :: rest)).value,
          markerLog pos rest
            ++ (spansFrom rule functions start (pos + 1) (0x81 :: rest)).log⟩ := by
  rw [spansFrom.eq_3, if_neg (by decide), if_neg (by decide)]
  simp only [highPair, doubledMarker_eq, h]
  simp [bind]

/-! ## Names -/

variable {id : UInt8} {text : String}

theorem name?_of_lookup {k : UInt8} (h : (lookup functions k).value = .name id text) :
    functions.name? id = some text := by
  unfold lookup at h
  split at h
  · rename_i hk
    simp only [Logged.value_pure, Token.name.injEq] at h
    rw [← h.1, ← h.2, hk]
  · simp at h

theorem name?_of_keyword? {p : UInt8} (h : functions.keyword? p = some text) :
    functions.name? p = some text := by
  unfold FunctionTable.keyword? at h
  split_ifs at h
  exact h

theorem name?_of_pairToken {p s : UInt8} {ahead : List UInt8}
    (h : (pairToken functions p s ahead).value = .name id text) :
    functions.name? id = some text := by
  rcases pairToken_cases functions p s ahead with
    ⟨k, hpair⟩ | ⟨word, hword, hpair⟩ | ⟨b, -, hpair⟩ | ⟨-, hpair⟩ | ⟨-, hpair⟩
  · exact name?_of_lookup (hpair ▸ h)
  · rw [hpair, Logged.value_pure, Token.name.injEq] at h
    rw [← h.1, ← h.2, name?_of_keyword? hword]
  all_goals simp [hpair] at h

theorem name?_of_mem_spansFrom : ∀ (segment : List UInt8) {start pos : Nat},
    .name id text ∈ (spansFrom rule functions start pos segment).value.map Spanned.token →
      functions.name? id = some text
  | [], _, _, h => by simp [spansFrom] at h
  | [p], start, pos, h => by
    by_cases hp : p < 0x80
    · rw [spansFrom_low hp] at h
      simp [spansFrom] at h
    · rw [spansFrom_orphan hp] at h
      simp at h
  | p :: s :: rest, start, pos, h => by
    by_cases hp : p < 0x80
    · rw [spansFrom_low hp] at h
      simp only [value_emit, List.map_cons, List.mem_cons, reduceCtorEq, false_or] at h
      exact name?_of_mem_spansFrom (s :: rest) h
    by_cases hs : s < 0x80
    · rw [spansFrom_pairChar hp hs] at h
      simp only [value_emit, List.map_cons, List.mem_cons, reduceCtorEq, false_or] at h
      exact name?_of_mem_spansFrom rest h
    by_cases hm : p = 0x81 ∧ s = 0x81
    · obtain ⟨rfl, rfl⟩ := hm
      cases hd : rule.drops rest with
      | false =>
        rw [spansFrom_keptMarker hd] at h
        simp only [value_emit, List.map_cons, List.mem_cons, reduceCtorEq, false_or] at h
        exact name?_of_mem_spansFrom rest h
      | true =>
        rw [spansFrom_droppedMarker hd] at h
        exact name?_of_mem_spansFrom (0x81 :: rest) h
    · rw [spansFrom_pair hp hs hm] at h
      simp only [value_emit, List.map_cons, List.mem_cons] at h
      rcases h with h | h
      · exact name?_of_pairToken h.symm
      · exact name?_of_mem_spansFrom rest h

end Decode

namespace Reading

/-- The tokens of a segment. -/
def tokens (reading : Reading) (segment : List UInt8) : List Token :=
  (decode reading.rule reading.tables.functions segment).value

theorem name?_of_mem_tokens {reading : Reading} {segment : List UInt8} {id : UInt8} {text : String}
    (h : .name id text ∈ reading.tokens segment) :
    reading.tables.functions.name? id = some text := Decode.name?_of_mem_spansFrom segment h

end Reading

end MissionScript
