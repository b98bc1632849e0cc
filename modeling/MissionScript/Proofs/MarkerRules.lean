import MissionScript.Proofs.DecodeSteps

/-!
# The two marker rules

Under either rule the decoder leaves a message at a doubled marker in front of a byte on which the
rules part. Up to the first such message the two runs are in the same state and leave the same
spans and messages; there, one of them ends a span that the other draws further
(`exists_head_spansFrom`), so their spans differ from then on. Hence the messages of either run tell
whether the rules agree on a segment (`spans_eq_iff_not_logged`).
-/

namespace MissionScript

namespace Message

/-- The offset and the byte of a message about the marker rules. -/
def disagreement? : Message → Option (Nat × UInt8)
  | rulesDisagree offset ahead => some (offset, ahead)
  | _ => none

/-- The first message of a log about the marker rules. -/
def firstDisagreement (log : List Message) : Option (Nat × UInt8) := log.findSome? disagreement?

theorem firstDisagreement_append (l l' : List Message) :
    firstDisagreement (l ++ l') = (firstDisagreement l).or (firstDisagreement l') := by
  unfold firstDisagreement
  rw [List.findSome?_append]

theorem firstDisagreement_eq_none {log : List Message} :
    firstDisagreement log = none ↔ ∀ offset ahead, rulesDisagree offset ahead ∉ log := by
  unfold firstDisagreement
  rw [List.findSome?_eq_none_iff]
  constructor
  · intro h offset ahead hm
    simpa [disagreement?] using h _ hm
  · intro h m hm
    cases m with
    | rulesDisagree offset ahead => exact absurd hm (h offset ahead)
    | _ => rfl

theorem exists_rulesDisagree_iff {log : List Message} :
    (∃ offset ahead, rulesDisagree offset ahead ∈ log) ↔ firstDisagreement log ≠ none := by
  rw [ne_eq, firstDisagreement_eq_none]
  push Not
  rfl

end Message

namespace Decode

open Message (firstDisagreement firstDisagreement_append)

variable {functions : FunctionTable}

theorem firstDisagreement_lookup (id : UInt8) :
    firstDisagreement (lookup functions id).log = none := by
  unfold lookup
  split <;> rfl

theorem firstDisagreement_pairToken (p s : UInt8) (ahead : List UInt8) :
    firstDisagreement (pairToken functions p s ahead).log = none := by
  rcases pairToken_cases functions p s ahead with
    ⟨id, h⟩ | ⟨text, -, h⟩ | ⟨b, -, h⟩ | ⟨-, h⟩ | ⟨-, h⟩
  · rw [h]
    exact firstDisagreement_lookup id
  all_goals
    rw [h]
    rfl

/-- The span read at a pair of high bytes takes in both of them. -/
theorem exists_head_spansFrom (rule : MarkerRule) (functions : FunctionTable) (start : Nat) :
    ∀ (rest : List UInt8) (p s : UInt8) (pos : Nat), ¬ p < 0x80 → start ≤ pos →
      ∃ length token more, pos + 2 ≤ start + length ∧
        (spansFrom rule functions start pos (p :: s :: rest)).value
          = ⟨start, length, token⟩ :: more
  | rest, p, s, pos, hp, hle => by
    by_cases hs : s < 0x80
    · rw [spansFrom_pairChar hp hs]
      exact ⟨_, _, _, by omega, rfl⟩
    by_cases hm : p = 0x81 ∧ s = 0x81
    · obtain ⟨rfl, rfl⟩ := hm
      cases hd : rule.drops rest with
      | false =>
        rw [spansFrom_keptMarker hd]
        exact ⟨_, _, _, by omega, rfl⟩
      | true =>
        rw [spansFrom_droppedMarker hd]
        cases rest with
        | nil => simp [MarkerRule.drops] at hd
        | cons b rest =>
          obtain ⟨length, token, more, hlen, hv⟩ :=
            exists_head_spansFrom rule functions start rest 0x81 b (pos + 1) hp (by omega)
          exact ⟨length, token, more, by omega, hv⟩
    · rw [spansFrom_pair hp hs hm]
      exact ⟨_, _, _, by omega, rfl⟩

/-- The state of the two runs before they part: equal logs as far as the rules go, and equal spans
exactly if nothing was logged about them. -/
def Agree (a b : Logged (List Spanned)) : Prop :=
  firstDisagreement a.log = firstDisagreement b.log
    ∧ (a.value = b.value ↔ firstDisagreement a.log = none)

theorem Agree.emit {a b : Logged (List Spanned)} (h : Agree a b) (span : Spanned)
    {log : List Message} (hlog : firstDisagreement log = none) :
    Agree (emit span log a) (emit span log b) := by
  simp only [Agree, value_emit, log_emit, firstDisagreement_append, hlog, Option.none_or,
    List.cons.injEq, true_and]
  exact h

theorem agree_refl {a : Logged (List Spanned)} (h : firstDisagreement a.log = none) : Agree a a :=
  ⟨rfl, by simp [h]⟩

/-- On a byte between the two thresholds only the lower one drops the marker. -/
theorem drops_of_rulesPart {b : UInt8} (h : rulesPart b = true) (rest : List UInt8) :
    MarkerRule.drops .from81 (b :: rest) = true ∧ MarkerRule.drops .from83 (b :: rest) = false := by
  simp only [rulesPart, MarkerRule.drops, MarkerRule.threshold, List.head?_cons, Option.any_some,
    bne_iff_ne, ne_eq] at h ⊢
  grind

theorem drops_eq_of_not_rulesPart {b : UInt8} (h : rulesPart b = false) (rest : List UInt8) :
    MarkerRule.drops .from81 (b :: rest) = MarkerRule.drops .from83 (b :: rest) := by
  simpa [rulesPart, MarkerRule.drops] using h

/-- Where the rules part, the run that drops the marker draws its span past the other's. -/
theorem agree_of_rulesPart {b : UInt8} (h : rulesPart b = true) (rest : List UInt8)
    {start pos : Nat} (hle : start ≤ pos) :
    Agree (spansFrom .from81 functions start pos (0x81 :: 0x81 :: b :: rest))
      (spansFrom .from83 functions start pos (0x81 :: 0x81 :: b :: rest)) := by
  obtain ⟨h81, h83⟩ := drops_of_rulesPart h rest
  rw [spansFrom_droppedMarker h81, spansFrom_keptMarker h83]
  have hlog : firstDisagreement (markerLog pos (b :: rest)) = some (pos, b) := by
    rw [markerLog, if_pos h]
    rfl
  refine ⟨by simp only [log_emit, firstDisagreement_append, hlog, Option.some_or], ?_⟩
  simp only [value_emit, firstDisagreement_append, hlog, Option.some_or, reduceCtorEq, iff_false]
  obtain ⟨length, token, more, hlen, hv⟩ := exists_head_spansFrom .from81 functions start
    rest 0x81 b (pos + 1) (by decide) (by omega)
  rw [hv]
  intro heq
  injection heq with hspan
  injection hspan with _ hlength
  omega

theorem agree_spansFrom (functions : FunctionTable) :
    ∀ (bytes : List UInt8) (start pos : Nat), start ≤ pos →
      Agree (spansFrom .from81 functions start pos bytes)
        (spansFrom .from83 functions start pos bytes)
  | [], _, _, _ => agree_refl rfl
  | [p], start, pos, _ => by
    by_cases hp : p < 0x80
    · rw [spansFrom_low hp, spansFrom_low hp]
      exact agree_refl rfl
    · rw [spansFrom_orphan hp, spansFrom_orphan hp]
      exact agree_refl rfl
  | p :: s :: rest, start, pos, hle => by
    by_cases hp : p < 0x80
    · rw [spansFrom_low hp, spansFrom_low hp]
      exact (agree_spansFrom functions (s :: rest) (pos + 1) (pos + 1) (Nat.le_refl _)).emit _ rfl
    by_cases hs : s < 0x80
    · rw [spansFrom_pairChar hp hs, spansFrom_pairChar hp hs]
      exact (agree_spansFrom functions rest (pos + 2) (pos + 2) (Nat.le_refl _)).emit _ rfl
    have ih := agree_spansFrom functions rest (pos + 2) (pos + 2) (Nat.le_refl _)
    by_cases hm : p = 0x81 ∧ s = 0x81
    · obtain ⟨rfl, rfl⟩ := hm
      have ih' := agree_spansFrom functions (0x81 :: rest) start (pos + 1) (by omega)
      rcases hr : rest with _ | ⟨b, more⟩
      · rw [spansFrom_keptMarker rfl, spansFrom_keptMarker rfl]
        exact agree_refl rfl
      rw [hr] at ih ih'
      cases hpart : rulesPart b with
      | true => exact agree_of_rulesPart hpart more hle
      | false =>
        have hdrops := drops_eq_of_not_rulesPart hpart more
        have hlog : markerLog pos (b :: more) = [] := by simp [markerLog, hpart]
        cases h83 : MarkerRule.drops .from83 (b :: more) with
        | true =>
          rw [spansFrom_droppedMarker (hdrops.trans h83), spansFrom_droppedMarker h83, hlog]
          exact ih'
        | false =>
          rw [spansFrom_keptMarker (hdrops.trans h83), spansFrom_keptMarker h83, hlog]
          exact ih.emit _ rfl
    · rw [spansFrom_pair hp hs hm, spansFrom_pair hp hs hm]
      exact ih.emit _ (firstDisagreement_pairToken p s rest)

end Decode

/-- The two rules give a segment the same spans exactly if no message about them is left; both
runs leave such a message or neither does, and the first of them is the same in both. -/
theorem spans_eq_iff_not_logged (functions : FunctionTable) (segment : List UInt8) :
    ((∃ offset ahead, .rulesDisagree offset ahead ∈ (decodeSpans .from81 functions segment).log)
        ↔ ∃ offset ahead, .rulesDisagree offset ahead ∈ (decodeSpans .from83 functions segment).log)
      ∧ Message.firstDisagreement (decodeSpans .from81 functions segment).log
        = Message.firstDisagreement (decodeSpans .from83 functions segment).log
      ∧ ((decodeSpans .from81 functions segment).value
            = (decodeSpans .from83 functions segment).value
          ↔ ∀ offset ahead,
            .rulesDisagree offset ahead ∉ (decodeSpans .from81 functions segment).log) := by
  obtain ⟨hfirst, hvalue⟩ := Decode.agree_spansFrom functions segment 0 0 (Nat.le_refl 0)
  refine ⟨?_, hfirst, hvalue.trans Message.firstDisagreement_eq_none⟩
  rw [Message.exists_rulesDisagree_iff, Message.exists_rulesDisagree_iff]
  exact not_congr (by rw [decodeSpans, decodeSpans, hfirst])

end MissionScript
