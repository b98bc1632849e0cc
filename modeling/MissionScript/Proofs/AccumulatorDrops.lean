import MissionScript.Token
import MissionScript.Proofs.DroppedWords

/-!
# Dropped references to slot 0

A cleanup rule drops words of a set line, each an accumulator. The word in front of a dropped one
ends in an operator and joins no number, so the same words could have been dropped before numbers
were joined (`exists_mergeNumbers_of_erases`), and there a word is the text of one token.
-/

namespace MissionScript

namespace Cleanup

open Line

/-- A list of words less some accumulators, each after a word that ends in an operator. -/
inductive Erases : List Text → List Text → Prop
  | nil : Erases [] []
  | keep (w : Text) {ws ws' : List Text} : Erases ws ws' → Erases (w :: ws) (w :: ws')
  | drop {w a : Text} {ws ws' : List Text} : (∃ c ∈ w.getLast?, c ∈ operatorEnds) →
      a ∈ accumulators → Erases ws ws' → Erases (w :: a :: ws) (w :: ws')

theorem Drops.erases {rule : Rule} {ws ws' : List Text} (h : Drops rule.Between ws ws') :
    Erases ws ws' := by
  induction h with
  | nil => exact .nil
  | keep w _ ih => exact ih.keep w
  | drop hR _ ih => exact .drop hR.1.operatorEnd hR.2.1 ih

/-! ## Words before numbers are joined -/

theorem operatorEnd_not_digit {c : Char} (hc : c ∈ operatorEnds) :
    Text.isAsciiDigit c = false ∧ c ≠ '-' := by
  simp only [operatorEnds, List.mem_cons, List.not_mem_nil, or_false] at hc
  rcases hc with rfl | rfl | rfl <;> decide

theorem not_isNumeral_of_operatorEnd {w : Text} (h : ∃ c ∈ w.getLast?, c ∈ operatorEnds) :
    ¬ IsNumeral w := by
  rintro ⟨-, hall⟩
  obtain ⟨c, hlast, hc⟩ := h
  obtain ⟨hd, hm⟩ := operatorEnd_not_digit hc
  rcases hall c (List.mem_of_getLast? hlast) with h | h
  · rw [hd] at h
    exact absurd h (by simp)
  · exact hm h

theorem not_isNumeral_of_accumulator {a : Text} (h : a ∈ accumulators) : ¬ IsNumeral a := by
  rintro ⟨-, hall⟩
  simp only [accumulators, List.mem_cons, List.not_mem_nil, or_false] at h
  rcases h with rfl | rfl | rfl | rfl
  · exact absurd (hall 'v' (by simp)) (by decide)
  · exact absurd (hall 'i' (by simp)) (by decide)
  · exact absurd (hall 'o' (by simp)) (by decide)
  · exact absurd (hall 'p' (by simp)) (by decide)

theorem Erases.head? {ws ws' : List Text} (h : Erases ws ws') : ws'.head? = ws.head? := by
  cases h <;> rfl

/-- A word at the front that is no numeral was there before numbers were joined. -/
theorem mergeNumbers_eq_cons {a : Text} {ts more : List Text} (ha : ¬ IsNumeral a)
    (h : mergeNumbers ts = a :: more) : ∃ us, ts = a :: us ∧ more = mergeNumbers us := by
  cases ts with
  | nil => simp [mergeNumbers] at h
  | cons t ts =>
    cases hj : joins t ts.head? with
    | false =>
      rw [mergeNumbers_cons_of_not_joins hj, List.cons.injEq] at h
      exact ⟨ts, by rw [h.1], h.2.symm⟩
    | true =>
      obtain ⟨n, _, -, hn, hmerge⟩ := exists_mergeNumbers_of_joins hj
      rw [hmerge, List.cons.injEq] at h
      exact absurd (h.1 ▸ isNumeral_append_of_joins hj hn) ha

/-- Words dropped after numbers were joined could have been dropped before. -/
theorem exists_mergeNumbers_of_erases : ∀ (ws : List Text) {v : List Text},
    Erases (mergeNumbers ws) v → ∃ ws', Erases ws ws' ∧ v = mergeNumbers ws'
  | [], v, h => by
    cases h
    exact ⟨[], .nil, rfl⟩
  | [t], v, h => by
    rw [mergeNumbers_cons_of_not_joins (by simp [joins])] at h
    rcases h with _ | ⟨_, h⟩
    cases h
    refine ⟨[t], .keep t .nil, ?_⟩
    rw [mergeNumbers_cons_of_not_joins (by simp [joins]), mergeNumbers]
  | t :: u :: ts, v, h => by
    cases hj : joins t (u :: ts).head? with
    | true =>
      obtain ⟨n, more, hm, hn, hmerge⟩ := exists_mergeNumbers_of_joins hj
      rw [hmerge] at h
      cases h with
      | keep _ h =>
        obtain ⟨ws', hws, hv⟩ := exists_mergeNumbers_of_erases (u :: ts) (hm ▸ h.keep n)
        have hj' : joins t ws'.head? = true := by rw [hws.head?, hj]
        obtain ⟨n', more', hm', -, hmerge'⟩ := exists_mergeNumbers_of_joins hj'
        rw [hm', List.cons.injEq] at hv
        exact ⟨t :: ws', hws.keep t, by rw [hmerge', hv.1, hv.2]⟩
      | drop hend _ _ =>
        exact absurd (isNumeral_append_of_joins hj hn) (not_isNumeral_of_operatorEnd hend)
    | false =>
      rw [mergeNumbers_cons_of_not_joins hj] at h
      generalize hm : mergeNumbers (u :: ts) = merged at h
      cases h with
      | keep _ h =>
        obtain ⟨ws', hws, rfl⟩ := exists_mergeNumbers_of_erases (u :: ts) (hm ▸ h)
        refine ⟨t :: ws', hws.keep t, ?_⟩
        rw [mergeNumbers_cons_of_not_joins (by rw [hws.head?, hj])]
      | drop hend ha h =>
        obtain ⟨us, hus, rfl⟩ := mergeNumbers_eq_cons (not_isNumeral_of_accumulator ha) hm
        rw [List.cons.injEq] at hus
        obtain ⟨rfl, rfl⟩ := hus
        obtain ⟨ws', hws, rfl⟩ := exists_mergeNumbers_of_erases ts h
        refine ⟨t :: ws', .drop hend ha hws, ?_⟩
        have hjoin : joins t ws'.head? = false := Bool.eq_false_iff.2 fun hj' =>
          not_isNumeral_of_operatorEnd hend (isNumeral_of_joins hj')
        rw [mergeNumbers_cons_of_not_joins hjoin]

/-- A rule takes a set line to a set line, and drops words only. -/
theorem exists_apply_format (rule : Rule) {words : List Text} (h : ∀ w ∈ words, IsWord w) :
    ∃ words', Erases words words' ∧ rule.apply (format words) = format words' := by
  obtain ⟨ws', hdrops, hline⟩ := exists_drops_apply rule (isWord_mergeNumbers h)
  obtain ⟨words', hwords, rfl⟩ := exists_mergeNumbers_of_erases words hdrops.erases
  exact ⟨words', hwords, hline⟩

end Cleanup

/-! ## Tokens -/

/-- A list of tokens less some references to slot 0. -/
inductive Token.DropsSlotZero : List Token → List Token → Prop
  | nil : DropsSlotZero [] []
  | keep (t : Token) {ts ts' : List Token} : DropsSlotZero ts ts' →
      DropsSlotZero (t :: ts) (t :: ts')
  | drop {ts ts' : List Token} : DropsSlotZero ts ts' → DropsSlotZero (.slot 0 :: ts) ts'

namespace Token.DropsSlotZero

theorem refl : ∀ ts : List Token, DropsSlotZero ts ts
  | [] => .nil
  | t :: ts => .keep t (refl ts)

theorem trans {a b c : List Token} (hab : DropsSlotZero a b) (hbc : DropsSlotZero b c) :
    DropsSlotZero a c := by
  induction hab generalizing c with
  | nil => exact hbc
  | keep t _ ih =>
    cases hbc with
    | keep _ h => exact .keep t (ih h)
    | drop h => exact .drop (ih h)
  | drop _ ih => exact .drop (ih hbc)

theorem subset {a b : List Token} (h : DropsSlotZero a b) : b ⊆ a := by
  induction h with
  | nil => exact List.Subset.refl []
  | keep t _ ih => exact List.cons_subset_cons t ih
  | drop _ ih => exact List.subset_cons_of_subset _ ih

end Token.DropsSlotZero

namespace Cleanup

variable {shown : Token → Text}

/-- If nothing but slot 0 shows as an accumulator, the words dropped are references to slot 0. -/
theorem exists_tokens_of_erases : ∀ {tokens : List Token} {ws : List Text},
    (∀ t ∈ tokens, shown t ∈ accumulators → t = .slot 0) → Erases (tokens.map shown) ws →
      ∃ kept, Token.DropsSlotZero tokens kept ∧ ws = kept.map shown
  | [], ws, _, h => by
    cases h
    exact ⟨[], .nil, rfl⟩
  | [t], ws, _, h => by
    rcases h with _ | ⟨_, h⟩
    cases h
    exact ⟨[t], .refl [t], rfl⟩
  | t :: u :: tokens, ws, hacc, h => by
    rw [List.map_cons, List.map_cons] at h
    cases h with
    | keep _ h =>
      obtain ⟨kept, hkept, rfl⟩ := exists_tokens_of_erases
        (fun v hv => hacc v (List.mem_cons_of_mem t hv)) (List.map_cons ▸ h)
      exact ⟨t :: kept, hkept.keep t, rfl⟩
    | drop _ ha h =>
      obtain rfl := hacc u (by simp) ha
      obtain ⟨kept, hkept, rfl⟩ := exists_tokens_of_erases
        (fun v hv => hacc v (by simp [hv])) h
      exact ⟨t :: kept, hkept.drop.keep t, rfl⟩

/-- The cleanup rules take the line of some tokens to the line of the same tokens less some
references to slot 0. -/
theorem exists_applyRules_format : ∀ (rules : List Rule) {tokens : List Token},
    (∀ t ∈ tokens, Line.IsWord (shown t) ∧ (shown t ∈ accumulators → t = .slot 0)) →
      ∃ kept, Token.DropsSlotZero tokens kept
        ∧ (applyRules rules (Line.format (tokens.map shown))).value = Line.format (kept.map shown)
  | [], tokens, _ => ⟨tokens, .refl tokens, rfl⟩
  | rule :: rules, tokens, h => by
    obtain ⟨words, hwords, happly⟩ := exists_apply_format rule
      (List.forall_mem_map.2 fun t ht => (h t ht).1)
    obtain ⟨kept, hkept, rfl⟩ := exists_tokens_of_erases (fun t ht => (h t ht).2) hwords
    obtain ⟨kept', hkept', hvalue⟩ := exists_applyRules_format rules
      (fun t ht => h t (hkept.subset ht))
    refine ⟨kept', hkept.trans hkept', ?_⟩
    rw [value_applyRules_cons, happly, hvalue]

end Cleanup

end MissionScript
