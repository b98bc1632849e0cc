import MissionScript.Line
import Mathlib.Tactic.Common

/-!
# The words of a set line

A set line is a word and what stands behind it (`behind`): nothing, or the next word with or
without a space before it. Where no space stands, there is a closing mark or an opening
parenthesis, so a text without blanks and marks that a space follows is a whole word of the line
(`eq_of_append_behind`). The joined numbers of a line hold digits and minus signs only.
-/

namespace MissionScript

namespace Line

/-- A text without spaces, or the space itself. -/
def IsWord (w : Text) : Prop := ' ' ∈ w → w = [' ']

theorem IsWord.not_mem_tail {c : Char} {w : Text} (h : IsWord (c :: w)) : ' ' ∉ w := by
  intro hmem
  have hsp := h (List.mem_cons_of_mem c hmem)
  simp only [List.cons.injEq] at hsp
  rw [hsp.2] at hmem
  exact absurd hmem (by simp)

/-- What a line holds behind one of its words. -/
def behind (w : Text) : List Text → Text
  | [] => []
  | u :: us => (if gap w u then [' '] else []) ++ (u ++ behind u us)

theorem setWords_cons : ∀ (w : Text) (ws : List Text), setWords (w :: ws) = w ++ behind w ws
  | w, [] => by simp [setWords, behind]
  | w, u :: us => by
    rw [setWords, setWords_cons u us, behind, List.append_assoc]

theorem gap_eq_true_iff {w u : Text} :
    gap w u = true ↔ u ≠ [')'] ∧ u ≠ [','] ∧ u ≠ [';'] ∧ w ≠ ['('] := by
  simp [gap, and_assoc]

theorem gap_eq_false {w u : Text} (h : gap w u = false) (hw : w ≠ ['(']) :
    u = [')'] ∨ u = [','] ∨ u = [';'] := by
  by_contra hu
  push Not at hu
  rw [gap_eq_true_iff.2 ⟨hu.1, hu.2.1, hu.2.2, hw⟩] at h
  exact absurd h (by simp)

/-- Behind a word other than an opening parenthesis stands a space or a closing mark. -/
theorem head_behind {w : Text} {ws : List Text} {c : Char} {t : Text} (h : behind w ws = c :: t)
    (hw : w ≠ ['(']) : c ∈ [' ', ')', ',', ';'] := by
  cases ws with
  | nil => simp [behind] at h
  | cons u us =>
    rw [behind] at h
    cases hg : gap w u with
    | true =>
      simp only [hg, if_true, List.cons_append, List.cons.injEq] at h
      simp [← h.1]
    | false =>
      simp only [hg, Bool.false_eq_true, if_false, List.nil_append] at h
      rcases gap_eq_false hg hw with rfl | rfl | rfl <;>
        · simp only [List.cons_append, List.cons.injEq] at h
          simp [← h.1]

/-- A space behind a word is the gap before the next one. -/
theorem behind_eq_space {w : Text} {ws : List Text} {t : Text} (h : behind w ws = ' ' :: t)
    (hw : w ≠ ['(']) : ∃ u us, ws = u :: us ∧ gap w u = true ∧ t = u ++ behind u us := by
  cases ws with
  | nil => simp [behind] at h
  | cons u us =>
    rw [behind] at h
    cases hg : gap w u with
    | true =>
      simp only [hg, if_true, List.cons_append, List.nil_append, List.cons.injEq, true_and] at h
      exact ⟨u, us, rfl, hg, h.symm⟩
    | false =>
      simp only [hg, Bool.false_eq_true, if_false, List.nil_append] at h
      rcases gap_eq_false hg hw with rfl | rfl | rfl <;> simp at h

/-- A text without blanks and marks that starts at a word and ends before a space is that word. -/
theorem eq_of_append_behind {a u s : Text} {us : List Text} (ha : a ≠ [])
    (hmarks : ∀ c ∈ a, c ∉ [' ', '(', ')', ',', ';']) (hu : IsWord u)
    (h : u ++ behind u us = a ++ ' ' :: s) : u = a ∧ behind u us = ' ' :: s := by
  rcases List.append_eq_append_iff.1 h with ⟨k, hk, hb⟩ | ⟨k, hk, hb⟩
  · rcases k with _ | ⟨c, k⟩
    · rw [List.append_nil] at hk
      exact ⟨hk.symm, hb⟩
    · exfalso
      have hne : u ≠ ['('] := by
        rintro rfl
        exact hmarks '(' (by simp [hk]) (by simp)
      have hc := head_behind hb hne
      refine hmarks c (by simp [hk]) ?_
      simp only [List.mem_cons, List.not_mem_nil, or_false] at hc ⊢
      tauto
  · rcases k with _ | ⟨c, k⟩
    · rw [List.append_nil] at hk
      exact ⟨hk, hb.symm⟩
    · exfalso
      simp only [List.cons_append, List.cons.injEq] at hb
      obtain ⟨rfl, -⟩ := hb
      have hsp := hu (by simp [hk])
      rw [hk] at hsp
      rcases a with _ | ⟨d, a⟩
      · exact ha rfl
      · simp at hsp

/-! ## Joined numbers -/

/-- Digits and minus signs only, as in every joined number. -/
def IsNumeral (w : Text) : Prop := w ≠ [] ∧ ∀ c ∈ w, Text.isAsciiDigit c = true ∨ c = '-'

theorem isNumeral_of_isNumber {w : Text} (h : isNumber w = true) : IsNumeral w := by
  simp only [isNumber, Bool.and_eq_true, Bool.not_eq_true', List.isEmpty_eq_false_iff,
    List.all_eq_true] at h
  exact ⟨h.1, fun c hc => Or.inl (h.2 c hc)⟩

theorem mergeNumbers_cons_of_not_joins {t : Text} {ts : List Text} (h : joins t ts.head? = false) :
    mergeNumbers (t :: ts) = t :: mergeNumbers ts := by
  simp [mergeNumbers, h]

/-- A number at the front of a line is joined to a number. -/
theorem exists_mergeNumbers_of_isNumber : ∀ (ts : List Text) {t : Text}, isNumber t = true →
    ∃ n more, mergeNumbers (t :: ts) = n :: more ∧ isNumber n = true
  | [], t, h => ⟨t, [], by simp [mergeNumbers, joins], h⟩
  | u :: ts, t, h => by
    cases hj : joins t (u :: ts).head? with
    | false => exact ⟨t, _, mergeNumbers_cons_of_not_joins hj, h⟩
    | true =>
      have hu : isNumber u = true := by
        simp only [joins, List.head?_cons, Option.any_some, Bool.and_eq_true] at hj
        exact hj.2
      obtain ⟨n, more, hn, hnum⟩ := exists_mergeNumbers_of_isNumber ts hu
      refine ⟨t ++ n, more, ?_, ?_⟩
      · rw [mergeNumbers, if_pos hj, hn]
      · simp only [isNumber, Bool.and_eq_true, Bool.not_eq_true', List.isEmpty_eq_false_iff,
          List.all_append] at h hnum ⊢
        exact ⟨by simp [h.1], h.2, hnum.2⟩

/-- Where a word joins the next one, the rest of the line starts with a number. -/
theorem exists_mergeNumbers_of_joins {t : Text} {ts : List Text} (h : joins t ts.head? = true) :
    ∃ n more, mergeNumbers ts = n :: more ∧ isNumber n = true
      ∧ mergeNumbers (t :: ts) = (t ++ n) :: more := by
  cases ts with
  | nil => simp [joins] at h
  | cons u ts =>
    have hu : isNumber u = true := by
      simp only [joins, List.head?_cons, Option.any_some, Bool.and_eq_true] at h
      exact h.2
    obtain ⟨n, more, hn, hnum⟩ := exists_mergeNumbers_of_isNumber ts hu
    exact ⟨n, more, hn, hnum, by rw [mergeNumbers, if_pos h, hn]⟩

theorem isNumeral_of_joins {t : Text} {next : Option Text} (h : joins t next = true) :
    IsNumeral t := by
  simp only [joins, Bool.and_eq_true, Bool.or_eq_true, beq_iff_eq] at h
  rcases h.1 with ht | rfl
  · exact isNumeral_of_isNumber ht
  · exact ⟨by simp, by simp⟩

theorem isNumeral_append_of_joins {t n : Text} {next : Option Text} (h : joins t next = true)
    (hn : isNumber n = true) : IsNumeral (t ++ n) := by
  have hnum := isNumeral_of_isNumber hn
  refine ⟨by simp [hnum.1], fun c hc => ?_⟩
  rcases List.mem_append.1 hc with hc | hc
  · exact (isNumeral_of_joins h).2 c hc
  · exact hnum.2 c hc

theorem mem_mergeNumbers : ∀ {ws : List Text} {w : Text}, w ∈ mergeNumbers ws →
    w ∈ ws ∨ IsNumeral w
  | [], w, h => by simp [mergeNumbers] at h
  | t :: ts, w, h => by
    cases hj : joins t ts.head? with
    | false =>
      rw [mergeNumbers_cons_of_not_joins hj] at h
      rcases List.mem_cons.1 h with rfl | h
      · exact Or.inl List.mem_cons_self
      · exact (mem_mergeNumbers h).imp_left (List.mem_cons_of_mem t)
    | true =>
      obtain ⟨n, more, hm, hn, hmerge⟩ := exists_mergeNumbers_of_joins hj
      rw [hmerge] at h
      rcases List.mem_cons.1 h with rfl | h
      · exact Or.inr (isNumeral_append_of_joins hj hn)
      · exact (mem_mergeNumbers (hm ▸ List.mem_cons_of_mem n h)).imp_left (List.mem_cons_of_mem t)

theorem isWord_of_isNumeral {w : Text} (h : IsNumeral w) : IsWord w := by
  intro hsp
  rcases h.2 ' ' hsp with hd | hd
  · exact absurd hd (by decide)
  · exact absurd hd (by decide)

theorem isWord_mergeNumbers {ws : List Text} (h : ∀ w ∈ ws, IsWord w) :
    ∀ w ∈ mergeNumbers ws, IsWord w := by
  intro w hw
  rcases mem_mergeNumbers hw with hw | hw
  · exact h w hw
  · exact isWord_of_isNumeral hw

end Line

end MissionScript
