import MissionScript.Proofs.LineWords
import Mathlib.Data.List.SplitBy
import Mathlib.Data.List.Pairwise

/-!
# Reading a set line back

A line is read by cutting it at its spaces and taking each mark by itself (`cut`). Words that hold
no space, and no mark unless they are one, come back from their line as they were set
(`cut_setWords`): where no space stands between two of them, one of the two is a mark. So the line
of a list of words determines the words after numbers were joined (`format_reads_back`). Whatever
the words hold, setting them adds nothing but spaces.
-/

namespace MissionScript

namespace Line

/-- The marks that are words of their own. -/
def marks : List Char := ['(', ')', ',', ';']

/-- Whether two neighbouring characters can belong to one word. -/
def connects (c d : Char) : Bool := !marks.contains c && !marks.contains d

/-- The words of a line: it is cut at its spaces, and each mark is taken by itself. -/
def cut (line : Text) : List Text := (line.splitOn ' ').flatMap (List.splitBy connects)

/-- A word that can be read back: not empty, without spaces, and without marks unless it is one. -/
def Separate (w : Text) : Prop := w ≠ [] ∧ ' ' ∉ w ∧ ∀ c ∈ w, c ∈ marks → w = [c]

instance (w : Text) : Decidable (Separate w) :=
  letI : Decidable (∀ c ∈ w, c ∈ marks → w = [c]) := List.decidableBAll _ w
  inferInstanceAs (Decidable (_ ∧ _ ∧ _))

/-! ## Cutting -/

theorem connects_of_mem_left {c : Char} (h : c ∈ marks) (d : Char) : connects c d = false := by
  simp [connects, h]

theorem connects_of_mem_right {d : Char} (h : d ∈ marks) (c : Char) : connects c d = false := by
  simp [connects, h]

theorem cut_of_not_mem {t : Text} (h : ' ' ∉ t) : cut t = t.splitBy connects := by
  rw [cut, List.splitOn_eq_singleton h, List.flatMap_singleton]

theorem cut_append_space (t u : Text) : cut (t ++ ' ' :: u) = cut t ++ cut u := by
  rw [cut, List.splitOn_append_cons_self, List.flatMap_append, cut, cut]

/-- A line is also cut where two characters cannot belong to one word. -/
theorem cut_append {w t : Text} (hw : ' ' ∉ w)
    (h : ∀ c ∈ w.getLast?, ∀ d ∈ t.head?, connects c d = false) :
    cut (w ++ t) = cut w ++ cut t := by
  by_cases ht : ' ' ∈ t
  · obtain ⟨front, back, rfl, hfront⟩ := List.eq_append_cons_of_mem ht
    have hhead : ∀ c ∈ w.getLast?, ∀ d ∈ front.head?, connects c d = false := fun c hc d hd =>
      h c hc d (List.mem_head?_append_of_mem_head? hd)
    rw [← List.append_assoc, cut_append_space, cut_append_space, ← List.append_assoc,
      cut_of_not_mem hw, cut_of_not_mem hfront, cut_of_not_mem (by simp [hw, hfront]),
      List.splitBy_append hhead]
  · rw [cut_of_not_mem hw, cut_of_not_mem ht, cut_of_not_mem (by simp [hw, ht]),
      List.splitBy_append h]

namespace Separate

variable {w : Text}

theorem isChain (h : Separate w) : w.IsChain fun c d => connects c d = true := by
  by_cases hmark : ∃ c ∈ w, c ∈ marks
  · obtain ⟨c, hc, hmem⟩ := hmark
    rw [h.2.2 c hc hmem]
    exact List.isChain_singleton c
  · push Not at hmark
    refine (List.pairwise_of_forall_mem_list fun c hc d hd => ?_).isChain
    simp [connects, hmark c hc, hmark d hd]

theorem cut_eq (h : Separate w) : cut w = [w] := by
  rw [cut_of_not_mem h.2.1, List.splitBy_of_isChain h.1 h.isChain]

theorem of_isNumeral (h : IsNumeral w) : Separate w := by
  have hother : ∀ c ∈ ' ' :: marks, ¬ (Text.isAsciiDigit c = true ∨ c = '-') := by
    simp [marks, Text.isAsciiDigit]
  have hnot : ∀ c ∈ ' ' :: marks, c ∉ w := fun c hc hmem => hother c hc (h.2 c hmem)
  exact ⟨h.1, hnot ' ' (by simp), fun c hc hmem => absurd hc (hnot c (by simp [hmem]))⟩

end Separate

theorem separate_mergeNumbers {ws : List Text} (h : ∀ w ∈ ws, Separate w) :
    ∀ w ∈ mergeNumbers ws, Separate w := by
  intro w hw
  rcases mem_mergeNumbers hw with hw | hw
  · exact h w hw
  · exact .of_isNumeral hw

/-- Where no space stands between two words, no word goes on from one to the other. -/
theorem connects_of_gap_eq_false {w u : Text} (h : gap w u = false) (t : Text) :
    ∀ c ∈ w.getLast?, ∀ d ∈ (u ++ t).head?, connects c d = false := by
  intro c hc d hd
  by_cases hw : w = ['(']
  · subst hw
    obtain rfl : '(' = c := by simpa using hc
    exact connects_of_mem_left (by decide) d
  · refine connects_of_mem_right ?_ c
    rcases gap_eq_false h hw with rfl | rfl | rfl <;>
      · simp only [List.cons_append, List.head?_cons, Option.mem_some_iff] at hd
        rw [← hd]
        decide

/-- Separate words are read back from the line they are set to. -/
theorem cut_setWords : ∀ {ws : List Text}, (∀ w ∈ ws, Separate w) → cut (setWords ws) = ws
  | [], _ => rfl
  | [w], h => (h w List.mem_cons_self).cut_eq
  | w :: u :: ws, h => by
    have hw := h w List.mem_cons_self
    have ih := cut_setWords fun v hv => h v (List.mem_cons_of_mem w hv)
    rw [setWords]
    cases hg : gap w u with
    | true =>
      simp only [if_true, List.append_assoc, List.cons_append, List.nil_append]
      rw [cut_append_space, hw.cut_eq, ih, List.singleton_append]
    | false =>
      simp only [Bool.false_eq_true, if_false, List.append_nil]
      have hcut := cut_append hw.2.1 (connects_of_gap_eq_false hg (behind u ws))
      rw [setWords_cons] at ih ⊢
      rw [hcut, hw.cut_eq, ih, List.singleton_append]

/-! ## The text without spaces -/

theorem filter_setWords : ∀ ws : List Text,
    (setWords ws).filter (· ≠ ' ') = ws.flatten.filter (· ≠ ' ')
  | [] => rfl
  | [w] => by simp [setWords]
  | w :: u :: ws => by
    have hgap : (if gap w u then [' '] else []).filter (· ≠ ' ') = [] := by
      split_ifs <;> rfl
    rw [setWords, List.filter_append, List.filter_append, hgap, filter_setWords (u :: ws),
      List.append_nil, ← List.filter_append, ← List.flatten_cons]

/-- Joining numbers keeps every character in its place. -/
theorem flatten_mergeNumbers : ∀ ws : List Text, (mergeNumbers ws).flatten = ws.flatten
  | [] => rfl
  | w :: ws => by
    have ih := flatten_mergeNumbers ws
    cases hj : joins w ws.head? with
    | false => rw [mergeNumbers_cons_of_not_joins hj, List.flatten_cons, ih, List.flatten_cons]
    | true =>
      obtain ⟨n, more, hm, -, hmerge⟩ := exists_mergeNumbers_of_joins hj
      rw [hm, List.flatten_cons] at ih
      rw [hmerge, List.flatten_cons, List.flatten_cons, List.append_assoc, ih]

/-- Separate words come back from their line with the numbers among them joined, so two lists of
such words with the same line have the same joined words; and every line is the text of its words,
whatever they hold, but for spaces. -/
theorem format_reads_back :
    (∀ ws : List Text, (∀ w ∈ ws, Separate w) → cut (format ws) = mergeNumbers ws)
      ∧ (∀ ws us : List Text, (∀ w ∈ ws, Separate w) → (∀ u ∈ us, Separate u) →
          format ws = format us → mergeNumbers ws = mergeNumbers us)
      ∧ ∀ ws : List Text, (format ws).filter (· ≠ ' ') = ws.flatten.filter (· ≠ ' ') := by
  have hcut : ∀ ws : List Text, (∀ w ∈ ws, Separate w) → cut (format ws) = mergeNumbers ws :=
    fun ws h => cut_setWords (separate_mergeNumbers h)
  refine ⟨hcut, fun ws us hws hus hline => ?_, fun ws => ?_⟩
  · rw [← hcut ws hws, ← hcut us hus, hline]
  · rw [format, filter_setWords, flatten_mergeNumbers]

/-- The words of `f (-12, (x));`, its number digit by digit. -/
def digitWords : List Text :=
  [['f'], ['('], ['-'], ['1'], ['2'], [','], ['('], ['x'], [')'], [')'], [';']]

/-- The same words with the number in two parts. -/
def numberWords : List Text :=
  [['f'], ['('], ['-'], ['1', '2'], [','], ['('], ['x'], [')'], [')'], [';']]

theorem format_reads_back_sample :
    (∀ w ∈ digitWords, Separate w) ∧ (∀ w ∈ numberWords, Separate w)
      ∧ format digitWords = "f (-12, (x));".toList ∧ format digitWords = format numberWords
      ∧ cut "f (-12, (x));".toList = mergeNumbers digitWords
      ∧ mergeNumbers digitWords = mergeNumbers numberWords := by
  have hdigits : ∀ w ∈ digitWords, Separate w := by decide
  have hnumber : ∀ w ∈ numberWords, Separate w := by decide
  have hline : format digitWords = "f (-12, (x));".toList := by decide
  have hsame : format digitWords = format numberWords := by decide
  obtain ⟨hcut, hmerge, -⟩ := format_reads_back
  exact ⟨hdigits, hnumber, hline, hsame, hline ▸ hcut digitWords hdigits,
    hmerge digitWords numberWords hdigits hnumber hsame⟩

end Line

end MissionScript
