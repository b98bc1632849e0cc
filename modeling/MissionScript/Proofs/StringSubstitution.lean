import MissionScript.Cleanup
import MissionScript.Proofs.LineWords
import Mathlib.Data.List.Forall2

/-!
# String references in a set line

A string reference holds no blank and no mark, so in a set line it lies within one word. Where
every word either is a reference or has no start of one, substitution resolves the references and
leaves the other words and the gaps alone (`substituteWith_setWords`), and a resolved reference is
no number and no mark, so resolving commutes with setting the line (`substituteWith_format`).
-/

namespace MissionScript

namespace Text

/-- A text without some character starts in front of that character or not at all. -/
theorem isPrefix_append_cons {w a b : Text} {c : Char} (hc : c ∉ w) :
    w <+: a ++ c :: b ↔ w <+: a := by
  refine ⟨fun h => ?_, fun h => h.trans (List.prefix_append a (c :: b))⟩
  have hac : a ++ [c] <+: a ++ c :: b := by simp
  rcases List.prefix_or_prefix_of_prefix h hac with h | h
  · rcases List.prefix_concat_iff.1 h with rfl | h
    · exact absurd (by simp) hc
    · exact h
  · exact absurd (h.subset (by simp)) hc

theorem isAsciiDigit_of_mem_decimal {n : Nat} {c : Char} (h : c ∈ decimal n) :
    isAsciiDigit c = true := by
  have hd := Nat.isDigit_of_mem_toDigits (by decide) (by decide) h
  simpa [Char.isDigit, isAsciiDigit, Char.le_def] using hd

theorem decimal_ne_nil (n : Nat) : decimal n ≠ [] := Nat.toDigits_ne_nil

theorem foldlM_decimalDigit? : ∀ (l : Text) (init : Nat), (∀ c ∈ l, isAsciiDigit c = true) →
    l.foldlM (fun n c => (decimalDigit? c).map (n * 10 + ·)) init
      = some (Nat.ofDigitChars 10 l init)
  | [], init, _ => by simp
  | c :: l, init, h => by
    have hc := h c List.mem_cons_self
    rw [List.foldlM_cons, decimalDigit?, if_pos hc, Nat.ofDigitChars_cons]
    have ih := foldlM_decimalDigit? l (init * 10 + (c.toNat - '0'.toNat))
      (fun d hd => h d (List.mem_cons_of_mem c hd))
    rw [Nat.mul_comm 10 init]
    exact ih

/-- A number is read back from its decimal digits. -/
theorem digits?_decimal (n : Nat) : digits? 10 decimalDigit? (decimal n) = some n := by
  rw [digits?, foldlM_decimalDigit? _ _ fun _ => isAsciiDigit_of_mem_decimal]
  rw [decimal, Nat.ofDigitChars_ten_toDigits]

theorem decimal_injective {m n : Nat} (h : decimal m = decimal n) : m = n := by
  have hm := digits?_decimal m
  rw [h, digits?_decimal n] at hm
  exact (Option.some.inj hm).symm

end Text

namespace Cleanup

open Line

/-- The characters with which every string reference starts. -/
def referenceStart : Text := "STR[".toList

theorem referenceStart_eq : referenceStart = ['S', 'T', 'R', '['] := rfl

variable (strings : StringTable)

theorem substituteWith_nil : substituteWith strings [] = [] := by
  rw [substituteWith]
  rfl

theorem substituteWith_cons {c : Char} {t : Text} (h : reference? (c :: t) = none) :
    substituteWith strings (c :: t) = c :: substituteWith strings t := by
  rw [substituteWith]
  split
  · rename_i heq
    rw [h] at heq
    simp at heq
  · rfl

theorem substituteWith_reference {t digits rest : Text} (h : reference? t = some (digits, rest)) :
    substituteWith strings t = resolve strings digits ++ substituteWith strings rest := by
  rw [substituteWith]
  split
  · rename_i heq
    rw [h] at heq
    simp only [Option.some.injEq, Prod.mk.injEq] at heq
    obtain ⟨rfl, rfl⟩ := heq
    rfl
  · rename_i heq
    rw [h] at heq
    simp at heq

theorem reference?_eq_none {t : Text} (h : ∀ u, t ≠ referenceStart ++ u) : reference? t = none := by
  unfold reference?
  split
  · rfl
  · rename_i u hu
    rw [Text.after?_eq_some] at hu
    exact absurd hu (h u)

theorem substituteWith_cons_of_ne {c : Char} (h : c ≠ 'S') (t : Text) :
    substituteWith strings (c :: t) = c :: substituteWith strings t := by
  refine substituteWith_cons strings (reference?_eq_none fun u hu => h ?_)
  rw [referenceStart_eq] at hu
  exact (List.cons.inj hu).1

/-- Words without the start of a reference are left alone, unless what follows completes one. -/
theorem substituteWith_append : ∀ {w t : Text}, ¬ referenceStart <:+: w →
    (∀ c ∈ t.head?, c ∉ ['T', 'R', '[']) →
      substituteWith strings (w ++ t) = w ++ substituteWith strings t
  | [], _, _, _ => rfl
  | c :: w, t, hw, ht => by
    have hnone : reference? (c :: (w ++ t)) = none := by
      refine reference?_eq_none fun u hu => ?_
      rw [← List.cons_append] at hu
      rcases List.append_eq_append_iff.1 hu with ⟨k, hk, htk⟩ | ⟨k, hk, -⟩
      · rcases k with _ | ⟨d, k⟩
        · rw [List.append_nil] at hk
          exact hw (hk ▸ List.infix_rfl)
        · refine ht d (by rw [htk]; rfl) ?_
          rw [referenceStart_eq, List.cons_append, List.cons.injEq] at hk
          rw [hk.2]
          simp
      · exact hw (by rw [hk]; exact (List.prefix_append _ _).isInfix)
    have hw' : ¬ referenceStart <:+: w := fun h => hw (List.infix_cons h)
    rw [List.cons_append, substituteWith_cons strings hnone, substituteWith_append hw' ht,
      List.cons_append]

/-- The digits of a reference: one or more, of any script. -/
def IsDigits (digits : Text) : Prop := digits ≠ [] ∧ ∀ c ∈ digits, Text.isDigit c = true

/-- The text of the reference with the given digits. -/
def referenceText (digits : Text) : Text := "STR[".toList ++ digits ++ [']']

theorem referenceText_eq (digits : Text) :
    referenceText digits = 'S' :: 'T' :: 'R' :: '[' :: (digits ++ [']']) := rfl

/-- A reference is read where its text stands. -/
theorem reference?_eq_some_iff {t digits rest : Text} :
    reference? t = some (digits, rest) ↔ IsDigits digits ∧ t = referenceText digits ++ rest := by
  have hstop : Text.isDigit ']' = false := by decide
  constructor
  · intro h
    unfold reference? at h
    split at h
    · simp at h
    · rename_i u hu
      rw [Text.after?_eq_some] at hu
      simp only at h
      split at h
      · rename_i r hr
        split_ifs at h with hempty
        simp only [Option.some.injEq, Prod.mk.injEq] at h
        obtain ⟨rfl, rfl⟩ := h
        have happ := List.takeWhile_append_dropWhile (p := Text.isDigit) (l := u)
        rw [hr] at happ
        refine ⟨⟨by simpa using hempty, List.all_eq_true.1 List.all_takeWhile⟩, ?_⟩
        rw [hu, referenceText, List.append_assoc, List.append_assoc, List.singleton_append, happ]
      · simp at h
  · rintro ⟨⟨hne, hdigits⟩, rfl⟩
    have hafter : Text.after? "STR[".toList (referenceText digits ++ rest)
        = some (digits ++ ']' :: rest) := Text.after?_eq_some.2 (by simp [referenceText])
    unfold reference?
    rw [hafter]
    simp only [List.takeWhile_append_of_pos hdigits, List.dropWhile_append_of_pos hdigits,
      List.takeWhile_cons, List.dropWhile_cons, hstop, Bool.false_eq_true, if_false,
      List.append_nil]
    rw [if_neg (by simp [hne])]

theorem reference?_decimal (n : Nat) (t : Text) :
    reference? (referenceStart ++ (Text.decimal n ++ ']' :: t)) = some (Text.decimal n, t) := by
  have hdigits : ∀ c ∈ Text.decimal n, Text.isDigit c = true := fun c hc =>
    Text.isDigit_of_isAsciiDigit (Text.isAsciiDigit_of_mem_decimal hc)
  refine reference?_eq_some_iff.2 ⟨⟨Text.decimal_ne_nil n, hdigits⟩, ?_⟩
  simp [referenceStart, referenceText]

/-- A word and what substitution makes of it: a reference is resolved, and a word without the
start of one stays. -/
inductive Resolves : Text → Text → Prop
  | plain {w : Text} (h : ¬ referenceStart <:+: w) : Resolves w w
  | reference (n : Nat) :
      Resolves (referenceStart ++ (Text.decimal n ++ [']'])) (resolve strings (Text.decimal n))

variable {strings}

/-- A reference stays or becomes a quoted name of the table. -/
theorem resolve_cases (digits : Text) : resolve strings digits = referenceText digits
    ∨ ∃ name ∈ strings.names, resolve strings digits = '"' :: (name.toList ++ ['"']) := by
  unfold resolve
  split
  · rename_i name hname
    obtain ⟨index, -, hget⟩ := Option.bind_eq_some_iff.1 hname
    exact Or.inr ⟨name, List.mem_of_getElem? hget, rfl⟩
  · exact Or.inl rfl

/-- A resolved reference starts with a quotation mark or still as a reference. -/
theorem exists_resolve (digits : Text) :
    ∃ c more, resolve strings digits = c :: more ∧ c ∈ ['"', 'S'] := by
  rcases resolve_cases digits with h | ⟨name, -, h⟩
  · exact ⟨'S', _, h, by decide⟩
  · exact ⟨'"', _, h, by decide⟩

namespace Resolves

variable {w w' u u' : Text}

theorem eq_or_starts (h : Resolves strings w w') :
    w' = w ∨ (∃ more, w = 'S' :: more) ∧ ∃ c more, w' = c :: more ∧ c ∈ ['"', 'S'] := by
  cases h with
  | plain _ => exact Or.inl rfl
  | reference n => exact Or.inr ⟨⟨_, rfl⟩, exists_resolve _⟩

theorem eq_singleton_iff (h : Resolves strings w w') {c : Char} (hc : c ∉ ['"', 'S']) :
    w' = [c] ↔ w = [c] := by
  rcases h.eq_or_starts with rfl | ⟨⟨more, rfl⟩, d, more', rfl, hd⟩
  · rfl
  · constructor
    · rintro heq
      obtain ⟨rfl, -⟩ := List.cons.inj heq
      exact absurd hd hc
    · rintro heq
      obtain ⟨rfl, -⟩ := List.cons.inj heq
      exact absurd (by simp) hc

theorem isNumber_eq (h : Resolves strings w w') : isNumber w' = isNumber w := by
  rcases h.eq_or_starts with rfl | ⟨⟨more, rfl⟩, d, more', rfl, hd⟩
  · rfl
  · have hs : Text.isAsciiDigit 'S' = false := by decide
    have hd' : Text.isAsciiDigit d = false := by
      simp only [List.mem_cons, List.not_mem_nil, or_false] at hd
      rcases hd with rfl | rfl <;> decide
    simp [isNumber, hs, hd']

theorem gap_eq (hw : Resolves strings w w') (hu : Resolves strings u u') : gap w' u' = gap w u := by
  rw [Bool.eq_iff_iff, gap_eq_true_iff, gap_eq_true_iff]
  simp only [ne_eq, hu.eq_singleton_iff (c := ')') (by decide),
    hu.eq_singleton_iff (c := ',') (by decide), hu.eq_singleton_iff (c := ';') (by decide),
    hw.eq_singleton_iff (c := '(') (by decide)]

theorem joins_eq (hw : Resolves strings w w') {next next' : Option Text}
    (h : next'.any isNumber = next.any isNumber) : joins w' next' = joins w next := by
  have hminus : (w' == ['-']) = (w == ['-']) := by
    rw [Bool.eq_iff_iff, beq_iff_eq, beq_iff_eq]
    exact hw.eq_singleton_iff (by decide)
  rw [joins, joins, hw.isNumber_eq, hminus, h]

/-- A word that belongs to a number stays. -/
theorem eq_of_isNumeral (h : Resolves strings w w') (hw : IsNumeral w) : w' = w := by
  rcases h.eq_or_starts with rfl | ⟨⟨more, rfl⟩, -⟩
  · rfl
  · rcases hw.2 'S' List.mem_cons_self with hd | hd
    · exact absurd hd (by decide)
    · exact absurd hd (by decide)

theorem of_isNumeral (hw : IsNumeral w) : Resolves strings w w := by
  refine .plain fun h => ?_
  rcases hw.2 'S' (h.subset (by decide)) with hd | hd
  · exact absurd hd (by decide)
  · exact absurd hd (by decide)

theorem substituteWith_behind (h : Resolves strings w w') (ws : List Text) :
    substituteWith strings (w ++ behind w ws) = w' ++ substituteWith strings (behind w ws) := by
  cases h with
  | plain hw =>
    by_cases hparen : w = ['(']
    · subst hparen
      exact substituteWith_cons_of_ne strings (by decide) _
    · refine substituteWith_append strings hw fun c hc => ?_
      obtain ⟨t, ht⟩ := List.head?_eq_some_iff.1 hc
      have hmark := head_behind ht hparen
      simp only [List.mem_cons, List.not_mem_nil, or_false] at hmark
      rcases hmark with rfl | rfl | rfl | rfl <;> decide
  | reference n =>
    rw [List.append_assoc, List.append_assoc]
    exact substituteWith_reference strings (reference?_decimal n _)

end Resolves

theorem substituteWith_gap (b : Bool) (t : Text) :
    substituteWith strings ((if b then [' '] else []) ++ t)
      = (if b then [' '] else []) ++ substituteWith strings t := by
  cases b with
  | false => rfl
  | true => exact substituteWith_cons_of_ne strings (by decide) t

theorem substituteWith_behind_words {ws ws' : List Text}
    (h : List.Forall₂ (Resolves strings) ws ws') :
    ∀ {w w' : Text}, Resolves strings w w' →
      substituteWith strings (behind w ws) = behind w' ws' := by
  induction h with
  | nil =>
    intro w w' hw
    exact substituteWith_nil strings
  | cons hu h ih =>
    intro w w' hw
    rw [behind, behind, hw.gap_eq hu, substituteWith_gap, hu.substituteWith_behind, ih hu]

/-- Substitution resolves the words of a set line one by one. -/
theorem substituteWith_setWords {ws ws' : List Text} (h : List.Forall₂ (Resolves strings) ws ws') :
    substituteWith strings (setWords ws) = setWords ws' := by
  cases h with
  | nil => rw [setWords, substituteWith_nil]
  | cons hw h =>
    rw [setWords_cons, setWords_cons, hw.substituteWith_behind, substituteWith_behind_words h hw]

/-- Resolving the words of a line first joins the same numbers. -/
theorem forall₂_mergeNumbers {ws ws' : List Text} (h : List.Forall₂ (Resolves strings) ws ws') :
    List.Forall₂ (Resolves strings) (mergeNumbers ws) (mergeNumbers ws') := by
  induction h with
  | nil => exact .nil
  | cons hw h ih =>
    rename_i w w' ws ws'
    have hnext : ws'.head?.any isNumber = ws.head?.any isNumber := by
      cases h with
      | nil => rfl
      | cons hu _ => simp [hu.isNumber_eq]
    cases hj : joins w ws.head? with
    | false =>
      rw [mergeNumbers_cons_of_not_joins hj,
        mergeNumbers_cons_of_not_joins ((hw.joins_eq hnext).trans hj)]
      exact .cons hw ih
    | true =>
      obtain ⟨n, more, hm, hn, hmerge⟩ := exists_mergeNumbers_of_joins hj
      obtain ⟨n', more', hm', hn', hmerge'⟩ :=
        exists_mergeNumbers_of_joins ((hw.joins_eq hnext).trans hj)
      rw [hm, hm'] at ih
      obtain ⟨hres, hmore⟩ := List.forall₂_cons.1 ih
      rw [hmerge, hmerge', hw.eq_of_isNumeral (isNumeral_of_joins hj),
        hres.eq_of_isNumeral (isNumeral_of_isNumber hn)]
      exact .cons (.of_isNumeral (isNumeral_append_of_joins hj hn)) hmore

theorem substituteWith_format {ws ws' : List Text} (h : List.Forall₂ (Resolves strings) ws ws') :
    substituteWith strings (format ws) = format ws' :=
  substituteWith_setWords (forall₂_mergeNumbers h)

end Cleanup

end MissionScript
