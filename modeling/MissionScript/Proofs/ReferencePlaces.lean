import MissionScript.Proofs.StringSubstitution

/-!
# Where a line refers to strings

A string reference does not hold its first letter a second time, so two references of a line do
not overlap (`RefersAt.disjoint`), and the line falls into its references and the text between
them (`Composes`). Substitution shows these fragments one by one: a reference whose digits are an
index of the table as the quoted name, all else as it stands (`exists_composes`). No reference
holds a quotation mark, so an inserted name makes none with the text around it, and a second
substitution changes nothing if the names themselves hold none (`substitution_is_exact`).
-/

namespace MissionScript

namespace Text

theorem foldlM_decimalDigit?_eq_none : ∀ {l : Text} (init : Nat),
    (∃ c ∈ l, isAsciiDigit c = false) →
      l.foldlM (fun n c => (decimalDigit? c).map (n * 10 + ·)) init = none
  | [], _, h => by simp at h
  | c :: l, init, h => by
    rw [List.foldlM_cons, decimalDigit?]
    cases hc : isAsciiDigit c with
    | false => rfl
    | true =>
      have hrest : ∃ d ∈ l, isAsciiDigit d = false := by simpa [hc] using h
      exact foldlM_decimalDigit?_eq_none _ hrest

end Text

namespace Cleanup

/-- A reference with the given digits stands in the line right behind a text. -/
def RefersAt (line front digits : Text) : Prop :=
  IsDigits digits ∧ front ++ referenceText digits <+: line

/-- A part of a line: a string reference, by its digits, or text that is none. -/
inductive Fragment where
  | plain (t : Text)
  | reference (digits : Text)

namespace Fragment

def text : Fragment → Text
  | plain t => t
  | reference digits => referenceText digits

/-- What substitution shows for a fragment. The digits of a reference that is replaced are all
ASCII, and their value is a machine word and an index of the table. -/
def shown (strings : StringTable) : Fragment → Text
  | plain t => t
  | reference digits =>
    if h : digits.all Text.isAsciiDigit = true ∧ Nat.ofDigitChars 10 digits 0 < UInt64.size
        ∧ Nat.ofDigitChars 10 digits 0 < strings.names.length then
      '"' :: ((strings.names.get ⟨Nat.ofDigitChars 10 digits 0, h.2.2⟩).toList ++ ['"'])
    else referenceText digits

end Fragment

/-! ## Places -/

theorem IsDigits.not_mem {digits : Text} (h : IsDigits digits) {c : Char}
    (hc : Text.isDigit c = false) : c ∉ digits := fun hmem =>
  Bool.false_ne_true (hc.symm.trans (h.2 c hmem))

theorem refersAt_append {w t front digits : Text} :
    RefersAt (w ++ t) (w ++ front) digits ↔ RefersAt t front digits := by
  rw [RefersAt, RefersAt, List.append_assoc, List.prefix_append_right_inj]

theorem refersAt_nil {line digits : Text} :
    RefersAt line [] digits ↔ ∃ rest, reference? line = some (digits, rest) := by
  simp only [reference?_eq_some_iff]
  constructor
  · rintro ⟨hdigits, rest, rfl⟩
    exact ⟨rest, hdigits, rfl⟩
  · rintro ⟨rest, hdigits, rfl⟩
    exact ⟨hdigits, rest, rfl⟩

/-- A reference at the start of a line holds the start of no other. -/
theorem RefersAt.eq_or_isPrefix {line front digits digits' : Text} (h : RefersAt line [] digits)
    (h' : RefersAt line front digits') :
    front = [] ∧ digits = digits' ∨ referenceText digits <+: front := by
  rcases front with _ | ⟨c, front⟩
  · obtain ⟨rest, hr⟩ := refersAt_nil.1 h
    obtain ⟨rest', hr'⟩ := refersAt_nil.1 h'
    rw [hr, Option.some.injEq, Prod.mk.injEq] at hr'
    exact Or.inl ⟨rfl, hr'.1⟩
  · right
    -- The first letter of the second reference cannot stand in the first one.
    have hnot : ¬ c :: front ++ ['S'] <+: referenceText digits := by
      intro hpre
      rw [referenceText_eq, List.cons_append, List.cons_prefix_cons] at hpre
      have hmem : 'S' ∈ 'T' :: 'R' :: '[' :: (digits ++ [']']) := hpre.2.subset (by simp)
      simp [h.1.not_mem (c := 'S') (by decide)] at hmem
    have hstart : c :: front ++ ['S'] <+: line := by
      refine List.IsPrefix.trans ?_ h'.2
      rw [List.prefix_append_right_inj, referenceText_eq]
      simp
    have hfirst : referenceText digits <+: line := h.2
    rcases List.prefix_or_prefix_of_prefix hfirst hstart with hpre | hpre
    · rcases List.prefix_concat_iff.1 hpre with heq | hpre
      · exact absurd (heq ▸ List.prefix_rfl) hnot
      · exact hpre
    · exact absurd hpre hnot

theorem RefersAt.eq_or_isPrefix_of_isPrefix {line front digits front' digits' : Text}
    (h : RefersAt line front digits) (h' : RefersAt line front' digits') (hpre : front <+: front') :
    front = front' ∧ digits = digits' ∨ front ++ referenceText digits <+: front' := by
  obtain ⟨k, rfl⟩ := hpre
  obtain ⟨rest, rfl⟩ := (List.prefix_append front _).trans h.2
  have hstart : RefersAt rest [] digits := refersAt_append.1 (by simpa using h)
  rcases hstart.eq_or_isPrefix (refersAt_append.1 h') with ⟨rfl, rfl⟩ | hk
  · exact Or.inl ⟨(List.append_nil front).symm, rfl⟩
  · exact Or.inr ((List.prefix_append_right_inj front).2 hk)

/-- Two references of a line are the same, or one ends before the other starts. -/
theorem RefersAt.disjoint {line front digits front' digits' : Text}
    (h : RefersAt line front digits) (h' : RefersAt line front' digits') :
    front = front' ∧ digits = digits' ∨ front ++ referenceText digits <+: front'
      ∨ front' ++ referenceText digits' <+: front := by
  have hfront := (List.prefix_append front _).trans h.2
  have hfront' := (List.prefix_append front' _).trans h'.2
  rcases List.prefix_or_prefix_of_prefix hfront hfront' with hpre | hpre
  · rcases h.eq_or_isPrefix_of_isPrefix h' hpre with heq | hend
    · exact Or.inl heq
    · exact Or.inr (Or.inl hend)
  · rcases h'.eq_or_isPrefix_of_isPrefix h hpre with ⟨rfl, rfl⟩ | hend
    · exact Or.inl ⟨rfl, rfl⟩
    · exact Or.inr (Or.inr hend)

/-! ## Fragments -/

/-- Fragments make up a line, and the references among them are all its references. -/
structure Composes (fragments : List Fragment) (line : Text) : Prop where
  text : fragments.flatMap Fragment.text = line
  refers : ∀ front digits, RefersAt line front digits ↔
    ∃ before after, fragments = before ++ .reference digits :: after
      ∧ front = before.flatMap Fragment.text

namespace Composes

variable {fragments : List Fragment} {rest : Text}

theorem nil : Composes [] [] where
  text := rfl
  refers front digits := by
    constructor
    · rintro ⟨-, hpre⟩
      simp [referenceText_eq] at hpre
    · rintro ⟨before, after, heq, -⟩
      simp at heq

/-- A fragment can be put in front of a line, if a reference that starts in it is the fragment. -/
theorem cons (h : Composes fragments rest) {fragment : Fragment}
    (hdigits : ∀ digits, fragment = .reference digits → IsDigits digits)
    (hstart : ∀ front digits, RefersAt (fragment.text ++ rest) front digits →
      front = [] ∧ fragment = .reference digits ∨ fragment.text <+: front) :
    Composes (fragment :: fragments) (fragment.text ++ rest) where
  text := by rw [List.flatMap_cons, h.text]
  refers front digits := by
    constructor
    · intro href
      rcases hstart front digits href with ⟨rfl, rfl⟩ | ⟨k, rfl⟩
      · exact ⟨[], fragments, rfl, rfl⟩
      · obtain ⟨before, after, rfl, rfl⟩ := (h.refers k digits).1 (refersAt_append.1 href)
        exact ⟨fragment :: before, after, rfl, rfl⟩
    · rintro ⟨before, after, heq, rfl⟩
      cases before with
      | nil =>
        obtain ⟨rfl, -⟩ := List.cons.inj heq
        exact ⟨hdigits digits rfl, List.prefix_append _ _⟩
      | cons b before =>
        obtain ⟨rfl, hrest⟩ := List.cons.inj heq
        rw [List.flatMap_cons, refersAt_append]
        exact (h.refers _ digits).2 ⟨before, after, hrest, rfl⟩

theorem cons_plain (h : Composes fragments rest) {c : Char}
    (hnone : reference? (c :: rest) = none) : Composes (.plain [c] :: fragments) (c :: rest) := by
  refine h.cons (by simp) fun front digits href => Or.inr ?_
  rcases front with _ | ⟨d, front⟩
  · obtain ⟨tail, hsome⟩ := refersAt_nil.1 href
    exact absurd (hnone.symm.trans hsome) (by simp)
  · have hpre : d :: (front ++ referenceText digits) <+: c :: rest := href.2
    rw [List.cons_prefix_cons] at hpre
    rw [hpre.1]
    exact List.prefix_append [c] front

theorem cons_reference (h : Composes fragments rest) {line digits : Text}
    (hread : reference? line = some (digits, rest)) :
    Composes (.reference digits :: fragments) line := by
  have hfirst := refersAt_nil.2 ⟨rest, hread⟩
  obtain ⟨hdigits, rfl⟩ := reference?_eq_some_iff.1 hread
  refine h.cons (by simpa using hdigits) fun front digits' href => ?_
  rcases hfirst.eq_or_isPrefix href with ⟨rfl, rfl⟩ | hpre
  · exact Or.inl ⟨rfl, rfl⟩
  · exact Or.inr hpre

end Composes

variable (strings : StringTable)

theorem resolve_eq_shown (digits : Text) :
    resolve strings digits = (Fragment.reference digits).shown strings := by
  have hlength := strings.length_le
  unfold resolve Text.digits?
  rw [Fragment.shown]
  by_cases hascii : digits.all Text.isAsciiDigit = true
  · rw [Text.foldlM_decimalDigit? digits 0 (List.all_eq_true.1 hascii), Option.bind_some, StringTable.get?]
    by_cases hlt : Nat.ofDigitChars 10 digits 0 < strings.names.length
    · have hword : Nat.ofDigitChars 10 digits 0 < UInt64.size := by
        rw [UInt64.size]
        omega
      rw [List.getElem?_eq_getElem hlt, dif_pos ⟨hascii, hword, hlt⟩]
      rfl
    · rw [List.getElem?_eq_none (by omega), dif_neg fun h => hlt h.2.2]
      rfl
  · have hother : ∃ c ∈ digits, Text.isAsciiDigit c = false := by simpa using hascii
    rw [Text.foldlM_decimalDigit?_eq_none 0 hother, dif_neg fun h => hascii h.1]
    rfl

/-- Substitution shows the fragments of a line one by one. -/
theorem exists_composes (line : Text) : ∃ fragments, Composes fragments line
    ∧ substituteWith strings line = fragments.flatMap (Fragment.shown strings) := by
  fun_induction substituteWith strings line with
  | case1 line digits rest hread ih =>
    obtain ⟨fragments, hcomposes, hshown⟩ := ih
    refine ⟨.reference digits :: fragments, hcomposes.cons_reference hread, ?_⟩
    rw [List.flatMap_cons, hshown, resolve_eq_shown]
  | case2 => exact ⟨[], .nil, rfl⟩
  | case3 c cs hnone ih =>
    obtain ⟨fragments, hcomposes, hshown⟩ := ih
    refine ⟨.plain [c] :: fragments, hcomposes.cons_plain hnone, ?_⟩
    rw [List.flatMap_cons, hshown]
    rfl

/-! ## A second substitution -/

/-- What starts a substituted line without a quotation mark and the first letter of a reference
was there before. -/
theorem isPrefix_of_substituteWith (t : Text) : ∀ {w : Text}, '"' ∉ w → 'S' ∉ w →
    w <+: substituteWith strings t → w <+: t := by
  fun_induction substituteWith strings t with
  | case1 t digits rest hread ih =>
    intro w hq hs hpre
    obtain ⟨c, more, hc, hmem⟩ :
        ∃ c more, resolve strings digits = c :: more ∧ c ∈ ['"', 'S'] := exists_resolve digits
    rcases w with _ | ⟨d, w⟩
    · exact List.nil_prefix
    · rw [hc, List.cons_append, List.cons_prefix_cons] at hpre
      obtain ⟨rfl, -⟩ := hpre
      simp only [List.mem_cons, List.not_mem_nil, or_false] at hmem
      rcases hmem with rfl | rfl
      · exact absurd List.mem_cons_self hq
      · exact absurd List.mem_cons_self hs
  | case2 => exact fun _ _ hpre => hpre
  | case3 c cs hnone ih =>
    intro w hq hs hpre
    rcases w with _ | ⟨d, w⟩
    · exact List.nil_prefix
    · rw [List.cons_prefix_cons] at hpre ⊢
      exact ⟨hpre.1, ih (fun h => hq (by simp [h])) (fun h => hs (by simp [h])) hpre.2⟩

/-- A text without references is left alone up to a quotation mark. -/
theorem substituteWith_append_quote : ∀ {w : Text} (t : Text),
    (∀ front digits, ¬ RefersAt w front digits) →
      substituteWith strings (w ++ '"' :: t) = w ++ '"' :: substituteWith strings t
  | [], t, _ => substituteWith_cons_of_ne strings (by decide) t
  | c :: w, t, h => by
    have hnone : reference? (c :: (w ++ '"' :: t)) = none := by
      rcases hread : reference? (c :: (w ++ '"' :: t)) with _ | ⟨digits, rest⟩
      · rfl
      · obtain ⟨hdigits, hpre⟩ := refersAt_nil.2 ⟨rest, hread⟩
        have hquote : '"' ∉ [] ++ referenceText digits := by
          simp [referenceText_eq, hdigits.not_mem (c := '"') (by decide)]
        rw [← List.cons_append, Text.isPrefix_append_cons hquote] at hpre
        exact absurd ⟨hdigits, hpre⟩ (h [] digits)
    have hrest : ∀ front digits, ¬ RefersAt w front digits := fun front digits href =>
      h (c :: front) digits (refersAt_append (w := [c]).2 href)
    rw [List.cons_append, substituteWith_cons strings hnone, substituteWith_append_quote t hrest]
    rfl

theorem substituteWith_substituteWith
    (h : ∀ name ∈ strings.names, ∀ front digits, ¬ RefersAt name.toList front digits)
    (line : Text) :
    substituteWith strings (substituteWith strings line) = substituteWith strings line := by
  fun_induction substituteWith strings line with
  | case1 line digits rest hread ih =>
    obtain ⟨hdigits, -⟩ := reference?_eq_some_iff.1 hread
    rcases resolve_cases digits with heq | ⟨name, hmem, heq⟩
    · rw [heq, substituteWith_reference strings (reference?_eq_some_iff.2 ⟨hdigits, rfl⟩), heq, ih]
    · rw [heq, List.cons_append, List.append_assoc, List.singleton_append,
        substituteWith_cons_of_ne strings (by decide),
        substituteWith_append_quote strings _ (h name hmem), ih]
  | case2 => exact substituteWith_nil strings
  | case3 c cs hnone ih =>
    rcases hread : reference? (c :: substituteWith strings cs) with _ | ⟨digits, rest⟩
    · rw [substituteWith_cons strings hread, ih]
    · -- The reference would already have stood in the line.
      obtain ⟨hdigits, heq⟩ := reference?_eq_some_iff.1 hread
      rw [referenceText_eq, List.cons_append, List.cons.injEq] at heq
      obtain ⟨rfl, htail⟩ := heq
      obtain ⟨k, rfl⟩ := isPrefix_of_substituteWith strings cs
        (by simp [hdigits.not_mem (c := '"') (by decide)])
        (by simp [hdigits.not_mem (c := 'S') (by decide)]) ⟨rest, htail.symm⟩
      exact absurd (hnone.symm.trans (reference?_eq_some_iff.2 ⟨hdigits, rfl⟩)) (by simp)

/-- The references of a line do not overlap; substitution shows the quoted name for each whose
digits are an index of the table in ASCII and leaves all else in place; and a second substitution
changes nothing, unless a name of the table holds a reference. -/
theorem substitution_is_exact (strings : StringTable) (line : Text) :
    (∀ front digits front' digits', RefersAt line front digits → RefersAt line front' digits' →
        front = front' ∧ digits = digits' ∨ front ++ referenceText digits <+: front'
          ∨ front' ++ referenceText digits' <+: front)
      ∧ (∃ fragments, Composes fragments line
          ∧ substituteStrings (some strings) line = fragments.flatMap (Fragment.shown strings))
      ∧ ((∀ name ∈ strings.names, ∀ front digits, ¬ RefersAt name.toList front digits) →
          substituteStrings (some strings) (substituteStrings (some strings) line)
            = substituteStrings (some strings) line) :=
  ⟨fun _ _ _ _ h h' => h.disjoint h', exists_composes strings line,
    fun h => substituteWith_substituteWith strings h line⟩

/-- Two names without references. -/
def vehicles : StringTable := ⟨["Tank", "Harvester"], by decide⟩

theorem substitution_is_exact_sample :
    let line := "STR[STR[001], STR[9] STR[٠1] STR[1]".toList
    let shown := "STR[\"Harvester\", STR[9] STR[٠1] \"Harvester\"".toList
    (∀ name ∈ vehicles.names, ∀ front digits, ¬ RefersAt name.toList front digits)
      ∧ substituteStrings (some vehicles) line = shown
      ∧ (∃ fragments, Composes fragments line
          ∧ shown = fragments.flatMap (Fragment.shown vehicles))
      ∧ substituteStrings (some vehicles) shown = shown := by
  intro line shown
  have hletter : ∀ name ∈ vehicles.names, 'S' ∉ name.toList := by decide +kernel
  have hnames : ∀ name ∈ vehicles.names, ∀ front digits,
      ¬ RefersAt name.toList front digits := fun name hname front digits href =>
    hletter name hname (href.2.subset (by simp [referenceText_eq]))
  have hline : substituteStrings (some vehicles) line = shown := by decide +kernel
  obtain ⟨-, hshown, hagain⟩ := substitution_is_exact vehicles line
  rw [hline] at hshown hagain
  exact ⟨hnames, hline, hshown, hagain hnames⟩

example : let strings : StringTable := ⟨["STR[0]"], by decide⟩
    substituteStrings (some strings) "STR[0]".toList = "\"STR[0]\"".toList
      ∧ substituteStrings (some strings) "\"STR[0]\"".toList = "\"\"STR[0]\"\"".toList := by
  decide +kernel

end Cleanup

end MissionScript
