import MissionScript.Proofs.LineWords
import MissionScript.Proofs.RuleMatches
import Mathlib.Data.List.Basic

/-!
# The words a cleanup rule drops

A rule takes an accumulator out of a line, with the space behind it, by what stands around it:
the rules for values ask for an equals sign in front and for the first character of a value
behind, the rule for comparisons asks for a comparison in front and for nothing behind
(`Rule.Around`). In a set line the spaces around an accumulator are gaps between words, and no
operator runs over two words, so what is dropped is a word and what the rule asked of the texts
around it holds of its two neighbours (`exists_drops_apply`).
-/

namespace MissionScript

namespace Cleanup

/-! ## Matches -/

/-- The first characters of the values that rules look for: capital letters and digits. -/
def startsValue (c : Char) : Bool := ('A' ≤ c && c ≤ 'Z') || Text.isDigit c

/-- A text that is a comparison, or ends in one behind one of the given characters. -/
def EndsInComparison (leads : List Char) (t : Text) : Prop :=
  ∃ front, ∃ op ∈ comparisons, t = front ++ op ∧ ∀ c ∈ front.getLast?, c ∈ leads

/-- What a rule asks of the texts before and after an accumulator between spaces, where a
comparison can follow the given characters. -/
def Rule.Around (leads : List Char) : Rule → Text → Text → Prop
  | cmpOperand, before, _ => EndsInComparison leads before
  | _, before, after => before.getLast? = some '=' ∧ after.head?.any startsValue = true

/-- A text less some accumulators, each with the space behind it. The relation is asked of all
that stands before an accumulator in the line and all that stands after it. -/
inductive Cuts (R : Text → Text → Prop) : Text → Text → Text → Prop
  | nil (before : Text) : Cuts R before [] []
  | keep {before t t' : Text} (c : Char) : Cuts R (before ++ [c]) t t' →
      Cuts R before (c :: t) (c :: t')
  | drop {before a t t' : Text} : a ∈ accumulators → R before t →
      Cuts R (before ++ ' ' :: a ++ [' ']) t t' →
      Cuts R before (' ' :: (a ++ ' ' :: t)) (' ' :: t')

theorem Cuts.append_left {R : Text → Text → Prop} : ∀ (l : Text) {before t t' : Text},
    Cuts R (before ++ l) t t' → Cuts R before (l ++ t) (l ++ t')
  | [], before, _, _, h => by simpa using h
  | c :: l, before, _, _, h => .keep c (Cuts.append_left l (by simpa using h))

/-- What starts a text up to its first blank is not touched. -/
theorem Cuts.isPrefix_iff {R : Text → Text → Prop} {before t t' : Text} (h : Cuts R before t t') :
    ∀ {w : Text}, ' ' ∉ w → (w <+: t ↔ w <+: t') := by
  induction h with
  | nil => exact fun _ => Iff.rfl
  | keep c _ ih =>
    intro w hw
    rcases w with _ | ⟨d, w⟩
    · simp
    · rw [List.cons_prefix_cons, List.cons_prefix_cons, ih fun hmem => hw (by simp [hmem])]
  | drop _ _ _ _ =>
    intro w hw
    rcases w with _ | ⟨d, w⟩
    · simp
    · have hd : d ≠ ' ' := fun heq => hw (by simp [heq])
      simp only [List.cons_prefix_cons, hd, false_and]

/-- A match that starts at a text and ends before a rest: a lead, an accumulator between spaces
and some tail, of which all but the accumulator and a space is put out. -/
def Takes (R : Text → Text → Prop) (before t out rest : Text) : Prop :=
  ∃ lead a tail, a ∈ accumulators ∧ t = lead ++ ' ' :: (a ++ ' ' :: (tail ++ rest))
    ∧ out = lead ++ ' ' :: tail ∧ R (before ++ lead) (tail ++ rest)

theorem Rule.Value.startsValue {rule : Rule} {v : Text} (h : rule.Value v) :
    ∀ c ∈ v, startsValue c = true := by
  cases rule with
  | assignName =>
    obtain ⟨c, hc, rfl⟩ := h
    simp only [List.mem_singleton, forall_eq, Cleanup.startsValue, hc, Bool.true_or]
  | assignBool | eqBool =>
    simp only [Value, List.mem_cons, List.not_mem_nil, or_false] at h
    rcases h with rfl | rfl <;> exact List.all_eq_true.1 (by decide)
  | eqInt =>
    obtain ⟨c, hc, rfl⟩ := h
    simp only [List.mem_singleton, forall_eq, Cleanup.startsValue, hc, Bool.or_true]
  | cmpOperand =>
    obtain rfl := h
    simp

theorem Rule.Value.ne_nil {rule : Rule} {v : Text} (h : rule.Value v)
    (hrule : rule ≠ .cmpOperand) : v ≠ [] := by
  rintro rfl
  cases rule with
  | assignName | eqInt =>
    obtain ⟨c, -, hv⟩ := h
    simp at hv
  | assignBool | eqBool => simp [Value] at h
  | cmpOperand => exact hrule rfl

/-- Around the accumulator of a match, the rule's demand holds of the whole line. -/
theorem Rule.Front.around {rule : Rule} {atStart : Bool} {before f v rest : Text}
    (hstart : atStart = true → before = []) (hf : rule.Front atStart f) (hv : rule.Value v) :
    rule.Around [' ', '('] (before ++ f) (v ++ rest) := by
  have hvalue : rule ≠ .cmpOperand → (v ++ rest).head?.any startsValue = true := by
    intro hrule
    obtain ⟨c, more, rfl⟩ := List.exists_cons_of_ne_nil (hv.ne_nil hrule)
    exact hv.startsValue c List.mem_cons_self
  cases rule with
  | cmpOperand =>
    obtain ⟨lead, op, hop, rfl, hlead⟩ := hf
    refine ⟨before ++ lead, op, hop, by rw [List.append_assoc], ?_⟩
    rcases hlead with ⟨rfl, hs⟩ | rfl | rfl
    · simp [hstart hs]
    · simp
    · simp
  | _ =>
    obtain rfl := hf
    exact ⟨by simp, hvalue (by simp)⟩

/-- A match is found where the rule's demand holds of the whole line around its accumulator. -/
theorem takes_of_matchAt {rule : Rule} {atStart : Bool} {before t out rest : Text}
    (hstart : atStart = true → before = []) (h : rule.matchAt atStart t = some (out, rest)) :
    Takes (rule.Around [' ', '(']) before t out rest := by
  obtain ⟨f, a, v, hf, ha, hv, rfl, rfl⟩ := Rule.exists_of_matchAt h
  exact ⟨f, a, v, ha, rfl, rfl, hf.around hstart hv⟩

theorem Takes.cuts {R : Text → Text → Prop} {before t out rest t' : Text}
    (h : Takes R before t out rest) (hrest : ∀ front, Cuts R front rest t') :
    Cuts R before t (out ++ t') := by
  obtain ⟨lead, a, tail, ha, rfl, rfl, hR⟩ := h
  simp only [List.append_assoc, List.cons_append]
  exact .append_left lead (.drop ha hR (.append_left tail (hrest _)))

theorem cuts_replace (rule : Rule) (atStart : Bool) (t : Text) :
    ∀ before, (atStart = true → before = []) →
      Cuts (rule.Around [' ', '(']) before t (rule.replace atStart t) := by
  fun_induction Rule.replace rule atStart t with
  | case1 atStart t out rest h ih =>
    intro before hstart
    exact (takes_of_matchAt hstart h).cuts fun front => ih front (by simp)
  | case2 => exact fun before _ => .nil before
  | case3 atStart c cs h ih => exact fun before _ => .keep c (ih _ (by simp))

theorem cuts_apply (rule : Rule) (line : Text) :
    Cuts (rule.Around [' ', '(']) [] line (rule.apply line) :=
  cuts_replace rule true line [] fun _ => rfl

/-! ## Words -/

open Line

/-- A list of words less some, none of them the first or the last. The relation is asked of each
dropped word with the word in front of it and the word behind it. -/
inductive Drops (R : Text → Text → Text → Prop) : List Text → List Text → Prop
  | nil : Drops R [] []
  | keep (w : Text) {ws ws' : List Text} : Drops R ws ws' → Drops R (w :: ws) (w :: ws')
  | drop {w a x : Text} {ws ws' : List Text} : R w a x → Drops R (x :: ws) ws' →
      Drops R (w :: a :: x :: ws) (w :: ws')

/-- The marks that are set without a space before them. -/
def closingMarks : List Text := [[')'], [','], [';']]

/-- What a rule asks of the words around an accumulator that it drops. -/
def Rule.Between (rule : Rule) (w a x : Text) : Prop :=
  rule.Around ['('] w x ∧ a ∈ accumulators ∧ x ∉ closingMarks

theorem not_startsValue_of_accumulator {a : Text} (h : a ∈ accumulators) :
    a.head?.any startsValue = false := by
  simp only [accumulators, List.mem_cons, List.not_mem_nil, or_false] at h
  rcases h with rfl | rfl | rfl | rfl <;> decide

theorem getLast?_accumulator {a : Text} (h : a ∈ accumulators) : a.getLast? = some '0' := by
  simp only [accumulators, List.mem_cons, List.not_mem_nil, or_false] at h
  rcases h with rfl | rfl | rfl | rfl <;> decide

theorem accumulator_ne_nil {a : Text} (h : a ∈ accumulators) : a ≠ [] := by
  rintro rfl
  exact absurd h (by decide)

theorem accumulator_marks {a : Text} (h : a ∈ accumulators) :
    ∀ c ∈ a, c ∉ [' ', '(', ')', ',', ';'] := by
  simp only [accumulators, List.mem_cons, List.not_mem_nil, or_false] at h
  rcases h with rfl | rfl | rfl | rfl <;> simp

/-- The characters in which an assignment or a comparison can end. -/
def operatorEnds : List Char := ['=', '<', '>']

theorem getLast?_comparison {op : Text} (h : op ∈ comparisons) :
    ∃ c ∈ op.getLast?, c ∈ operatorEnds := by
  simp only [comparisons, List.mem_cons, List.not_mem_nil, or_false] at h
  rcases h with rfl | rfl | rfl | rfl | rfl | rfl
  · exact ⟨'=', rfl, by decide⟩
  · exact ⟨'=', rfl, by decide⟩
  · exact ⟨'=', rfl, by decide⟩
  · exact ⟨'=', rfl, by decide⟩
  · exact ⟨'>', rfl, by decide⟩
  · exact ⟨'<', rfl, by decide⟩

theorem comparison_marks {op : Text} (h : op ∈ comparisons) :
    ∀ c ∈ op, c ∉ [' ', '(', ')', ',', ';'] := by
  simp only [comparisons, List.mem_cons, List.not_mem_nil, or_false] at h
  rcases h with rfl | rfl | rfl | rfl | rfl | rfl <;> simp

theorem Rule.Around.operatorEnd {rule : Rule} {leads : List Char} {before after : Text}
    (h : rule.Around leads before after) : ∃ c ∈ before.getLast?, c ∈ operatorEnds := by
  cases rule with
  | cmpOperand =>
    obtain ⟨front, op, hop, rfl, -⟩ := h
    obtain ⟨c, hc, hend⟩ := getLast?_comparison hop
    exact ⟨c, List.mem_getLast?_append_of_mem_getLast? hc, hend⟩
  | _ => exact ⟨'=', h.1, by decide⟩

/-- Where a word of a line starts: at the start of the line, after a gap or an opening
parenthesis, or anywhere if it is a closing mark. -/
def StartsAt (before w : Text) : Prop :=
  (∀ c ∈ before.getLast?, c ∈ [' ', '(']) ∨ w ∈ closingMarks

theorem startsAt_append_space (before w : Text) : StartsAt (before ++ [' ']) w := by
  left
  simp

theorem startsAt_of_gap_eq_false {before w u : Text} (h : gap w u = false) :
    StartsAt (before ++ w) u := by
  by_cases hw : w = ['(']
  · left
    simp [hw]
  · right
    simpa [closingMarks] using gap_eq_false h hw

/-- A word other than a closing mark does not start right behind an operator. -/
theorem not_operatorEnd_of_startsAt {before w : Text} {c : Char} (h : StartsAt before w)
    (hw : w ∉ closingMarks) (hc : c ∈ before.getLast?) : c ∉ operatorEnds := by
  rcases h with h | h
  · have hmem := h c hc
    simp only [List.mem_cons, List.not_mem_nil, or_false] at hmem
    rcases hmem with rfl | rfl <;> decide
  · exact absurd h hw

/-- A word of a line stays whole, for an accumulator is cut out behind an operator only. -/
theorem cuts_append {rule : Rule} {leads : List Char} : ∀ {w before s t' : Text},
    (' ' ∈ w → ∀ c ∈ before.getLast?, c ∉ operatorEnds) → IsWord w →
      Cuts (rule.Around leads) before (w ++ s) t' →
        ∃ s', t' = w ++ s' ∧ Cuts (rule.Around leads) (before ++ w) s s'
  | [], before, s, t', _, _, h => ⟨t', rfl, by simpa using h⟩
  | d :: w, before, s, t', hsp, hw, h => by
    have hrest := hw.not_mem_tail
    rw [List.cons_append] at h
    generalize hl : w ++ s = l at h
    cases h with
    | keep _ h =>
      obtain ⟨s', rfl, hs⟩ := cuts_append (fun hmem => absurd hmem hrest)
        (fun hmem => absurd hmem hrest) (hl ▸ h)
      exact ⟨s', rfl, by simpa using hs⟩
    | drop _ hR _ =>
      obtain ⟨c, hc, hend⟩ := hR.operatorEnd
      exact absurd hend (hsp List.mem_cons_self c hc)

theorem not_mem_of_isWord_append {k op : Text} (hop : op ∈ comparisons) (h : IsWord (k ++ op)) :
    ' ' ∉ k := by
  intro hk
  obtain ⟨c, hc, -⟩ := getLast?_comparison hop
  have hlen := congrArg List.length (h (List.mem_append_left op hk))
  have hpos := List.length_pos_of_mem hk
  have hpos' := List.length_pos_of_mem (List.mem_of_getLast? hc)
  simp only [List.length_append, List.length_singleton] at hlen
  omega

/-- No comparison runs over the start of a word. -/
theorem eq_nil_of_startsAt {front k w : Text} (hstart : StartsAt (front ++ k) w)
    (hop : k ++ w ∈ comparisons) : k = [] := by
  have hmarks := comparison_marks hop
  rcases List.eq_nil_or_concat k with rfl | ⟨l, d, rfl⟩
  · rfl
  · exfalso
    rcases hstart with hstart | hclose
    · have hd := hstart d (by simp)
      refine hmarks d (by simp) ?_
      simp only [List.mem_cons, List.not_mem_nil, or_false] at hd ⊢
      tauto
    · simp only [closingMarks, List.mem_cons, List.not_mem_nil, or_false] at hclose
      rcases hclose with rfl | rfl | rfl
      · exact hmarks ')' (by simp) (by simp)
      · exact hmarks ',' (by simp) (by simp)
      · exact hmarks ';' (by simp) (by simp)

theorem endsInComparison_word {before w : Text} (hw : IsWord w) (hstart : StartsAt before w)
    (h : EndsInComparison [' ', '('] (before ++ w)) : EndsInComparison ['('] w := by
  obtain ⟨front, op, hop, heq, hlead⟩ := h
  rcases List.append_eq_append_iff.1 heq with ⟨k, rfl, rfl⟩ | ⟨k, rfl, rfl⟩
  · -- The comparison lies in the word, and so does the character in front of it.
    refine ⟨k, op, hop, rfl, fun c hc => ?_⟩
    have hmem := hlead c (List.mem_getLast?_append_of_mem_getLast? hc)
    simp only [List.mem_cons, List.not_mem_nil, or_false] at hmem ⊢
    rcases hmem with rfl | hmem
    · exact absurd (List.mem_of_getLast? hc) (not_mem_of_isWord_append hop hw)
    · exact hmem
  · obtain rfl := eq_nil_of_startsAt hstart hop
    exact ⟨[], w, hop, rfl, by simp⟩

theorem not_startsValue_of_mark {c : Char} (h : c ∈ [' ', ')', ',', ';']) :
    startsValue c = false := by
  simp only [List.mem_cons, List.not_mem_nil, or_false] at h
  rcases h with rfl | rfl | rfl | rfl <;> decide

theorem getLast?_word {before w : Text} (hstart : StartsAt before w)
    (h : (before ++ w).getLast? = some '=') : w.getLast? = some '=' := by
  rcases w with _ | ⟨d, w⟩
  · rw [List.append_nil] at h
    exact absurd (by decide) (not_operatorEnd_of_startsAt hstart (by decide) h)
  · rw [List.getLast?_append] at h
    simpa [List.getLast?_cons] using h

theorem startsValue_word {x : Text} {xs : List Text}
    (h : (x ++ behind x xs).head?.any startsValue = true) : x.head?.any startsValue = true := by
  rcases x with _ | ⟨d, x⟩
  · rw [List.nil_append, Option.any_eq_true] at h
    obtain ⟨c, hc, hval⟩ := h
    obtain ⟨more, hmore⟩ := List.head?_eq_some_iff.1 hc
    rw [not_startsValue_of_mark (head_behind hmore (by simp))] at hval
    exact absurd hval (by simp)
  · exact h

/-- What a rule asks of the line around an accumulator holds of the two words there. -/
theorem Rule.Around.words {rule : Rule} {before w x : Text} {xs : List Text} (hw : IsWord w)
    (hstart : StartsAt before w) (h : rule.Around [' ', '('] (before ++ w) (x ++ behind x xs)) :
    rule.Around ['('] w x := by
  cases rule with
  | cmpOperand => exact endsInComparison_word hw hstart h
  | _ => exact ⟨getLast?_word hstart h.1, startsValue_word h.2⟩

/-- Behind a word, a cut takes out the next word or leaves it where it is. -/
theorem cuts_behind {R : Text → Text → Prop} {before w u s' : Text} {us : List Text}
    (hu : IsWord u) (h : Cuts R (before ++ w) (behind w (u :: us)) s') :
    (∃ front t', StartsAt front u ∧ s' = (if gap w u then [' '] else []) ++ t'
        ∧ Cuts R front (u ++ behind u us) t')
      ∨ ∃ x xs front t', us = x :: xs ∧ u ∈ accumulators ∧ x ∉ closingMarks
        ∧ R (before ++ w) (x ++ behind x xs) ∧ StartsAt front x
        ∧ s' = (if gap w x then [' '] else []) ++ t' ∧ Cuts R front (x ++ behind x xs) t' := by
  rw [behind] at h
  cases hg : gap w u with
  | false =>
    simp only [hg, Bool.false_eq_true, if_false, List.nil_append] at h
    exact Or.inl ⟨before ++ w, s', startsAt_of_gap_eq_false hg, rfl, h⟩
  | true =>
    simp only [hg, if_true, List.cons_append, List.nil_append] at h
    generalize hl : u ++ behind u us = l at h
    cases h with
    | keep _ h => exact Or.inl ⟨_, _, startsAt_append_space (before ++ w) u, rfl, hl ▸ h⟩
    | drop ha hR h =>
      obtain ⟨rfl, hb⟩ := eq_of_append_behind (accumulator_ne_nil ha) (accumulator_marks ha) hu hl
      have hua : u ≠ ['('] := by
        rintro rfl
        exact absurd ha (by decide)
      obtain ⟨x, xs, rfl, hgx, rfl⟩ := behind_eq_space hb hua
      rw [gap_eq_true_iff] at hg hgx
      have hclose : x ∉ closingMarks := by simp [closingMarks, hgx]
      have hgap : gap w x = true := gap_eq_true_iff.2 ⟨hgx.1, hgx.2.1, hgx.2.2.1, hg.2.2.2⟩
      exact Or.inr ⟨x, xs, _, _, rfl, ha, hclose, hR, startsAt_append_space _ x, by simp [hgap], h⟩

/-- What is cut out of a set line is a number of its words. -/
theorem exists_drops_of_cuts {rule : Rule} {ws : List Text} {before w t' : Text}
    (hw : ∀ u ∈ w :: ws, IsWord u) (hstart : StartsAt before w)
    (h : Cuts (rule.Around [' ', '(']) before (w ++ behind w ws) t') :
    ∃ ws', Drops rule.Between (w :: ws) (w :: ws') ∧ t' = w ++ behind w ws' := by
  induction hn : ws.length using Nat.strongRecOn generalizing ws before w t' with
  | ind n ih =>
    have hword := hw w List.mem_cons_self
    have hsp : ' ' ∈ w → ∀ c ∈ before.getLast?, c ∉ operatorEnds := fun hmem c hc =>
      not_operatorEnd_of_startsAt hstart (by rw [hword hmem]; decide) hc
    obtain ⟨s', rfl, hs⟩ := cuts_append hsp hword h
    rcases ws with _ | ⟨u, us⟩
    · cases hs
      exact ⟨[], .keep w .nil, rfl⟩
    rcases cuts_behind (hw u (by simp)) hs with
      ⟨front, t', hu, rfl, ht⟩ | ⟨x, xs, front, t', rfl, ha, hclose, hR, hx, rfl, ht⟩
    · obtain ⟨us', hus, rfl⟩ := ih us.length (by simp [← hn])
        (fun v hv => hw v (List.mem_cons_of_mem w hv)) hu ht rfl
      exact ⟨u :: us', hus.keep w, by rw [behind]⟩
    · obtain ⟨xs', hxs, rfl⟩ := ih xs.length (by simp only [← hn, List.length_cons]; omega)
        (fun v hv => hw v (by simp only [List.mem_cons] at hv ⊢; tauto)) hx ht rfl
      exact ⟨x :: xs', .drop ⟨hR.words hword hstart, ha, hclose⟩ hxs, by rw [behind]⟩

/-- A rule takes a set line to the set line of some of its words. -/
theorem exists_drops_apply (rule : Rule) {ws : List Text} (hws : ∀ w ∈ ws, IsWord w) :
    ∃ ws', Drops rule.Between ws ws' ∧ rule.apply (setWords ws) = setWords ws' := by
  have hcuts := cuts_apply rule (setWords ws)
  rcases ws with _ | ⟨w, ws⟩
  · rw [setWords] at hcuts ⊢
    generalize rule.apply [] = line at hcuts ⊢
    cases hcuts
    exact ⟨[], .nil, rfl⟩
  · rw [setWords_cons] at hcuts ⊢
    obtain ⟨ws', hdrops, hline⟩ := exists_drops_of_cuts hws (Or.inl (by simp)) hcuts
    exact ⟨w :: ws', hdrops, by rw [hline, setWords_cons]⟩

end Cleanup

end MissionScript
