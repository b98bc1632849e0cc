import MissionScript.Proofs.DroppedWords
import Mathlib.Data.List.Infix

/-!
# Lines that the cleanup leaves alone

A rule takes an accumulator out of a line behind an operator. What stood behind the accumulator
then follows the operator, and if that text is clear, neither an accumulator nor a comparison with
one, it makes no operand: no match of any rule arises (`Cuts.startsMatch`), and the rule leaves
none of its own (`Rule.occurs_replace`). The rules for values ask for a value there, so their cuts
are always clear. The rule for comparisons asks for nothing, and its cuts are clear in an ordinary
line, where the text behind every accumulator is. So the rules for truth values find nothing to
match after the rule for names (`bool_rules_never_match`), and an ordinary line is at rest after
one cleanup (`stripAccumulator_comes_to_rest`).
-/

namespace MissionScript

namespace Cleanup

/-! ## Clear cuts -/

/-- A text that starts neither with an accumulator nor with a comparison with one. -/
def Clear (t : Text) : Prop :=
  (∀ a ∈ accumulators, ¬ a <+: t)
    ∧ ∀ op ∈ comparisons, ∀ a ∈ accumulators, ¬ op ++ ' ' :: (a ++ [' ']) <+: t

instance (t : Text) : Decidable (Clear t) := inferInstanceAs (Decidable (_ ∧ _))

/-- An accumulator is taken out behind an operator and before a clear text. -/
def ClearCut (before after : Text) : Prop :=
  (∃ c ∈ before.getLast?, c ∈ operatorEnds) ∧ Clear after

theorem not_clearCut_accumulator {a : Text} (ha : a ∈ accumulators) (before after : Text) :
    ¬ ClearCut (before ++ a) after := by
  rintro ⟨⟨c, hc, hend⟩, -⟩
  rw [Option.mem_def, List.getLast?_append, getLast?_accumulator ha] at hc
  obtain rfl : '0' = c := by simpa using hc
  exact absurd hend (by decide)

theorem accumulator_space {a : Text} (ha : a ∈ accumulators) : ' ' ∉ a := fun h =>
  accumulator_marks ha ' ' h (by simp)

theorem comparison_space {op : Text} (hop : op ∈ comparisons) : ' ' ∉ op := fun h =>
  comparison_marks hop ' ' h (by simp)

namespace Cuts

variable {R Q : Text → Text → Prop} {before t t' : Text}

theorem imp (h : Cuts R before t t') (hRQ : ∀ front, ∀ a ∈ accumulators, ∀ r,
      before ++ t = front ++ ' ' :: (a ++ ' ' :: r) → R front r → Q front r) :
    Cuts Q before t t' := by
  induction h with
  | nil before => exact .nil before
  | keep c _ ih => exact .keep c (ih fun front a ha r heq => hRQ front a ha r (by simpa using heq))
  | drop ha hR _ ih =>
    exact .drop ha (hRQ _ _ ha _ rfl hR)
      (ih fun front b hb r heq => hRQ front b hb r (by simpa using heq))

/-- What is left of a line ends as what is left of an end of the line. -/
theorem exists_of_append : ∀ (u' : Text) {v' before t : Text}, Cuts R before t (u' ++ v') →
    ∃ u v front, t = u ++ v ∧ Cuts R front v v'
  | [], v', before, t, h => ⟨[], t, before, rfl, h⟩
  | c :: u', v', before, t, h => by
    rw [List.cons_append] at h
    generalize hl : u' ++ v' = l at h
    cases h with
    | keep _ h =>
      obtain ⟨u, v, front, rfl, hv⟩ := exists_of_append u' (hl ▸ h)
      exact ⟨c :: u, v, front, rfl, hv⟩
    | @drop _ a r _ _ _ h =>
      obtain ⟨u, v, front, rfl, hv⟩ := exists_of_append u' (hl ▸ h)
      exact ⟨' ' :: (a ++ ' ' :: u), v, front, by simp, hv⟩

/-- A text up to a space was there before, and an accumulator may have been behind it. -/
theorem of_append_space : ∀ {w before t s' : Text}, ' ' ∉ w → Cuts R before t (w ++ ' ' :: s') →
    ∃ s, t = w ++ ' ' :: s ∧ (Cuts R (before ++ w ++ [' ']) s s'
      ∨ ∃ a ∈ accumulators, ∃ r, s = a ++ ' ' :: r ∧ R (before ++ w) r ∧ ∃ front, Cuts R front r s')
  | [], before, t, s', _, h => by
    rw [List.append_nil]
    cases h with
    | keep _ h => exact ⟨_, rfl, Or.inl h⟩
    | drop ha hR h => exact ⟨_, rfl, Or.inr ⟨_, ha, _, rfl, hR, _, h⟩⟩
  | c :: w, before, t, s', hw, h => by
    rw [List.cons_append] at h
    generalize hl : w ++ ' ' :: s' = l at h
    cases h with
    | keep _ h =>
      obtain ⟨s, rfl, hs⟩ := of_append_space (fun hmem => hw (by simp [hmem])) (hl ▸ h)
      exact ⟨s, rfl, by simpa using hs⟩
    | drop _ _ _ => exact absurd List.mem_cons_self hw

/-- Clear cuts make no operand: one that is left was there before. -/
theorem operand {w a s' : Text} (hw : ' ' ∉ w) (ha : a ∈ accumulators)
    (h : Cuts ClearCut before t (w ++ ' ' :: (a ++ ' ' :: s'))) :
    ∃ s front, t = w ++ ' ' :: (a ++ ' ' :: s) ∧ Cuts ClearCut front s s' := by
  obtain ⟨s, rfl, hs | ⟨b, -, r, rfl, hR, front, hr⟩⟩ := h.of_append_space hw
  · obtain ⟨s, rfl, hs | ⟨b, -, r, rfl, hR, -⟩⟩ := hs.of_append_space (accumulator_space ha)
    · exact ⟨s, _, rfl, hs⟩
    · exact absurd hR (not_clearCut_accumulator ha _ r)
  · -- The accumulator would stand right behind the one that was taken out.
    exact absurd ((hr.isPrefix_iff (accumulator_space ha)).2 (List.prefix_append _ _))
      (hR.2.1 a ha)

theorem clear (h : Cuts ClearCut before t t') (ht : Clear t) : Clear t' := by
  refine ⟨fun a ha hpre => ?_, fun op hop a ha hpre => ?_⟩
  · exact ht.1 a ha ((h.isPrefix_iff (accumulator_space ha)).2 hpre)
  · obtain ⟨s', rfl⟩ := hpre
    rw [List.append_assoc, List.cons_append, List.append_assoc] at h
    obtain ⟨s, front, rfl, -⟩ := h.operand (comparison_space hop) ha
    exact ht.2 op hop a ha ⟨s, by simp⟩

end Cuts

/-! ## No new matches -/

namespace Rule

variable {rule : Rule} {atStart : Bool} {f v : Text}

theorem Front.cases (h : rule.Front atStart f) : ' ' ∉ f ∨ ∃ op ∈ comparisons, f = ' ' :: op := by
  cases rule with
  | cmpOperand =>
    obtain ⟨lead, op, hop, rfl, ⟨rfl, -⟩ | rfl | rfl⟩ := h
    · exact Or.inl (comparison_space hop)
    · exact Or.inr ⟨op, hop, rfl⟩
    · exact Or.inl (by simp [comparison_space hop])
  | _ =>
    obtain rfl := h
    exact Or.inl (by decide)

theorem Value.not_mem (h : rule.Value v) {c : Char} (hc : c ∈ ['=', ' ', '(']) : c ∉ v := by
  have hvalue : Cleanup.startsValue c = false := by
    simp only [List.mem_cons, List.not_mem_nil, or_false] at hc
    rcases hc with rfl | rfl | rfl <;> decide
  intro hmem
  exact Bool.false_ne_true (hvalue.symm.trans (h.startsValue c hmem))

end Rule

/-- Clear cuts make no match: where one starts, one started before. -/
theorem Cuts.startsMatch {rule : Rule} {atStart : Bool} {before t t' : Text}
    (h : Cuts ClearCut before t t') (hmatch : rule.StartsMatch atStart t') :
    rule.StartsMatch atStart t := by
  obtain ⟨f, a, v, rest, hf, ha, hv, rfl⟩ := hmatch
  have hoperand : ∃ s front, t = f ++ ' ' :: (a ++ ' ' :: s)
      ∧ Cuts ClearCut front s (v ++ rest) := by
    rcases hf.cases with hsp | ⟨op, hop, rfl⟩
    · exact h.operand hsp ha
    · obtain ⟨s, rfl, hs | ⟨b, -, r, rfl, hR, front, hr⟩⟩ := h.of_append_space (w := []) (by simp)
      · obtain ⟨r, front, rfl, hr⟩ := hs.operand (comparison_space hop) ha
        exact ⟨r, front, rfl, hr⟩
      · -- The comparison would stand right behind the accumulator that was taken out.
        obtain ⟨s, -, rfl, -⟩ := hr.operand (comparison_space hop) ha
        exact absurd ⟨s, by simp⟩ (hR.2.2 op hop a ha)
  obtain ⟨s, front, rfl, hs⟩ := hoperand
  obtain ⟨rest', rfl⟩ := (hs.isPrefix_iff (hv.not_mem (by simp))).2 (List.prefix_append v rest)
  exact ⟨f, a, v, rest', hf, ha, hv, rfl⟩

theorem Cuts.occurs {rule : Rule} {before t t' : Text} (h : Cuts ClearCut before t t') :
    ∀ {atStart : Bool}, rule.occurs atStart t = false → rule.occurs atStart t' = false := by
  induction h with
  | nil => exact fun hocc => hocc
  | keep c h ih =>
    intro atStart hocc
    rw [Rule.occurs_cons_eq_false_iff] at hocc ⊢
    exact ⟨fun hmatch => hocc.1 ((h.keep c).startsMatch hmatch), ih hocc.2⟩
  | @drop before a t t' ha hR h ih =>
    intro atStart hocc
    have hnone := Rule.not_startsMatch_of_occurs hocc
    have hrest : rule.occurs false t = false :=
      Rule.occurs_of_append (' ' :: (a ++ [' '])) (by simpa using hocc)
    rw [Rule.occurs_cons_eq_false_iff]
    exact ⟨fun hmatch => hnone ((Cuts.drop ha hR h).startsMatch hmatch), ih hrest⟩

/-! ## Ordinary lines -/

/-- Wherever an accumulator and a space stand in the line, what follows them is clear. -/
def Ordinary (line : Text) : Prop := ∀ a ∈ accumulators, ∀ r, a ++ ' ' :: r <:+ line → Clear r

instance (line : Text) : Decidable (Ordinary line) :=
  decidable_of_iff
    (∀ t ∈ line.tails, ∀ a ∈ accumulators, ∀ r ∈ Text.after? (a ++ [' ']) t, Clear r) <| by
    simp only [Ordinary, List.mem_tails, Option.mem_def, Text.after?_eq_some, List.append_assoc,
      List.singleton_append]
    constructor
    · exact fun h a ha r hr => h _ hr a ha r rfl
    · rintro h t ht a ha r rfl
      exact h a ha r ht

theorem Ordinary.of_suffix {line t : Text} (h : Ordinary line) (ht : t <:+ line) : Ordinary t :=
  fun a ha r hr => h a ha r (hr.trans ht)

/-- Clear cuts leave a line ordinary. -/
theorem Cuts.ordinary {before t t' : Text} (h : Cuts ClearCut before t t') (ht : Ordinary t) :
    Ordinary t' := by
  rintro a ha r' ⟨u', rfl⟩
  obtain ⟨u, v, front, rfl, hv⟩ := Cuts.exists_of_append u' h
  obtain ⟨s, rfl, hs | ⟨b, -, r, rfl, hR, -⟩⟩ := hv.of_append_space (accumulator_space ha)
  · exact hs.clear (ht a ha s (List.suffix_append u _))
  · exact absurd hR (not_clearCut_accumulator ha _ r)

theorem not_isPrefix_of_startsValue {w t : Text} (hw : w ≠ [])
    (hhead : w.head?.any startsValue = false) (ht : t.head?.any startsValue = true) :
    ¬ w <+: t := by
  rintro ⟨k, rfl⟩
  rw [List.head?_append_of_ne_nil _ hw, hhead] at ht
  exact absurd ht (by simp)

theorem clear_of_startsValue {t : Text} (h : t.head?.any startsValue = true) : Clear t := by
  have hop : ∀ op ∈ comparisons, op ≠ [] ∧ op.head?.any startsValue = false := by decide
  refine ⟨fun a ha => ?_, fun op hmem a _ hpre => ?_⟩
  · exact not_isPrefix_of_startsValue (accumulator_ne_nil ha) (not_startsValue_of_accumulator ha) h
  · exact not_isPrefix_of_startsValue (hop op hmem).1 (hop op hmem).2 h
      ((List.prefix_append op _).trans hpre)

theorem Rule.Around.clearCut {rule : Rule} {leads : List Char} {before after : Text}
    (h : rule.Around leads before after) (hclear : rule = .cmpOperand → Clear after) :
    ClearCut before after := by
  refine ⟨h.operatorEnd, ?_⟩
  cases rule with
  | cmpOperand => exact hclear rfl
  | _ => exact clear_of_startsValue h.2

/-- The rules for values cut any line clearly, and the rule for comparisons an ordinary one. -/
theorem clearCuts_replace (rule : Rule) {atStart : Bool} {before t : Text}
    (hstart : atStart = true → before = [])
    (h : rule = .cmpOperand → Ordinary (before ++ t)) :
    Cuts ClearCut before t (rule.replace atStart t) := by
  refine (cuts_replace rule atStart t before hstart).imp fun front a ha r heq hR => ?_
  refine hR.clearCut fun hrule => h hrule a ha r ?_
  rw [heq]
  exact ⟨front ++ [' '], by simp⟩

/-! ## No match left -/

theorem eq_of_append_space {w f y z : Text} (hw : ' ' ∉ w) (hf : ' ' ∉ f)
    (h : w ++ ' ' :: y = f ++ ' ' :: z) : w = f ∧ y = z := by
  rcases List.append_eq_append_iff.1 h with ⟨k, rfl, hk⟩ | ⟨k, rfl, hk⟩
  · rcases k with _ | ⟨d, k⟩
    · exact ⟨(List.append_nil w).symm, (List.cons.inj hk).2⟩
    · rw [← (List.cons.inj hk).1] at hf
      exact absurd (by simp) hf
  · rcases k with _ | ⟨d, k⟩
    · exact ⟨List.append_nil f, (List.cons.inj hk).2.symm⟩
    · rw [← (List.cons.inj hk).1] at hw
      exact absurd (by simp) hw

namespace Rule

variable {rule : Rule} {atStart : Bool} {w y : Text}

/-- No match runs over a space before a clear text. -/
theorem not_startsMatch_of_clear (hw : ' ' ∉ w) (hy : Clear y) :
    ¬ rule.StartsMatch atStart (w ++ ' ' :: y) := by
  rintro ⟨f, a, v, rest, hf, ha, -, heq⟩
  rcases hf.cases with hsp | ⟨op, hop, rfl⟩
  · obtain ⟨-, rfl⟩ := eq_of_append_space hw hsp heq
    exact hy.1 a ha (List.prefix_append _ _)
  · obtain ⟨-, rfl⟩ := eq_of_append_space hw (f := []) (by simp) heq
    exact hy.2 op hop a ha ⟨v ++ rest, by simp⟩

theorem not_startsMatch_comparison {op : Text} (hop : op ∈ comparisons) (hy : Clear y) :
    ¬ rule.StartsMatch atStart (' ' :: (op ++ ' ' :: y)) := by
  rintro ⟨f, a, v, rest, hf, ha, -, heq⟩
  rcases hf.cases with hsp | ⟨op', hop', rfl⟩
  · obtain ⟨-, hrest⟩ := eq_of_append_space (w := []) (by simp) hsp heq
    obtain ⟨rfl, -⟩ := eq_of_append_space (comparison_space hop) (accumulator_space ha) hrest
    have hdisjoint : ∀ op ∈ comparisons, op ∉ accumulators := by decide
    exact hdisjoint op hop ha
  · obtain ⟨-, rfl⟩ := eq_of_append_space (comparison_space hop) (comparison_space hop')
      (List.cons.inj heq).2
    exact hy.1 a ha (List.prefix_append _ _)

theorem occurs_append_space (hy : Clear y) (hocc : rule.occurs false y = false) :
    ∀ {w : Text} {atStart : Bool}, ' ' ∉ w → rule.occurs atStart (w ++ ' ' :: y) = false
  | [], _, hw => occurs_cons_eq_false_iff.2 ⟨not_startsMatch_of_clear hw hy, hocc⟩
  | c :: w, _, hw => occurs_cons_eq_false_iff.2 ⟨not_startsMatch_of_clear hw hy,
      occurs_append_space hy hocc fun hmem => hw (by simp [hmem])⟩

theorem Front.occurs {f : Text} (hf : rule.Front atStart f) (hy : Clear y)
    (hocc : rule.occurs false y = false) : rule.occurs atStart (f ++ ' ' :: y) = false := by
  rcases hf.cases with hsp | ⟨op, hop, rfl⟩
  · exact occurs_append_space hy hocc hsp
  · exact occurs_cons_eq_false_iff.2 ⟨not_startsMatch_comparison hop hy,
      occurs_append_space hy hocc (comparison_space hop)⟩

theorem StartsMatch.head_mem {c : Char} {t : Text} (h : rule.StartsMatch false (c :: t)) :
    c ∈ ['=', ' ', '('] := by
  obtain ⟨f, a, v, rest, hf, -, -, heq⟩ := h
  cases rule with
  | cmpOperand =>
    obtain ⟨lead, op, -, rfl, ⟨-, hs⟩ | rfl | rfl⟩ := hf
    · exact absurd hs (by simp)
    · simp [(List.cons.inj heq).1]
    · simp [(List.cons.inj heq).1]
  | _ =>
    obtain rfl := hf
    simp [(List.cons.inj heq).1]

theorem Value.occurs {v : Text} (hv : rule.Value v) (hocc : rule.occurs false y = false) :
    rule.occurs false (v ++ y) = false := by
  have hall : ∀ u : Text, (∀ c ∈ u, c ∉ ['=', ' ', '(']) → rule.occurs false (u ++ y) = false := by
    intro u hu
    induction u with
    | nil => exact hocc
    | cons c u ih =>
      refine occurs_cons_eq_false_iff.2 ⟨fun h => hu c List.mem_cons_self h.head_mem, ?_⟩
      exact ih fun d hd => hu d (List.mem_cons_of_mem c hd)
  exact hall v fun c hc hmem => hv.not_mem hmem hc

/-- A rule leaves no match of its own. -/
theorem occurs_replace (rule : Rule) (atStart : Bool) (t : Text) :
    (rule = .cmpOperand → Ordinary t) → rule.occurs atStart (rule.replace atStart t) = false := by
  fun_induction Rule.replace rule atStart t with
  | case1 atStart t out rest h ih =>
    intro hord
    obtain ⟨f, a, v, hf, ha, hv, rfl, rfl⟩ := exists_of_matchAt h
    have hvalue : rule = .cmpOperand → Ordinary (v ++ rest) := fun hrule =>
      (hord hrule).of_suffix ⟨f ++ ' ' :: (a ++ [' ']), by simp⟩
    have hrest : rule = .cmpOperand → Ordinary rest := fun hrule =>
      (hvalue hrule).of_suffix (List.suffix_append v rest)
    have haround : rule.Around [' ', '('] ([] ++ f) (v ++ rest) := hf.around (fun _ => rfl) hv
    have hclear : Clear (v ++ rest) := (haround.clearCut fun hrule =>
      hord hrule a ha _ ⟨f ++ [' '], by simp⟩).2
    have hcuts : Cuts ClearCut [] (v ++ rest) (v ++ rule.replace false rest) :=
      .append_left v (clearCuts_replace rule (by simp) hvalue)
    have hleft : Clear (v ++ rule.replace false rest) := hcuts.clear hclear
    rw [List.append_assoc, List.cons_append]
    exact hf.occurs hleft (hv.occurs (ih hrest))
  | case2 => exact fun _ => occurs_nil
  | case3 atStart c cs h ih =>
    intro hord
    have hcuts : Cuts ClearCut [] (c :: cs) (c :: rule.replace false cs) :=
      .keep c (clearCuts_replace rule (by simp) hord)
    refine occurs_cons_eq_false_iff.2 ⟨fun hmatch => ?_, ih fun hrule =>
      (hord hrule).of_suffix (List.suffix_cons c cs)⟩
    exact matchAt_eq_none_iff.1 h (hcuts.startsMatch hmatch)

end Rule

/-! ## Rule after rule -/

namespace Rule

variable {rule other : Rule} {line : Text}

theorem occurs_apply (h : rule = .cmpOperand → Ordinary line) :
    rule.occurs true (rule.apply line) = false :=
  occurs_replace rule true line h

theorem clearCuts_apply (h : rule = .cmpOperand → Ordinary line) :
    Cuts ClearCut [] line (rule.apply line) :=
  clearCuts_replace rule (fun _ => rfl) h

/-- Each match of a rule is, or has behind its first character, a match of another one. -/
def Subsumes (rule other : Rule) : Prop :=
  ∀ atStart c t, other.StartsMatch atStart (c :: t) →
    rule.StartsMatch atStart (c :: t) ∨ rule.StartsMatch false t

theorem Subsumes.occurs (h : rule.Subsumes other) : ∀ {t : Text} {atStart : Bool},
    rule.occurs atStart t = false → other.occurs atStart t = false
  | [], _, _ => occurs_nil
  | c :: t, atStart, hocc => by
    rw [occurs_cons_eq_false_iff] at hocc ⊢
    refine ⟨fun hmatch => ?_, h.occurs hocc.2⟩
    rcases h atStart c t hmatch with hs | hs
    · exact hocc.1 hs
    · exact not_startsMatch_of_occurs hocc.2 hs

/-- The truth values start with capital letters. -/
theorem exists_capital {w : Text} (h : w ∈ ["TRUE".toList, "FALSE".toList]) :
    ∃ c more, ('A' ≤ c && c ≤ 'Z') = true ∧ w = c :: more := by
  simp only [List.mem_cons, List.not_mem_nil, or_false] at h
  rcases h with rfl | rfl
  · exact ⟨'T', ['R', 'U', 'E'], by decide, by decide⟩
  · exact ⟨'F', ['A', 'L', 'S', 'E'], by decide, by decide⟩

theorem assignName_subsumes_assignBool : assignName.Subsumes assignBool := by
  rintro atStart c t ⟨f, a, v, rest, hf, ha, hv, heq⟩
  obtain ⟨d, more, hd, rfl⟩ := exists_capital hv
  exact Or.inl ⟨f, a, [d], more ++ rest, hf, ha, ⟨d, hd, rfl⟩, heq⟩

theorem assignName_subsumes_eqBool : assignName.Subsumes eqBool := by
  rintro atStart c t ⟨f, a, v, rest, rfl, ha, hv, heq⟩
  obtain ⟨d, more, hd, rfl⟩ := exists_capital hv
  exact Or.inr ⟨['='], a, [d], more ++ rest, rfl, ha, ⟨d, hd, rfl⟩, (List.cons.inj heq).2⟩

end Rule

/-- The rules for truth values come after the rule for names, which leaves them nothing to match,
so the cleanup comes to the rules for names, for numbers and for comparisons. -/
theorem bool_rules_never_match (line : Text) :
    Rule.assignBool.occurs true (applyRules [.assignName] line).value = false
      ∧ Rule.eqBool.occurs true (applyRules [.assignName, .assignBool] line).value = false
      ∧ stripAccumulator line = applyRules [.assignName, .eqInt, .cmpOperand] line
      ∧ (stripAccumulator line).value
        = Rule.cmpOperand.apply (Rule.eqInt.apply (Rule.assignName.apply line)) := by
  have hnames : Rule.assignName.occurs true (Rule.assignName.apply line) = false :=
    Rule.occurs_apply (by simp)
  have hassign := Rule.assignName_subsumes_assignBool.occurs hnames
  have heq := Rule.assignName_subsumes_eqBool.occurs hnames
  have hfirst : (applyRules [.assignName] line).value = Rule.assignName.apply line :=
    value_applyRules_cons .assignName [] line
  have hsecond : (applyRules [.assignName, .assignBool] line).value
      = Rule.assignName.apply line := by
    rw [value_applyRules_cons, applyRules_of_not_occurs hassign]
    rfl
  have hstrip : stripAccumulator line = applyRules [.assignName, .eqInt, .cmpOperand] line :=
    applyRules_cons_congr ((applyRules_of_not_occurs hassign _).trans
      (applyRules_of_not_occurs heq _))
  refine ⟨by rwa [hfirst], by rwa [hsecond], hstrip, ?_⟩
  rw [hstrip, value_applyRules_cons, value_applyRules_cons, value_applyRules_cons]
  rfl

theorem occurs_applyRules : ∀ (rules : List Rule) {line : Text}, Ordinary line →
    ∀ rule : Rule, rule ∈ rules ∨ rule.occurs true line = false →
      rule.occurs true (applyRules rules line).value = false
  | [], line, _, rule, h => h.resolve_left (by simp)
  | r :: rules, line, hord, rule, h => by
    have hcuts : Cuts ClearCut [] line (r.apply line) := Rule.clearCuts_apply fun _ => hord
    rw [value_applyRules_cons]
    refine occurs_applyRules rules (hcuts.ordinary hord) rule ?_
    rw [List.mem_cons, or_assoc] at h
    rcases h with rfl | h | h
    · exact Or.inr (Rule.occurs_apply fun _ => hord)
    · exact Or.inl h
    · exact Or.inr (hcuts.occurs h)

theorem applyRules_eq_pure : ∀ {rules : List Rule} {line : Text},
    (∀ rule ∈ rules, rule.occurs true line = false) → applyRules rules line = pure line
  | [], _, _ => rfl
  | rule :: rules, line, h => by
    rw [applyRules_of_not_occurs (h rule List.mem_cons_self)]
    exact applyRules_eq_pure fun r hr => h r (List.mem_cons_of_mem rule hr)

theorem Rule.mem_all (rule : Rule) : rule ∈ all := by
  cases rule <;> decide

/-- What the cleanup leaves of an ordinary line holds no match of any rule, and a second cleanup
changes and reports nothing. -/
theorem stripAccumulator_comes_to_rest (line : Text) (h : Ordinary line) :
    stripAccumulator (stripAccumulator line).value = pure (stripAccumulator line).value
      ∧ ∀ rule : Rule, rule.occurs true (stripAccumulator line).value = false := by
  have hnone : ∀ rule : Rule, rule.occurs true (stripAccumulator line).value = false := fun rule =>
    occurs_applyRules Rule.all h rule (Or.inl rule.mem_all)
  exact ⟨applyRules_eq_pure fun rule _ => hnone rule, hnone⟩

theorem stripAccumulator_comes_to_rest_sample :
    let line := "v3 = int_0 Get (v1 == v0 5 && v2 >= pos_0 v7)".toList
    let cleaned := "v3 = Get (v1 == 5 && v2 >= v7)".toList
    Ordinary line ∧ (stripAccumulator line).value = cleaned
      ∧ (stripAccumulator cleaned).value = cleaned
      ∧ ∀ rule : Rule, rule.occurs true cleaned = false := by
  intro line cleaned
  have hord : Ordinary line := by decide +kernel
  have hline : (stripAccumulator line).value = cleaned := by decide +kernel
  obtain ⟨hrest, hnone⟩ := stripAccumulator_comes_to_rest line hord
  rw [hline] at hrest hnone
  exact ⟨hord, hline, by rw [hrest, Logged.value_pure], hnone⟩

example : ¬ Ordinary "== v0 == v0 x".toList
    ∧ (stripAccumulator "== v0 == v0 x".toList).value = "== == v0 x".toList
    ∧ (stripAccumulator "== == v0 x".toList).value = "== == x".toList := by decide +kernel

end Cleanup

end MissionScript
