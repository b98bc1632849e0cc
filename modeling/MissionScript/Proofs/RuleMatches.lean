import MissionScript.Cleanup
import Mathlib.Tactic.Common

/-!
# What a cleanup rule matches

A match of a rule is an accumulator between spaces, behind a text that the rule asks for
(`Rule.Front`) and before one (`Rule.Value`); all but the accumulator and the space behind it is
kept (`Rule.exists_of_matchAt`). Such a text always matches (`Rule.isSome_matchAt_iff`), so a line
has no match of a rule if none starts at any place of it (`Rule.occurs_cons_eq_false_iff`), and
then the rule leaves it as it is (`Rule.replace_eq_self`).
-/

namespace MissionScript

namespace Cleanup

theorem exists_of_afterAccumulator? {t r : Text} (h : afterAccumulator? t = some r) :
    ∃ a ∈ accumulators, t = a ++ ' ' :: r := by
  obtain ⟨a, ha, hr⟩ := List.exists_of_findSome?_eq_some h
  rw [Text.after?_eq_some] at hr
  exact ⟨a, ha, by simpa using hr⟩

theorem exists_of_afterOperand? {op t r : Text} (h : afterOperand? op t = some r) :
    ∃ a ∈ accumulators, t = op ++ ' ' :: (a ++ ' ' :: r) := by
  obtain ⟨u, hu, hr⟩ := Option.bind_eq_some_iff.1 h
  rw [Text.after?_eq_some] at hu
  obtain ⟨a, ha, rfl⟩ := exists_of_afterAccumulator? hr
  exact ⟨a, ha, by simpa using hu⟩

theorem afterOperand?_append (op : Text) {a : Text} (ha : a ∈ accumulators) (r : Text) :
    afterOperand? op (op ++ ' ' :: (a ++ ' ' :: r)) = some r := by
  have hop : Text.after? (op ++ [' ']) (op ++ ' ' :: (a ++ ' ' :: r)) = some (a ++ ' ' :: r) :=
    Text.after?_eq_some.2 (by simp)
  rw [afterOperand?, hop, Option.bind_some]
  simp only [accumulators, List.mem_cons, List.not_mem_nil, or_false] at ha
  rcases ha with rfl | rfl | rfl | rfl <;> simp [afterAccumulator?, accumulators, Text.after?]

namespace Rule

/-- What a match of a rule has in front of the space before the accumulator. A comparison stands
behind a space or a parenthesis, or at the start of the line. -/
def Front : Rule → Bool → Text → Prop
  | assignName, _, f | assignBool, _, f => f = ['=']
  | eqBool, _, f | eqInt, _, f => f = ['=', '=']
  | cmpOperand, atStart, f => ∃ lead, ∃ op ∈ comparisons, f = lead ++ op
      ∧ (lead = [] ∧ atStart = true ∨ lead = [' '] ∨ lead = ['('])

/-- What a match of a rule has behind the space after the accumulator. -/
def Value : Rule → Text → Prop
  | assignName, v => ∃ c, ('A' ≤ c && c ≤ 'Z') = true ∧ v = [c]
  | assignBool, v | eqBool, v => v ∈ ["TRUE".toList, "FALSE".toList]
  | eqInt, v => ∃ c, Text.isDigit c = true ∧ v = [c]
  | cmpOperand, v => v = []

/-- A match of a rule starts at a text. -/
def StartsMatch (rule : Rule) (atStart : Bool) (t : Text) : Prop :=
  ∃ f a v rest, rule.Front atStart f ∧ a ∈ accumulators ∧ rule.Value v
    ∧ t = f ++ ' ' :: (a ++ ' ' :: (v ++ rest))

/-! ## One match -/

theorem exists_of_matchChar {op t out rest : Text} {p : Char → Bool}
    (h : matchChar op p t = some (out, rest)) : ∃ a ∈ accumulators, ∃ c, p c = true
      ∧ t = op ++ ' ' :: (a ++ ' ' :: c :: rest) ∧ out = op ++ [' ', c] := by
  unfold matchChar at h
  split at h
  · rename_i c r hr
    obtain ⟨a, ha, rfl⟩ := exists_of_afterOperand? hr
    split_ifs at h with hc
    simp only [Option.some.injEq, Prod.mk.injEq] at h
    obtain ⟨rfl, rfl⟩ := h
    exact ⟨a, ha, c, hc, rfl, rfl⟩
  · simp at h

theorem exists_of_matchBool {op t out rest : Text} (h : matchBool op t = some (out, rest)) :
    ∃ a ∈ accumulators, ∃ w ∈ ["TRUE".toList, "FALSE".toList],
      t = op ++ ' ' :: (a ++ ' ' :: (w ++ rest)) ∧ out = op ++ ' ' :: w := by
  obtain ⟨u, hu, hw⟩ := Option.bind_eq_some_iff.1 h
  obtain ⟨w, hmem, hm⟩ := List.exists_of_findSome?_eq_some hw
  obtain ⟨r, hr, he⟩ := Option.map_eq_some_iff.1 hm
  simp only [Prod.mk.injEq] at he
  obtain ⟨rfl, rfl⟩ := he
  rw [Text.after?_eq_some] at hr
  obtain ⟨a, ha, rfl⟩ := exists_of_afterOperand? hu
  exact ⟨a, ha, w, hmem, by rw [hr], rfl⟩

theorem exists_of_matchComparison {lead t out rest : Text}
    (h : matchComparison lead t = some (out, rest)) : ∃ a ∈ accumulators, ∃ op ∈ comparisons,
      t = op ++ ' ' :: (a ++ ' ' :: rest) ∧ out = lead ++ op ++ [' '] := by
  obtain ⟨op, hop, hm⟩ := List.exists_of_findSome?_eq_some h
  obtain ⟨r, hr, he⟩ := Option.map_eq_some_iff.1 hm
  simp only [Prod.mk.injEq] at he
  obtain ⟨rfl, rfl⟩ := he
  obtain ⟨a, ha, rfl⟩ := exists_of_afterOperand? hr
  exact ⟨a, ha, op, hop, rfl, rfl⟩

/-- What is put out for a match is the match less its accumulator and a space. -/
theorem exists_of_matchAt {rule : Rule} {atStart : Bool} {t out rest : Text}
    (h : rule.matchAt atStart t = some (out, rest)) : ∃ f a v, rule.Front atStart f
      ∧ a ∈ accumulators ∧ rule.Value v ∧ t = f ++ ' ' :: (a ++ ' ' :: (v ++ rest))
      ∧ out = f ++ ' ' :: v := by
  cases rule with
  | assignName | eqInt =>
    obtain ⟨a, ha, c, hc, ht, hout⟩ := exists_of_matchChar h
    exact ⟨_, a, [c], rfl, ha, ⟨c, hc, rfl⟩, ht, hout⟩
  | assignBool | eqBool =>
    obtain ⟨a, ha, w, hw, ht, hout⟩ := exists_of_matchBool h
    exact ⟨_, a, w, rfl, ha, hw, ht, hout⟩
  | cmpOperand =>
    simp only [matchAt, Option.or_eq_some_iff] at h
    rcases h with h | ⟨-, h⟩
    · split_ifs at h with hs
      obtain ⟨a, ha, op, hop, ht, hout⟩ := exists_of_matchComparison h
      exact ⟨op, a, [], ⟨[], op, hop, rfl, Or.inl ⟨rfl, hs⟩⟩, ha, rfl, ht, hout⟩
    · split at h
      · rename_i c more
        split_ifs at h with hc
        obtain ⟨a, ha, op, hop, rfl, hout⟩ := exists_of_matchComparison h
        have hlead : [c] = [' '] ∨ [c] = ['('] := by simpa using hc
        exact ⟨c :: op, a, [], ⟨[c], op, hop, rfl, Or.inr hlead⟩, ha, rfl, rfl, hout⟩
      · simp at h

theorem isSome_matchComparison (lead : Text) {op a : Text} (hop : op ∈ comparisons)
    (ha : a ∈ accumulators) (rest : Text) :
    (matchComparison lead (op ++ ' ' :: (a ++ ' ' :: rest))).isSome = true := by
  rw [matchComparison, List.findSome?_isSome_iff]
  exact ⟨op, hop, by rw [afterOperand?_append op ha]; rfl⟩

theorem isSome_matchBool (op : Text) {a w : Text} (ha : a ∈ accumulators)
    (hw : w ∈ ["TRUE".toList, "FALSE".toList]) (rest : Text) :
    (matchBool op (op ++ ' ' :: (a ++ ' ' :: (w ++ rest)))).isSome = true := by
  rw [matchBool, afterOperand?_append op ha, Option.bind_some, List.findSome?_isSome_iff]
  exact ⟨w, hw, by rw [Text.after?_eq_some.2 rfl]; rfl⟩

theorem isSome_matchChar (op : Text) {a : Text} {c : Char} {p : Char → Bool}
    (ha : a ∈ accumulators) (hc : p c = true) (rest : Text) :
    (matchChar op p (op ++ ' ' :: (a ++ ' ' :: c :: rest))).isSome = true := by
  simp [matchChar, afterOperand?_append op ha, hc]

/-- A rule finds a match exactly where one starts. -/
theorem isSome_matchAt_iff {rule : Rule} {atStart : Bool} {t : Text} :
    (rule.matchAt atStart t).isSome = true ↔ rule.StartsMatch atStart t := by
  constructor
  · intro h
    obtain ⟨⟨out, rest⟩, hmatch⟩ := Option.isSome_iff_exists.1 h
    obtain ⟨f, a, v, hf, ha, hv, ht, -⟩ := exists_of_matchAt hmatch
    exact ⟨f, a, v, rest, hf, ha, hv, ht⟩
  · rintro ⟨f, a, v, rest, hf, ha, hv, rfl⟩
    cases rule with
    | assignName | eqInt =>
      obtain ⟨c, hc, rfl⟩ := hv
      obtain rfl := hf
      exact isSome_matchChar _ ha hc rest
    | assignBool | eqBool =>
      obtain rfl := hf
      exact isSome_matchBool _ ha hv rest
    | cmpOperand =>
      obtain rfl := hv
      obtain ⟨lead, op, hop, rfl, hlead⟩ := hf
      simp only [matchAt, Option.isSome_or, Bool.or_eq_true]
      rcases hlead with ⟨rfl, rfl⟩ | rfl | rfl
      · exact Or.inl (isSome_matchComparison [] hop ha rest)
      · exact Or.inr (isSome_matchComparison [' '] hop ha rest)
      · exact Or.inr (isSome_matchComparison ['('] hop ha rest)

/-! ## All matches -/

variable {rule : Rule} {atStart : Bool}

theorem matchAt_eq_none_iff {t : Text} :
    rule.matchAt atStart t = none ↔ ¬ rule.StartsMatch atStart t := by
  rw [← isSome_matchAt_iff, Bool.not_eq_true, Option.isSome_eq_false_iff, Option.isNone_iff_eq_none]

theorem occurs_cons_eq_false_iff {c : Char} {t : Text} : rule.occurs atStart (c :: t) = false ↔
    ¬ rule.StartsMatch atStart (c :: t) ∧ rule.occurs false t = false := by
  rw [occurs, Bool.or_eq_false_iff, Option.isSome_eq_false_iff, Option.isNone_iff_eq_none,
    matchAt_eq_none_iff]

theorem not_startsMatch_nil : ¬ rule.StartsMatch atStart [] := by
  rintro ⟨f, a, v, rest, -, -, -, ht⟩
  simp at ht

theorem occurs_nil : rule.occurs atStart [] = false :=
  Bool.eq_false_iff.2 fun h => not_startsMatch_nil (isSome_matchAt_iff.1 h)

theorem not_startsMatch_of_occurs {t : Text} (h : rule.occurs atStart t = false) :
    ¬ rule.StartsMatch atStart t := by
  cases t with
  | nil => exact not_startsMatch_nil
  | cons c t => exact (occurs_cons_eq_false_iff.1 h).1

/-- What can match within a line can also match at its start. -/
theorem StartsMatch.of_false {t : Text} (h : rule.StartsMatch false t) :
    rule.StartsMatch atStart t := by
  obtain ⟨f, a, v, rest, hf, hmatch⟩ := h
  refine ⟨f, a, v, rest, ?_, hmatch⟩
  cases rule with
  | cmpOperand =>
    obtain ⟨lead, op, hop, rfl, hlead⟩ := hf
    exact ⟨lead, op, hop, rfl, Or.inr (hlead.resolve_left fun h => Bool.false_ne_true h.2)⟩
  | _ => exact hf

theorem occurs_of_append : ∀ {atStart : Bool} (u : Text) {t : Text},
    rule.occurs atStart (u ++ t) = false → rule.occurs false t = false
  | _, [], [], _ => occurs_nil
  | _, [], c :: t, h => by
    rw [List.nil_append, occurs_cons_eq_false_iff] at h
    exact occurs_cons_eq_false_iff.2 ⟨fun hs => h.1 hs.of_false, h.2⟩
  | _, c :: u, t, h => occurs_of_append u (occurs_cons_eq_false_iff.1 h).2

/-- A text without matches is left as it is. -/
theorem replace_eq_self (t : Text) :
    rule.occurs atStart t = false → rule.replace atStart t = t := by
  fun_induction Rule.replace rule atStart t with
  | case1 atStart t out rest h ih =>
    intro hocc
    have hnone := matchAt_eq_none_iff.2 (not_startsMatch_of_occurs hocc)
    rw [h] at hnone
    exact absurd hnone (by simp)
  | case2 => exact fun _ => rfl
  | case3 atStart c cs h ih => exact fun hocc => by rw [ih (occurs_cons_eq_false_iff.1 hocc).2]

end Rule

/-! ## Rule after rule -/

theorem applyRules_of_not_occurs {rule : Rule} {line : Text} (h : rule.occurs true line = false)
    (rules : List Rule) : applyRules (rule :: rules) line = applyRules rules line := by
  rw [applyRules, if_neg (by simp [h])]

/-- After a rule, only what the others make of its result counts. -/
theorem applyRules_cons_congr {rule : Rule} {rules rules' : List Rule} {line : Text}
    (h : applyRules rules (rule.apply line) = applyRules rules' (rule.apply line)) :
    applyRules (rule :: rules) line = applyRules (rule :: rules') line := by
  cases hocc : rule.occurs true line with
  | true => rw [applyRules, if_pos hocc, applyRules, if_pos hocc, h]
  | false =>
    rw [Rule.apply, Rule.replace_eq_self line hocc] at h
    rw [applyRules_of_not_occurs hocc, applyRules_of_not_occurs hocc, h]

theorem value_applyRules_cons (rule : Rule) (rules : List Rule) (line : Text) :
    (applyRules (rule :: rules) line).value = (applyRules rules (rule.apply line)).value := by
  cases h : rule.occurs true line with
  | true => rw [applyRules, if_pos h, Logged.value_bind]
  | false => rw [applyRules_of_not_occurs h, Rule.apply, Rule.replace_eq_self line h]

end Cleanup

end MissionScript
