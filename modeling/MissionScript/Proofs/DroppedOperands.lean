import MissionScript.Proofs.RenderedLine

/-!
# What stands behind a dropped reference

The rules for values drop a reference to slot 0 in front of a capital letter or a digit, so an
operand follows it. The rule for comparisons comes last and asks nothing of what follows. What the
rules drop one after another can be dropped at once (`Drops.trans`), for no rule for values drops a
word next to another accumulator. Hence an operator stands behind a dropped reference after a
comparison only (`operand_behind_dropped`), and there the reference can be the operand itself
(`operand_lost`).
-/

namespace MissionScript

namespace Cleanup

open Line

/-! ## One rule after another -/

namespace Drops

variable {Q R : Text → Text → Text → Prop} {ws us vs : List Text}

theorem imp (h : Drops Q ws us) (hQR : ∀ w a x, [w, a, x] <:+: ws → Q w a x → R w a x) :
    Drops R ws us := by
  induction h with
  | nil => exact .nil
  | keep w _ ih => exact .keep w (ih fun v a x hin => hQR v a x (List.infix_cons hin))
  | @drop w a x ws _ hQ _ ih =>
    have hin : [w, a, x] <:+: w :: a :: x :: ws := (List.prefix_append [w, a, x] ws).isInfix
    exact .drop (hQR w a x hin hQ)
      (ih fun v b y hin => hQR v b y (List.infix_cons (List.infix_cons hin)))

theorem head? (h : Drops R ws us) : us.head? = ws.head? := by
  cases h <;> rfl

/-- Nothing is dropped where the relation holds nowhere. -/
theorem eq_of_not (h : Drops R ws us) (hR : ∀ w a x, [w, a, x] <:+: ws → ¬ R w a x) :
    us = ws := by
  induction h with
  | nil => rfl
  | keep w _ ih => rw [ih fun v a x hin => hR v a x (List.infix_cons hin)]
  | @drop w a x ws _ hdrop _ _ =>
    exact absurd hdrop (hR w a x (List.prefix_append [w, a, x] ws).isInfix)

theorem subset (h : Drops R ws us) : us ⊆ ws := by
  induction h with
  | nil => exact List.Subset.refl []
  | keep w _ ih => exact List.cons_subset_cons w ih
  | drop _ _ ih => exact List.cons_subset_cons _ (List.subset_cons_of_subset _ ih)

/-- Words dropped after others can be dropped together with them, if no accumulator stood next to
the others. -/
theorem trans (hQ : ∀ w a x, Q w a x → R w a x ∧ w ∉ accumulators ∧ x ∉ accumulators)
    (hR : ∀ w a x, R w a x → a ∈ accumulators) (hws : Drops Q ws us) (hus : Drops R us vs) :
    Drops R ws vs := by
  induction hus generalizing ws with
  | nil =>
    cases hws
    exact .nil
  | keep w _ ih =>
    cases hws with
    | keep _ h => exact .keep w (ih h)
    | drop hw h => exact .drop (hQ _ _ _ hw).1 (ih h)
  | drop hw _ ih =>
    have ha := hR _ _ _ hw
    cases hws with
    | keep _ h =>
      cases h with
      | keep _ h =>
        obtain ⟨more, rfl⟩ := List.head?_eq_some_iff.1 h.head?.symm
        exact .drop hw (ih h)
      | drop hdrop _ => exact absurd ha (hQ _ _ _ hdrop).2.1
    | drop hdrop h =>
      obtain rfl := Option.some.inj h.head?
      exact absurd ha (hQ _ _ _ hdrop).2.2

end Drops

theorem Rule.Around.not_accumulator {rule : Rule} (hrule : rule ≠ .cmpOperand) {leads : List Char}
    {w x : Text} (h : rule.Around leads w x) : w ∉ accumulators ∧ x ∉ accumulators := by
  obtain ⟨hlast, hval⟩ : w.getLast? = some '=' ∧ x.head?.any startsValue = true := by
    cases rule with
    | cmpOperand => exact absurd rfl hrule
    | _ => exact h
  constructor
  · intro hw
    rw [getLast?_accumulator hw] at hlast
    exact absurd hlast (by decide)
  · intro hx
    rw [not_startsValue_of_accumulator hx] at hval
    exact absurd hval (by simp)

theorem exists_drops_applyRules_cons (rule : Rule) (rules : List Rule) {ws : List Text}
    (hws : ∀ w ∈ ws, IsWord w) :
    ∃ us, Drops rule.Between ws us ∧ (applyRules (rule :: rules) (setWords ws)).value
      = (applyRules rules (setWords us)).value := by
  obtain ⟨us, hus, happly⟩ := exists_drops_apply rule hws
  exact ⟨us, hus, by rw [value_applyRules_cons, happly]⟩

/-- Rules for values and the rule for comparisons after them drop words of a set line, each as one
of the rules asks. -/
theorem exists_drops_applyRules : ∀ (rules : List Rule), .cmpOperand ∉ rules →
    ∀ {ws : List Text}, (∀ w ∈ ws, IsWord w) →
      ∃ us, Drops (fun w a x => ∃ rule : Rule, rule.Between w a x) ws us
        ∧ (applyRules (rules ++ [.cmpOperand]) (setWords ws)).value = setWords us
  | [], _, ws, hws => by
    obtain ⟨us, hus, hvalue⟩ := exists_drops_applyRules_cons .cmpOperand [] hws
    exact ⟨us, hus.imp fun w a x _ h => ⟨_, h⟩, hvalue⟩
  | rule :: rules, hrules, ws, hws => by
    rw [List.mem_cons, not_or] at hrules
    obtain ⟨us, hus, hvalue⟩ := exists_drops_applyRules_cons rule (rules ++ [.cmpOperand]) hws
    obtain ⟨vs, hvs, hrest⟩ :=
      exists_drops_applyRules rules hrules.2 fun w hw => hws w (hus.subset hw)
    refine ⟨vs, hus.trans (fun w a x h => ⟨⟨rule, h⟩, ?_⟩) ?_ hvs, hvalue.trans hrest⟩
    · exact h.1.not_accumulator (Ne.symm hrules.1)
    · rintro w a x ⟨rule, h⟩
      exact h.2.1

theorem exists_drops_stripAccumulator {ws : List Text} (hws : ∀ w ∈ ws, IsWord w) :
    ∃ us, Drops (fun w a x => ∃ rule : Rule, rule.Between w a x) ws us
      ∧ (stripAccumulator (setWords ws)).value = setWords us :=
  exists_drops_applyRules [.assignName, .assignBool, .eqBool, .eqInt] (by decide) hws

/-! ## Operands -/

def operators : List Text :=
  comparisons ++ ["&&".toList, "||".toList, "=".toList, "+".toList, "-".toList]

/-- A word that an operand can start with. -/
def StartsOperand (x : Text) : Prop := x ∉ operators ∧ x ∉ closingMarks

instance (x : Text) : Decidable (StartsOperand x) := inferInstanceAs (Decidable (_ ∧ _))

/-- Every place of a word in a list has an operand behind it. -/
def Operated (w : Text) : List Text → Prop
  | [] => True
  | u :: us => (u = w → ∃ x ∈ us.head?, StartsOperand x) ∧ Operated w us

instance decidableOperated (w : Text) : (ws : List Text) → Decidable (Operated w ws)
  | [] => isTrue trivial
  | _ :: us => @instDecidableAnd _ _ _ (decidableOperated w us)

theorem Drops.operated {R : Text → Text → Text → Prop} {w : Text} {ws us : List Text}
    (hR : ∀ a x, R w a x → StartsOperand x) (h : Drops R ws us) (hws : Operated w ws) :
    Operated w us := by
  induction h with
  | nil => exact hws
  | keep u h ih =>
    refine ⟨fun hu => ?_, ih hws.2⟩
    rw [h.head?]
    exact hws.1 hu
  | drop hdrop h ih =>
    refine ⟨fun hu => ?_, ih hws.2.2⟩
    rw [h.head?]
    exact ⟨_, rfl, hR _ _ (hu ▸ hdrop)⟩

theorem not_startsValue_of_operator {x : Text} (h : x ∈ operators) :
    x.head?.any startsValue = false := by
  revert x
  decide

/-- A rule that drops a word in front of an operator is the rule for comparisons. -/
theorem Rule.Between.endsInComparison {rule : Rule} {w a x : Text} (h : rule.Between w a x)
    (hx : x ∈ operators) : EndsInComparison ['('] w := by
  cases rule with
  | cmpOperand => exact h.1
  | _ =>
    have hval := h.1.2
    rw [not_startsValue_of_operator hx] at hval
    exact absurd hval (by simp)

end Cleanup

open Cleanup Line

/-- Of the words of a line, slot 0 alone shows as an accumulator, if no name does. -/
theorem eq_name_zero_of_mem_mergeNumbers {slots : SlotTable} {tokens : List Token} {a : Text}
    (hname : ∀ t ∈ tokens, ∀ id text, t = .name id text → text.toList ∉ accumulators)
    (ha : a ∈ mergeNumbers (tokens.map (Token.render slots))) (hacc : a ∈ accumulators) :
    a = slots.name 0 := by
  rcases mem_mergeNumbers ha with hmem | hnum
  · obtain ⟨t, ht, rfl⟩ := List.mem_map.1 hmem
    rw [Token.eq_slot_zero_of_name (hname t ht) hacc]
    rfl
  · exact absurd hnum (not_isNumeral_of_accumulator hacc)

/-- The cleanup takes a line to the set line of its words less some references to slot 0. Behind
each of them stands a word, no closing mark, and it is an operator only if a comparison stands in
front of the reference. So an operator keeps its operand, unless it is a comparison with slot 0 and
then another operator behind it. -/
theorem operand_behind_dropped (reading : Reading) (slots : SlotTable) (segment : List UInt8)
    (hspace : ∀ id name, reading.tables.functions.name? id = some name → ' ' ∉ name.toList)
    (hacc : ∀ id name, reading.tables.functions.name? id = some name →
      name.toList ∉ accumulators) :
    let words := mergeNumbers ((reading.tokens segment).map (Token.render slots))
    ∃ kept, (stripAccumulator (format ((reading.tokens segment).map (Token.render slots)))).value
        = setWords kept
      ∧ Drops (fun w a x => a = slots.name 0 ∧ x ∉ closingMarks
          ∧ (x ∈ operators → EndsInComparison ['('] w)) words kept
      ∧ ∀ w, (EndsInComparison ['('] w → ∀ x ∈ operators, ¬ [w, slots.name 0, x] <:+: words) →
          Operated w words → Operated w kept := by
  intro words
  have hwords : ∀ w ∈ words, IsWord w := by
    refine isWord_mergeNumbers (List.forall_mem_map.2 fun t ht => ?_)
    refine Token.isWord_render_of_name ?_
    rintro id text rfl hsp
    exact absurd hsp (hspace id text (Reading.name?_of_mem_tokens ht))
  have hname : ∀ t ∈ reading.tokens segment, ∀ id text, t = .name id text →
      text.toList ∉ accumulators := by
    rintro t ht id text rfl
    exact hacc id text (Reading.name?_of_mem_tokens ht)
  obtain ⟨kept, hkept, hvalue⟩ := exists_drops_stripAccumulator hwords
  have hdrops : Drops (fun w a x => a = slots.name 0 ∧ x ∉ closingMarks
      ∧ (x ∈ operators → EndsInComparison ['('] w)) words kept := by
    refine hkept.imp ?_
    rintro w a x hin ⟨rule, h⟩
    have ha : a ∈ words := hin.subset (by simp)
    exact ⟨eq_name_zero_of_mem_mergeNumbers hname ha h.2.1, h.2.2, h.endsInComparison⟩
  refine ⟨kept, hvalue, hdrops, fun w hw => ?_⟩
  have hoperand : Drops (fun u _ x => u = w → StartsOperand x) words kept := by
    refine hdrops.imp ?_
    rintro u a x hin ⟨rfl, hclose, hop⟩ rfl
    exact ⟨fun hx => hw (hop hx) x hx hin, hclose⟩
  exact hoperand.operated fun a x h => h rfl

/-- A table of a few names, under the ids that they have in the game. -/
def Reading.operatorSample : Reading where
  tables := {
    functions := {
      keywordThreshold := 162
      names := .ofList [(165, "if"), (168, "=="), (174, "&&"), (177, "TRUE"), (180, "=")] }
    strings := none }

theorem Reading.name?_operatorSample {id : UInt8} {name : String}
    (h : Reading.operatorSample.tables.functions.name? id = some name) :
    ' ' ∉ name.toList ∧ name.toList ∉ accumulators := by
  have hall : ∀ e ∈ Reading.operatorSample.tables.functions.names.toList,
      ' ' ∉ e.2.toList ∧ e.2.toList ∉ accumulators := by decide +kernel
  exact hall (id, name) (ByteMap.mem_toList.2 h)

/-- The bytes of `v2 = v0 TRUE`. -/
def assignmentSegment : List UInt8 := [0x81, 0x82, 0x80, 0xb4, 0x81, 0x80, 0x80, 0xb1]

theorem operand_behind_dropped_assignment :
    let words := ["v2".toList, "=".toList, "v0".toList, "TRUE".toList]
    ∃ kept, "v2 = TRUE".toList = setWords kept
      ∧ Drops (fun w a x => a = "v0".toList ∧ x ∉ closingMarks
          ∧ (x ∈ operators → EndsInComparison ['('] w)) words kept
      ∧ Operated "=".toList kept := by
  intro words
  have hwords : mergeNumbers ((Reading.operatorSample.tokens assignmentSegment).map
      (Token.render .empty)) = words := by decide +kernel
  have hline : (stripAccumulator (setWords words)).value = "v2 = TRUE".toList := by decide +kernel
  obtain ⟨kept, hvalue, hdrops, hoperated⟩ := operand_behind_dropped .operatorSample .empty
    assignmentSegment (fun _ _ h => (Reading.name?_operatorSample h).1)
    (fun _ _ h => (Reading.name?_operatorSample h).2)
  rw [format, hwords, hline] at hvalue
  rw [hwords] at hdrops hoperated
  refine ⟨kept, hvalue, hdrops, hoperated "=".toList (fun _ => ?_) ?_⟩
  · decide
  · decide

/-- The bytes of `if (v2 == v0 && v3)`. -/
def conditionSegment : List UInt8 :=
  [0x80, 0xa5, 0x28, 0x81, 0x82, 0x80, 0xa8, 0x81, 0x80, 0x80, 0xae, 0x81, 0x83, 0x29]

/-- The operand of a comparison is dropped in front of an operator, which no dropping of references
in front of other words comes to. -/
theorem operand_lost :
    (∀ id name, Reading.operatorSample.tables.functions.name? id = some name →
        ' ' ∉ name.toList ∧ name.toList ∉ accumulators)
      ∧ let words := mergeNumbers ((Reading.operatorSample.tokens conditionSegment).map
          (Token.render .empty))
        setWords words = "if (v2 == v0 && v3)".toList
          ∧ (stripAccumulator (setWords words)).value = "if (v2 == && v3)".toList
          ∧ ¬ ∃ kept, (stripAccumulator (setWords words)).value = setWords kept
            ∧ Drops (fun _ a x => a = SlotTable.name .empty 0 ∧ x ∉ operators) words kept := by
  refine ⟨fun id name => Reading.name?_operatorSample, ?_⟩
  intro words
  have hline : setWords words = "if (v2 == v0 && v3)".toList := by decide +kernel
  have hclean : (stripAccumulator (setWords words)).value = "if (v2 == && v3)".toList := by
    rw [hline]
    decide +kernel
  refine ⟨hline, hclean, ?_⟩
  rintro ⟨kept, hvalue, hdrops⟩
  have hwords : words = ["if".toList, "(".toList, "v2".toList, "==".toList, "v0".toList,
      "&&".toList, "v3".toList, ")".toList] := by decide +kernel
  have hkept : kept = words := by
    refine hdrops.eq_of_not ?_
    rintro w a x hin ⟨rfl, hx⟩
    have hzero : SlotTable.name .empty 0 = ['v', '0'] := by decide
    rw [hwords, hzero] at hin
    obtain ⟨-, rfl⟩ : w = ['=', '='] ∧ x = ['&', '&'] := by
      simpa [List.infix_cons_iff] using hin
    exact hx (by decide)
  rw [hclean, hkept, hline] at hvalue
  exact absurd hvalue (by decide)

end MissionScript
