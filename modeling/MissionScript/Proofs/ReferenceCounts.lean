import MissionScript.Proofs.ListingRun
import MissionScript.Proofs.RenderedLine
import MissionScript.Proofs.UsageReport
import Mathlib.Algebra.Ring.Nat
import Mathlib.Data.List.Infix

/-!
# The references of a listing are those of its usage report

A text without blanks and marks has its places in a set line inside the words, so a line holds it
as often as its words do (`occurrences_format`). The cleanup rules take out whole accumulators
between blanks, and so no reference to a string (`occurrences_stripAccumulator`). Of all tokens a
reference alone shows as one, if no name of the function table does. Hence the lines of a listing
hold a reference as often as the report counts it (`sum_occurrences_lines`).
-/

namespace MissionScript

/-! ## Places of a text in another -/

namespace Text

/-- The number of places at which the second text goes on with the first. -/
def occurrences (w t : Text) : Nat := t.tails.countP (w.isPrefixOf ·)

theorem occurrences_cons (w : Text) (c : Char) (t : Text) :
    occurrences w (c :: t) = occurrences w t + if w <+: c :: t then 1 else 0 := by
  simp only [occurrences, List.tails_cons, List.countP_cons, List.isPrefixOf_iff_prefix]

theorem occurrences_eq_zero {w t : Text} (h : ¬ w <:+: t) : occurrences w t = 0 := by
  rw [occurrences, List.countP_eq_zero]
  intro u hu hw
  rw [List.mem_tails] at hu
  have hstart := List.isPrefixOf_iff_prefix.1 hw
  exact h (hstart.isInfix.trans hu.isInfix)

theorem occurrences_eq_zero_of_not_mem {w t : Text} {c : Char} (hc : c ∈ w) (ht : c ∉ t) :
    occurrences w t = 0 := occurrences_eq_zero fun h => ht (h.subset hc)

theorem occurrences_nil {w : Text} (hw : w ≠ []) : occurrences w [] = 0 :=
  occurrences_eq_zero (by simpa using hw)

theorem occurrences_append_cons {w : Text} {c : Char} (hw : w ≠ []) (hc : c ∉ w) :
    ∀ a b : Text, occurrences w (a ++ c :: b) = occurrences w a + occurrences w b
  | [], b => by
    have hstart : ¬ w <+: [] ++ c :: b := by
      rw [isPrefix_append_cons hc]
      simpa using hw
    rw [List.nil_append] at hstart ⊢
    rw [occurrences_cons, if_neg hstart, occurrences_nil hw, Nat.zero_add, Nat.add_zero]
  | d :: a, b => by
    have hstart : w <+: d :: (a ++ c :: b) ↔ w <+: d :: a := by
      rw [← List.cons_append]
      exact isPrefix_append_cons hc
    rw [List.cons_append, occurrences_cons, occurrences_cons, occurrences_append_cons hw hc a b]
    simp only [hstart]
    omega

theorem occurrences_cons_of_not_mem {w : Text} {c : Char} (hw : w ≠ []) (hc : c ∉ w) (b : Text) :
    occurrences w (c :: b) = occurrences w b := by
  have h := occurrences_append_cons hw hc [] b
  rwa [List.nil_append, occurrences_nil hw, Nat.zero_add] at h

end Text

open Text (occurrences)

/-! ## Places in a line -/

namespace Line

variable {w : Text} (hw : w ≠ []) (hmarks : ∀ c ∈ w, c ∉ [' ', '(', ')', ',', ';'])

include hw hmarks

theorem occurrences_behind (u v : Text) (vs : List Text) :
    occurrences w (u ++ behind u (v :: vs))
      = occurrences w u + occurrences w (v ++ behind v vs) := by
  have hmark : ∀ c ∈ [' ', '(', ')', ',', ';'], c ∉ w := fun c hc hmem => hmarks c hmem hc
  rw [behind]
  cases hg : gap u v with
  | true =>
    rw [if_pos rfl, List.cons_append, List.nil_append]
    exact Text.occurrences_append_cons hw (hmark ' ' (by simp)) u _
  | false =>
    simp only [Bool.false_eq_true, if_false, List.nil_append]
    by_cases hu : u = ['(']
    · subst hu
      rw [List.cons_append, List.nil_append,
        Text.occurrences_cons_of_not_mem hw (hmark '(' (by simp)),
        Text.occurrences_cons_of_not_mem hw (hmark '(' (by simp)),
        Text.occurrences_nil hw, Nat.zero_add]
    · rcases gap_eq_false hg hu with rfl | rfl | rfl <;>
        · rw [List.cons_append, List.nil_append,
            Text.occurrences_append_cons hw (hmark _ (by simp)),
            Text.occurrences_cons_of_not_mem hw (hmark _ (by simp))]

theorem occurrences_setWords : ∀ ws : List Text,
    occurrences w (setWords ws) = (ws.map (occurrences w)).sum
  | [] => by
    rw [setWords, Text.occurrences_nil hw]
    rfl
  | [u] => by
    rw [setWords_cons, behind]
    simp
  | u :: v :: vs => by
    rw [setWords_cons, occurrences_behind hw hmarks, ← setWords_cons,
      occurrences_setWords (v :: vs)]
    rfl

omit hw hmarks in
/-- Joining numbers moves no text that is not part of a number. -/
theorem sum_occurrences_mergeNumbers (hnum : ∀ u, IsNumeral u → occurrences w u = 0) :
    ∀ ws : List Text,
      ((mergeNumbers ws).map (occurrences w)).sum = (ws.map (occurrences w)).sum
  | [] => rfl
  | t :: ts => by
    have ih := sum_occurrences_mergeNumbers hnum ts
    cases hj : joins t ts.head? with
    | false =>
      rw [mergeNumbers_cons_of_not_joins hj, List.map_cons, List.sum_cons, ih, List.map_cons,
        List.sum_cons]
    | true =>
      obtain ⟨n, more, hm, hn, hmerge⟩ := exists_mergeNumbers_of_joins hj
      rw [hm, List.map_cons, List.sum_cons, hnum n (isNumeral_of_isNumber hn)] at ih
      rw [hmerge, List.map_cons, List.sum_cons, hnum _ (isNumeral_append_of_joins hj hn), ih,
        List.map_cons, List.sum_cons, hnum t (isNumeral_of_joins hj), Nat.zero_add]

theorem occurrences_format (hnum : ∀ u, IsNumeral u → occurrences w u = 0) (ws : List Text) :
    occurrences w (format ws) = (ws.map (occurrences w)).sum := by
  rw [format, occurrences_setWords hw hmarks, sum_occurrences_mergeNumbers hnum]

end Line

namespace Cleanup

theorem Cuts.occurrences_eq {R : Text → Text → Prop} {before w t t' : Text} (h : Cuts R before t t')
    (hw : w ≠ []) (hsp : ' ' ∉ w) (hacc : ∀ a ∈ accumulators, occurrences w a = 0) :
    occurrences w t' = occurrences w t := by
  induction h with
  | nil => rfl
  | keep c h ih =>
    have hstart := (h.keep c).isPrefix_iff hsp
    rw [Text.occurrences_cons, Text.occurrences_cons, ih]
    simp only [hstart]
  | @drop before a t t' ha _ _ ih =>
    rw [Text.occurrences_cons_of_not_mem hw hsp, Text.occurrences_cons_of_not_mem hw hsp,
      Text.occurrences_append_cons hw hsp a t, hacc a ha, Nat.zero_add, ih]

theorem occurrences_applyRules {w : Text} (hw : w ≠ []) (hsp : ' ' ∉ w)
    (hacc : ∀ a ∈ accumulators, occurrences w a = 0) : ∀ (rules : List Rule) (line : Text),
      occurrences w (applyRules rules line).value = occurrences w line
  | [], _ => rfl
  | rule :: rules, line => by
    rw [value_applyRules_cons, occurrences_applyRules hw hsp hacc rules]
    exact (cuts_apply rule line).occurrences_eq hw hsp hacc

end Cleanup

/-! ## Places of a string reference -/

namespace Cleanup

/-- The text of a reference to a string. -/
def reference (index : UInt8) : Text := referenceStart ++ (Text.decimal index.toNat ++ [']'])

variable {index : UInt8}

theorem reference_ne_nil : reference index ≠ [] := by simp [reference, referenceStart_eq]

theorem mem_reference : 'S' ∈ reference index := by simp [reference, referenceStart_eq]

theorem reference_marks : ∀ c ∈ reference index, c ∉ [' ', '(', ')', ',', ';'] := by
  intro c hc
  simp only [reference, referenceStart_eq, List.mem_append, List.mem_cons, List.not_mem_nil,
    or_false] at hc
  rcases hc with (rfl | rfl | rfl | rfl) | hc | rfl
  · decide
  · decide
  · decide
  · decide
  · have hdigit := Text.isAsciiDigit_of_mem_decimal hc
    intro hmem
    simp only [List.mem_cons, List.not_mem_nil, or_false] at hmem
    rcases hmem with rfl | rfl | rfl | rfl | rfl <;> exact absurd hdigit (by decide)
  · decide

theorem occurrences_of_isNumeral {u : Text} (hu : Line.IsNumeral u) :
    occurrences (reference index) u = 0 := by
  refine Text.occurrences_eq_zero_of_not_mem mem_reference fun hmem => ?_
  rcases hu.2 'S' hmem with h | h
  · exact absurd h (by decide)
  · exact absurd h (by decide)

theorem occurrences_of_accumulator {a : Text} (ha : a ∈ accumulators) :
    occurrences (reference index) a = 0 := by
  refine Text.occurrences_eq_zero_of_not_mem mem_reference ?_
  simp only [accumulators, List.mem_cons, List.not_mem_nil, or_false] at ha
  rcases ha with rfl | rfl | rfl | rfl <;> decide

/-- The cleanup rules keep every reference and make none. -/
theorem occurrences_stripAccumulator (line : Text) :
    occurrences (reference index) (stripAccumulator line).value
      = occurrences (reference index) line :=
  occurrences_applyRules reference_ne_nil (fun hsp => reference_marks ' ' hsp (by simp))
    (fun _ => occurrences_of_accumulator) Rule.all line

theorem reference_isPrefix_iff {i : UInt8} : reference index <+: reference i ↔ i = index := by
  constructor
  · intro h
    rw [reference, reference, List.prefix_append_right_inj] at h
    rcases List.prefix_concat_iff.1 h with h | h
    · have hdigits := (List.append_inj' h rfl).1
      exact (UInt8.toNat_inj.1 (Text.decimal_injective hdigits)).symm
    · have hmem : ']' ∈ Text.decimal i.toNat := h.subset (by simp)
      exact absurd (Text.isAsciiDigit_of_mem_decimal hmem) (by decide)
  · rintro rfl
    exact List.prefix_rfl

theorem occurrences_reference (i : UInt8) :
    occurrences (reference index) (reference i) = if i = index then 1 else 0 := by
  have htail : 'S' ∉ ['T', 'R', '['] ++ (Text.decimal i.toNat ++ [']']) := by
    have hdigits : 'S' ∉ Text.decimal i.toNat := fun hmem =>
      absurd (Text.isAsciiDigit_of_mem_decimal hmem) (by decide)
    simp [hdigits]
  have hcons : reference i = 'S' :: (['T', 'R', '['] ++ (Text.decimal i.toNat ++ [']'])) := rfl
  rw [hcons, Text.occurrences_cons, Text.occurrences_eq_zero_of_not_mem mem_reference htail,
    ← hcons, Nat.zero_add]
  simp only [reference_isPrefix_iff]

end Cleanup

open Cleanup

/-- No name of the table holds the start of a string reference. -/
def FunctionTable.NoReference (functions : FunctionTable) : Prop :=
  ∀ id name, functions.name? id = some name → ¬ "STR[".toList <:+: name.toList

namespace Token

theorem occurrences_render {index : UInt8} {slots : SlotTable} {t : Token}
    (hname : ∀ id text, t = name id text → ¬ referenceStart <:+: text.toList) :
    occurrences (reference index) (render slots t) = if t = stringRef index then 1 else 0 := by
  cases t with
  | stringRef i =>
    have hrender : render slots (stringRef i) = reference i := by
      rw [render, List.append_assoc]
      rfl
    rw [hrender, occurrences_reference]
    simp only [stringRef.injEq]
  | name id text =>
    have hinfix : ¬ reference index <:+: text.toList := fun h =>
      hname id text rfl ((List.prefix_append _ _).isInfix.trans h)
    rw [if_neg (by simp)]
    exact Text.occurrences_eq_zero hinfix
  | char | slot | integer | unknown | terminator =>
    rw [if_neg (by simp)]
    refine Text.occurrences_eq_zero fun h => ?_
    exact (isPlain_render_of_ne_name (by simp) (by simp)).2
      ((List.prefix_append _ _).isInfix.trans h)

theorem sum_occurrences_render {index : UInt8} {slots : SlotTable} : ∀ {tokens : List Token},
    (∀ t ∈ tokens, ∀ id text, t = name id text → ¬ referenceStart <:+: text.toList) →
      ((tokens.map (render slots)).map (occurrences (reference index))).sum
        = tokens.count (stringRef index)
  | [], _ => rfl
  | t :: tokens, h => by
    rw [List.map_cons, List.map_cons, List.sum_cons, occurrences_render (h t List.mem_cons_self),
      sum_occurrences_render fun u hu => h u (List.mem_cons_of_mem t hu), List.count_cons]
    simp only [beq_iff_eq]
    omega

end Token

variable (reading : Reading) {index : UInt8}

/-- Without a string table, the line of a statement shows the references of its tokens. -/
theorem occurrences_text (hstrings : reading.tables.strings = none)
    (h : reading.tables.functions.NoReference) (slots : SlotTable) (segment : List UInt8) :
    occurrences (reference index) (Statement.render reading slots segment).value.1.text
      = (reading.tokens segment).count (.stringRef index) := by
  have htext : (Statement.render reading slots segment).value.1.text
      = (stripAccumulator (Line.format ((reading.tokens segment).map (Token.render
          (Statement.declared slots (reading.tokens segment)).value)))).value := by
    simp only [Statement.render, hstrings]
    rfl
  rw [htext, occurrences_stripAccumulator,
    Line.occurrences_format reference_ne_nil reference_marks fun _ => occurrences_of_isNumeral]
  refine Token.sum_occurrences_render ?_
  rintro t ht id text rfl
  exact h id text (Reading.name?_of_mem_tokens ht)

theorem sum_occurrences_linesFrom (hstrings : reading.tables.strings = none)
    (h : reading.tables.functions.NoReference) :
    ∀ (segments : List (List UInt8)) (p : Listing.Progress),
      ((Listing.linesFrom reading p segments).value.1.map
          fun l => occurrences (reference index) l.text).sum
        = (segments.map reading.tokens).flatten.count (.stringRef index)
  | [], _ => rfl
  | segment :: segments, p => by
    rw [Listing.linesFrom_cons, List.map_cons, List.sum_cons,
      sum_occurrences_linesFrom hstrings h segments, List.map_cons, List.flatten_cons,
      List.count_append, ← occurrences_text reading hstrings h p.slots segment]
    rfl

/-- A report counts the references of a script. -/
theorem Usage.count_collect (unitName : String) (unit : CompiledUnit) :
    (((Usage.collect reading unitName unit).value.get? index).map StringUse.count).getD 0
      = (reading.script unit).flatten.count (.stringRef index) := by
  obtain ⟨-, hholds⟩ := Usage.entryOf_spec (reading.tables.string? index.toNat) unitName
    (Usage.referencesTo reading.tables.functions (reading.script unit) index)
  rw [Usage.get?_eq_entryOf, ← Usage.length_referencesTo, ← hholds.count]
  cases Usage.entryOf _ unitName (Usage.referencesTo reading.tables.functions _ index) <;> rfl

/-- The lines of a listing without a string table hold the text of a reference as often as the
usage report of the unit counts it, if no name of the function table can be taken for one. -/
theorem sum_occurrences_lines (tables : SymbolTables) (rule : MarkerRule) (unitName : String)
    (unit : CompiledUnit) (index : UInt8) (h : tables.functions.NoReference) :
    ((Listing.ofUnit ⟨tables.withoutStrings, rule⟩ unit).value.lines.map fun l =>
        occurrences ("STR[".toList ++ Text.decimal index.toNat ++ [']']) l.text).sum
      = (((Usage.collect ⟨tables, rule⟩ unitName unit).value.get? index).map
          StringUse.count).getD 0 := by
  have hreference : "STR[".toList ++ Text.decimal index.toNat ++ [']'] = reference index := by
    rw [List.append_assoc]
    rfl
  rw [hreference, Listing.value_ofUnit, Usage.count_collect]
  exact sum_occurrences_linesFrom ⟨tables.withoutStrings, rule⟩ rfl h unit.statements {}

def SymbolTables.single : SymbolTables :=
  ⟨⟨162, ByteMap.empty.insert 14 "GetPlayerSide"⟩, none⟩

/-- The unit of `GetPlayerSide (STR[5], STR[15])` and `STR[5]`. -/
def CompiledUnit.sample : CompiledUnit :=
  ⟨0, 0, [0x8e, 0x80, 0x28, 0x82, 0x85, 0x2c, 0x82, 0x8f, 0x29, 0, 0x82, 0x85]⟩

theorem sum_occurrences_lines_sample :
    SymbolTables.single.functions.NoReference
      ∧ ((Listing.ofUnit ⟨SymbolTables.single, .from81⟩ .sample).value.lines.map fun l =>
          occurrences ("STR[".toList ++ Text.decimal (5 : UInt8).toNat ++ [']']) l.text).sum
        = 2 := by
  have hnames : SymbolTables.single.functions.NoReference := by
    intro id name hname
    simp only [SymbolTables.single, FunctionTable.name?, ByteMap.get?_insert,
      ByteMap.get?_empty] at hname
    split_ifs at hname
    rw [← Option.some.inj hname]
    decide +kernel
  refine ⟨hnames, ?_⟩
  refine (sum_occurrences_lines SymbolTables.single .from81 "" .sample 5 hnames).trans ?_
  decide +kernel

end MissionScript
