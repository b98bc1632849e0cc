import MissionScript.Proofs.AccumulatorDrops
import MissionScript.Proofs.DecodeSteps
import MissionScript.Proofs.StringSubstitution

/-!
# The line of a statement

The cleanup rules and the substitution work on a set line as a text, and yet what they leave is
again the set line of tokens: those of the segment less some references to slot 0, with every
string reference shown as the quoted name behind it (`exists_text_eq_format`). This needs of the
function table only that no name holds a space or the start of a string reference and that none
shows as slot 0 does. Of the names in the string table nothing is asked.
-/

namespace MissionScript

open Cleanup

/-- No name of the table can be taken for two words, a string reference or slot 0. -/
structure FunctionTable.PlainNames (functions : FunctionTable) : Prop where
  no_space : ∀ id name, functions.name? id = some name → ' ' ∉ name.toList
  no_reference : ∀ id name, functions.name? id = some name → ¬ "STR[".toList <:+: name.toList
  no_accumulator : ∀ id name, functions.name? id = some name → name.toList ∉ accumulators

/-! ## The words of tokens -/

/-- A text without a space and without the first letter of a string reference. -/
def Text.IsSolid (w : Text) : Prop := ∀ c ∈ w, c ≠ ' ' ∧ c ≠ 'S'

namespace Text.IsSolid

theorem decimal (n : Nat) : IsSolid (Text.decimal n) := by
  intro c hc
  have hdigit := isAsciiDigit_of_mem_decimal hc
  constructor
  · rintro rfl
    exact absurd hdigit (by decide)
  · rintro rfl
    exact absurd hdigit (by decide)

theorem hexByte (b : UInt8) : IsSolid (Text.hexByte b) := by
  have hdigit : ∀ n < 16, Nat.digitChar n ≠ ' ' ∧ Nat.digitChar n ≠ 'S' := by decide
  have hb := b.toNat_lt
  intro c hc
  simp only [Text.hexByte, List.mem_cons, List.not_mem_nil, or_false] at hc
  rcases hc with rfl | rfl
  · exact hdigit _ (by omega)
  · exact hdigit _ (by omega)

theorem append {w u : Text} (hw : IsSolid w) (hu : IsSolid u) : IsSolid (w ++ u) := by
  intro c hc
  rcases List.mem_append.1 hc with hc | hc
  · exact hw c hc
  · exact hu c hc

end Text.IsSolid

/-- A word that holds no start of a string reference. -/
def Text.IsPlain (w : Text) : Prop := Line.IsWord w ∧ ¬ referenceStart <:+: w

theorem Text.IsSolid.isPlain {w : Text} (h : w.IsSolid) : w.IsPlain := by
  refine ⟨fun hsp => absurd rfl (h ' ' hsp).1, fun hsub => ?_⟩
  exact absurd rfl (h 'S' (hsub.subset (by decide))).2

theorem Text.isPlain_singleton (c : Char) : Text.IsPlain [c] := by
  refine ⟨fun hsp => ?_, fun hsub => ?_⟩
  · rw [List.mem_singleton.1 hsp]
  · have := hsub.length_le
    simp [referenceStart_eq] at this

theorem SlotTable.isSolid_name (slots : SlotTable) (s : UInt8) : (slots.name s).IsSolid := by
  have hdigits := Text.IsSolid.decimal s.toNat
  unfold SlotTable.name
  split
  · rename_i ty _
    have hkeyword : Text.IsSolid (ty.keyword.toList ++ ['_']) := by
      cases ty <;> simp [Text.IsSolid, VarType.keyword]
    simpa using hkeyword.append hdigits
  · have hv : Text.IsSolid ['v'] := by simp [Text.IsSolid]
    exact hv.append hdigits

/-- Slot 0 alone shows as an accumulator. -/
theorem SlotTable.eq_zero_of_name_mem {slots : SlotTable} {s : UInt8}
    (h : slots.name s ∈ accumulators) : s = 0 := by
  have hacc : accumulators = [['v', '0'], ['i', 'n', 't', '_', '0'], ['o', 'b', 'j', '_', '0'],
      ['p', 'o', 's', '_', '0']] := rfl
  have hzero : Text.decimal s.toNat = ['0'] := by
    rw [hacc] at h
    unfold SlotTable.name at h
    split at h
    · rename_i ty _
      cases ty <;> simpa [VarType.keyword] using h
    · simpa using h
  exact UInt8.toNat_inj.1 (Text.decimal_injective (n := 0) hzero)

namespace Token

variable {slots : SlotTable} {t : Token}

/-- The text of a token in a finished line: a string reference shows as the quoted name behind
it, if there is one. -/
def shown (tables : SymbolTables) (slots : SlotTable) : Token → Text
  | stringRef i =>
    match tables.string? i.toNat with
    | some text => '"' :: (text.toList ++ ['"'])
    | none => "STR[".toList ++ Text.decimal i.toNat ++ [']']
  | t => render slots t

/-- A token that is no name, or a name that shows as a word of its own. -/
def HasPlainName (t : Token) : Prop :=
  ∀ id text, t = name id text → Text.IsPlain text.toList ∧ text.toList ∉ accumulators

theorem isPlain_render_of_ne_name (hname : ∀ id text, t ≠ name id text)
    (href : ∀ i, t ≠ stringRef i) : (render slots t).IsPlain := by
  cases t with
  | char b =>
    rw [render]
    split_ifs
    · exact Text.isPlain_singleton _
    · have hopen : Text.IsSolid "<0x".toList := by simp [Text.IsSolid]
      have hclose : Text.IsSolid ['>'] := by simp [Text.IsSolid]
      exact ((hopen.append (.hexByte b)).append hclose).isPlain
  | name id text => exact absurd rfl (hname id text)
  | slot s => exact (SlotTable.isSolid_name slots s).isPlain
  | stringRef i => exact absurd rfl (href i)
  | integer v => exact (Text.IsSolid.decimal v.toNat).isPlain
  | unknown id =>
    have hfront : Text.IsSolid "UNK_".toList := by simp [Text.IsSolid]
    exact (hfront.append (.decimal id.toNat)).isPlain
  | terminator => exact Text.isPlain_singleton _

theorem isPlain_render (hname : t.HasPlainName) (href : ∀ i, t ≠ stringRef i) :
    (render slots t).IsPlain := by
  cases t with
  | name id text => exact (hname id text rfl).1
  | _ => exact isPlain_render_of_ne_name (by simp) href

theorem isWord_render_stringRef (i : UInt8) : Line.IsWord (render slots (stringRef i)) := by
  intro hsp
  have hdigits := Text.IsSolid.decimal i.toNat
  simp only [render, List.mem_append] at hsp
  rcases hsp with (hsp | hsp) | hsp
  · exact absurd hsp (by decide)
  · exact absurd rfl (hdigits ' ' hsp).1
  · exact absurd hsp (by decide)

theorem isWord_render_of_name (hname : ∀ id text, t = name id text → Line.IsWord text.toList) :
    Line.IsWord (render slots t) := by
  cases t with
  | name id text => exact hname id text rfl
  | stringRef i => exact isWord_render_stringRef i
  | _ => exact (isPlain_render_of_ne_name (by simp) (by simp)).1

theorem isWord_render (hname : t.HasPlainName) : Line.IsWord (render slots t) :=
  isWord_render_of_name fun id text ht => (hname id text ht).1.1

theorem head_of_accumulator {c : Char} {more : Text} (h : c :: more ∈ accumulators) :
    c ∈ ['v', 'i', 'o', 'p'] ∧ more ≠ [] := by
  simp only [accumulators, List.mem_cons, List.not_mem_nil, or_false] at h
  rcases h with h | h | h | h <;>
    · obtain ⟨rfl, rfl⟩ := List.cons.inj h
      exact ⟨by decide, by decide⟩

/-- Of all tokens, slot 0 alone shows as an accumulator, if no name does. -/
theorem eq_slot_zero_of_name (hname : ∀ id text, t = name id text → text.toList ∉ accumulators)
    (h : render slots t ∈ accumulators) : t = slot 0 := by
  cases t with
  | char b =>
    rw [render] at h
    split_ifs at h
    · exact absurd rfl (head_of_accumulator h).2
    · exact absurd (head_of_accumulator h).1 (by decide)
  | name id text => exact absurd h (hname id text rfl)
  | slot s => rw [SlotTable.eq_zero_of_name_mem h]
  | stringRef i => exact absurd (head_of_accumulator h).1 (by decide)
  | integer v =>
    exact absurd ⟨Text.decimal_ne_nil _, fun c hc => Or.inl (Text.isAsciiDigit_of_mem_decimal hc)⟩
      (not_isNumeral_of_accumulator h)
  | unknown id => exact absurd (head_of_accumulator h).1 (by decide)
  | terminator => exact absurd rfl (head_of_accumulator h).2

theorem eq_slot_zero (hname : t.HasPlainName) (h : render slots t ∈ accumulators) : t = slot 0 :=
  eq_slot_zero_of_name (fun id text ht => (hname id text ht).2) h

theorem shown_stringRef (functions : FunctionTable) (strings : StringTable) (i : UInt8) :
    shown ⟨functions, some strings⟩ slots (stringRef i)
      = resolve strings (Text.decimal i.toNat) := by
  rw [resolve, Text.digits?_decimal]
  rfl

theorem shown_eq_render (tables : SymbolTables) (href : ∀ i, t ≠ stringRef i) :
    shown tables slots t = render slots t := by
  cases t with
  | stringRef i => exact absurd rfl (href i)
  | _ => rfl

theorem shown_withoutStrings (functions : FunctionTable) (t : Token) :
    shown ⟨functions, none⟩ slots t = render slots t := by
  cases t <;> rfl

/-- Substitution resolves each token's text to what a finished line shows for it. -/
theorem resolves_shown (functions : FunctionTable) (strings : StringTable)
    (hname : t.HasPlainName) :
    Resolves strings (render slots t) (shown ⟨functions, some strings⟩ slots t) := by
  by_cases href : ∃ i, t = stringRef i
  · obtain ⟨i, rfl⟩ := href
    rw [shown_stringRef, render, List.append_assoc]
    exact .reference i.toNat
  · push Not at href
    rw [shown_eq_render _ href]
    exact .plain (isPlain_render hname href).2

end Token

/-! ## The whole line -/

theorem FunctionTable.PlainNames.hasPlainName {reading : Reading} {segment : List UInt8} {t : Token}
    (h : reading.tables.functions.PlainNames) (ht : t ∈ reading.tokens segment) :
    t.HasPlainName := by
  rintro id text rfl
  have hid := Reading.name?_of_mem_tokens ht
  have hword : Line.IsWord text.toList := fun hsp => absurd hsp (h.no_space id text hid)
  exact ⟨⟨hword, h.no_reference id text hid⟩, h.no_accumulator id text hid⟩

theorem substituteStrings_format (tables : SymbolTables) (slots : SlotTable) {tokens : List Token}
    (h : ∀ t ∈ tokens, t.HasPlainName) :
    substituteStrings tables.strings (Line.format (tokens.map (Token.render slots)))
      = Line.format (tokens.map (Token.shown tables slots)) := by
  obtain ⟨functions, strings⟩ := tables
  cases strings with
  | none =>
    rw [funext (Token.shown_withoutStrings functions)]
    rfl
  | some strings =>
    refine substituteWith_format ?_
    rw [List.forall₂_map_left_iff, List.forall₂_map_right_iff, List.forall₂_same]
    exact fun t ht => Token.resolves_shown functions strings (h t ht)

/-- The line of a statement is set from its tokens less some references to slot 0, each slot under
the declarations so far and each string reference as the name behind it. -/
theorem exists_text_eq_format (reading : Reading) (slots : SlotTable) (segment : List UInt8)
    (h : reading.tables.functions.PlainNames) :
    ∃ kept, Token.DropsSlotZero (reading.tokens segment) kept
      ∧ (Statement.render reading slots segment).value.1.text
        = Line.format (kept.map (Token.shown reading.tables
            (Statement.declared slots (reading.tokens segment)).value)) := by
  have hplain : ∀ t ∈ reading.tokens segment, t.HasPlainName := fun t ht => h.hasPlainName ht
  have hwords : ∀ t ∈ reading.tokens segment,
      Line.IsWord (Token.render (Statement.declared slots (reading.tokens segment)).value t)
        ∧ (Token.render (Statement.declared slots (reading.tokens segment)).value t ∈ accumulators →
          t = .slot 0) :=
    fun t ht => ⟨Token.isWord_render (hplain t ht), Token.eq_slot_zero (hplain t ht)⟩
  obtain ⟨kept, hkept, hline⟩ := exists_applyRules_format Rule.all hwords
  refine ⟨kept, hkept, ?_⟩
  rw [← substituteStrings_format reading.tables _ fun t ht => hplain t (hkept.subset ht), ← hline]
  rfl

/-- Two names, and two strings that look like what the cleanup rules and the substitution search
for. -/
def Reading.sample : Reading where
  tables := {
    functions := {
      keywordThreshold := 162
      names := ⟨fun id =>
        if id = 14 then some "GetPlayerSide" else if id = 180 then some "=" else none⟩ }
    strings := some ⟨["= v0 TRUE", "STR[0]"], by decide⟩ }

/-- The bytes of `v2 = v0 GetPlayerSide (STR[1], STR[0])`. -/
def Reading.sampleSegment : List UInt8 :=
  [0x81, 0x82, 0xb4, 0x81, 0x81, 0x80, 0x80, 0x8e, 0x80, 0x28, 0x82, 0x81, 0x2c, 0x82, 0x80, 0x29]

theorem exists_text_eq_format_sample :
    Reading.sample.tables.functions.PlainNames
      ∧ ∃ kept, Token.DropsSlotZero (Reading.sample.tokens Reading.sampleSegment) kept
        ∧ (Statement.render Reading.sample .empty Reading.sampleSegment).value.1.text
          = Line.format (kept.map (Token.shown Reading.sample.tables (Statement.declared .empty
              (Reading.sample.tokens Reading.sampleSegment)).value)) := by
  have hname : ∀ id name, Reading.sample.tables.functions.name? id = some name →
      name = "GetPlayerSide" ∨ name = "=" := by
    intro id name h
    simp only [FunctionTable.name?, Reading.sample] at h
    split_ifs at h
    · exact Or.inl (Option.some.inj h).symm
    · exact Or.inr (Option.some.inj h).symm
  have hplain : Reading.sample.tables.functions.PlainNames := by
    constructor <;>
      · intro id name h
        rcases hname id name h with rfl | rfl <;> decide +kernel
  exact ⟨hplain, exists_text_eq_format Reading.sample .empty Reading.sampleSegment hplain⟩

end MissionScript
