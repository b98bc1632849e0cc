import MissionScript.Proofs.Yaml.LexerSteps

/-!
# The tokens of written entries

Between two entries of a written block the lexer stands at the first character of a line, and no key
is pending. What tokens a text gives from there on is said of the whole rest of the text
(`LexesLines`, and `LexesValue` behind a key), so that the tokens of a document are found entry by
entry from its end. A key opens a mapping if it is further in than the blocks so far
(`LexesLines.firstKey`), and closes the blocks that are further in than itself
(`LexesLines.laterKey`). The value behind it is taken with its line (`LexesValue.scalar`).
-/

namespace MissionScript

namespace Yaml

open Text (IsPrintable)
open Plain (ReadsPlain isKeyChar)

namespace Lexer

/-! ## Lines and values -/

/-- From the start of a line on, with the given blocks open and no key pending, a text whose first
token stands in the given column gives the tokens, whatever is in front. -/
def LexesLines (column : Nat) (text : Text) (indents : List Nat) (ts : List Token) : Prop :=
  ∃ rest, text = Scalar.spaces column ++ rest ∧ StartsToken rest ∧
    ∀ (p : Position) (tokens : List Token), p.column = column →
      Yields (state p rest tokens indents true) (tokens ++ ts)

/-- Further in than the innermost of the given blocks, a text gives the tokens, whatever is in
front. -/
def LexesValue (keyAllowed : Bool) (text : Text) (indents : List Nat) (ts : List Token) : Prop :=
  ∀ (p : Position) (tokens : List Token), (∀ i ∈ indents.head?, i < p.column) →
    Yields (state p text tokens indents keyAllowed) (tokens ++ ts)

namespace LexesValue

variable {keyAllowed : Bool} {text more : Text} {indents : List Nat} {ts : List Token}
  {column n : Nat}

theorem space (h : LexesValue keyAllowed text indents ts) :
    LexesValue keyAllowed (' ' :: text) indents ts := by
  intro p tokens hindents
  exact yields_space (h p.step tokens fun i hi => Nat.lt_succ_of_lt (hindents i hi))

theorem lineBreak (h : LexesLines n more indents ts) :
    LexesValue keyAllowed ('\n' :: more) indents ts := by
  obtain ⟨rest, rfl, hrest, hlines⟩ := h
  intro p tokens _
  exact yields_lineBreak (by simp [Expires]) hrest (hlines _ tokens (by simp))

/-- A plain scalar ends with its line, as the next one is no further in than the block. -/
theorem plain {word : Text} (hword : ReadsPlain word ('\n' :: more)) (hn : n ≤ column)
    (h : LexesLines n more (column :: indents) ts) :
    LexesValue keyAllowed (word ++ '\n' :: more) (column :: indents)
      (.scalar .plain word :: ts) := by
  obtain ⟨rest, rfl, hrest, hlines⟩ := h
  intro p tokens hindents
  have hcolumn : column < p.column := hindents column rfl
  refine .of_step (step_plain hword rfl ?_ (fun i hi => Nat.le_of_lt (hindents i hi)) ?_
    (Plain.readFrom_lineBreak (Nat.lt_succ_of_le hn) hrest)) ?_ ?_
  · exact fun _ => hcolumn
  · omega
  · simp only [state, List.length_append, List.length_cons]
    omega
  -- the scalar has passed the line break itself, with the indentation of the next line
  · refine yields_of_expires (expires_keyAt hindents (Nat.lt_succ_self _)) hrest ?_
    rw [List.append_cons tokens (.scalar .plain word) ts]
    exact hlines _ _ (by simp)

theorem singleQuoted {t : Text} (ht : IsPrintable t) (indent : Nat)
    (h : LexesLines n more (column :: indents) ts) :
    LexesValue keyAllowed ('\'' :: (Scalar.singleQuotedBody indent false t ++ '\'' :: '\n' :: more))
      (column :: indents) (.scalar .quoted t :: ts) := by
  obtain ⟨rest, rfl, hrest, hlines⟩ := h
  intro p tokens hindents
  have hcolumn : column < p.column := hindents column rfl
  refine .of_step (step_singleQuoted (Nat.zero_lt_of_lt hcolumn)
    (fun i hi => Nat.le_of_lt (hindents i hi))
    (Quoted.singleFrom_singleQuotedBody indent ?_ t p.step [] .none ht rfl (Nat.succ_pos _))) ?_ ?_
  · simp
  · simp only [state, List.length_append, List.length_cons]
    omega
  -- the line break is still to come, and gives up the scalar as a key
  · refine yields_lineBreak (expires_keyAt hindents ?_) hrest ?_
    · exact Nat.lt_succ_self _
    · rw [List.append_cons tokens (.scalar .quoted t) ts]
      exact hlines _ _ (by simp)

/-- A printable text is taken with its line, in whichever style it is written. -/
theorem scalar {t : Text} (ht : IsPrintable t) (indent : Nat) (hn : n ≤ column)
    (h : LexesLines n more (column :: indents) ts) :
    LexesValue keyAllowed (Scalar.write indent t ++ more) (column :: indents)
      (.scalar (Scalar.readStyle t) t :: ts) := by
  rcases Scalar.style_of_isPrintable ht with ⟨hstyle, hne, hplain⟩ | hstyle
  · have hword : ReadsPlain t ('\n' :: more) := .of_allowsPlain ht hne hplain rfl
    simpa [Scalar.write, Scalar.readStyle, hstyle] using plain hword hn h
  · simpa [Scalar.write, Scalar.readStyle, hstyle] using singleQuoted ht (indent + 2) h

/-- Brackets without anything between them. -/
theorem brackets {c d : Char} {opening closing : Token}
    (hpair : ((c, opening), (d, closing)) ∈ bracketPairs)
    (h : LexesLines n more (column :: indents) ts) :
    LexesValue false (c :: d :: '\n' :: more) (column :: indents) (opening :: closing :: ts) := by
  obtain ⟨rest, rfl, hrest, hlines⟩ := h
  intro p tokens hindents
  have hcolumn : column < p.column := hindents column rfl
  refine .of_step (step_opening hpair (Nat.zero_lt_of_lt hcolumn)
    (fun i hi => Nat.le_of_lt (hindents i hi))) (by simp [state, bracketed]) ?_
  refine .of_step (step_closing hpair (Nat.succ_pos _)) (by simp [state, bracketed]) ?_
  refine yields_lineBreak (by simp [Expires]) hrest ?_
  rw [List.append_cons tokens opening (closing :: ts),
    List.append_cons (tokens ++ [opening]) closing ts]
  exact hlines _ _ (by simp)

end LexesValue

/-- A word of key characters that is short enough for a key. -/
structure IsKey (t : Text) : Prop where
  ne_nil : t ≠ []
  chars : ∀ c ∈ t, isKeyChar c = true
  length_le : t.length ≤ 1024

instance (t : Text) : Decidable (IsKey t) :=
  decidable_of_iff (t ≠ [] ∧ t.all isKeyChar = true ∧ t.length ≤ 1024)
    ⟨fun ⟨hne, hchars, hlength⟩ => ⟨hne, List.all_eq_true.1 hchars, hlength⟩,
      fun h => ⟨h.ne_nil, List.all_eq_true.2 h.chars, h.length_le⟩⟩

theorem IsKey.atDocumentMark_append {key : Text} (h : IsKey key) (behind : Text) :
    atDocumentMark (key ++ behind) = false := by
  obtain ⟨c, more, rfl⟩ := List.exists_cons_of_ne_nil h.ne_nil
  have hc := h.chars c List.mem_cons_self
  have hmark : (c == '-' || c == '.') = false := by
    rw [Bool.or_eq_false_iff, beq_eq_false_iff_ne, beq_eq_false_iff_ne]
    exact ⟨Plain.ne_of_isKeyChar hc (by decide), Plain.ne_of_isKeyChar hc (by decide)⟩
  unfold atDocumentMark
  split
  · rename_i heq
    obtain ⟨rfl, -⟩ := List.cons.inj heq
    rw [hmark, Bool.false_and, Bool.false_and, Bool.false_and]
  · rfl

theorem IsKey.readsPlain {key : Text} (h : IsKey key) (behind : Text) : ReadsPlain key behind :=
  .of_isKeyChar h.ne_nil h.chars behind

/-- A key is taken with its colon. -/
theorem yields_key {key behind : Text} {p : Position} {tokens result : List Token}
    {indents : List Nat} (hkey : IsKey key) (hgap : atGap behind = true)
    (hindents : ∀ i ∈ indents.head?, i ≤ p.column)
    (h : Yields (if indents.head?.all (· < p.column) then
        state (p.steps (key.length + 1)) behind
          (tokens ++ [.blockMappingStart, .key, .scalar .plain key, .value])
          (p.column :: indents) false
      else state (p.steps (key.length + 1)) behind
        (tokens ++ [.key, .scalar .plain key, .value]) indents false) result) :
    Yields (state p (key ++ ':' :: behind) tokens indents true) result := by
  have hlength : 0 < key.length := List.length_pos_iff.2 hkey.ne_nil
  have hspace : ' ' ∉ key := fun hmem =>
    Plain.ne_of_isKeyChar (hkey.chars ' ' hmem) (by decide) rfl
  have hshort : ¬ p.index + 1024 < p.index + key.length := by
    have := hkey.length_le
    omega
  have hstale : isStale (p.steps key.length) ⟨p, tokens.length, indents.head? == some p.column⟩
      = false :=
    Bool.or_eq_false_iff.2 ⟨decide_eq_false (Nat.lt_irrefl p.line), decide_eq_false hshort⟩
  have hcolumn : ∀ i ∈ indents.head?, i ≤ (p.steps key.length).column := fun i hi =>
    Nat.le_add_right_of_le (hindents i hi)
  refine .of_step (step_plain (hkey.readsPlain _) rfl (fun hmem => absurd hmem hspace) hindents
    (fun _ => hkey.atDocumentMark_append _) (Plain.readFrom_colon hgap)) ?_ ?_
  · simp only [state, List.length_append, List.length_cons]
    omega
  · refine .of_step (step_value rfl hstale hgap (Nat.add_pos_right _ hlength) hcolumn) ?_ ?_
    · split_ifs <;> simp [state]
    · simpa only [Position.step, Position.steps_steps] using h

namespace LexesLines

variable {text behind key : Text} {indents : List Nat} {ts : List Token} {column : Nat}

theorem ending : LexesLines 0 [] [0] [.blockEnd] := by
  refine ⟨[], rfl, startsToken_nil, fun p tokens hp fuel hfuel => ?_⟩
  obtain ⟨fuel, rfl⟩ : ∃ n, fuel = n + 1 := ⟨fuel - 1, by omega⟩
  have hstep : (state p [] tokens [0] true).step = some (.inr (tokens ++ [.blockEnd])) := by
    rw [step, toNextToken_of_startsToken startsToken_nil,
      dropStaleKeys_of_isStale_eq_false (by simp)]
    simp only [Option.bind_eq_bind, Option.bind_some]
    rw [closeBlocks_of_le (by simp)]
    simp [state, closeAllBlocks, inFlow, pushAll, push, dropKey]
  rw [run, hstep]

/-- A key that is further in than the open blocks opens one. -/
theorem firstKey (hkey : IsKey key) (hgap : atGap behind = true)
    (hindents : ∀ i ∈ indents.head?, i < column)
    (h : LexesValue false behind (column :: indents) ts) :
    LexesLines column (Scalar.spaces column ++ (key ++ ':' :: behind)) indents
      (.blockMappingStart :: .key :: .scalar .plain key :: .value :: ts) := by
  refine ⟨_, rfl, (hkey.readsPlain _).startsToken, ?_⟩
  rintro p tokens rfl
  have hopens : indents.head?.all (· < p.column) = true := by
    simpa [Option.all_eq_true] using hindents
  refine yields_key hkey hgap (fun i hi => Nat.le_of_lt (hindents i hi)) ?_
  rw [if_pos hopens]
  have hvalue := h (p.steps (key.length + 1))
    (tokens ++ [.blockMappingStart, .key, .scalar .plain key, .value])
    (by rintro i ⟨⟩; exact Nat.lt_add_of_pos_right (Nat.succ_pos _))
  rwa [List.append_assoc] at hvalue

/-- A key at the column of an open block closes the blocks inside that one. -/
theorem laterKey (closed : List Nat) (hkey : IsKey key) (hgap : atGap behind = true)
    (hclosed : ∀ i ∈ closed, column < i) (h : LexesValue false behind (column :: indents) ts) :
    LexesLines column (Scalar.spaces column ++ (key ++ ':' :: behind)) (closed ++ column :: indents)
      (List.replicate closed.length .blockEnd ++ .key :: .scalar .plain key :: .value :: ts) := by
  have hstart := (hkey.readsPlain (':' :: behind)).startsToken
  refine ⟨_, rfl, hstart, ?_⟩
  rintro p tokens rfl
  have hhead : ∀ i ∈ (p.column :: indents).head?, i ≤ p.column := by
    rintro i ⟨⟩
    exact Nat.le_refl _
  refine yields_closeBlocks hstart hclosed hhead (yields_key hkey hgap hhead ?_)
  have hopens : ¬ (p.column :: indents).head?.all (· < p.column) = true := by simp
  rw [if_neg hopens]
  have hvalue := h (p.steps (key.length + 1))
    (tokens ++ List.replicate closed.length .blockEnd ++ [.key, .scalar .plain key, .value])
    (by rintro i ⟨⟩; exact Nat.lt_add_of_pos_right (Nat.succ_pos _))
  simpa only [List.append_assoc, List.cons_append, List.nil_append] using hvalue

/-- A list whose items stand at the column of the mapping that it is in opens no block. -/
theorem item (h : LexesValue true behind (column :: indents) ts) :
    LexesLines column (Scalar.spaces column ++ '-' :: ' ' :: behind) (column :: indents)
      (.blockEntry :: ts) := by
  have hstart : StartsToken ('-' :: ' ' :: behind) := startsToken_cons (by decide)
  refine ⟨_, rfl, hstart, ?_⟩
  rintro p tokens rfl
  have hmark : atDocumentMark ('-' :: ' ' :: behind) = false := by
    cases behind <;> rfl
  have hhead : ∀ i ∈ (p.column :: indents).head?, i ≤ p.column := by
    rintro i ⟨⟩
    exact Nat.le_refl _
  have hstep : (state p ('-' :: ' ' :: behind) tokens (p.column :: indents) true).step
      = some (.inl (state p.step (' ' :: behind) (tokens ++ [.blockEntry]) (p.column :: indents)
          true)) := by
    rw [step_state (by simp) hstart hhead]
    simp [token, state, hmark, atGap, isGap, isSpaceOrTab, blockEntry, openBlock, opensAt, inFlow,
      dropKey, skip, push, Position.step]
  refine .of_step hstep (by simp [state]) (yields_space ?_)
  rw [List.append_cons tokens .blockEntry ts]
  refine h _ _ ?_
  rintro i ⟨⟩
  exact Nat.lt_add_of_pos_right (Nat.succ_pos 1)

/-- The entries of a block one after the other, in front of a line that is no further in. -/
theorem scalarEntries {more : Text} {n : Nat} (hn : n ≤ column)
    (h : LexesLines n more (column :: indents) ts) : ∀ entries : List (Text × Text),
      (∀ e ∈ entries, IsKey e.1 ∧ IsPrintable e.2) →
      ∃ m ≤ column, LexesLines m (entries.flatMap (fun e => scalarEntry column e.1 e.2) ++ more)
        (column :: indents) (entries.flatMap (fun e =>
          [.key, .scalar .plain e.1, .value, .scalar (Scalar.readStyle e.2) e.2]) ++ ts)
  | [], _ => ⟨n, hn, h⟩
  | (key, value) :: entries, hall => by
    obtain ⟨hkey, hvalue⟩ := hall (key, value) List.mem_cons_self
    obtain ⟨m, hm, hlines⟩ := scalarEntries hn h entries fun e he =>
      hall e (List.mem_cons_of_mem _ he)
    have hentry := laterKey [] hkey (by rfl) (by simp) (.space (.scalar hvalue column hm hlines))
    refine ⟨column, Nat.le_refl _, ?_⟩
    simpa [scalarEntry] using hentry

theorem items {more : Text} {n : Nat} (hn : n ≤ column)
    (h : LexesLines n more (column :: indents) ts) : ∀ items : List Text,
      (∀ t ∈ items, IsPrintable t) →
      ∃ m ≤ column, LexesLines m
        (items.flatMap (fun t => Scalar.spaces column ++ '-' :: ' ' :: Scalar.write column t)
          ++ more)
        (column :: indents)
        (items.flatMap (fun t => [.blockEntry, .scalar (Scalar.readStyle t) t]) ++ ts)
  | [], _ => ⟨n, hn, h⟩
  | t :: items, hall => by
    have ht := hall t List.mem_cons_self
    obtain ⟨m, hm, hlines⟩ := LexesLines.items hn h items fun u hu =>
      hall u (List.mem_cons_of_mem t hu)
    refine ⟨column, Nat.le_refl _, ?_⟩
    simpa using item (.scalar ht column hm hlines)

end LexesLines

end Lexer

/-- The tokens of a whole text. -/
theorem Token.scan_of_lexesLines {t : Text} {ts : List Token} (hreadable : t.all isReadable = true)
    (h : Lexer.LexesLines 0 t [] ts) : Token.scan t = some ts := by
  obtain ⟨rest, rfl, -, hlines⟩ := h
  rw [Token.scan, if_pos hreadable]
  exact hlines {} [] rfl _ (Nat.lt_succ_self _)

end Yaml

end MissionScript
