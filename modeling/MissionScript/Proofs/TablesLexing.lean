import MissionScript.Proofs.Yaml.EntryLexing
import MissionScript.Symbols.ToYaml

/-!
# The tokens of written tables

The tokens of the written tables are found from the last line to the first. Where there are no names
or no strings, a pair of brackets stands; else there is a line for each, and the names open a block
of their own, which the line with the strings closes.
-/

namespace MissionScript

open Yaml.Lexer (LexesLines LexesValue IsKey)
open Yaml.Scalar (readStyle)

namespace SymbolTables

theorem isKey_decimal (b : UInt8) : IsKey (Text.decimal b.toNat) := by
  have hall : ∀ n < 256, IsKey (Text.decimal n) := by decide +kernel
  exact hall _ b.toNat_lt

/-! ## Tokens -/

def nameTokens (names : List (UInt8 × String)) : List Yaml.Token :=
  if names.isEmpty then [.flowMappingStart, .flowMappingEnd]
  else .blockMappingStart :: (names.flatMap (fun e =>
    [.key, .scalar .plain (Text.decimal e.1.toNat), .value,
      .scalar (readStyle e.2.toList) e.2.toList]) ++ [.blockEnd])

def stringTokens : Option StringTable → List Yaml.Token
  | none => [.scalar .plain "null".toList]
  | some table =>
    if table.names.isEmpty then [.flowSequenceStart, .flowSequenceEnd]
    else table.names.flatMap fun t => [.blockEntry, .scalar (readStyle t.toList) t.toList]

theorem stringEntries_some (table : StringTable) : stringEntries (some table)
    = Yaml.listEntry 0 "strings".toList (table.names.map String.toList) := rfl

theorem stringTokens_some (table : StringTable) : stringTokens (some table)
    = if table.names.isEmpty then [.flowSequenceStart, .flowSequenceEnd]
      else table.names.flatMap fun t => [.blockEntry, .scalar (readStyle t.toList) t.toList] := rfl

/-- The strings, on a line that closes the blocks further in. -/
theorem lexesLines_stringEntries {strings : Option StringTable}
    (h : ∀ table, strings = some table → ∀ name ∈ table.names, Text.IsPrintable name.toList)
    {closed : List Nat} (hclosed : ∀ i ∈ closed, 0 < i) :
    LexesLines 0 (stringEntries strings) (closed ++ [0])
      (List.replicate closed.length .blockEnd ++
        .key :: .scalar .plain "strings".toList :: .value ::
          (stringTokens strings ++ [.blockEnd])) := by
  have hkey : IsKey "strings".toList := by decide
  -- the value decides the line: a word, empty brackets, or nothing but the line break
  suffices hvalue : ∃ behind, stringEntries strings
      = Yaml.Scalar.spaces 0 ++ ("strings".toList ++ ':' :: behind) ∧ Yaml.atGap behind = true ∧
        LexesValue false behind [0] (stringTokens strings ++ [.blockEnd]) by
    obtain ⟨behind, htext, hgap, hlexes⟩ := hvalue
    rw [htext]
    exact .laterKey closed hkey hgap hclosed hlexes
  cases strings with
  | none =>
    have hnull : IsKey "null".toList := by decide
    exact ⟨' ' :: ("null".toList ++ ['\n']), rfl, rfl,
      .space (.plain (hnull.readsPlain _) (Nat.le_refl 0) .ending)⟩
  | some table =>
    rw [stringEntries_some, stringTokens_some]
    by_cases hempty : table.names = []
    · rw [hempty]
      exact ⟨' ' :: '[' :: ']' :: ['\n'], rfl, rfl,
        .space (.brackets (by simp [Yaml.Lexer.bracketPairs]) .ending)⟩
    · have hprint : ∀ t ∈ table.names.map String.toList, Text.IsPrintable t := by
        simpa using h table rfl
      obtain ⟨m, hm, hitems⟩ := LexesLines.items (Nat.le_refl 0) .ending
        (table.names.map String.toList) hprint
      have hsome : ¬ table.names.isEmpty = true := by simpa using hempty
      have hsome' : ¬ (table.names.map String.toList).isEmpty = true := by simpa using hempty
      rw [Yaml.listEntry, if_neg hsome, if_neg hsome']
      simp only [List.append_nil, List.flatMap_map] at hitems ⊢
      exact ⟨'\n' :: _, rfl, rfl, .lineBreak hitems⟩

/-- The names by id, in front of a line that closes their block and the one around it. -/
theorem lexesLines_nameEntries {names : List (UInt8 × String)} {more : Text} {ts : List Yaml.Token}
    (h : ∀ e ∈ names, Text.IsPrintable e.2.toList)
    (hmore : ∀ closed : List Nat, (∀ i ∈ closed, 0 < i) →
      LexesLines 0 more (closed ++ [0]) (List.replicate closed.length .blockEnd ++ ts)) :
    LexesLines 2 (nameEntries names ++ more) [2, 0]
      (.key :: .scalar .plain "names".toList :: .value ::
        (nameTokens names ++ .blockEnd :: ts)) := by
  have hkey : IsKey "names".toList := by decide
  rcases names with _ | ⟨⟨id, name⟩, names⟩
  · have htext : nameEntries [] ++ more = Yaml.Scalar.spaces 2 ++
        ("names".toList ++ ':' :: ' ' :: '\x7b' :: '\x7d' :: '\n' :: more) := by
      simp [nameEntries, Yaml.Scalar.spaces, List.replicate_succ]
    rw [htext]
    exact .laterKey [] hkey rfl (by simp)
      (.space (.brackets (by simp [Yaml.Lexer.bracketPairs]) (hmore [2] (by simp))))
  · have hentries : ∀ e ∈ names.map fun e => (Text.decimal e.1.toNat, e.2.toList),
        IsKey e.1 ∧ Text.IsPrintable e.2 := by
      intro e he
      obtain ⟨d, hd, rfl⟩ := List.mem_map.1 he
      exact ⟨isKey_decimal d.1, h d (List.mem_cons_of_mem _ hd)⟩
    obtain ⟨m, hm, hlater⟩ := LexesLines.scalarEntries (Nat.zero_le 4) (hmore [4, 2] (by simp)) _
      hentries
    have hfirst := LexesLines.firstKey (isKey_decimal id) (by rfl) (by simp)
      (.space (.scalar (h (id, name) List.mem_cons_self) 4 hm hlater))
    have hlines := LexesLines.laterKey [] hkey (by rfl) (by simp) (.lineBreak hfirst)
    simpa [nameEntries, Yaml.scalarEntry, nameTokens, List.flatMap_map, Yaml.Scalar.spaces,
      List.replicate_succ] using hlines

/-- The tokens of the written tables. -/
def tokens (tables : SymbolTables) : List Yaml.Token :=
  .blockMappingStart :: .key :: .scalar .plain "functions".toList :: .value ::
    .blockMappingStart :: .key :: .scalar .plain "keyword_threshold".toList :: .value ::
    .scalar .plain (Text.decimal tables.functions.keywordThreshold.toNat) ::
    .key :: .scalar .plain "names".toList :: .value :: (nameTokens tables.functions.names.toList ++
      .blockEnd :: .key :: .scalar .plain "strings".toList :: .value ::
        (stringTokens tables.strings ++ [.blockEnd]))

theorem lexesLines_toYaml {tables : SymbolTables} (h : tables.PrintableNames) :
    LexesLines 0 tables.toYaml [] tables.tokens := by
  have hfunctions : IsKey "functions".toList := by decide
  have hthreshold : IsKey "keyword_threshold".toList := by decide
  have hword := isKey_decimal tables.functions.keywordThreshold
  have hprint : ∀ e ∈ tables.functions.names.toList, Text.IsPrintable e.2.toList := fun e he =>
    h.functions e.1 e.2 (ByteMap.mem_toList.1 he)
  have hnames := lexesLines_nameEntries hprint fun closed hclosed =>
    lexesLines_stringEntries h.strings hclosed
  have hlines := LexesLines.firstKey hfunctions (by rfl) (by simp)
    (.lineBreak (.firstKey hthreshold (by rfl) (by simp)
      (.space (.plain (hword.readsPlain _) (Nat.le_refl 2) hnames))))
  have htext : tables.toYaml = Yaml.Scalar.spaces 0 ++ ("functions".toList ++ ':' :: '\n' ::
      (Yaml.Scalar.spaces 2 ++ ("keyword_threshold".toList ++ ':' :: ' ' ::
        (Text.decimal tables.functions.keywordThreshold.toNat ++ '\n' ::
          (nameEntries tables.functions.names.toList ++ stringEntries tables.strings))))) := by
    unfold toYaml
    simp [Yaml.wordEntry, Yaml.Scalar.spaces]
  rw [htext]
  exact hlines

/-! ## Characters -/

theorem all_isReadable_spaces (n : Nat) : (Yaml.Scalar.spaces n).all Yaml.isReadable = true := by
  rw [List.all_eq_true]
  intro c hc
  rw [List.eq_of_mem_replicate hc]
  decide

theorem all_isReadable_decimal (n : Nat) : (Text.decimal n).all Yaml.isReadable = true :=
  Yaml.Scalar.all_isReadable_of_isPrintable (.decimal n)

theorem all_isReadable_nameEntries {names : List (UInt8 × String)}
    (h : ∀ e ∈ names, Text.IsPrintable e.2.toList) :
    (nameEntries names).all Yaml.isReadable = true := by
  unfold nameEntries
  split_ifs
  · decide
  · simp only [List.all_append, List.all_flatMap, Bool.and_eq_true]
    refine ⟨by decide, ?_⟩
    rw [List.all_eq_true]
    intro e he
    simp only [Yaml.scalarEntry, List.all_append, List.all_cons, all_isReadable_spaces,
      all_isReadable_decimal, Yaml.Scalar.all_isReadable_write 4 (h e he)]
    decide

theorem all_isReadable_listEntry {key : Text} {items : List Text} (hkey : Text.IsPrintable key)
    (h : ∀ t ∈ items, Text.IsPrintable t) (column : Nat) :
    (Yaml.listEntry column key items).all Yaml.isReadable = true := by
  rw [Yaml.listEntry, List.all_append, List.all_append, all_isReadable_spaces,
    Yaml.Scalar.all_isReadable_of_isPrintable hkey, Bool.true_and, Bool.true_and]
  split_ifs
  · decide
  · simp only [List.all_append, List.all_flatMap, Bool.and_eq_true]
    refine ⟨by decide, ?_⟩
    rw [List.all_eq_true]
    intro t ht
    rw [all_isReadable_spaces, List.all_cons, List.all_cons,
      Yaml.Scalar.all_isReadable_write column (h t ht)]
    decide

theorem all_isReadable_toYaml {tables : SymbolTables} (h : tables.PrintableNames) :
    tables.toYaml.all Yaml.isReadable = true := by
  have hthreshold : (Yaml.wordEntry 2 "keyword_threshold".toList
      (Text.decimal tables.functions.keywordThreshold.toNat)).all Yaml.isReadable = true := by
    simp only [Yaml.wordEntry, List.all_append, List.all_cons, all_isReadable_spaces,
      all_isReadable_decimal]
    decide
  have hnames := all_isReadable_nameEntries fun e he =>
    h.functions e.1 e.2 (ByteMap.mem_toList.1 he)
  have hstrings : (stringEntries tables.strings).all Yaml.isReadable = true := by
    cases hcase : tables.strings with
    | none => decide
    | some table =>
      rw [stringEntries_some]
      exact all_isReadable_listEntry (by decide) (by simpa using h.strings table hcase) 0
  unfold toYaml
  simp only [List.all_append, hthreshold, hnames, hstrings]
  decide

theorem scan_toYaml {tables : SymbolTables} (h : tables.PrintableNames) :
    Yaml.Token.scan tables.toYaml = some tables.tokens :=
  Yaml.Token.scan_of_lexesLines (all_isReadable_toYaml h) (lexesLines_toYaml h)

end SymbolTables

end MissionScript
