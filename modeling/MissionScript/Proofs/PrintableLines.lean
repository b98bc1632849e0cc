import MissionScript.Proofs.ListingRun
import MissionScript.Proofs.PrintableText
import MissionScript.Proofs.RenderedLine
import MissionScript.Proofs.UnitBytes

/-!
# Lines hold nothing but printable characters

Whatever the bytes of a unit are, a token shows as printable characters if the names of the tables
do (`Token.isPrintable_render`). Setting a line adds spaces only, the cleanup rules add nothing, and
substitution adds quotation marks and names of the string table, so the line of every statement is
printable (`isPrintable_text`). In particular it holds no line break, and cutting a listing at its
line breaks gives back its lines, one for each statement (`lines_of_hostile_unit`).
-/

namespace MissionScript

open Text (IsPrintable)

/-! ## Tokens -/

theorem SlotTable.isPrintable_name (slots : SlotTable) (slot : UInt8) :
    IsPrintable (slots.name slot) := by
  have hdigits := IsPrintable.decimal slot.toNat
  unfold SlotTable.name
  split
  · rename_i ty _
    have hkeyword : IsPrintable ty.keyword.toList := by cases ty <;> decide
    exact hkeyword.append (hdigits.cons (by decide))
  · exact hdigits.cons (by decide)

theorem Token.isPrintable_render (slots : SlotTable) {t : Token}
    (hname : ∀ id text, t = name id text → IsPrintable text.toList) :
    IsPrintable (render slots t) := by
  cases t with
  | char b =>
    rw [render]
    split_ifs with hb
    · exact .ofByte hb
    · exact ((show IsPrintable "<0x".toList by decide).append (.hexByte b)).append (by decide)
  | name id text => exact hname id text rfl
  | slot s => exact slots.isPrintable_name s
  | stringRef i =>
    exact ((show IsPrintable "STR[".toList by decide).append (.decimal i.toNat)).append (by decide)
  | integer v => exact .decimal v.toNat
  | unknown id => exact (show IsPrintable "UNK_".toList by decide).append (.decimal id.toNat)
  | terminator => exact show IsPrintable [';'] by decide

/-! ## Setting and cleaning a line -/

namespace Line

theorem isPrintable_mergeNumbers : ∀ {ws : List Text}, (∀ w ∈ ws, IsPrintable w) →
    ∀ w ∈ mergeNumbers ws, IsPrintable w
  | [], _, w, hw => by simp [mergeNumbers] at hw
  | t :: ts, h, w, hw => by
    have ht := h t List.mem_cons_self
    have ih := isPrintable_mergeNumbers fun u hu => h u (List.mem_cons_of_mem t hu)
    cases hj : joins t ts.head? with
    | false =>
      rw [mergeNumbers_cons_of_not_joins hj] at hw
      rcases List.mem_cons.1 hw with rfl | hw
      · exact ht
      · exact ih w hw
    | true =>
      obtain ⟨n, more, hm, -, hmerge⟩ := exists_mergeNumbers_of_joins hj
      rw [hm] at ih
      rw [hmerge] at hw
      rcases List.mem_cons.1 hw with rfl | hw
      · exact ht.append (ih n List.mem_cons_self)
      · exact ih w (List.mem_cons_of_mem n hw)

theorem isPrintable_setWords : ∀ {ws : List Text}, (∀ w ∈ ws, IsPrintable w) →
    IsPrintable (setWords ws)
  | [], _ => by simp [setWords, IsPrintable]
  | [t], h => h t List.mem_cons_self
  | t :: u :: more, h => by
    have hgap : IsPrintable (if gap t u then [' '] else []) := by split_ifs <;> decide
    have ih := isPrintable_setWords fun w hw => h w (List.mem_cons_of_mem t hw)
    exact ((h t List.mem_cons_self).append hgap).append ih

theorem isPrintable_format {ws : List Text} (h : ∀ w ∈ ws, IsPrintable w) :
    IsPrintable (format ws) := isPrintable_setWords (isPrintable_mergeNumbers h)

end Line

namespace Cleanup

theorem Cuts.subset {R : Text → Text → Prop} {before t t' : Text} (h : Cuts R before t t') :
    t' ⊆ t := by
  induction h with
  | nil => simp
  | keep c _ ih => exact List.cons_subset_cons c ih
  | drop _ _ _ ih =>
    refine List.cons_subset_cons _ fun d hd => ?_
    simp [ih hd]

theorem isPrintable_applyRules : ∀ (rules : List Rule) {line : Text}, IsPrintable line →
    IsPrintable (applyRules rules line).value
  | [], _, h => h
  | rule :: rules, line, h => by
    rw [value_applyRules_cons]
    exact isPrintable_applyRules rules fun c hc => h c ((cuts_apply rule line).subset hc)

theorem isPrintable_resolve {strings : StringTable} {digits : Text}
    (hstrings : ∀ name ∈ strings.names, IsPrintable name.toList) (h : IsPrintable digits) :
    IsPrintable (resolve strings digits) := by
  rcases resolve_cases digits with heq | ⟨name, hmem, heq⟩
  · rw [heq, referenceText]
    exact ((show IsPrintable "STR[".toList by decide).append h).append (by decide)
  · rw [heq]
    exact ((hstrings name hmem).append (by decide)).cons (by decide)

theorem subset_of_reference? {t digits rest : Text} (h : reference? t = some (digits, rest)) :
    digits ⊆ t ∧ rest ⊆ t := by
  obtain ⟨-, rfl⟩ := reference?_eq_some_iff.1 h
  rw [referenceText]
  exact ⟨fun c hc => by simp [hc], fun c hc => by simp [hc]⟩

theorem isPrintable_substituteWith {strings : StringTable}
    (hstrings : ∀ name ∈ strings.names, IsPrintable name.toList) (t : Text) (h : IsPrintable t) :
    IsPrintable (substituteWith strings t) := by
  fun_induction substituteWith strings t with
  | case1 t digits rest href ih =>
    obtain ⟨hdigits, hrest⟩ := subset_of_reference? href
    exact (isPrintable_resolve hstrings fun c hc => h c (hdigits hc)).append
      (ih fun c hc => h c (hrest hc))
  | case2 => exact h
  | case3 c cs href ih =>
    exact (ih fun d hd => h d (List.mem_cons_of_mem c hd)).cons (h c List.mem_cons_self)

theorem isPrintable_substituteStrings {tables : SymbolTables} (h : tables.PrintableNames)
    {line : Text} (hline : IsPrintable line) :
    IsPrintable (substituteStrings tables.strings line) := by
  rcases hstrings : tables.strings with _ | table
  · exact hline
  · exact isPrintable_substituteWith (h.strings table hstrings) line hline

end Cleanup

/-! ## The lines of a listing -/

theorem isPrintable_text {reading : Reading} (h : reading.tables.PrintableNames)
    (slots : SlotTable) (segment : List UInt8) :
    IsPrintable (Statement.render reading slots segment).value.1.text := by
  refine Cleanup.isPrintable_substituteStrings h (Cleanup.isPrintable_applyRules _
    (Line.isPrintable_format (List.forall_mem_map.2 fun t ht => ?_)))
  refine Token.isPrintable_render _ ?_
  rintro id text rfl
  exact h.functions id text (Reading.name?_of_mem_tokens ht)

namespace Listing

theorem isPrintable_linesFrom {reading : Reading} (h : reading.tables.PrintableNames) :
    ∀ (segments : List (List UInt8)) (p : Progress),
      ∀ line ∈ (linesFrom reading p segments).value.1, IsPrintable line.text
  | [], _, line, hline => by simp [linesFrom] at hline
  | segment :: segments, p, line, hline => by
    rw [linesFrom_cons] at hline
    rcases List.mem_cons.1 hline with rfl | hline
    · exact isPrintable_text h p.slots segment
    · exact isPrintable_linesFrom h segments _ line hline

theorem splitOn_render {l : Listing} (hlines : ∀ line ∈ l.lines, IsPrintable line.text)
    (hne : l.lines ≠ []) : l.render.splitOn '\n' = l.lines.map ListedLine.render := by
  refine List.splitOn_intercalate '\n' ?_ (by simpa using hne)
  intro text htext
  obtain ⟨line, hline, rfl⟩ := List.mem_map.1 htext
  have hspaces : IsPrintable (List.replicate (2 * line.indent) ' ') := by
    intro c hc
    rw [List.eq_of_mem_replicate hc]
    decide
  exact (hspaces.append (hlines line hline)).not_mem_lineBreak

end Listing

open Listing

/-- However the bytes of a unit are chosen, its lines are printable under tables with printable
names, and its listing cut at line breaks has one piece for each statement: the line of that
statement behind two spaces for each step of its indent. -/
theorem lines_of_hostile_unit (reading : Reading) (bytes : List UInt8)
    (hsize : CompiledUnit.headerSize ≤ bytes.length) (h : reading.tables.PrintableNames) :
    ∃ unit, CompiledUnit.parse bytes = .ok unit
      ∧ (∀ line ∈ (ofUnit reading unit.value).value.lines, IsPrintable line.text)
      ∧ ((ofUnit reading unit.value).value.lines ≠ [] →
        ((ofUnit reading unit.value).value.render.splitOn '\n').length
            = unit.value.statements.length
          ∧ ∀ k segment, unit.value.statements[k]? = some segment →
            ∃ line, line = (step reading (stateAt reading unit.value k) segment).value.1
              ∧ (ofUnit reading unit.value).value.lines[k]? = some line
              ∧ ((ofUnit reading unit.value).value.render.splitOn '\n')[k]?
                = some (List.replicate (2 * line.indent) ' ' ++ line.text)) := by
  obtain ⟨unit, hunit⟩ := CompiledUnit.exists_parse hsize
  have hlines : ∀ line ∈ (ofUnit reading unit.value).value.lines, IsPrintable line.text := by
    rw [value_ofUnit]
    exact isPrintable_linesFrom h _ _
  refine ⟨unit, hunit, hlines, fun hne => ?_⟩
  rw [splitOn_render hlines hne]
  refine ⟨by rw [List.length_map, length_lines], fun k segment hk => ⟨_, rfl, getElem?_lines hk, ?_⟩⟩
  rw [List.getElem?_map, getElem?_lines hk]
  rfl

/-- A line break and a string reference, behind a header of zeros. -/
theorem lines_of_hostile_unit_sample :
    Reading.sample.tables.PrintableNames
      ∧ ∃ unit, CompiledUnit.parse [0, 0, 0, 0, 0, 0, 0, 0, 0x0a, 0, 0x82, 0x80] = .ok unit
        ∧ (∀ line ∈ (ofUnit .sample unit.value).value.lines, IsPrintable line.text)
        ∧ ((ofUnit .sample unit.value).value.render.splitOn '\n').length = 2
        ∧ ∃ line, line = (step .sample (stateAt .sample unit.value 0) [0x0a]).value.1
          ∧ (ofUnit .sample unit.value).value.lines[0]? = some line
          ∧ ((ofUnit .sample unit.value).value.render.splitOn '\n')[0]?
            = some (List.replicate (2 * line.indent) ' ' ++ line.text) := by
  have hprintable : Reading.sample.tables.PrintableNames := by
    constructor
    · intro id name h
      simp only [FunctionTable.name?, Reading.sample] at h
      split_ifs at h
      · rw [← Option.some.inj h]
        decide +kernel
      · rw [← Option.some.inj h]
        decide +kernel
    · intro table h
      rw [← Option.some.inj h]
      decide +kernel
  obtain ⟨unit, hunit, hlines, hpieces⟩ := lines_of_hostile_unit .sample
    [0, 0, 0, 0, 0, 0, 0, 0, 0x0a, 0, 0x82, 0x80] (by decide) hprintable
  obtain rfl := Except.ok.inj hunit
  obtain ⟨hlength, hpiece⟩ := hpieces (List.ne_nil_of_length_eq_add_one (length_lines _ _))
  exact ⟨hprintable, _, rfl, hlines, hlength, hpiece 0 [0x0a] rfl⟩

end MissionScript
