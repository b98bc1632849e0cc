import MissionScript.Proofs.UsageReport
import MissionScript.Symbols.BuiltIn
import Mathlib.Algebra.Ring.Nat

/-!
# Merging usage reports

Reports are merged index by index, and an entry that only one of them has is kept as it is
(`get?_merge`). Counts add up and sets are united, in any order; the name alone is that of the first
report that knows one. Reports that are read under one string table have the same name for an index
(`namedBy_collect`), so their merge does not depend on their order either (`mergeAll_perm`), and an
entry of it is the sum of the entries for its index (`get?_mergeAll`).
-/

namespace MissionScript

/-! ## Sets -/

namespace NameSet

theorem union_assoc (m n k : NameSet) : (m.union n).union k = m.union (n.union k) :=
  eq_of_mem_iff fun name => by simp only [mem_union, or_assoc]

theorem union_comm (m n : NameSet) : m.union n = n.union m :=
  eq_of_mem_iff fun name => by simp only [mem_union, or_comm]

end NameSet

namespace SideSet

theorem contains_union (s t : SideSet) (side : Side) :
    (s.union t).contains side = (s.contains side || t.contains side) := rfl

theorem union_assoc (s t u : SideSet) : (s.union t).union u = s.union (t.union u) :=
  SideSet.ext (funext fun side => by simp only [contains_union, Bool.or_assoc])

theorem union_comm (s t : SideSet) : s.union t = t.union s :=
  SideSet.ext (funext fun side => by simp only [contains_union, Bool.or_comm])

end SideSet

/-! ## Entries -/

namespace StringUse

theorem merge_assoc (a b c : StringUse) : (a.merge b).merge c = a.merge (b.merge c) := by
  simp only [merge, Option.or_assoc, Nat.add_assoc, NameSet.union_assoc, SideSet.union_assoc]

instance : Std.Associative merge := ⟨merge_assoc⟩

/-- Of two entries with one name it does not matter which is the first. -/
theorem merge_comm_of_name {a b : StringUse} (h : a.name = b.name) : a.merge b = b.merge a := by
  simp only [merge, h, Nat.add_comm b.count, NameSet.union_comm b.contexts,
    NameSet.union_comm b.units, SideSet.union_comm b.sides]

/-- An entry says what the given ones say together. -/
structure Unites (parts : List StringUse) (use : StringUse) : Prop where
  name : use.name = parts.findSome? (·.name)
  count : use.count = (parts.map (·.count)).sum
  contexts : ∀ context, context ∈ use.contexts.toList ↔
    ∃ part ∈ parts, context ∈ part.contexts.toList
  sides : ∀ side, use.sides.contains side = true ↔ ∃ part ∈ parts, part.sides.contains side = true
  units : ∀ unitName, unitName ∈ use.units.toList ↔ ∃ part ∈ parts, unitName ∈ part.units.toList

theorem unites_singleton (use : StringUse) : Unites [use] use := by
  constructor <;> simp

theorem Unites.append {parts : List StringUse} {use : StringUse} (h : Unites parts use)
    (part : StringUse) : Unites (parts ++ [part]) (use.merge part) where
  name := by
    rw [List.findSome?_append, ← h.name]
    simp [merge]
  count := by
    rw [List.map_append, List.sum_append, ← h.count]
    simp [merge]
  contexts context := by
    rw [merge, NameSet.mem_union, h.contexts]
    simp [or_and_right, exists_or]
  sides side := by
    rw [merge, SideSet.contains_union, Bool.or_eq_true, h.sides]
    simp [or_and_right, exists_or]
  units unitName := by
    rw [merge, NameSet.mem_union, h.units]
    simp [or_and_right, exists_or]

end StringUse

/-! ## Reports -/

namespace Usage

theorem get?_merge (a b : Usage) (index : UInt8) :
    (a.merge b).get? index = (a.get? index).merge StringUse.merge (b.get? index) := by
  rcases ha : a.get? index with _ | x <;> rcases hb : b.get? index with _ | y <;>
    simp [merge, ha, hb]

theorem merge_assoc (a b c : Usage) : (a.merge b).merge c = a.merge (b.merge c) := by
  refine ByteMap.ext (funext fun index => ?_)
  have hassoc : Std.Associative (Option.merge StringUse.merge) := inferInstance
  simp only [get?_merge]
  exact hassoc.assoc _ _ _

theorem empty_merge (a : Usage) : merge .empty a = a :=
  ByteMap.ext (funext fun index => by rw [get?_merge, ByteMap.get?_empty, Option.merge_none_left])

theorem merge_empty (a : Usage) : a.merge .empty = a :=
  ByteMap.ext (funext fun index => by rw [get?_merge, ByteMap.get?_empty, Option.merge_none_right])

/-- Every entry has the name that the string table has for its index. -/
def NamedBy (strings : Option StringTable) (usage : Usage) : Prop :=
  ∀ index use, usage.get? index = some use → use.name = strings.bind (·.get? index.toNat)

theorem namedBy_collect (reading : Reading) (unitName : String) (unit : CompiledUnit) :
    NamedBy reading.tables.strings (collect reading unitName unit).value := by
  intro index use h
  have hholds := (entryOf_spec (reading.tables.string? index.toNat) unitName
    (referencesTo reading.tables.functions (reading.script unit) index)).2
  rw [← get?_eq_entryOf, h] at hholds
  exact hholds.name

theorem merge_comm_of_namedBy {strings : Option StringTable} {a b : Usage}
    (ha : NamedBy strings a) (hb : NamedBy strings b) : a.merge b = b.merge a := by
  refine ByteMap.ext (funext fun index => ?_)
  rw [get?_merge, get?_merge]
  rcases hx : a.get? index with _ | x <;> rcases hy : b.get? index with _ | y
  · rfl
  · rfl
  · rfl
  · have hname : x.name = y.name := (ha index x hx).trans (hb index y hy).symm
    exact congrArg some (StringUse.merge_comm_of_name hname)

/-- Some reports merged from left to right. -/
def mergeAll (reports : List Usage) : Usage := reports.foldl merge .empty

theorem mergeAll_append (reports : List Usage) (report : Usage) :
    mergeAll (reports ++ [report]) = (mergeAll reports).merge report := by
  simp [mergeAll]

theorem mergeAll_perm (strings : Option StringTable) {reports reports' : List Usage}
    (h : reports.Perm reports') (hnamed : ∀ report ∈ reports, NamedBy strings report) :
    mergeAll reports = mergeAll reports' := by
  refine h.foldl_eq' (fun a ha b hb c => ?_) _
  rw [merge_assoc, merge_comm_of_namedBy (hnamed a ha) (hnamed b hb), merge_assoc]

/-- What the reports say of an index, one entry after the other. -/
def entriesFor (reports : List Usage) (index : UInt8) : List StringUse :=
  reports.filterMap (·.get? index)

theorem entriesFor_append (reports : List Usage) (report : Usage) (index : UInt8) :
    entriesFor (reports ++ [report]) index
      = entriesFor reports index ++ (report.get? index).toList := by
  rw [entriesFor, List.filterMap_append]
  cases h : report.get? index <;> simp [entriesFor, h]

theorem get?_mergeAll (reports : List Usage) (index : UInt8) :
    match (mergeAll reports).get? index with
    | none => entriesFor reports index = []
    | some use => entriesFor reports index ≠ [] ∧ use.Unites (entriesFor reports index) := by
  induction reports using List.reverseRecOn with
  | nil => rfl
  | append_singleton reports report ih =>
    rw [mergeAll_append, get?_merge, entriesFor_append]
    rcases hmerged : (mergeAll reports).get? index with _ | use <;>
      rcases hentry : report.get? index with _ | part <;> rw [hmerged] at ih
    · simpa using ih
    · simp only at ih
      simpa [ih] using part.unites_singleton
    · simpa using ih
    · simpa using ih.2.append part

/-- A unit with its name and what it is read with, but for the string table. -/
structure Source where
  functions : FunctionTable
  rule : MarkerRule
  unitName : String
  unit : CompiledUnit

def Source.report (strings : Option StringTable) (s : Source) : Usage :=
  (collect ⟨⟨s.functions, strings⟩, s.rule⟩ s.unitName s.unit).value

end Usage

open Usage (mergeAll entriesFor)

/-- Merging is associative with the empty report as its unit. Reports under one string table have
the same merge in any order, and of any reports an entry of the merge adds up the counts and unites
the contexts, the sides and the units of the entries for its index. -/
theorem merge_aggregates_reports :
    (∀ a b c : Usage, (a.merge b).merge c = a.merge (b.merge c))
      ∧ (∀ a : Usage, Usage.merge .empty a = a ∧ a.merge .empty = a)
      ∧ (∀ (strings : Option StringTable) (sources sources' : List Usage.Source),
          sources.Perm sources' →
          mergeAll (sources.map (·.report strings)) = mergeAll (sources'.map (·.report strings)))
      ∧ ∀ (reports : List Usage) (index : UInt8), match (mergeAll reports).get? index with
        | none => entriesFor reports index = []
        | some use => entriesFor reports index ≠ [] ∧ use.Unites (entriesFor reports index) := by
  refine ⟨Usage.merge_assoc, fun a => ⟨Usage.empty_merge a, Usage.merge_empty a⟩,
    fun strings sources sources' h => ?_, Usage.get?_mergeAll⟩
  refine Usage.mergeAll_perm strings (h.map _) fun report hreport => ?_
  obtain ⟨source, -, rfl⟩ := List.mem_map.1 hreport
  exact Usage.namedBy_collect _ _ _

/-- Two units that refer to the same string, read under different tables and rules. -/
def Usage.sampleSources : List Usage.Source :=
  [⟨BuiltIn.functions, .from81, "b.tok", ⟨2, 0, [0x82, 0xd7]⟩⟩,
    ⟨⟨162, .empty⟩, .from83, "a.tok", ⟨2, 0, [0x82, 0xd7]⟩⟩]

theorem merge_aggregates_reports_reversed :
    mergeAll (Usage.sampleSources.reverse.map (·.report (some BuiltIn.strings)))
        = mergeAll (Usage.sampleSources.map (·.report (some BuiltIn.strings)))
      ∧ ((mergeAll (Usage.sampleSources.map (·.report (some BuiltIn.strings)))).get? 87).map
          (fun use => (use.name, use.count, use.units.toList))
        = some (some "Harvester", 2, ["a.tok", "b.tok"]) := by
  obtain ⟨-, -, hperm, -⟩ := merge_aggregates_reports
  exact ⟨hperm _ _ _ (List.reverse_perm _), by decide +kernel⟩

end MissionScript
