import MissionScript.Proofs.UnitTurns
import MissionScript.Symbols.BuiltIn

/-!
# The listings that a batch leaves

What is taken up after a unit changes its listing only if it is listed under the same name. Hence,
in any order, where the listing of a unit was written there is at the end this listing or another
that goes to the same file (`Siblings.listed_of_listable`). There is another in one case only
(`listing_of_unitWritten`): `.tok` and `.tok.tok` are written to one file, and the listing of one of
them is lost although both are reported (`listing_lost`).
-/

namespace MissionScript

namespace Batch

open MissionScript.Path (outputName)

variable {reading : Reading} {outputDir : Text} {disk after : Disk} {u v : Text}

/-! ## Listings -/

/-- Where the listing of a unit goes, there is afterwards the listing of one of the units as they
were before: of this unit or of another with the same name of listing. -/
def Listed (reading : Reading) (outputDir : Text) (before after : Disk) (units : List Text)
    (u : Text) : Prop :=
  ∃ v ∈ units, outputName v = outputName u
    ∧ ∃ unit, (UnitFile.load before v).run.value = .ok unit
      ∧ after.read (output outputDir u) = .ok (Disk.utf8 (UnitFile.listing reading v unit))

theorem Listed.of_outputName {units : List Text} {w : Text}
    (h : Listed reading outputDir disk after units w) (hname : outputName w = outputName u) :
    Listed reading outputDir disk after units u := by
  obtain ⟨v, hv, hvw, unit, hload, hread⟩ := h
  rw [output, hname] at hread
  exact ⟨v, hv, hvw.trans hname, unit, hload, hread⟩

theorem Listed.of_runUnit {units order : List Text}
    (h : Listed reading outputDir (runUnit reading outputDir disk v).2 after order u)
    (hsiblings : Siblings units) (hv : v ∈ units) (horder : order ⊆ units) :
    Listed reading outputDir disk after (v :: order) u := by
  obtain ⟨w, hw, hname, unit, hload, hread⟩ := h
  exact ⟨w, List.mem_cons_of_mem v hw, hname, unit,
    (hsiblings.load_runUnit (horder hw) hv).1 hload, hread⟩

theorem Listable.read_runUnit {unit : CompiledUnit} (h : Listable reading outputDir disk u unit) :
    (runUnit reading outputDir disk u).2.read (output outputDir u)
      = .ok (Disk.utf8 (UnitFile.listing reading u unit)) := by
  obtain ⟨disk', hwrite, hrun⟩ := h.runUnit_eq
  rw [hrun]
  exact Disk.read_write hwrite

/-- Whatever the order in which units are taken up, a unit that can be listed is listed. -/
theorem Siblings.listed_of_listable {units : List Text} (h : Siblings units) :
    ∀ {order : List Text} {disk : Disk} {u : Text} {unit : CompiledUnit}, order ⊆ units →
      u ∈ order → Listable reading outputDir disk u unit →
      Listed reading outputDir disk (runUnits reading outputDir disk order).2 order u
  | v :: order, disk, u, unit, hsubset, hu, hunit => by
    obtain ⟨hv, horder⟩ := List.cons_subset.1 hsubset
    rw [runUnits_cons]
    by_cases hlater : ∃ w ∈ order, outputName w = outputName u
        ∧ ∃ unit, Listable reading outputDir disk w unit
    · -- A later unit is written over this one, or is this one again.
      obtain ⟨w, hw, hname, unit, hunit⟩ := hlater
      have hunit := (h.listable_runUnit (horder hw) hv).2 hunit
      exact ((h.listed_of_listable horder hw hunit).of_outputName hname).of_runUnit h hv horder
    · have hlast : u ∉ order := fun hmem => hlater ⟨u, hmem, rfl, unit, hunit⟩
      obtain rfl := (List.mem_cons.1 hu).resolve_right hlast
      refine ⟨u, List.mem_cons_self, rfl, unit, hunit.load, ?_⟩
      refine ((h.keeps_runUnits horder).read_eq_ok_iff ?_).2 hunit.read_runUnit
      rintro l hl ⟨w, hw, ⟨unit', hunit'⟩, hplace⟩
      have hname := (h.getLast?_output (horder hw) hplace).symm.trans (h.getLast?_output hv hl)
      have hunit' := (h.listable_runUnit (horder hw) hv).1 hunit'
      exact hlater ⟨w, hw, Option.some.inj hname, unit', hunit'⟩

/-- The unit is among those with an outcome, and it was decompiled. -/
def Decompiled (outcomes : List (Text × Outcome)) (u : Text) : Prop :=
  ∃ usage, (u, .ok usage) ∈ outcomes

/-! ## The whole batch -/

/-- Two units that share the name of their listing. -/
def Clash (u v : Text) : Prop :=
  UnitFile.name u = ".tok".toList ∧ UnitFile.name v = ".tok.tok".toList
    ∨ UnitFile.name u = ".tok.tok".toList ∧ UnitFile.name v = ".tok".toList

theorem Siblings.outputName_eq_iff {units : List Text} (h : Siblings units) {u v : Text}
    (hu : u ∈ units) (hv : v ∈ units) (hne : u ≠ v) :
    outputName u = outputName v ↔ Clash u v := by
  obtain ⟨x, hx, hxu⟩ := h.endsIn u hu
  obtain ⟨y, hy, hyv⟩ := h.endsIn v hv
  have hxy : x ≠ y := by
    rintro rfl
    exact hne (h.eq_of_name u hu v hv ((name_of_endsIn hx hxu).trans (name_of_endsIn hx hyv).symm))
  rw [Path.outputName_eq_iff hxu hyv hx hy hxy, Clash, name_of_endsIn hx hxu, name_of_endsIn hy hyv]
  have hempty : ∀ z : Text, z ++ ".tok".toList = ".tok".toList ↔ z = [] := fun z =>
    List.append_left_eq_self
  have htwice : ".tok.tok".toList = ".tok".toList ++ ".tok".toList := rfl
  have htok : ∀ z : Text, z ++ ".tok".toList = ".tok.tok".toList ↔ z = ".tok".toList := by
    intro z
    rw [htwice, List.append_left_inj]
  rw [hempty, hempty, htok, htok]

theorem decompiled_of_unitWritten {outcomes : List (Text × Outcome)} {name out : Text} :
    ∀ {units : List Text} {s : Summary},
      .unitWritten name out ∈ (summarize outputDir outcomes s units).log →
      ∃ u ∈ units, name = UnitFile.name u ∧ Decompiled outcomes u
  | [], s, h => by simp [summarize] at h
  | u :: units, s, h => by
    have hlater : ∀ {s' : Summary},
        .unitWritten name out ∈ (summarize outputDir outcomes s' units).log →
        ∃ v ∈ u :: units, name = UnitFile.name v ∧ Decompiled outcomes v := by
      intro s' h
      obtain ⟨v, hv, hname⟩ := decompiled_of_unitWritten h
      exact ⟨v, List.mem_cons_of_mem u hv, hname⟩
    rw [summarize] at h
    rcases hlookup : outcomes.lookup u with _ | failure | usage
    · rw [hlookup] at h
      exact hlater h
    · simp only [hlookup, Summary.add, Logged.log_bind, Logged.log_tell, Logged.log_pure,
        List.append_nil, List.singleton_append, List.mem_cons, reduceCtorEq, false_or] at h
      exact hlater h
    · simp only [hlookup, Summary.add, Logged.log_bind, Logged.log_tell, Logged.log_pure,
        List.append_nil, List.singleton_append, List.mem_cons, Message.unitWritten.injEq] at h
      rcases h with ⟨hname, -⟩ | h
      · obtain ⟨before, after, rfl, -⟩ := List.lookup_eq_some_iff.1 hlookup
        exact ⟨u, List.mem_cons_self, hname, usage, by simp⟩
      · exact hlater h

section
variable {schedule : List Text → List Text} {created : Disk} {inputDir : Text}

theorem value_runWith (hcreate : disk.createDirectories outputDir = .ok created) :
    (runWith schedule reading disk inputDir outputDir).run.value
      = let units := findUnits created inputDir
        let (outcomes, after) := runUnits reading outputDir created (schedule units)
        .ok ((summarize outputDir outcomes {} units).value, after) := by
  rw [runWith, hcreate]
  rfl

theorem log_runWith (hcreate : disk.createDirectories outputDir = .ok created) :
    (runWith schedule reading disk inputDir outputDir).run.log
      = let units := findUnits created inputDir
        let (outcomes, _) := runUnits reading outputDir created (schedule units)
        .batchStarted units.length inputDir :: (summarize outputDir outcomes {} units).log := by
  rw [runWith, hcreate]
  simp [ExceptT.run_bind, Attempt.ofExcept, Attempt.log, Attempt.ofLogged]

end

end Batch

open Batch

/-- Of the units in a directory only `.tok` and `.tok.tok` share the name of a listing. Whatever the
order in which the units are taken up, where a unit was decompiled there is its own listing at the
end, or that of the one it shares the name with. -/
theorem listing_of_unitWritten (schedule : List Text → List Text) (reading : Reading)
    (disk created : Disk) (inputDir outputDir : Text)
    (hschedule : ∀ units, (schedule units).Perm units)
    (hplain : disk.NamesAre fun name => '/' ∉ name)
    (hcreate : disk.createDirectories outputDir = .ok created) :
    (∀ u ∈ findUnits created inputDir, ∀ v ∈ findUnits created inputDir, u ≠ v →
        (Path.outputName u = Path.outputName v ↔ Clash u v))
      ∧ ∃ summary after,
        (runWith schedule reading disk inputDir outputDir).run.value = .ok (summary, after)
          ∧ ∀ u ∈ findUnits created inputDir, .unitWritten (UnitFile.name u) (output outputDir u)
              ∈ (runWith schedule reading disk inputDir outputDir).run.log →
            ∃ v ∈ findUnits created inputDir, (v = u ∨ Clash v u)
              ∧ ∃ unit, (UnitFile.load created v).run.value = .ok unit
                ∧ after.read (output outputDir u)
                  = .ok (Disk.utf8 (UnitFile.listing reading v unit)) := by
  have hcreated := hplain.createDirectories (fun path _ name hname =>
    Path.not_mem_of_mem_pieces (List.mem_of_mem_filter hname)) hcreate
  have hsiblings := siblings_findUnits hcreated inputDir
  refine ⟨fun u hu v hv hne => hsiblings.outputName_eq_iff hu hv hne, _, _,
    value_runWith hcreate, ?_⟩
  intro u hu hlog
  rw [log_runWith hcreate] at hlog
  obtain ⟨u', hu', hname, usage, hmem⟩ :=
    decompiled_of_unitWritten (List.mem_of_ne_of_mem (by simp) hlog)
  obtain rfl := hsiblings.eq_of_name u hu u' hu' hname
  have hperm := hschedule (findUnits created inputDir)
  obtain ⟨horder, unit₀, hunit₀, -⟩ := hsiblings.accounts_of_mem hperm.subset hmem
  obtain ⟨v, hv, heq, unit, hload, hread⟩ :=
    hsiblings.listed_of_listable hperm.subset horder hunit₀
  have hv := hperm.mem_iff.1 hv
  refine ⟨v, hv, ?_, unit, hload, hread⟩
  by_cases hne : v = u
  · exact Or.inl hne
  · exact Or.inr ((hsiblings.outputName_eq_iff hv hu hne).1 heq)

/-- A disk with the units `.tok`, `.tok.tok` and `a.tok` in a directory. -/
def Batch.sampleDisk : Disk where
  entries :=
    [(["in".toList], .directory),
      (["in".toList, ".tok".toList], .file [0, 0, 0, 0, 0, 0, 0, 0]),
      (["in".toList, ".tok.tok".toList], .file [2, 0, 0, 0, 0, 0, 0, 0, 0x80, 0xa7]),
      (["in".toList, "a.tok".toList], .file [2, 0, 0, 0, 0, 0, 0, 0, 0x80, 0xa5])]

theorem listing_of_unitWritten_sample : ∃ summary after unit,
    (runWith List.reverse ⟨BuiltIn.tables, .from81⟩ sampleDisk "in".toList "out".toList).run.value
        = .ok (summary, after)
      ∧ after.read "out/a.txt".toList
        = .ok (Disk.utf8 (UnitFile.listing ⟨BuiltIn.tables, .from81⟩ "in/a.tok".toList unit)) := by
  obtain ⟨-, summary, after, hrun, hread⟩ := listing_of_unitWritten List.reverse
    ⟨BuiltIn.tables, .from81⟩ sampleDisk (sampleDisk.put ["out".toList] .directory) "in".toList
    "out".toList List.reverse_perm ⟨by decide, by decide⟩ rfl
  obtain ⟨v, -, hv, unit, -, hunit⟩ :=
    hread "in/a.tok".toList (by decide +kernel) (by decide +kernel)
  have hclash : ¬ Clash v "in/a.tok".toList := by
    rintro (⟨-, hname⟩ | ⟨-, hname⟩)
    · exact absurd hname (by decide)
    · exact absurd hname (by decide)
  obtain rfl := hv.resolve_right hclash
  exact ⟨summary, after, unit, hrun, hunit⟩

/-- All three units are reported as listed, and the listing of `.tok` is lost. -/
theorem listing_lost :
    findUnits sampleDisk "in".toList
        = ["in/.tok".toList, "in/.tok.tok".toList, "in/a.tok".toList]
      ∧ Path.outputName "in/.tok".toList = Path.outputName "in/.tok.tok".toList
      ∧ ((run ⟨BuiltIn.tables, .from81⟩ sampleDisk "in".toList "out".toList).run.value.toOption.map
            fun (summary, after) => (summary.decompiled, after.read "out/.tok.txt".toList))
        = some (3, .ok (Disk.utf8
            "// File: .tok.tok\n// Size: 10 bytes, segments: 1, vars: 0\n\nendif".toList)) := by
  decide +kernel

end MissionScript
