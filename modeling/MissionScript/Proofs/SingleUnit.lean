import MissionScript.Program
import MissionScript.Proofs.BatchSummary
import MissionScript.Proofs.CreatedDirectories

/-!
# One unit, listed in three ways

A unit is listed on standard output, into a file, or as one of a batch, and each way reads the file,
names the unit and goes on by itself. Where a file can be read, its path ends in a name
(`exists_fileName?_of_read`), so the unit is listed under the same name everywhere. Directories that
are created for the listing do not change what is read. So the first two ways fail alike or put out
the same text and report the same references (`produces_of_read`, `refuses_of_short`), and what a
batch writes for a unit at its turn is what each of them puts out (`single_agrees_with_batch`).
-/

namespace MissionScript

/-! ## The names of files that can be read -/

namespace Disk

variable {d : Disk} {l : Location} {path : Text}

/-- All that is on the disk stands in a directory, and the current directory is there. -/
structure IsTree (d : Disk) : Prop where
  above : ∀ e ∈ d.entries, d.get? e.1.dropLast = some .directory
  current : d.get? d.current = some .directory

theorem IsTree.get?_dropLast (h : d.IsTree) (hl : (d.get? l).isSome = true) :
    d.get? l.dropLast = some .directory := by
  rw [get?] at hl
  split_ifs at hl with hempty
  · rw [List.isEmpty_iff.1 hempty]
    rfl
  · obtain ⟨e, he, heq⟩ := List.lookup_isSome_iff.1 hl
    rw [beq_iff_eq.1 heq]
    exact h.above e he

theorem fileName?_of_steps {front : List Text} {last : Text} (h : steps path = front ++ [last])
    (hdot : last ≠ ['.']) (hdots : last ≠ ['.', '.']) : Path.fileName? path = some last := by
  have hfilter : (Path.pieces path).filter (fun n => !n.isEmpty && n != ['.'])
      = (steps path).filter (· != ['.']) := by
    rw [steps, List.filter_filter]
    exact List.filter_congr fun n _ => Bool.and_comm _ _
  have hlast : (Path.components path).getLast? = some last := by
    rw [Path.components, hfilter, h, List.filter_append]
    simp [hdot]
  simp [Path.fileName?, hlast, hdot, hdots]

/-- The path of a file that can be read ends in a name: where it does not, there is a directory. -/
theorem exists_fileName?_of_read (h : d.IsTree) {bytes : List UInt8}
    (hread : d.read path = .ok bytes) : ∃ name, Path.fileName? path = some name := by
  obtain ⟨t, ht, hget, -⟩ := read_eq_ok.1 hread
  have hfile : d.get? t.location ≠ some .directory := by simp [hget]
  obtain ⟨-, hwalk, -⟩ := locate_eq_ok.1 ht
  rcases List.eq_nil_or_concat (steps path) with hsteps | ⟨front, last, hsteps⟩
  · rw [hsteps, walk, Except.ok.injEq] at hwalk
    refine absurd ?_ hfile
    rw [← hwalk, origin]
    split_ifs
    · rfl
    · exact h.current
  · rw [List.concat_eq_append] at hsteps
    rw [hsteps] at hwalk
    obtain ⟨m, hm, hlocation⟩ := exists_child_of_walk hwalk
    rw [hlocation] at hfile
    by_cases hdot : last = ['.']
    · rw [child, if_pos hdot] at hfile
      exact absurd hm hfile
    · by_cases hdots : last = ['.', '.']
      · rw [child, if_neg hdot, if_pos hdots] at hfile
        exact absurd (h.get?_dropLast (by simp [hm])) hfile
      · exact ⟨last, fileName?_of_steps hsteps hdot hdots⟩

/-- A file can be written under the path. -/
def Writable (d : Disk) (path : Text) : Prop := ∃ d', d.write path [] = .ok d'

theorem Writable.exists_write (h : d.Writable path) (bytes : List UInt8) :
    ∃ d', d.write path bytes = .ok d' := by
  obtain ⟨d', hwrite⟩ := h
  obtain ⟨t, ht, hnamed, hdir, -⟩ := write_eq_ok.1 hwrite
  exact ⟨_, write_eq_ok.2 ⟨t, ht, hnamed, hdir, rfl⟩⟩

end Disk

/-! ## The steps of a run -/

namespace Attempt

variable {α β : Type} {x : Attempt α} {f : α → Attempt β}

theorem value_bind_of_ok {a : α} (h : x.run.value = .ok a) :
    (x >>= f).run.value = (f a).run.value := by
  rw [ExceptT.run_bind, Logged.value_bind, h]

theorem value_bind_of_error {failure : Failure} (h : x.run.value = .error failure) :
    (x >>= f).run.value = .error failure := by
  rw [ExceptT.run_bind, Logged.value_bind, h]
  rfl

end Attempt

namespace UnitFile

variable {reading : Reading} {disk created : Disk} {input output : Text}

theorem load_of_short {bytes : List UInt8} (hread : disk.read input = .ok bytes)
    (hshort : bytes.length < CompiledUnit.headerSize) :
    (load disk input).run.value = .error (.parse input ⟨bytes.length⟩) := by
  have hparse : (Attempt.ofExcept (.parse input) (CompiledUnit.parse bytes)).run.value
      = .error (.parse input ⟨bytes.length⟩) := by
    rw [CompiledUnit.parse_of_lt hshort]
    rfl
  rw [load, Attempt.value_bind_of_ok (Attempt.value_ofExcept_eq_ok.2 hread)]
  exact Attempt.value_bind_of_error hparse

theorem nameOnOutput_eq {last : Text} (h : Path.fileName? input = some last) :
    nameOnOutput input = name input := by
  rw [nameOnOutput, name, h, Option.getD_some, Option.getD_some]

theorem decompileToOutput_eq_ok {unit : CompiledUnit} (hname : nameOnOutput input = name input)
    (hload : (load disk input).run.value = .ok unit) :
    (decompileToOutput reading disk input).run.value
      = .ok (Batch.report reading input unit, listing reading input unit ++ ['\n']) := by
  rw [decompileToOutput, hname]
  refine Attempt.value_bind_eq_ok.2 ⟨unit, hload, ?_⟩
  rfl

theorem value_decompileInto
    (h : disk.createDirectories ((Path.parent? output).getD []) = .ok created) :
    (decompileInto reading disk input output).run.value
      = (decompile reading created input output).run.value := by
  rw [decompileInto, createParent, h]
  rfl

end UnitFile

namespace Program

variable {α β : Type} {world world' : World}

/-- How a run ends from a state of the world, and the state it leaves. -/
def outcome (r : Run α) (world : World) : Except Failure α × World := (r.run.run world).value

theorem outcome_perform (step : Disk → Attempt (α × Disk)) (world : World) :
    outcome (perform step) world = match (step world.disk).run.value with
      | .ok (a, disk) => (.ok a, { world with disk })
      | .error failure => (.error failure, world) := by
  have hrun : outcome (perform step) world
      = (match (step world.disk).run.value with
        | .ok (a, disk) => pure (.ok a, { world with disk })
        | .error failure => pure (.error failure, world)
        : Logged (Except Failure α × World)).value := rfl
  rw [hrun]
  split <;> rfl

theorem outcome_bind (r : Run α) (f : α → Run β) (world : World) :
    outcome (r >>= f) world = match outcome r world with
      | (.ok a, left) => outcome (f a) left
      | (.error failure, left) => (.error failure, left) := by
  unfold outcome
  rw [ExceptT.run_bind, StateT.run_bind, Logged.value_bind]
  rcases (r.run.run world).value with ⟨failure | a, left⟩
  · rfl
  · rfl

variable {reading : Reading} {disk created : Disk} {input output printed : Text}

theorem outcome_onOutput (reading : Reading) (disk : Disk) (input printed : Text) :
    outcome (decompileSingle reading input none) ⟨disk, printed⟩
      = match (UnitFile.decompileToOutput reading disk input).run.value with
        | .ok (usage, text) => (.ok usage, ⟨disk, printed ++ text⟩)
        | .error failure => (.error failure, ⟨disk, printed⟩) := by
  rw [decompileSingle, outcome_bind, outcome_perform]
  rcases h : (UnitFile.decompileToOutput reading disk input).run.value with failure | ⟨usage, text⟩
  · rw [Attempt.value_bind_of_error h]
  · rw [Attempt.value_bind_of_ok h]
    rfl

/-- The directory of the listing stays, whatever becomes of the unit. -/
theorem outcome_inFile
    (h : disk.createDirectories ((Path.parent? output).getD []) = .ok created) :
    outcome (decompileSingle reading input (some output)) ⟨disk, printed⟩
      = match (UnitFile.decompileInto reading disk input output).run.value with
        | .ok (usage, written) => (.ok usage, ⟨written, printed⟩)
        | .error failure => (.error failure, ⟨created, printed⟩) := by
  have hcreate : (UnitFile.createParent disk output).run.value = .ok created := by
    rw [UnitFile.createParent, h]
    rfl
  rw [UnitFile.value_decompileInto h, decompileSingle, outcome_bind, outcome_perform,
    Attempt.value_bind_of_ok hcreate]
  change outcome (perform fun disk => UnitFile.decompile reading disk input output)
    ⟨created, printed⟩ = _
  rw [outcome_perform]
  dsimp only
  rcases (UnitFile.decompile reading created input output).run.value with
    failure | ⟨usage, written⟩
  · rfl
  · rfl

/-! ## The text and the references -/

/-- Both ways of decompiling one unit succeed with the same report, and put out the same text: on
standard output with a line break behind it, or in any file that can be written. -/
structure Produces (reading : Reading) (disk : Disk) (input text : Text) (usage : Usage) :
    Prop where
  onOutput : ∀ printed, outcome (decompileSingle reading input none) ⟨disk, printed⟩
    = (.ok usage, ⟨disk, printed ++ (text ++ ['\n'])⟩)
  inFile : ∀ printed output created,
    disk.createDirectories ((Path.parent? output).getD []) = .ok created → created.Writable output →
      ∃ written, outcome (decompileSingle reading input (some output)) ⟨disk, printed⟩
          = (.ok usage, ⟨written, printed⟩)
        ∧ written.read output = .ok (Disk.utf8 text)

/-- Both ways of decompiling one unit fail for the same reason. Nothing is printed, and no file is
created or changed. -/
structure Refuses (reading : Reading) (disk : Disk) (input : Text) (failure : Failure) :
    Prop where
  onOutput : ∀ printed, outcome (decompileSingle reading input none) ⟨disk, printed⟩
    = (.error failure, ⟨disk, printed⟩)
  inFile : ∀ printed output created,
    disk.createDirectories ((Path.parent? output).getD []) = .ok created →
      outcome (decompileSingle reading input (some output)) ⟨disk, printed⟩
          = (.error failure, ⟨created, printed⟩)
        ∧ ∀ l bytes, created.get? l = some (.file bytes) ↔ disk.get? l = some (.file bytes)

theorem produces_of_read {bytes : List UInt8} {unit : Logged CompiledUnit} {last : Text}
    (hname : Path.fileName? input = some last) (hread : disk.read input = .ok bytes)
    (hparse : CompiledUnit.parse bytes = .ok unit) :
    Produces reading disk input (UnitFile.listing reading input unit.value)
      (Batch.report reading input unit.value) where
  onOutput printed := by
    have hload := UnitFile.load_eq_ok.2 ⟨bytes, hread, unit, hparse, rfl⟩
    rw [outcome_onOutput,
      UnitFile.decompileToOutput_eq_ok (UnitFile.nameOnOutput_eq hname) hload]
  inFile printed output created hcreate hwritable := by
    obtain ⟨written, hwrite⟩ :=
      hwritable.exists_write (Disk.utf8 (UnitFile.listing reading input unit.value))
    have hread' := (Disk.grows_createDirectories hcreate).read hread
    have hload := UnitFile.load_eq_ok.2 ⟨bytes, hread', unit, hparse, rfl⟩
    have hdecompile := UnitFile.decompile_eq_ok.2 ⟨unit.value, hload, hwrite, rfl⟩
    refine ⟨written, ?_, Disk.read_write hwrite⟩
    rw [outcome_inFile hcreate, UnitFile.value_decompileInto hcreate, hdecompile]
    rfl

theorem refuses_of_short {bytes : List UInt8} (hread : disk.read input = .ok bytes)
    (hshort : bytes.length < CompiledUnit.headerSize) :
    Refuses reading disk input (.parse input ⟨bytes.length⟩) where
  onOutput printed := by
    rw [outcome_onOutput, UnitFile.decompileToOutput,
      Attempt.value_bind_of_error (UnitFile.load_of_short hread hshort)]
  inFile printed output created hcreate := by
    have hgrows := Disk.grows_createDirectories hcreate
    refine ⟨?_, fun l bytes => hgrows.file_iff⟩
    rw [outcome_inFile hcreate, UnitFile.value_decompileInto hcreate, UnitFile.decompile,
      Attempt.value_bind_of_error (UnitFile.load_of_short (hgrows.read hread) hshort)]

/-- What a batch writes for a unit at its turn, whatever was taken up before it. -/
theorem listing_of_runUnit {outputDir : Text} {units before : List Text} {u : Text} {usage : Usage}
    {left : Disk} (hsiblings : Batch.Siblings units) (hu : u ∈ units) (hbefore : before ⊆ units)
    (hrun : Batch.runUnit reading outputDir (Batch.runUnits reading outputDir disk before).2 u
      = (.ok usage, left)) :
    ∃ unit, (UnitFile.load disk u).run.value = .ok unit ∧ usage = Batch.report reading u unit
      ∧ left.read (Batch.output outputDir u)
        = .ok (Disk.utf8 (UnitFile.listing reading u unit)) := by
  obtain ⟨unit, hload, hwrite, husage⟩ := UnitFile.decompile_eq_ok.1 (Batch.runUnit_eq_ok.1 hrun)
  have hlistable := (hsiblings.listable_runUnits hu hbefore).1 ⟨hload, left, hwrite⟩
  exact ⟨unit, hlistable.load, husage.symm, Disk.read_write hwrite⟩

end Program

open Program Batch

/-- A file is decompiled to standard output and to another file with the same result: if it is too
short for a unit, both fail with the same error and no file is touched, and if not, both report the
same references and put out the same listing, with a line break behind it on standard output. The
listing that a batch writes for a unit at its turn, and the references that it reports, are those of
the same path decompiled by itself, on any disk on which it is read the same. -/
theorem single_agrees_with_batch (reading : Reading) :
    (∀ disk input bytes, disk.IsTree → disk.read input = .ok bytes →
        (bytes.length < CompiledUnit.headerSize →
          Refuses reading disk input (.parse input ⟨bytes.length⟩))
        ∧ (CompiledUnit.headerSize ≤ bytes.length → ∃ unit, CompiledUnit.parse bytes = .ok unit
          ∧ Produces reading disk input (UnitFile.listing reading input unit.value)
            (report reading input unit.value)))
      ∧ ∀ (schedule : List Text → List Text) (disk created : Disk) inputDir outputDir,
        (∀ us, (schedule us).Perm us) → disk.NamesAre Disk.Admitted →
        disk.createDirectories outputDir = .ok created →
        ∀ before u rest, schedule (findUnits created inputDir) = before ++ u :: rest →
        ∀ usage left,
          runUnit reading outputDir (runUnits reading outputDir created before).2 u
            = (.ok usage, left) →
          ∃ text, left.read (output outputDir u) = .ok (Disk.utf8 text)
            ∧ ∀ disk', (∀ bytes, created.read u = .ok bytes → disk'.read u = .ok bytes) →
              Produces reading disk' u text usage := by
  constructor
  · intro disk input bytes htree hread
    obtain ⟨last, hname⟩ := Disk.exists_fileName?_of_read htree hread
    refine ⟨fun hshort => refuses_of_short hread hshort, fun hsize => ?_⟩
    obtain ⟨unit, hparse⟩ := CompiledUnit.exists_parse hsize
    exact ⟨unit, hparse, produces_of_read hname hread hparse⟩
  · intro schedule disk created inputDir outputDir hschedule hnames hcreate before u rest horder
      usage left hrun
    have hsiblings : Siblings (findUnits created inputDir) :=
      siblings_findUnits (hnames.admitted_createDirectories hcreate).no_slash inputDir
    have hsubset : before ++ u :: rest ⊆ findUnits created inputDir :=
      horder ▸ (hschedule _).subset
    obtain ⟨hbefore, hrest⟩ := List.append_subset.1 hsubset
    have hu := hrest List.mem_cons_self
    obtain ⟨unit, hload, rfl, hlisting⟩ := listing_of_runUnit hsiblings hu hbefore hrun
    refine ⟨_, hlisting, fun disk' hsame => ?_⟩
    obtain ⟨bytes, hread, parsed, hparse, rfl⟩ := UnitFile.load_eq_ok.1 hload
    obtain ⟨x, hx, hux⟩ := hsiblings.endsIn u hu
    exact produces_of_read (hux.fileName? (isName_tok hx)) (hsame bytes hread) hparse

/-- A unit that a batch takes up behind one that is cut off, and both by themselves. -/
theorem single_agrees_with_batch_mixed :
    (∃ text usage left written,
        runUnit ⟨BuiltIn.tables, .from81⟩ "out".toList
            (runUnits ⟨BuiltIn.tables, .from81⟩ "out".toList
              (mixedDisk.put ["out".toList] .directory) ["in/short.tok".toList]).2
            "in/a.tok".toList = (.ok usage, left)
          ∧ left.read "out/a.txt".toList = .ok (Disk.utf8 text)
          ∧ outcome (decompileSingle ⟨BuiltIn.tables, .from81⟩ "in/a.tok".toList none)
              ⟨mixedDisk, []⟩ = (.ok usage, ⟨mixedDisk, text ++ ['\n']⟩)
          ∧ outcome (decompileSingle ⟨BuiltIn.tables, .from81⟩ "in/a.tok".toList
              (some "new/a.txt".toList)) ⟨mixedDisk, []⟩ = (.ok usage, ⟨written, []⟩)
          ∧ written.read "new/a.txt".toList = .ok (Disk.utf8 text))
      ∧ (∃ unit, CompiledUnit.parse [2, 0, 0, 0, 0, 0, 0, 0, 0x82, 0xd7] = .ok unit
        ∧ Produces ⟨BuiltIn.tables, .from81⟩ mixedDisk "in/a.tok".toList
          (UnitFile.listing ⟨BuiltIn.tables, .from81⟩ "in/a.tok".toList unit.value)
          (report ⟨BuiltIn.tables, .from81⟩ "in/a.tok".toList unit.value))
      ∧ Refuses ⟨BuiltIn.tables, .from81⟩ mixedDisk "in/short.tok".toList
        (.parse "in/short.tok".toList ⟨3⟩) := by
  obtain ⟨hsingle, hbatch⟩ := single_agrees_with_batch ⟨BuiltIn.tables, .from81⟩
  have htree : mixedDisk.IsTree := ⟨by decide, rfl⟩
  have hturn : ∃ usage left, runUnit ⟨BuiltIn.tables, .from81⟩ "out".toList
      (runUnits ⟨BuiltIn.tables, .from81⟩ "out".toList (mixedDisk.put ["out".toList] .directory)
        ["in/short.tok".toList]).2 "in/a.tok".toList = (.ok usage, left) := ⟨_, _, rfl⟩
  obtain ⟨usage, left, hrun⟩ := hturn
  obtain ⟨text, hread, hproduces⟩ := hbatch List.reverse mixedDisk
    (mixedDisk.put ["out".toList] .directory) "in".toList "out".toList List.reverse_perm
    ⟨by decide, by decide⟩ rfl ["in/short.tok".toList] "in/a.tok".toList [] (by decide +kernel)
    usage left hrun
  obtain ⟨honOutput, hinFile⟩ := hproduces mixedDisk fun bytes hbytes => hbytes
  obtain ⟨written, hwritten, hfile⟩ := hinFile [] "new/a.txt".toList _ rfl ⟨_, rfl⟩
  refine ⟨⟨text, usage, left, written, hrun, hread, honOutput [], hwritten, hfile⟩, ?_, ?_⟩
  · exact (hsingle mixedDisk _ [2, 0, 0, 0, 0, 0, 0, 0, 0x82, 0xd7] htree rfl).2 (by decide)
  · exact (hsingle mixedDisk _ [1, 2, 3] htree rfl).1 (by decide)

end MissionScript
