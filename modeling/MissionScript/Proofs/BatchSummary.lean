import MissionScript.Proofs.BatchListings
import MissionScript.Proofs.MergedUsage
import MissionScript.Proofs.RemovedFiles
import MissionScript.Proofs.UnitBytes

/-!
# The summary of a batch

Since no outcome depends on the order in which units are taken up, neither does the summary: it
counts and merges what the disk of the start decides (`Siblings.lookup_runUnits`,
`runWith_of_siblings`). At the turn of a unit that fails nothing changes
(`Siblings.runUnits_of_fails`), and when the files of units that fail are removed, a batch over
those left goes in step with the batch over all of them (`Leaves.runUnits_without`). Units that the
search does not get to are not even counted (`units_lost_behind_dots`).
-/

namespace MissionScript

theorem toOption_eq_some {ε α : Type} {x : Except ε α} {a : α} :
    x.toOption = some a ↔ x = .ok a := by
  cases x with
  | error e => simp [Except.toOption]
  | ok b => simp [Except.toOption]

theorem CompiledUnit.headerSize_le_of_parse {bytes : List UInt8} {unit : Logged CompiledUnit}
    (h : parse bytes = .ok unit) : headerSize ≤ bytes.length := by
  by_contra hshort
  rw [parse_of_lt (Nat.lt_of_not_le hshort)] at h
  simp at h

namespace Batch

open Disk (Keeps)

variable {reading : Reading} {outputDir : Text} {d d' : Disk} {u v : Text}

/-! ## Outcomes -/

/-- A unit fails that cannot be read or is too short for its header. -/
theorem fails_of_short
    (h : ∀ bytes, d.read u = .ok bytes → bytes.length < CompiledUnit.headerSize) :
    Fails reading outputDir d u := by
  intro unit hunit
  obtain ⟨bytes, hread, parsed, hparse, -⟩ := UnitFile.load_eq_ok.1 hunit.load
  exact absurd (h bytes hread) (Nat.not_lt.2 (CompiledUnit.headerSize_le_of_parse hparse))

theorem runUnits_append (reading : Reading) (outputDir : Text) (more : List Text) :
    ∀ (order : List Text) (d : Disk), (runUnits reading outputDir d (order ++ more)).2
      = (runUnits reading outputDir (runUnits reading outputDir d order).2 more).2
  | [], _ => rfl
  | u :: order, d => by
    rw [List.cons_append, runUnits_cons, runUnits_cons]
    exact runUnits_append reading outputDir more order _

/-- At the turn of a unit that fails nothing changes. -/
theorem Siblings.runUnits_of_fails {units order : List Text} (h : Siblings units)
    (hu : u ∈ units) (horder : order ⊆ units) (hfails : Fails reading outputDir d u) :
    (runUnits reading outputDir d (order ++ [u])).2 = (runUnits reading outputDir d order).2 := by
  have hlate : Fails reading outputDir (runUnits reading outputDir d order).2 u :=
    fun unit hunit => hfails unit ((h.listable_runUnits hu horder).1 hunit)
  rw [runUnits_append]
  exact hlate.runUnit_eq

theorem map_fst_runUnits (reading : Reading) (outputDir : Text) :
    ∀ (order : List Text) (d : Disk), (runUnits reading outputDir d order).1.map Prod.fst = order
  | [], _ => rfl
  | v :: order, d => by
    rw [runUnits_cons, List.map_cons, map_fst_runUnits]

theorem Siblings.lookup_runUnits {units order : List Text} (h : Siblings units)
    (horder : order ⊆ units) (hu : u ∈ order) :
    ∃ outcome, (runUnits reading outputDir d order).1.lookup u = some outcome
      ∧ Accounts reading outputDir d u outcome := by
  rw [← map_fst_runUnits reading outputDir order d] at hu
  obtain ⟨⟨w, _⟩, hmem, rfl⟩ := List.mem_map.1 hu
  have hsome : ((runUnits reading outputDir d order).1.lookup w).isSome = true :=
    List.lookup_isSome_iff.2 ⟨_, hmem, beq_self_eq_true w⟩
  obtain ⟨outcome, hlookup⟩ := Option.isSome_iff_exists.1 hsome
  obtain ⟨before, rest, heq, -⟩ := List.lookup_eq_some_iff.1 hlookup
  exact ⟨outcome, hlookup, (h.accounts_of_mem horder (heq ▸ by simp)).2⟩

/-! ## The summary -/

/-- The unit with what is read of it, if it can be listed. -/
def listed? (reading : Reading) (outputDir : Text) (d : Disk) (u : Text) :
    Option (Text × CompiledUnit) := do
  let unit ← (UnitFile.load d u).run.value.toOption
  let _ ← (d.writeText (output outputDir u) (UnitFile.listing reading u unit)).toOption
  some (u, unit)

theorem listed?_eq_some {w : Text × CompiledUnit} : listed? reading outputDir d u = some w ↔
    w.1 = u ∧ Listable reading outputDir d u w.2 := by
  simp only [listed?, bind, Option.bind_eq_some_iff, toOption_eq_some, Option.some.injEq]
  constructor
  · rintro ⟨unit, hload, d', hwrite, rfl⟩
    exact ⟨rfl, hload, d', hwrite⟩
  · rintro ⟨rfl, hload, d', hwrite⟩
    exact ⟨w.2, hload, d', hwrite, rfl⟩

theorem listed?_eq_none :
    listed? reading outputDir d u = none ↔ Fails reading outputDir d u := by
  rw [Option.eq_none_iff_forall_ne_some]
  constructor
  · exact fun h unit hunit => h (u, unit) (listed?_eq_some.2 ⟨rfl, hunit⟩)
  · exact fun h w hw => h w.2 (listed?_eq_some.1 hw).2

/-- The units that can be listed. -/
def written (reading : Reading) (outputDir : Text) (d : Disk) (units : List Text) :
    List (Text × CompiledUnit) :=
  units.filterMap (listed? reading outputDir d)

theorem mem_written {units : List Text} {w : Text × CompiledUnit} :
    w ∈ written reading outputDir d units ↔ w.1 ∈ units ∧ Listable reading outputDir d w.1 w.2 := by
  simp only [written, List.mem_filterMap, listed?_eq_some]
  constructor
  · rintro ⟨u, hu, rfl, hlistable⟩
    exact ⟨hu, hlistable⟩
  · rintro ⟨hu, hlistable⟩
    exact ⟨w.1, hu, rfl, hlistable⟩

theorem map_fst_written (reading : Reading) (outputDir : Text) (d : Disk) (units : List Text) :
    (written reading outputDir d units).map Prod.fst
      = units.filter fun u => (listed? reading outputDir d u).isSome := by
  rw [written, List.map_filterMap, ← List.filterMap_eq_filter]
  refine List.filterMap_congr fun u _ => ?_
  cases h : listed? reading outputDir d u with
  | none => simp [Option.guard, h]
  | some w => simp [Option.guard, h, (listed?_eq_some.1 h).1]

/-- A summary goes on with the units of which the disk decides whether they can be listed. -/
def Summary.extend (reading : Reading) (outputDir : Text) (d : Disk) (units : List Text)
    (s : Summary) : Summary where
  decompiled := s.decompiled + (written reading outputDir d units).length
  errors := s.errors + units.countP fun u => (listed? reading outputDir d u).isNone
  usage := ((written reading outputDir d units).map fun w => report reading w.1 w.2).foldl
    Usage.merge s.usage

/-- The message of a unit says whether it can be listed. -/
def Reports (reading : Reading) (outputDir : Text) (d : Disk) (u : Text) (m : Message) : Prop :=
  (∃ unit, Listable reading outputDir d u unit)
      ∧ m = .unitWritten (UnitFile.name u) (output outputDir u)
    ∨ Fails reading outputDir d u ∧ ∃ line, m = .unitFailed (UnitFile.name u) line

theorem add_of_accounts {outcome : Outcome} (h : Accounts reading outputDir d u outcome)
    (s : Summary) : (s.add outputDir u outcome).value = s.extend reading outputDir d [u]
      ∧ ∃ m, (s.add outputDir u outcome).log = [m] ∧ Reports reading outputDir d u m := by
  cases outcome with
  | ok usage =>
    obtain ⟨unit, hunit, rfl⟩ := h
    have hlisted : listed? reading outputDir d u = some (u, unit) := listed?_eq_some.2 ⟨rfl, hunit⟩
    refine ⟨?_, _, rfl, Or.inl ⟨⟨unit, hunit⟩, rfl⟩⟩
    simp [Summary.add, Summary.extend, written, hlisted]
  | error failure =>
    have hlisted : listed? reading outputDir d u = none := listed?_eq_none.2 h
    refine ⟨?_, _, rfl, Or.inr ⟨h, _, rfl⟩⟩
    simp [Summary.add, Summary.extend, written, hlisted]

theorem Summary.extend_cons (reading : Reading) (outputDir : Text) (d : Disk) (u : Text)
    (units : List Text) (s : Summary) :
    (s.extend reading outputDir d [u]).extend reading outputDir d units
      = s.extend reading outputDir d (u :: units) := by
  cases h : listed? reading outputDir d u with
  | none => simp [Summary.extend, written, h, Nat.add_assoc, Nat.add_comm 1]
  | some w => simp [Summary.extend, written, h, Nat.add_assoc, Nat.add_comm 1]

theorem summarize_of_accounts {outcomes : List (Text × Outcome)} :
    ∀ {units : List Text} {s : Summary},
      (∀ u ∈ units, ∃ outcome, outcomes.lookup u = some outcome
        ∧ Accounts reading outputDir d u outcome) →
      (summarize outputDir outcomes s units).value = s.extend reading outputDir d units
        ∧ List.Forall₂ (Reports reading outputDir d) units
          (summarize outputDir outcomes s units).log
  | [], s, _ => ⟨by simp [summarize, Summary.extend, written], .nil⟩
  | u :: units, s, h => by
    obtain ⟨outcome, hlookup, haccounts⟩ := h u List.mem_cons_self
    obtain ⟨hvalue, m, hlog, hm⟩ := add_of_accounts haccounts s
    obtain ⟨hvalues, hlogs⟩ := summarize_of_accounts (s := s.extend reading outputDir d [u])
      fun v hv => h v (List.mem_cons_of_mem u hv)
    rw [summarize, hlookup]
    simp only [Logged.value_bind, Logged.log_bind, hvalue, hlog, List.singleton_append]
    rw [hvalues, Summary.extend_cons]
    exact ⟨rfl, .cons hm hlogs⟩

/-! ## Removing units that fail -/

theorem listed?_congr (h : ∀ unit, Listable reading outputDir d' u unit ↔
    Listable reading outputDir d u unit) :
    listed? reading outputDir d' u = listed? reading outputDir d u := by
  refine Option.ext fun w => ?_
  rw [listed?_eq_some, listed?_eq_some, h]

/-- Of the units some stay, and the files of the others, which all fail, are gone. -/
structure Leaves (reading : Reading) (outputDir : Text) (units : List Text) (stays : Text → Bool)
    (gone : List Location) (d : Disk) : Prop where
  files : d.Files gone
  place : ∀ l ∈ gone, ∃ u ∈ units, d.LocatedAt u l
  left : ∀ u ∈ units, stays u = true → ∀ l ∈ gone, ¬ d.LocatedAt u l
  fails : ∀ u ∈ units, stays u = false → Fails reading outputDir d u

namespace Leaves

variable {units : List Text} {stays : Text → Bool} {gone : List Location}

theorem not_listingPlace (h : Leaves reading outputDir units stays gone d)
    (hsiblings : Siblings units) {order : List Text} (horder : order ⊆ units) :
    ∀ l ∈ gone, ¬ ListingPlace reading outputDir d order l := by
  intro l hl
  obtain ⟨u, hu, hul⟩ := h.place l hl
  exact hsiblings.not_listingPlace horder hu l hul

theorem listable_without (h : Leaves reading outputDir units stays gone d) (hu : u ∈ units)
    (hstays : stays u = true) {unit : CompiledUnit} :
    Listable reading outputDir (d.without gone) u unit ↔ Listable reading outputDir d u unit :=
  listable_of_keeps h.files.keeps_without fun l hul hl => h.left u hu hstays l hl hul

/-- A unit that stays is listed the same before and after the files are removed. -/
theorem runUnit_without (h : Leaves reading outputDir units stays gone d)
    (hsiblings : Siblings units) (hu : u ∈ units) (hstays : stays u = true) :
    (runUnit reading outputDir (d.without gone) u).2
      = (runUnit reading outputDir d u).2.without gone := by
  rcases runUnit_cases reading outputDir d u with
    ⟨unit, hunit, d', hwrite, hrun⟩ | ⟨hfails, failure, hrun⟩
  · have hfree : ∀ l ∈ gone, ¬ d.LocatedAt (output outputDir u) l := fun l hl hplace =>
      h.not_listingPlace hsiblings (List.cons_subset.2 ⟨hu, List.nil_subset _⟩) l hl
        ⟨u, List.mem_singleton_self u, ⟨unit, hunit⟩, hplace⟩
    have hload := ((h.listable_without hu hstays).2 hunit).load
    have hrun' := runUnit_eq_ok.2 (UnitFile.decompile_eq_ok.2
      ⟨unit, hload, h.files.write_without hfree hwrite, rfl⟩)
    rw [hrun, hrun']
  · have hfails' : Fails reading outputDir (d.without gone) u :=
      fun unit hunit => hfails unit ((h.listable_without hu hstays).1 hunit)
    rw [hrun, hfails'.runUnit_eq]

theorem step (h : Leaves reading outputDir units stays gone d) (hsiblings : Siblings units)
    (hv : v ∈ units) :
    Leaves reading outputDir units stays gone (runUnit reading outputDir d v).2 := by
  have hkeeps := keeps_runUnit reading outputDir d v
  have hfree : ∀ l ∈ gone, ¬ ListingPlace reading outputDir d [v] l :=
    h.not_listingPlace hsiblings (List.cons_subset.2 ⟨hv, List.nil_subset _⟩)
  constructor
  · intro l hl
    rw [hkeeps.get? l (hfree l hl)]
    exact h.files l hl
  · simpa only [hkeeps.locatedAt_iff] using h.place
  · simpa only [hkeeps.locatedAt_iff] using h.left
  · intro u hu hstays unit hunit
    exact h.fails u hu hstays unit ((hsiblings.listable_runUnit hu hv).1 hunit)

/-- The units that stay leave the disk as all of them would, less the files removed. -/
theorem runUnits_without (hsiblings : Siblings units) : ∀ {order : List Text} {d : Disk},
    Leaves reading outputDir units stays gone d → order ⊆ units →
      (runUnits reading outputDir (d.without gone) (order.filter stays)).2
        = (runUnits reading outputDir d order).2.without gone
  | [], d, _, _ => rfl
  | v :: order, d, h, horder => by
    obtain ⟨hv, horder⟩ := List.cons_subset.1 horder
    have ih := runUnits_without hsiblings (h.step hsiblings hv) horder
    rw [runUnits_cons, ← ih]
    cases hstays : stays v with
    | true =>
      rw [List.filter_cons_of_pos hstays, runUnits_cons, h.runUnit_without hsiblings hv hstays]
    | false =>
      rw [List.filter_cons_of_neg (by simp [hstays]), (h.fails v hv hstays).runUnit_eq]

theorem files_runUnits (hsiblings : Siblings units) {order : List Text}
    (h : Leaves reading outputDir units stays gone d) (horder : order ⊆ units) :
    (runUnits reading outputDir d order).2.Files gone := by
  intro l hl
  rw [(hsiblings.keeps_runUnits horder).get? l (h.not_listingPlace hsiblings horder l hl)]
  exact h.files l hl

/-- The units that can be listed all stay. -/
theorem written_without (h : Leaves reading outputDir units stays gone d) :
    written reading outputDir (d.without gone) (units.filter stays)
      = written reading outputDir d units := by
  rw [written, List.filterMap_filter]
  refine List.filterMap_congr fun u hu => ?_
  split_ifs with hstays
  · exact listed?_congr fun unit => h.listable_without hu hstays
  · exact (listed?_eq_none.2 (h.fails u hu (by simpa using hstays))).symm

end Leaves

/-! ## The whole batch -/

/-- The summary counts the units, those that are listed among them, and merges what these refer to
in their order. -/
structure Summarizes (reading : Reading) (units : List Text) (listed : List (Text × CompiledUnit))
    (s : Summary) : Prop where
  decompiled : s.decompiled = listed.length
  total : s.decompiled + s.errors = units.length
  usage : s.usage = Usage.mergeAll (listed.map fun w => report reading w.1 w.2)

theorem summarizes_extend (reading : Reading) (outputDir : Text) (d : Disk) (units : List Text) :
    Summarizes reading units (written reading outputDir d units)
      (Summary.extend reading outputDir d units {}) where
  decompiled := Nat.zero_add _
  total := by
    have hsplit : units.length = _ := List.length_eq_countP_add_countP
      fun u => (listed? reading outputDir d u).isSome
    have hnone : units.countP (fun u => decide ¬ (listed? reading outputDir d u).isSome = true)
        = units.countP fun u => (listed? reading outputDir d u).isNone :=
      List.countP_congr fun u _ => by simp
    rw [hsplit, hnone, ← List.length_filterMap_eq_countP]
    simp only [Summary.extend, written, Nat.zero_add]
  usage := rfl

/-- The places are those of files on the disk whose units fail. -/
def FailedFiles (reading : Reading) (outputDir : Text) (disk created : Disk) (units : List Text)
    (gone : List Location) : Prop :=
  ∀ l ∈ gone, (∃ bytes, disk.get? l = some (.file bytes))
    ∧ ∃ u ∈ units, created.LocatedAt u l ∧ Fails reading outputDir created u

section
variable {schedule : List Text → List Text} {disk created : Disk} {inputDir : Text}
  {gone : List Location}

/-- The summary and the messages follow from the disk on which the units are found. -/
theorem runWith_of_siblings (hcreate : disk.createDirectories outputDir = .ok created)
    (hsiblings : Siblings (findUnits created inputDir))
    (hperm : (schedule (findUnits created inputDir)).Perm (findUnits created inputDir)) :
    (runWith schedule reading disk inputDir outputDir).run.value
        = .ok (Summary.extend reading outputDir created (findUnits created inputDir) {},
            (runUnits reading outputDir created (schedule (findUnits created inputDir))).2)
      ∧ ∃ messages, (runWith schedule reading disk inputDir outputDir).run.log
          = .batchStarted (findUnits created inputDir).length inputDir :: messages
        ∧ List.Forall₂ (Reports reading outputDir created) (findUnits created inputDir)
          messages := by
  rw [value_runWith hcreate, log_runWith hcreate]
  generalize findUnits created inputDir = units at hsiblings hperm ⊢
  have hlookup : ∀ u ∈ units, ∃ outcome,
      (runUnits reading outputDir created (schedule units)).1.lookup u = some outcome
        ∧ Accounts reading outputDir created u outcome :=
    fun u hu => hsiblings.lookup_runUnits hperm.subset (hperm.mem_iff.2 hu)
  obtain ⟨hvalue, hlog⟩ := summarize_of_accounts (s := {}) hlookup
  exact ⟨by simp only [hvalue], _, rfl, hlog⟩

theorem leaves_of_failedFiles (hnames : created.NamesAre Disk.Admitted)
    (hfiles : created.Files gone)
    (hgone : FailedFiles reading outputDir disk created (findUnits created inputDir) gone) :
    ∃ stays, findUnits (created.without gone) inputDir = (findUnits created inputDir).filter stays
      ∧ Leaves reading outputDir (findUnits created inputDir) stays gone created := by
  have hsiblings := siblings_findUnits hnames.no_slash inputDir
  obtain ⟨stays, hunits, hstays⟩ := exists_findUnits_without hnames hfiles inputDir
  refine ⟨stays, hunits, hfiles, ?_, fun u hu => (hstays u hu).1, ?_⟩
  · intro l hl
    obtain ⟨-, u, hu, hul, -⟩ := hgone l hl
    exact ⟨u, hu, hul⟩
  · intro u hu hremoved
    have hplace : ∃ l ∈ gone, created.LocatedAt u l := by
      by_contra hnone
      have hstay := (hstays u hu).2 fun l hl hul => hnone ⟨l, hl, hul⟩
      simp [hremoved] at hstay
    obtain ⟨l, hl, hul⟩ := hplace
    obtain ⟨-, v, hv, hvl, hfails⟩ := hgone l hl
    rwa [hsiblings.eq_of_locatedAt hu hv hul hvl]

/-- A listing that was written is there at the end, with or without the files of other units. -/
theorem Leaves.exists_read {units order : List Text} {stays : Text → Bool}
    (h : Leaves reading outputDir units stays gone created) (hsiblings : Siblings units)
    (horder : order ⊆ units) {w : Text × CompiledUnit} (hw : w.1 ∈ order)
    (hlistable : Listable reading outputDir created w.1 w.2) :
    let after := (runUnits reading outputDir created order).2
    ∃ bytes, after.read (output outputDir w.1) = .ok bytes
      ∧ (after.without gone).read (output outputDir w.1) = .ok bytes := by
  intro after
  have hkeeps : Keeps _ created after := hsiblings.keeps_runUnits horder
  obtain ⟨v, -, -, unit, -, hread⟩ := hsiblings.listed_of_listable horder hw hlistable
  refine ⟨_, hread,
    ((h.files_runUnits hsiblings horder).keeps_without.read_eq_ok_iff ?_).2 hread⟩
  intro l hplace hl
  exact h.not_listingPlace hsiblings horder l hl
    ⟨w.1, hw, ⟨w.2, hlistable⟩, hkeeps.locatedAt_iff.1 hplace⟩

/-- Without the files of units that fail, a batch in the same order comes to the same end. -/
theorem runWith_without (hnames : created.NamesAre Disk.Admitted)
    (hcreate : disk.createDirectories outputDir = .ok created)
    (hperm : (schedule (findUnits created inputDir)).Perm (findUnits created inputDir))
    (hgone : FailedFiles reading outputDir disk created (findUnits created inputDir) gone) :
    let units := findUnits created inputDir
    let after := (runUnits reading outputDir created (schedule units)).2
    ∃ created', (disk.without gone).createDirectories outputDir = .ok created'
      ∧ ∀ schedule' : List Text → List Text,
        schedule' (findUnits created' inputDir)
          = (schedule units).filter (· ∈ findUnits created' inputDir) →
        ∃ summary', (runWith schedule' reading (disk.without gone) inputDir outputDir).run.value
            = .ok (summary', after.without gone)
          ∧ summary'.decompiled = (Summary.extend reading outputDir created units {}).decompiled
          ∧ summary'.usage = (Summary.extend reading outputDir created units {}).usage
          ∧ ∀ w ∈ written reading outputDir created units,
            ∃ bytes, after.read (output outputDir w.1) = .ok bytes
              ∧ (after.without gone).read (output outputDir w.1) = .ok bytes := by
  intro units after
  have hsiblings : Siblings units := siblings_findUnits hnames.no_slash inputDir
  have hfiles : disk.Files gone := fun l hl => (hgone l hl).1
  obtain ⟨hcreate', hfiles'⟩ := hfiles.createDirectories_without hcreate
  obtain ⟨stays, hunits', hleaves⟩ := leaves_of_failedFiles hnames hfiles' hgone
  refine ⟨_, hcreate', fun schedule' hschedule' => ?_⟩
  -- The order of the units left is the given order without those that do not stay.
  have horder : schedule' (findUnits (created.without gone) inputDir)
      = (schedule units).filter stays := by
    rw [hschedule', hunits']
    refine List.filter_congr fun u hu => ?_
    have hu : u ∈ findUnits created inputDir := hperm.subset hu
    simp [List.mem_filter, hu]
  have hperm' : (schedule' (findUnits (created.without gone) inputDir)).Perm
      (findUnits (created.without gone) inputDir) := by
    rw [horder, hunits']
    exact hperm.filter stays
  have hsiblings' : Siblings (findUnits (created.without gone) inputDir) := by
    rw [hunits']
    exact hsiblings.of_subset (List.filter_subset_self _)
  obtain ⟨hvalue, -⟩ := runWith_of_siblings hcreate' hsiblings' hperm'
  rw [horder, hleaves.runUnits_without hsiblings hperm.subset] at hvalue
  refine ⟨_, hvalue, ?_, ?_, fun w hw => ?_⟩
  · simp only [Summary.extend, hunits', hleaves.written_without, units]
  · simp only [Summary.extend, hunits', hleaves.written_without, units]
  · obtain ⟨hw, hlistable⟩ := mem_written.1 hw
    exact hleaves.exists_read hsiblings hperm.subset (hperm.mem_iff.2 hw) hlistable

end

end Batch

open Batch

/-- A batch takes up the entries of its directory that are named as units. It misses all of them if
the path of the directory has an empty name behind single dots at its start, and only then. The
summary counts the units taken up and merges, in the order of their names, what those refer to that
can be read and listed; it is the same in whatever order they are taken up. Only the listings of
these units change the disk, and nothing does at the turn of a unit that cannot be read or is too
short for its header. The files of units that fail may as well be removed first: the others, taken
up in the same order, give the same number of listings and the same references, and leave the same
disk but for these files. -/
theorem summary_of_any_schedule (reading : Reading) (disk created : Disk)
    (inputDir outputDir : Text) (hnames : disk.NamesAre Disk.Admitted)
    (hcreate : disk.createDirectories outputDir = .ok created) :
    let units := findUnits created inputDir
    (¬ DotsThenEmpty inputDir → Finds created inputDir units)
      ∧ (DotsThenEmpty inputDir → units = [])
      ∧ ∃ listed summary, (listed.map Prod.fst).Sublist units
        ∧ (∀ w, w ∈ listed ↔ w.1 ∈ units ∧ Listable reading outputDir created w.1 w.2)
        ∧ Summarizes reading units listed summary
        ∧ ∀ schedule : List Text → List Text, (∀ us, (schedule us).Perm us) →
          let after := (runUnits reading outputDir created (schedule units)).2
          (runWith schedule reading disk inputDir outputDir).run.value = .ok (summary, after)
            ∧ (∃ messages, (runWith schedule reading disk inputDir outputDir).run.log
                = .batchStarted units.length inputDir :: messages
              ∧ List.Forall₂ (Reports reading outputDir created) units messages)
            ∧ Disk.Keeps (fun l => ∃ w ∈ listed, created.LocatedAt (output outputDir w.1) l)
              created after
            ∧ (∀ u ∈ units,
                (∀ bytes, created.read u = .ok bytes → bytes.length < CompiledUnit.headerSize) →
                ∀ before rest, schedule units = before ++ u :: rest →
                  (runUnits reading outputDir created (before ++ [u])).2
                    = (runUnits reading outputDir created before).2)
            ∧ ∀ gone, FailedFiles reading outputDir disk created units gone →
              ∃ created', (disk.without gone).createDirectories outputDir = .ok created'
                ∧ ∀ schedule' : List Text → List Text,
                  schedule' (findUnits created' inputDir)
                    = (schedule units).filter (· ∈ findUnits created' inputDir) →
                  ∃ summary',
                    (runWith schedule' reading (disk.without gone) inputDir outputDir).run.value
                      = .ok (summary', after.without gone)
                    ∧ summary'.decompiled = summary.decompiled ∧ summary'.usage = summary.usage
                    ∧ ∀ w ∈ listed, ∃ bytes, after.read (output outputDir w.1) = .ok bytes
                      ∧ (after.without gone).read (output outputDir w.1) = .ok bytes := by
  intro units
  have hadmitted := hnames.admitted_createDirectories hcreate
  have hsiblings : Siblings units := siblings_findUnits hadmitted.no_slash inputDir
  refine ⟨finds_findUnits hadmitted, fun hdots => findUnits_eq_nil (Or.inl hdots),
    written reading outputDir created units, _, ?_, fun w => mem_written,
    summarizes_extend reading outputDir created units, fun schedule hschedule => ?_⟩
  · rw [map_fst_written]
    exact List.filter_sublist
  · intro after
    have hperm := hschedule units
    obtain ⟨hvalue, hlog⟩ := runWith_of_siblings hcreate hsiblings hperm
    refine ⟨hvalue, hlog, ?_, ?_, fun gone hgone => runWith_without hadmitted hcreate hperm hgone⟩
    · refine (hsiblings.keeps_runUnits hperm.subset).mono ?_
      rintro l ⟨u, hu, ⟨unit, hunit⟩, hplace⟩
      exact ⟨(u, unit), mem_written.2 ⟨hperm.subset hu, hunit⟩, hplace⟩
    · intro u hu hshort before rest hsplit
      have hbefore : before ⊆ units := fun v hv =>
        hperm.subset (hsplit ▸ List.mem_append_left _ hv)
      exact hsiblings.runUnits_of_fails hu hbefore (fails_of_short hshort)

/-- A disk with a unit that can be listed, one that is cut off and a header. -/
def Batch.mixedDisk : Disk where
  entries :=
    [(["in".toList], .directory),
      (["in".toList, "a.tok".toList], .file [2, 0, 0, 0, 0, 0, 0, 0, 0x82, 0xd7]),
      (["in".toList, "header.tok".toList], .file [0, 0, 0, 0]),
      (["in".toList, "short.tok".toList], .file [1, 2, 3])]

theorem summary_of_any_schedule_mixed :
    findUnits mixedDisk "in".toList = ["in/a.tok".toList, "in/short.tok".toList]
      ∧ ∃ created summary after summary',
        mixedDisk.createDirectories "out".toList = .ok created
          ∧ Finds created "in".toList (findUnits created "in".toList)
          ∧ (runWith List.reverse ⟨BuiltIn.tables, .from81⟩ mixedDisk "in".toList
              "out".toList).run.value = .ok (summary, after)
          ∧ summary.decompiled + summary.errors = 2
          ∧ (runUnits ⟨BuiltIn.tables, .from81⟩ "out".toList created ["in/short.tok".toList]).2
            = created
          ∧ (runWith id ⟨BuiltIn.tables, .from81⟩
                (mixedDisk.without [["in".toList, "short.tok".toList]]) "in".toList
                "out".toList).run.value
              = .ok (summary', after.without [["in".toList, "short.tok".toList]])
          ∧ summary'.decompiled = summary.decompiled ∧ summary'.usage = summary.usage := by
  obtain ⟨hfinds, -, listed, summary, -, -, hsummary, hrun⟩ := summary_of_any_schedule
    ⟨BuiltIn.tables, .from81⟩ mixedDisk (mixedDisk.put ["out".toList] .directory) "in".toList
    "out".toList ⟨by decide, by decide⟩ rfl
  obtain ⟨hvalue, -, -, hquiet, hremoval⟩ := hrun List.reverse List.reverse_perm
  have hmem : "in/short.tok".toList
      ∈ findUnits (mixedDisk.put ["out".toList] .directory) "in".toList := by decide +kernel
  have hshort : ∀ bytes,
      (mixedDisk.put ["out".toList] .directory).read "in/short.tok".toList = .ok bytes →
        bytes.length < CompiledUnit.headerSize := by
    intro bytes hread
    obtain rfl : [1, 2, 3] = bytes := Except.ok.inj hread
    decide
  have hfailed : FailedFiles ⟨BuiltIn.tables, .from81⟩ "out".toList mixedDisk
      (mixedDisk.put ["out".toList] .directory)
      (findUnits (mixedDisk.put ["out".toList] .directory) "in".toList)
      [["in".toList, "short.tok".toList]] := by
    intro l hl
    obtain rfl := List.mem_singleton.1 hl
    exact ⟨⟨_, rfl⟩, _, hmem, ⟨_, rfl, rfl⟩, fails_of_short hshort⟩
  obtain ⟨created', hcreate', hremoved⟩ := hremoval _ hfailed
  obtain rfl : (mixedDisk.without [["in".toList, "short.tok".toList]]).put ["out".toList] .directory
      = created' := Except.ok.inj hcreate'
  obtain ⟨summary', hvalue', hdecompiled, husage, -⟩ := hremoved id (by decide +kernel)
  have hdots : ¬ DotsThenEmpty "in".toList := fun h => absurd h.2 (by decide)
  exact ⟨by decide +kernel, _, summary, _, summary', rfl, hfinds hdots, hvalue, hsummary.total,
    hquiet _ hmem hshort [] ["in/a.tok".toList] (by decide +kernel), hvalue', hdecompiled, husage⟩

/-- The path `.//in` leads to the directory that `in` leads to, but of the two units there none is
found: the batch ends without a listing and without an error. -/
theorem units_lost_behind_dots :
    let created := mixedDisk.put ["out".toList] .directory
    let counts := fun dir => (run ⟨BuiltIn.tables, .from81⟩ mixedDisk dir "out".toList).run.value
      |>.toOption.map fun (summary, _) => (summary.decompiled, summary.errors)
    mixedDisk.createDirectories "out".toList = .ok created
      ∧ Leads created "in".toList ["in".toList] ∧ Leads created ".//in".toList ["in".toList]
      ∧ findUnits created "in".toList = ["in/a.tok".toList, "in/short.tok".toList]
      ∧ ¬ Finds created ".//in".toList (findUnits created ".//in".toList)
      ∧ counts "in".toList = some (1, 1) ∧ counts ".//in".toList = some (0, 0) := by
  intro created counts
  have hleads : Leads created ".//in".toList ["in".toList] := ⟨⟨_, rfl, rfl⟩, rfl⟩
  have hnone : findUnits created ".//in".toList = [] := by decide +kernel
  refine ⟨rfl, ⟨⟨_, rfl, rfl⟩, rfl⟩, hleads, by decide +kernel, ?_, by decide +kernel,
    by decide +kernel⟩
  rw [hnone]
  intro hfinds
  obtain ⟨u, hu, -⟩ := (hfinds.exists_iff _ hleads "a.tok".toList).2 ⟨rfl, by decide, by decide⟩
  exact absurd hu List.not_mem_nil

end MissionScript
