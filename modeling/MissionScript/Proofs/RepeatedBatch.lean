import MissionScript.Proofs.BatchSummary
import MissionScript.Proofs.CreatedDirectories

/-!
# Running a batch once more

A batch writes its listings and nothing else, and no listing stands in the place of a unit or has
the name of one. So a search after the batch finds what it found before (`findUnits_of_keeps`), and
each unit can be listed exactly if it could be the first time. Taken up in the same order, the units
are listed at the same places with the same texts: whatever stood there, the last listing for a
place decides what stands there in the end (`Siblings.get?_runUnits_of_keeps`). Hence a second run
comes to the same summary and to the same files (`second_run_repeats`), also if the listings go to
the directory of the units itself.
-/

namespace MissionScript

/-- The same file put on two disks leaves them different at most where they were. -/
theorem Disk.Keeps.put {d d' : Disk} {P : Location → Prop} (h : Keeps P d d') {l : Location}
    (hl : d.get? l ≠ some .directory) (bytes : List UInt8) :
    Keeps (fun l' => P l' ∧ l' ≠ l) (d.put l (.file bytes)) (d'.put l (.file bytes)) where
  current := h.current
  directory l' := by
    have hl' : d'.get? l ≠ some .directory := mt (h.directory l).1 hl
    rw [(keeps_put hl' bytes).directory, (keeps_put hl bytes).directory, h.directory]
  get? l' hP := by
    by_cases heq : l' = l
    · rw [heq, get?_put_self (ne_nil_of_get?_ne hl), get?_put_self (ne_nil_of_get?_ne hl)]
    · rw [get?_put_of_ne heq, get?_put_of_ne heq]
      exact h.get? l' fun hl' => hP ⟨hl', heq⟩

namespace Batch

open Disk (Keeps)

variable {reading : Reading} {outputDir : Text} {d d' : Disk} {u v : Text}

/-! ## Searching again -/

theorem unitNames_congr {l : Location}
    (h : ∀ name, name ∈ unitNames d' l ↔ name ∈ unitNames d l) :
    unitNames d' l = unitNames d l := by
  have hnodup : ∀ d : Disk, (unitNames d l).Nodup := by
    intro d
    refine (pairwise_unitNames d l).imp ?_
    intro a b hlt heq
    rw [heq] at hlt
    exact String.lt_irrefl _ hlt
  exact ((List.perm_ext_iff_of_nodup (hnodup d') (hnodup d)).2 h).eq_of_pairwise
    (fun _ _ _ _ hlt hgt => absurd hgt (String.lt_asymm hlt)) (pairwise_unitNames d' l)
    (pairwise_unitNames d l)

/-- What is changed at places without the name of a unit does not change what a search finds. -/
theorem findUnits_of_keeps {P : Location → Prop} (h : Keeps P d d')
    (hP : ∀ l name, P (l ++ [name]) → isUnitName name = false) (dir : Text) :
    findUnits d' dir = findUnits d dir := by
  have hleads : ∀ l, Leads d' dir l ↔ Leads d dir l := fun l => h.directoryAt_iff
  rcases leads_or_not d dir with ⟨hdots, l, hl⟩ | hnone
  · rw [(findUnits_of_leads hl hdots).2, (findUnits_of_leads ((hleads l).2 hl) hdots).2]
    refine congrArg (List.map _) (unitNames_congr fun name => ?_)
    rw [mem_unitNames, mem_unitNames]
    refine and_congr_left fun hunit => ?_
    rw [h.get? _ fun hl => by simp [hP l name hl] at hunit]
  · rw [findUnits_eq_nil hnone, findUnits_eq_nil (by simpa only [hleads] using hnone)]

theorem Siblings.isUnitName_of_listingPlace {units order : List Text} (h : Siblings units)
    (horder : order ⊆ units) {l : Location} {name : Text}
    (hl : ListingPlace reading outputDir d order (l ++ [name])) : isUnitName name = false := by
  obtain ⟨v, hv, -, hplace⟩ := hl
  obtain ⟨y, hy, hvy⟩ := h.endsIn v (horder hv)
  have hlast := h.getLast?_output (horder hv) hplace
  rw [List.getLast?_concat] at hlast
  by_contra hunit
  obtain ⟨x, hx⟩ := exists_of_isUnitName (by simpa using hunit)
  exact outputName_ne hy hvy ((Option.some.inj hlast).symm.trans hx)

theorem Siblings.output_not_mem {units : List Text} (h : Siblings units) (hu : u ∈ units) :
    output outputDir u ∉ units := by
  intro hmem
  obtain ⟨x, hx, hux⟩ := h.endsIn u hu
  obtain ⟨y, hy, front, hfront⟩ := h.endsIn _ hmem
  obtain ⟨front', hfront'⟩ := (h.isName_outputName hu).endsIn_join outputDir
  rw [output, hfront'] at hfront
  have hlast := congrArg List.getLast? hfront
  rw [List.getLast?_concat, List.getLast?_concat] at hlast
  exact outputName_ne hx hux (Option.some.inj hlast)

/-! ## Listing again -/

theorem runUnit_of_listable {unit : CompiledUnit} (h : Listable reading outputDir d u unit) :
    ∃ t, d.locate (output outputDir u) = .ok t ∧ d.get? t.location ≠ some .directory
      ∧ (runUnit reading outputDir d u).2
        = d.put t.location (.file (Disk.utf8 (UnitFile.listing reading u unit))) := by
  obtain ⟨d', hwrite, hrun⟩ := h.runUnit_eq
  obtain ⟨t, ht, -, hdir, rfl⟩ := Disk.write_eq_ok.1 hwrite
  exact ⟨t, ht, hdir, by rw [hrun]⟩

/-- Two disks that differ only where listings go differ, once a unit has been taken up, only where
the listings of later units go. -/
theorem Siblings.keeps_runUnit_pair {units order : List Text} (h : Siblings units)
    (hv : v ∈ units) (horder : order ⊆ units)
    (hkeeps : Keeps (ListingPlace reading outputDir d (v :: order)) d d') :
    Keeps (ListingPlace reading outputDir (runUnit reading outputDir d v).2 order)
      (runUnit reading outputDir d v).2 (runUnit reading outputDir d' v).2 := by
  have hlistable : ∀ {unit : CompiledUnit}, Listable reading outputDir d' v unit ↔
      Listable reading outputDir d v unit :=
    listable_of_keeps hkeeps (h.not_listingPlace (List.cons_subset.2 ⟨hv, horder⟩) hv)
  by_cases hfails : Fails reading outputDir d v
  · have hfails' : Fails reading outputDir d' v := fun unit hunit =>
      hfails unit (hlistable.1 hunit)
    rw [hfails'.runUnit_eq]
    rw [hfails.runUnit_eq]
    refine hkeeps.mono fun l hl => ?_
    rcases (h.listingPlace_cons hv horder).1 hl with ⟨w, hw, ⟨unit, hunit⟩, -⟩ | hl
    · rw [List.mem_singleton.1 hw] at hunit
      exact absurd hunit (hfails unit)
    · rwa [hfails.runUnit_eq] at hl
  · unfold Fails at hfails
    push Not at hfails
    obtain ⟨unit, hunit⟩ := hfails
    obtain ⟨t, ht, hdir, hrun⟩ := runUnit_of_listable hunit
    obtain ⟨t', ht', -, hrun'⟩ := runUnit_of_listable (hlistable.2 hunit)
    obtain rfl : t = t' := Except.ok.inj (ht.symm.trans (hkeeps.locate_eq_ok_iff.1 ht'))
    have hput := hkeeps.put hdir (Disk.utf8 (UnitFile.listing reading v unit))
    rw [← hrun, ← hrun'] at hput
    refine hput.mono ?_
    rintro l ⟨hl, hne⟩
    rcases (h.listingPlace_cons hv horder).1 hl with ⟨w, hw, -, hplace⟩ | hl
    · rw [List.mem_singleton.1 hw] at hplace
      exact absurd (hplace.unique ⟨t, ht, rfl⟩) hne
    · exact hl

/-- Units taken up in one order on disks that differ only where listings go leave the same. -/
theorem Siblings.get?_runUnits_of_keeps {units : List Text} (h : Siblings units) (l : Location) :
    ∀ {order : List Text} {d d' : Disk}, order ⊆ units →
      Keeps (ListingPlace reading outputDir d order) d d' →
      (runUnits reading outputDir d' order).2.get? l = (runUnits reading outputDir d order).2.get? l
  | [], d, d', _, hkeeps => by
    refine hkeeps.get? l ?_
    rintro ⟨u, hu, -⟩
    simp at hu
  | v :: order, d, d', horder, hkeeps => by
    obtain ⟨hv, horder⟩ := List.cons_subset.1 horder
    rw [runUnits_cons, runUnits_cons]
    exact h.get?_runUnits_of_keeps l horder (h.keeps_runUnit_pair hv horder hkeeps)

theorem Summary.extend_congr {units : List Text} (h : ∀ u ∈ units, ∀ unit,
    Listable reading outputDir d' u unit ↔ Listable reading outputDir d u unit) (s : Summary) :
    s.extend reading outputDir d' units = s.extend reading outputDir d units := by
  have hlisted : ∀ u ∈ units, listed? reading outputDir d' u = listed? reading outputDir d u :=
    fun u hu => listed?_congr (h u hu)
  have hwritten : written reading outputDir d' units = written reading outputDir d units :=
    List.filterMap_congr hlisted
  have herrors : units.countP (fun u => (listed? reading outputDir d' u).isNone)
      = units.countP fun u => (listed? reading outputDir d u).isNone :=
    List.countP_congr fun u hu => by rw [hlisted u hu]
  simp only [Summary.extend, hwritten, herrors]

/-! ## The whole batch -/

section
variable {disk created : Disk} {inputDir : Text}

theorem value_runWith_of_error {schedule : List Text → List Text} {cause : Disk.Cause}
    (h : disk.createDirectories outputDir = .error cause) :
    (runWith schedule reading disk inputDir outputDir).run.value
      = .error (.createOutput outputDir cause) := by
  rw [runWith, h]
  rfl

theorem value_runWith_of_siblings (reading : Reading) (schedule : List Text → List Text)
    (hcreate : disk.createDirectories outputDir = .ok created)
    (hsiblings : Siblings (findUnits created inputDir))
    (hperm : (schedule (findUnits created inputDir)).Perm (findUnits created inputDir)) :
    (runWith schedule reading disk inputDir outputDir).run.value
      = .ok (Summary.extend reading outputDir created (findUnits created inputDir) {},
          (runUnits reading outputDir created (schedule (findUnits created inputDir))).2) :=
  (runWith_of_siblings hcreate hsiblings hperm).1

/-- A file at a place that no listing goes to stays, and none appears there. -/
theorem file_runUnits_iff {order : List Text} (hsiblings : Siblings (findUnits created inputDir))
    (hcreate : disk.createDirectories outputDir = .ok created)
    (horder : order ⊆ findUnits created inputDir) {l : Location}
    (hl : ∀ u ∈ findUnits created inputDir, ¬ created.LocatedAt (output outputDir u) l)
    {bytes : List UInt8} :
    (runUnits reading outputDir created order).2.get? l = some (.file bytes) ↔
      disk.get? l = some (.file bytes) := by
  have hkeeps : Keeps (ListingPlace reading outputDir created order) created
      (runUnits reading outputDir created order).2 := hsiblings.keeps_runUnits horder
  rw [hkeeps.get? l, (Disk.grows_createDirectories hcreate).file_iff]
  rintro ⟨u, hu, -, hplace⟩
  exact hl u (horder hu) hplace

/-- A batch over the disk that a batch left takes up the same units, comes to the same summary and
leaves every place as it was. -/
theorem run_again (reading : Reading) (hsiblings : Siblings (findUnits created inputDir))
    (hcreate : disk.createDirectories outputDir = .ok created) :
    let units := findUnits created inputDir
    let after := (runUnits reading outputDir created units).2
    after.createDirectories outputDir = .ok after ∧ findUnits after inputDir = units
      ∧ ∃ again, (run reading after inputDir outputDir).run.value
          = .ok (Summary.extend reading outputDir created units {}, again)
        ∧ ∀ l, again.get? l = after.get? l := by
  intro units after
  have hkeeps : Keeps (ListingPlace reading outputDir created units) created after :=
    hsiblings.keeps_runUnits (List.Subset.refl units)
  have hcreate' : after.createDirectories outputDir = .ok after :=
    hkeeps.createDirectories_again hcreate
  have hunits : findUnits after inputDir = units := findUnits_of_keeps hkeeps
    (fun l name => hsiblings.isUnitName_of_listingPlace (List.Subset.refl units)) inputDir
  have hsiblings' : Siblings (findUnits after inputDir) := by
    rw [hunits]
    exact hsiblings
  have hvalue := value_runWith_of_siblings reading id hcreate' hsiblings' (List.Perm.refl _)
  rw [hunits] at hvalue
  refine ⟨hcreate', hunits, _, hvalue.trans ?_, fun l =>
    hsiblings.get?_runUnits_of_keeps l (List.Subset.refl units) hkeeps⟩
  rw [Summary.extend_congr fun u hu unit =>
    hsiblings.listable_runUnits hu (List.Subset.refl units)]
  rfl

end

end Batch

open Batch

/-- A batch fails if its output directory cannot be created. If not, whatever the order in which the
units are taken up, no file is changed, created or removed but at the places of the listings, none
of which is the path or the place of a unit; this also holds if both directories are the same. A
second run in the order of the names finds the same units, comes to the same summary and leaves
every file as the first run left it. -/
theorem second_run_repeats (reading : Reading) (disk : Disk) (inputDir outputDir : Text)
    (hnames : disk.NamesAre Disk.Admitted) :
    (∀ cause, disk.createDirectories outputDir = .error cause → ∀ schedule,
        (runWith schedule reading disk inputDir outputDir).run.value
          = .error (.createOutput outputDir cause))
      ∧ ∀ created, disk.createDirectories outputDir = .ok created →
        let units := findUnits created inputDir
        (∀ schedule : List Text → List Text, (∀ us, (schedule us).Perm us) → ∃ summary after,
          (runWith schedule reading disk inputDir outputDir).run.value = .ok (summary, after)
            ∧ ∀ l, (∀ u ∈ units, ¬ created.LocatedAt (output outputDir u) l) → ∀ bytes,
              after.get? l = some (.file bytes) ↔ disk.get? l = some (.file bytes))
          ∧ (∀ u ∈ units, output outputDir u ∉ units
            ∧ ∀ l, created.LocatedAt (output outputDir u) l → ∀ v ∈ units, ¬ created.LocatedAt v l)
          ∧ ∃ summary after again,
            (run reading disk inputDir outputDir).run.value = .ok (summary, after)
              ∧ after.createDirectories outputDir = .ok after
              ∧ findUnits after inputDir = units
              ∧ (run reading after inputDir outputDir).run.value = .ok (summary, again)
              ∧ ∀ l, again.get? l = after.get? l := by
  refine ⟨fun cause hcause schedule => value_runWith_of_error hcause, fun created hcreate => ?_⟩
  intro units
  have hadmitted := hnames.admitted_createDirectories hcreate
  have hsiblings : Siblings units := siblings_findUnits hadmitted.no_slash inputDir
  refine ⟨fun schedule hschedule => ?_, fun u hu => ⟨hsiblings.output_not_mem hu, ?_⟩, ?_⟩
  · have hvalue := value_runWith_of_siblings reading schedule hcreate hsiblings (hschedule units)
    exact ⟨_, _, hvalue, fun l hl bytes =>
      file_runUnits_iff hsiblings hcreate (hschedule units).subset hl⟩
  · intro l hl v hv hvl
    exact hsiblings.not_locatedAt_output hv hu hvl hl
  · have hvalue := value_runWith_of_siblings reading id hcreate hsiblings (List.Perm.refl _)
    obtain ⟨hcreate', hunits, again, hagain, hget⟩ := run_again reading hsiblings hcreate
    exact ⟨_, _, again, hvalue, hcreate', hunits, hagain, hget⟩

/-- Three units, two of which share a listing, are listed in their own directory; a unit is no
directory to list them in. -/
theorem second_run_repeats_in_place :
    (run ⟨BuiltIn.tables, .from81⟩ sampleDisk "in".toList "in/a.tok".toList).run.value
        = .error (.createOutput "in/a.tok".toList .alreadyExists)
      ∧ (∃ summary after,
        (runWith List.reverse ⟨BuiltIn.tables, .from81⟩ sampleDisk "in".toList
            "in".toList).run.value = .ok (summary, after)
          ∧ after.get? ["in".toList, "a.tok".toList]
            = some (.file [2, 0, 0, 0, 0, 0, 0, 0, 0x80, 0xa5]))
      ∧ ∃ summary after again,
        (run ⟨BuiltIn.tables, .from81⟩ sampleDisk "in".toList "in".toList).run.value
            = .ok (summary, after)
          ∧ findUnits after "in".toList
            = ["in/.tok".toList, "in/.tok.tok".toList, "in/a.tok".toList]
          ∧ (run ⟨BuiltIn.tables, .from81⟩ after "in".toList "in".toList).run.value
            = .ok (summary, again)
          ∧ ∀ l, again.get? l = after.get? l := by
  have hnames : sampleDisk.NamesAre Disk.Admitted := ⟨by decide, by decide⟩
  have hmem : "in/a.tok".toList ∈ findUnits sampleDisk "in".toList := by decide +kernel
  obtain ⟨hfails, -⟩ := second_run_repeats ⟨BuiltIn.tables, .from81⟩ sampleDisk "in".toList
    "in/a.tok".toList hnames
  obtain ⟨-, hruns⟩ := second_run_repeats ⟨BuiltIn.tables, .from81⟩ sampleDisk "in".toList
    "in".toList hnames
  obtain ⟨hkept, hapart, summary, after, again, hrun, -, hunits, hagain, hget⟩ :=
    hruns sampleDisk rfl
  refine ⟨hfails .alreadyExists rfl id, ?_, summary, after, again, hrun, ?_, hagain, hget⟩
  · obtain ⟨summary', after', hrun', hfiles⟩ := hkept List.reverse List.reverse_perm
    refine ⟨summary', after', hrun', (hfiles _ (fun u hu hplace => ?_) _).2 rfl⟩
    exact (hapart u hu).2 _ hplace _ hmem ⟨_, rfl, rfl⟩
  · rw [hunits]
    decide +kernel

end MissionScript
