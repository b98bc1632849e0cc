import MissionScript.Proofs.DiskWrites

/-!
# Taking up the units of a directory

The units of a directory have names of their own (`siblings_findUnits`). A unit is listed if it can
be read and its listing can be written (`Listable`); if not, the disk stays as it is
(`runUnit_cases`). So only the places change that listings go to, at one turn (`keeps_runUnit`) and
over all turns (`Siblings.keeps_runUnits`). These are other places than those of the units
(`Siblings.not_listingPlace`) and the directories stay, so a unit can be listed at its turn exactly
if it could be at the start (`Siblings.listable_runUnits`). Hence no outcome depends on the order in
which units are taken up (`Siblings.accounts_of_mem`).
-/

namespace MissionScript

/-! ## The units of a directory -/

namespace Batch

open MissionScript.Path (EndsIn IsName outputName)

/-- Paths of units in one directory: each ends in the name of a unit, different ones in different
names. -/
structure Siblings (units : List Text) : Prop where
  endsIn : ∀ u ∈ units, ∃ x, '/' ∉ x ∧ EndsIn u (x ++ ".tok".toList)
  eq_of_name : ∀ u ∈ units, ∀ v ∈ units, UnitFile.name u = UnitFile.name v → u = v

theorem Siblings.of_subset {units units' : List Text} (h : Siblings units) (hs : units' ⊆ units) :
    Siblings units' where
  endsIn u hu := h.endsIn u (hs hu)
  eq_of_name u hu v hv := h.eq_of_name u (hs hu) v (hs hv)

theorem isName_tok {x : Text} (hx : '/' ∉ x) : IsName (x ++ ".tok".toList) :=
  Path.isName_append hx (by decide) (by decide)

theorem name_of_endsIn {u x : Text} (hx : '/' ∉ x) (h : EndsIn u (x ++ ".tok".toList)) :
    UnitFile.name u = x ++ ".tok".toList := by
  rw [UnitFile.name, h.fileName? (isName_tok hx), Option.getD_some]

theorem exists_of_isUnitName {name : Text} (h : isUnitName name = true) :
    ∃ x, name = x ++ ".tok".toList := by
  simp only [isUnitName, Bool.and_eq_true] at h
  obtain ⟨x, hx⟩ := List.isSuffixOf_iff_suffix.1 h.1
  exact ⟨x, hx.symm⟩

/-- Names put at their place in a directory are the paths of siblings. -/
theorem siblings_map {names : List Text} {place : Text → Text}
    (hunit : ∀ name ∈ names, isUnitName name = true ∧ '/' ∉ name)
    (hplace : ∀ name, IsName name → EndsIn (place name) name) : Siblings (names.map place) := by
  have hends : ∀ name ∈ names, ∃ x, '/' ∉ x ∧ name = x ++ ".tok".toList
      ∧ EndsIn (place name) name := by
    intro name hname
    obtain ⟨hunit, hslash⟩ := hunit name hname
    obtain ⟨x, rfl⟩ := exists_of_isUnitName hunit
    have hx : '/' ∉ x := fun hmem => hslash (List.mem_append_left _ hmem)
    exact ⟨x, hx, rfl, hplace _ (isName_tok hx)⟩
  have hname : ∀ name ∈ names, UnitFile.name (place name) = name := by
    intro name hmem
    obtain ⟨x, hx, rfl, h⟩ := hends name hmem
    exact name_of_endsIn hx h
  constructor
  · intro u hu
    obtain ⟨name, hmem, rfl⟩ := List.mem_map.1 hu
    obtain ⟨x, hx, rfl, h⟩ := hends name hmem
    exact ⟨x, hx, h⟩
  · intro u hu v hv heq
    obtain ⟨a, ha, rfl⟩ := List.mem_map.1 hu
    obtain ⟨b, hb, rfl⟩ := List.mem_map.1 hv
    rw [hname a ha, hname b hb] at heq
    rw [heq]

theorem siblings_findUnits {disk : Disk} (h : disk.NamesAre fun name => '/' ∉ name) (dir : Text) :
    Siblings (findUnits disk dir) := by
  have hnil : Siblings [] := ⟨by simp, by simp⟩
  unfold findUnits
  dsimp only
  split
  · exact hnil
  · rename_i shown _
    split
    · exact hnil
    · split
      · refine siblings_map ?_ ?_
        · intro name hname
          obtain ⟨hmem, hunit⟩ := List.mem_filter.1 hname
          obtain ⟨text, htext, rfl⟩ := List.mem_map.1 hmem
          exact ⟨hunit, h.of_get? (Disk.mem_names.1 htext) _ (by simp)⟩
        · intro name hname
          split_ifs
          · exact hname.endsIn
          · exact hname.endsIn_join shown
      · exact hnil

end Batch

/-! ## One unit -/

namespace Attempt

variable {α β ε : Type}

theorem value_bind_eq_ok {x : Attempt α} {f : α → Attempt β} {b : β} :
    (x >>= f).run.value = .ok b ↔ ∃ a, x.run.value = .ok a ∧ (f a).run.value = .ok b := by
  rw [ExceptT.run_bind, Logged.value_bind]
  cases x.run.value with
  | error e => simp
  | ok a => simp

theorem value_ofExcept_eq_ok {wrap : ε → Failure} {x : Except ε α} {a : α} :
    (ofExcept wrap x).run.value = .ok a ↔ x = .ok a := by
  cases x with
  | error e => simp [ofExcept]
  | ok b => simp [ofExcept]

theorem value_ofLogged (x : Logged α) : (ofLogged x).run.value = .ok x.value := rfl

end Attempt

namespace UnitFile

variable {reading : Reading} {disk disk' : Disk} {input output : Text}

/-- The listing of a unit under its banner. -/
def listing (reading : Reading) (path : Text) (unit : CompiledUnit) : Text :=
  (Listing.ofUnit reading unit).value.renderWithBanner (String.ofList (name path))

theorem load_eq_ok {unit : CompiledUnit} : (load disk input).run.value = .ok unit ↔
    ∃ bytes, disk.read input = .ok bytes
      ∧ ∃ parsed, CompiledUnit.parse bytes = .ok parsed ∧ parsed.value = unit := by
  simp only [load, Attempt.value_bind_eq_ok, Attempt.value_ofExcept_eq_ok, Attempt.value_ofLogged,
    Except.ok.injEq]

theorem value_list (path : Text) (unit : CompiledUnit) :
    (list reading (name path) unit).run.value = .ok (listing reading path unit) := rfl

/-- A unit is decompiled exactly if it can be read and its listing can be written. -/
theorem decompile_eq_ok {usage : Usage} :
    (decompile reading disk input output).run.value = .ok (usage, disk') ↔
      ∃ unit, (load disk input).run.value = .ok unit
        ∧ disk.writeText output (listing reading input unit) = .ok disk'
        ∧ (Usage.collect reading (String.ofList (name input)) unit).value = usage := by
  simp only [decompile, collect, Attempt.value_bind_eq_ok, Attempt.value_ofExcept_eq_ok,
    Attempt.value_ofLogged, value_list, Except.ok.injEq, exists_eq_left']
  refine exists_congr fun unit => and_congr_right fun _ => ?_
  simp

end UnitFile

namespace Batch

open Disk (Keeps)
open MissionScript.Path (EndsIn IsName outputName)

variable {reading : Reading} {outputDir : Text} {d d' : Disk} {u v : Text}

theorem isName_outputName {x : Text} (hx : '/' ∉ x) (h : EndsIn u (x ++ ".tok".toList)) :
    IsName (outputName u) := by
  rw [h.outputName hx]
  refine Path.isName_append ?_ (by decide) (by decide)
  split_ifs
  · decide
  · exact hx

/-- A listing does not have the name of a unit. -/
theorem outputName_ne {x y : Text} (hx : '/' ∉ x) (h : EndsIn u (x ++ ".tok".toList)) :
    outputName u ≠ y ++ ".tok".toList := by
  rw [h.outputName hx]
  intro heq
  have hlast := congrArg List.getLast? heq
  simp at hlast

theorem Siblings.isName_outputName {units : List Text} (h : Siblings units)
    (hu : u ∈ units) : IsName (outputName u) := by
  obtain ⟨x, hx, hends⟩ := h.endsIn u hu
  exact Batch.isName_outputName hx hends

theorem runUnit_eq_ok {usage : Usage} : runUnit reading outputDir d u = (.ok usage, d') ↔
    (UnitFile.decompile reading d u (output outputDir u)).run.value = .ok (usage, d') := by
  unfold runUnit
  split
  · rename_i h
    simp [h]
  · rename_i h
    simp [h]

/-- The unit can be read, and its listing can be written. -/
@[mk_iff]
structure Listable (reading : Reading) (outputDir : Text) (d : Disk) (u : Text)
    (unit : CompiledUnit) : Prop where
  load : (UnitFile.load d u).run.value = .ok unit
  write : ∃ d', d.writeText (output outputDir u) (UnitFile.listing reading u unit) = .ok d'

/-- The unit cannot be read, or its listing cannot be written. -/
def Fails (reading : Reading) (outputDir : Text) (d : Disk) (u : Text) : Prop :=
  ∀ unit, ¬ Listable reading outputDir d u unit

/-- What a unit refers to. -/
def report (reading : Reading) (u : Text) (unit : CompiledUnit) : Usage :=
  (Usage.collect reading (String.ofList (UnitFile.name u)) unit).value

/-- A unit is listed and reported, or it fails and the disk stays as it is. -/
theorem runUnit_cases (reading : Reading) (outputDir : Text) (d : Disk) (u : Text) :
    (∃ unit, Listable reading outputDir d u unit ∧ ∃ d',
        d.writeText (output outputDir u) (UnitFile.listing reading u unit) = .ok d'
          ∧ runUnit reading outputDir d u = (.ok (report reading u unit), d'))
      ∨ Fails reading outputDir d u
        ∧ ∃ failure, runUnit reading outputDir d u = (.error failure, d) := by
  rcases hrun : (UnitFile.decompile reading d u (output outputDir u)).run.value
    with failure | ⟨usage, d'⟩
  · refine Or.inr ⟨?_, failure, by rw [runUnit, hrun]⟩
    rintro unit ⟨hload, d', hwrite⟩
    rw [UnitFile.decompile_eq_ok.2 ⟨unit, hload, hwrite, rfl⟩] at hrun
    simp at hrun
  · obtain ⟨unit, hload, hwrite, rfl⟩ := UnitFile.decompile_eq_ok.1 hrun
    exact Or.inl ⟨unit, ⟨hload, d', hwrite⟩, d', hwrite, by rw [runUnit, hrun]; rfl⟩

theorem Fails.runUnit_eq (h : Fails reading outputDir d u) :
    (runUnit reading outputDir d u).2 = d := by
  rcases runUnit_cases reading outputDir d u with ⟨unit, hunit, -⟩ | ⟨-, failure, hrun⟩
  · exact absurd hunit (h unit)
  · rw [hrun]

theorem Listable.runUnit_eq {unit : CompiledUnit} (h : Listable reading outputDir d u unit) :
    ∃ d', d.writeText (output outputDir u) (UnitFile.listing reading u unit) = .ok d'
      ∧ runUnit reading outputDir d u = (.ok (report reading u unit), d') := by
  obtain ⟨d', hwrite⟩ := h.write
  exact ⟨d', hwrite, runUnit_eq_ok.2 (UnitFile.decompile_eq_ok.2 ⟨unit, h.load, hwrite, rfl⟩)⟩

theorem load_of_keeps {P : Location → Prop} (h : Keeps P d d')
    (hP : ∀ l, d.LocatedAt u l → ¬ P l) {unit : CompiledUnit} :
    (UnitFile.load d' u).run.value = .ok unit ↔ (UnitFile.load d u).run.value = .ok unit := by
  simp only [UnitFile.load_eq_ok, h.read_eq_ok_iff hP]

theorem listable_of_keeps {P : Location → Prop} (h : Keeps P d d')
    (hP : ∀ l, d.LocatedAt u l → ¬ P l) {unit : CompiledUnit} :
    Listable reading outputDir d' u unit ↔ Listable reading outputDir d u unit := by
  simp only [listable_iff, load_of_keeps h hP, Disk.writeText, h.exists_write_iff]

/-! ## The places of listings -/

/-- A place that the listing of one of the units goes to, if this unit can be listed. -/
def ListingPlace (reading : Reading) (outputDir : Text) (d : Disk) (units : List Text)
    (l : Location) : Prop :=
  ∃ u ∈ units, (∃ unit, Listable reading outputDir d u unit) ∧ d.LocatedAt (output outputDir u) l

theorem Siblings.getLast?_place {units : List Text} (h : Siblings units) (hu : u ∈ units)
    {l : Location} (hl : d.LocatedAt u l) : l.getLast? = some (UnitFile.name u) := by
  obtain ⟨t, ht, rfl⟩ := hl
  obtain ⟨x, hx, hux⟩ := h.endsIn u hu
  rw [name_of_endsIn hx hux]
  exact Disk.getLast?_location hux (isName_tok hx) ht

theorem Siblings.eq_of_locatedAt {units : List Text} (h : Siblings units) (hu : u ∈ units)
    (hv : v ∈ units) {l : Location} (hul : d.LocatedAt u l) (hvl : d.LocatedAt v l) : u = v :=
  h.eq_of_name u hu v hv
    (Option.some.inj ((h.getLast?_place hu hul).symm.trans (h.getLast?_place hv hvl)))

theorem Siblings.getLast?_output {units : List Text} (h : Siblings units) (hu : u ∈ units)
    {l : Location} (hl : d.LocatedAt (output outputDir u) l) :
    l.getLast? = some (outputName u) := by
  obtain ⟨t, ht, rfl⟩ := hl
  have hname := h.isName_outputName hu
  exact Disk.getLast?_location (hname.endsIn_join outputDir) hname ht

/-- The path of a listing does not lead to the place of a unit. -/
theorem Siblings.not_locatedAt_output {units : List Text} (h : Siblings units) (hu : u ∈ units)
    (hv : v ∈ units) {l : Location} (hl : d.LocatedAt u l) :
    ¬ d.LocatedAt (output outputDir v) l := by
  intro hout
  obtain ⟨x, hx, hux⟩ := h.endsIn u hu
  obtain ⟨y, hy, hvy⟩ := h.endsIn v hv
  -- The place would have the name of a listing and the name of a unit.
  have hlast := h.getLast?_output hv hout
  rw [h.getLast?_place hu hl, name_of_endsIn hx hux] at hlast
  exact outputName_ne hy hvy (Option.some.inj hlast).symm

/-- No listing is written to the place of a unit. -/
theorem Siblings.not_listingPlace {units order : List Text} (h : Siblings units)
    (horder : order ⊆ units) (hu : u ∈ units) (l : Location) (hl : d.LocatedAt u l) :
    ¬ ListingPlace reading outputDir d order l := by
  rintro ⟨v, hv, -, hplace⟩
  exact h.not_locatedAt_output hu (horder hv) hl hplace

/-- At the turn of a unit only the place changes that its listing goes to, and that only if the
unit can be listed. -/
theorem keeps_runUnit (reading : Reading) (outputDir : Text) (d : Disk) (u : Text) :
    Keeps (ListingPlace reading outputDir d [u]) d (runUnit reading outputDir d u).2 := by
  rcases runUnit_cases reading outputDir d u with
    ⟨unit, hunit, d', hwrite, hrun⟩ | ⟨-, failure, hrun⟩
  · obtain ⟨t, ht, -, hdir, rfl⟩ := Disk.write_eq_ok.1 hwrite
    rw [hrun]
    refine (Disk.keeps_put hdir _).mono ?_
    rintro l rfl
    exact ⟨u, List.mem_singleton_self u, ⟨unit, hunit⟩, t, ht, rfl⟩
  · rw [hrun]
    exact .refl d

/-! ## All units -/

theorem runUnits_cons (u : Text) (units : List Text) :
    runUnits reading outputDir d (u :: units)
      = ((u, (runUnit reading outputDir d u).1)
            :: (runUnits reading outputDir (runUnit reading outputDir d u).2 units).1,
          (runUnits reading outputDir (runUnit reading outputDir d u).2 units).2) := rfl

theorem Siblings.load_runUnit {units : List Text} (h : Siblings units) (hu : u ∈ units)
    (hv : v ∈ units) {unit : CompiledUnit} :
    (UnitFile.load (runUnit reading outputDir d v).2 u).run.value = .ok unit ↔
      (UnitFile.load d u).run.value = .ok unit :=
  load_of_keeps (keeps_runUnit reading outputDir d v)
    (h.not_listingPlace (List.cons_subset.2 ⟨hv, List.nil_subset _⟩) hu)

theorem Siblings.listable_runUnit {units : List Text} (h : Siblings units) (hu : u ∈ units)
    (hv : v ∈ units) {unit : CompiledUnit} :
    Listable reading outputDir (runUnit reading outputDir d v).2 u unit ↔
      Listable reading outputDir d u unit :=
  listable_of_keeps (keeps_runUnit reading outputDir d v)
    (h.not_listingPlace (List.cons_subset.2 ⟨hv, List.nil_subset _⟩) hu)

/-- Where a listing may go from a disk on, it goes at the turn of the first unit or of a later
one. -/
theorem Siblings.listingPlace_cons {units order : List Text} (h : Siblings units)
    (hv : v ∈ units) (horder : order ⊆ units) {l : Location} :
    ListingPlace reading outputDir d (v :: order) l ↔ ListingPlace reading outputDir d [v] l
      ∨ ListingPlace reading outputDir (runUnit reading outputDir d v).2 order l := by
  have hlocated : ∀ {path : Text} {l : Location},
      (runUnit reading outputDir d v).2.LocatedAt path l ↔ d.LocatedAt path l :=
    (keeps_runUnit reading outputDir d v).locatedAt_iff
  constructor
  · rintro ⟨w, hw, ⟨unit, hunit⟩, hplace⟩
    rcases List.mem_cons.1 hw with rfl | hw
    · exact Or.inl ⟨w, List.mem_singleton_self w, ⟨unit, hunit⟩, hplace⟩
    · exact Or.inr ⟨w, hw, ⟨unit, (h.listable_runUnit (horder hw) hv).2 hunit⟩,
        hlocated.2 hplace⟩
  · rintro (⟨w, hw, hplace⟩ | ⟨w, hw, ⟨unit, hunit⟩, hplace⟩)
    · exact ⟨w, List.mem_cons.2 (Or.inl (List.mem_singleton.1 hw)), hplace⟩
    · exact ⟨w, List.mem_cons_of_mem v hw, ⟨unit, (h.listable_runUnit (horder hw) hv).1 hunit⟩,
        hlocated.1 hplace⟩

/-- Whatever the order, only the places change that listings go to. -/
theorem Siblings.keeps_runUnits {units : List Text} (h : Siblings units) :
    ∀ {order : List Text} {d : Disk}, order ⊆ units →
      Keeps (ListingPlace reading outputDir d order) d (runUnits reading outputDir d order).2
  | [], d, _ => .refl d
  | v :: order, d, horder => by
    obtain ⟨hv, horder⟩ := List.cons_subset.1 horder
    rw [runUnits_cons]
    exact ((keeps_runUnit reading outputDir d v).trans (h.keeps_runUnits horder)).mono
      fun l hl => (h.listingPlace_cons hv horder).2 hl

theorem Siblings.listable_runUnits {units order : List Text} (h : Siblings units) (hu : u ∈ units)
    (horder : order ⊆ units) {unit : CompiledUnit} :
    Listable reading outputDir (runUnits reading outputDir d order).2 u unit ↔
      Listable reading outputDir d u unit :=
  listable_of_keeps (h.keeps_runUnits horder) (h.not_listingPlace horder hu)

/-- The outcome says whether the unit can be listed, and if so what it refers to. -/
def Accounts (reading : Reading) (outputDir : Text) (d : Disk) (u : Text) : Outcome → Prop
  | .ok usage => ∃ unit, Listable reading outputDir d u unit ∧ report reading u unit = usage
  | .error _ => Fails reading outputDir d u

theorem accounts_runUnit (reading : Reading) (outputDir : Text) (d : Disk) (u : Text) :
    Accounts reading outputDir d u (runUnit reading outputDir d u).1 := by
  rcases runUnit_cases reading outputDir d u with
    ⟨unit, hunit, d', -, hrun⟩ | ⟨hfails, failure, hrun⟩
  · rw [hrun]
    exact ⟨unit, hunit, rfl⟩
  · rw [hrun]
    exact hfails

theorem Siblings.accounts_runUnit_iff {units : List Text} (h : Siblings units) (hu : u ∈ units)
    (hv : v ∈ units) {outcome : Outcome} :
    Accounts reading outputDir (runUnit reading outputDir d v).2 u outcome ↔
      Accounts reading outputDir d u outcome := by
  cases outcome with
  | ok usage => simp only [Accounts, h.listable_runUnit hu hv]
  | error failure => simp only [Accounts, Fails, h.listable_runUnit hu hv]

/-- In any order a unit has the outcome that it would have as the first. -/
theorem Siblings.accounts_of_mem {units : List Text} (h : Siblings units) :
    ∀ {order : List Text} {d : Disk} {outcome : Outcome}, order ⊆ units →
      (u, outcome) ∈ (runUnits reading outputDir d order).1 →
      u ∈ order ∧ Accounts reading outputDir d u outcome
  | [], d, outcome, _, hmem => by simp [runUnits] at hmem
  | v :: order, d, outcome, horder, hmem => by
    obtain ⟨hv, horder⟩ := List.cons_subset.1 horder
    rw [runUnits_cons] at hmem
    rcases List.mem_cons.1 hmem with heq | hmem
    · obtain ⟨rfl, rfl⟩ := Prod.mk.inj heq
      exact ⟨List.mem_cons_self, accounts_runUnit reading outputDir d u⟩
    · obtain ⟨hu, haccounts⟩ := h.accounts_of_mem horder hmem
      exact ⟨List.mem_cons_of_mem v hu, (h.accounts_runUnit_iff (horder hu) hv).1 haccounts⟩

end Batch

end MissionScript
