import MissionScript.Proofs.DirectorySearch

/-!
# Removing files

Without some of its files a disk has the same directories, so the same paths lead somewhere
(`Files.keeps_without`). Whatever could be created can still be created, and it makes no difference
whether the files are removed before or after (`Files.write_without`,
`Files.createDirectories_without`). A search finds the units that are left, in the same order
(`exists_findUnits_without`).
-/

namespace MissionScript

theorem bind_eq_error {ε α β : Type} {x : Except ε α} {f : α → Except ε β} {e : ε} :
    x >>= f = .error e ↔ x = .error e ∨ ∃ a, x = .ok a ∧ f a = .error e := by
  cases x with
  | error e => simp [bind, Except.bind]
  | ok a => simp [bind, Except.bind]

namespace Disk

variable {d d' : Disk} {gone : List Location} {l : Location}

/-- The disk with nothing at some places. -/
def without (d : Disk) (gone : List Location) : Disk :=
  { d with entries := d.entries.filter (·.1 ∉ gone) }

/-- There is a file at each of the places. -/
def Files (d : Disk) (gone : List Location) : Prop :=
  ∀ l ∈ gone, ∃ bytes, d.get? l = some (.file bytes)

theorem lookup_without (d : Disk) (gone : List Location) (l : Location) :
    (d.without gone).entries.lookup l = if l ∈ gone then none else d.entries.lookup l := by
  rw [without, lookup_filter (· ∉ gone)]
  by_cases hl : l ∈ gone <;> simp [hl]

theorem get?_without (hl : l ∉ gone) : (d.without gone).get? l = d.get? l := by
  rw [get?, lookup_without, if_neg hl, get?]

namespace Files

theorem ne_nil (h : d.Files gone) (hl : l ∈ gone) : l ≠ [] := by
  rintro rfl
  obtain ⟨bytes, hbytes⟩ := h [] hl
  simp [get?] at hbytes

theorem get?_without (h : d.Files gone) (hl : l ∈ gone) : (d.without gone).get? l = none := by
  rw [get?, if_neg (by simpa using h.ne_nil hl), lookup_without, if_pos hl]

theorem not_mem (h : d.Files gone) (hl : ∀ bytes, d.get? l ≠ some (.file bytes)) : l ∉ gone :=
  fun hmem => (h l hmem).elim hl

theorem keeps_without (h : d.Files gone) : Keeps (· ∈ gone) d (d.without gone) where
  current := rfl
  directory l := by
    by_cases hl : l ∈ gone
    · obtain ⟨bytes, hbytes⟩ := h l hl
      simp [h.get?_without hl, hbytes]
    · rw [Disk.get?_without hl]
  get? _ hl := Disk.get?_without hl

theorem put (h : d.Files gone) (hl : l ∉ gone) (e : Entry) : (d.put l e).Files gone := by
  intro l' hl'
  have hne : l' ≠ l := fun heq => hl (heq ▸ hl')
  rw [get?_put_of_ne hne]
  exact h l' hl'

end Files

theorem without_put (hl : l ∉ gone) (e : Entry) :
    (d.put l e).without gone = (d.without gone).put l e := by
  simp only [without, put, Disk.mk.injEq, and_true]
  rw [List.filter_cons_of_pos (by simpa using hl), List.filter_comm]

theorem Files.write_without (h : d.Files gone) {path : Text} {bytes : List UInt8}
    (hfree : ∀ l ∈ gone, ¬ d.LocatedAt path l) (hwrite : d.write path bytes = .ok d') :
    (d.without gone).write path bytes = .ok (d'.without gone) := by
  obtain ⟨t, ht, hnamed, hdir, rfl⟩ := write_eq_ok.1 hwrite
  have hkeeps := h.keeps_without
  exact write_eq_ok.2 ⟨t, hkeeps.locate_eq_ok_iff.2 ht, hnamed, mt (hkeeps.directory _).1 hdir,
    without_put (fun hl => hfree _ hl ⟨t, ht, rfl⟩) _⟩

/-! ## Directories -/

theorem Files.walk_notFound (h : d.Files gone) : ∀ {names : List Text} {l : Location},
    d.walk l names = .error .notFound → (d.without gone).walk l names = .error .notFound
  | name :: names, l, hwalk => by
    rw [walk] at hwalk ⊢
    cases hget : d.get? l with
    | none =>
      rw [Disk.get?_without (h.not_mem (by simp [hget])), hget]
    | some e =>
      rw [hget] at hwalk
      cases e with
      | directory =>
        rw [(h.keeps_without.directory l).2 hget]
        exact h.walk_notFound hwalk
      | file bytes => simp at hwalk

theorem createDirectory_eq_notFound {path : Text} :
    d.createDirectory path = .error .notFound ↔ d.locate path = .error .notFound := by
  rw [createDirectory, bind_eq_error, or_iff_left]
  rintro ⟨t, -, herror⟩
  split_ifs at herror
  simp at herror

theorem locate_eq_notFound {path : Text} : d.locate path = .error .notFound ↔
    hasZero path = false
      ∧ (path = [] ∨ d.walk (d.origin path) (steps path) = .error .notFound) := by
  rw [locate, hasZero]
  cases path.any (·.toNat == 0) with
  | true => simp
  | false =>
    by_cases hempty : path = []
    · simp [hempty]
    · simp only [Bool.false_eq_true, if_false, List.isEmpty_iff, hempty, false_or, true_and]
      rw [bind_eq_error, or_iff_left]
      · rfl
      · rintro ⟨l, -, herror⟩
        simp at herror

theorem Files.createDirectory_notFound (h : d.Files gone) {path : Text}
    (hcreate : d.createDirectory path = .error .notFound) :
    (d.without gone).createDirectory path = .error .notFound := by
  rw [createDirectory_eq_notFound, locate_eq_notFound] at hcreate ⊢
  exact hcreate.imp_right (Or.imp_right h.walk_notFound)

theorem Files.createDirectory_without (h : d.Files gone) {path : Text}
    (hcreate : d.createDirectory path = .ok d') :
    (d.without gone).createDirectory path = .ok (d'.without gone) ∧ d'.Files gone := by
  obtain ⟨t, ht, hnamed, hnone, rfl⟩ := createDirectory_eq_ok.1 hcreate
  have hfree : t.location ∉ gone := h.not_mem (by simp [hnone])
  refine ⟨createDirectory_eq_ok.2 ⟨t, h.keeps_without.locate_eq_ok_iff.2 ht, hnamed, ?_,
    without_put hfree _⟩, h.put hfree _⟩
  rw [Disk.get?_without hfree, hnone]

theorem Files.provides_without (h : d.Files gone) {path : Text} (hprovides : d.Provides path d') :
    (d.without gone).Provides path (d'.without gone) ∧ d'.Files gone := by
  rcases hprovides with hcreate | ⟨hdir, rfl⟩
  · exact (h.createDirectory_without hcreate).imp_left Or.inl
  · refine ⟨Or.inr ⟨?_, rfl⟩, h⟩
    rw [isDirectory_iff] at hdir ⊢
    simpa only [h.keeps_without.directoryAt_iff] using hdir

theorem Files.createDirectoriesFrom_without : ∀ {fuel : Nat} {path : Text} {d d' : Disk},
    d.Files gone → d.createDirectoriesFrom fuel path = .ok d' →
      (d.without gone).createDirectoriesFrom fuel path = .ok (d'.without gone) ∧ d'.Files gone
  | 0, path, d, d', _, hd => by simp [createDirectoriesFrom] at hd
  | fuel + 1, path, d, d', h, hd => by
    rw [createDirectoriesFrom_eq_ok] at hd ⊢
    rcases hd with ⟨hpath, rfl⟩ | ⟨hpath, hd | ⟨hcreate, parent, hparent, above, habove, hd⟩⟩
    · exact ⟨Or.inl ⟨hpath, rfl⟩, h⟩
    · obtain ⟨hd, h'⟩ := h.provides_without hd
      exact ⟨Or.inr ⟨hpath, Or.inl hd⟩, h'⟩
    · obtain ⟨habove, habove_files⟩ := h.createDirectoriesFrom_without habove
      obtain ⟨hd, h'⟩ := habove_files.provides_without hd
      exact ⟨Or.inr ⟨hpath, Or.inr ⟨h.createDirectory_notFound hcreate, parent, hparent, _, habove,
        hd⟩⟩, h'⟩

theorem Files.createDirectories_without (h : d.Files gone) {path : Text}
    (hd : d.createDirectories path = .ok d') :
    (d.without gone).createDirectories path = .ok (d'.without gone) ∧ d'.Files gone :=
  h.createDirectoriesFrom_without hd

/-! ## Names -/

theorem Files.names_without (h : d.Files gone) (l : Location) :
    ((d.without gone).names l).toList
      = (d.names l).toList.filter fun name => l ++ [name.toList] ∉ gone := by
  have hset : (d.without gone).names l
      = ⟨(d.names l).toList.filter fun name => l ++ [name.toList] ∉ gone,
        (d.names l).ascending.filter _⟩ := by
    refine NameSet.eq_of_mem_iff fun name => ?_
    rw [mem_names, List.mem_filter, mem_names]
    by_cases hname : l ++ [name.toList] ∈ gone
    · simp [h.get?_without hname, hname]
    · simp [Disk.get?_without hname, hname]
  rw [hset]

end Disk

namespace Batch

open Disk (Admitted)

variable {d : Disk} {gone : List Location}

theorem leads_without (h : d.Files gone) {dir : Text} {l : Location} :
    Leads (d.without gone) dir l ↔ Leads d dir l :=
  h.keeps_without.directoryAt_iff

theorem unitNames_without (h : d.Files gone) (l : Location) :
    unitNames (d.without gone) l = (unitNames d l).filter fun name => l ++ [name] ∉ gone := by
  have hmap : ((d.names l).toList.map String.toList).filter (fun name => l ++ [name] ∉ gone)
      = ((d.names l).toList.filter fun name => l ++ [name.toList] ∉ gone).map String.toList :=
    List.filter_map
  rw [unitNames, unitNames, h.names_without, List.filter_comm, hmap]

/-- Of the units those are found whose files are left. -/
theorem exists_findUnits_without (hnames : d.NamesAre Admitted) (h : d.Files gone) (dir : Text) :
    ∃ stays : Text → Bool, findUnits (d.without gone) dir = (findUnits d dir).filter stays
      ∧ ∀ u ∈ findUnits d dir, stays u = true ↔ ∀ l ∈ gone, ¬ d.LocatedAt u l := by
  rcases leads_or_not d dir with ⟨hdots, l, hl⟩ | hnone
  · obtain ⟨-, hunits⟩ := findUnits_of_leads hl hdots
    obtain ⟨-, hunits'⟩ := findUnits_of_leads ((leads_without h).2 hl) hdots
    refine ⟨fun u => l ++ [UnitFile.name u] ∉ gone, ?_, fun u hu => ?_⟩
    · rw [hunits, hunits', unitNames_without h, List.filter_map]
      refine congrArg _ (List.filter_congr fun name hname => ?_)
      rw [Function.comp, name_onward _ (isName_of_mem_unitNames hnames hname).1]
    · obtain ⟨l', hl', hlocated⟩ := (finds_findUnits hnames hdots).located u hu
      obtain rfl : l' = l := hl'.1.unique hl.1
      simp only [decide_not, Bool.not_eq_true', decide_eq_false_iff_not]
      constructor
      · rintro hstays l hl hlocated'
        exact hstays (hlocated'.unique hlocated ▸ hl)
      · exact fun hstays hgone => hstays _ hgone hlocated
  · have hnone' := hnone.imp_right fun hleads l => mt (leads_without h).1 (hleads l)
    rw [findUnits_eq_nil hnone, findUnits_eq_nil hnone']
    exact ⟨fun _ => true, rfl, by simp⟩

end Batch

end MissionScript
