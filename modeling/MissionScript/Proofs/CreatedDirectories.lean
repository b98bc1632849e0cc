import MissionScript.Proofs.DiskWrites

/-!
# What creating directories changes on a disk

A directory is created where nothing stood, so a disk only grows by it (`Grows`): every path that
led somewhere still leads there, and no file is created or changed (`Grows.file_iff`). A directory
that was created is there (`isDirectory_createDirectories`), and to create it once more changes
nothing, also after files were written (`Keeps.createDirectories_again`).
-/

namespace MissionScript

namespace Disk

variable {d d' d'' : Disk} {l : Location} {path : Text}

/-- The second disk has all that stands on the first, and directories where nothing stood. -/
structure Grows (d d' : Disk) : Prop where
  current : d'.current = d.current
  get? : ∀ l, d'.get? l = d.get? l ∨ d.get? l = none ∧ d'.get? l = some .directory

namespace Grows

theorem refl (d : Disk) : Grows d d := ⟨rfl, fun _ => Or.inl rfl⟩

theorem trans (h : Grows d d') (h' : Grows d' d'') : Grows d d'' where
  current := h'.current.trans h.current
  get? l := by
    rcases h.get? l with heq | ⟨hnone, hdir⟩
    · rw [← heq]
      exact h'.get? l
    · rcases h'.get? l with heq | ⟨hnone', -⟩
      · exact Or.inr ⟨hnone, heq.trans hdir⟩
      · rw [hdir] at hnone'
        simp at hnone'

theorem get?_of_eq_some (h : Grows d d') {e : Entry} (he : d.get? l = some e) :
    d'.get? l = some e := by
  rcases h.get? l with heq | ⟨hnone, -⟩
  · rw [heq, he]
  · rw [hnone] at he
    simp at he

/-- The files are those there were. -/
theorem file_iff (h : Grows d d') {bytes : List UInt8} :
    d'.get? l = some (.file bytes) ↔ d.get? l = some (.file bytes) := by
  rcases h.get? l with heq | ⟨hnone, hdir⟩
  · rw [heq]
  · simp [hnone, hdir]

theorem walk (h : Grows d d') {l' : Location} : ∀ {names : List Text} {l : Location},
    d.walk l names = .ok l' → d'.walk l names = .ok l'
  | [], _, hwalk => hwalk
  | name :: names, l, hwalk => by
    rw [walk_cons_eq_ok] at hwalk ⊢
    exact ⟨h.get?_of_eq_some hwalk.1, h.walk hwalk.2⟩

theorem locate (h : Grows d d') {t : Target} (ht : d.locate path = .ok t) :
    d'.locate path = .ok t := by
  rw [locate_eq_ok] at ht ⊢
  obtain ⟨hpath, hwalk, hends⟩ := ht
  rw [origin] at hwalk
  rw [origin, h.current]
  exact ⟨hpath, h.walk hwalk, hends⟩

theorem read (h : Grows d d') {bytes : List UInt8} (hread : d.read path = .ok bytes) :
    d'.read path = .ok bytes := by
  obtain ⟨t, ht, hget, hslash⟩ := read_eq_ok.1 hread
  exact read_eq_ok.2 ⟨t, h.locate ht, h.get?_of_eq_some hget, hslash⟩

end Grows

/-! ## One directory -/

theorem get?_put_of_none (h : d.get? l = none) (e : Entry) : (d.put l e).get? l = some e := by
  have hdir : d.get? l ≠ some .directory := by simp [h]
  exact get?_put_self (ne_nil_of_get?_ne hdir) d e

theorem grows_put (h : d.get? l = none) : Grows d (d.put l .directory) where
  current := rfl
  get? l' := by
    by_cases hl : l' = l
    · subst hl
      exact Or.inr ⟨h, get?_put_of_none h _⟩
    · exact Or.inl (get?_put_of_ne hl d _)

theorem grows_createDirectory (h : d.createDirectory path = .ok d') : Grows d d' := by
  obtain ⟨t, -, -, hnone, rfl⟩ := createDirectory_eq_ok.1 h
  exact grows_put hnone

theorem Provides.isDirectory (h : d.Provides path d') : d'.isDirectory path = true := by
  rcases h with hcreate | ⟨hdir, rfl⟩
  · have hgrows := grows_createDirectory hcreate
    obtain ⟨t, ht, -, hnone, rfl⟩ := createDirectory_eq_ok.1 hcreate
    exact isDirectory_iff.2 ⟨t.location, ⟨t, hgrows.locate ht, rfl⟩, get?_put_of_none hnone _⟩
  · exact hdir

/-! ## All directories of a path -/

theorem grows_createDirectories (h : d.createDirectories path = .ok d') : Grows d d' :=
  createDirectoriesFrom_induction (motive := Grows d)
    (fun hgrows hcreate => hgrows.trans (grows_createDirectory hcreate)) (.refl d) h

theorem isDirectory_createDirectories (hpath : path ≠ [])
    (h : d.createDirectories path = .ok d') : d'.isDirectory path = true := by
  rcases createDirectoriesFrom_eq_ok.1 h with
    ⟨hempty, -⟩ | ⟨-, hd | ⟨-, parent, -, above, -, hd⟩⟩
  · exact absurd hempty hpath
  · exact hd.isDirectory
  · exact hd.isDirectory

/-- Once created, directories are there for good, and to create them again changes nothing. -/
theorem Keeps.createDirectories_again {P : Location → Prop} (hkeeps : Keeps P d' d'')
    (h : d.createDirectories path = .ok d') : d''.createDirectories path = .ok d'' := by
  refine createDirectoriesFrom_eq_ok.2 ?_
  by_cases hpath : path = []
  · exact Or.inl ⟨hpath, rfl⟩
  · have hdir : d''.isDirectory path = true := by
      obtain ⟨l, hl⟩ := isDirectory_iff.1 (isDirectory_createDirectories hpath h)
      exact isDirectory_iff.2 ⟨l, hkeeps.directoryAt_iff.2 hl⟩
    exact Or.inr ⟨hpath, Or.inl (Or.inr ⟨hdir, rfl⟩)⟩

end Disk

end MissionScript
