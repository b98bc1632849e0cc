import MissionScript.Proofs.OutputNames

/-!
# What writing a file changes on a disk

A file is written where no directory stands, so the directories of a disk stay as they are and a
path that led somewhere still leads there (`Keeps.locate_eq_ok_iff`). What is written is read back
under the same path (`read_write`), and a path reads the same if nothing changed where it leads
(`Keeps.read_eq_ok_iff`), which is a place of the name that the path ends in (`getLast?_location`).
A directory is created at once or after the one above it (`createDirectoriesFrom_eq_ok`), so what
the creation of one directory preserves, such as a property of all names, is preserved by all that
go with it (`createDirectoriesFrom_induction`, `NamesAre.createDirectories`).
-/

namespace MissionScript

/-- A chain of two partial steps gives a result exactly if both do. -/
theorem bind_eq_ok {ε α β : Type} {x : Except ε α} {f : α → Except ε β} {b : β} :
    x >>= f = .ok b ↔ ∃ a, x = .ok a ∧ f a = .ok b := by
  cases x with
  | error e => simp [bind, Except.bind]
  | ok a => simp [bind, Except.bind]

namespace Disk

variable {d d' d'' : Disk} {P Q : Location → Prop}

/-! ## Entries -/

theorem lookup_filter (p : Location → Bool) (l : Location) : ∀ entries : List (Location × Entry),
    (entries.filter (p ·.1)).lookup l = if p l then entries.lookup l else none
  | [] => by simp
  | (k, e) :: entries => by
    have ih := lookup_filter p l entries
    by_cases hkl : l = k
    · subst hkl
      cases hp : p l with
      | true => simp [hp]
      | false => simpa [hp] using ih
    · have hbeq : (l == k) = false := by simp [hkl]
      rw [List.lookup_cons, hbeq, ← ih, List.filter_cons]
      split_ifs
      · rw [List.lookup_cons, hbeq]
      · rfl

theorem get?_put_self {l : Location} (hl : l ≠ []) (d : Disk) (e : Entry) :
    (d.put l e).get? l = some e := by
  simp [get?, put, hl]

theorem get?_put_of_ne {l l' : Location} (h : l' ≠ l) (d : Disk) (e : Entry) :
    (d.put l e).get? l' = d.get? l' := by
  have hbeq : (l' == l) = false := by simp [h]
  have hfilter := lookup_filter (· != l) l' d.entries
  rw [if_pos (by simpa using h)] at hfilter
  simp only [get?, put, List.lookup_cons, hbeq, hfilter]

/-- The second disk has the directories of the first, and its files but those at some places. -/
structure Keeps (P : Location → Prop) (d d' : Disk) : Prop where
  current : d'.current = d.current
  directory : ∀ l, d'.get? l = some .directory ↔ d.get? l = some .directory
  get? : ∀ l, ¬ P l → d'.get? l = d.get? l

theorem Keeps.refl (d : Disk) : Keeps P d d := ⟨rfl, fun _ => Iff.rfl, fun _ _ => rfl⟩

theorem Keeps.trans (h : Keeps P d d') (h' : Keeps Q d' d'') :
    Keeps (fun l => P l ∨ Q l) d d'' where
  current := h'.current.trans h.current
  directory l := (h'.directory l).trans (h.directory l)
  get? l hl := by
    rw [not_or] at hl
    rw [h'.get? l hl.2, h.get? l hl.1]

theorem Keeps.mono (h : Keeps P d d') (hPQ : ∀ l, P l → Q l) : Keeps Q d d' where
  current := h.current
  directory := h.directory
  get? l hl := h.get? l fun hP => hl (hPQ l hP)

/-! ## Paths -/

theorem walk_cons_eq_ok {l l' : Location} {name : Text} {names : List Text} :
    d.walk l (name :: names) = .ok l' ↔
      d.get? l = some .directory ∧ d.walk (child l name) names = .ok l' := by
  rw [walk]
  split
  · rename_i h
    simp [h]
  · rename_i h
    simp [h]
  · rename_i h
    simp [h]

theorem Keeps.walk_eq_ok_iff (h : Keeps P d d') {l' : Location} :
    ∀ (names : List Text) (l : Location), d'.walk l names = .ok l' ↔ d.walk l names = .ok l'
  | [], _ => Iff.rfl
  | name :: names, l => by
    rw [walk_cons_eq_ok, walk_cons_eq_ok, h.directory, h.walk_eq_ok_iff names]

/-- The names that a path is followed by. -/
def steps (path : Text) : List Text := (Path.pieces path).filter (!·.isEmpty)

/-- The place that a path starts from. -/
def origin (d : Disk) (path : Text) : Location := if Path.isAbsolute path then [] else d.current

theorem locate_eq_ok {path : Text} {t : Target} : d.locate path = .ok t ↔
    (path.any (·.toNat == 0) = false ∧ path.isEmpty = false)
      ∧ d.walk (d.origin path) (steps path) = .ok t.location
      ∧ t.named = (steps path).getLast?.any (fun n => n != ['.'] && n != ['.', '.'])
      ∧ t.slash = (path.getLast? == some '/') := by
  rw [locate]
  cases hzero : path.any (·.toNat == 0) with
  | true => simp
  | false =>
    cases hempty : path.isEmpty with
    | true => simp
    | false =>
      simp only [Bool.false_eq_true, if_false, and_self, true_and]
      rw [bind_eq_ok]
      constructor
      · rintro ⟨l, hl, heq⟩
        obtain rfl := Except.ok.inj heq
        exact ⟨hl, rfl, rfl⟩
      · rintro ⟨hl, hnamed, hslash⟩
        obtain ⟨location, named, slash⟩ := t
        subst hnamed hslash
        exact ⟨location, hl, rfl⟩

theorem Keeps.locate_eq_ok_iff (h : Keeps P d d') {path : Text} {t : Target} :
    d'.locate path = .ok t ↔ d.locate path = .ok t := by
  rw [locate_eq_ok, locate_eq_ok, origin, h.current, h.walk_eq_ok_iff]
  rfl

theorem exists_child_of_walk {name : Text} {l' : Location} : ∀ {names : List Text} {l : Location},
    d.walk l (names ++ [name]) = .ok l' → ∃ m, d.get? m = some .directory ∧ l' = child m name
  | [], l, h => by
    rw [List.nil_append, walk_cons_eq_ok] at h
    exact ⟨l, h.1, (Except.ok.inj h.2).symm⟩
  | first :: names, l, h => by
    rw [List.cons_append, walk_cons_eq_ok] at h
    exact exists_child_of_walk h.2

/-- The path leads to the place, whether or not anything stands there. -/
def LocatedAt (d : Disk) (path : Text) (l : Location) : Prop :=
  ∃ t, d.locate path = .ok t ∧ t.location = l

theorem LocatedAt.unique {path : Text} {l l' : Location} (h : d.LocatedAt path l)
    (h' : d.LocatedAt path l') : l = l' := by
  obtain ⟨t, ht, rfl⟩ := h
  obtain ⟨t', ht', rfl⟩ := h'
  rw [Except.ok.inj (ht.symm.trans ht')]

theorem Keeps.locatedAt_iff (h : Keeps P d d') {path : Text} {l : Location} :
    d'.LocatedAt path l ↔ d.LocatedAt path l := by
  simp only [LocatedAt, h.locate_eq_ok_iff]

/-- A path that ends in a name leads to a place of that name. -/
theorem getLast?_location {path name : Text} {t : Target} (hends : Path.EndsIn path name)
    (hname : Path.IsName name) (h : d.locate path = .ok t) : t.location.getLast? = some name := by
  obtain ⟨front, hfront⟩ := hends
  have hsteps : steps path = front.filter (!·.isEmpty) ++ [name] := by
    rw [steps, hfront, List.filter_append]
    simp [hname.ne_nil]
  obtain ⟨-, hwalk, -⟩ := locate_eq_ok.1 h
  rw [hsteps] at hwalk
  obtain ⟨m, -, hm⟩ := exists_child_of_walk hwalk
  rw [hm, child, if_neg hname.ne_dot, if_neg hname.ne_dots, List.getLast?_concat]

/-! ## Files -/

theorem read_eq_ok {path : Text} {bytes : List UInt8} : d.read path = .ok bytes ↔
    ∃ t, d.locate path = .ok t ∧ d.get? t.location = some (.file bytes) ∧ t.slash = false := by
  simp only [read, entry, bind_eq_ok]
  constructor
  · rintro ⟨e, ⟨t, ht, he⟩, hb⟩
    refine ⟨t, ht, ?_⟩
    split at he
    · simp at he
    · obtain rfl := Except.ok.inj he
      simp at hb
    · rename_i bytes' hget
      split_ifs at he with hslash
      obtain rfl := Except.ok.inj he
      obtain rfl := Except.ok.inj hb
      exact ⟨hget, by simpa using hslash⟩
  · rintro ⟨t, ht, hget, hslash⟩
    refine ⟨.file bytes, ⟨t, ht, ?_⟩, rfl⟩
    simp [hget, hslash]

theorem write_eq_ok {path : Text} {bytes : List UInt8} : d.write path bytes = .ok d' ↔
    ∃ t, d.locate path = .ok t ∧ (t.named = true ∧ t.slash = false)
      ∧ d.get? t.location ≠ some .directory ∧ d' = d.put t.location (.file bytes) := by
  rw [write, bind_eq_ok]
  refine exists_congr fun t => and_congr_right fun _ => ?_
  split_ifs with h
  · simp only [Bool.or_eq_true, Bool.not_eq_true', beq_iff_eq] at h
    simp only [false_iff]
    rintro ⟨⟨hnamed, hslash⟩, hdir, -⟩
    simp [hnamed, hslash, hdir] at h
  · simp only [Bool.or_eq_true, Bool.not_eq_true', beq_iff_eq, not_or] at h
    simp only [Except.ok.injEq]
    exact ⟨fun heq => ⟨⟨by simpa using h.1.1, by simpa using h.1.2⟩, h.2, heq.symm⟩,
      fun heq => heq.2.2.symm⟩

theorem ne_nil_of_get?_ne {l : Location} (h : d.get? l ≠ some .directory) : l ≠ [] := by
  rintro rfl
  exact h rfl

theorem keeps_put {l : Location} (h : d.get? l ≠ some .directory) (bytes : List UInt8) :
    Keeps (· = l) d (d.put l (.file bytes)) where
  current := rfl
  directory l' := by
    by_cases hl : l' = l
    · subst hl
      rw [get?_put_self (ne_nil_of_get?_ne h)]
      simp [h]
    · rw [get?_put_of_ne hl]
  get? l' hl := get?_put_of_ne hl d _

/-- What is written under a path is read back. -/
theorem read_write {path : Text} {bytes : List UInt8} (h : d.write path bytes = .ok d') :
    d'.read path = .ok bytes := by
  obtain ⟨t, ht, ⟨-, hslash⟩, hdir, rfl⟩ := write_eq_ok.1 h
  refine read_eq_ok.2 ⟨t, (keeps_put hdir bytes).locate_eq_ok_iff.2 ht, ?_, hslash⟩
  exact get?_put_self (ne_nil_of_get?_ne hdir) d _

theorem Keeps.read_eq_ok_iff (h : Keeps P d d') {path : Text} {bytes : List UInt8}
    (hP : ∀ l, d.LocatedAt path l → ¬ P l) :
    d'.read path = .ok bytes ↔ d.read path = .ok bytes := by
  simp only [read_eq_ok, h.locate_eq_ok_iff]
  refine exists_congr fun t => and_congr_right fun ht => ?_
  rw [h.get? _ (hP _ ⟨t, ht, rfl⟩)]

/-- Whether a file can be written depends on the directories alone. -/
theorem Keeps.exists_write_iff (h : Keeps P d d') {path : Text} {bytes : List UInt8} :
    (∃ d₁, d'.write path bytes = .ok d₁) ↔ ∃ d₁, d.write path bytes = .ok d₁ := by
  have hfree : ∀ {d : Disk}, (∃ d₁, d.write path bytes = .ok d₁) ↔ ∃ t, d.locate path = .ok t
      ∧ (t.named = true ∧ t.slash = false) ∧ d.get? t.location ≠ some .directory := by
    intro d
    simp only [write_eq_ok]
    constructor
    · rintro ⟨-, t, ht, hnamed, hdir, -⟩
      exact ⟨t, ht, hnamed, hdir⟩
    · rintro ⟨t, ht, hnamed, hdir⟩
      exact ⟨_, t, ht, hnamed, hdir, rfl⟩
  simp only [hfree, h.locate_eq_ok_iff, ne_eq, h.directory]

/-! ## Directories -/

/-- The path leads to a directory at the place. -/
def DirectoryAt (d : Disk) (path : Text) (l : Location) : Prop :=
  d.LocatedAt path l ∧ d.get? l = some .directory

theorem Keeps.directoryAt_iff (h : Keeps P d d') {path : Text} {l : Location} :
    d'.DirectoryAt path l ↔ d.DirectoryAt path l := by
  rw [DirectoryAt, DirectoryAt, h.locatedAt_iff, h.directory]

theorem entry_eq_directory {path : Text} :
    d.entry path = .ok .directory ↔ ∃ l, d.DirectoryAt path l := by
  rw [entry, bind_eq_ok]
  constructor
  · rintro ⟨t, ht, he⟩
    refine ⟨t.location, ⟨t, ht, rfl⟩, ?_⟩
    split at he
    · simp at he
    · assumption
    · split_ifs at he
      simp at he
  · rintro ⟨l, ⟨t, ht, rfl⟩, hdir⟩
    exact ⟨t, ht, by rw [hdir]⟩

theorem isDirectory_iff {path : Text} :
    d.isDirectory path = true ↔ ∃ l, d.DirectoryAt path l := by
  rw [← entry_eq_directory, isDirectory]
  split
  · rename_i h
    simp [h]
  · rename_i h
    simpa using h

/-- A directory is created where a path leads and nothing stands. -/
theorem createDirectory_eq_ok {path : Text} : d.createDirectory path = .ok d' ↔
    ∃ t, d.locate path = .ok t ∧ t.named = true ∧ d.get? t.location = none
      ∧ d' = d.put t.location .directory := by
  rw [createDirectory, bind_eq_ok]
  refine exists_congr fun t => and_congr_right fun _ => ?_
  split_ifs with h
  · simp only [false_iff]
    rintro ⟨hnamed, hnone, -⟩
    simp [hnamed, hnone] at h
  · simp only [Bool.or_eq_true, Bool.not_eq_true', not_or, Bool.not_eq_false,
      Option.not_isSome_iff_eq_none] at h
    simp only [Except.ok.injEq]
    exact ⟨fun heq => ⟨h.1, h.2, heq.symm⟩, fun heq => heq.2.2.symm⟩

theorem createDirectory_of_isDirectory {path : Text} (h : d.isDirectory path = true) :
    d.createDirectory path = .error .alreadyExists := by
  obtain ⟨l, ⟨t, ht, rfl⟩, hdir⟩ := isDirectory_iff.1 h
  rw [createDirectory, ht]
  simp [bind, Except.bind, hdir]

theorem isDirectory_eq_false {path : Text} (h : d.createDirectory path ≠ .error .alreadyExists) :
    d.isDirectory path = false := by
  by_contra hdir
  exact h (createDirectory_of_isDirectory (by simpa using hdir))

/-- The path leads to a directory on the second disk, which is new there or stood on the first. -/
def Provides (d : Disk) (path : Text) (d' : Disk) : Prop :=
  d.createDirectory path = .ok d' ∨ d.isDirectory path = true ∧ d' = d

theorem provides_iff {path : Text} : d.Provides path d' ↔
    (match d.createDirectory path with
      | .ok d => .ok d
      | .error cause => if d.isDirectory path then .ok d else .error cause
      : Except Cause Disk) = .ok d' := by
  unfold Provides
  cases hcreate : d.createDirectory path with
  | ok d₁ =>
    have hnot : d.isDirectory path = false := isDirectory_eq_false (by simp [hcreate])
    simp [hnot]
  | error cause =>
    cases d.isDirectory path <;> simp [eq_comm]

/-- A directory is created at once, or after the one above it. -/
theorem createDirectoriesFrom_eq_ok {fuel : Nat} {path : Text} :
    d.createDirectoriesFrom (fuel + 1) path = .ok d' ↔
      path = [] ∧ d' = d
        ∨ path ≠ [] ∧ (d.Provides path d'
          ∨ d.createDirectory path = .error .notFound ∧ ∃ parent, Path.parent? path = some parent
            ∧ ∃ above, d.createDirectoriesFrom fuel parent = .ok above
              ∧ above.Provides path d') := by
  rw [createDirectoriesFrom]
  by_cases hempty : path = []
  · simp [hempty, eq_comm]
  · rw [if_neg (by simpa using hempty)]
    simp only [hempty, ne_eq, not_false_eq_true, true_and, false_and, false_or]
    rw [provides_iff]
    cases hcreate : d.createDirectory path with
    | ok d₁ => simp
    | error cause =>
      cases cause with
      | notFound =>
        have hnot : d.isDirectory path = false := isDirectory_eq_false (by simp [hcreate])
        simp only [hnot, Bool.false_eq_true, if_false, reduceCtorEq, false_or, true_and]
        cases Path.parent? path with
        | none => simp [bind_eq_ok]
        | some parent =>
          constructor
          · intro hd
            obtain ⟨above, habove, hd⟩ := bind_eq_ok.1 hd
            exact ⟨parent, rfl, above, habove, provides_iff.2 hd⟩
          · rintro ⟨_, hparent, above, habove, hd⟩
            obtain rfl := Option.some.inj hparent
            exact bind_eq_ok.2 ⟨above, habove, provides_iff.1 hd⟩
      | _ => simp

/-- What holds of a disk and stays so whenever one directory is created holds after any number. -/
theorem createDirectoriesFrom_induction {motive : Disk → Prop}
    (hstep : ∀ {d d' : Disk} {path : Text}, motive d → d.createDirectory path = .ok d' →
      motive d') :
    ∀ {fuel : Nat} {path : Text} {d d' : Disk},
      motive d → d.createDirectoriesFrom fuel path = .ok d' → motive d'
  | 0, path, d, d', _, hd => by simp [createDirectoriesFrom] at hd
  | fuel + 1, path, d, d', h, hd => by
    have hprovides : ∀ {d : Disk}, motive d → d.Provides path d' → motive d' := by
      rintro d h (hcreate | ⟨-, rfl⟩)
      · exact hstep h hcreate
      · exact h
    rcases createDirectoriesFrom_eq_ok.1 hd with
      ⟨-, rfl⟩ | ⟨-, hd | ⟨-, parent, -, above, habove, hd⟩⟩
    · exact h
    · exact hprovides h hd
    · exact hprovides (createDirectoriesFrom_induction hstep h habove) hd

/-! ## Names on a disk -/

theorem get?_concat (l : Location) (name : Text) :
    d.get? (l ++ [name]) = d.entries.lookup (l ++ [name]) := by
  rw [get?, if_neg (by simp)]

theorem mem_names {l : Location} {name : String} :
    name ∈ (d.names l).toList ↔ (d.get? (l ++ [name.toList])).isSome = true := by
  rw [names, NameSet.mem_foldl_insert, get?_concat, List.lookup_isSome_iff, List.mem_filterMap]
  simp only [NameSet.empty, List.not_mem_nil, false_or, beq_iff_eq]
  refine exists_congr fun e => and_congr_right fun _ => ?_
  constructor
  · intro h
    split_ifs at h with hdropLast
    obtain ⟨last, hlast, rfl⟩ := Option.map_eq_some_iff.1 h
    obtain ⟨front, hfront⟩ := List.getLast?_eq_some_iff.1 hlast
    rw [← hdropLast, hfront, List.dropLast_concat, String.toList_ofList]
  · rintro h
    rw [← h, if_pos List.dropLast_concat, List.getLast?_concat, Option.map_some,
      String.ofList_toList]

/-- All names have a property, those of the places and those of the current directory. -/
structure NamesAre (N : Text → Prop) (d : Disk) : Prop where
  entries : ∀ e ∈ d.entries, ∀ name ∈ e.1, N name
  current : ∀ name ∈ d.current, N name

variable {N : Text → Prop}

theorem NamesAre.put (h : NamesAre N d) {l : Location} (hl : ∀ name ∈ l, N name) (e : Entry) :
    NamesAre N (d.put l e) where
  entries e' he' := by
    rcases List.mem_cons.1 he' with rfl | he'
    · exact hl
    · exact h.entries e' (List.mem_of_mem_filter he')
  current := h.current

theorem NamesAre.of_get? (h : NamesAre N d) {l : Location} (hl : (d.get? l).isSome = true) :
    ∀ name ∈ l, N name := by
  rw [get?] at hl
  split_ifs at hl with hempty
  · simp [List.isEmpty_iff.1 hempty]
  · obtain ⟨e, he, heq⟩ := List.lookup_isSome_iff.1 hl
    rw [beq_iff_eq.1 heq]
    exact h.entries e he

theorem names_of_walk {l' : Location} : ∀ {names : List Text} {l : Location},
    (∀ name ∈ l, N name) → (∀ name ∈ names, N name) → d.walk l names = .ok l' →
      ∀ name ∈ l', N name
  | [], l, hl, _, h => by
    obtain rfl := Except.ok.inj h
    exact hl
  | first :: names, l, hl, hnames, h => by
    rw [walk_cons_eq_ok] at h
    refine names_of_walk ?_ (fun name hname => hnames name (List.mem_cons_of_mem first hname)) h.2
    intro name hname
    unfold child at hname
    split_ifs at hname
    · exact hl name hname
    · exact hl name (List.mem_of_mem_dropLast hname)
    · rcases List.mem_append.1 hname with hname | hname
      · exact hl name hname
      · rw [List.mem_singleton.1 hname]
        exact hnames first List.mem_cons_self

theorem NamesAre.locate (h : NamesAre N d) {path : Text} {t : Target}
    (hpath : ∀ name ∈ steps path, N name) (ht : d.locate path = .ok t) :
    ∀ name ∈ t.location, N name := by
  obtain ⟨-, hwalk, -⟩ := locate_eq_ok.1 ht
  refine names_of_walk ?_ hpath hwalk
  unfold origin
  split_ifs
  · simp
  · exact h.current

theorem NamesAre.createDirectories (h : NamesAre N d)
    (hN : ∀ path : Text, path.any (·.toNat == 0) = false → ∀ name ∈ steps path, N name)
    {path : Text} (hd : d.createDirectories path = .ok d') : NamesAre N d' := by
  refine createDirectoriesFrom_induction (motive := NamesAre N) ?_ h hd
  intro d d' path h hcreate
  obtain ⟨t, ht, -, -, rfl⟩ := createDirectory_eq_ok.1 hcreate
  exact h.put (h.locate (hN path (locate_eq_ok.1 ht).1.1) ht) _

end Disk

end MissionScript
