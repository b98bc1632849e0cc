import MissionScript.Proofs.UnitTurns

/-!
# Finding the units of a directory

A directory is searched along the pieces of its path. The search goes where the path leads
(`descend_start_iff`), with one exception: behind single dots at the start of a relative path it
does not get past an empty name, and finds nothing (`findUnits_eq_nil`). In any other case the units
found are the entries of the directory that are named as units, each once and in the order of their
names (`finds_findUnits`).
-/

namespace MissionScript

namespace Disk

variable {d : Disk}

/-! ## Directories -/

/-- From a place, the names lead to a directory. -/
def WalksTo (d : Disk) (l : Location) (names : List Text) (l' : Location) : Prop :=
  d.walk l names = .ok l' ∧ d.get? l' = some .directory

theorem walksTo_nil {l l' : Location} :
    d.WalksTo l [] l' ↔ l = l' ∧ d.get? l = some .directory := by
  unfold WalksTo
  rw [walk, Except.ok.injEq]
  constructor
  · rintro ⟨rfl, h⟩
    exact ⟨rfl, h⟩
  · rintro ⟨rfl, h⟩
    exact ⟨rfl, h⟩

theorem walksTo_cons {l l' : Location} {name : Text} {names : List Text} :
    d.WalksTo l (name :: names) l' ↔
      d.get? l = some .directory ∧ d.WalksTo (child l name) names l' := by
  rw [WalksTo, walk_cons_eq_ok, and_assoc]
  rfl

theorem WalksTo.directory {l l' : Location} : ∀ {names : List Text}, d.WalksTo l names l' →
    d.get? l = some .directory
  | [], h => (walksTo_nil.1 h).2
  | _ :: _, h => (walksTo_cons.1 h).1

theorem walksTo_append {l' : Location} {names' : List Text} :
    ∀ {names : List Text} {l : Location},
      d.WalksTo l (names ++ names') l' ↔ ∃ m, d.WalksTo l names m ∧ d.WalksTo m names' l'
  | [], l => by
    simp only [List.nil_append, walksTo_nil]
    exact ⟨fun h => ⟨l, ⟨rfl, h.directory⟩, h⟩, by rintro ⟨m, ⟨rfl, -⟩, h⟩; exact h⟩
  | name :: names, l => by
    simp only [List.cons_append, walksTo_cons, walksTo_append, and_assoc,
      exists_and_left]

theorem WalksTo.walk_concat {l l' : Location} (name : Text) : ∀ {names : List Text},
    d.WalksTo l names l' → d.walk l (names ++ [name]) = .ok (child l' name)
  | [], h => by
    obtain ⟨rfl, hdir⟩ := walksTo_nil.1 h
    exact walk_cons_eq_ok.2 ⟨hdir, rfl⟩
  | _ :: _, h => by
    obtain ⟨hdir, h⟩ := walksTo_cons.1 h
    exact walk_cons_eq_ok.2 ⟨hdir, h.walk_concat name⟩

/-- A path with a zero character leads nowhere. -/
def hasZero (path : Text) : Bool := path.any (·.toNat == 0)

theorem directoryAt_iff {path : Text} {l : Location} : d.DirectoryAt path l ↔
    path ≠ [] ∧ hasZero path = false ∧ d.WalksTo (d.origin path) (steps path) l := by
  constructor
  · rintro ⟨⟨t, ht, rfl⟩, hdir⟩
    obtain ⟨⟨hzero, hempty⟩, hwalk, -⟩ := locate_eq_ok.1 ht
    exact ⟨by simpa using hempty, hzero, hwalk, hdir⟩
  · rintro ⟨hempty, hzero, hwalk, hdir⟩
    have hlocate := locate_eq_ok (t := ⟨l, _, _⟩).2
      ⟨⟨hzero, by simpa using hempty⟩, hwalk, rfl, rfl⟩
    exact ⟨⟨_, hlocate, rfl⟩, hdir⟩

theorem hasEntry_of_directoryAt {path : Text} {l : Location} (h : d.DirectoryAt path l) :
    d.hasEntry path = true := by
  rw [hasEntry, entry_eq_directory.2 ⟨l, h⟩]
  rfl

theorem ne_nil_of_hasEntry {path : Text} (h : d.hasEntry path = true) : path ≠ [] := by
  rintro rfl
  exact absurd h (by simp [hasEntry, entry, locate, bind, Except.bind, Except.toBool])

end Disk

namespace Batch

open Disk (DirectoryAt WalksTo steps hasZero)

variable {d : Disk}

/-! ## One name further -/

/-- The path to show with one more piece; a single dot alone is left out. -/
def onward (shown piece : Text) : Text := if shown = ['.'] then piece else Path.join shown piece

theorem onward_dot (piece : Text) : onward ['.'] piece = piece := rfl

/-- A path that goes on with one more piece, with a slash between if need be. -/
theorem exists_join {shown piece : Text} (hshown : shown ≠ []) (hpiece : '/' ∉ piece) :
    ∃ front, (shown = front ∨ shown = front ++ ['/'])
      ∧ Path.join shown piece = front ++ '/' :: piece := by
  unfold Path.join
  rw [Path.isAbsolute_eq_false hpiece, Bool.false_or, if_neg (by simpa using hshown)]
  split_ifs with hslash
  · obtain ⟨front, rfl⟩ := List.getLast?_eq_some_iff.1 (beq_iff_eq.1 hslash)
    exact ⟨front, Or.inr rfl, by simp⟩
  · exact ⟨shown, Or.inl rfl, rfl⟩

theorem steps_append (front back : Text) :
    steps (front ++ '/' :: back) = steps front ++ steps back := by
  rw [steps, Path.pieces_append, List.filter_append]
  rfl

theorem steps_of_not_mem {piece : Text} (h : '/' ∉ piece) :
    steps piece = [piece].filter (!·.isEmpty) := by
  rw [steps, Path.pieces_of_not_mem h]

theorem hasZero_append (front back : Text) :
    hasZero (front ++ '/' :: back) = (hasZero front || hasZero back) := by
  simp [hasZero]

/-- What a path that goes on with one more piece is followed by. -/
theorem join_eq {shown piece : Text} (hshown : shown ≠ []) (hpiece : '/' ∉ piece) :
    Path.join shown piece ≠ [] ∧ Path.join shown piece ≠ ['.']
      ∧ Path.isAbsolute (Path.join shown piece) = Path.isAbsolute shown
      ∧ hasZero (Path.join shown piece) = (hasZero shown || hasZero piece)
      ∧ steps (Path.join shown piece) = steps shown ++ steps piece := by
  obtain ⟨front, hfront, hjoin⟩ := exists_join hshown hpiece
  rw [hjoin]
  refine ⟨by simp, ?_, ?_, ?_, ?_⟩
  · intro h
    have hmem : '/' ∈ ['.'] := h ▸ by simp
    simp at hmem
  · rcases hfront with rfl | rfl
    · rw [Path.isAbsolute, Path.isAbsolute, List.head?_append_of_ne_nil _ hshown]
    · cases front <;> rfl
  · rw [hasZero_append]
    rcases hfront with rfl | rfl
    · rfl
    · rw [hasZero_append]
      simp [hasZero]
  · rw [steps_append]
    rcases hfront with rfl | rfl
    · rfl
    · rw [steps_append]
      simp [steps, Path.pieces]

theorem onward_ne_nil {shown piece : Text} (hshown : shown ≠ []) (hpiece : '/' ∉ piece)
    (h : shown = ['.'] → piece ≠ []) : onward shown piece ≠ [] := by
  unfold onward
  split_ifs with hdot
  · exact h hdot
  · exact (join_eq hshown hpiece).1

theorem directoryAt_dot {l : Location} :
    d.DirectoryAt ['.'] l ↔ d.current = l ∧ d.get? l = some .directory := by
  have hsteps : steps ['.'] = [['.']] := by decide
  rw [Disk.directoryAt_iff, hsteps, Disk.walksTo_cons, Disk.walksTo_nil]
  have horigin : d.origin ['.'] = d.current := rfl
  have hchild : Disk.child d.current ['.'] = d.current := rfl
  rw [horigin, hchild]
  constructor
  · rintro ⟨-, -, h, rfl, -⟩
    exact ⟨rfl, h⟩
  · rintro ⟨rfl, h⟩
    exact ⟨by simp, by decide, h, rfl, h⟩

/-- With one more piece a path leads to a directory if it did so before and the piece leads on. -/
theorem directoryAt_onward {shown piece : Text} {l' : Location} (hshown : shown ≠ [])
    (hpiece : '/' ∉ piece) (hne : onward shown piece ≠ []) :
    d.DirectoryAt (onward shown piece) l' ↔
      ∃ l, d.DirectoryAt shown l ∧ hasZero piece = false ∧ d.WalksTo l (steps piece) l' := by
  unfold onward at hne ⊢
  split_ifs at hne ⊢ with hdot
  · subst hdot
    have horigin : d.origin piece = d.current := by
      rw [Disk.origin, Path.isAbsolute_eq_false hpiece]
      rfl
    simp only [directoryAt_dot]
    rw [Disk.directoryAt_iff, horigin]
    constructor
    · rintro ⟨-, hzero, hwalk⟩
      exact ⟨d.current, ⟨rfl, hwalk.directory⟩, hzero, hwalk⟩
    · rintro ⟨l, ⟨rfl, -⟩, hzero, hwalk⟩
      exact ⟨hne, hzero, hwalk⟩
  · obtain ⟨-, -, habsolute, hzero, hsteps⟩ := join_eq hshown hpiece
    have horigin : d.origin (Path.join shown piece) = d.origin shown := by
      rw [Disk.origin, habsolute, Disk.origin]
    rw [Disk.directoryAt_iff, horigin, hzero, hsteps, Disk.walksTo_append, Bool.or_eq_false_iff]
    simp only [Disk.directoryAt_iff]
    constructor
    · rintro ⟨-, ⟨hzero, hzero'⟩, l, hwalk, hwalk'⟩
      exact ⟨l, ⟨hshown, hzero, hwalk⟩, hzero', hwalk'⟩
    · rintro ⟨l, ⟨-, hzero, hwalk⟩, hzero', hwalk'⟩
      exact ⟨hne, ⟨hzero, hzero'⟩, l, hwalk, hwalk'⟩

/-! ## All names of a directory -/

/-- No empty path is come by on the way along the pieces. -/
def Passes : Text → List Text → Prop
  | _, [] => True
  | shown, piece :: more => onward shown piece ≠ [] ∧ Passes (onward shown piece) more

theorem descend_cons (shown piece : Text) (more : List Text) :
    descend d shown (piece :: more)
      = if (if piece = ['.'] ∨ piece = ['.', '.'] then d.isDirectory shown
            else d.hasEntry (onward shown piece)) = true
        then descend d (onward shown piece) more else none := rfl

/-- The search goes along a path that leads to a directory and gives this path to show. -/
theorem descend_eq_some {shown' : Text} {l' : Location} :
    ∀ {pieces : List Text} {shown : Text}, shown ≠ [] → (∀ piece ∈ pieces, '/' ∉ piece) →
      (descend d shown pieces = some shown' ∧ d.DirectoryAt shown' l' ↔
        Passes shown pieces ∧ shown' = pieces.foldl onward shown
          ∧ ∃ l, d.DirectoryAt shown l ∧ (∀ piece ∈ pieces, hasZero piece = false)
            ∧ d.WalksTo l (pieces.filter (!·.isEmpty)) l')
  | [], shown, _, _ => by
    simp only [descend, Passes, Option.some.injEq, List.foldl_nil, List.filter_nil,
      Disk.walksTo_nil, true_and, List.not_mem_nil, false_implies, implies_true]
    constructor
    · rintro ⟨rfl, h⟩
      exact ⟨rfl, l', h, rfl, h.2⟩
    · rintro ⟨rfl, l, h, rfl, -⟩
      exact ⟨rfl, h⟩
  | piece :: more, shown, hshown, hpieces => by
    have hpiece := hpieces piece List.mem_cons_self
    have hmore : ∀ piece ∈ more, '/' ∉ piece := fun piece h => hpieces piece (.tail _ h)
    have hfilter : (piece :: more).filter (!·.isEmpty)
        = steps piece ++ more.filter (!·.isEmpty) := by
      rw [steps_of_not_mem hpiece, ← List.filter_append]
      rfl
    rw [descend_cons, hfilter, List.foldl_cons, Passes, List.forall_mem_cons]
    simp only [Disk.walksTo_append]
    constructor
    · rintro ⟨hdescend, hdir⟩
      have hstep : onward shown piece ≠ []
          ∧ descend d (onward shown piece) more = some shown' := by
        split_ifs at hdescend with hdots hreached hreached
        · exact ⟨onward_ne_nil hshown hpiece fun _ hnil => by simp [hnil] at hdots, hdescend⟩
        · exact ⟨Disk.ne_nil_of_hasEntry hreached, hdescend⟩
      obtain ⟨hne, hdescend⟩ := hstep
      obtain ⟨hpasses, rfl, l, hl, hzero, hwalk⟩ := (descend_eq_some hne hmore).1 ⟨hdescend, hdir⟩
      obtain ⟨l₀, hl₀, hzero₀, hwalk₀⟩ := (directoryAt_onward hshown hpiece hne).1 hl
      exact ⟨⟨hne, hpasses⟩, rfl, l₀, hl₀, ⟨hzero₀, hzero⟩, l, hwalk₀, hwalk⟩
    · rintro ⟨⟨hne, hpasses⟩, rfl, l₀, hl₀, ⟨hzero₀, hzero⟩, l, hwalk₀, hwalk⟩
      have hl := (directoryAt_onward hshown hpiece hne).2 ⟨l₀, hl₀, hzero₀, hwalk₀⟩
      rw [if_pos]
      · exact (descend_eq_some hne hmore).2 ⟨hpasses, rfl, l, hl, hzero, hwalk⟩
      · split_ifs
        · exact Disk.isDirectory_iff.2 ⟨l₀, hl₀⟩
        · exact Disk.hasEntry_of_directoryAt hl

theorem passes_of_ne_dot : ∀ {pieces : List Text} {shown : Text}, shown ≠ [] → shown ≠ ['.'] →
    (∀ piece ∈ pieces, '/' ∉ piece) → Passes shown pieces
  | [], _, _, _, _ => trivial
  | piece :: more, shown, hshown, hdot, hpieces => by
    obtain ⟨hne, hne', -⟩ := join_eq hshown (hpieces piece List.mem_cons_self)
    have honward : onward shown piece = Path.join shown piece := if_neg hdot
    rw [Passes, honward]
    exact ⟨hne, passes_of_ne_dot hne hne' fun piece h => hpieces piece (.tail _ h)⟩

theorem passes_dot_iff : ∀ {pieces : List Text}, (∀ piece ∈ pieces, '/' ∉ piece) →
    (Passes ['.'] pieces ↔ (pieces.dropWhile (· == ['.'])).head? ≠ some [])
  | [], _ => by simp [Passes]
  | piece :: more, hpieces => by
    have hmore : ∀ piece ∈ more, '/' ∉ piece := fun piece h => hpieces piece (.tail _ h)
    rw [Passes, onward_dot]
    by_cases hdot : piece = ['.']
    · rw [hdot, passes_dot_iff hmore]
      simp
    · rw [List.dropWhile_cons_of_neg (by simpa using hdot)]
      simp only [List.head?_cons, ne_eq, Option.some.injEq, and_iff_left_iff_imp]
      exact fun hne => passes_of_ne_dot hne hdot hmore

/-! ## The path of a directory -/

/-- Where the search for a directory starts. -/
def start (dir : Text) : Text := if Path.isAbsolute dir then ['/'] else ['.']

/-- A relative path with an empty name behind the single dots at its start, as `.//missions`. The
search does not get past such a name. -/
def DotsThenEmpty (dir : Text) : Prop :=
  Path.isAbsolute dir = false ∧ ((directoryPieces dir).dropWhile (· == ['.'])).head? = some []

/-- The directory of the path is at the place; the empty path stays in the current directory. -/
def Leads (d : Disk) (dir : Text) (l : Location) : Prop :=
  d.DirectoryAt (if dir = [] then ['.'] else dir) l

theorem hasZero_eq_any_pieces : ∀ path : Text, hasZero path = (Path.pieces path).any hasZero
  | [] => rfl
  | c :: path => by
    have ih := hasZero_eq_any_pieces path
    rw [hasZero] at ih ⊢
    rw [Path.pieces, List.any_cons, ih]
    split_ifs with hc
    · simp [hc, hasZero]
    · cases Path.pieces path <;> simp [hasZero, Bool.or_assoc]

theorem dropSlash_eq (path : Text) :
    hasZero (path.drop 1) = hasZero path ∧ steps (path.drop 1) = steps path
      ∨ Path.isAbsolute path = false := by
  cases path with
  | nil => exact Or.inr rfl
  | cons c path =>
    by_cases hc : c = '/'
    · subst hc
      exact Or.inl ⟨by simp [hasZero], by simp [steps, Path.pieces]⟩
    · exact Or.inr (by simp [Path.isAbsolute, hc])

theorem cutSlash_eq (path : Text) :
    hasZero (if path.getLast? == some '/' then path.dropLast else path) = hasZero path
      ∧ steps (if path.getLast? == some '/' then path.dropLast else path) = steps path := by
  split_ifs with hslash
  · obtain ⟨front, rfl⟩ := List.getLast?_eq_some_iff.1 (beq_iff_eq.1 hslash)
    rw [List.dropLast_concat, hasZero_append, steps_append]
    simp [hasZero, steps, Path.pieces]
  · exact ⟨rfl, rfl⟩

/-- The pieces of a directory's path are those of a path that leads to the same place. -/
theorem directoryPieces_eq (dir : Text) :
    (∀ piece ∈ directoryPieces dir, '/' ∉ piece)
      ∧ (directoryPieces dir).any hasZero = hasZero dir
      ∧ (directoryPieces dir).filter (!·.isEmpty) = steps dir := by
  have hdrop : hasZero (if Path.isAbsolute dir then dir.drop 1 else dir) = hasZero dir
      ∧ steps (if Path.isAbsolute dir then dir.drop 1 else dir) = steps dir := by
    split_ifs with habsolute
    · exact (dropSlash_eq dir).resolve_right (by simp [habsolute])
    · exact ⟨rfl, rfl⟩
  unfold directoryPieces
  dsimp only
  generalize (if Path.isAbsolute dir then dir.drop 1 else dir) = path at hdrop
  rw [← hdrop.1, ← hdrop.2]
  by_cases hempty : path = []
  · subst hempty
    exact ⟨by simp, rfl, rfl⟩
  · obtain ⟨hzero, hsteps⟩ := cutSlash_eq path
    rw [if_neg (by simpa using hempty)]
    exact ⟨fun piece h => Path.not_mem_of_mem_pieces h, (hasZero_eq_any_pieces _).symm.trans hzero,
      hsteps⟩

theorem start_ne_nil (dir : Text) : start dir ≠ [] := by
  unfold start
  split_ifs <;> simp

theorem passes_start_iff (dir : Text) :
    Passes (start dir) (directoryPieces dir) ↔ ¬ DotsThenEmpty dir := by
  have hpieces := (directoryPieces_eq dir).1
  unfold start DotsThenEmpty
  split_ifs with habsolute
  · have hpasses : Passes ['/'] (directoryPieces dir) :=
      passes_of_ne_dot (by simp) (by simp) hpieces
    simp [habsolute, hpasses]
  · simp [habsolute, passes_dot_iff hpieces]

theorem directoryAt_start {dir : Text} {l : Location} :
    d.DirectoryAt (start dir) l ↔ d.origin dir = l ∧ d.get? l = some .directory := by
  unfold start Disk.origin
  split_ifs with habsolute
  · have hsteps : steps ['/'] = [] := by decide
    have hzero : hasZero ['/'] = false := by decide
    have horigin : d.origin ['/'] = [] := rfl
    rw [Disk.directoryAt_iff, hsteps, hzero, horigin, Disk.walksTo_nil]
    constructor
    · rintro ⟨-, -, rfl, h⟩
      exact ⟨rfl, h⟩
    · rintro ⟨rfl, h⟩
      exact ⟨by simp, rfl, rfl, h⟩
  · exact directoryAt_dot

/-- The pieces of a directory's path lead from its start to the directory. -/
theorem leads_iff {dir : Text} {l : Location} : Leads d dir l ↔
    ∃ l₀, d.DirectoryAt (start dir) l₀ ∧ (∀ piece ∈ directoryPieces dir, hasZero piece = false)
      ∧ d.WalksTo l₀ ((directoryPieces dir).filter (!·.isEmpty)) l := by
  obtain ⟨-, hzero, hsteps⟩ := directoryPieces_eq dir
  have hzero' : (∀ piece ∈ directoryPieces dir, hasZero piece = false) ↔ hasZero dir = false := by
    rw [← hzero, List.any_eq_false]
    simp
  rw [hzero', hsteps]
  simp only [directoryAt_start]
  unfold Leads
  split_ifs with hempty
  · subst hempty
    have hempty_steps : steps [] = [] := by decide
    rw [directoryAt_dot, hempty_steps]
    simp only [Disk.walksTo_nil]
    constructor
    · rintro ⟨rfl, h⟩
      exact ⟨d.current, ⟨rfl, h⟩, rfl, rfl, h⟩
    · rintro ⟨l₀, ⟨rfl, h⟩, -, rfl, -⟩
      exact ⟨rfl, h⟩
  · rw [Disk.directoryAt_iff]
    constructor
    · rintro ⟨-, hzero, hwalk⟩
      exact ⟨d.origin dir, ⟨rfl, hwalk.directory⟩, hzero, hwalk⟩
    · rintro ⟨l₀, ⟨rfl, -⟩, hzero, hwalk⟩
      exact ⟨hempty, hzero, hwalk⟩

/-- The path under which a directory's units are shown. -/
def shownDirectory (dir : Text) : Text := (directoryPieces dir).foldl onward (start dir)

theorem descend_start_iff {dir shown : Text} {l : Location} :
    descend d (start dir) (directoryPieces dir) = some shown ∧ d.DirectoryAt shown l ↔
      shown = shownDirectory dir ∧ ¬ DotsThenEmpty dir ∧ Leads d dir l := by
  rw [descend_eq_some (start_ne_nil dir) (directoryPieces_eq dir).1, passes_start_iff, leads_iff]
  exact and_left_comm

/-! ## The units found -/

/-- The names of the units in a directory, in ascending order. -/
def unitNames (d : Disk) (l : Location) : List Text :=
  ((d.names l).toList.map String.toList).filter isUnitName

theorem findUnits_of_leads {dir : Text} {l : Location} (hleads : Leads d dir l)
    (hdots : ¬ DotsThenEmpty dir) :
    d.DirectoryAt (shownDirectory dir) l
      ∧ findUnits d dir = (unitNames d l).map (onward (shownDirectory dir)) := by
  obtain ⟨hdescend, hdir⟩ := descend_start_iff.2 ⟨rfl, hdots, hleads⟩
  refine ⟨hdir, ?_⟩
  have hisDirectory := Disk.isDirectory_iff.2 ⟨l, hdir⟩
  obtain ⟨⟨t, ht, rfl⟩, -⟩ := hdir
  unfold start at hdescend
  unfold findUnits
  simp only [hdescend, ht, hisDirectory, if_true]
  rfl

theorem leads_or_not (d : Disk) (dir : Text) : (¬ DotsThenEmpty dir ∧ ∃ l, Leads d dir l)
    ∨ DotsThenEmpty dir ∨ ∀ l, ¬ Leads d dir l := by
  by_cases hdots : DotsThenEmpty dir
  · exact Or.inr (Or.inl hdots)
  · by_cases hleads : ∃ l, Leads d dir l
    · exact Or.inl ⟨hdots, hleads⟩
    · exact Or.inr (Or.inr fun l hl => hleads ⟨l, hl⟩)

theorem findUnits_eq_nil {dir : Text} (h : DotsThenEmpty dir ∨ ∀ l, ¬ Leads d dir l) :
    findUnits d dir = [] := by
  unfold findUnits
  dsimp only
  split
  · rfl
  · rename_i shown hdescend
    split
    · rfl
    · refine if_neg fun hdir => ?_
      obtain ⟨l, hl⟩ := Disk.isDirectory_iff.1 hdir
      obtain ⟨-, hdots, hleads⟩ := descend_start_iff.1 ⟨hdescend, hl⟩
      rcases h with h | h
      · exact hdots h
      · exact h l hleads

end Batch

/-! ## The names in a directory -/

namespace Disk

variable {d : Disk}

/-- A name that a file can have: there is neither a slash nor a zero character in it. -/
@[mk_iff]
structure Admitted (name : Text) : Prop where
  no_slash : '/' ∉ name
  no_zero : hasZero name = false

instance : DecidablePred Admitted := fun name => decidable_of_iff _ (admitted_iff name).symm

theorem NamesAre.no_slash (h : d.NamesAre Admitted) : d.NamesAre fun name => '/' ∉ name where
  entries e he name hname := (h.entries e he name hname).no_slash
  current name hname := (h.current name hname).no_slash

theorem NamesAre.admitted_createDirectories {d' : Disk} (h : d.NamesAre Admitted) {path : Text}
    (hd : d.createDirectories path = .ok d') : d'.NamesAre Admitted := by
  refine h.createDirectories (fun path hzero name hname => ?_) hd
  have hpiece := List.mem_of_mem_filter hname
  have hzeros := Batch.hasZero_eq_any_pieces path
  rw [hasZero, hzero, eq_comm, List.any_eq_false] at hzeros
  exact ⟨Path.not_mem_of_mem_pieces hpiece, by simpa using hzeros name hpiece⟩

end Disk

namespace Batch

open Disk (steps hasZero Admitted)
open MissionScript.Path (IsName EndsIn)

variable {d : Disk}

theorem mem_unitNames {l : Location} {name : Text} :
    name ∈ unitNames d l ↔
      (d.get? (l ++ [name])).isSome = true ∧ isUnitName name = true := by
  rw [unitNames, List.mem_filter, List.mem_map]
  refine and_congr_left fun _ => ?_
  constructor
  · rintro ⟨text, htext, rfl⟩
    exact Disk.mem_names.1 htext
  · intro h
    exact ⟨String.ofList name, Disk.mem_names.2 (by rwa [String.toList_ofList]),
      String.toList_ofList⟩

theorem isUnitName_iff {name : Text} :
    isUnitName name = true ↔ ".tok".toList <:+ name ∧ name ≠ "header.tok".toList := by
  rw [isUnitName, Bool.and_eq_true, List.isSuffixOf_iff_suffix, bne_iff_ne]

theorem pairwise_unitNames (d : Disk) (l : Location) :
    (unitNames d l).Pairwise fun a b => String.ofList a < String.ofList b := by
  refine (List.pairwise_map.2 ?_).filter _
  simpa only [String.ofList_toList] using (d.names l).ascending

/-- One name behind the path of a directory is a path to a place in this directory. -/
theorem locatedAt_onward {shown name : Text} {l : Location} (hshown : d.DirectoryAt shown l)
    (hname : IsName name) (hzero : hasZero name = false) :
    d.LocatedAt (onward shown name) (l ++ [name]) := by
  have hsteps : steps name = [name] := by
    rw [steps_of_not_mem hname.no_slash, List.filter_cons_of_pos (by simp [hname.ne_nil])]
    rfl
  have hchild : Disk.child l name = l ++ [name] := by
    rw [Disk.child, if_neg hname.ne_dot, if_neg hname.ne_dots]
  have hlocated : ∀ {path : Text}, path ≠ [] → hasZero path = false →
      d.walk (d.origin path) (steps path) = .ok (l ++ [name]) → d.LocatedAt path (l ++ [name]) :=
    fun hne hzero hwalk => ⟨⟨_, _, _⟩,
      Disk.locate_eq_ok.2 ⟨⟨hzero, by simpa using hne⟩, hwalk, rfl, rfl⟩, rfl⟩
  unfold onward
  split_ifs with hdot
  · subst hdot
    obtain ⟨rfl, hdir⟩ := directoryAt_dot.1 hshown
    refine hlocated hname.ne_nil hzero ?_
    rw [Disk.origin, Path.isAbsolute_eq_false hname.no_slash, hsteps]
    exact Disk.walk_cons_eq_ok.2 ⟨hdir, congrArg Except.ok hchild⟩
  · obtain ⟨hne, hzero', hwalk⟩ := Disk.directoryAt_iff.1 hshown
    obtain ⟨hjoin, -, habsolute, hzeros, hjoined⟩ := join_eq hne hname.no_slash
    refine hlocated hjoin (by rw [hzeros, hzero', hzero]; rfl) ?_
    rw [Disk.origin, habsolute, hjoined, hsteps, ← hchild]
    exact hwalk.walk_concat name

theorem isName_of_mem_unitNames (hnames : d.NamesAre Admitted) {l : Location} {name : Text}
    (h : name ∈ unitNames d l) : IsName name ∧ hasZero name = false := by
  obtain ⟨hentry, hunit⟩ := mem_unitNames.1 h
  have hadmitted : Admitted name := hnames.of_get? hentry name (by simp)
  obtain ⟨x, rfl⟩ := exists_of_isUnitName hunit
  exact ⟨isName_tok fun hx => hadmitted.no_slash (List.mem_append_left _ hx), hadmitted.no_zero⟩

theorem name_onward (shown : Text) {name : Text} (hname : IsName name) :
    UnitFile.name (onward shown name) = name := by
  have hends : EndsIn (onward shown name) name := by
    unfold onward
    split_ifs
    · exact hname.endsIn
    · exact hname.endsIn_join shown
  rw [UnitFile.name, hends.fileName? hname, Option.getD_some]

/-- The entries of a directory that have the name of a unit, each once, in the order of their
names. -/
structure Finds (d : Disk) (dir : Text) (units : List Text) : Prop where
  ascending : (units.map fun u => String.ofList (UnitFile.name u)).Pairwise (· < ·)
  located : ∀ u ∈ units, ∃ l, Leads d dir l ∧ d.LocatedAt u (l ++ [UnitFile.name u])
  exists_iff : ∀ l, Leads d dir l → ∀ name, (∃ u ∈ units, UnitFile.name u = name) ↔
    (d.get? (l ++ [name])).isSome = true ∧ ".tok".toList <:+ name ∧ name ≠ "header.tok".toList

theorem finds_findUnits (hnames : d.NamesAre Admitted) {dir : Text} (hdots : ¬ DotsThenEmpty dir) :
    Finds d dir (findUnits d dir) := by
  by_cases hleads : ∃ l, Leads d dir l
  · obtain ⟨l, hl⟩ := hleads
    obtain ⟨hshown, hunits⟩ := findUnits_of_leads hl hdots
    have hname : ∀ name ∈ unitNames d l,
        UnitFile.name (onward (shownDirectory dir) name) = name :=
      fun name h => name_onward _ (isName_of_mem_unitNames hnames h).1
    rw [hunits]
    constructor
    · have hmap : (unitNames d l).map (fun name =>
          String.ofList (UnitFile.name (onward (shownDirectory dir) name)))
            = (unitNames d l).map String.ofList :=
        List.map_congr_left fun name h => congrArg String.ofList (hname name h)
      rw [List.map_map, Function.comp_def, hmap]
      exact List.pairwise_map.2 (pairwise_unitNames d l)
    · intro u hu
      obtain ⟨name, hmem, rfl⟩ := List.mem_map.1 hu
      obtain ⟨hisName, hzero⟩ := isName_of_mem_unitNames hnames hmem
      refine ⟨l, hl, ?_⟩
      rw [hname name hmem]
      exact locatedAt_onward hshown hisName hzero
    · intro l' hl' name
      obtain rfl : l' = l := hl'.1.unique hl.1
      rw [← isUnitName_iff, ← mem_unitNames]
      constructor
      · rintro ⟨u, hu, rfl⟩
        obtain ⟨name, hmem, rfl⟩ := List.mem_map.1 hu
        rwa [hname name hmem]
      · exact fun hmem => ⟨_, List.mem_map_of_mem hmem, hname name hmem⟩
  · rw [findUnits_eq_nil (Or.inr fun l hl => hleads ⟨l, hl⟩)]
    exact ⟨.nil, by simp, fun l hl => absurd ⟨l, hl⟩ hleads⟩

end Batch

end MissionScript
