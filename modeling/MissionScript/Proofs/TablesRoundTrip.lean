import MissionScript.Proofs.TablesLexing
import MissionScript.Proofs.Yaml.EntryNodes
import MissionScript.Symbols.OfYaml

/-!
# Written tables are read back

The tokens of written tables make up a mapping with two entries (`ofTokens?_tokens`), and the values
of these are the tables (`ofNode?_node`). Printable names are written in one of two styles, and both
are read as the name, so the tables that are read back are the ones that were written. Of the
strings that a text lists all are read or none, and none if they are too many
(`tables_survive_export`).
-/

namespace MissionScript

/-! ## Tables of entries -/

namespace ByteMap

variable {α : Type}

/-- Entries that a table holds do not change it where it is already right. -/
theorem get?_foldl_insert {m : ByteMap α} {k : UInt8} :
    ∀ (entries : List (UInt8 × α)) (n : ByteMap α), (∀ e ∈ entries, m.get? e.1 = some e.2) →
      n.get? k = m.get? k → (entries.foldl (fun m e => m.insert e.1 e.2) n).get? k = m.get? k
  | [], n, _, hn => hn
  | e :: entries, n, h, hn => by
    refine get?_foldl_insert entries _ (fun d hd => h d (List.mem_cons_of_mem e hd)) ?_
    rw [get?_insert]
    split_ifs with hk
    · rw [hk, h e List.mem_cons_self]
    · exact hn

theorem get?_foldl_insert_of_mem {m : ByteMap α} {k : UInt8} {v : α} :
    ∀ (entries : List (UInt8 × α)) (n : ByteMap α), (∀ e ∈ entries, m.get? e.1 = some e.2) →
      (k, v) ∈ entries → (entries.foldl (fun m e => m.insert e.1 e.2) n).get? k = m.get? k
  | e :: entries, n, h, hmem => by
    have hmore : ∀ d ∈ entries, m.get? d.1 = some d.2 := fun d hd => h d (List.mem_cons_of_mem e hd)
    rcases List.mem_cons.1 hmem with rfl | hmem
    · refine get?_foldl_insert entries _ hmore ?_
      rw [get?_insert, if_pos rfl, h (k, v) List.mem_cons_self]
    · exact get?_foldl_insert_of_mem entries _ hmore hmem

theorem ofList_toList (m : ByteMap α) : ofList m.toList = m := by
  have hall : ∀ e ∈ m.toList, m.get? e.1 = some e.2 := fun _ he => mem_toList.1 he
  refine ByteMap.ext (funext fun k => ?_)
  cases hk : m.get? k with
  | none => exact (get?_foldl_insert m.toList empty hall hk.symm).trans hk
  | some v => exact (get?_foldl_insert_of_mem m.toList empty hall (mem_toList.2 hk)).trans hk

end ByteMap

open Yaml (Node)
open Yaml.Node (Reads ReadsEntries)
open Yaml.Scalar (readStyle)

namespace SymbolTables

/-! ## Nodes -/

/-- A name as it is read. -/
def nameNode (name : String) : Node := .scalar none none (readStyle name.toList) name.toList

def namesNode (names : List (UInt8 × String)) : Node :=
  .mapping none (names.map fun e =>
    (.scalar none none .plain (Text.decimal e.1.toNat), nameNode e.2))

def stringsNode : Option StringTable → Node
  | none => .scalar none none .plain "null".toList
  | some table => .sequence none (table.names.map nameNode)

def functionsNode (functions : FunctionTable) : Node :=
  .mapping none
    [(.scalar none none .plain "keyword_threshold".toList,
        .scalar none none .plain (Text.decimal functions.keywordThreshold.toNat)),
      (.scalar none none .plain "names".toList, namesNode functions.names.toList)]

/-- The document of the written tables. -/
def node (tables : SymbolTables) : Node :=
  .mapping none
    [(.scalar none none .plain "functions".toList, functionsNode tables.functions),
      (.scalar none none .plain "strings".toList, stringsNode tables.strings)]

theorem readsEntries_names : ∀ names : List (UInt8 × String),
    ReadsEntries (names.flatMap (fun e => [.key, .scalar .plain (Text.decimal e.1.toNat), .value,
        .scalar (readStyle e.2.toList) e.2.toList]) ++ [.blockEnd])
      (names.map fun e => (.scalar none none .plain (Text.decimal e.1.toNat), nameNode e.2))
  | [] => .nil
  | e :: names => by
    have hentry := ReadsEntries.cons (Text.decimal e.1.toNat)
      (.scalar (readStyle e.2.toList) e.2.toList) (readsEntries_names names)
    rw [List.flatMap_cons, List.append_assoc]
    exact hentry

theorem reads_nameTokens (names : List (UInt8 × String)) :
    Reads (nameTokens names) (namesNode names) := by
  rcases names with _ | ⟨e, names⟩
  · exact .emptyMapping
  · exact .mapping (readsEntries_names (e :: names))

theorem reads_stringTokens (strings : Option StringTable) :
    Reads (stringTokens strings) (stringsNode strings) := by
  cases strings with
  | none => exact .scalar .plain "null".toList
  | some table =>
    rw [stringTokens_some]
    by_cases hempty : table.names = []
    · simpa [stringsNode, hempty] using Reads.emptySequence
    · have hitems : table.names.map (fun t => (readStyle t.toList, t.toList)) ≠ [] := by
        simpa using hempty
      have hreads := Reads.items hitems
      rw [List.flatMap_map, List.map_map] at hreads
      rw [if_neg (by simpa using hempty)]
      exact hreads

theorem ofTokens?_tokens (tables : SymbolTables) :
    Node.ofTokens? tables.tokens = some tables.node := by
  have hfunctions := ReadsEntries.cons "keyword_threshold".toList
    (.scalar .plain (Text.decimal tables.functions.keywordThreshold.toNat))
    (.cons "names".toList (reads_nameTokens tables.functions.names.toList) .nil)
  have htables := ReadsEntries.cons "functions".toList (.mapping hfunctions)
    (.cons "strings".toList (reads_stringTokens tables.strings) .nil)
  have hnode := Node.ofTokens?_mapping htables
  simpa [tokens, node, functionsNode] using hnode

/-! ## Values -/

theorem natural?_decimal (b : UInt8) :
    Yaml.Plain.natural? (Text.decimal b.toNat) = some b.toNat := by
  have hall : ∀ n < 256, Yaml.Plain.natural? (Text.decimal n) = some n := by decide +kernel
  exact hall _ b.toNat_lt

theorem byte?_decimal (root : Node) (b : UInt8) :
    byte? root (.scalar none none .plain (Text.decimal b.toNat)) = some b := by
  unfold byte?
  simp only [deref, Option.bind_eq_bind, Option.bind_some, true_or, if_true, natural?_decimal]
  rw [if_pos b.toNat_lt, UInt8.ofNat_toNat]

theorem name?_nameNode (root : Node) (name : String) : name? root (nameNode name) = some name := by
  simp [name?, text?, deref, nameNode]

/-- Reading undoes writing item by item. -/
theorem mapM_map_eq_some {α β : Type} {write : α → β} {read : β → Option α}
    (h : ∀ x, read (write x) = some x) : ∀ l : List α, (l.map write).mapM read = some l
  | [] => rfl
  | x :: l => by simp [List.mapM_cons, h x, mapM_map_eq_some h l]

theorem names?_namesNode (root : Node) (names : List (UInt8 × String)) :
    names? root (namesNode names) = some (ByteMap.ofList names) := by
  have hentries : entries? root (namesNode names) = some (names.map fun e =>
    (.scalar none none .plain (Text.decimal e.1.toNat), nameNode e.2)) := rfl
  rw [names?, hentries]
  simp only [Option.bind_eq_bind, Option.bind_some]
  rw [mapM_map_eq_some]
  · rfl
  · intro e
    simp [byte?_decimal, name?_nameNode]

theorem field?_pair {a b : String} (hne : a ≠ b) (root v w : Node) :
    field? root a
        [(.scalar none none .plain a.toList, v), (.scalar none none .plain b.toList, w)]
          = some (some v)
      ∧ field? root b
        [(.scalar none none .plain a.toList, v), (.scalar none none .plain b.toList, w)]
          = some (some w) := by
  have hne' : a.toList ≠ b.toList := fun h => hne (String.toList_inj.1 h)
  simp [field?, text?, deref, hne', hne'.symm]

theorem functions?_functionsNode (root : Node) (functions : FunctionTable) :
    functions? root (functionsNode functions) = some functions := by
  have hentries : entries? root (functionsNode functions) = some
    [(.scalar none none .plain "keyword_threshold".toList,
        .scalar none none .plain (Text.decimal functions.keywordThreshold.toNat)),
      (.scalar none none .plain "names".toList, namesNode functions.names.toList)] := rfl
  have hne : "keyword_threshold" ≠ "names" := by decide
  unfold functions? required?
  rw [hentries]
  simp only [Option.bind_eq_bind, Option.bind_some]
  rw [(field?_pair hne root _ _).1, (field?_pair hne root _ _).2]
  simp only [Option.join_some, Option.bind_some, byte?_decimal, names?_namesNode,
    ByteMap.ofList_toList]

theorem strings?_stringsNode (root : Node) (strings : Option StringTable) :
    strings? root (some (stringsNode strings)) = some strings := by
  cases strings with
  | none => rfl
  | some table =>
    have hitems : items? root (stringsNode (some table)) = some (table.names.map nameNode) := rfl
    have hderef : deref root (stringsNode (some table)) = some (stringsNode (some table)) := rfl
    have hnothing : isNothing (stringsNode (some table)) = some false := rfl
    have htable : StringTable.ofList table.names = .ok table := dif_pos table.length_le
    unfold strings?
    simp [hderef, hnothing, hitems, mapM_map_eq_some (name?_nameNode root), htable]

theorem ofNode?_node (tables : SymbolTables) : ofNode? tables.node = some tables := by
  have hentries : entries? tables.node tables.node = some
    [(.scalar none none .plain "functions".toList, functionsNode tables.functions),
      (.scalar none none .plain "strings".toList, stringsNode tables.strings)] := rfl
  have hne : "functions" ≠ "strings" := by decide
  unfold ofNode? required?
  rw [hentries]
  simp only [Option.bind_eq_bind, Option.bind_some]
  rw [(field?_pair hne _ _ _).1, (field?_pair hne _ _ _).2]
  simp only [Option.join_some, Option.bind_some, functions?_functionsNode, strings?_stringsNode]

theorem ofYaml?_toYaml {tables : SymbolTables} (h : tables.PrintableNames) :
    ofYaml? tables.toYaml = some tables := by
  rw [ofYaml?, scan_toYaml h, Option.bind_some, ofTokens?_tokens, Option.bind_some, ofNode?_node]

/-! ## The number of strings -/

/-- The strings that a text lists, however many they are. -/
def listedStrings? (yaml : Text) : Option (List String) := do
  let root ← (Yaml.Token.scan yaml).bind Node.ofTokens?
  let list ← deref root (← required? root "strings" (← entries? root root))
  (← items? root list).mapM (name? root)

/-- What reading the tables says of their strings: the field that holds them, if any. -/
theorem strings?_of_ofYaml? {yaml : Text} {tables : SymbolTables} (h : ofYaml? yaml = some tables) :
    ∃ root entries field, (Yaml.Token.scan yaml).bind Node.ofTokens? = some root ∧
      entries? root root = some entries ∧ field? root "strings" entries = some field ∧
      strings? root field = some tables.strings := by
  obtain ⟨tokens, hscan, h⟩ := Option.bind_eq_some_iff.1 h
  obtain ⟨root, hroot, h⟩ := Option.bind_eq_some_iff.1 h
  unfold ofNode? at h
  obtain ⟨entries, hentries, h⟩ := Option.bind_eq_some_iff.1 h
  obtain ⟨functions, -, h⟩ := Option.bind_eq_some_iff.1 h
  obtain ⟨field, hfield, h⟩ := Option.bind_eq_some_iff.1 h
  obtain ⟨table, -, h⟩ := Option.bind_eq_some_iff.1 h
  obtain ⟨strings, hstrings, h⟩ := Option.bind_eq_some_iff.1 h
  obtain rfl := Option.some.inj h
  exact ⟨root, entries, field, by rw [hscan, Option.bind_some, hroot], hentries, hfield, hstrings⟩

theorem listedStrings?_eq {yaml : Text} {root v n : Node} {entries : List (Node × Node)}
    (hroot : (Yaml.Token.scan yaml).bind Node.ofTokens? = some root)
    (hentries : entries? root root = some entries)
    (hfield : field? root "strings" entries = some (some v)) (hderef : deref root v = some n) :
    listedStrings? yaml = (items? root n).bind fun items => items.mapM (name? root) := by
  rw [listedStrings?, hroot]
  simp only [Option.bind_eq_bind, Option.bind_some, hentries, required?, hfield, Option.join_some,
    hderef]

theorem items?_of_isNothing {root n : Node} {items : List Node} (hnothing : isNothing n = some true)
    (hitems : items? root n = some items) : items = [] := by
  cases n with
  | scalar anchor tag style text =>
    unfold items? at hitems
    simp only [deref, Option.bind_eq_bind, Option.bind_some] at hitems
    split_ifs at hitems
    exact (Option.some.inj hitems).symm
  | _ => simp [isNothing] at hnothing

theorem strings?_eq_some {root v : Node} {strings : Option StringTable}
    (h : strings? root (some v) = some strings) :
    ∃ n, deref root v = some n ∧ ((isNothing n = some true ∧ strings = none)
      ∨ ∃ table items, strings = some table ∧ items? root n = some items
        ∧ items.mapM (name? root) = some table.names) := by
  unfold strings? at h
  obtain ⟨n, hderef, h⟩ := Option.bind_eq_some_iff.1 h
  obtain ⟨nothing, hnothing, h⟩ := Option.bind_eq_some_iff.1 h
  refine ⟨n, hderef, ?_⟩
  cases nothing with
  | true => exact Or.inl ⟨hnothing, (Option.some.inj h).symm⟩
  | false =>
    obtain ⟨items, hitems, h⟩ := Option.bind_eq_some_iff.1 h
    obtain ⟨names, hnames, h⟩ := Option.bind_eq_some_iff.1 h
    unfold StringTable.ofList at h
    split_ifs at h with hlength
    exact Or.inr ⟨⟨names, hlength⟩, items, (Option.some.inj h).symm, hitems, hnames⟩

/-- The strings that are read are those that are listed; if none are read, none are listed. -/
theorem listedStrings?_of_ofYaml? {yaml : Text} {tables : SymbolTables}
    (h : ofYaml? yaml = some tables) :
    match tables.strings with
    | some table => listedStrings? yaml = some table.names
    | none => ∀ names, listedStrings? yaml = some names → names = [] := by
  obtain ⟨root, entries, field, hroot, hentries, hfield, hstrings⟩ := strings?_of_ofYaml? h
  cases field with
  | none =>
    have hnone : tables.strings = none := (Option.some.inj hstrings).symm
    rw [hnone]
    intro names hlisted
    rw [listedStrings?, hroot] at hlisted
    simp only [Option.bind_eq_bind, Option.bind_some, hentries, required?, hfield, Option.join_some,
      Option.bind_none, reduceCtorEq] at hlisted
  | some v =>
    obtain ⟨n, hderef, ⟨hnothing, hnone⟩ | ⟨table, items, hsome, hitems, hnames⟩⟩ :=
      strings?_eq_some hstrings
    · rw [hnone]
      intro names hlisted
      rw [listedStrings?_eq hroot hentries hfield hderef] at hlisted
      obtain ⟨items, hitems, hnames⟩ := Option.bind_eq_some_iff.1 hlisted
      rw [items?_of_isNothing hnothing hitems] at hnames
      exact (Option.some.inj hnames).symm
    · rw [hsome]
      exact (listedStrings?_eq hroot hentries hfield hderef).trans
        (by rw [hitems, Option.bind_some, hnames])

/-- Tables with printable names survive being written and read, and no text gives a table with more
strings than an index can address: the strings of a table are those that the text lists, and a text
that lists too many is refused. -/
theorem tables_survive_export :
    (∀ tables : SymbolTables, tables.PrintableNames → ofYaml? tables.toYaml = some tables)
    ∧ (∀ (yaml : Text) (tables : SymbolTables) (table : StringTable), ofYaml? yaml = some tables →
        tables.strings = some table →
        listedStrings? yaml = some table.names ∧ table.names.length ≤ 128)
    ∧ ∀ (yaml : Text) (names : List String), listedStrings? yaml = some names → 128 < names.length →
        ofYaml? yaml = none := by
  refine ⟨fun tables h => ofYaml?_toYaml h, fun yaml tables table h htable => ?_,
    fun yaml names hlisted hlong => ?_⟩
  · have hlisted := listedStrings?_of_ofYaml? h
    rw [htable] at hlisted
    exact ⟨hlisted, table.length_le⟩
  · rw [Option.eq_none_iff_forall_ne_some]
    intro tables h
    have hread := listedStrings?_of_ofYaml? h
    cases htable : tables.strings with
    | none =>
      rw [htable] at hread
      rw [hread names hlisted] at hlong
      exact absurd hlong (by simp)
    | some table =>
      rw [htable] at hread
      have heq : names = table.names := Option.some.inj (hlisted.symm.trans hread)
      have hshort := table.length_le
      rw [heq] at hlong
      omega

/-- Names that need care: without characters, with spaces at an end, with quotes and indicators, and
words that read as something else than a name. -/
def awkward : SymbolTables where
  functions := ⟨128, .ofList [(0, ""), (7, " lead"), (9, "trail "), (12, "it's"), (128, "null"),
    (130, "12"), (200, "- a: b #c"), (255, "true")]⟩
  strings := some ⟨["\"q\"", "[x]", "~", "1e3", "-", "0x1F", "---", "a:b"], by decide⟩

/-- A text that lists one string more than a table holds. -/
def crowded : Text :=
  "functions: \x7bkeyword_threshold: 0, names: \x7b\x7d\x7d\nstrings: [".toList
    ++ (List.replicate 129 "a,".toList).flatten ++ "]".toList

theorem tables_survive_export_awkward :
    awkward.PrintableNames ∧ ofYaml? awkward.toYaml = some awkward
    ∧ listedStrings? awkward.toYaml
      = some ["\"q\"", "[x]", "~", "1e3", "-", "0x1F", "---", "a:b"]
    ∧ listedStrings? crowded = some (List.replicate 129 "a") ∧ ofYaml? crowded = none := by
  have hnames : ∀ e ∈ awkward.functions.names.toList, Text.IsPrintable e.2.toList := by
    decide +kernel
  have hprintable : awkward.PrintableNames := by
    refine ⟨fun id name h => hnames (id, name) (ByteMap.mem_toList.2 h), ?_⟩
    rintro table ⟨⟩
    decide
  have hcrowded : listedStrings? crowded = some (List.replicate 129 "a") := by decide +kernel
  have hread := tables_survive_export.1 awkward hprintable
  exact ⟨hprintable, hread, (tables_survive_export.2.1 _ awkward _ hread rfl).1, hcrowded,
    tables_survive_export.2.2 crowded _ hcrowded (by simp)⟩

end SymbolTables

end MissionScript
