import MissionScript.Proofs.DecodeSteps
import MissionScript.Proofs.EnclosingCalls
import Mathlib.Data.List.Induction

/-!
# What a usage report says

The report of a unit is read off its statements (`get?_collect`): there is an entry for an index
exactly if some statement refers to it, the entry counts the references, and its contexts and
sides are those of the calls around them. A slot has the side of the last statement so far that
assigns it one (`get?_boundAfter`). An entry is made from the references to its index alone
(`get?_foldl_record`), and these are the occurrences of the index in the script
(`exists_iff_exists_reference`).
-/

namespace MissionScript

open Token (openParen)

/-! ## Sides of slots -/

/-- The statement is `slot = Getter ( …` with a getter of the given side, with or without a
reference to slot 0 before the getter. -/
def Assigns (functions : FunctionTable) (tokens : List Token) (slot : UInt8) (side : Side) : Prop :=
  ∃ assign parked getter name rest,
    tokens = .slot slot :: .name assign "=" :: (parked ++ .name getter name :: openParen :: rest)
      ∧ (parked = [] ∨ parked = [.slot 0]) ∧ functions.isKeyword getter = false
      ∧ Side.ofGetter? name = some side

/-- The last of the statements that assigns the slot a side assigns it this one. -/
def LastAssigned (functions : FunctionTable) (statements : List (List Token)) (slot : UInt8)
    (side : Side) : Prop :=
  ∃ earlier tokens later, statements = earlier ++ tokens :: later
    ∧ Assigns functions tokens slot side ∧ ∀ u ∈ later, ∀ side', ¬ Assigns functions u slot side'

/-- The side that a word gives to the call it is the first word of. -/
inductive GivesSide (functions : FunctionTable) (statements : List (List Token)) :
    Token → Side → Prop
  | getter {id : UInt8} {text : String} {side : Side} (h : Side.ofGetter? text = some side) :
      GivesSide functions statements (.name id text) side
  | slot {slot : UInt8} {side : Side} (h : LastAssigned functions statements slot side) :
      GivesSide functions statements (.slot slot) side

variable {functions : FunctionTable} {tokens : List Token} {slot : UInt8} {side : Side}

theorem callName?_bind_eq_some {t : Token} :
    (Reference.callName? functions t).bind Side.ofGetter? = some side ↔
      ∃ id name, t = .name id name ∧ functions.isKeyword id = false
        ∧ Side.ofGetter? name = some side := by
  cases t with
  | name id text =>
    simp only [Reference.callName?]
    split_ifs with hk <;> simp [hk]
  | _ => simp [Reference.callName?]

theorem sideAssignment?_eq_some :
    sideAssignment? functions tokens = some (slot, side) ↔ Assigns functions tokens slot side := by
  constructor
  · intro h
    unfold sideAssignment? at h
    split at h
    · rename_i slot' assign rest
      simp only at h
      split at h
      · rename_i getter paren rest' hrest
        split_ifs at h with hparen
        obtain ⟨side', hside', heq⟩ := Option.map_eq_some_iff.1 h
        simp only [Prod.mk.injEq] at heq
        obtain ⟨rfl, rfl⟩ := heq
        obtain ⟨id, name, rfl, hkeyword, hside⟩ := callName?_bind_eq_some.1 hside'
        subst hparen
        split_ifs at hrest with hpark
        · obtain ⟨more, rfl⟩ := List.head?_eq_some_iff.1 hpark
          rw [List.tail_cons] at hrest
          subst hrest
          exact ⟨assign, [.slot 0], id, name, rest', rfl, Or.inr rfl, hkeyword, hside⟩
        · subst hrest
          exact ⟨assign, [], id, name, rest', rfl, Or.inl rfl, hkeyword, hside⟩
      · simp at h
    · simp at h
  · rintro ⟨assign, parked, getter, name, rest, rfl, rfl | rfl, hkeyword, hside⟩
    · simp [sideAssignment?, Reference.callName?, hkeyword, hside]
    · simp [sideAssignment?, Reference.callName?, hkeyword, hside]

namespace Usage

/-- The sides of slots after one more statement. -/
def bindSide (functions : FunctionTable) (bound : ByteMap Side) (tokens : List Token) :
    ByteMap Side :=
  match sideAssignment? functions tokens with
  | some (slot, side) => bound.insert slot side
  | none => bound

def boundAfter (functions : FunctionTable) (statements : List (List Token)) : ByteMap Side :=
  statements.foldl (bindSide functions) .empty

theorem get?_bindSide (functions : FunctionTable) (bound : ByteMap Side) (tokens : List Token) :
    (bindSide functions bound tokens).get? slot = some side ↔
      Assigns functions tokens slot side
        ∨ (∀ side', ¬ Assigns functions tokens slot side') ∧ bound.get? slot = some side := by
  simp only [← sideAssignment?_eq_some]
  unfold bindSide
  split
  · rename_i slot' side' h
    rw [h, ByteMap.get?_insert]
    by_cases hslot : slot = slot'
    · simp [hslot]
    · simp [hslot, Ne.symm hslot]
  · rename_i h
    simp [h]

/-- A slot has the side that was assigned to it last. -/
theorem get?_boundAfter (statements : List (List Token)) :
    (boundAfter functions statements).get? slot = some side ↔
      LastAssigned functions statements slot side := by
  induction statements using List.reverseRecOn with
  | nil => simp [boundAfter, LastAssigned]
  | append_singleton statements tokens ih =>
    have hfold : boundAfter functions (statements ++ [tokens])
        = bindSide functions (boundAfter functions statements) tokens := by
      simp [boundAfter]
    rw [hfold, get?_bindSide, ih]
    constructor
    · rintro (h | ⟨hnone, earlier, u, later, rfl, hu, hlater⟩)
      · exact ⟨statements, tokens, [], rfl, h, by simp⟩
      · refine ⟨earlier, u, later ++ [tokens], by simp, hu, fun v hv => ?_⟩
        rcases List.mem_append.1 hv with hv | hv
        · exact hlater v hv
        · rw [List.mem_singleton.1 hv]
          exact hnone
    · rintro ⟨earlier, u, later, heq, hu, hlater⟩
      rcases List.eq_nil_or_concat later with rfl | ⟨later, v, rfl⟩
      · obtain ⟨-, rfl⟩ := List.append_singleton_inj.1 heq
        exact Or.inl hu
      · rw [List.concat_eq_append, ← List.cons_append, ← List.append_assoc] at heq
        obtain ⟨rfl, rfl⟩ := List.append_singleton_inj.1 heq
        refine Or.inr ⟨hlater tokens (by simp), earlier, u, later, rfl, hu, fun v hv => ?_⟩
        exact hlater v (by simp [hv])

theorem sideOf_eq_some {statements : List (List Token)} {t : Token} :
    Reference.sideOf (boundAfter functions statements) t = some side ↔
      GivesSide functions statements t side := by
  cases t with
  | name id text =>
    refine ⟨fun h => .getter h, fun h => ?_⟩
    cases h with
    | getter h => exact h
  | slot s =>
    rw [Reference.sideOf, get?_boundAfter]
    refine ⟨fun h => .slot h, fun h => ?_⟩
    cases h with
    | slot h => exact h
  | _ =>
    refine ⟨fun h => by simp [Reference.sideOf] at h, fun h => ?_⟩
    cases h

/-! ## The references of a script -/

/-- The references of some statements in order, with the sides that slots have in front of them. -/
def referencesFrom (functions : FunctionTable) (bound : ByteMap Side) :
    List (List Token) → List Reference
  | [] => []
  | tokens :: more =>
    Reference.list functions (bindSide functions bound tokens) tokens
      ++ referencesFrom functions (bindSide functions bound tokens) more

theorem value_collectFrom (reading : Reading) (unitName : String) :
    ∀ (segments : List (List UInt8)) (bound : ByteMap Side) (usage : Usage),
      (collectFrom reading unitName bound usage segments).value
        = (referencesFrom reading.tables.functions bound (segments.map reading.tokens)).foldl
            (record reading.tables unitName) usage
  | [], _, _ => rfl
  | segment :: segments, bound, usage => by
    rw [List.map_cons, referencesFrom, List.foldl_append, ← value_collectFrom]
    rfl

/-- A reference of a script is one of a statement, under the sides assigned up to that
statement. -/
theorem mem_referencesFrom {r : Reference} : ∀ (script earlier : List (List Token)),
    r ∈ referencesFrom functions (boundAfter functions earlier) script ↔
      ∃ between tokens later, script = between ++ tokens :: later
        ∧ r ∈ Reference.list functions
            (boundAfter functions (earlier ++ between ++ [tokens])) tokens
  | [], earlier => by simp [referencesFrom]
  | tokens :: script, earlier => by
    have hbind : bindSide functions (boundAfter functions earlier) tokens
        = boundAfter functions (earlier ++ [tokens]) := by simp [boundAfter]
    rw [referencesFrom, hbind, List.mem_append, mem_referencesFrom]
    constructor
    · rintro (hr | ⟨between, u, later, rfl, hr⟩)
      · exact ⟨[], tokens, script, rfl, by simpa using hr⟩
      · exact ⟨tokens :: between, u, later, rfl, by simpa using hr⟩
    · rintro ⟨between, u, later, heq, hr⟩
      rcases between with _ | ⟨v, between⟩
      · obtain ⟨rfl, rfl⟩ := List.cons.inj heq
        exact Or.inl (by simpa using hr)
      · obtain ⟨rfl, rfl⟩ := List.cons.inj heq
        exact Or.inr ⟨between, u, later, rfl, by simpa using hr⟩

theorem countP_referencesFrom (index : UInt8) :
    ∀ (script : List (List Token)) (bound : ByteMap Side),
      (referencesFrom functions bound script).countP (·.index == index)
        = script.flatten.count (.stringRef index)
  | [], _ => rfl
  | tokens :: script, bound => by
    rw [referencesFrom, List.countP_append, countP_referencesFrom index script, Reference.list,
      Reference.countP_listFrom, List.flatten_cons, List.count_append]

/-- The references of a script to one index. -/
def referencesTo (functions : FunctionTable) (script : List (List Token)) (index : UInt8) :
    List Reference :=
  (referencesFrom functions .empty script).filter (·.index == index)

theorem length_referencesTo (script : List (List Token)) (index : UInt8) :
    (referencesTo functions script index).length
      = script.flatten.count (.stringRef index) := by
  rw [referencesTo, ← List.countP_eq_length_filter, countP_referencesFrom]

/-! ## The entries of a report -/

/-- An entry after one more reference; the first makes an entry with the given name. -/
def added (name : Option String) (unitName : String) (entry : Option StringUse) (r : Reference) :
    StringUse :=
  let use := entry.getD { name := name }
  { use with
    count := use.count + 1
    contexts := use.contexts.insert (r.context.getD "<none>")
    sides := match r.side with
      | some side => use.sides.insert side
      | none => use.sides
    units := use.units.insert unitName }

/-- An entry is made from the references to its index alone. -/
theorem get?_foldl_record (tables : SymbolTables) (unitName : String) (index : UInt8) :
    ∀ (references : List Reference) (usage : Usage),
      (references.foldl (record tables unitName) usage).get? index
        = (references.filter (·.index == index)).foldl
            (fun entry r => some (added (tables.string? index.toNat) unitName entry r))
            (usage.get? index)
  | [], usage => rfl
  | r :: references, usage => by
    rw [List.foldl_cons, get?_foldl_record tables unitName index references]
    by_cases hr : r.index = index
    · subst hr
      rw [List.filter_cons_of_pos (by simp), List.foldl_cons, record, ByteMap.get?_insert,
        if_pos rfl]
      rfl
    · rw [List.filter_cons_of_neg (by simpa using hr), record, ByteMap.get?_insert,
        if_neg (Ne.symm hr)]

/-- An entry holds what the given references say. -/
structure Holds (name : Option String) (unitName : String) (references : List Reference)
    (use : StringUse) : Prop where
  name : use.name = name
  count : use.count = references.length
  units : use.units.toList = if references = [] then [] else [unitName]
  contexts : ∀ context, context ∈ use.contexts.toList ↔
    ∃ r ∈ references, r.context.getD "<none>" = context
  sides : ∀ side, use.sides.contains side = true ↔ ∃ r ∈ references, r.side = some side

variable {name : Option String} {unitName : String}

theorem Holds.added {references : List Reference} {entry : Option StringUse}
    (h : Holds name unitName references (entry.getD { name := name })) (r : Reference) :
    Holds name unitName (references ++ [r]) (added name unitName entry r) where
  name := h.name
  count := by
    rw [List.length_append, ← h.count]
    rfl
  units := by
    have hplace : (Usage.added name unitName entry r).units.toList
        = NameSet.place unitName (entry.getD { name := name }).units.toList := rfl
    rw [hplace, h.units]
    split_ifs <;> simp_all [NameSet.place]
  contexts context := by
    refine NameSet.mem_place.trans ?_
    rw [h.contexts]
    simp only [List.mem_append, List.mem_singleton, or_and_right, exists_or, exists_eq_left]
    rw [or_comm, eq_comm]
  sides side := by
    have hsides : (Usage.added name unitName entry r).sides.contains side = true ↔
        (entry.getD { name := name }).sides.contains side = true ∨ r.side = some side := by
      unfold Usage.added
      cases r.side with
      | none => simp
      | some side' =>
        simp only [SideSet.insert, Bool.or_eq_true, beq_iff_eq, Option.some.injEq]
        rw [or_comm, eq_comm (a := side)]
    rw [hsides, h.sides]
    simp only [List.mem_append, List.mem_singleton, or_and_right, exists_or, exists_eq_left]

/-- The entry that the given references make. -/
def entryOf (name : Option String) (unitName : String) (references : List Reference) :
    Option StringUse :=
  references.foldl (fun entry r => some (added name unitName entry r)) none

theorem entryOf_spec (name : Option String) (unitName : String) (references : List Reference) :
    (entryOf name unitName references = none ↔ references = [])
      ∧ Holds name unitName references
          ((entryOf name unitName references).getD { name := name }) := by
  induction references using List.reverseRecOn with
  | nil =>
    refine ⟨by simp [entryOf], rfl, rfl, rfl, fun context => ?_, fun side => ?_⟩
    · simp [entryOf, NameSet.empty]
    · simp [entryOf, SideSet.empty]
  | append_singleton references r ih =>
    have hentry : entryOf name unitName (references ++ [r])
        = some (added name unitName (entryOf name unitName references) r) := by
      simp [entryOf]
    rw [hentry]
    exact ⟨by simp, ih.2.added r⟩

end Usage

/-! ## The report of a unit -/

/-- The statements of a unit as tokens. -/
def Reading.script (reading : Reading) (unit : CompiledUnit) : List (List Token) :=
  unit.statements.map reading.tokens

/-- A place in a script where a string is referred to: the statements before, the tokens of its
own statement on both sides, and the statements after. -/
structure Occurrence (script : List (List Token)) (index : UInt8) where
  earlier : List (List Token)
  front : List Token
  back : List Token
  later : List (List Token)
  script_eq : script = earlier ++ (front ++ .stringRef index :: back) :: later

namespace Occurrence

variable {script : List (List Token)} {index : UInt8}

/-- The statements up to and with the one of the reference. -/
def soFar (o : Occurrence script index) : List (List Token) :=
  o.earlier ++ [o.front ++ .stringRef index :: o.back]

theorem exists_reference (functions : FunctionTable) (o : Occurrence script index) :
    ∃ r ∈ Usage.referencesFrom functions .empty script, r.index = index
      ∧ Reference.Located functions (Usage.boundAfter functions o.soFar) o.front r := by
  obtain ⟨r, hr, hlocated⟩ : ∃ r ∈ Reference.list functions (Usage.boundAfter functions o.soFar)
      (o.front ++ .stringRef index :: o.back), r.index = index
        ∧ Reference.Located functions (Usage.boundAfter functions o.soFar) o.front r :=
    Reference.exists_mem_list o.front o.back index
  refine ⟨r, (Usage.mem_referencesFrom script []).2 ?_, hlocated⟩
  exact ⟨o.earlier, _, o.later, o.script_eq, hr⟩

theorem exists_of_mem_references {r : Reference}
    (hr : r ∈ Usage.referencesFrom functions .empty script) :
    ∃ o : Occurrence script r.index,
      Reference.Located functions (Usage.boundAfter functions o.soFar) o.front r := by
  obtain ⟨earlier, tokens, later, rfl, hlist⟩ := (Usage.mem_referencesFrom script []).1 hr
  obtain ⟨front, back, rfl, hlocated⟩ := Reference.located_of_mem_list hlist
  exact ⟨⟨earlier, front, back, later, rfl⟩, hlocated⟩

/-- What holds of some reference to an index holds at some occurrence of it. -/
theorem exists_iff_exists_reference {P : Reference → Prop} {Q : Occurrence script index → Prop}
    (h : ∀ (o : Occurrence script index) (r : Reference), r.index = index →
      Reference.Located functions (Usage.boundAfter functions o.soFar) o.front r → (P r ↔ Q o)) :
    (∃ r ∈ Usage.referencesTo functions script index, P r) ↔ ∃ o, Q o := by
  simp only [Usage.referencesTo, List.mem_filter, beq_iff_eq]
  constructor
  · rintro ⟨r, ⟨hr, rfl⟩, hP⟩
    obtain ⟨o, hlocated⟩ := exists_of_mem_references hr
    exact ⟨o, (h o r rfl hlocated).1 hP⟩
  · rintro ⟨o, hQ⟩
    obtain ⟨r, hr, hindex, hlocated⟩ := o.exists_reference functions
    exact ⟨r, ⟨hr, hindex⟩, (h o r hindex hlocated).2 hQ⟩

theorem nonempty_iff : Nonempty (Occurrence script index) ↔
    ∃ tokens ∈ script, .stringRef index ∈ tokens := by
  constructor
  · rintro ⟨earlier, front, back, later, rfl⟩
    exact ⟨front ++ .stringRef index :: back, by simp, by simp⟩
  · rintro ⟨tokens, htokens, hindex⟩
    obtain ⟨front, back, rfl⟩ := List.append_of_mem hindex
    obtain ⟨earlier, later, rfl⟩ := List.append_of_mem htokens
    exact ⟨⟨earlier, front, back, later, rfl⟩⟩

theorem referencesTo_eq_nil_iff (functions : FunctionTable) :
    Usage.referencesTo functions script index = [] ↔
      ∀ tokens ∈ script, .stringRef index ∉ tokens := by
  have hiff : (∃ r ∈ Usage.referencesTo functions script index, True)
      ↔ ∃ _ : Occurrence script index, True :=
    exists_iff_exists_reference fun _ _ _ _ => Iff.rfl
  rw [exists_true_iff_nonempty, nonempty_iff] at hiff
  rw [List.eq_nil_iff_forall_not_mem]
  simpa using not_congr hiff

end Occurrence

open Reference (EnclosingCall)

theorem Reference.Located.getD_context {functions : FunctionTable} {bound : ByteMap Side}
    {front : List Token} {r : Reference} (h : Located functions bound front r) (context : String) :
    r.context.getD "<none>" = context ↔
      (∃ call : EnclosingCall functions front, call.name = context)
        ∨ IsEmpty (EnclosingCall functions front) ∧ context = "<none>" := by
  rw [← h.context]
  cases hc : r.context with
  | none =>
    have hempty : IsEmpty (EnclosingCall functions front) := by
      refine ⟨fun call => ?_⟩
      have hsome := (h.context call.name).2 ⟨call, rfl⟩
      rw [hc] at hsome
      simp at hsome
    simp [hempty, eq_comm]
  | some name =>
    obtain ⟨call, -⟩ := (h.context name).1 hc
    have hnonempty : ¬ IsEmpty (EnclosingCall functions front) := fun h => h.false call
    simp [hnonempty]

/-- An entry says of the references to its index in a script: the name behind them, how many there
are, the one unit, the calls around them and the sides that the first words of these calls give. -/
structure StringUse.Reports (tables : SymbolTables) (unitName : String)
    (script : List (List Token)) (index : UInt8) (use : StringUse) : Prop where
  name : use.name = tables.string? index.toNat
  count : use.count = script.flatten.count (.stringRef index)
  units : use.units.toList = [unitName]
  contexts : ∀ context, context ∈ use.contexts.toList ↔ ∃ o : Occurrence script index,
    (∃ call : EnclosingCall tables.functions o.front, call.name = context)
      ∨ IsEmpty (EnclosingCall tables.functions o.front) ∧ context = "<none>"
  sides : ∀ side, use.sides.contains side = true ↔
    ∃ (o : Occurrence script index) (call : EnclosingCall tables.functions o.front),
      GivesSide tables.functions o.soFar (call.first (.stringRef index)) side

/-- What an entry holds of the references to its index, it reports of their occurrences. -/
theorem Usage.Holds.reports {tables : SymbolTables} {unitName : String}
    {script : List (List Token)} {index : UInt8} {use : StringUse}
    (h : Usage.Holds (tables.string? index.toNat) unitName
      (Usage.referencesTo tables.functions script index) use)
    (hne : Usage.referencesTo tables.functions script index ≠ []) :
    use.Reports tables unitName script index where
  name := h.name
  count := by rw [h.count, Usage.length_referencesTo]
  units := by rw [h.units, if_neg hne]
  contexts context := by
    rw [h.contexts]
    exact Occurrence.exists_iff_exists_reference fun o r _ hlocated =>
      hlocated.getD_context context
  sides side := by
    rw [h.sides]
    refine Occurrence.exists_iff_exists_reference fun o r hindex hlocated => ?_
    rw [hlocated.side, hindex]
    simp only [Usage.sideOf_eq_some]

theorem Usage.get?_eq_entryOf (reading : Reading) (unitName : String) (unit : CompiledUnit)
    (index : UInt8) :
    (Usage.collect reading unitName unit).value.get? index
      = Usage.entryOf (reading.tables.string? index.toNat) unitName
          (Usage.referencesTo reading.tables.functions (reading.script unit) index) := by
  rw [Usage.collect, Usage.value_collectFrom, Usage.get?_foldl_record]
  rfl

/-- The report of a unit has an entry for every index that a statement refers to, and for no
other, and the entry reports on all of its references. -/
theorem get?_collect (reading : Reading) (unitName : String) (unit : CompiledUnit) (index : UInt8) :
    match (Usage.collect reading unitName unit).value.get? index with
    | none => ∀ tokens ∈ reading.script unit, .stringRef index ∉ tokens
    | some use => (∃ tokens ∈ reading.script unit, .stringRef index ∈ tokens)
        ∧ use.Reports reading.tables unitName (reading.script unit) index := by
  obtain ⟨hnone, hholds⟩ := Usage.entryOf_spec (reading.tables.string? index.toNat) unitName
    (Usage.referencesTo reading.tables.functions (reading.script unit) index)
  rw [← Usage.get?_eq_entryOf] at hnone hholds
  split
  · rename_i h
    exact (Occurrence.referencesTo_eq_nil_iff _).1 (hnone.1 h)
  · rename_i use h
    rw [h] at hnone hholds
    have hne : Usage.referencesTo reading.tables.functions (reading.script unit) index ≠ [] := by
      simp [← hnone]
    refine ⟨?_, hholds.reports hne⟩
    rw [ne_eq, Occurrence.referencesTo_eq_nil_iff] at hne
    push Not at hne
    exact hne

end MissionScript
