import MissionScript.Proofs.ListingRun
import MissionScript.Proofs.MergedUsage
import Mathlib.Data.List.Forall2

/-!
# The report of two units in one

The statements of a unit that goes on behind another one's payload are those of both. The later ones
are read with the sides that the earlier ones bound to slots, and this is all they take over. A
table with more bound slots keeps the side of every slot it had (`sidesLe_bindSide`), so along a run
every reference keeps its call and its side, and may only get a side that it did not have
(`referencesFrom_extends`). An entry of references and then others is the merge of the entries of
both (`entryOf_append`). Hence the report of the longer unit is the merge of the two reports but for
sides that it has beyond them (`collect_of_joined`).
-/

namespace MissionScript

/-- Every slot that the first table has a side for has it in the second. -/
def SidesLe (bound bound' : ByteMap Side) : Prop :=
  ∀ slot side, bound.get? slot = some side → bound'.get? slot = some side

theorem sidesLe_empty (bound : ByteMap Side) : SidesLe .empty bound := by
  intro slot side h
  simp at h

variable {functions : FunctionTable} {bound bound' : ByteMap Side}

/-! ## References -/

namespace Reference

/-- The second reference says what the first one says, and perhaps a side that the first one does
not know. -/
structure Extends (r r' : Reference) : Prop where
  index : r'.index = r.index
  context : r'.context = r.context
  side : ∀ side, r.side = some side → r'.side = some side

namespace Frame

structure Extends (f f' : Frame) : Prop where
  call : f'.call = f.call
  fresh : f'.fresh = f.fresh
  side : ∀ side, f.side = some side → f'.side = some side

theorem Extends.refl (f : Frame) : f.Extends f := ⟨rfl, rfl, fun _ h => h⟩

end Frame

theorem sideOf_of_sidesLe (h : SidesLe bound bound') (t : Token) (side : Side)
    (hside : sideOf bound t = some side) : sideOf bound' t = some side := by
  cases t with
  | slot slot => exact h slot side hside
  | _ => exact hside

variable {frames frames' : List Frame}

theorem noteFirst_extends (h : SidesLe bound bound') (t : Token)
    (hframes : List.Forall₂ Frame.Extends frames frames') :
    List.Forall₂ Frame.Extends (noteFirst bound t frames) (noteFirst bound' t frames') := by
  cases hframes with
  | nil => exact .nil
  | @cons f f' rest rest' hf hrest =>
    refine .cons ?_ hrest
    rw [hf.fresh]
    split_ifs
    · exact ⟨hf.call, rfl, sideOf_of_sidesLe h t⟩
    · exact hf

/-- The innermost frames with a call belong to each other. -/
theorem find?_extends (hframes : List.Forall₂ Frame.Extends frames frames') :
    (frames'.find? (·.call.isSome)).bind (·.call) = (frames.find? (·.call.isSome)).bind (·.call)
      ∧ ∀ side, (frames.find? (·.call.isSome)).bind (·.side) = some side →
        (frames'.find? (·.call.isSome)).bind (·.side) = some side := by
  induction hframes with
  | nil => exact ⟨rfl, fun _ h => h⟩
  | @cons f f' rest rest' hf _ ih =>
    rw [List.find?_cons, List.find?_cons, hf.call]
    cases f.call.isSome with
    | true => exact ⟨hf.call, hf.side⟩
    | false => exact ih

theorem listFrom_extends (h : SidesLe bound bound') :
    ∀ (tokens : List Token) {before : Option Token} {frames frames' : List Frame},
      List.Forall₂ Frame.Extends frames frames' →
      List.Forall₂ Extends (listFrom functions bound before frames tokens)
        (listFrom functions bound' before frames' tokens)
  | [], _, _, _, _ => .nil
  | t :: rest, before, frames, frames', hframes => by
    have hnote := noteFirst_extends h t hframes
    cases t with
    | stringRef index =>
      obtain ⟨hcontext, hside⟩ := find?_extends hnote
      exact .cons ⟨rfl, hcontext, hside⟩ (listFrom_extends h rest hnote)
    | _ =>
      refine listFrom_extends h rest ?_
      split_ifs
      · exact .cons (.refl _) hnote
      · simpa using List.forall₂_drop 1 hnote
      · exact hnote

end Reference

namespace Usage

theorem sidesLe_bindSide (functions : FunctionTable) (h : SidesLe bound bound')
    (tokens : List Token) :
    SidesLe (bindSide functions bound tokens) (bindSide functions bound' tokens) := by
  intro slot side hside
  rw [get?_bindSide] at hside ⊢
  exact hside.imp_right fun hside => ⟨hside.1, h slot side hside.2⟩

theorem referencesFrom_extends (functions : FunctionTable) :
    ∀ (script : List (List Token)) {bound bound' : ByteMap Side}, SidesLe bound bound' →
      List.Forall₂ Reference.Extends (referencesFrom functions bound script)
        (referencesFrom functions bound' script)
  | [], _, _, _ => .nil
  | tokens :: script, bound, bound', h => by
    have hbind := sidesLe_bindSide functions h tokens
    exact List.rel_append (Reference.listFrom_extends hbind tokens .nil)
      (referencesFrom_extends functions script hbind)

theorem referencesFrom_append (script' : List (List Token)) :
    ∀ (script : List (List Token)) (bound : ByteMap Side),
      referencesFrom functions bound (script ++ script')
        = referencesFrom functions bound script
          ++ referencesFrom functions (script.foldl (bindSide functions) bound) script'
  | [], _ => rfl
  | tokens :: script, bound => by
    rw [List.cons_append, referencesFrom, referencesFrom_append script' script, referencesFrom,
      List.append_assoc]
    rfl

theorem referencesTo_append (script script' : List (List Token)) (index : UInt8) :
    referencesTo functions (script ++ script') index
      = referencesTo functions script index
        ++ (referencesFrom functions (boundAfter functions script) script').filter
            (·.index == index) := by
  rw [referencesTo, referencesFrom_append, List.filter_append]
  rfl

/-! ## Entries -/

variable {name : Option String} {unitName : String}

/-- One more reference is merged into an entry as an entry of its own. -/
theorem some_added_eq_merge (r : Reference) {entry : Option StringUse}
    (h : (entry.getD { name := name }).name = name) :
    some (added name unitName entry r)
      = entry.merge StringUse.merge (some (added name unitName none r)) := by
  cases entry with
  | none => rfl
  | some use =>
    have hname : use.name = name := h
    have hcontexts : ∀ context, use.contexts.union (.insert .empty context)
        = use.contexts.insert context := fun _ => rfl
    have hunits : use.units.union (.insert .empty unitName) = use.units.insert unitName := rfl
    have hside : ∀ side, use.sides.union (.insert .empty side) = use.sides.insert side := by
      intro side
      refine SideSet.ext (funext fun side' => ?_)
      simp [SideSet.union, SideSet.insert, SideSet.empty, Bool.or_comm]
    have hsides : use.sides.union .empty = use.sides := by
      refine SideSet.ext (funext fun side' => ?_)
      simp [SideSet.union, SideSet.empty]
    cases hr : r.side <;>
      simp [added, StringUse.merge, hname, hr, hcontexts, hunits, hside, hsides]

theorem entryOf_append (references references' : List Reference) :
    entryOf name unitName (references ++ references')
      = (entryOf name unitName references).merge StringUse.merge
          (entryOf name unitName references') := by
  have hassoc : Std.Associative (Option.merge StringUse.merge) := inferInstance
  induction references' using List.reverseRecOn with
  | nil => simp [entryOf]
  | append_singleton references' r ih =>
    have hsnoc : ∀ l : List Reference, entryOf name unitName (l ++ [r])
        = (entryOf name unitName l).merge StringUse.merge (some (added name unitName none r)) := by
      intro l
      rw [← some_added_eq_merge r (entryOf_spec name unitName l).2.name]
      simp [entryOf]
    rw [← List.append_assoc, hsnoc, ih, hsnoc, hassoc.assoc]

end Usage

namespace StringUse

/-- The second entry says what the first one says, and perhaps more sides. -/
structure Extends (use use' : StringUse) : Prop where
  name : use'.name = use.name
  count : use'.count = use.count
  contexts : use'.contexts = use.contexts
  units : use'.units = use.units
  sides : ∀ side, use.sides.contains side = true → use'.sides.contains side = true

theorem Extends.refl (use : StringUse) : use.Extends use := ⟨rfl, rfl, rfl, rfl, fun _ h => h⟩

theorem Extends.merge {a a' b b' : StringUse} (ha : a.Extends a') (hb : b.Extends b') :
    (a.merge b).Extends (a'.merge b') where
  name := by simp only [StringUse.merge, ha.name, hb.name]
  count := by simp only [StringUse.merge, ha.count, hb.count]
  contexts := by simp only [StringUse.merge, ha.contexts, hb.contexts]
  units := by simp only [StringUse.merge, ha.units, hb.units]
  sides side h := by
    simp only [StringUse.merge, SideSet.contains_union, Bool.or_eq_true] at h ⊢
    exact h.imp (ha.sides side) (hb.sides side)

end StringUse

namespace Usage

variable {name : Option String} {unitName : String}

theorem extends_refl (entry : Option StringUse) : Option.Rel StringUse.Extends entry entry := by
  cases entry with
  | none => exact .none
  | some use => exact .some (.refl use)

theorem merge_extends {a a' b b' : Option StringUse} (ha : Option.Rel StringUse.Extends a a')
    (hb : Option.Rel StringUse.Extends b b') :
    Option.Rel StringUse.Extends (a.merge StringUse.merge b) (a'.merge StringUse.merge b') := by
  cases ha with
  | none =>
    simpa using hb
  | some ha =>
    cases hb with
    | none => exact .some ha
    | some hb => exact .some (ha.merge hb)

theorem contains_added (r : Reference) (side : Side) :
    (added name unitName none r).sides.contains side = true ↔ r.side = some side := by
  simpa [entryOf] using (entryOf_spec name unitName [r]).2.sides side

theorem added_extends {r r' : Reference} (h : r.Extends r') :
    (added name unitName none r).Extends (added name unitName none r') := by
  refine ⟨rfl, rfl, ?_, rfl, fun side hside => ?_⟩
  · simp only [added, h.context]
  · rw [contains_added] at hside ⊢
    exact h.side side hside

theorem entryOf_cons (r : Reference) (references : List Reference) :
    entryOf name unitName (r :: references)
      = Option.merge StringUse.merge (some (added name unitName none r))
          (entryOf name unitName references) := entryOf_append [r] references

theorem entryOf_extends {references references' : List Reference}
    (h : List.Forall₂ Reference.Extends references references') :
    Option.Rel StringUse.Extends (entryOf name unitName references)
      (entryOf name unitName references') := by
  induction h with
  | nil => exact .none
  | cons hr _ ih =>
    rw [entryOf_cons, entryOf_cons]
    exact merge_extends (.some (added_extends hr)) ih

end Usage

/-! ## The report of the longer unit -/

theorem Reading.script_append (reading : Reading) {first later whole : CompiledUnit}
    (h : whole.payload = first.payload ++ 0 :: later.payload) :
    reading.script whole = reading.script first ++ reading.script later := by
  rw [script, CompiledUnit.statements_append h, List.map_append]
  rfl

open Usage

/-- The report of a unit that goes on behind another one's payload has the indices, names, counts,
contexts and units of the two reports merged, and their sides. Its references are those of the first
unit and then those of the later one, each with its call and with its side if it had one. -/
theorem collect_of_joined (reading : Reading) (unitName : String)
    (first later whole : CompiledUnit)
    (h : whole.payload = first.payload ++ 0 :: later.payload) :
    (∀ index, Option.Rel StringUse.Extends
        (((collect reading unitName first).value.merge
          (collect reading unitName later).value).get? index)
        ((collect reading unitName whole).value.get? index))
      ∧ ∃ references,
        referencesFrom reading.tables.functions .empty (reading.script whole)
            = referencesFrom reading.tables.functions .empty (reading.script first) ++ references
          ∧ List.Forall₂ Reference.Extends
              (referencesFrom reading.tables.functions .empty (reading.script later))
              references := by
  have hextends := referencesFrom_extends reading.tables.functions (reading.script later)
    (sidesLe_empty (boundAfter reading.tables.functions (reading.script first)))
  rw [reading.script_append h]
  refine ⟨fun index => ?_, _, referencesFrom_append _ _ _, hextends⟩
  rw [get?_merge]
  simp only [get?_eq_entryOf, reading.script_append h, referencesTo_append, entryOf_append]
  refine merge_extends (extends_refl _) (entryOf_extends ?_)
  refine List.rel_filter (fun r r' hr => ?_) hextends
  simp only [hr.index]

/-- A unit that assigns slot 3 a side. -/
def Usage.sampleFirst : CompiledUnit := ⟨8, 0, [0x81, 0x83, 0xb4, 0x81, 0x92, 0x80, 0x28, 0x29]⟩

/-- A unit that refers to a string on behalf of slot 3. -/
def Usage.sampleLater : CompiledUnit :=
  ⟨9, 0, [0x95, 0x80, 0x28, 0x81, 0x83, 0x2c, 0x82, 0xd7, 0x29]⟩

def Usage.sampleWhole : CompiledUnit :=
  ⟨18, 1, [0x81, 0x83, 0xb4, 0x81, 0x92, 0x80, 0x28, 0x29, 0, 0x95, 0x80, 0x28, 0x81, 0x83, 0x2c,
    0x82, 0xd7, 0x29]⟩

/-- The reference has a side in the longer unit only. -/
theorem collect_of_joined_sample : ∃ use use',
    ((collect ⟨BuiltIn.tables, .from81⟩ "m.tok" sampleFirst).value.merge
        (collect ⟨BuiltIn.tables, .from81⟩ "m.tok" sampleLater).value).get? 87 = some use
      ∧ (collect ⟨BuiltIn.tables, .from81⟩ "m.tok" sampleWhole).value.get? 87 = some use'
      ∧ use.Extends use' ∧ use.sides.toList = [] ∧ use'.sides.toList = [.created] := by
  obtain ⟨hentries, -⟩ := collect_of_joined ⟨BuiltIn.tables, .from81⟩ "m.tok" sampleFirst
    sampleLater sampleWhole rfl
  have hentry := hentries 87
  obtain ⟨use, huse, hsides⟩ : ∃ use,
      ((collect ⟨BuiltIn.tables, .from81⟩ "m.tok" sampleFirst).value.merge
        (collect ⟨BuiltIn.tables, .from81⟩ "m.tok" sampleLater).value).get? 87 = some use
        ∧ use.sides.toList = [] := Option.map_eq_some_iff.1 (by decide +kernel)
  obtain ⟨use', huse', hsides'⟩ : ∃ use',
      (collect ⟨BuiltIn.tables, .from81⟩ "m.tok" sampleWhole).value.get? 87 = some use'
        ∧ use'.sides.toList = [.created] := Option.map_eq_some_iff.1 (by decide +kernel)
  rw [huse, huse'] at hentry
  cases hentry with
  | some hextends => exact ⟨use, use', huse, huse', hextends, hsides, hsides'⟩

end MissionScript
