import MissionScript.Proofs.DecodedTokens
import MissionScript.Proofs.ListingRun
import MissionScript.Proofs.StringSubstitution

/-!
# Slots are declared once and named apart

The only thing that changes the slot table is a statement `int ( … )`, `obj ( … )` or `pos ( … )`,
and what it adds is the first slot behind its parenthesis that has no type so far
(`declaration?_eq_some_iff`). So a step leaves the table as it is or adds one slot to it
(`get?_declared`), and along a run a slot has a type exactly if some earlier statement declared it
(`exists_declares_iff`). A slot is the lower half of a byte, and the name of a slot tells the slot,
whatever table it is read in (`name_injective`).
-/

namespace MissionScript

/-! ## Slots fit in seven bits -/

theorem Reading.slot_lt_of_mem_tokens {reading : Reading} {segment : List UInt8} {slot : UInt8}
    (h : .slot slot ∈ reading.tokens segment) : slot < 128 := by
  obtain ⟨span, hspan, htoken⟩ := List.mem_map.1 h
  obtain ⟨-, rest, hpiece⟩ := Decode.piece_of_mem_decodeSpans hspan
  have hread := hpiece.readFrom
  rw [htoken] at hread
  exact hread

/-! ## The names of slots -/

namespace VarType

theorem ofKeyword?_eq_some {s : String} {ty : VarType} :
    ofKeyword? s = some ty ↔ s = ty.keyword := by
  constructor
  · intro h
    unfold ofKeyword? at h
    split_ifs at h with hint hobj hpos <;>
      · cases h
        assumption
  · rintro rfl
    cases ty <;> rfl

end VarType

namespace SlotTable

/-- The name of a slot that has a type, and of one that has none. -/
def nameOf (slot : UInt8) : Option VarType → Text
  | some ty => ty.keyword.toList ++ '_' :: Text.decimal slot.toNat
  | none => 'v' :: Text.decimal slot.toNat

theorem name_eq_nameOf (t : SlotTable) (slot : UInt8) : t.name slot = nameOf slot (t.get? slot) := by
  unfold name nameOf
  cases t.get? slot <;> rfl

/-- A name begins with as many characters as its type has, and ends with the slot. -/
theorem eq_of_nameOf_eq {slot slot' : UInt8} {ty ty' : Option VarType}
    (h : nameOf slot ty = nameOf slot' ty') : slot = slot' := by
  have hdigits : Text.decimal slot.toNat = Text.decimal slot'.toNat := by
    rcases ty with _ | ty <;> rcases ty' with _ | ty'
    · simpa [nameOf] using h
    · cases ty' <;> simp [nameOf, VarType.keyword] at h
    · cases ty <;> simp [nameOf, VarType.keyword] at h
    · cases ty <;> cases ty' <;> simp [nameOf, VarType.keyword] at h ⊢ <;> exact h
  exact UInt8.toNat_inj.1 (Text.decimal_injective hdigits)

theorem name_injective (t : SlotTable) : Function.Injective t.name := by
  intro slot slot' h
  rw [name_eq_nameOf, name_eq_nameOf] at h
  exact eq_of_nameOf_eq h

end SlotTable

/-! ## What a statement declares -/

namespace Statement

/-- The tokens `type ( … slot …`, four or more, where every slot between the parenthesis and the
given one has a type already and the given one has none. -/
def Declaration (typed : UInt8 → Prop) (tokens : List Token) (slot : UInt8) (ty : VarType) : Prop :=
  4 ≤ tokens.length ∧ ∃ id front back,
    tokens = .name id ty.keyword :: .openParen :: (front ++ .slot slot :: back)
      ∧ ¬ typed slot ∧ ∀ slot', .slot slot' ∈ front → typed slot'

/-- The slot that the search behind the parenthesis stops at. -/
def untyped? (slots : SlotTable) (ty : VarType) : Token → Option (UInt8 × VarType)
  | .slot slot => if slots.contains slot then none else some (slot, ty)
  | _ => none

theorem untyped?_eq_some {slots : SlotTable} {ty ty' : VarType} {t : Token} {slot : UInt8} :
    untyped? slots ty t = some (slot, ty')
      ↔ t = .slot slot ∧ slots.contains slot = false ∧ ty = ty' := by
  cases t with
  | slot s =>
    simp only [untyped?, Token.slot.injEq]
    split_ifs with hc
    · simp only [false_iff]
      rintro ⟨rfl, hfalse, -⟩
      rw [hc] at hfalse
      simp at hfalse
    · simp only [Option.some.injEq, Prod.mk.injEq]
      constructor
      · rintro ⟨rfl, rfl⟩
        exact ⟨rfl, by simpa using hc, rfl⟩
      · rintro ⟨rfl, -, rfl⟩
        exact ⟨rfl, rfl⟩
  | _ => simp [untyped?]

theorem untyped?_eq_none {slots : SlotTable} {ty : VarType} {t : Token} :
    untyped? slots ty t = none ↔ ∀ slot, t = .slot slot → slots.contains slot = true := by
  cases t with
  | slot s => simp [untyped?]
  | _ => simp [untyped?]

theorem declaration?_cons (slots : SlotTable) (first second : Token) (rest : List Token) :
    declaration? slots (first :: second :: rest)
      = if rest.length < 2 ∨ second ≠ Token.openParen then none
        else (first.name?.bind VarType.ofKeyword?).bind fun ty =>
          rest.findSome? (untyped? slots ty) := by
  simp only [declaration?]
  split_ifs
  · rfl
  · congr 1

theorem declaration?_eq_some_iff {slots : SlotTable} {tokens : List Token} {slot : UInt8}
    {ty : VarType} :
    declaration? slots tokens = some (slot, ty)
      ↔ Declaration (fun s => slots.contains s = true) tokens slot ty := by
  rcases tokens with _ | ⟨first, _ | ⟨second, rest⟩⟩
  · simp [declaration?, Declaration]
  · simp [declaration?, Declaration]
  rw [declaration?_cons]
  constructor
  · intro h
    split_ifs at h with hshort
    push Not at hshort
    obtain ⟨hlength, rfl⟩ := hshort
    obtain ⟨ty', hty', hfind⟩ := Option.bind_eq_some_iff.1 h
    obtain ⟨text, htext, hkeyword⟩ := Option.bind_eq_some_iff.1 hty'
    rw [VarType.ofKeyword?_eq_some] at hkeyword
    obtain ⟨front, t, back, rfl, ht, hfront⟩ := List.findSome?_eq_some_iff.1 hfind
    obtain ⟨rfl, hnot, rfl⟩ := untyped?_eq_some.1 ht
    cases first with
    | name id text' =>
      obtain rfl : text' = text := by simpa [Token.name?] using htext
      refine ⟨by simpa using hlength, id, front, back, by rw [hkeyword], by simp [hnot], ?_⟩
      exact fun slot' hmem => untyped?_eq_none.1 (hfront _ hmem) slot' rfl
    | _ => simp [Token.name?] at htext
  · rintro ⟨hlength, id, front, back, heq, hnot, hfront⟩
    obtain ⟨rfl, rfl, rfl⟩ : first = .name id ty.keyword ∧ second = .openParen
        ∧ rest = front ++ .slot slot :: back := by simpa using heq
    have hlong : ¬ ((front ++ Token.slot slot :: back).length < 2
        ∨ Token.openParen ≠ Token.openParen) := by
      simp only [List.length_cons] at hlength
      simp only [ne_eq, not_true_eq_false, or_false]
      omega
    have hty : (Token.name id ty.keyword).name?.bind VarType.ofKeyword? = some ty :=
      VarType.ofKeyword?_eq_some.2 rfl
    rw [if_neg hlong, hty, Option.bind_some, List.findSome?_eq_some_iff]
    refine ⟨front, .slot slot, back, rfl, untyped?_eq_some.2 ⟨rfl, by simpa using hnot, rfl⟩, ?_⟩
    rintro t ht
    exact untyped?_eq_none.2 fun slot' heq' => hfront slot' (heq' ▸ ht)

/-- The table after a statement has one slot more than the table before it, or none. -/
theorem get?_declared (slots : SlotTable) (tokens : List Token) (slot : UInt8) :
    (declared slots tokens).value.get? slot
      = match declaration? slots tokens with
        | some (slot', ty) => if slot = slot' then some ty else slots.get? slot
        | none => slots.get? slot := by
  unfold declared
  rcases hd : declaration? slots tokens with _ | ⟨slot', ty⟩
  · rfl
  · obtain ⟨-, -, -, -, -, hnot, -⟩ := declaration?_eq_some_iff.1 hd
    simp only [Logged.value_bind, Logged.value_pure, SlotTable.declare]
    rw [if_neg hnot, ByteMap.get?_insert]

theorem declares_iff {slots : SlotTable} {tokens : List Token} {slot : UInt8} {ty : VarType} :
    slots.get? slot = none ∧ (declared slots tokens).value.get? slot = some ty
      ↔ declaration? slots tokens = some (slot, ty) := by
  constructor
  · rintro ⟨hnone, hsome⟩
    rw [get?_declared] at hsome
    rcases hd : declaration? slots tokens with _ | ⟨slot', ty'⟩
    · rw [hd] at hsome
      simp [hnone] at hsome
    · rw [hd] at hsome
      simp only at hsome
      split_ifs at hsome with heq
      · rw [heq, Option.some.inj hsome]
      · simp [hnone] at hsome
  · intro hd
    obtain ⟨-, -, -, -, -, hnot, -⟩ := declaration?_eq_some_iff.1 hd
    refine ⟨by simpa [ByteMap.contains] using hnot, ?_⟩
    rw [get?_declared, hd]
    simp

end Statement

/-! ## Declarations along a run -/

namespace Listing

variable (reading : Reading) (unit : CompiledUnit)

/-- The statement with the given number gives a type to a slot that had none. -/
def Declares (k : Nat) (slot : UInt8) (ty : VarType) : Prop :=
  (stateAt reading unit k).slots.get? slot = none
    ∧ (stateAt reading unit (k + 1)).slots.get? slot = some ty

variable {reading unit} {k : Nat} {segment : List UInt8} {slot : UInt8} {ty : VarType}

theorem slots_stateAt_succ (h : unit.statements[k]? = some segment) :
    (stateAt reading unit (k + 1)).slots
      = (Statement.declared (stateAt reading unit k).slots (reading.tokens segment)).value := by
  rw [stateAt_succ h]
  rfl

theorem stateAt_succ_of_none (h : unit.statements[k]? = none) :
    stateAt reading unit (k + 1) = stateAt reading unit k := by
  have hlength := List.getElem?_eq_none_iff.1 h
  rw [stateAt_of_length_le hlength, stateAt_of_length_le (by omega)]

theorem le_stateAt_succ (k : Nat) :
    (stateAt reading unit k).slots.Le (stateAt reading unit (k + 1)).slots := by
  rcases h : unit.statements[k]? with _ | segment
  · rw [stateAt_succ_of_none h]
    exact .refl _
  · rw [slots_stateAt_succ h]
    exact SlotTable.le_declared _ _

theorem le_stateAt {j k : Nat} (h : j ≤ k) :
    (stateAt reading unit j).slots.Le (stateAt reading unit k).slots := by
  induction h with
  | refl => exact .refl _
  | step _ ih => exact ih.trans (le_stateAt_succ _)

theorem Declares.exists_statement (h : Declares reading unit k slot ty) :
    ∃ segment, unit.statements[k]? = some segment := by
  rcases hk : unit.statements[k]? with _ | segment
  · have hsome := h.2
    rw [stateAt_succ_of_none hk, h.1] at hsome
    simp at hsome
  · exact ⟨segment, rfl⟩

theorem declares_iff_declaration? (h : unit.statements[k]? = some segment) :
    Declares reading unit k slot ty
      ↔ Statement.declaration? (stateAt reading unit k).slots (reading.tokens segment)
        = some (slot, ty) := by
  rw [Declares, slots_stateAt_succ h, Statement.declares_iff]

/-- In front of a statement, the slots with a type are those that earlier statements declared. -/
theorem exists_declares_iff (k : Nat) (slot : UInt8) (ty : VarType) :
    (∃ j < k, Declares reading unit j slot ty)
      ↔ (stateAt reading unit k).slots.get? slot = some ty := by
  constructor
  · rintro ⟨j, hj, hdeclares⟩
    exact le_stateAt hj slot ty hdeclares.2
  · intro h
    induction k with
    | zero => simp [stateAt_zero] at h
    | succ k ih =>
      rcases hk : (stateAt reading unit k).slots.get? slot with _ | ty'
      · exact ⟨k, by omega, hk, h⟩
      · obtain rfl : ty' = ty := by
          have hlater := le_stateAt_succ k slot ty' hk
          rw [h] at hlater
          exact (Option.some.inj hlater).symm
        obtain ⟨j, hj, hdeclares⟩ := ih hk
        exact ⟨j, by omega, hdeclares⟩

theorem contains_iff (k : Nat) (slot : UInt8) :
    (stateAt reading unit k).slots.contains slot = true
      ↔ ∃ j < k, ∃ ty, Declares reading unit j slot ty := by
  rw [ByteMap.contains, Option.isSome_iff_exists]
  constructor
  · rintro ⟨ty, hty⟩
    obtain ⟨j, hj, hdeclares⟩ := (exists_declares_iff k slot ty).2 hty
    exact ⟨j, hj, ty, hdeclares⟩
  · rintro ⟨j, hj, ty, hdeclares⟩
    exact ⟨ty, (exists_declares_iff k slot ty).1 ⟨j, hj, hdeclares⟩⟩

theorem declares_iff_declaration (h : unit.statements[k]? = some segment) :
    Declares reading unit k slot ty
      ↔ Statement.Declaration (fun s => ∃ j < k, ∃ ty, Declares reading unit j s ty)
        (reading.tokens segment) slot ty := by
  rw [declares_iff_declaration? h, Statement.declaration?_eq_some_iff]
  simp only [contains_iff]

theorem Declares.eq (h : Declares reading unit k slot ty) {slot' : UInt8} {ty' : VarType}
    (h' : Declares reading unit k slot' ty') : slot = slot' ∧ ty = ty' := by
  obtain ⟨segment, hk⟩ := h.exists_statement
  rw [declares_iff_declaration? hk] at h h'
  simpa using h.symm.trans h'

theorem Declares.lt (h : Declares reading unit k slot ty) : slot < 128 := by
  obtain ⟨segment, hk⟩ := h.exists_statement
  obtain ⟨-, id, front, back, htokens, -, -⟩ := (declares_iff_declaration hk).1 h
  have hmem : .slot slot ∈ reading.tokens segment := by
    rw [htokens]
    simp
  exact Reading.slot_lt_of_mem_tokens hmem

theorem lt_of_get?_stateAt (h : (stateAt reading unit k).slots.get? slot = some ty) :
    slot < 128 := by
  obtain ⟨j, -, hdeclares⟩ := (exists_declares_iff k slot ty).2 h
  exact hdeclares.lt

/-- The line of a statement is set under the slot table behind it. -/
theorem text_lines (h : unit.statements[k]? = some segment) :
    (ofUnit reading unit).value.lines[k]?.map ListedLine.text
      = some (Cleanup.substituteStrings reading.tables.strings
          (Cleanup.stripAccumulator (Line.format ((reading.tokens segment).map
            (Token.render (stateAt reading unit (k + 1)).slots)))).value) := by
  rw [getElem?_lines h, slots_stateAt_succ h]
  rfl

theorem render_slot (k : Nat) (slot : UInt8) :
    (∀ ty, (∃ j ≤ k, Declares reading unit j slot ty) →
        Token.render (stateAt reading unit (k + 1)).slots (.slot slot)
          = ty.keyword.toList ++ '_' :: Text.decimal slot.toNat)
      ∧ ((¬ ∃ j ≤ k, ∃ ty, Declares reading unit j slot ty) →
        Token.render (stateAt reading unit (k + 1)).slots (.slot slot)
          = 'v' :: Text.decimal slot.toNat) := by
  simp only [← Nat.lt_succ_iff, Token.render, SlotTable.name_eq_nameOf]
  refine ⟨fun ty h => ?_, fun h => ?_⟩
  · rw [(exists_declares_iff (k + 1) slot ty).1 h]
    rfl
  · rw [← contains_iff, ByteMap.contains, Bool.not_eq_true, Option.isSome_eq_false_iff,
      Option.isNone_iff_eq_none] at h
    rw [h]
    rfl

end Listing

open Listing

/-- Along the listing of a unit a statement adds at most one slot to the table, and it adds the first
slot behind `int (`, `obj (` or `pos (` that no earlier statement declared; the type of a slot stays,
and a slot is below 128. A line is set from words in which a slot declared so far shows its type and
any other does not, and no two slots share a name. -/
theorem slots_along_listing (reading : Reading) (unit : CompiledUnit) :
    (stateAt reading unit 0).slots = .empty
      ∧ (stateAt reading unit unit.statements.length).slots = (ofUnit reading unit).value.slots
      ∧ (∀ k slot slot' ty ty', Declares reading unit k slot ty → Declares reading unit k slot' ty' →
          slot = slot' ∧ ty = ty')
      ∧ (∀ j k slot ty, j ≤ k → (stateAt reading unit j).slots.get? slot = some ty →
          (stateAt reading unit k).slots.get? slot = some ty)
      ∧ (∀ k slot ty, (stateAt reading unit k).slots.get? slot = some ty → slot < 128)
      ∧ (∀ k segment, unit.statements[k]? = some segment → ∀ slot ty,
          Declares reading unit k slot ty
            ↔ Statement.Declaration (fun s => ∃ j < k, ∃ ty, Declares reading unit j s ty)
              (reading.tokens segment) slot ty)
      ∧ (∀ k segment, unit.statements[k]? = some segment → ∃ word : Token → Text,
          (ofUnit reading unit).value.lines[k]?.map ListedLine.text
              = some (Cleanup.substituteStrings reading.tables.strings (Cleanup.stripAccumulator
                  (Line.format ((reading.tokens segment).map word))).value)
            ∧ (∀ slot ty, (∃ j ≤ k, Declares reading unit j slot ty) →
                word (.slot slot) = ty.keyword.toList ++ '_' :: Text.decimal slot.toNat)
            ∧ (∀ slot, (¬ ∃ j ≤ k, ∃ ty, Declares reading unit j slot ty) →
                word (.slot slot) = 'v' :: Text.decimal slot.toNat)
            ∧ ∀ t, (∀ slot, t ≠ .slot slot) → word t = Token.render .empty t)
      ∧ ∀ k, Function.Injective (stateAt reading unit k).slots.name := by
  refine ⟨rfl, ?_, fun k slot slot' ty ty' h h' => h.eq h', fun j k slot ty hjk h => ?_,
    fun k slot ty => lt_of_get?_stateAt, fun k segment hk slot ty => declares_iff_declaration hk,
    fun k segment hk => ?_, fun k => SlotTable.name_injective _⟩
  · rw [stateAt_of_length_le (Nat.le_refl _), value_ofUnit]
  · exact le_stateAt hjk slot ty h
  · refine ⟨Token.render (stateAt reading unit (k + 1)).slots, text_lines hk,
      fun slot => (render_slot k slot).1, fun slot => (render_slot k slot).2, fun t ht => ?_⟩
    cases t with
    | slot slot => exact absurd rfl (ht slot)
    | _ => rfl

/-- The statement `obj (v3, v4)` three times, under a table with the name `obj` only. -/
def Reading.redeclaring : Reading where
  tables := { functions := ⟨162, ⟨fun id => if id = 163 then some "obj" else none⟩⟩, strings := none }

def CompiledUnit.redeclaring : CompiledUnit :=
  let statement := [0x80, 0xa3, 0x28, 0x81, 0x83, 0x2c, 0x81, 0x84, 0x29]
  ⟨0, 0, statement ++ 0 :: statement ++ 0 :: statement⟩

theorem slots_along_listing_redeclaring :
    Declares .redeclaring .redeclaring 0 3 .obj ∧ Declares .redeclaring .redeclaring 1 4 .obj
      ∧ (∀ slot ty, Declares .redeclaring .redeclaring 1 slot ty → 4 = slot ∧ .obj = ty)
      ∧ (stateAt .redeclaring .redeclaring 3).slots.get? 3 = some .obj
      ∧ (3 : UInt8) < 128
      ∧ Statement.Declaration
          (fun s => ∃ j < 1, ∃ ty, Declares .redeclaring .redeclaring j s ty)
          (Reading.redeclaring.tokens [0x80, 0xa3, 0x28, 0x81, 0x83, 0x2c, 0x81, 0x84, 0x29]) 4 .obj
      ∧ ∃ word : Token → Text, word (.slot 3) = "obj_3".toList ∧ word (.slot 4) = "v4".toList
          ∧ (ofUnit .redeclaring .redeclaring).value.lines[0]?.map ListedLine.text
            = some (Cleanup.stripAccumulator (Line.format ((Reading.redeclaring.tokens
                [0x80, 0xa3, 0x28, 0x81, 0x83, 0x2c, 0x81, 0x84, 0x29]).map word))).value := by
  obtain ⟨-, -, hone, hkept, hlt, hdeclares, hline, -⟩ :=
    slots_along_listing .redeclaring .redeclaring
  have hfirst : Declares .redeclaring .redeclaring 0 3 .obj := ⟨by decide +kernel, by decide +kernel⟩
  have hsecond : Declares .redeclaring .redeclaring 1 4 .obj :=
    ⟨by decide +kernel, by decide +kernel⟩
  have hnone : ¬ ∃ j ≤ 0, ∃ ty, Declares .redeclaring .redeclaring j 4 ty := by
    rintro ⟨j, hj, ty, h⟩
    obtain rfl : j = 0 := by omega
    exact absurd (hone 0 3 4 .obj ty hfirst h).1 (by decide)
  obtain ⟨word, htext, htyped, huntyped, -⟩ := hline 0 _ rfl
  exact ⟨hfirst, hsecond, fun slot ty h => hone 1 4 slot .obj ty hsecond h,
    hkept 1 3 3 .obj (by decide) hfirst.2, hlt 1 3 .obj hfirst.2, (hdeclares 1 _ rfl 4 .obj).1 hsecond,
    word, htyped 3 .obj ⟨0, Nat.le_refl 0, hfirst⟩, huntyped 4 hnone, htext⟩

end MissionScript
