import MissionScript.Proofs.SpanTiling
import MissionScript.Symbols.BuiltIn

/-!
# Decoded tokens are well formed

What a token may hold is settled by the branch that made it: a character is a low byte, a slot, an
index or an integer is a high byte less its top bit, and a name or a bare id answers a look-up
(`readFrom_pairToken`). So every token of a segment is well formed for the bytes of its span, and a
terminator has nothing behind it (`Covers.ne_terminator`).

The top bit is taken off by subtraction. The decoder is written out once more with the subtraction
as a parameter that may fail (`spansBy`). Any subtraction that is right where it does not underflow
gives the spans and messages of the decoder (`spansBy_eq`), one that fails on underflow among them,
so the decoder never comes to an underflow.
-/

namespace MissionScript

/-- What a token says of the function table and of the bytes that it was read from. -/
def Token.ReadFrom (functions : FunctionTable) (bytes : List UInt8) : Token → Prop
  | char b => b < 0x80
  | name id text => functions.name? id = some text
  | slot k => k < 128
  | stringRef k => k < 128 ∧ bytes = [0x82, 0x80 + k]
  | integer v => 1 ≤ v ∧ v ≤ 127
  | unknown id => functions.name? id = none
  | terminator => ∃ b : UInt8, 0x80 ≤ b ∧ bytes = [b]

namespace Decode

variable {rule : MarkerRule} {functions : FunctionTable}

/-! ## One token -/

theorem sub_high_lt {b : UInt8} (h : ¬ b < 0x80) : b - 0x80 < 128 := by grind

theorem readFrom_lookup (id : UInt8) (bytes : List UInt8) :
    (lookup functions id).value.ReadFrom functions bytes := by
  unfold lookup
  cases h : functions.name? id with
  | some text => exact h
  | none => exact h

theorem readFrom_pairToken {p s : UInt8} (hp : ¬ p < 0x80) (hs : ¬ s < 0x80)
    (ahead : List UInt8) :
    (pairToken functions p s ahead).value.ReadFrom functions [p, s] := by
  rcases pairToken_cases functions p s ahead with
    ⟨id, h⟩ | ⟨text, hword, h⟩ | ⟨b, hb, h⟩ | ⟨h82, h⟩ | ⟨h80, h⟩
  · rw [h]
    exact readFrom_lookup id _
  · rw [h]
    exact name?_of_keyword? hword
  · rw [h]
    rcases hb with rfl | rfl
    · exact sub_high_lt hp
    · exact sub_high_lt hs
  · have hbyte : 0x80 + (s - 0x80) = s := by grind
    rw [h]
    exact ⟨sub_high_lt hs, by rw [h82, hbyte]⟩
  · have hvalue : 1 ≤ s - 0x80 ∧ s - 0x80 ≤ 127 := by grind
    rw [h]
    exact hvalue

theorem Piece.readFrom {piece rest : List UInt8} {token : Token}
    (h : Piece rule functions piece rest token) : token.ReadFrom functions piece := by
  cases h with
  | low hb => exact hb
  | cutOff hp => exact ⟨_, UInt8.not_lt.1 hp, rfl⟩
  | pairChar _ hs => exact hs
  | pair hp hs _ => exact readFrom_pairToken hp hs rest
  | slot _ hs _ => exact sub_high_lt hs

/-! ## The last token -/

/-- A terminator is read where the bytes end. -/
theorem Piece.rest_eq_nil {piece rest : List UInt8} {token : Token}
    (h : Piece rule functions piece rest token) (htoken : token = .terminator) : rest = [] := by
  have hread := h.readFrom
  rw [htoken] at hread
  obtain ⟨b, -, hpiece⟩ := hread
  cases h with
  | low | slot => simp at htoken
  | cutOff => rfl
  | pairChar | pair => simp at hpiece

theorem Covers.eq_nil {pos : Nat} {spans : List Spanned} (h : Covers rule functions pos [] spans) :
    spans = [] := by
  refine List.eq_nil_iff_forall_not_mem.2 fun s hs => ?_
  obtain ⟨front, piece, rest, hbytes, -, -, hpiece⟩ := h.piece_of_mem hs
  have hlength := hpiece.length_pos
  simp only [List.nil_eq, List.append_eq_nil_iff] at hbytes
  rw [hbytes.2.1] at hlength
  exact absurd hlength (by simp)

theorem Covers.ne_terminator {pos : Nat} {bytes : List UInt8} {spans : List Spanned}
    (h : Covers rule functions pos bytes spans) :
    ∀ s ∈ spans.dropLast, s.token ≠ .terminator := by
  induction h with
  | nil => simp
  | @cons pos piece rest token spans hpiece hrest ih =>
    by_cases hspans : spans = []
    · simp [hspans]
    · rw [List.dropLast_cons_of_ne_nil hspans]
      refine List.forall_mem_cons.2 ⟨fun htoken => ?_, ih⟩
      obtain rfl := hpiece.rest_eq_nil htoken
      exact hspans hrest.eq_nil

/-! ## Subtraction of bytes -/

section Subtraction

variable (sub : UInt8 → UInt8 → Option UInt8)

/-- A high byte less its top bit, unless the subtraction fails. -/
def lowBy (b : UInt8) : OptionT Logged UInt8 := OptionT.mk (pure (sub b 0x80))

def extendedBy (functions : FunctionTable) (p s : UInt8) (ahead : List UInt8) :
    OptionT Logged Token := do
  let called := ahead.head? = some 0x28
  if s = 0x80 then
    if called then lookup functions (← lowBy sub p)
    else match functions.keyword? p with
      | some text => pure (.name p text)
      | none => pure (.slot (← lowBy sub p))
  else match functions.keyword? p with
    | some text => pure (.name p text)
    | none =>
      if s = 0x81 ∧ called then lookup functions p else pure (.integer (← lowBy sub s))

def doubledMarkerBy (rule : MarkerRule) (offset : Nat) :
    List UInt8 → OptionT Logged (Option Token)
  | [] => do pure (some (.slot (← lowBy sub 0x81)))
  | b :: _ => do
    if rulesPart b then Logged.tell (.rulesDisagree offset b)
    if rule.threshold ≤ b then pure none else pure (some (.slot (← lowBy sub 0x81)))

def highPairBy (rule : MarkerRule) (functions : FunctionTable) (offset : Nat) (p s : UInt8)
    (ahead : List UInt8) : OptionT Logged (Option Token) := do
  if p = 0x80 then
    let called := [0x80, 0x28].isPrefixOf ahead
    let id ← if called then lowBy sub s else pure s
    some <$> lookup functions id
  else if p = 0x81 then
    if s = 0x81 then doubledMarkerBy sub rule offset ahead
    else pure (some (.slot (← lowBy sub s)))
  else if p = 0x82 then pure (some (.stringRef (← lowBy sub s)))
  else some <$> extendedBy sub functions p s ahead

/-- The decoder with its subtraction of bytes as a parameter; a subtraction that fails ends the
run. -/
def spansBy (rule : MarkerRule) (functions : FunctionTable) (start pos : Nat) :
    List UInt8 → OptionT Logged (List Spanned)
  | [] => pure []
  | [p] =>
    if p < 0x80 then pure [⟨start, pos + 1 - start, .char p⟩]
    else do
      Logged.tell (.orphanPrefix p)
      pure [⟨start, pos + 1 - start, .terminator⟩]
  | p :: s :: rest =>
    if p < 0x80 then do
      let spans ← spansBy rule functions (pos + 1) (pos + 1) (s :: rest)
      pure (⟨start, pos + 1 - start, .char p⟩ :: spans)
    else if s < 0x80 then do
      let spans ← spansBy rule functions (pos + 2) (pos + 2) rest
      pure (⟨start, pos + 2 - start, .char s⟩ :: spans)
    else do
      match ← highPairBy sub rule functions pos p s rest with
      | none => spansBy rule functions start (pos + 1) (s :: rest)
      | some token =>
        let spans ← spansBy rule functions (pos + 2) (pos + 2) rest
        pure (⟨start, pos + 2 - start, token⟩ :: spans)

end Subtraction

theorem lift_eq {α : Type} (x : Logged α) :
    (OptionT.lift x : OptionT Logged α) = OptionT.mk ⟨some x.value, x.log⟩ := by
  change OptionT.mk (⟨some x.value, x.log ++ []⟩ : Logged (Option α)) = _
  rw [List.append_nil]

theorem lift_bind {α β : Type} (x : Logged α) (f : α → Logged β) :
    (OptionT.lift x >>= fun a => OptionT.lift (f a) : OptionT Logged β)
      = OptionT.lift (x >>= f) := by
  simp only [lift_eq]
  rfl

theorem lift_cons (span : Spanned) (later : Logged (List Spanned)) :
    (OptionT.lift later >>= fun spans => pure (span :: spans) : OptionT Logged (List Spanned))
      = OptionT.lift (later >>= fun spans => pure (span :: spans)) :=
  lift_bind later fun spans => pure (span :: spans)

/-- Subtraction of bytes as it should be wherever it does not underflow. -/
def Subtracts (sub : UInt8 → UInt8 → Option UInt8) : Prop := ∀ a b, b ≤ a → sub a b = some (a - b)

variable {sub : UInt8 → UInt8 → Option UInt8}

theorem lowBy_eq (hsub : Subtracts sub) {b : UInt8} (hb : ¬ b < 0x80) :
    lowBy sub b = pure (b - 0x80) := by
  unfold lowBy
  rw [hsub b 0x80 (UInt8.not_lt.1 hb)]
  rfl

theorem extendedBy_eq (hsub : Subtracts sub) {p s : UInt8} (hp : ¬ p < 0x80) (hs : ¬ s < 0x80)
    (ahead : List UInt8) :
    extendedBy sub functions p s ahead = OptionT.lift (extended functions p s ahead) := by
  unfold extendedBy extended
  rw [lowBy_eq hsub hp, lowBy_eq hsub hs]
  cases functions.keyword? p with
  | some text =>
    simp only []
    split_ifs <;> rfl
  | none =>
    simp only []
    split_ifs <;> rfl

theorem doubledMarkerBy_eq (hsub : Subtracts sub) (offset : Nat) (ahead : List UInt8) :
    doubledMarkerBy sub rule offset ahead = OptionT.lift (doubledMarker rule offset ahead) := by
  have hlow : lowBy sub 0x81 = pure 1 := lowBy_eq hsub (by decide)
  cases ahead with
  | nil =>
    rw [doubledMarkerBy, hlow]
    rfl
  | cons b ahead =>
    rw [doubledMarkerBy, doubledMarker, hlow]
    split_ifs <;> rfl

theorem highPairBy_eq (hsub : Subtracts sub) {p s : UInt8} (hp : ¬ p < 0x80) (hs : ¬ s < 0x80)
    (offset : Nat) (ahead : List UInt8) :
    highPairBy sub rule functions offset p s ahead
      = OptionT.lift (highPair rule functions offset p s ahead) := by
  unfold highPairBy highPair
  rw [lowBy_eq hsub hs, doubledMarkerBy_eq hsub, extendedBy_eq hsub hp hs]
  split_ifs
  · cases [0x80, 0x28].isPrefixOf ahead <;> rfl
  all_goals rfl

/-- A subtraction is made on high bytes only, where it is right. -/
theorem spansBy_eq (hsub : Subtracts sub) (rule : MarkerRule) (functions : FunctionTable) :
    ∀ (bytes : List UInt8) (start pos : Nat),
      spansBy sub rule functions start pos bytes
        = OptionT.lift (spansFrom rule functions start pos bytes)
  | [], _, _ => rfl
  | [p], start, pos => by
    rw [spansBy, spansFrom]
    split_ifs <;> rfl
  | p :: s :: rest, start, pos => by
    have later := spansBy_eq hsub rule functions rest (pos + 2) (pos + 2)
    rw [spansBy, spansFrom]
    split_ifs with hp hs
    · rw [spansBy_eq hsub rule functions (s :: rest)]
      exact lift_cons _ _
    · rw [later]
      exact lift_cons _ _
    · rw [highPairBy_eq hsub hp hs, ← lift_bind]
      congr 1
      funext step
      cases step with
      | none => exact spansBy_eq hsub rule functions (s :: rest) start (pos + 1)
      | some token =>
        rw [later]
        exact lift_cons _ _

/-- The subtraction of bytes that fails on underflow. -/
def checkedSub (a b : UInt8) : Option UInt8 := if b ≤ a then some (a - b) else none

theorem subtracts_checkedSub : Subtracts checkedSub := fun _ _ h => if_pos h

end Decode

/-- Every token of a segment is well formed for the bytes of its span, no token but the last is a
terminator, and no subtraction underflows: with any subtraction of bytes that is right where it does
not underflow, the decoder does not fail and leaves the same spans and messages. -/
theorem decoded_tokens_wellFormed (rule : MarkerRule) (functions : FunctionTable)
    (segment : List UInt8) :
    (∀ s ∈ (decodeSpans rule functions segment).value,
        s.length = (s.bytes segment).length ∧ s.token.ReadFrom functions (s.bytes segment))
      ∧ (∀ s ∈ (decodeSpans rule functions segment).value.dropLast, s.token ≠ .terminator)
      ∧ ∀ sub : UInt8 → UInt8 → Option UInt8, Decode.Subtracts sub →
          (Decode.spansBy sub rule functions 0 0 segment).run
            = some <$> decodeSpans rule functions segment := by
  refine ⟨fun s hs => ?_, (Decode.covers_decodeSpans rule functions segment).ne_terminator,
    fun sub hsub => ?_⟩
  · obtain ⟨hlength, rest, hpiece⟩ := Decode.piece_of_mem_decodeSpans hs
    exact ⟨hlength, hpiece.readFrom⟩
  · rw [Decode.spansBy_eq hsub]
    rfl

/-- A string reference, an integer, a bare id and a terminator, with checked subtraction; with a
subtraction that always fails the run ends at once. -/
theorem decoded_tokens_wellFormed_sample :
    (decodeSpans .from81 BuiltIn.functions [0x82, 0x85, 0x90, 0x81, 0x80, 0xf0, 0x90]).value
        = [⟨0, 2, .stringRef 5⟩, ⟨2, 2, .integer 1⟩, ⟨4, 2, .unknown 0xf0⟩, ⟨6, 1, .terminator⟩]
      ∧ ([0x82, 0x85] : List UInt8) = [0x82, 0x80 + 5]
      ∧ (∃ b : UInt8, 0x80 ≤ b ∧ [0x90] = [b])
      ∧ Token.unknown 0xf0 ≠ .terminator
      ∧ (Decode.spansBy Decode.checkedSub .from81 BuiltIn.functions 0 0
          [0x82, 0x85, 0x90, 0x81, 0x80, 0xf0, 0x90]).run
        = some <$> decodeSpans .from81 BuiltIn.functions
            [0x82, 0x85, 0x90, 0x81, 0x80, 0xf0, 0x90]
      ∧ (Decode.spansBy (fun _ _ => none) .from81 BuiltIn.functions 0 0
          [0x82, 0x85, 0x90, 0x81, 0x80, 0xf0, 0x90]).run.value = none := by
  obtain ⟨hread, hlast, hsub⟩ := decoded_tokens_wellFormed .from81 BuiltIn.functions
    [0x82, 0x85, 0x90, 0x81, 0x80, 0xf0, 0x90]
  exact ⟨by decide, (hread ⟨0, 2, .stringRef 5⟩ (by decide)).2.2,
    (hread ⟨6, 1, .terminator⟩ (by decide)).2, hlast ⟨4, 2, .unknown 0xf0⟩ (by decide),
    hsub Decode.checkedSub Decode.subtracts_checkedSub, rfl⟩

end MissionScript
