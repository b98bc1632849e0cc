import MissionScript.Proofs.DecodeSteps
import MissionScript.Symbols.BuiltIn
import Mathlib.Data.UInt

/-!
# The pair encoding

A script is written item by item: a character as its byte, and everything else as a pair of high
bytes, with the parenthesis of a call after it. No item says where it ends, so the decoder looks up
to two bytes into the next one. Decoding inverts the encoding of every list of items
(`decode_items`) but for two neighbours that are not told apart: slot 1 before a byte from the
marker rule's threshold on, and the integer 1 before an opening parenthesis.
-/

namespace MissionScript

/-- What an id stands for: its name, or the bare id where the table has none. -/
def FunctionTable.token (functions : FunctionTable) (id : UInt8) : Token :=
  match functions.name? id with
  | some text => .name id text
  | none => .unknown id

/-- One unit of the encoding under a function table. -/
inductive Item (functions : FunctionTable) where
  | char (byte : UInt8) (low : byte < 0x80)
  | rawId (id : UInt8) (high : 0x80 ≤ id)
  | slot (index : UInt8) (low : index < 0x80)
  | string (index : UInt8) (low : index < 0x80)
  | call (id : UInt8) (low : id < 0x80)
  /-- A call whose id is the first byte of the pair. -/
  | extendedCall (id : UInt8) (above : 3 ≤ id) (low : id < 0x80)
  /-- A call whose id needs all eight bits. -/
  | highCall (id : UInt8) (high : 0x83 ≤ id) (plain : functions.keyword? id = none)
  | keyword (id second : UInt8) (text : String) (high : 0x83 ≤ id)
      (named : functions.keyword? id = some text) (above : 0x80 < second)
  | integer (lead value : UInt8) (high : 0x83 ≤ lead) (plain : functions.keyword? lead = none)
      (positive : 1 ≤ value) (low : value < 0x80)

namespace Item

variable {functions : FunctionTable} {rule : MarkerRule}

def bytes : Item functions → List UInt8
  | char b _ => [b]
  | rawId id _ => [0x80, id]
  | slot k _ => [0x81, 0x80 + k]
  | string k _ => [0x82, 0x80 + k]
  | call id _ => [0x80, 0x80 + id, 0x80, 0x28]
  | extendedCall id .. => [0x80 + id, 0x80, 0x28]
  | highCall id .. => [id, 0x81, 0x28]
  | keyword id second .. => [id, second]
  | integer lead v .. => [lead, 0x80 + v]

/-- The tokens of an item with the number of bytes of each. -/
def parts : Item functions → List (Token × Nat)
  | char b _ => [(.char b, 1)]
  | rawId id _ => [(functions.token id, 2)]
  | slot k _ => [(.slot k, 2)]
  | string k _ => [(.stringRef k, 2)]
  | call id _ => [(functions.token id, 2), (.openParen, 2)]
  | extendedCall id .. => [(functions.token id, 2), (.openParen, 1)]
  | highCall id .. => [(functions.token id, 2), (.openParen, 1)]
  | keyword id _ text .. => [(.name id text, 2)]
  | integer _ v .. => [(.integer v, 2)]

def tokens (item : Item functions) : List Token := item.parts.map Prod.fst

/-- Whether an item may stand directly before another. -/
def Precedes (rule : MarkerRule) : Item functions → Item functions → Prop
  | slot k _, next => k = 1 → ∀ b ∈ next.bytes.head?, ¬ rule.threshold ≤ b
  | integer _ v .., next => v = 1 → next.bytes ≠ [0x28]
  | _, _ => True

/-- The spans of tokens that lie one after the other from an offset on. -/
def placed (pos : Nat) : List (Token × Nat) → List Spanned
  | [] => []
  | (token, length) :: more => ⟨pos, length, token⟩ :: placed (pos + length) more

theorem placed_append : ∀ (pos : Nat) (l l' : List (Token × Nat)),
    placed pos (l ++ l') = placed pos l ++ placed (pos + (l.map Prod.snd).sum) l'
  | pos, [], l' => by simp [placed]
  | pos, (t, n) :: l, l' => by
    simp only [List.cons_append, placed, List.map_cons, List.sum_cons, placed_append (pos + n) l l',
      Nat.add_assoc]

theorem map_token_placed : ∀ (pos : Nat) (l : List (Token × Nat)),
    (placed pos l).map Spanned.token = l.map Prod.fst
  | _, [] => rfl
  | pos, (_, n) :: l => by
    simp only [placed, List.map_cons, map_token_placed (pos + n) l]

theorem sum_parts (item : Item functions) : (item.parts.map Prod.snd).sum = item.bytes.length := by
  cases item <;> rfl

/-- What an item needs of the bytes behind it to be read as itself. -/
def Before (rule : MarkerRule) : Item functions → List UInt8 → Prop
  | rawId .., rest => [0x80, 0x28].isPrefixOf rest = false
  | slot k _, rest => k = 1 → rule.drops rest = false
  | integer _ v .., rest => v = 1 → rest.head? ≠ some 0x28
  | _, _ => True

theorem value_lookup (id : UInt8) : (Decode.lookup functions id).value = functions.token id := by
  unfold Decode.lookup FunctionTable.token
  cases functions.name? id <;> rfl

/-- No item starts with the two bytes that make the pair in front of them a call. -/
theorem not_callMark (item : Item functions) (rest : List UInt8) :
    [0x80, 0x28].isPrefixOf (item.bytes ++ rest) = false := by
  cases item with
  | char b low =>
    have hb : ((0x80 : UInt8) == b) = false := by grind
    simp [bytes, List.isPrefixOf, hb]
  | rawId id high =>
    have hid : ((0x28 : UInt8) == id) = false := by grind
    simp [bytes, List.isPrefixOf, hid]
  | call id low =>
    have hid : ((0x28 : UInt8) == 0x80 + id) = false := by grind
    simp [bytes, List.isPrefixOf, hid]
  | extendedCall id above low =>
    have hid : ((0x80 : UInt8) == 0x80 + id) = false := by grind
    simp [bytes, List.isPrefixOf, hid]
  | highCall id high | keyword id _ _ high | integer id _ high =>
    have hid : ((0x80 : UInt8) == id) = false := by grind
    simp [bytes, List.isPrefixOf, hid]
  | slot | string => rfl

theorem exists_bytes (item : Item functions) : ∃ b more, item.bytes = b :: more := by
  cases item <;> exact ⟨_, _, rfl⟩

/-- Only the character itself starts with an opening parenthesis. -/
theorem bytes_of_paren {item : Item functions} {more : List UInt8}
    (h : item.bytes = 0x28 :: more) : item.bytes = [0x28] := by
  cases item with
  | char b low => simp_all [bytes]
  | rawId | slot | string | call => simp [bytes] at h
  | extendedCall id above low => simp only [bytes, List.cons.injEq] at h; grind
  | highCall id high | keyword id _ _ high | integer id _ high =>
    simp only [bytes, List.cons.injEq] at h
    grind

end Item

namespace Decode

variable {functions : FunctionTable} {rule : MarkerRule}

theorem pairToken_extended {p : UInt8} (hp : 0x83 ≤ p) (s : UInt8) (ahead : List UInt8) :
    pairToken functions p s ahead = extended functions p s ahead := by
  unfold pairToken
  rw [if_neg (by grind), if_neg (by grind), if_neg (by grind)]

theorem value_spansFrom_pair {p s : UInt8} (hp : 0x80 ≤ p) (hs : 0x80 ≤ s)
    (h : p = 0x81 → s ≠ 0x81) (pos : Nat) (rest : List UInt8) :
    (spansFrom rule functions pos pos (p :: s :: rest)).value
      = ⟨pos, 2, (pairToken functions p s rest).value⟩
          :: (spansFrom rule functions (pos + 2) (pos + 2) rest).value := by
  rw [spansFrom_pair (by grind) (by grind) (fun hps => h hps.1 hps.2)]
  simp only [value_emit, Nat.add_sub_cancel_left]

theorem value_spansFrom_paren (pos : Nat) (rest : List UInt8) :
    (spansFrom rule functions pos pos (0x28 :: rest)).value
      = ⟨pos, 1, .openParen⟩ :: (spansFrom rule functions (pos + 1) (pos + 1) rest).value := by
  rw [spansFrom_low (by decide)]
  simp only [value_emit, Nat.add_sub_cancel_left]
  rfl

/-- An item in front of bytes that it may stand before is read as its own tokens. -/
theorem spansFrom_item (item : Item functions) (pos : Nat) (rest : List UInt8)
    (h : item.Before rule rest) :
    (spansFrom rule functions pos pos (item.bytes ++ rest)).value
      = Item.placed pos item.parts ++ (spansFrom rule functions (pos + item.bytes.length)
          (pos + item.bytes.length) rest).value := by
  cases item with
  | char b low =>
    simp only [Item.bytes, List.cons_append, List.nil_append]
    rw [spansFrom_low low]
    simp [Item.parts, Item.placed]
  | rawId id high =>
    simp only [Item.Before] at h
    simp only [Item.bytes, List.cons_append, List.nil_append]
    rw [value_spansFrom_pair (by decide) high (by simp)]
    simp [pairToken, h, Item.value_lookup, Item.parts, Item.placed]
  | slot k low =>
    simp only [Item.Before] at h
    simp only [Item.bytes, List.cons_append, List.nil_append]
    by_cases hk : k = 1
    · subst hk
      rw [show (0x80 + 1 : UInt8) = 0x81 from rfl, spansFrom_keptMarker (h rfl)]
      simp [Item.parts, Item.placed]
    · rw [value_spansFrom_pair (by decide) (by grind) (by grind)]
      simp [pairToken, Item.parts, Item.placed]
  | string k low =>
    simp only [Item.bytes, List.cons_append, List.nil_append]
    rw [value_spansFrom_pair (by decide) (by grind) (by simp)]
    simp [pairToken, Item.parts, Item.placed]
  | call id low =>
    simp only [Item.bytes, List.cons_append, List.nil_append]
    rw [value_spansFrom_pair (by decide) (by grind) (by simp),
      spansFrom_pairChar (by decide) (by decide)]
    simp [pairToken, Item.value_lookup, Item.parts, Item.placed, Token.openParen]
  | extendedCall id above low =>
    simp only [Item.bytes, List.cons_append, List.nil_append]
    rw [value_spansFrom_pair (by grind) (by decide) (by simp), value_spansFrom_paren,
      pairToken_extended (by grind)]
    simp [extended, Item.value_lookup, Item.parts, Item.placed]
  | highCall id high plain =>
    simp only [Item.bytes, List.cons_append, List.nil_append]
    rw [value_spansFrom_pair (by grind) (by decide) (by grind), value_spansFrom_paren,
      pairToken_extended high]
    simp [extended, plain, Item.value_lookup, Item.parts, Item.placed]
  | keyword id second text high named above =>
    have hs : second ≠ 0x80 := by grind
    simp only [Item.bytes, List.cons_append, List.nil_append]
    rw [value_spansFrom_pair (by grind) (by grind) (by grind), pairToken_extended high]
    simp [extended, hs, named, Item.parts, Item.placed]
  | integer lead v high plain positive low =>
    simp only [Item.Before] at h
    have hv : (0x80 + v : UInt8) ≠ 0x80 := by grind
    have hcall : ¬ ((0x80 + v : UInt8) = 0x81 ∧ rest.head? = some 0x28) := by
      rintro ⟨h1, hr⟩
      exact h (by grind) hr
    simp only [Item.bytes, List.cons_append, List.nil_append]
    rw [value_spansFrom_pair (by grind) (by grind) (by grind), pairToken_extended high]
    simp [extended, hv, hcall, plain, Item.parts, Item.placed]

end Decode

namespace Item

variable {functions : FunctionTable} {rule : MarkerRule}

theorem before_nil (item : Item functions) : item.Before rule [] := by
  cases item <;> simp [Before, MarkerRule.drops]

/-- The bytes behind an item begin with those of the next one, which is all it looks at. -/
theorem before_append {item next : Item functions} (h : item.Precedes rule next)
    (rest : List UInt8) : item.Before rule (next.bytes ++ rest) := by
  obtain ⟨b, more, hb⟩ := next.exists_bytes
  cases item with
  | rawId id high => exact not_callMark next rest
  | slot k low =>
    intro hk
    have hlt := h hk b (by rw [hb]; rfl)
    rw [hb]
    simpa [MarkerRule.drops] using hlt
  | integer lead v high plain positive low =>
    intro hv hr
    rw [hb, List.cons_append, List.head?_cons, Option.some.injEq] at hr
    exact h hv (bytes_of_paren (hr ▸ hb))
  | char | string | call | extendedCall | highCall | keyword => trivial

theorem spansFrom_items : ∀ (items : List (Item functions)) (pos : Nat),
    items.IsChain (Precedes rule) →
      (Decode.spansFrom rule functions pos pos (items.flatMap bytes)).value
        = placed pos (items.flatMap parts)
  | [], _, _ => rfl
  | [item], pos, _ => by
    simp only [List.flatMap_cons, List.flatMap_nil]
    rw [Decode.spansFrom_item item pos [] item.before_nil, placed_append]
    rfl
  | item :: next :: items, pos, h => by
    obtain ⟨hnext, htail⟩ := List.isChain_cons_cons.1 h
    have hbefore := before_append hnext (items.flatMap bytes)
    rw [← List.flatMap_cons] at hbefore
    have hparts : (item :: next :: items).flatMap parts
        = item.parts ++ (next :: items).flatMap parts := rfl
    rw [List.flatMap_cons, Decode.spansFrom_item item pos _ hbefore,
      spansFrom_items (next :: items) _ htail, hparts, placed_append, sum_parts]

end Item

/-- Decoding inverts the encoding: items of which no two neighbours run into each other are read
back as their tokens, and each token lies on the bytes it was written as. -/
theorem decode_items (rule : MarkerRule) (functions : FunctionTable)
    (items : List (Item functions)) (h : items.IsChain (Item.Precedes rule)) :
    (decode rule functions (items.flatMap Item.bytes)).value = items.flatMap Item.tokens
      ∧ (decodeSpans rule functions (items.flatMap Item.bytes)).value
        = Item.placed 0 (items.flatMap Item.parts) := by
  have hspans := Item.spansFrom_items items 0 h
  refine ⟨?_, hspans⟩
  simp only [decode, Logged.value_map]
  rw [decodeSpans, hspans, Item.map_token_placed, List.map_flatMap]
  rfl

/-- Every kind of item once, with slot 1 before a byte that the rule still allows there. -/
def Item.sample : List (Item BuiltIn.functions) :=
  [.slot 1 (by decide), .string 5 (by decide), .integer 0x90 1 (by decide) rfl (by decide)
    (by decide), .keyword 0xb1 0x85 "TRUE" (by decide) rfl (by decide), .rawId 0xf0 (by decide),
    .call 45 (by decide), .extendedCall 14 (by decide) (by decide), .highCall 0x8e (by decide) rfl,
    .char 0x28 (by decide)]

theorem decode_items_sample :
    Item.sample.IsChain (Item.Precedes .from83)
      ∧ (decode .from83 BuiltIn.functions
          [0x81, 0x81, 0x82, 0x85, 0x90, 0x81, 0xb1, 0x85, 0x80, 0xf0, 0x80, 0xad, 0x80, 0x28, 0x8e,
            0x80, 0x28, 0x8e, 0x81, 0x28, 0x28]).value
        = [.slot 1, .stringRef 5, .integer 1, .name 177 "TRUE", .unknown 0xf0, .name 45 "Message",
            .openParen, .name 14 "GetPlayerSide", .openParen, .name 142 "PlaySound", .openParen,
            .openParen] := by
  have hchain : Item.sample.IsChain (Item.Precedes .from83) := by
    simp [Item.sample, Item.Precedes, Item.bytes, MarkerRule.threshold]
  exact ⟨hchain, (decode_items .from83 BuiltIn.functions Item.sample hchain).1⟩

end MissionScript
