import MissionScript.Diagnostics
import MissionScript.Symbols
import MissionScript.Token

/-!
# Decoding a segment

A byte below 0x80 stands for itself. Any other byte opens a pair with the byte after it: a pair
with a second byte below 0x80 is that character, and otherwise the first byte says how the second
is read. Two marker bytes in front of a further byte from the rule's threshold on are no pair: the
first of them is dropped, and its place counts to the span of the token that follows. Every byte
of the segment lies in the span of exactly one token.
-/

namespace MissionScript

/-- From which byte on a doubled marker is a dropped marker and not slot 1. -/
inductive MarkerRule where
  | from81
  | from83
  deriving DecidableEq, Repr

def MarkerRule.threshold : MarkerRule → UInt8
  | from81 => 0x81
  | from83 => 0x83

/-- A token and the bytes of its segment that it was read from. -/
structure Spanned where
  offset : Nat
  length : Nat
  token : Token
  deriving DecidableEq, Repr

def Spanned.stop (s : Spanned) : Nat := s.offset + s.length

namespace Decode

def lookup (functions : FunctionTable) (id : UInt8) : Logged Token :=
  match functions.name? id with
  | some text => pure (.name id text)
  | none => do
    Logged.tell (.unresolvedId id)
    pure (.unknown id)

/-- A pair from 0x83 on carries an id in its first byte: of a call if a parenthesis follows, else
of a keyword; what is neither is a variable or an integer. -/
def extended (functions : FunctionTable) (p s : UInt8) (ahead : List UInt8) : Logged Token :=
  let called := ahead.head? = some 0x28
  if s = 0x80 then
    if called then lookup functions (p - 0x80)
    else match functions.keyword? p with
      | some text => pure (.name p text)
      | none => pure (.slot (p - 0x80))
  else match functions.keyword? p with
    | some text => pure (.name p text)
    | none =>
      if s = 0x81 ∧ called then lookup functions p else pure (.integer (s - 0x80))

/-- The two rules part exactly on the bytes between their thresholds. -/
def rulesPart (ahead : UInt8) : Bool :=
  (MarkerRule.threshold .from81 ≤ ahead) != (MarkerRule.threshold .from83 ≤ ahead)

/-- A doubled marker at the given offset: none if its first byte is dropped. -/
def doubledMarker (rule : MarkerRule) (offset : Nat) : List UInt8 → Logged (Option Token)
  | [] => pure (some (.slot 1))
  | b :: _ => do
    if rulesPart b then Logged.tell (.rulesDisagree offset b)
    pure (if rule.threshold ≤ b then none else some (.slot 1))

/-- The token of a pair of bytes from 0x80 on, or none if the first is a dropped marker. -/
def highPair (rule : MarkerRule) (functions : FunctionTable) (offset : Nat) (p s : UInt8)
    (ahead : List UInt8) : Logged (Option Token) :=
  if p = 0x80 then do
    let called := [0x80, 0x28].isPrefixOf ahead
    some <$> lookup functions (if called then s - 0x80 else s)
  else if p = 0x81 then
    if s = 0x81 then doubledMarker rule offset ahead else pure (some (.slot (s - 0x80)))
  else if p = 0x82 then pure (some (.stringRef (s - 0x80)))
  else some <$> extended functions p s ahead

/-- Reads the bytes at `pos`; the next token's span begins at `start`, which lies before `pos`
after a dropped marker. -/
def spansFrom (rule : MarkerRule) (functions : FunctionTable) (start pos : Nat) :
    List UInt8 → Logged (List Spanned)
  | [] => pure []
  | [p] =>
    if p < 0x80 then pure [⟨start, pos + 1 - start, .char p⟩]
    else do
      Logged.tell (.orphanPrefix p)
      pure [⟨start, pos + 1 - start, .terminator⟩]
  | p :: s :: rest =>
    if p < 0x80 then do
      let spans ← spansFrom rule functions (pos + 1) (pos + 1) (s :: rest)
      pure (⟨start, pos + 1 - start, .char p⟩ :: spans)
    else if s < 0x80 then do
      let spans ← spansFrom rule functions (pos + 2) (pos + 2) rest
      pure (⟨start, pos + 2 - start, .char s⟩ :: spans)
    else do
      match ← highPair rule functions pos p s rest with
      | none => spansFrom rule functions start (pos + 1) (s :: rest)
      | some token =>
        let spans ← spansFrom rule functions (pos + 2) (pos + 2) rest
        pure (⟨start, pos + 2 - start, token⟩ :: spans)

end Decode

/-- The tokens of a segment with their spans, in order. -/
def decodeSpans (rule : MarkerRule) (functions : FunctionTable) (segment : List UInt8) :
    Logged (List Spanned) :=
  Decode.spansFrom rule functions 0 0 segment

def decode (rule : MarkerRule) (functions : FunctionTable) (segment : List UInt8) :
    Logged (List Token) :=
  (·.map Spanned.token) <$> decodeSpans rule functions segment

end MissionScript
