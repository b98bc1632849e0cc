import MissionScript.Yaml.Read.Block
import MissionScript.Yaml.Read.Quoted
import MissionScript.Yaml.Read.Tag

/-!
# From text to tokens

The lexer keeps the columns of the open blocks and, for each level of brackets, the place of a
scalar that may turn out to be a key once a colon follows on the same line. The tokens that make
it a key are then put in front of it. Text that is no YAML has no tokens.
-/

namespace MissionScript

namespace Yaml

/-- A place where a key without indicator may have begun. -/
structure KeyStart where
  position : Position
  /-- The number of tokens in front of it. -/
  number : Nat
  /-- Whether nothing but a key can stand there. -/
  required : Bool
  deriving DecidableEq, Repr

structure Lexer where
  position : Position := {}
  rest : Text
  /-- The tokens so far, the last one first. -/
  tokens : List Token := []
  count : Nat := 0
  /-- The columns of the open blocks, the innermost first. -/
  indents : List Nat := []
  /-- Whether a key without indicator may begin here. -/
  keyAllowed : Bool := true
  /-- The possible keys, one for each level of brackets, the innermost first. -/
  keys : List (Option KeyStart) := [none]

namespace Lexer

def inFlow (s : Lexer) : Bool := 1 < s.keys.length

def push (s : Lexer) (t : Token) : Lexer :=
  { s with tokens := t :: s.tokens, count := s.count + 1 }

def pushAll (s : Lexer) (ts : List Token) : Lexer := ts.foldl push s

/-- Puts tokens in front of the one with the given number. -/
def insertAt (s : Lexer) (number : Nat) (ts : List Token) : Lexer :=
  let behind := s.count - number
  { s with
    tokens := s.tokens.take behind ++ ts.reverse ++ s.tokens.drop behind
    count := s.count + ts.length }

/-- Passes the given number of characters of one line. -/
def skip (s : Lexer) (n : Nat) : Lexer :=
  { s with position := s.position.steps n, rest := s.rest.drop n }

/-- Goes on with what is left of the current line's text. -/
def jump (s : Lexer) (rest : Text) : Lexer := s.skip (s.rest.length - rest.length)

/-! ### Blocks and keys -/

/-- Opens a block at a column further in than the blocks so far. -/
def opensAt (s : Lexer) (column : Nat) : Bool := !s.inFlow && s.indents.head?.all (· < column)

def openBlock (s : Lexer) (column : Nat) (t : Token) : Lexer :=
  if s.opensAt column then { s.push t with indents := column :: s.indents } else s

/-- Closes the blocks that are further in than a column. -/
def closeBlocks (s : Lexer) (column : Nat) : Lexer :=
  if s.inFlow then s
  else
    let closed := s.indents.takeWhile (column < ·)
    { s.pushAll (closed.map fun _ => Token.blockEnd) with indents := s.indents.drop closed.length }

def closeAllBlocks (s : Lexer) : Lexer :=
  if s.inFlow then s
  else { s.pushAll (s.indents.map fun _ => Token.blockEnd) with indents := [] }

/-- Gives up the possible key of the current level, unless it has to be one. -/
def dropKey (s : Lexer) : Option Lexer :=
  match s.keys with
  | some k :: more => if k.required then none else some { s with keys := none :: more }
  | _ => some s

def saveKey (s : Lexer) : Option Lexer :=
  if s.keyAllowed then do
    let required := !s.inFlow && s.indents.head? == some s.position.column
    let s ← s.dropKey
    some { s with keys := some ⟨s.position, s.count, required⟩ :: s.keys.drop 1 }
  else some s

/-- A key without indicator lies on one line and within 1024 characters. -/
def isStale (p : Position) (k : KeyStart) : Bool :=
  k.position.line < p.line || k.position.index + 1024 < p.index

def dropStaleKeys (s : Lexer) : Option Lexer :=
  if s.keys.any fun k => k.any fun k => isStale s.position k && k.required then none
  else some { s with keys := s.keys.map fun k => k.filter (!isStale s.position ·) }

/-! ### Space between tokens -/

/-- Passes white space and comments. A new line outside brackets may start a key; where a key may
start, a tab is not white space. -/
def passSpace (flow : Bool) (keyAllowed comment : Bool) (p : Position) :
    Text → Bool × Position × Text
  | [] => (keyAllowed, p, [])
  | '\r' :: '\n' :: t => passSpace flow (keyAllowed || !flow) false (p.newLine 2) t
  | c :: t =>
    if isBreak c then passSpace flow (keyAllowed || !flow) false (p.newLine 1) t
    else if comment || c == ' ' || (c == '\t' && (flow || !keyAllowed)) ||
        (c == '\ufeff' && p.column == 0) then
      passSpace flow keyAllowed comment p.step t
    else if c == '#' then passSpace flow keyAllowed true p.step t
    else (keyAllowed, p, c :: t)

def toNextToken (s : Lexer) : Lexer :=
  let (keyAllowed, position, rest) := passSpace s.inFlow s.keyAllowed false s.position s.rest
  { s with keyAllowed, position, rest }

/-! ### Tokens -/

def documentMark (s : Lexer) (t : Token) : Option Lexer := do
  let s ← s.closeAllBlocks.dropKey
  some ({ s.skip 3 with keyAllowed := false }.push t)

def directive (s : Lexer) : Option Lexer := do
  let s ← s.closeAllBlocks.dropKey
  let (t, rest) ← Directive.read (s.rest.drop 1)
  some ({ s.jump rest with keyAllowed := false }.push t)

def flowStart (s : Lexer) (t : Token) : Option Lexer := do
  let s ← s.saveKey
  some ({ s.skip 1 with keyAllowed := true, keys := none :: s.keys }.push t)

def flowEnd (s : Lexer) (t : Token) : Option Lexer := do
  let s ← s.dropKey
  let keys := if s.inFlow then s.keys.drop 1 else s.keys
  some ({ s.skip 1 with keyAllowed := false, keys }.push t)

def flowEntry (s : Lexer) : Option Lexer := do
  let s ← s.dropKey
  some ({ s.skip 1 with keyAllowed := true }.push .flowEntry)

def blockEntry (s : Lexer) : Option Lexer :=
  if !s.inFlow && !s.keyAllowed then none
  else do
    let s ← (s.openBlock s.position.column .blockSequenceStart).dropKey
    some ({ s.skip 1 with keyAllowed := true }.push .blockEntry)

def explicitKey (s : Lexer) : Option Lexer :=
  if !s.inFlow && !s.keyAllowed then none
  else do
    let s ← (s.openBlock s.position.column .blockMappingStart).dropKey
    some ({ s.skip 1 with keyAllowed := !s.inFlow }.push .key)

/-- A colon after a possible key makes it one, and opens a mapping at its column if need be. -/
def value (s : Lexer) : Option Lexer :=
  match s.keys with
  | some k :: more =>
    let column := k.position.column
    let s :=
      if s.opensAt column then
        { s.insertAt k.number [.blockMappingStart, .key] with indents := column :: s.indents }
      else s.insertAt k.number [.key]
    some ({ s.skip 1 with keyAllowed := false, keys := none :: more }.push .value)
  | _ =>
    if s.inFlow then some ({ s.skip 1 with keyAllowed := false }.push .value)
    else if s.keyAllowed then
      let s := s.openBlock s.position.column .blockMappingStart
      some ({ s.skip 1 with keyAllowed := true }.push .value)
    else none

/-- A word that may stand at the start of a key. -/
def keyWord (s : Lexer) (read : Text → Option (Token × Text)) : Option Lexer := do
  let s ← s.saveKey
  let (t, rest) ← read s.rest
  some ({ s.jump rest with keyAllowed := false }.push t)

def anchorWord (make : Text → Token) (t : Text) : Option (Token × Text) :=
  (Anchor.name? (t.drop 1)).map fun (name, rest) => (make name, rest)

def takeScalar (s : Lexer) (style : ScalarStyle) (keyAllowed : Bool) (t : Taken) : Lexer :=
  { s with keyAllowed, position := t.position, rest := t.rest }.push (.scalar style t.text)

def quoted (s : Lexer) (read : Position → Text → Option Taken) : Option Lexer := do
  let s ← s.saveKey
  let t ← read s.position.step (s.rest.drop 1)
  some (s.takeScalar .quoted false t)

def block (s : Lexer) (folded : Bool) : Option Lexer := do
  let s ← s.dropKey
  let t ← Block.read folded s.indents.head? s.position.step (s.rest.drop 1)
  some (s.takeScalar (if folded then .folded else .literal) true t)

def plain (s : Lexer) : Option Lexer := do
  let s ← s.saveKey
  let (t, atLine) ← Plain.read s.inFlow (s.indents.head?.elim 0 (· + 1)) s.position s.rest
  some (s.takeScalar .plain atLine t)

/-- Characters that neither start a token nor a plain scalar. -/
def isReserved (c : Char) : Bool := c == '%' || c == '@' || c == '\x60' || isGap c

/-- Takes the next token off a text that starts with one. -/
def token (s : Lexer) (c : Char) (t : Text) : Option Lexer :=
  let gap := atGap t
  if s.position.column = 0 ∧ c = '%' then s.directive
  else if s.position.column = 0 ∧ atDocumentMark (c :: t) then
    s.documentMark (if c = '-' then .documentStart else .documentEnd)
  else if c = '[' then s.flowStart .flowSequenceStart
  else if c = '\x7b' then s.flowStart .flowMappingStart
  else if c = ']' then s.flowEnd .flowSequenceEnd
  else if c = '\x7d' then s.flowEnd .flowMappingEnd
  else if c = ',' then s.flowEntry
  else if c = '-' ∧ gap then s.blockEntry
  else if c = '?' ∧ (s.inFlow ∨ gap) then s.explicitKey
  else if c = ':' ∧ (s.inFlow ∨ gap) then s.value
  else if c = '*' then s.keyWord (anchorWord .alias)
  else if c = '&' then s.keyWord (anchorWord .anchor)
  else if c = '!' then s.keyWord (Tag.read s.inFlow)
  else if c = '|' ∧ !s.inFlow then s.block false
  else if c = '>' ∧ !s.inFlow then s.block true
  else if c = '\'' then s.quoted fun p t => Quoted.singleFrom p [] .none t
  else if c = '"' then s.quoted fun p t => Quoted.doubleFrom p [] .none t
  else if c = '|' ∨ c = '>' ∨ isReserved c then none
  else s.plain

/-- One step: either one token further, or all tokens once the text is used up. -/
def step (s : Lexer) : Option (Lexer ⊕ List Token) := do
  let s ← s.toNextToken.dropStaleKeys
  let s := s.closeBlocks s.position.column
  match s.rest with
  | [] =>
    let s ← s.closeAllBlocks.dropKey
    some (.inr s.tokens.reverse)
  | c :: t => (s.token c t).map .inl

/-- Steps until the text is used up; every step but the last takes a character. -/
def run : Nat → Lexer → Option (List Token)
  | 0, _ => none
  | fuel + 1, s =>
    match s.step with
    | some (.inl s) => run fuel s
    | some (.inr tokens) => some tokens
    | none => none

end Lexer

def Token.scan (t : Text) : Option (List Token) :=
  if t.all isReadable then Lexer.run (t.length + 1) { rest := t } else none

end Yaml

end MissionScript
