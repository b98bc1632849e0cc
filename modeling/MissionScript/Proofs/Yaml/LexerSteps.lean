import MissionScript.Proofs.Yaml.ScalarReading
import MissionScript.Yaml.Token.Lexer

/-!
# Steps of the lexer outside brackets

Outside brackets the lexer holds the tokens so far, the columns of the open blocks and at most one
possible key (`Lexer.state`). White space in front of a token, a key that the line gives up and
blocks that a token closes change nothing about the step that follows, so a run may be taken up
behind them (`yields_space`, `yields_lineBreak`, `yields_closeBlocks`). Each kind of token that
written text has takes one step: a plain scalar (`step_plain`), one in single quotes
(`step_singleQuoted`), empty brackets (`step_opening`, `step_closing`), and the colon that makes the
scalar in front of it a key (`step_value`).
-/


namespace MissionScript

namespace Yaml

open Plain (ReadsPlain)

namespace Lexer

/-- The lexer at a place outside brackets, with the tokens so far in order and at most one possible
key. -/
def state (p : Position) (rest : Text) (tokens : List Token) (indents : List Nat)
    (keyAllowed : Bool) (key : Option KeyStart := none) : Lexer :=
  { position := p, rest, tokens := tokens.reverse, count := tokens.length, indents, keyAllowed,
    keys := [key] }

/-- With fuel for the text that is left, the lexer goes on to give the tokens. -/
def Yields (s : Lexer) (tokens : List Token) : Prop :=
  ∀ fuel, s.rest.length < fuel → run fuel s = some tokens

namespace Yields

variable {s s' : Lexer} {tokens : List Token}

theorem of_step (h : s.step = some (.inl s')) (hlength : s'.rest.length < s.rest.length)
    (hs' : Yields s' tokens) : Yields s tokens := by
  intro fuel hfuel
  obtain ⟨fuel, rfl⟩ : ∃ n, fuel = n + 1 := ⟨fuel - 1, by omega⟩
  rw [run, h]
  exact hs' fuel (by omega)

/-- States that take the same step go on in the same way. -/
theorem of_step_eq (h : s.step = s'.step) (hlength : s'.rest.length ≤ s.rest.length)
    (hs' : Yields s' tokens) : Yields s tokens := by
  intro fuel hfuel
  have hrun := hs' fuel (by omega)
  cases fuel with
  | zero => exact hrun
  | succ fuel => rwa [run, h]

end Yields

/-! ## Space between tokens -/

section Space

variable {flow keyAllowed : Bool} {p : Position} {rest : Text}

theorem passSpace_of_startsToken (h : StartsToken rest) :
    passSpace flow keyAllowed false p rest = (keyAllowed, p, rest) := by
  cases rest with
  | nil => rfl
  | cons c t =>
    obtain ⟨hgap, hhash, hmark⟩ := h c rfl
    simp only [isGap, isSpaceOrTab, Bool.or_eq_false_iff] at hgap
    obtain ⟨⟨hspace, htab⟩, hbreak⟩ := hgap
    have hreturn : c ≠ '\r' := by
      rintro rfl
      exact absurd hbreak (by decide)
    rw [passSpace.eq_3 _ _ _ _ _ _ fun _ hr _ => hreturn hr, hbreak, hspace, htab]
    simp [hhash, hmark]

theorem passSpace_space :
    passSpace flow keyAllowed false p (' ' :: rest)
      = passSpace flow keyAllowed false p.step rest := by
  rw [passSpace.eq_3 _ _ _ _ _ _ (by simp)]
  simp [isBreak]

theorem passSpace_spaces : ∀ (n : Nat) (p : Position),
    passSpace flow keyAllowed false p (Scalar.spaces n ++ rest)
      = passSpace flow keyAllowed false (p.steps n) rest
  | 0, p => rfl
  | n + 1, p => by
    have hcons : Scalar.spaces (n + 1) ++ rest = ' ' :: (Scalar.spaces n ++ rest) := rfl
    rw [hcons, passSpace_space, passSpace_spaces n, Position.step_eq_steps, Position.steps_steps,
      Nat.add_comm]

theorem passSpace_lineBreak (n : Nat) (h : StartsToken rest) :
    passSpace false keyAllowed false p ('\n' :: (Scalar.spaces n ++ rest))
      = (true, (p.newLine 1).steps n, rest) := by
  rw [passSpace.eq_3 _ _ _ _ _ _ (by simp), if_pos (by decide), passSpace_spaces,
    passSpace_of_startsToken h, Bool.not_false, Bool.or_true]

end Space

section Steps

variable {p : Position} {rest : Text} {tokens : List Token} {indents : List Nat} {keyAllowed : Bool}
  {key : Option KeyStart}

/-- A step sees the lexer only behind the white space and without stale keys. -/
theorem step_congr {s s' : Lexer} (h : s.toNextToken.dropStaleKeys = s'.toNextToken.dropStaleKeys) :
    s.step = s'.step := by
  unfold step
  rw [h]

theorem toNextToken_of_startsToken (h : StartsToken rest) :
    (state p rest tokens indents keyAllowed key).toNextToken
      = state p rest tokens indents keyAllowed key := by
  simp [toNextToken, state, passSpace_of_startsToken h]

theorem toNextToken_space :
    (state p (' ' :: rest) tokens indents keyAllowed key).toNextToken
      = (state p.step rest tokens indents keyAllowed key).toNextToken := by
  simp [toNextToken, state, inFlow, passSpace_space]

theorem toNextToken_lineBreak (n : Nat) (h : StartsToken rest) :
    (state p ('\n' :: (Scalar.spaces n ++ rest)) tokens indents keyAllowed key).toNextToken
      = state ((p.newLine 1).steps n) rest tokens indents true key := by
  simp [toNextToken, state, inFlow, passSpace_lineBreak n h]

theorem dropStaleKeys_of_isStale_eq_false (h : ∀ k ∈ key, isStale p k = false) :
    (state p rest tokens indents keyAllowed key).dropStaleKeys
      = some (state p rest tokens indents keyAllowed key) := by
  cases key with
  | none => simp [dropStaleKeys, state]
  | some k => simp [dropStaleKeys, state, h k rfl]

/-- A possible key that the next line gives up. -/
def Expires (key : Option KeyStart) (line : Nat) : Prop :=
  ∀ k ∈ key, k.required = false ∧ k.position.line < line

theorem dropStaleKeys_of_expires (h : Expires key p.line) :
    (state p rest tokens indents keyAllowed key).dropStaleKeys
      = some (state p rest tokens indents keyAllowed) := by
  cases key with
  | none => exact dropStaleKeys_of_isStale_eq_false (by simp)
  | some k =>
    obtain ⟨hrequired, hline⟩ := h k rfl
    simp [dropStaleKeys, state, isStale, hrequired, hline]

theorem yields_space {result : List Token}
    (h : Yields (state p.step rest tokens indents keyAllowed key) result) :
    Yields (state p (' ' :: rest) tokens indents keyAllowed key) result :=
  .of_step_eq (step_congr (congrArg dropStaleKeys toNextToken_space)) (by simp [state]) h

/-- On a new line the key that was possible on the one before is given up. -/
theorem yields_of_expires {result : List Token} (hkey : Expires key p.line)
    (hrest : StartsToken rest) (h : Yields (state p rest tokens indents keyAllowed) result) :
    Yields (state p rest tokens indents keyAllowed key) result := by
  refine .of_step_eq (step_congr ?_) (by simp [state]) h
  rw [toNextToken_of_startsToken hrest, toNextToken_of_startsToken hrest,
    dropStaleKeys_of_expires hkey, dropStaleKeys_of_isStale_eq_false (by simp)]

theorem yields_lineBreak {result : List Token} (hkey : Expires key (p.line + 1)) {n : Nat}
    (hrest : StartsToken rest)
    (h : Yields (state ((p.newLine 1).steps n) rest tokens indents true) result) :
    Yields (state p ('\n' :: (Scalar.spaces n ++ rest)) tokens indents keyAllowed key) result := by
  refine .of_step_eq (step_congr ?_) ?_ (yields_of_expires hkey hrest h)
  · rw [toNextToken_lineBreak n hrest, toNextToken_of_startsToken hrest]
  · simp only [state, List.length_cons, List.length_append]
    omega

/-! ## Blocks -/

theorem pushAll_state (ts : List Token) :
    (state p rest tokens indents keyAllowed key).pushAll ts
      = state p rest (tokens ++ ts) indents keyAllowed key := by
  induction ts generalizing tokens with
  | nil => simp [pushAll]
  | cons t ts ih =>
    have hpush : (state p rest tokens indents keyAllowed key).push t
        = state p rest (tokens ++ [t]) indents keyAllowed key := by simp [push, state]
    rw [pushAll, List.foldl_cons, hpush]
    simpa [pushAll] using @ih (tokens ++ [t])

theorem closeBlocks_state {column : Nat} (closed : List Nat) {more : List Nat}
    (hclosed : ∀ i ∈ closed, column < i) (hmore : ∀ i ∈ more.head?, i ≤ column) :
    (state p rest tokens (closed ++ more) keyAllowed key).closeBlocks column
      = state p rest (tokens ++ List.replicate closed.length .blockEnd) more keyAllowed key := by
  have htake : (closed ++ more).takeWhile (column < ·) = closed := by
    rw [List.takeWhile_append_of_pos (by simpa using hclosed)]
    cases more with
    | nil => simp
    | cons i more =>
      have hi : ¬ column < i := Nat.not_lt.2 (hmore i rfl)
      simp [hi]
  have hflow : (state p rest tokens (closed ++ more) keyAllowed key).inFlow = false := rfl
  have hindents : (state p rest tokens (closed ++ more) keyAllowed key).indents = closed ++ more :=
    rfl
  simp only [closeBlocks, hflow, hindents, htake, pushAll_state, List.map_const']
  simp [state]

theorem closeBlocks_of_le {column : Nat} (h : ∀ i ∈ indents.head?, i ≤ column) :
    (state p rest tokens indents keyAllowed key).closeBlocks column
      = state p rest tokens indents keyAllowed key := by
  simpa using closeBlocks_state [] (by simp) h

/-- The step to a token that no block has to be closed for. -/
theorem step_state {c : Char} {t : Text} (hkey : ∀ k ∈ key, isStale p k = false)
    (hstart : StartsToken (c :: t)) (hindents : ∀ i ∈ indents.head?, i ≤ p.column) :
    (state p (c :: t) tokens indents keyAllowed key).step
      = ((state p (c :: t) tokens indents keyAllowed key).token c t).map .inl := by
  have hposition : (state p (c :: t) tokens indents keyAllowed key).position = p := rfl
  rw [step, toNextToken_of_startsToken hstart, dropStaleKeys_of_isStale_eq_false hkey]
  simp only [Option.bind_eq_bind, Option.bind_some, hposition, closeBlocks_of_le hindents]
  rfl

theorem yields_closeBlocks {result : List Token} {closed more : List Nat} (hrest : StartsToken rest)
    (hclosed : ∀ i ∈ closed, p.column < i) (hmore : ∀ i ∈ more.head?, i ≤ p.column)
    (h : Yields (state p rest (tokens ++ List.replicate closed.length .blockEnd) more keyAllowed)
      result) :
    Yields (state p rest tokens (closed ++ more) keyAllowed) result := by
  refine .of_step_eq ?_ (by simp [state]) h
  have hposition (ts : List Token) (is : List Nat) : (state p rest ts is keyAllowed).position = p :=
    rfl
  rw [step, step, toNextToken_of_startsToken hrest, toNextToken_of_startsToken hrest,
    dropStaleKeys_of_isStale_eq_false (by simp), dropStaleKeys_of_isStale_eq_false (by simp)]
  simp only [Option.bind_eq_bind, Option.bind_some, hposition,
    closeBlocks_state closed hclosed hmore, closeBlocks_of_le hmore]

/-! ## Tokens -/

/-- A character that no rule but the one for plain scalars takes. -/
theorem token_eq_plain {s : Lexer} {c : Char} {t : Text} (hindicator : Scalar.isIndicator c = false)
    (hgap : isGap c = false) (hmark : ¬ ((c = '?' ∨ c = ':' ∨ c = '-') ∧ atGap t = true))
    (hflow : s.inFlow = false)
    (hdocument : s.position.column = 0 → atDocumentMark (c :: t) = false) :
    s.token c t = s.plain := by
  simp only [Scalar.isIndicator, List.contains_eq_mem, decide_eq_false_iff_not, List.mem_cons,
    List.not_mem_nil, or_false, not_or] at hindicator
  have hmark' (d : Char) (hd : d = '?' ∨ d = ':' ∨ d = '-') : ¬ (c = d ∧ atGap t = true) :=
    fun ⟨hc, hat⟩ => hmark ⟨hc ▸ hd, hat⟩
  have hdocument' : ¬ (s.position.column = 0 ∧ atDocumentMark (c :: t) = true) := by
    rintro ⟨hcolumn, hat⟩
    rw [hdocument hcolumn] at hat
    exact absurd hat (by simp)
  simp only [token, hflow]
  simp [hindicator, hmark' '-' (by simp), hmark' '?' (by simp), hmark' ':' (by simp), hdocument',
    isReserved, hgap]

/-- The key that may have begun at a place. -/
def keyAt (p : Position) (number : Nat) (indents : List Nat) (keyAllowed : Bool) :
    Option KeyStart :=
  if keyAllowed then some ⟨p, number, indents.head? == some p.column⟩ else none

theorem saveKey_state :
    (state p rest tokens indents keyAllowed).saveKey
      = some (state p rest tokens indents keyAllowed
          (keyAt p tokens.length indents keyAllowed)) := by
  cases keyAllowed
  · rfl
  · simp [saveKey, state, dropKey, keyAt, inFlow]

/-- Further in than the innermost block, nothing has to be a key. -/
theorem expires_keyAt {number line : Nat} (hindents : ∀ i ∈ indents.head?, i < p.column)
    (hline : p.line < line) : Expires (keyAt p number indents keyAllowed) line := by
  intro k hk
  obtain ⟨-, rfl⟩ : keyAllowed = true ∧ ⟨p, number, indents.head? == some p.column⟩ = k := by
    simpa [keyAt] using hk
  refine ⟨?_, hline⟩
  rw [beq_eq_false_iff_ne]
  intro hhead
  exact Nat.lt_irrefl _ (hindents p.column hhead)

/-- A plain scalar up to where it ends. -/
theorem step_plain {word behind : Text} (h : ReadsPlain word behind) {indent : Nat}
    (hindent : indent = indents.head?.elim 0 (· + 1)) (hcolumn : ' ' ∈ word → indent ≤ p.column)
    (hindents : ∀ i ∈ indents.head?, i ≤ p.column)
    (hdocument : p.column = 0 → atDocumentMark (word ++ behind) = false) {taken : Taken}
    {atLine : Bool}
    (hread : Plain.readFrom false indent (p.steps word.length) word .none behind
      = some (taken, atLine)) :
    (state p (word ++ behind) tokens indents keyAllowed).step
      = some (.inl (state taken.position taken.rest (tokens ++ [.scalar .plain taken.text]) indents
          atLine (keyAt p tokens.length indents keyAllowed))) := by
  have hplain : (state p (word ++ behind) tokens indents keyAllowed).plain
      = some (state taken.position taken.rest (tokens ++ [.scalar .plain taken.text]) indents
          atLine (keyAt p tokens.length indents keyAllowed)) := by
    have hread' : Plain.read false indent p (word ++ behind) = some (taken, atLine) :=
      (h.readFrom_append hcolumn).trans hread
    rw [plain, saveKey_state]
    simp [state, inFlow, ← hindent, hread', takeScalar, push]
  have hstart := h.startsToken
  obtain ⟨c, more, rfl, hspace, hindicator, hmark, -⟩ := h.starts
  have hgap : isGap c = false := (hstart c rfl).1
  rw [List.cons_append] at hplain hstart ⊢
  rw [step_state (by simp) hstart hindents, token_eq_plain hindicator hgap hmark rfl hdocument,
    hplain]
  rfl

theorem step_singleQuoted {behind : Text} (hcolumn : 0 < p.column)
    (hindents : ∀ i ∈ indents.head?, i ≤ p.column) {taken : Taken}
    (hread : Quoted.singleFrom p.step [] .none behind = some taken) :
    (state p ('\'' :: behind) tokens indents keyAllowed).step
      = some (.inl (state taken.position taken.rest (tokens ++ [.scalar .quoted taken.text]) indents
          false (keyAt p tokens.length indents keyAllowed))) := by
  have htoken : (state p ('\'' :: behind) tokens indents keyAllowed).token '\'' behind
      = (state p ('\'' :: behind) tokens indents keyAllowed).quoted
          fun p t => Quoted.singleFrom p [] .none t := by
    have hline : ¬ (state p ('\'' :: behind) tokens indents keyAllowed).position.column = 0 :=
      Nat.ne_of_gt hcolumn
    simp [token, hline]
  rw [step_state (by simp) (startsToken_cons (by decide)) hindents, htoken, quoted, saveKey_state]
  simp [state, hread, takeScalar, push]

/-- The pairs of brackets with their tokens. -/
def bracketPairs : List ((Char × Token) × (Char × Token)) :=
  [(('[', .flowSequenceStart), (']', .flowSequenceEnd)),
    (('\x7b', .flowMappingStart), ('\x7d', .flowMappingEnd))]

/-- The lexer inside brackets of the outermost level. -/
def bracketed (p : Position) (rest : Text) (tokens : List Token) (indents : List Nat) : Lexer :=
  { state p rest tokens indents true with keys := [none, none] }

theorem startsToken_of_mem_bracketPairs {c d : Char} {opening closing : Token} (t : Text)
    (hpair : ((c, opening), (d, closing)) ∈ bracketPairs) :
    StartsToken (c :: t) ∧ StartsToken (d :: t) := by
  have hall : ∀ pair ∈ bracketPairs,
      (isGap pair.1.1 = false ∧ pair.1.1 ≠ '#' ∧ pair.1.1 ≠ '\ufeff')
        ∧ isGap pair.2.1 = false ∧ pair.2.1 ≠ '#' ∧ pair.2.1 ≠ '\ufeff' := by decide
  exact ⟨startsToken_cons (hall _ hpair).1, startsToken_cons (hall _ hpair).2⟩

theorem step_opening {c d : Char} {opening closing : Token} {t : Text}
    (hpair : ((c, opening), (d, closing)) ∈ bracketPairs) (hcolumn : 0 < p.column)
    (hindents : ∀ i ∈ indents.head?, i ≤ p.column) :
    (state p (c :: t) tokens indents false).step
      = some (.inl (bracketed p.step t (tokens ++ [opening]) indents)) := by
  have hline : ¬ p.column = 0 := Nat.ne_of_gt hcolumn
  rw [step_state (by simp) (startsToken_of_mem_bracketPairs t hpair).1 hindents]
  simp only [bracketPairs, List.mem_cons, Prod.mk.injEq, List.not_mem_nil, or_false] at hpair
  rcases hpair with ⟨⟨rfl, rfl⟩, -, -⟩ | ⟨⟨rfl, rfl⟩, -, -⟩ <;>
    simp [token, hline, flowStart, saveKey, skip, push, state, bracketed, Position.step]

theorem step_closing {c d : Char} {opening closing : Token} {t : Text}
    (hpair : ((c, opening), (d, closing)) ∈ bracketPairs) (hcolumn : 0 < p.column) :
    (bracketed p (d :: t) tokens indents).step
      = some (.inl (state p.step t (tokens ++ [closing]) indents false)) := by
  have hline : ¬ p.column = 0 := Nat.ne_of_gt hcolumn
  have hstart := (startsToken_of_mem_bracketPairs t hpair).2
  simp only [bracketPairs, List.mem_cons, Prod.mk.injEq, List.not_mem_nil, or_false] at hpair
  rcases hpair with ⟨-, rfl, rfl⟩ | ⟨-, rfl, rfl⟩ <;>
    simp [step, bracketed, toNextToken, passSpace_of_startsToken hstart, dropStaleKeys, closeBlocks,
      inFlow, token, hline, flowEnd, dropKey, skip, push, state, Position.step]

theorem insertAt_state {scalar : Token} (ts : List Token) :
    (state p rest (tokens ++ [scalar]) indents keyAllowed key).insertAt tokens.length ts
      = state p rest (tokens ++ ts ++ [scalar]) indents keyAllowed key := by
  have hcount : tokens.length + 1 + ts.length = tokens.length + (ts.length + 1) := by omega
  simp [insertAt, state, hcount]

/-- A colon behind a scalar that may be a key makes it one. -/
theorem step_value {k : KeyStart} {scalar : Token} (hnumber : k.number = tokens.length)
    (hstale : isStale p k = false) (hgap : atGap rest = true) (hcolumn : 0 < p.column)
    (hindents : ∀ i ∈ indents.head?, i ≤ p.column) :
    (state p (':' :: rest) (tokens ++ [scalar]) indents false (some k)).step
      = some (.inl (if indents.head?.all (· < k.position.column) then
          state p.step rest (tokens ++ [.blockMappingStart, .key, scalar, .value])
            (k.position.column :: indents) false
        else state p.step rest (tokens ++ [.key, scalar, .value]) indents false)) := by
  have hline : ¬ p.column = 0 := Nat.ne_of_gt hcolumn
  have htoken : (state p (':' :: rest) (tokens ++ [scalar]) indents false (some k)).token ':' rest
      = (state p (':' :: rest) (tokens ++ [scalar]) indents false (some k)).value := by
    simp [token, state, hline, hgap]
  have hopens : (state p (':' :: rest) (tokens ++ [scalar]) indents false (some k)).opensAt
      k.position.column = indents.head?.all (· < k.position.column) := by
    simp [opensAt, inFlow, state]
  rw [step_state (by simpa using hstale) (startsToken_cons (by decide)) hindents, htoken]
  have hkeys : (state p (':' :: rest) (tokens ++ [scalar]) indents false (some k)).keys
      = [some k] := rfl
  simp only [value, hkeys, hopens, hnumber, insertAt_state]
  split_ifs <;> simp [state, skip, push, Position.step]

end Steps

end Lexer

end Yaml

end MissionScript
