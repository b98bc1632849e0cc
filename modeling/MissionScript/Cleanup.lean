import MissionScript.Diagnostics
import MissionScript.Symbols
import MissionScript.Text.Digit

/-!
# Cleaning a line

The compiler parks intermediate results in slot 0 and leaves a reference to it in front of many
operands. The cleanup rules drop that reference where an operand follows; each rule replaces its
matches from left to right, and a match starts where the one before it ended or later. After
them, string references are replaced by the quoted names of the string table.
-/

namespace MissionScript

namespace Cleanup

/-- The names slot 0 can show as. -/
def accumulators : List Text := ["v0".toList, "int_0".toList, "obj_0".toList, "pos_0".toList]

def comparisons : List Text :=
  ["==".toList, "!=".toList, ">=".toList, "<=".toList, ">".toList, "<".toList]

/-- What follows an accumulator and one space. -/
def afterAccumulator? (t : Text) : Option Text :=
  accumulators.findSome? fun a => Text.after? (a ++ [' ']) t

/-- What follows the given operator, a space, an accumulator and a space. -/
def afterOperand? (operator t : Text) : Option Text :=
  (Text.after? (operator ++ [' ']) t).bind afterAccumulator?

inductive Rule where
  /-- An assignment of a capitalised name. -/
  | assignName
  /-- An assignment of a truth value. -/
  | assignBool
  /-- A comparison with a truth value. -/
  | eqBool
  /-- A comparison with a number. -/
  | eqInt
  /-- Any comparison that starts the line or follows a space or a parenthesis. -/
  | cmpOperand
  deriving DecidableEq, Repr

namespace Rule

/-- The rules in the order in which they are applied. -/
def all : List Rule := [assignName, assignBool, eqBool, eqInt, cmpOperand]

def name : Rule → String
  | assignName => "assign-name"
  | assignBool => "assign-bool"
  | eqBool => "eq-bool"
  | eqInt => "eq-int"
  | cmpOperand => "cmp-operand"

/-- An operator with an accumulator before a character of a class. -/
def matchChar (operator : Text) (p : Char → Bool) (t : Text) : Option (Text × Text) :=
  match afterOperand? operator t with
  | some (c :: rest) => if p c then some (operator ++ [' ', c], rest) else none
  | _ => none

/-- An operator with an accumulator before a truth value. -/
def matchBool (operator : Text) (t : Text) : Option (Text × Text) :=
  (afterOperand? operator t).bind fun t =>
    ["TRUE".toList, "FALSE".toList].findSome? fun w =>
      (Text.after? w t).map (operator ++ ' ' :: w, ·)

def matchComparison (lead t : Text) : Option (Text × Text) :=
  comparisons.findSome? fun op => (afterOperand? op t).map (lead ++ op ++ [' '], ·)

/-- The replacement of the match that starts at a text, and what follows the match. The flag says
that the text is the whole line. -/
def matchAt (rule : Rule) (atStart : Bool) (t : Text) : Option (Text × Text) :=
  match rule with
  | assignName => matchChar ['='] (fun c => 'A' ≤ c && c ≤ 'Z') t
  | assignBool => matchBool ['='] t
  | eqBool => matchBool ['=', '='] t
  | eqInt => matchChar ['=', '='] Text.isDigit t
  | cmpOperand =>
    (if atStart then matchComparison [] t else none).or <|
      match t with
      | c :: rest => if c = ' ' || c = '(' then matchComparison [c] rest else none
      | [] => none

end Rule

theorem length_lt_of_afterAccumulator? {t r : Text} (h : afterAccumulator? t = some r) :
    r.length < t.length := by
  obtain ⟨a, -, ha⟩ := List.exists_of_findSome?_eq_some h
  rw [Text.after?_eq_some] at ha
  simp [ha]
  omega

theorem length_lt_of_afterOperand? {op t r : Text} (h : afterOperand? op t = some r) :
    r.length < t.length := by
  obtain ⟨u, hu, hr⟩ := Option.bind_eq_some_iff.1 h
  rw [Text.after?_eq_some] at hu
  have := length_lt_of_afterAccumulator? hr
  simp [hu]
  omega

theorem Rule.length_lt_of_matchChar {op t out rest : Text} {p : Char → Bool}
    (h : matchChar op p t = some (out, rest)) : rest.length < t.length := by
  unfold matchChar at h
  split at h
  · next c r hr =>
    have := length_lt_of_afterOperand? hr
    split at h
    · simp only [Option.some.injEq, Prod.mk.injEq] at h
      obtain ⟨-, rfl⟩ := h
      simp only [List.length_cons] at this
      omega
    · simp at h
  · simp at h

theorem Rule.length_lt_of_matchBool {op t out rest : Text}
    (h : matchBool op t = some (out, rest)) : rest.length < t.length := by
  obtain ⟨u, hu, hr⟩ := Option.bind_eq_some_iff.1 h
  obtain ⟨w, -, hw⟩ := List.exists_of_findSome?_eq_some hr
  obtain ⟨r, hr', he⟩ := Option.map_eq_some_iff.1 hw
  obtain ⟨-, rfl⟩ := Prod.mk.injEq _ _ _ _ ▸ he
  rw [Text.after?_eq_some] at hr'
  have := length_lt_of_afterOperand? hu
  simp only [hr', List.length_append] at this
  omega

theorem Rule.length_lt_of_matchComparison {lead t out rest : Text}
    (h : matchComparison lead t = some (out, rest)) : rest.length < t.length := by
  obtain ⟨op, -, hop⟩ := List.exists_of_findSome?_eq_some h
  obtain ⟨r, hr, he⟩ := Option.map_eq_some_iff.1 hop
  obtain ⟨-, rfl⟩ := Prod.mk.injEq _ _ _ _ ▸ he
  exact length_lt_of_afterOperand? hr

/-- A match is never empty. -/
theorem Rule.length_lt_of_matchAt {rule : Rule} {atStart : Bool} {t out rest : Text}
    (h : rule.matchAt atStart t = some (out, rest)) : rest.length < t.length := by
  cases rule with
  | assignName => exact length_lt_of_matchChar h
  | assignBool => exact length_lt_of_matchBool h
  | eqBool => exact length_lt_of_matchBool h
  | eqInt => exact length_lt_of_matchChar h
  | cmpOperand =>
    simp only [matchAt, Option.or_eq_some_iff] at h
    rcases h with h | ⟨-, h⟩
    · split at h
      · exact length_lt_of_matchComparison h
      · simp at h
    · split at h
      · split at h
        · have := length_lt_of_matchComparison h
          simp only [List.length_cons]
          omega
        · simp at h
      · simp at h

namespace Rule

/-- Replaces the matches of a rule from left to right. -/
def replace (rule : Rule) (atStart : Bool) (t : Text) : Text :=
  match _ : rule.matchAt atStart t with
  | some (out, rest) => out ++ replace rule false rest
  | none =>
    match t with
    | [] => []
    | c :: cs => c :: replace rule false cs
termination_by t.length
decreasing_by
  · exact length_lt_of_matchAt ‹_›
  · simp

/-- Whether a rule has a match anywhere in a text. -/
def occurs (rule : Rule) (atStart : Bool) : Text → Bool
  | [] => (rule.matchAt atStart []).isSome
  | c :: cs => (rule.matchAt atStart (c :: cs)).isSome || occurs rule false cs

def apply (rule : Rule) (line : Text) : Text := rule.replace true line

end Rule

/-- Applies rules in order, with a message for each that has a match. -/
def applyRules : List Rule → Text → Logged Text
  | [], line => pure line
  | rule :: rules, line =>
    if rule.occurs true line then do
      Logged.tell (.cleaned rule.name line (rule.apply line))
      applyRules rules (rule.apply line)
    else applyRules rules line

/-- Drops the references to slot 0 in front of operands. A line was changed exactly if a message
is left. -/
def stripAccumulator (line : Text) : Logged Text := applyRules Rule.all line

/-- The digits of the string reference that starts at a text, and what follows it. -/
def reference? (t : Text) : Option (Text × Text) :=
  match Text.after? "STR[".toList t with
  | none => none
  | some t =>
    let digits := t.takeWhile Text.isDigit
    match t.dropWhile Text.isDigit with
    | ']' :: rest => if digits.isEmpty then none else some (digits, rest)
    | _ => none

theorem length_lt_of_reference? {t digits rest : Text} (h : reference? t = some (digits, rest)) :
    rest.length < t.length := by
  unfold reference? at h
  split at h
  · simp at h
  · next u hu =>
    rw [Text.after?_eq_some] at hu
    simp only at h
    split at h
    · next r hr =>
      split at h
      · simp at h
      · simp only [Option.some.injEq, Prod.mk.injEq] at h
        obtain ⟨-, rfl⟩ := h
        have := congrArg List.length (List.takeWhile_append_dropWhile (p := Text.isDigit) (l := u))
        simp only [hr, List.length_append, List.length_cons] at this
        simp only [hu, List.length_append]
        omega
    · simp at h

/-- The text that stands for a reference with the given digits. Digits of another script than
ASCII do not make an index. -/
def resolve (strings : StringTable) (digits : Text) : Text :=
  match (Text.digits? 10 Text.decimalDigit? digits).bind strings.get? with
  | some name => '"' :: (name.toList ++ ['"'])
  | none => "STR[".toList ++ digits ++ [']']

def substituteWith (strings : StringTable) (t : Text) : Text :=
  match _ : reference? t with
  | some (digits, rest) => resolve strings digits ++ substituteWith strings rest
  | none =>
    match t with
    | [] => []
    | c :: cs => c :: substituteWith strings cs
termination_by t.length
decreasing_by
  · exact length_lt_of_reference? ‹_›
  · simp

/-- Replaces the string references of a line by quoted names; without a table, and for an index
out of range, a reference stays as it is. -/
def substituteStrings (strings : Option StringTable) (line : Text) : Text :=
  match strings with
  | some table => substituteWith table line
  | none => line

end Cleanup

end MissionScript
