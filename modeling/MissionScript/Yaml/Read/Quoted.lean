import MissionScript.Yaml.Read.Plain

/-!
# Reading a quoted scalar

Between single quotes a doubled quote stands for one. Between double quotes a backslash starts an
escape, and at the end of a line it joins the line to the next. Both fold line breaks, and
neither may run over the bounds of its document.
-/

namespace MissionScript

namespace Yaml

namespace Quoted

/-- Reads behind the opening single quote and `text`. -/
def singleFrom (p : Position) (text : Text) (held : Held) : Text → Option Taken
  | [] => none
  | '\r' :: '\n' :: t => singleFrom (p.newLine 2) text (held.lineBreak '\n') t
  | '\'' :: '\'' :: t => singleFrom (p.steps 2) (text ++ held.join ++ ['\'']) .none t
  | c :: t =>
    if isBreak c then singleFrom (p.newLine 1) text (held.lineBreak (keptBreak c)) t
    else if isSpaceOrTab c then singleFrom p.step text (held.blank c) t
    else if c = '\'' then some ⟨text ++ held.join, p.step, t⟩
    else if p.column == 0 && atDocumentMark (c :: t) then none
    else singleFrom p.step (text ++ held.join ++ [c]) .none t

/-- The character of an escape by one letter. -/
def letterEscape? (c : Char) : Option Char :=
  match c with
  | '0' => some '\x00'
  | 'a' => some '\x07'
  | 'b' => some '\x08'
  | 't' => some '\t'
  | '\t' => some '\t'
  | 'n' => some '\n'
  | 'v' => some '\x0b'
  | 'f' => some '\x0c'
  | 'r' => some '\r'
  | 'e' => some '\x1b'
  | ' ' => some ' '
  | '"' => some '"'
  | '/' => some '/'
  | '\\' => some '\\'
  | 'N' => some '\x85'
  | '_' => some '\xa0'
  | 'L' => some '\u2028'
  | 'P' => some '\u2029'
  | _ => none

/-- The number of hexadecimal digits of an escape by code point. -/
def codeWidth? (c : Char) : Option Nat :=
  if c = 'x' then some 2 else if c = 'u' then some 4 else if c = 'U' then some 8 else none

/-- The character of a code point that is one. -/
def codePoint? (n : Nat) : Option Char :=
  if n.isValidChar then some (Char.ofNat n) else none

/-- Reads behind the opening double quote and `text`. -/
def doubleFrom (p : Position) (text : Text) (held : Held) (t : Text) : Option Taken :=
  match t with
  | [] => none
  | c :: t =>
    match lineBreak? (c :: t) with
    | some (b, 1, _) => doubleFrom (p.newLine 1) text (held.lineBreak b) t
    | some (b, _, _) => doubleFrom (p.newLine 2) text (held.lineBreak b) (t.drop 1)
    | none =>
      if isSpaceOrTab c then doubleFrom p.step text (held.blank c) t
      else if p.column == 0 && atDocumentMark (c :: t) then none
      else if c = '"' then some ⟨text ++ held.join, p.step, t⟩
      else if c ≠ '\\' then doubleFrom p.step (text ++ held.join ++ [c]) .none t
      else
        match lineBreak? t with
        | some (_, n, _) => doubleFrom (p.step.newLine n) (text ++ held.join) (.breaks [] []) (t.drop n)
        | none =>
          match t with
          | [] => none
          | e :: t =>
            match letterEscape? e, codeWidth? e with
            | some d, _ => doubleFrom (p.steps 2) (text ++ held.join ++ [d]) .none t
            | none, some n =>
              let digits := t.take n
              if digits.length < n then none
              else match (Text.digits? 16 Text.hexDigit? digits).bind codePoint? with
                | some d =>
                  doubleFrom (p.steps (2 + n)) (text ++ held.join ++ [d]) .none (t.drop n)
                | none => none
            | none, none => none
termination_by t.length
decreasing_by all_goals (simp only [List.length_cons, List.length_drop]; omega)

end Quoted

end Yaml

end MissionScript
