import MissionScript.Proofs.PrintableText
import MissionScript.Yaml.Read.Quoted
import MissionScript.Yaml.Scalar
import MissionScript.Yaml.Token

/-!
# Written scalars are read back

A printable text is written plain or between single quotes (`style_of_isPrintable`). The reader of
plain scalars holds spaces back and stops at a colon before a gap, at a hash after one, and at the
line break; a text is written plain only if none of this happens inside it, so it is read up to its
end (`ReadsPlain.readFrom_append`) and the line break ends it (`readFrom_lineBreak`). Between single
quotes only the quote itself needs care, and every printable text is read back
(`singleFrom_singleQuotedBody`).
-/

namespace MissionScript

namespace Yaml

open Text (IsPrintable)

namespace Position

@[simp]
theorem steps_steps (p : Position) (m n : Nat) : (p.steps m).steps n = p.steps (m + n) := by
  simp [steps, Nat.add_assoc]

theorem step_eq_steps (p : Position) : p.step = p.steps 1 := rfl

@[simp]
theorem column_steps (p : Position) (n : Nat) : (p.steps n).column = p.column + n := rfl

@[simp]
theorem column_newLine (p : Position) (width : Nat) : (p.newLine width).column = 0 := rfl

end Position

/-! ## Printable characters -/

section Characters

variable {c : Char} (h : 0x20 ≤ c.toNat ∧ c.toNat ≤ 0x7e)

include h

theorem isBreak_of_printable : isBreak c = false := by
  simp only [isBreak, Bool.or_eq_false_iff, beq_eq_false_iff_ne]
  refine ⟨⟨⟨⟨?_, ?_⟩, ?_⟩, ?_⟩, ?_⟩ <;>
    · rintro rfl
      exact absurd h (by decide)

theorem isSpaceOrTab_of_printable : isSpaceOrTab c = (c == ' ') := by
  have htab : (c == '\t') = false := by
    rw [beq_eq_false_iff_ne]
    rintro rfl
    exact absurd h (by decide)
  rw [isSpaceOrTab, htab, Bool.or_false]

theorem isGap_of_printable : isGap c = (c == ' ') := by
  rw [isGap, isBreak_of_printable h, isSpaceOrTab_of_printable h, Bool.or_false]

theorem isShown_of_printable : isShown c = true := by
  simp [isShown, h]

theorem isReadable_of_printable : isReadable c = true := by
  simp [isReadable, h]

theorem ne_return_of_printable : c ≠ '\r' := by
  rintro rfl
  exact absurd h (by decide)

end Characters

/-! ## The style of a printable text -/

namespace Scalar

theorem hasPair_eq_false_left {p q : Char → Bool} : ∀ {t : Text}, (∀ c ∈ t, p c = false) →
    hasPair p q t = false
  | [], _ => rfl
  | [_], _ => rfl
  | a :: b :: t, h => by
    rw [hasPair, h a List.mem_cons_self, Bool.false_and, Bool.false_or]
    exact hasPair_eq_false_left fun c hc => h c (List.mem_cons_of_mem a hc)

theorem hasPair_eq_false_right {p q : Char → Bool} : ∀ {t : Text}, (∀ c ∈ t, q c = false) →
    hasPair p q t = false
  | [], _ => rfl
  | [_], _ => rfl
  | a :: b :: t, h => by
    rw [hasPair, h b (by simp), Bool.and_false, Bool.false_or]
    exact hasPair_eq_false_right fun c hc => h c (List.mem_cons_of_mem a hc)

theorem hasHidden_of_isPrintable {t : Text} (h : IsPrintable t) : hasHidden t = false := by
  simp only [hasHidden, List.any_eq_false, Bool.not_eq_true', Bool.not_eq_false]
  exact fun c hc => isShown_of_printable (h c hc)

theorem style_of_isPrintable {t : Text} (h : IsPrintable t) :
    (style t = .plain ∧ t ≠ [] ∧ allowsPlain t = true) ∨ style t = .singleQuoted := by
  have hbreak : t.contains '\n' = false := by simpa using h.not_mem_lineBreak
  have hbreaks : ∀ c ∈ t, isBreak c = false := fun c hc => isBreak_of_printable (h c hc)
  have hquoted : allowsSingleQuoted t = true := by
    simp [allowsSingleQuoted, hasHidden_of_isPrintable h, hasPair_eq_false_left hbreaks,
      hasPair_eq_false_right hbreaks]
  unfold style
  rw [hbreak, hquoted]
  simp only [Bool.false_eq_true, if_false, if_true]
  split_ifs with hplain
  · simp only [Bool.and_eq_true, Bool.not_eq_true'] at hplain
    refine Or.inl ⟨rfl, ?_, hplain.2⟩
    rintro rfl
    simp [Plain.isTyped] at hplain
  · exact Or.inr rfl

theorem isPrintable_singleQuotedBody (indent : Nat) : ∀ {t : Text}, IsPrintable t →
    IsPrintable (singleQuotedBody indent false t)
  | [], h => h
  | c :: t, h => by
    have hc := h c List.mem_cons_self
    have ht := isPrintable_singleQuotedBody indent fun d hd => h d (List.mem_cons_of_mem c hd)
    rw [singleQuotedBody, isBreak_of_printable hc]
    simp only [Bool.false_eq_true, if_false, List.nil_append]
    split_ifs with hquote
    · exact (ht.cons (by decide)).cons (by decide)
    · exact ht.cons hc

theorem all_isReadable_of_isPrintable {t : Text} (h : IsPrintable t) : t.all isReadable = true := by
  rw [List.all_eq_true]
  exact fun c hc => isReadable_of_printable (h c hc)

theorem all_isReadable_write (column : Nat) {t : Text} (h : IsPrintable t) :
    (write column t).all isReadable = true := by
  have hbody := isPrintable_singleQuotedBody (column + 2) h
  rcases style_of_isPrintable h with ⟨hstyle, -, -⟩ | hstyle
  · rw [write, hstyle]
    simp only [List.all_append, all_isReadable_of_isPrintable h]
    decide
  · rw [write, hstyle]
    simp only [List.all_cons, List.all_append, all_isReadable_of_isPrintable hbody]
    decide

/-- The style in which a printable text is read back. -/
def readStyle (t : Text) : ScalarStyle := if style t = .plain then .plain else .quoted

end Scalar

/-! ## Plain scalars -/

/-- A text that is at its end or goes on with a token. -/
def StartsToken (rest : Text) : Prop :=
  ∀ c ∈ rest.head?, isGap c = false ∧ c ≠ '#' ∧ c ≠ '\ufeff'

theorem startsToken_nil : StartsToken [] := by
  rintro c ⟨⟩

theorem startsToken_cons {c : Char} {t : Text}
    (h : isGap c = false ∧ c ≠ '#' ∧ c ≠ '\ufeff') : StartsToken (c :: t) := by
  rintro d ⟨⟩
  exact h

namespace Plain

open Scalar (isIndicator hasInnerIndicator looksLikeIndicator allowsPlain)

/-- No colon of a text stands before a gap and no hash after one, when the text is preceded by a
character and followed by a text. -/
def Runs (behind : Text) : Char → Text → Prop
  | _, [] => True
  | before, c :: t =>
    ¬ (c = ':' ∧ atGap (t ++ behind) = true) ∧ ¬ (c = '#' ∧ isGap before = true) ∧ Runs behind c t

/-- A text that is read as one plain scalar in front of another text. -/
structure ReadsPlain (t behind : Text) : Prop where
  printable : IsPrintable t
  starts : ∃ c more, t = c :: more ∧ c ≠ ' ' ∧ isIndicator c = false
    ∧ ¬ ((c = '?' ∨ c = ':' ∨ c = '-') ∧ atGap (more ++ behind) = true) ∧ Runs behind c more
  ends : t.getLast? ≠ some ' '

theorem atGap_append {t behind : Text} (hbehind : atGap behind = true) :
    atGap (t ++ behind) = atGap t := by
  cases t with
  | nil => exact hbehind
  | cons c t => rfl

theorem Runs.of_hasInnerIndicator {behind : Text} (hbehind : atGap behind = true) :
    ∀ {t : Text} {before : Char}, hasInnerIndicator before t = false → Runs behind before t
  | [], _, _ => trivial
  | c :: t, before, h => by
    simp only [hasInnerIndicator, Bool.or_eq_false_iff, Bool.and_eq_false_iff, beq_eq_false_iff_ne]
      at h
    obtain ⟨⟨hcolon, hhash⟩, hmore⟩ := h
    refine ⟨?_, ?_, .of_hasInnerIndicator hbehind hmore⟩
    · rintro ⟨rfl, hgap⟩
      rw [atGap_append hbehind] at hgap
      simp [hgap] at hcolon
    · rintro ⟨rfl, hgap⟩
      simp [hgap] at hhash

theorem ReadsPlain.of_allowsPlain {t behind : Text} (h : IsPrintable t) (hne : t ≠ [])
    (hplain : allowsPlain t = true) (hbehind : atGap behind = true) : ReadsPlain t behind := by
  obtain ⟨c, more, rfl⟩ := List.exists_cons_of_ne_nil hne
  simp only [allowsPlain, Bool.and_eq_true, Bool.not_eq_true', looksLikeIndicator,
    Bool.or_eq_false_iff, Bool.and_eq_false_iff, List.head?_cons, Option.any_some,
    beq_eq_false_iff_ne] at hplain
  obtain ⟨⟨⟨⟨⟨⟨hspace, -⟩, hlast⟩, -⟩, -⟩, ⟨hindicator, hmark⟩, hinner⟩, -⟩ := hplain
  refine ⟨h, ⟨c, more, rfl, hspace, hindicator, ?_, .of_hasInnerIndicator hbehind hinner⟩, ?_⟩
  · rintro ⟨hc, hgap⟩
    rw [atGap_append hbehind] at hgap
    simp only [hgap, Bool.true_eq_false, or_false] at hmark
    rcases hc with rfl | rfl | rfl <;> simp at hmark
  · intro hends
    rw [hends] at hlast
    simp at hlast

/-- The characters of keys and numbers. -/
def isKeyChar (c : Char) : Bool := Text.isAsciiDigit c || ('a' ≤ c && c ≤ 'z') || c == '_'

theorem printable_of_isKeyChar {c : Char} (h : isKeyChar c = true) :
    0x20 ≤ c.toNat ∧ c.toNat ≤ 0x7e := by
  simp only [isKeyChar, Text.isAsciiDigit, Bool.or_eq_true, Bool.and_eq_true, decide_eq_true_eq,
    beq_iff_eq] at h
  rcases h with (⟨hlow, hhigh⟩ | ⟨hlow, hhigh⟩) | rfl
  · have hlow' : 48 ≤ c.toNat := hlow
    have hhigh' : c.toNat ≤ 57 := hhigh
    omega
  · have hlow' : 97 ≤ c.toNat := hlow
    have hhigh' : c.toNat ≤ 122 := hhigh
    omega
  · decide

theorem ne_of_isKeyChar {c d : Char} (h : isKeyChar c = true) (hd : isKeyChar d = false) :
    c ≠ d := by
  rintro rfl
  rw [h] at hd
  exact absurd hd (by simp)

/-- A key or a number is read as one plain scalar in front of anything. -/
theorem ReadsPlain.of_isKeyChar {t : Text} (hne : t ≠ []) (h : ∀ c ∈ t, isKeyChar c = true)
    (behind : Text) : ReadsPlain t behind := by
  have hruns : ∀ {u : Text} {before : Char}, (∀ c ∈ u, isKeyChar c = true) →
      Runs behind before u := by
    intro u
    induction u with
    | nil => exact fun _ => trivial
    | cons c u ih =>
      intro before hu
      have hc := hu c List.mem_cons_self
      refine ⟨fun hcolon => ne_of_isKeyChar hc (by decide) hcolon.1,
        fun hhash => ne_of_isKeyChar hc (by decide) hhash.1,
        ih fun d hd => hu d (List.mem_cons_of_mem c hd)⟩
  obtain ⟨c, more, rfl⟩ := List.exists_cons_of_ne_nil hne
  have hc := h c List.mem_cons_self
  refine ⟨fun d hd => printable_of_isKeyChar (h d hd), ⟨c, more, rfl,
    ne_of_isKeyChar hc (by decide), ?_, ?_, hruns fun d hd => h d (List.mem_cons_of_mem c hd)⟩, ?_⟩
  · rw [isIndicator, List.contains_eq_mem, decide_eq_false_iff_not]
    intro hmem
    have hnone : ['#', ',', '[', ']', '\x7b', '\x7d', '&', '*', '!', '|', '>', '\'', '"', '%', '@',
      '\x60'].all (fun d => !isKeyChar d) = true := by decide
    have hkey := List.all_eq_true.1 hnone c hmem
    rw [hc] at hkey
    exact absurd hkey (by decide)
  · rintro ⟨hmark, -⟩
    rcases hmark with hmark | hmark | hmark <;> exact ne_of_isKeyChar hc (by decide) hmark
  · intro hlast
    exact ne_of_isKeyChar (h ' ' (List.mem_of_getLast? hlast)) (by decide) rfl

/-- White space inside a line that is held back. -/
def HeldInLine (indent : Nat) (held : Held) (before : Char) (p : Position) : Prop :=
  held = .none ∨ (∃ t, held = .spaces t) ∧ before = ' ' ∧ 0 < p.column ∧ indent ≤ p.column

theorem HeldInLine.blank {indent : Nat} {held : Held} {before : Char} {p : Position}
    (h : HeldInLine indent held before p) (hindent : indent ≤ p.column) :
    HeldInLine indent (held.blank ' ') ' ' p.step
      ∧ (held.blank ' ').join = held.join ++ [' '] := by
  have hcolumn : 0 < p.step.column ∧ indent ≤ p.step.column :=
    ⟨Nat.succ_pos _, Nat.le_succ_of_le hindent⟩
  rcases h with rfl | ⟨⟨t, rfl⟩, -⟩
  · exact ⟨Or.inr ⟨⟨_, rfl⟩, rfl, hcolumn⟩, rfl⟩
  · exact ⟨Or.inr ⟨⟨_, rfl⟩, rfl, hcolumn⟩, rfl⟩

theorem readFrom_cons {flow : Bool} {indent : Nat} {p : Position} {text : Text} {held : Held}
    {c : Char} {t : Text} (hc : 0x20 ≤ c.toNat ∧ c.toNat ≤ 0x7e) :
    readFrom flow indent p text held (c :: t)
      = if c = ' ' then readFrom flow indent p.step text (held.blank ' ') t
        else if held ≠ .none && stopsAt flow indent p (c :: t) then
          some (⟨text, p, c :: t⟩, held.isBreaks)
        else if misplaces flow c t then none
        else if endsAt flow c t then some (⟨text, p, c :: t⟩, held.isBreaks)
        else readFrom flow indent p.step (text ++ held.join ++ [c]) .none t := by
  have htab : (c == '\t') = false := by
    rw [beq_eq_false_iff_ne]
    rintro rfl
    exact absurd hc (by decide)
  rw [readFrom.eq_3 _ _ _ _ _ _ _ fun _ hr _ => ne_return_of_printable hc hr,
    isBreak_of_printable hc, isSpaceOrTab_of_printable hc, htab]
  by_cases hspace : c = ' '
  · simp [hspace]
  · simp [hspace]

/-- Inside a block, a text that runs on is taken over with the spaces in it. -/
theorem readFrom_append {indent : Nat} {behind : Text} : ∀ (t : Text) {p : Position} {text : Text}
    {held : Held} {before : Char}, IsPrintable t → Runs behind before t →
      HeldInLine indent held before p → (' ' ∈ t → indent ≤ p.column) → (t = [] → held = .none) →
      t.getLast? ≠ some ' ' →
      readFrom false indent p text held (t ++ behind)
        = readFrom false indent (p.steps t.length) (text ++ held.join ++ t) .none behind
  | [], p, text, held, before, _, _, _, _, hnil, _ => by
    rw [hnil rfl]
    simp [Held.join, Position.steps]
  | c :: t, p, text, held, before, hprint, ⟨hcolon, hhash, hruns⟩, hheld, hindent, _, hlast => by
    have hc := hprint c List.mem_cons_self
    have ht : IsPrintable t := fun d hd => hprint d (List.mem_cons_of_mem c hd)
    have hindent' : ' ' ∈ t → indent ≤ p.step.column := fun hmem =>
      Nat.le_succ_of_le (hindent (List.mem_cons_of_mem c hmem))
    rw [List.cons_append, readFrom_cons hc]
    -- a space is held back and comes out in front of the next character
    by_cases hspace : c = ' '
    · subst hspace
      obtain ⟨hblank, hjoin⟩ := hheld.blank (hindent List.mem_cons_self)
      have hne : t ≠ [] := by
        rintro rfl
        simp at hlast
      have hlast' : t.getLast? ≠ some ' ' := by
        rwa [List.getLast?_cons_of_ne_nil hne] at hlast
      rw [if_pos rfl, readFrom_append t ht hruns hblank hindent' (fun h => absurd h hne) hlast',
        hjoin, Position.step_eq_steps, Position.steps_steps]
      simp [Nat.add_comm]
    · have hstops : (held ≠ .none && stopsAt false indent p (c :: (t ++ behind))) = false := by
        rcases hheld with rfl | ⟨-, rfl, hcolumn, hfar⟩
        · rfl
        · have hnot : ¬ c = '#' := fun heq => hhash ⟨heq, rfl⟩
          have hfar' : ¬ p.column < indent := by omega
          have hzero : ¬ p.column = 0 := by omega
          simp [stopsAt, hnot, hfar', hzero]
      have hends : endsAt false c (t ++ behind) = false := by
        simp only [endsAt, Bool.false_and, Bool.or_false, Bool.and_eq_false_iff,
          beq_eq_false_iff_ne]
        by_cases heq : c = ':'
        · exact Or.inr (by simpa [heq] using hcolon)
        · exact Or.inl heq
      have hlast' : t.getLast? ≠ some ' ' := by
        cases t with
        | nil => simp
        | cons d t => rwa [List.getLast?_cons_cons] at hlast
      rw [if_neg hspace, if_neg (Bool.eq_false_iff.1 hstops), if_neg (by simp [misplaces]),
        if_neg (Bool.eq_false_iff.1 hends),
        readFrom_append t ht hruns (Or.inl rfl) hindent' (fun _ => rfl) hlast',
        Position.step_eq_steps, Position.steps_steps]
      simp [Held.join, Nat.add_comm]

theorem ReadsPlain.readFrom_append {t behind : Text} (h : ReadsPlain t behind) {indent : Nat}
    {p : Position} (hindent : ' ' ∈ t → indent ≤ p.column) :
    readFrom false indent p [] .none (t ++ behind)
      = readFrom false indent (p.steps t.length) t .none behind := by
  obtain ⟨c, more, rfl, -, hindicator, hmark, hruns⟩ := h.starts
  have hfirst : Runs behind 'a' (c :: more) :=
    ⟨fun hcolon => hmark ⟨Or.inr (Or.inl hcolon.1), hcolon.2⟩,
      fun hhash => absurd hhash.2 (by decide), hruns⟩
  exact Plain.readFrom_append (c :: more) h.printable hfirst (Or.inl rfl) hindent
    (fun hnil => absurd hnil (by simp)) h.ends

theorem ReadsPlain.startsToken {t behind : Text} (h : ReadsPlain t behind) :
    StartsToken (t ++ behind) := by
  obtain ⟨c, more, rfl, hspace, hindicator, -, -⟩ := h.starts
  have hc := h.printable c List.mem_cons_self
  refine startsToken_cons ⟨?_, ?_, ?_⟩
  · rw [isGap_of_printable hc, beq_eq_false_iff_ne]
    exact hspace
  · rintro rfl
    exact absurd hindicator (by decide)
  · rintro rfl
    exact absurd hc (by decide)

theorem readFrom_spaces {flow : Bool} {indent : Nat} {text first more rest : Text} :
    ∀ (n : Nat) (p : Position),
      readFrom flow indent p text (.breaks first more) (Scalar.spaces n ++ rest)
        = readFrom flow indent (p.steps n) text (.breaks first more) rest
  | 0, p => rfl
  | n + 1, p => by
    have hcons : Scalar.spaces (n + 1) ++ rest = ' ' :: (Scalar.spaces n ++ rest) := rfl
    rw [hcons, readFrom_cons (by decide), if_pos rfl, Held.blank, readFrom_spaces n,
      Position.step_eq_steps, Position.steps_steps, Nat.add_comm]

/-- A plain scalar ends with its line if the next one is indented too little. -/
theorem readFrom_lineBreak {indent n : Nat} {p : Position} {text rest : Text} (hn : n < indent)
    (hrest : StartsToken rest) :
    readFrom false indent p text .none ('\n' :: (Scalar.spaces n ++ rest))
      = some (⟨text, (p.newLine 1).steps n, rest⟩, true) := by
  have hheld : Held.none.lineBreak (keptBreak '\n') = .breaks ['\n'] [] := rfl
  rw [readFrom.eq_3 _ _ _ _ _ _ _ (by simp), if_pos (by decide), hheld, readFrom_spaces]
  cases rest with
  | nil => rfl
  | cons c t =>
    obtain ⟨hgap, -, -⟩ := hrest c rfl
    simp only [isGap, Bool.or_eq_false_iff] at hgap
    have hreturn : c ≠ '\r' := by
      rintro rfl
      exact absurd hgap.2 (by decide)
    have hstops : stopsAt false indent ((p.newLine 1).steps n) (c :: t) = true := by
      simp [stopsAt, Position.newLine, Position.steps, hn]
    rw [readFrom.eq_3 _ _ _ _ _ _ _ fun _ hr _ => hreturn hr, hgap.2, hgap.1, hstops]
    rfl

/-- A key ends before the colon behind it. -/
theorem readFrom_colon {indent : Nat} {p : Position} {text rest : Text}
    (hrest : atGap rest = true) :
    readFrom false indent p text .none (':' :: rest) = some (⟨text, p, ':' :: rest⟩, false) := by
  rw [readFrom_cons (by decide), if_neg (by decide)]
  simp [misplaces, endsAt, hrest, Held.isBreaks]

end Plain

/-! ## Single quotes -/

namespace Quoted

open Scalar (singleQuotedBody)

theorem singleFrom_cons {p : Position} {text : Text} {held : Held} {c : Char} {t : Text}
    (hc : 0x20 ≤ c.toNat ∧ c.toNat ≤ 0x7e) (hquote : c ≠ '\'') (hcolumn : 0 < p.column) :
    singleFrom p text held (c :: t)
      = if c = ' ' then singleFrom p.step text (held.blank ' ') t
        else singleFrom p.step (text ++ held.join ++ [c]) .none t := by
  have hzero : (p.column == 0) = false := by
    rw [beq_eq_false_iff_ne]
    omega
  rw [singleFrom.eq_4 _ _ _ _ _ (fun _ hr _ => ne_return_of_printable hc hr)
      (fun _ hq _ => hquote hq), isBreak_of_printable hc, isSpaceOrTab_of_printable hc, hzero]
  by_cases hspace : c = ' '
  · simp [hspace]
  · simp [hspace, hquote]

/-- Between single quotes every printable text is read back, up to the closing quote. -/
theorem singleFrom_singleQuotedBody (indent : Nat) {behind : Text}
    (hbehind : behind.head? ≠ some '\'') : ∀ (t : Text) (p : Position) (text : Text) (held : Held),
      IsPrintable t → held.isBreaks = false → 0 < p.column →
      singleFrom p text held (singleQuotedBody indent false t ++ '\'' :: behind)
        = some ⟨text ++ held.join ++ t, p.steps ((singleQuotedBody indent false t).length + 1),
            behind⟩
  | [], p, text, held, _, _, _ => by
    rw [singleQuotedBody, if_neg (by decide), List.nil_append,
      singleFrom.eq_4 _ _ _ _ _ (by simp) (by rintro u - rfl; simp at hbehind)]
    simp [isBreak, isSpaceOrTab, Position.step]
  | c :: t, p, text, held, hprint, hheld, hcolumn => by
    have hc := hprint c List.mem_cons_self
    have ht : IsPrintable t := fun d hd => hprint d (List.mem_cons_of_mem c hd)
    rw [singleQuotedBody, isBreak_of_printable hc]
    simp only [Bool.false_eq_true, if_false, List.nil_append]
    by_cases hquote : c = '\''
    · subst hquote
      rw [if_pos rfl, List.cons_append, List.cons_append, List.cons_append, List.cons_append,
        List.nil_append, singleFrom.eq_3,
        singleFrom_singleQuotedBody indent hbehind t _ _ _ ht rfl (Nat.add_pos_left hcolumn 2)]
      simp only [Held.join, List.append_nil, List.append_assoc, List.cons_append, List.nil_append,
        Position.steps_steps, List.length_cons, Option.some.injEq, Taken.mk.injEq, true_and,
        and_true]
      exact congrArg p.steps (by omega)
    · rw [if_neg hquote, List.cons_append, List.nil_append, List.cons_append,
        singleFrom_cons hc hquote hcolumn]
      by_cases hspace : c = ' '
      · subst hspace
        have hblank : (held.blank ' ').isBreaks = false
            ∧ (held.blank ' ').join = held.join ++ [' '] := by
          cases held with
          | none => exact ⟨rfl, rfl⟩
          | spaces u => exact ⟨rfl, rfl⟩
          | breaks first more => simp [Held.isBreaks] at hheld
        rw [if_pos rfl, singleFrom_singleQuotedBody indent hbehind t _ _ _ ht hblank.1
          (Nat.add_pos_left hcolumn 1), hblank.2]
        simp [Position.step, Nat.add_comm]
      · rw [if_neg hspace, singleFrom_singleQuotedBody indent hbehind t _ _ _ ht rfl
          (Nat.add_pos_left hcolumn 1)]
        simp [Held.join, Position.step, Nat.add_comm]

end Quoted

end Yaml

end MissionScript
