import MissionScript.Token
import Mathlib.Tactic.Common

/-!
# Parentheses among tokens

A run of tokens is balanced if its parentheses pair up, and it stays open if no closing
parenthesis of it closes one from before it. Both are read off the depth (`depth?`), the number of
its own parentheses that a run leaves open: a run stays open exactly if it has a depth
(`staysOpen_iff`), and it is balanced exactly if that depth is 0 (`balanced_iff`).
-/

namespace MissionScript

namespace Token

/-- The parentheses of the tokens pair up. -/
inductive Balanced : List Token → Prop
  | nil : Balanced []
  | word {t : Token} {ts : List Token} : t ≠ openParen → t ≠ closeParen → Balanced ts →
      Balanced (t :: ts)
  | group {ts us : List Token} : Balanced ts → Balanced us →
      Balanced (openParen :: (ts ++ closeParen :: us))

/-- No closing parenthesis of the tokens closes a parenthesis in front of them. -/
def StaysOpen (tokens : List Token) : Prop :=
  ∀ body rest, tokens = body ++ closeParen :: rest → ¬ Balanced body

/-- The number of open parentheses after the tokens, none if more are closed than there were. -/
def depth? : Nat → List Token → Option Nat
  | d, [] => some d
  | d, t :: ts =>
    if t = openParen then depth? (d + 1) ts
    else if t = closeParen then
      match d with
      | 0 => none
      | d + 1 => depth? d ts
    else depth? d ts

variable {d e : Nat} {t : Token} {ts us : List Token}

@[simp]
theorem depth?_nil : depth? d [] = some d := rfl

@[simp]
theorem depth?_openParen : depth? d (openParen :: ts) = depth? (d + 1) ts := rfl

@[simp]
theorem depth?_closeParen_zero : depth? 0 (closeParen :: ts) = none := rfl

@[simp]
theorem depth?_closeParen_succ : depth? (d + 1) (closeParen :: ts) = depth? d ts := rfl

theorem depth?_word (ho : t ≠ openParen) (hc : t ≠ closeParen) :
    depth? d (t :: ts) = depth? d ts := by
  rw [depth?.eq_def]
  simp only [if_neg ho, if_neg hc]

theorem depth?_append : ∀ (ts : List Token) (d : Nat),
    depth? d (ts ++ us) = (depth? d ts).bind (depth? · us)
  | [], d => rfl
  | t :: ts, d => by
    by_cases ho : t = openParen
    · subst ho
      exact depth?_append ts (d + 1)
    by_cases hc : t = closeParen
    · subst hc
      cases d with
      | zero => rfl
      | succ d => exact depth?_append ts d
    · rw [List.cons_append, depth?_word ho hc, depth?_word ho hc]
      exact depth?_append ts d

/-- Parentheses that were open before add to the depth. -/
theorem depth?_add (k : Nat) : ∀ {ts : List Token} {d e : Nat}, depth? d ts = some e →
    depth? (d + k) ts = some (e + k)
  | [], d, e, h => by
    simp only [depth?_nil, Option.some.injEq] at h ⊢
    omega
  | t :: ts, d, e, h => by
    by_cases ho : t = openParen
    · subst ho
      rw [depth?_openParen, Nat.add_right_comm]
      exact depth?_add k h
    by_cases hc : t = closeParen
    · subst hc
      cases d with
      | zero => simp at h
      | succ d =>
        rw [Nat.add_right_comm, depth?_closeParen_succ]
        exact depth?_add k h
    · rw [depth?_word ho hc] at h ⊢
      exact depth?_add k h

/-- Where more parentheses are closed than were open, there is a first one too many. -/
theorem exists_closing : ∀ {ts : List Token} {d : Nat}, depth? d ts = none →
    ∃ body rest, ts = body ++ closeParen :: rest ∧ depth? d body = some 0
  | [], d, h => by simp at h
  | t :: ts, d, h => by
    by_cases ho : t = openParen
    · subst ho
      rw [depth?_openParen] at h
      obtain ⟨body, rest, rfl, hbody⟩ := exists_closing h
      exact ⟨openParen :: body, rest, rfl, hbody⟩
    by_cases hc : t = closeParen
    · subst hc
      cases d with
      | zero => exact ⟨[], ts, rfl, rfl⟩
      | succ d =>
        rw [depth?_closeParen_succ] at h
        obtain ⟨body, rest, rfl, hbody⟩ := exists_closing h
        exact ⟨closeParen :: body, rest, rfl, hbody⟩
    · rw [depth?_word ho hc] at h
      obtain ⟨body, rest, rfl, hbody⟩ := exists_closing h
      exact ⟨t :: body, rest, rfl, by rw [depth?_word ho hc, hbody]⟩

theorem depth?_of_balanced (h : Balanced ts) : ∀ d, depth? d ts = some d := by
  induction h with
  | nil => exact fun d => rfl
  | word ho hc _ ih => exact fun d => (depth?_word ho hc).trans (ih d)
  | group _ _ iht ihu =>
    intro d
    rw [depth?_openParen, depth?_append, iht, Option.bind_some, depth?_closeParen_succ, ihu]

theorem balanced_of_depth? (h : depth? 0 ts = some 0) : Balanced ts := by
  induction hn : ts.length using Nat.strongRecOn generalizing ts with
  | ind n ih =>
    subst hn
    rcases ts with _ | ⟨t, ts⟩
    · exact .nil
    by_cases ho : t = openParen
    · subst ho
      have hnone : depth? 0 ts = none := by
        rw [Option.eq_none_iff_forall_ne_some]
        intro e he
        rw [depth?_openParen, depth?_add 1 he] at h
        simp at h
      obtain ⟨body, rest, rfl, hbody⟩ := exists_closing hnone
      rw [depth?_openParen, depth?_append, depth?_add 1 hbody] at h
      refine .group (ih body.length ?_ hbody rfl) (ih rest.length ?_ h rfl)
      · simp only [List.length_cons, List.length_append]
        omega
      · simp only [List.length_cons, List.length_append]
        omega
    by_cases hc : t = closeParen
    · subst hc
      simp at h
    · rw [depth?_word ho hc] at h
      exact .word ho hc (ih ts.length (by simp) h rfl)

theorem balanced_iff : Balanced ts ↔ depth? 0 ts = some 0 :=
  ⟨fun h => depth?_of_balanced h 0, balanced_of_depth?⟩

theorem staysOpen_iff : StaysOpen ts ↔ ∃ d, depth? 0 ts = some d := by
  constructor
  · intro h
    cases hd : depth? 0 ts with
    | some d => exact ⟨d, rfl⟩
    | none =>
      obtain ⟨body, rest, hts, hbody⟩ := exists_closing hd
      exact absurd (balanced_iff.2 hbody) (h body rest hts)
  · rintro ⟨d, hd⟩ body rest rfl hbody
    rw [depth?_append, balanced_iff.1 hbody] at hd
    simp at hd

/-- An open parenthesis counts one more than what is open behind it. -/
theorem lt_of_depth? (mid : List Token) {inner : List Token}
    (h : depth? 0 (mid ++ openParen :: inner) = some d) (hinner : depth? 0 inner = some e) :
    e < d := by
  rw [depth?_append] at h
  obtain ⟨k, -, hk⟩ := Option.bind_eq_some_iff.1 h
  rw [depth?_openParen] at hk
  have := depth?_add (k + 1) hinner
  rw [Nat.zero_add, hk, Option.some.injEq] at this
  omega

end Token

end MissionScript
