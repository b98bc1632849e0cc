import MissionScript.CompiledUnit
import MissionScript.Path
import Mathlib.Tactic.Common

/-!
# Pieces between separators

A payload is cut at its zero bytes and a path at its slashes, both in the way of `List.splitOn`
(`eq_splitOn`). So a separator cuts wherever it stands, what is on its two sides is cut as if it
stood alone (`CompiledUnit.split_append`, `Path.pieces_append`), and no piece holds a separator
(`not_mem_of_mem_splitOn`).
-/

namespace MissionScript

section

variable {α : Type} [DecidableEq α] {sep : α}

/-- A function that ends a piece at each separator gives the pieces of `List.splitOn`. -/
theorem eq_splitOn {cut : List α → List (List α)} (hnil : cut [] = [[]])
    (hsep : ∀ as, cut (sep :: as) = [] :: cut as)
    (hother : ∀ a as piece more, a ≠ sep → cut as = piece :: more →
      cut (a :: as) = (a :: piece) :: more) : ∀ as, cut as = as.splitOn sep
  | [] => hnil
  | a :: as => by
    have ih := eq_splitOn hnil hsep hother as
    obtain ⟨piece, more, hpieces⟩ := List.exists_cons_of_ne_nil (List.splitOn_ne_nil sep as)
    rw [List.splitOn_cons_eq_if_modifyHead]
    by_cases ha : a = sep
    · rw [ha, hsep, ih, if_pos (beq_self_eq_true sep)]
    · rw [hother a as piece more ha (ih.trans hpieces), if_neg (by simpa using ha), hpieces,
        List.modifyHead_cons]

theorem not_mem_of_mem_splitOn {as piece : List α} (h : piece ∈ as.splitOn sep) : sep ∉ piece := by
  by_cases hmem : sep ∈ as
  · obtain ⟨front, back, heq⟩ := List.append_of_mem hmem
    rw [heq, List.splitOn_append_cons_self, List.mem_append] at h
    rcases h with h | h
    · exact not_mem_of_mem_splitOn h
    · exact not_mem_of_mem_splitOn h
  · rw [List.splitOn_eq_singleton hmem, List.mem_singleton] at h
    rwa [h]
termination_by as.length
decreasing_by all_goals rw [heq, List.length_append, List.length_cons]; omega

end

namespace CompiledUnit

theorem split_eq_splitOn (bytes : List UInt8) : split bytes = bytes.splitOn 0 :=
  eq_splitOn rfl (by simp [split]) (fun b bytes _ _ hb h => by simp [split, hb, h]) bytes

theorem split_append (p q : List UInt8) : split (p ++ 0 :: q) = split p ++ split q := by
  simp only [split_eq_splitOn, List.splitOn_append_cons_self]

end CompiledUnit

namespace Path

theorem pieces_eq_splitOn (p : Text) : pieces p = p.splitOn '/' :=
  eq_splitOn rfl (by simp [pieces]) (fun c p _ _ hc h => by simp [pieces, hc, h]) p

theorem pieces_append (a b : Text) : pieces (a ++ '/' :: b) = pieces a ++ pieces b := by
  simp only [pieces_eq_splitOn, List.splitOn_append_cons_self]

theorem pieces_of_not_mem {name : Text} (h : '/' ∉ name) : pieces name = [name] := by
  rw [pieces_eq_splitOn, List.splitOn_eq_singleton h]

theorem not_mem_of_mem_pieces {p piece : Text} (h : piece ∈ pieces p) : '/' ∉ piece := by
  rw [pieces_eq_splitOn] at h
  exact not_mem_of_mem_splitOn h

end Path

end MissionScript
