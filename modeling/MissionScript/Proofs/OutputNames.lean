import MissionScript.Batch
import MissionScript.Proofs.Pieces
import Mathlib.Data.List.Infix
import Mathlib.Tactic.Common

/-!
# The names of listings

The last piece of a unit's path is its name, whatever stands in front (`EndsIn`), so a listing is
named after that piece alone: a name that ends in `.tok` loses this end, but for the name `.tok`
itself, of which the dot in front does not count (`stem_tok`). Names that differ have listings
that differ with one exception: `.tok` and `.tok.tok` are both listed as `.tok.txt`
(`outputName_eq_iff`).
-/

namespace MissionScript

namespace Path

/-! ## The last piece of a path -/

/-- A name as it can stand in a directory. -/
structure IsName (name : Text) : Prop where
  ne_nil : name ≠ []
  no_slash : '/' ∉ name
  ne_dot : name ≠ ['.']
  ne_dots : name ≠ ['.', '.']

/-- The path ends in the given name. -/
def EndsIn (p name : Text) : Prop := ∃ front, pieces p = front ++ [name]

theorem IsName.endsIn {name : Text} (h : IsName name) : EndsIn name name :=
  ⟨[], pieces_of_not_mem h.no_slash⟩

theorem isAbsolute_eq_false {piece : Text} (h : '/' ∉ piece) : isAbsolute piece = false := by
  rw [isAbsolute, beq_eq_false_iff_ne]
  intro hhead
  exact h (List.mem_of_head? hhead)

theorem IsName.endsIn_join {name : Text} (h : IsName name) (dir : Text) :
    EndsIn (join dir name) name := by
  have hpieces := pieces_of_not_mem h.no_slash
  unfold join
  rw [isAbsolute_eq_false h.no_slash, Bool.false_or]
  split_ifs with hempty hslash
  · exact h.endsIn
  · obtain ⟨front, rfl⟩ := List.getLast?_eq_some_iff.1 (beq_iff_eq.1 hslash)
    refine ⟨pieces front, ?_⟩
    rw [List.append_assoc, List.singleton_append, pieces_append, hpieces]
  · exact ⟨pieces dir, by rw [pieces_append, hpieces]⟩

theorem EndsIn.fileName? {p name : Text} (h : EndsIn p name) (hname : IsName name) :
    fileName? p = some name := by
  obtain ⟨front, hfront⟩ := h
  have hlast : (components p).getLast? = some name := by
    rw [components, hfront, List.filter_append]
    simp [hname.ne_nil, hname.ne_dot]
  simp [Path.fileName?, hlast, hname.ne_dot, hname.ne_dots]

/-! ## Names with an ending -/

theorem isName_append {x ending : Text} (hx : '/' ∉ x) (hending : '/' ∉ ending)
    (hlength : 2 < ending.length) : IsName (x ++ ending) where
  ne_nil h := by
    have hnil := (List.append_eq_nil_iff.1 h).2
    rw [hnil] at hlength
    simp at hlength
  no_slash h := by
    rcases List.mem_append.1 h with h | h
    · exact hx h
    · exact hending h
  ne_dot h := by
    have := congrArg List.length h
    simp only [List.length_append, List.length_cons, List.length_nil] at this
    omega
  ne_dots h := by
    have := congrArg List.length h
    simp only [List.length_append, List.length_cons, List.length_nil] at this
    omega

/-- The ending of a unit's name is cut off, unless it is the whole name. -/
theorem stem_tok (x : Text) :
    stem (x ++ ".tok".toList) = if x = [] then ".tok".toList else x := by
  have hdrop : (x ++ ".tok".toList).reverse.dropWhile (· != '.') = '.' :: x.reverse := by
    rw [List.reverse_append]
    rfl
  unfold stem
  rw [hdrop]
  rcases List.eq_nil_or_concat x with rfl | ⟨front, c, rfl⟩
  · rfl
  · simp

theorem EndsIn.outputName {p x : Text} (h : EndsIn p (x ++ ".tok".toList)) (hx : '/' ∉ x) :
    outputName p = (if x = [] then ".tok".toList else x) ++ ".txt".toList := by
  have hname : IsName (x ++ ".tok".toList) := isName_append hx (by decide) (by decide)
  rw [Path.outputName, h.fileName? hname, Option.map_some, Option.getD_some, stem_tok]

/-- Of two different units, only `.tok` and `.tok.tok` share a listing. -/
theorem outputName_eq_iff {p q x y : Text} (hp : EndsIn p (x ++ ".tok".toList))
    (hq : EndsIn q (y ++ ".tok".toList)) (hx : '/' ∉ x) (hy : '/' ∉ y) (hne : x ≠ y) :
    outputName p = outputName q ↔
      x = [] ∧ y = ".tok".toList ∨ x = ".tok".toList ∧ y = [] := by
  rw [hp.outputName hx, hq.outputName hy, List.append_left_inj]
  by_cases hx0 : x = []
  · have hy0 : y ≠ [] := fun hy0 => hne (hx0.trans hy0.symm)
    rw [if_pos hx0, if_neg hy0]
    exact ⟨fun h => Or.inl ⟨hx0, h.symm⟩,
      fun h => h.elim (fun h => h.2.symm) fun h => absurd h.2 hy0⟩
  · rw [if_neg hx0]
    by_cases hy0 : y = []
    · rw [if_pos hy0]
      simp [hx0, hy0]
    · rw [if_neg hy0]
      simp [hx0, hy0, hne]

end Path

end MissionScript
