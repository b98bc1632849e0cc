/-!
# Sets of names

A set of names is a list in strictly ascending order. The order is part of the type, so two sets
with the same names are equal.
-/

namespace MissionScript

structure NameSet where
  toList : List String
  ascending : toList.Pairwise (· < ·)
  deriving DecidableEq

namespace NameSet

def empty : NameSet := ⟨[], .nil⟩

def place (s : String) : List String → List String
  | [] => [s]
  | x :: xs => if s < x then s :: x :: xs else if s = x then x :: xs else x :: place s xs

theorem mem_place {s y : String} {l : List String} : y ∈ place s l ↔ y = s ∨ y ∈ l := by
  induction l with
  | nil => simp [place]
  | cons x xs ih =>
    unfold place
    split
    · simp
    · split
      · next h => simp [h]
      · simp only [List.mem_cons, ih]
        exact or_left_comm

theorem pairwise_place {s : String} {l : List String} (h : l.Pairwise (· < ·)) :
    (place s l).Pairwise (· < ·) := by
  induction l with
  | nil => simp [place]
  | cons x xs ih =>
    obtain ⟨hx, hxs⟩ := List.pairwise_cons.1 h
    unfold place
    split
    · next hs =>
      refine List.pairwise_cons.2 ⟨fun y hy => ?_, h⟩
      rcases List.mem_cons.1 hy with rfl | hy
      · exact hs
      · exact String.lt_trans hs (hx y hy)
    · next hs =>
      split
      · exact h
      · next hne =>
        refine List.pairwise_cons.2 ⟨fun y hy => ?_, ih hxs⟩
        rcases mem_place.1 hy with rfl | hy
        · exact Std.lt_of_le_of_ne (String.not_lt.1 hs) (Ne.symm hne)
        · exact hx y hy

def insert (n : NameSet) (s : String) : NameSet := ⟨place s n.toList, pairwise_place n.ascending⟩

def union (m n : NameSet) : NameSet := n.toList.foldl insert m

theorem mem_insert {n : NameSet} {s name : String} :
    name ∈ (n.insert s).toList ↔ name = s ∨ name ∈ n.toList := mem_place

theorem mem_foldl_insert {name : String} : ∀ (names : List String) (set : NameSet),
    name ∈ (names.foldl insert set).toList ↔ name ∈ set.toList ∨ name ∈ names
  | [], set => by simp
  | first :: names, set => by
    rw [List.foldl_cons, mem_foldl_insert names, mem_insert, List.mem_cons, or_assoc, or_left_comm]

theorem mem_union {m n : NameSet} {name : String} :
    name ∈ (m.union n).toList ↔ name ∈ m.toList ∨ name ∈ n.toList := mem_foldl_insert n.toList m

theorem nodup (n : NameSet) : n.toList.Nodup :=
  n.ascending.imp fun {a b} (h : a < b) (heq : a = b) => String.lt_irrefl b (heq ▸ h)

theorem eq_of_mem_iff {m n : NameSet} (h : ∀ name, name ∈ m.toList ↔ name ∈ n.toList) : m = n := by
  have hperm : m.toList.Perm n.toList := (List.perm_ext_iff_of_nodup m.nodup n.nodup).2 h
  have heq : m.toList = n.toList := hperm.eq_of_pairwise
    (fun _ _ _ _ hlt hgt => absurd hgt (String.lt_asymm hlt)) m.ascending n.ascending
  cases m
  cases n
  cases heq
  rfl

end NameSet

end MissionScript
