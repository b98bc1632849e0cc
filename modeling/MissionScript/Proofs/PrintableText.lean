import MissionScript.Symbols
import MissionScript.Token
import MissionScript.Proofs.StringSubstitution

/-!
# Printable text

The printable characters are those of ASCII from the space to the tilde, so a printable text has no
line break in it. Numbers are written with printable characters, and the tables of a program that
was written by hand have printable names (`SymbolTables.PrintableNames`).
-/

namespace MissionScript

namespace Text

def IsPrintable (t : Text) : Prop := ∀ c ∈ t, 0x20 ≤ c.toNat ∧ c.toNat ≤ 0x7e

instance (t : Text) : Decidable t.IsPrintable :=
  List.decidableBAll (fun c : Char => 0x20 ≤ c.toNat ∧ c.toNat ≤ 0x7e) t

namespace IsPrintable

variable {t u : Text} {c : Char}

theorem append (ht : IsPrintable t) (hu : IsPrintable u) : IsPrintable (t ++ u) := by
  intro c hc
  rcases List.mem_append.1 hc with hc | hc
  · exact ht c hc
  · exact hu c hc

theorem cons (ht : IsPrintable t) (hc : 0x20 ≤ c.toNat ∧ c.toNat ≤ 0x7e) :
    IsPrintable (c :: t) := by
  intro d hd
  rcases List.mem_cons.1 hd with rfl | hd
  · exact hc
  · exact ht d hd

theorem not_mem_lineBreak (ht : IsPrintable t) : '\n' ∉ t := fun h => absurd (ht _ h) (by decide)

theorem decimal (n : Nat) : IsPrintable (Text.decimal n) := by
  intro c hc
  have hdigit := isAsciiDigit_of_mem_decimal hc
  simp only [isAsciiDigit, Bool.and_eq_true, decide_eq_true_eq] at hdigit
  have hlow : 48 ≤ c.toNat := hdigit.1
  have hhigh : c.toNat ≤ 57 := hdigit.2
  omega

theorem hexByte (b : UInt8) : IsPrintable (Text.hexByte b) := by
  have hdigit : ∀ n < 16, 0x20 ≤ (Nat.digitChar n).toNat ∧ (Nat.digitChar n).toNat ≤ 0x7e := by
    decide
  have hb := b.toNat_lt
  intro c hc
  simp only [Text.hexByte, List.mem_cons, List.not_mem_nil, or_false] at hc
  rcases hc with rfl | rfl
  · exact hdigit _ (by omega)
  · exact hdigit _ (by omega)

theorem ofByte {b : UInt8} (h : Token.isPrintable b = true) : IsPrintable [Char.ofNat b.toNat] := by
  simp only [Token.isPrintable, Bool.and_eq_true, decide_eq_true_eq, UInt8.le_iff_toNat_le,
    UInt8.reduceToNat] at h
  intro c hc
  have hvalid : b.toNat.isValidChar := Or.inl (by have := b.toNat_lt; omega)
  have hcode : (Char.ofNat b.toNat).toNat = b.toNat := by
    rw [Char.ofNat, dif_pos hvalid]
    rfl
  rw [List.mem_singleton.1 hc, hcode]
  exact h

end IsPrintable

end Text

/-- The names of both tables are printable. -/
structure SymbolTables.PrintableNames (tables : SymbolTables) : Prop where
  functions : ∀ id name, tables.functions.name? id = some name → Text.IsPrintable name.toList
  strings : ∀ table, tables.strings = some table →
    ∀ name ∈ table.names, Text.IsPrintable name.toList

end MissionScript
