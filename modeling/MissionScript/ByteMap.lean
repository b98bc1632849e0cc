/-!
# Tables keyed by a byte

A table gives each of the 256 bytes at most one value. It is the look-up function itself, so two
tables that agree at every byte are equal, and the entries in ascending order are read off it.
-/

namespace MissionScript

def allBytes : List UInt8 := (List.range 256).map UInt8.ofNat

theorem mem_allBytes (b : UInt8) : b ∈ allBytes :=
  List.mem_map.2 ⟨b.toNat, List.mem_range.2 b.toNat_lt, UInt8.ofNat_toNat⟩

@[ext]
structure ByteMap (α : Type) where
  get? : UInt8 → Option α

namespace ByteMap

variable {α : Type}

def empty : ByteMap α := ⟨fun _ => none⟩

instance : Inhabited (ByteMap α) := ⟨empty⟩

def insert (m : ByteMap α) (k : UInt8) (v : α) : ByteMap α :=
  ⟨fun i => if i = k then some v else m.get? i⟩

def contains (m : ByteMap α) (k : UInt8) : Bool := (m.get? k).isSome

/-- The entries in ascending order of their bytes. -/
def toList (m : ByteMap α) : List (UInt8 × α) :=
  allBytes.filterMap fun k => (m.get? k).map (k, ·)

/-- The table of a list of entries; of two entries with one byte the later counts. -/
def ofList (entries : List (UInt8 × α)) : ByteMap α :=
  entries.foldl (fun m e => m.insert e.1 e.2) empty

def size (m : ByteMap α) : Nat := m.toList.length

def isEmpty (m : ByteMap α) : Bool := m.toList.isEmpty

@[simp]
theorem get?_empty (k : UInt8) : (empty : ByteMap α).get? k = none := rfl

@[simp]
theorem get?_insert (m : ByteMap α) (k i : UInt8) (v : α) :
    (m.insert k v).get? i = if i = k then some v else m.get? i := rfl

theorem mem_toList {m : ByteMap α} {k : UInt8} {v : α} :
    (k, v) ∈ m.toList ↔ m.get? k = some v := by
  simp only [toList, List.mem_filterMap, Option.map_eq_some_iff, Prod.mk.injEq]
  constructor
  · rintro ⟨j, -, w, hw, rfl, rfl⟩
    exact hw
  · intro h
    exact ⟨k, mem_allBytes k, v, h, rfl, rfl⟩

theorem all_eq_iff [DecidableEq α] {m n : ByteMap α} :
    (allBytes.all fun k => decide (m.get? k = n.get? k)) = true ↔ m = n := by
  simp only [List.all_eq_true, decide_eq_true_eq]
  exact ⟨fun h => ByteMap.ext (funext fun k => h k (mem_allBytes k)), fun h _ _ => by rw [h]⟩

instance [DecidableEq α] : DecidableEq (ByteMap α) := fun _ _ => decidable_of_iff _ all_eq_iff

end ByteMap

end MissionScript
