import MissionScript.Proofs.Yaml.ScalarReading
import MissionScript.Yaml.Node

/-!
# The nodes of written entries

The tokens of a written value are read back as its node, whatever stands behind them
(`Node.Reads`); only an item behind a list without indentation would belong to it. The same is said
of the entries of a mapping with the end of its block (`Node.ReadsEntries`), and a mapping is read
entry by entry. A token is passed by at most three nested calls, so three times the number of the
tokens is fuel enough.
-/

namespace MissionScript

namespace Yaml

namespace Node

/-- The tokens stand for the value of an entry. -/
structure Reads (ts : List Token) (n : Node) : Prop where
  present : ∀ rest anchors handles,
    (Input.mk (ts ++ rest) anchors handles).startsIn [.key, .value, .blockEnd] = false
  read : ∀ fuel rest anchors handles, 3 * ts.length ≤ fuel → rest.head? ≠ some .blockEntry →
    read true true fuel ⟨ts ++ rest, anchors, handles⟩ = some (n, ⟨rest, anchors, handles⟩)

/-- The tokens stand for entries of a block and its end. -/
structure ReadsEntries (ts : List Token) (entries : List (Node × Node)) : Prop where
  starts : ts.head? = some .key ∨ ts.head? = some .blockEnd
  read : ∀ fuel rest anchors handles, 3 * ts.length ≤ fuel →
    readBlockEntries fuel ⟨ts ++ rest, anchors, handles⟩ = some (entries, ⟨rest, anchors, handles⟩)

theorem read_scalar {block indentless : Bool} {style : ScalarStyle} {t : Text} {rest : List Token}
    {fuel : Nat} {anchors : List (Text × Nat)} {handles : List (Text × Text)} :
    Node.read block indentless (fuel + 1) ⟨.scalar style t :: rest, anchors, handles⟩
      = some (.scalar none none style t, ⟨rest, anchors, handles⟩) := by
  simp [Node.read, Input.properties, Input.anchor, Input.drop]

theorem Reads.scalar (style : ScalarStyle) (t : Text) :
    Reads [.scalar style t] (.scalar none none style t) := by
  refine ⟨fun rest anchors handles => by simp [Input.startsIn],
    fun fuel rest anchors handles hfuel _ => ?_⟩
  obtain ⟨fuel, rfl⟩ : ∃ n, fuel = n + 1 := ⟨fuel - 1, by simp at hfuel; omega⟩
  exact read_scalar

theorem Reads.emptySequence : Reads [.flowSequenceStart, .flowSequenceEnd] (.sequence none []) := by
  refine ⟨fun rest anchors handles => by simp [Input.startsIn],
    fun fuel rest anchors handles hfuel _ => ?_⟩
  obtain ⟨fuel, rfl⟩ : ∃ n, fuel = n + 2 := ⟨fuel - 2, by simp at hfuel; omega⟩
  simp [Node.read, readFlowItems, Input.properties, Input.anchor, Input.drop, Input.startsIn]

theorem Reads.emptyMapping : Reads [.flowMappingStart, .flowMappingEnd] (.mapping none []) := by
  refine ⟨fun rest anchors handles => by simp [Input.startsIn],
    fun fuel rest anchors handles hfuel _ => ?_⟩
  obtain ⟨fuel, rfl⟩ : ∃ n, fuel = n + 2 := ⟨fuel - 2, by simp at hfuel; omega⟩
  simp [Node.read, readFlowEntries, Input.properties, Input.anchor, Input.drop, Input.startsIn]

theorem Reads.readUnless {ts rest : List Token} {n : Node} (h : Reads ts n) {fuel : Nat}
    {anchors : List (Text × Nat)} {handles : List (Text × Text)} (hfuel : 3 * ts.length < fuel)
    (hrest : rest.head? ≠ some .blockEntry) :
    readUnless [.key, .value, .blockEnd] true true fuel ⟨ts ++ rest, anchors, handles⟩
      = some (n, ⟨rest, anchors, handles⟩) := by
  obtain ⟨fuel, rfl⟩ : ∃ n, fuel = n + 1 := ⟨fuel - 1, by omega⟩
  rw [Node.readUnless, h.present, if_neg Bool.false_ne_true]
  exact h.read fuel rest anchors handles (by omega) hrest

/-! ## Mappings -/

theorem ReadsEntries.nil : ReadsEntries [.blockEnd] [] := by
  refine ⟨Or.inr rfl, fun fuel rest anchors handles hfuel => ?_⟩
  obtain ⟨fuel, rfl⟩ : ∃ n, fuel = n + 1 := ⟨fuel - 1, by simp at hfuel; omega⟩
  simp [readBlockEntries, Input.drop]

theorem ReadsEntries.head?_append_ne {ts : List Token} {entries : List (Node × Node)}
    (h : ReadsEntries ts entries) (rest : List Token) :
    (ts ++ rest).head? ≠ some .blockEntry := by
  rcases h.starts with hhead | hhead <;> simp [List.head?_append, hhead]

theorem ReadsEntries.cons {ts more : List Token} {v : Node} {entries : List (Node × Node)}
    (k : Text) (hv : Reads ts v) (h : ReadsEntries more entries) :
    ReadsEntries (.key :: .scalar .plain k :: .value :: (ts ++ more))
      ((.scalar none none .plain k, v) :: entries) := by
  refine ⟨Or.inl rfl, fun fuel rest anchors handles hfuel => ?_⟩
  simp only [List.length_cons, List.length_append] at hfuel
  obtain ⟨fuel, rfl⟩ : ∃ n, fuel = n + 1 := ⟨fuel - 1, by omega⟩
  have hkey : Node.readUnless [.key, .value, .blockEnd] true true fuel
      ⟨.scalar .plain k :: .value :: (ts ++ (more ++ rest)), anchors, handles⟩
        = some (.scalar none none .plain k, ⟨.value :: (ts ++ (more ++ rest)), anchors, handles⟩) :=
    (Reads.scalar .plain k).readUnless (by simp only [List.length_singleton]; omega) (by simp)
  have hvalue : Node.readUnless [.key, .value, .blockEnd] true true fuel
      ⟨ts ++ (more ++ rest), anchors, handles⟩ = some (v, ⟨more ++ rest, anchors, handles⟩) :=
    hv.readUnless (by omega) (h.head?_append_ne rest)
  have hmore := h.read fuel rest anchors handles (by omega)
  simp [readBlockEntries, Input.drop, hkey, Input.startsIn, hvalue, hmore]

theorem read_mapping {ts : List Token} {entries : List (Node × Node)} (indentless : Bool)
    (h : ReadsEntries ts entries) {fuel : Nat} {rest : List Token} {anchors : List (Text × Nat)}
    {handles : List (Text × Text)} (hfuel : 3 * ts.length < fuel) :
    Node.read true indentless fuel ⟨.blockMappingStart :: (ts ++ rest), anchors, handles⟩
      = some (.mapping none entries, ⟨rest, anchors, handles⟩) := by
  obtain ⟨fuel, rfl⟩ : ∃ n, fuel = n + 1 := ⟨fuel - 1, by omega⟩
  have hread := h.read fuel rest anchors handles (by omega)
  simp [Node.read, Input.properties, Input.anchor, Input.drop, hread]

theorem Reads.mapping {ts : List Token} {entries : List (Node × Node)}
    (h : ReadsEntries ts entries) : Reads (.blockMappingStart :: ts) (.mapping none entries) := by
  refine ⟨fun rest anchors handles => by simp [Input.startsIn],
    fun fuel rest anchors handles hfuel _ => read_mapping true h ?_⟩
  simp only [List.length_cons] at hfuel
  omega

/-! ## Lists -/

theorem readUnless_item {style : ScalarStyle} {t : Text} {rest : List Token} {fuel : Nat}
    {anchors : List (Text × Nat)} {handles : List (Text × Text)} (hfuel : 2 ≤ fuel) :
    readUnless [.blockEntry, .key, .value, .blockEnd] true false fuel
        ⟨.scalar style t :: rest, anchors, handles⟩
      = some (.scalar none none style t, ⟨rest, anchors, handles⟩) := by
  obtain ⟨fuel, rfl⟩ : ∃ n, fuel = n + 2 := ⟨fuel - 2, by omega⟩
  simp [readUnless, Input.startsIn, read_scalar]

/-- The items of a list without indentation, in front of anything that is no item. -/
theorem readIndentlessItems_append {rest : List Token} (hrest : rest.head? ≠ some .blockEntry)
    (anchors : List (Text × Nat)) (handles : List (Text × Text)) :
    ∀ (items : List (ScalarStyle × Text)) {fuel : Nat}, 2 * items.length < fuel →
      readIndentlessItems fuel
          ⟨items.flatMap (fun i => [.blockEntry, .scalar i.1 i.2]) ++ rest, anchors, handles⟩
        = some (items.map (fun i => .scalar none none i.1 i.2), ⟨rest, anchors, handles⟩)
  | [], fuel, hfuel => by
    obtain ⟨fuel, rfl⟩ : ∃ n, fuel = n + 1 := ⟨fuel - 1, by omega⟩
    rw [List.flatMap_nil, List.nil_append, readIndentlessItems]
    split
    · rename_i heq
      exact absurd (congrArg List.head? heq) hrest
    · rfl
  | (style, t) :: items, fuel, hfuel => by
    simp only [List.length_cons] at hfuel
    obtain ⟨fuel, rfl⟩ : ∃ n, fuel = n + 1 := ⟨fuel - 1, by omega⟩
    have hfuel' : 2 ≤ fuel := by omega
    have hmore := readIndentlessItems_append hrest anchors handles items
      (by omega : 2 * items.length < fuel)
    simp [readIndentlessItems, Input.drop, readUnless_item hfuel', hmore]

theorem Reads.items {items : List (ScalarStyle × Text)} (hne : items ≠ []) :
    Reads (items.flatMap fun i => [.blockEntry, .scalar i.1 i.2])
      (.sequence none (items.map fun i => .scalar none none i.1 i.2)) := by
  have hlength : (items.flatMap fun i => [Token.blockEntry, .scalar i.1 i.2]).length
      = 2 * items.length := by
    simp [List.length_flatMap, Nat.mul_comm]
  have hpos : 0 < items.length := List.length_pos_iff.2 hne
  refine ⟨?_, fun fuel rest anchors handles hfuel hrest => ?_⟩
  · obtain ⟨item, more, rfl⟩ := List.exists_cons_of_ne_nil hne
    simp [Input.startsIn]
  · obtain ⟨fuel, rfl⟩ : ∃ n, fuel = n + 1 := ⟨fuel - 1, by omega⟩
    have hread := readIndentlessItems_append hrest anchors handles items
      (by omega : 2 * items.length < fuel)
    obtain ⟨item, more, rfl⟩ := List.exists_cons_of_ne_nil hne
    rw [List.flatMap_cons] at hread ⊢
    simp only [List.cons_append, List.nil_append] at hread ⊢
    simp [Node.read, Input.properties, Input.anchor, hread]

/-! ## Documents -/

theorem ofTokens?_mapping {ts : List Token} {entries : List (Node × Node)}
    (h : ReadsEntries ts entries) :
    ofTokens? (.blockMappingStart :: ts) = some (.mapping none entries) := by
  have hread : Node.read true false (3 * (ts.length + 1) + 3)
      ⟨.blockMappingStart :: (ts ++ []), [], standardHandles⟩
        = some (.mapping none entries, ⟨[], [], standardHandles⟩) :=
    read_mapping false h (by omega)
  rw [List.append_nil] at hread
  simp [ofTokens?, readRoot, hread]

end Node

end Yaml

end MissionScript
