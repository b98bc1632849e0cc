import MissionScript.Proofs.ReadBack

/-!
# Joined numbers as blocks of words

Joining numbers cuts a list of words into blocks and sets each block as one word
(`mergeNumbers_eq_map_flatten`). A block is a single word, or digit words with or without a minus
sign in front of them; these are the words each of which joins the next (`isBlock_iff`). The blocks
are as long as they can be, so that no two neighbours make one block together, and there is only one
such cut: wherever a word does not join the next (`maximalBlocks_iff`). A joined word is a number
only if its first word is (`isNumber_of_mergeNumbers`), so in the result no word joins the next and
joining again changes nothing.
-/

namespace MissionScript

namespace Line

/-- Whether a word and the one after it are set as one. -/
def runsOn (w u : Text) : Bool := joins w (some u)

/-- Words that are set as one: a single word, or at least two words that are numbers but for a minus
sign in front. -/
def IsBlock (block : List Text) : Prop :=
  (∃ w, block = [w])
    ∨ 2 ≤ block.length ∧ ∃ digits : List Text, digits ≠ [] ∧ (∀ w ∈ digits, isNumber w = true)
        ∧ (block = digits ∨ block = ['-'] :: digits)

/-- Blocks that cut a list of words, in order, and of which no two neighbours make one block. -/
structure MaximalBlocks (words : List Text) (blocks : List (List Text)) : Prop where
  flatten_eq : blocks.flatten = words
  isBlock : ∀ block ∈ blocks, IsBlock block
  maximal : blocks.IsChain fun block next => ¬ IsBlock (block ++ next)

/-! ## Blocks -/

theorem runsOn_iff {w u : Text} :
    runsOn w u = true ↔ (isNumber w = true ∨ w = ['-']) ∧ isNumber u = true := by
  simp [runsOn, joins]

theorem isChain_of_isNumber {digits : List Text} (h : ∀ w ∈ digits, isNumber w = true) :
    digits.IsChain fun w u => runsOn w u = true :=
  (List.pairwise_of_forall_mem_list fun w hw u hu =>
    runsOn_iff.2 ⟨Or.inl (h w hw), h u hu⟩).isChain

/-- Behind the first word of a run there are numbers only. -/
theorem isNumber_of_isChain : ∀ {w : Text} {ws : List Text},
    (w :: ws).IsChain (fun w u => runsOn w u = true) → ∀ u ∈ ws, isNumber u = true
  | _, [], _ => by simp
  | w, u :: ws, h => by
    obtain ⟨hjoin, hchain⟩ := List.isChain_cons_cons.1 h
    exact List.forall_mem_cons.2 ⟨(runsOn_iff.1 hjoin).2, isNumber_of_isChain hchain⟩

theorem isBlock_iff {block : List Text} :
    IsBlock block ↔ block ≠ [] ∧ block.IsChain fun w u => runsOn w u = true := by
  constructor
  · rintro (⟨w, rfl⟩ | ⟨-, digits, hne, hnum, rfl | rfl⟩)
    · exact ⟨List.cons_ne_nil _ _, List.isChain_singleton w⟩
    · exact ⟨hne, isChain_of_isNumber hnum⟩
    · refine ⟨List.cons_ne_nil _ _, List.isChain_cons.2 ⟨fun u hu => ?_, isChain_of_isNumber hnum⟩⟩
      exact runsOn_iff.2 ⟨Or.inr rfl, hnum u (List.mem_of_mem_head? hu)⟩
  · rintro ⟨hne, hchain⟩
    match block, hne, hchain with
    | [w], _, _ => exact Or.inl ⟨w, rfl⟩
    | w :: u :: ws, _, hchain =>
      have hnum := isNumber_of_isChain hchain
      refine Or.inr ⟨by simp, ?_⟩
      rcases (runsOn_iff.1 (List.isChain_cons_cons.1 hchain).1).1 with hw | rfl
      · exact ⟨w :: u :: ws, List.cons_ne_nil _ _, List.forall_mem_cons.2 ⟨hw, hnum⟩, Or.inl rfl⟩
      · exact ⟨u :: ws, List.cons_ne_nil _ _, hnum, Or.inr rfl⟩

/-- Two blocks make no block together exactly if the last word of the one does not join the first of
the other. -/
theorem not_isBlock_append_iff {b c : List Text} (hb : IsBlock b) (hc : IsBlock c) :
    ¬ IsBlock (b ++ c) ↔ ∃ hne hne', runsOn (b.getLast hne) (c.head hne') = false := by
  obtain ⟨hne, hchain⟩ := isBlock_iff.1 hb
  obtain ⟨hne', hchain'⟩ := isBlock_iff.1 hc
  have happend : IsBlock (b ++ c) ↔ runsOn (b.getLast hne) (c.head hne') = true := by
    rw [isBlock_iff, List.isChain_append, List.getLast?_eq_some_getLast hne,
      List.head?_eq_some_head hne']
    simp [hne, hchain, hchain']
  rw [happend, Bool.not_eq_true]
  exact ⟨fun h => ⟨hne, hne', h⟩, fun ⟨_, _, h⟩ => h⟩

/-- There is one way to cut words into blocks that are as long as can be. -/
theorem maximalBlocks_iff {words : List Text} {blocks : List (List Text)} :
    MaximalBlocks words blocks ↔ words.splitBy runsOn = blocks := by
  rw [List.splitBy_eq_iff]
  constructor
  · rintro ⟨hflatten, hblock, hmaximal⟩
    refine ⟨hflatten.symm, fun h => (isBlock_iff.1 (hblock [] h)).1 rfl,
      fun b hb => (isBlock_iff.1 (hblock b hb)).2, ?_⟩
    exact (List.IsChain.iff_of_mem_imp fun b c hb hc =>
      not_isBlock_append_iff (hblock b hb) (hblock c hc)).1 hmaximal
  · rintro ⟨hflatten, hne, hchain, hcut⟩
    have hblock : ∀ b ∈ blocks, IsBlock b := fun b hb =>
      isBlock_iff.2 ⟨fun h => hne (h ▸ hb), hchain b hb⟩
    refine ⟨hflatten.symm, hblock, ?_⟩
    exact (List.IsChain.iff_of_mem_imp fun b c hb hc =>
      not_isBlock_append_iff (hblock b hb) (hblock c hc)).2 hcut

/-! ## Joining -/

/-- A word that joins the next one is drawn into the block that starts there. -/
theorem splitBy_cons_of_runsOn {t u : Text} (us : List Text) (h : runsOn t u = true) :
    ∃ b more, (u :: us).splitBy runsOn = b :: more
      ∧ (t :: u :: us).splitBy runsOn = (t :: b) :: more := by
  obtain ⟨b, more, hsplit⟩ : ∃ b more, (u :: us).splitBy runsOn = b :: more :=
    List.exists_cons_of_ne_nil (List.splitBy_ne_nil.2 (List.cons_ne_nil u us))
  refine ⟨b, more, hsplit, List.splitBy_eq_iff.2 ?_⟩
  obtain ⟨hflatten, hne, hchain, hcut⟩ := List.splitBy_eq_iff.1 hsplit
  cases b with
  | nil => simp at hne
  | cons v b =>
    obtain ⟨rfl, hrest⟩ : u = v ∧ us = b ++ more.flatten := by simpa using hflatten
    obtain ⟨hb, hmore⟩ := List.forall_mem_cons.1 hchain
    refine ⟨by simp [hrest], by simp_all, ?_, ?_⟩
    · exact List.forall_mem_cons.2 ⟨List.isChain_cons_cons.2 ⟨h, hb⟩, hmore⟩
    · rw [List.isChain_cons] at hcut ⊢
      refine ⟨fun c hc => ?_, hcut.2⟩
      obtain ⟨hlast, hhead, hcut⟩ := hcut.1 c hc
      exact ⟨List.cons_ne_nil _ _, hhead, by rwa [List.getLast_cons hlast]⟩

/-- Joining sets each block as one word. -/
theorem mergeNumbers_eq_map_flatten : ∀ words : List Text,
    mergeNumbers words = (words.splitBy runsOn).map List.flatten
  | [] => rfl
  | t :: ts => by
    have ih := mergeNumbers_eq_map_flatten ts
    cases hj : joins t ts.head? with
    | false =>
      have hstop : ∀ w ∈ [t].getLast?, ∀ u ∈ ts.head?, runsOn w u = false := by
        intro w hw u hu
        obtain rfl : t = w := by simpa using hw
        rwa [Option.mem_def.1 hu] at hj
      have hcut : (t :: ts).splitBy runsOn = [t] :: ts.splitBy runsOn := List.splitBy_append hstop
      rw [mergeNumbers_cons_of_not_joins hj, hcut, ih, List.map_cons, List.flatten_singleton]
    | true =>
      obtain ⟨n, more, hm, -, hmerge⟩ := exists_mergeNumbers_of_joins hj
      cases ts with
      | nil => simp [joins] at hj
      | cons u us =>
        obtain ⟨b, more', hsplit, hsplit'⟩ := splitBy_cons_of_runsOn us hj
        rw [hm, hsplit, List.map_cons, List.cons.injEq] at ih
        rw [hmerge, hsplit', List.map_cons, List.flatten_cons, ih.1, ih.2]

/-- A joined word in front is a number only if the first word is. -/
theorem isNumber_of_mergeNumbers {t : Text} {ts : List Text} {n : Text} {more : List Text}
    (h : mergeNumbers (t :: ts) = n :: more) (hn : isNumber n = true) : isNumber t = true := by
  cases hj : joins t ts.head? with
  | false =>
    rw [mergeNumbers_cons_of_not_joins hj] at h
    rwa [(List.cons.inj h).1]
  | true =>
    obtain ⟨m, more', -, -, hmerge⟩ := exists_mergeNumbers_of_joins hj
    rw [hmerge] at h
    obtain rfl := (List.cons.inj h).1
    simp only [joins, Bool.and_eq_true, Bool.or_eq_true, beq_iff_eq] at hj
    rcases hj.1 with ht | rfl
    · exact ht
    · -- A minus sign in front is no digit.
      simp [isNumber, Text.isAsciiDigit] at hn

/-- No number is left to join. -/
theorem isChain_mergeNumbers : ∀ words : List Text,
    (mergeNumbers words).IsChain fun w u => runsOn w u = false
  | [] => List.isChain_nil
  | t :: ts => by
    have ih := isChain_mergeNumbers ts
    cases hj : joins t ts.head? with
    | false =>
      rw [mergeNumbers_cons_of_not_joins hj]
      refine List.isChain_cons.2 ⟨fun n hn => ?_, ih⟩
      by_contra hrun
      obtain ⟨ht, hnum⟩ := runsOn_iff.1 (eq_true_of_ne_false hrun)
      cases ts with
      | nil => simp [mergeNumbers] at hn
      | cons u us =>
        obtain ⟨more, hm⟩ := List.head?_eq_some_iff.1 (Option.mem_def.1 hn)
        have hu : isNumber u = true := isNumber_of_mergeNumbers hm hnum
        have hjoin : runsOn t u = true := runsOn_iff.2 ⟨ht, hu⟩
        exact absurd (hj.symm.trans hjoin) Bool.false_ne_true
    | true =>
      obtain ⟨n, more, hm, hnum, hmerge⟩ := exists_mergeNumbers_of_joins hj
      rw [hm, List.isChain_cons] at ih
      rw [hmerge]
      refine List.isChain_cons.2 ⟨fun u hu => ?_, ih.2⟩
      have hu : isNumber u = false := by simpa [runsOn, joins, hnum] using ih.1 u hu
      simp [runsOn, joins, hu]

theorem mergeNumbers_of_isChain : ∀ {words : List Text},
    (words.IsChain fun w u => runsOn w u = false) → mergeNumbers words = words
  | [], _ => rfl
  | [w], _ => by simp [mergeNumbers, joins]
  | w :: u :: words, h => by
    obtain ⟨hjoin, hchain⟩ := List.isChain_cons_cons.1 h
    have hj : joins w (u :: words).head? = false := hjoin
    rw [mergeNumbers_cons_of_not_joins hj, mergeNumbers_of_isChain hchain]

/-- Joining numbers is the one maximal regrouping of words into blocks, each set as one word; in the
result no number directly follows a number or a bare minus sign, the text of the words is as it was,
and joining the result again changes nothing. -/
theorem mergeNumbers_is_maximal (words : List Text) :
    (∃ blocks, MaximalBlocks words blocks ∧ (∀ other, MaximalBlocks words other → other = blocks)
        ∧ mergeNumbers words = blocks.map List.flatten)
      ∧ ((mergeNumbers words).IsChain fun w u =>
          isNumber u = true → ¬ isNumber w = true ∧ w ≠ ['-'])
      ∧ (mergeNumbers words).flatten = words.flatten
      ∧ mergeNumbers (mergeNumbers words) = mergeNumbers words := by
  have hchain := isChain_mergeNumbers words
  refine ⟨⟨words.splitBy runsOn, maximalBlocks_iff.2 rfl,
    fun other h => (maximalBlocks_iff.1 h).symm, mergeNumbers_eq_map_flatten words⟩, ?_,
    flatten_mergeNumbers words, mergeNumbers_of_isChain hchain⟩
  refine hchain.imp fun w u hrun hu => ?_
  rw [← not_or]
  intro hw
  rw [runsOn_iff.2 ⟨hw, hu⟩] at hrun
  exact Bool.false_ne_true hrun.symm

/-- A bare minus sign, a signed number, a word, a number that came in one piece with its sign,
digits behind it, and a minus sign at the end. -/
def signedBlocks : List (List Text) :=
  [[['-']], [['-'], ['1'], ['2', '0']], [['x']], [['-', '5']], [['7'], ['3']], [['-']]]

theorem mergeNumbers_is_maximal_signed :
    MaximalBlocks signedBlocks.flatten signedBlocks
      ∧ mergeNumbers signedBlocks.flatten
        = [['-'], ['-', '1', '2', '0'], ['x'], ['-', '5'], ['7', '3'], ['-']] := by
  have hblocks : MaximalBlocks signedBlocks.flatten signedBlocks := maximalBlocks_iff.2 (by decide)
  obtain ⟨⟨blocks, -, hunique, hmerge⟩, -⟩ := mergeNumbers_is_maximal signedBlocks.flatten
  exact ⟨hblocks, by rw [hmerge, ← hunique signedBlocks hblocks]; rfl⟩

end Line

end MissionScript
