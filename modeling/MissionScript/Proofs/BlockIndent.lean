import MissionScript.Proofs.ListingRun

/-!
# The indent of a line is its nesting

A statement that begins with `if` opens a conditional, one that begins with `endif` closes it, and
one that begins with `else` does both. A script in which they match is a block: conditionals with
any number of `else` branches, nested and one after the other. The indent is a counter that stops
at zero (`indents_linesFrom`), but over a block it never gets there from above: the counter returns
to where it was (`Block.depthAfter_marks`) and every line is set in by the number of conditionals
around it (`Block.depths_eq_around`). The marks of one conditional, `if`, every `else` and `endif`,
stand at one indent (`Block.exists_aligned`).
-/

namespace MissionScript

/-- What a statement is to the conditional blocks. -/
inductive Mark where
  | opening
  | alternative
  | closing
  | none
  deriving DecidableEq, Repr

namespace Mark

/-- Whether the first token is the name `if`, `else` or `endif`. -/
def ofToken (t : Token) : Mark :=
  if t.name? = some "if" then opening
  else if t.name? = some "else" then alternative
  else if t.name? = some "endif" then closing
  else none

/-- The indent of a line with the given mark when the counter is at `d`. -/
def indent (d : Nat) : Mark → Nat
  | opening | none => d
  | alternative | closing => d - 1

/-- The counter behind a line with the given mark. -/
def next (d : Nat) : Mark → Nat
  | opening => d + 1
  | alternative => d - 1 + 1
  | closing => d - 1
  | none => d

def indents : Nat → List Mark → List Nat
  | _, [] => []
  | d, m :: ms => m.indent d :: indents (m.next d) ms

def depthAfter (d : Nat) (ms : List Mark) : Nat := ms.foldl next d

theorem indents_append (ms ms' : List Mark) (d : Nat) :
    indents d (ms ++ ms') = indents d ms ++ indents (depthAfter d ms) ms' := by
  induction ms generalizing d with
  | nil => rfl
  | cons m ms ih =>
    simp only [List.cons_append, indents, ih]
    rfl

theorem length_indents (ms : List Mark) (d : Nat) : (indents d ms).length = ms.length := by
  induction ms generalizing d with
  | nil => rfl
  | cons m ms ih => rw [indents, List.length_cons, ih, List.length_cons]

theorem depthAfter_append (ms ms' : List Mark) (d : Nat) :
    depthAfter d (ms ++ ms') = depthAfter (depthAfter d ms) ms' := List.foldl_append

theorem depthAfter_cons (m : Mark) (ms : List Mark) (d : Nat) :
    depthAfter d (m :: ms) = depthAfter (m.next d) ms := rfl

end Mark

open Mark (indents depthAfter)

def Reading.mark (reading : Reading) (segment : List UInt8) : Mark :=
  (reading.tokens segment).head?.elim .none Mark.ofToken

/-! ## The counter of a listing -/

namespace Listing

variable (reading : Reading)

/-- One statement moves the counter as its mark says. -/
theorem indent_step (p : Progress) (segment : List UInt8) :
    (step reading p segment).value.1.indent = (reading.mark segment).indent p.indent
      ∧ (step reading p segment).value.2.indent = (reading.mark segment).next p.indent := by
  have hfirst : (Statement.render reading p.slots segment).value.1.first
      = (reading.tokens segment).head? := rfl
  simp only [step, Logged.value_bind, Logged.value_pure, Statement.closesBlock,
    Statement.opensBlock, hfirst, Reading.mark]
  rcases (reading.tokens segment).head? with _ | t
  · exact ⟨rfl, rfl⟩
  · simp only [Option.any_some, Option.elim_some, Mark.ofToken, Token.isName]
    by_cases hif : t.name? = some "if"
    · simp [hif, Mark.indent, Mark.next]
    by_cases helse : t.name? = some "else"
    · simp [helse, Mark.indent, Mark.next]
    by_cases hendif : t.name? = some "endif"
    · simp [hendif, Mark.indent, Mark.next]
    simp [hif, helse, hendif, Mark.indent, Mark.next]

theorem indents_linesFrom : ∀ (segments : List (List UInt8)) (p : Progress),
    (linesFrom reading p segments).value.1.map ListedLine.indent
        = indents p.indent (segments.map reading.mark)
      ∧ (linesFrom reading p segments).value.2.indent
        = depthAfter p.indent (segments.map reading.mark)
  | [], _ => ⟨rfl, rfl⟩
  | segment :: segments, p => by
    obtain ⟨hline, hnext⟩ := indent_step reading p segment
    obtain ⟨hlines, hlast⟩ := indents_linesFrom segments (step reading p segment).value.2
    rw [linesFrom_cons, List.map_cons, List.map_cons, hline, hlines, hlast, hnext]
    exact ⟨rfl, rfl⟩

end Listing

/-! ## Blocks -/

mutual

/-- Statements in which the conditionals match. -/
inductive Block where
  | empty
  /-- A statement that is no mark, and what follows it. -/
  | statement (next : Block)
  /-- An `if` with its block, the `else` branches, an `endif`, and what follows them. -/
  | conditional (body : Block) (branches : Branches) (next : Block)

/-- Any number of `else`, each with its block. -/
inductive Branches where
  | empty
  | branch (body : Block) (more : Branches)

end

/-- The numbers of the statements that make up a conditional: its `if`, its `else`s, its `endif`. -/
structure Conditional where
  opening : Nat
  alternatives : List Nat
  closing : Nat
  deriving DecidableEq, Repr

/-- A statement lies strictly inside: between `if` and `endif`, and it is none of the `else`s. -/
def Conditional.encloses (c : Conditional) (k : Nat) : Bool :=
  c.opening < k && k < c.closing && !c.alternatives.contains k

theorem Conditional.encloses_iff {i j k : Nat} {ks : List Nat} :
    Conditional.encloses ⟨i, ks, j⟩ k = true ↔ i < k ∧ k < j ∧ k ∉ ks := by
  simp [Conditional.encloses, and_assoc]

mutual

def Block.marks : Block → List Mark
  | .empty => []
  | .statement next => .none :: next.marks
  | .conditional body branches next =>
    .opening :: (body.marks ++ (branches.marks ++ .closing :: next.marks))

def Branches.marks : Branches → List Mark
  | .empty => []
  | .branch body more => .alternative :: (body.marks ++ more.marks)

end

def Block.size (b : Block) : Nat := b.marks.length

def Branches.size (bs : Branches) : Nat := bs.marks.length

/-- The numbers of the `else`s of branches whose first statement has the given number. -/
def Branches.alternatives (i : Nat) : Branches → List Nat
  | .empty => []
  | .branch body more => i :: more.alternatives (i + 1 + body.size)

mutual

/-- The conditionals of a block whose first statement has the given number. -/
def Block.conditionals (i : Nat) : Block → List Conditional
  | .empty => []
  | .statement next => next.conditionals (i + 1)
  | .conditional body branches next =>
    ⟨i, branches.alternatives (i + 1 + body.size), i + 1 + body.size + branches.size⟩
      :: (body.conditionals (i + 1) ++ (branches.conditionals (i + 1 + body.size)
        ++ next.conditionals (i + 1 + body.size + branches.size + 1)))

def Branches.conditionals (i : Nat) : Branches → List Conditional
  | .empty => []
  | .branch body more => body.conditionals (i + 1) ++ more.conditionals (i + 1 + body.size)

end

mutual

/-- The nesting of each statement of a block that lies inside `d` conditionals. -/
def Block.depths (d : Nat) : Block → List Nat
  | .empty => []
  | .statement next => d :: next.depths d
  | .conditional body branches next =>
    d :: (body.depths (d + 1) ++ (branches.depths d ++ d :: next.depths d))

def Branches.depths (d : Nat) : Branches → List Nat
  | .empty => []
  | .branch body more => d :: (body.depths (d + 1) ++ more.depths d)

end

/-! ## The counter over a block -/

mutual

theorem Block.depthAfter_marks : ∀ (b : Block) (d : Nat), depthAfter d b.marks = d
  | .empty, _ => rfl
  | .statement next, d => by
    rw [Block.marks, Mark.depthAfter_cons]
    exact next.depthAfter_marks d
  | .conditional body branches next, d => by
    rw [Block.marks, Mark.depthAfter_cons, Mark.depthAfter_append, Mark.depthAfter_append,
      Mark.depthAfter_cons, Mark.next, body.depthAfter_marks, branches.depthAfter_marks, Mark.next,
      Nat.add_sub_cancel, next.depthAfter_marks]

/-- Inside a conditional an `else` steps back and in again. -/
theorem Branches.depthAfter_marks : ∀ (bs : Branches) (d : Nat),
    depthAfter (d + 1) bs.marks = d + 1
  | .empty, _ => rfl
  | .branch body more, d => by
    rw [Branches.marks, Mark.depthAfter_cons, Mark.depthAfter_append, Mark.next,
      Nat.add_sub_cancel, body.depthAfter_marks, more.depthAfter_marks]

end

mutual

theorem Block.indents_marks : ∀ (b : Block) (d : Nat), indents d b.marks = b.depths d
  | .empty, _ => rfl
  | .statement next, d => by
    rw [Block.marks, indents, Block.depths, Mark.next, next.indents_marks]
    rfl
  | .conditional body branches next, d => by
    rw [Block.marks, indents, Mark.indents_append, Mark.indents_append, indents, Mark.next,
      body.depthAfter_marks, branches.depthAfter_marks, Mark.next, Nat.add_sub_cancel,
      body.indents_marks, branches.indents_marks, next.indents_marks, Block.depths]
    rfl

theorem Branches.indents_marks : ∀ (bs : Branches) (d : Nat),
    indents (d + 1) bs.marks = bs.depths d
  | .empty, _ => rfl
  | .branch body more, d => by
    rw [Branches.marks, indents, Mark.indents_append, Mark.next, Nat.add_sub_cancel,
      body.depthAfter_marks, body.indents_marks, more.indents_marks, Branches.depths]
    rfl

end

mutual

theorem Block.le_of_mem_depths : ∀ (b : Block) {d n : Nat}, n ∈ b.depths d → d ≤ n
  | .empty, d, n, h => by simp [Block.depths] at h
  | .statement next, d, n, h => by
    rcases List.mem_cons.1 h with rfl | h
    · omega
    · exact next.le_of_mem_depths h
  | .conditional body branches next, d, n, h => by
    simp only [Block.depths, List.mem_cons, List.mem_append] at h
    rcases h with rfl | h | h | rfl | h
    · omega
    · have := body.le_of_mem_depths h
      omega
    · exact branches.le_of_mem_depths h
    · omega
    · exact next.le_of_mem_depths h

theorem Branches.le_of_mem_depths : ∀ (bs : Branches) {d n : Nat}, n ∈ bs.depths d → d ≤ n
  | .empty, d, n, h => by simp [Branches.depths] at h
  | .branch body more, d, n, h => by
    simp only [Branches.depths, List.mem_cons, List.mem_append] at h
    rcases h with rfl | h | h
    · omega
    · have := body.le_of_mem_depths h
      omega
    · exact more.le_of_mem_depths h

end

/-! ## The conditionals around a statement -/

theorem Block.length_depths (b : Block) (d : Nat) : (b.depths d).length = b.size := by
  rw [← b.indents_marks d, Block.size]
  exact Mark.length_indents b.marks d

theorem Branches.length_depths (bs : Branches) (d : Nat) : (bs.depths d).length = bs.size := by
  rw [← bs.indents_marks d, Branches.size]
  exact Mark.length_indents bs.marks (d + 1)

theorem Block.range_of_mem_depths {b : Block} {d i n k : Nat} (h : (n, k) ∈ (b.depths d).zipIdx i) :
    i ≤ k ∧ k < i + b.size := by
  obtain ⟨hlow, hhigh, -⟩ := List.mem_zipIdx h
  rw [b.length_depths] at hhigh
  exact ⟨hlow, hhigh⟩

theorem Branches.range_of_mem_depths {bs : Branches} {d i n k : Nat}
    (h : (n, k) ∈ (bs.depths d).zipIdx i) : i ≤ k ∧ k < i + bs.size := by
  obtain ⟨hlow, hhigh, -⟩ := List.mem_zipIdx h
  rw [bs.length_depths] at hhigh
  exact ⟨hlow, hhigh⟩

/-- A conditional lies between two numbers of statements. -/
def Conditional.Within (i j : Nat) (c : Conditional) : Prop := i ≤ c.opening ∧ c.closing < j

theorem Conditional.Within.mono {c : Conditional} {i j i' j' : Nat} (h : c.Within i j)
    (hi : i' ≤ i) (hj : j ≤ j') : c.Within i' j' := ⟨by have := h.1; omega, by have := h.2; omega⟩

theorem Block.size_conditional (body : Block) (branches : Branches) (next : Block) :
    (Block.conditional body branches next).size
      = 1 + body.size + branches.size + 1 + next.size := by
  simp only [Block.size, Block.marks, Branches.size, List.length_cons, List.length_append]
  omega

theorem Branches.size_branch (body : Block) (more : Branches) :
    (Branches.branch body more).size = 1 + body.size + more.size := by
  simp only [Branches.size, Branches.marks, Block.size, List.length_cons, List.length_append]
  omega

mutual

theorem Block.within : ∀ (b : Block) (i : Nat), ∀ c ∈ b.conditionals i, c.Within i (i + b.size)
  | .empty, i, c, h => by simp [Block.conditionals] at h
  | .statement next, i, c, h => by
    have hsize : (Block.statement next).size = next.size + 1 := rfl
    exact (next.within (i + 1) c h).mono (by omega) (by omega)
  | .conditional body branches next, i, c, h => by
    rw [Block.size_conditional]
    simp only [Block.conditionals, List.mem_cons, List.mem_append] at h
    rcases h with rfl | h | h | h
    · exact ⟨Nat.le_refl i, by simp only; omega⟩
    · exact (body.within _ c h).mono (by omega) (by omega)
    · exact (branches.within _ c h).mono (by omega) (by omega)
    · exact (next.within _ c h).mono (by omega) (by omega)

theorem Branches.within : ∀ (bs : Branches) (i : Nat), ∀ c ∈ bs.conditionals i,
    c.Within i (i + bs.size)
  | .empty, i, c, h => by simp [Branches.conditionals] at h
  | .branch body more, i, c, h => by
    rw [Branches.size_branch]
    simp only [Branches.conditionals, List.mem_append] at h
    rcases h with h | h
    · exact (body.within _ c h).mono (by omega) (by omega)
    · exact (more.within _ c h).mono (by omega) (by omega)

end

/-- The conditionals of a list that a statement lies strictly inside of. -/
def around (cs : List Conditional) (k : Nat) : Nat := cs.countP (·.encloses k)

theorem around_append (cs cs' : List Conditional) (k : Nat) :
    around (cs ++ cs') k = around cs k + around cs' k := List.countP_append

theorem around_eq_zero {cs : List Conditional} {i j k : Nat} (h : ∀ c ∈ cs, c.Within i j)
    (hk : k < i ∨ j ≤ k) : around cs k = 0 := by
  rw [around, List.countP_eq_zero]
  rintro ⟨opening, alternatives, closing⟩ hc hencloses
  obtain ⟨hi, hj⟩ := h _ hc
  rw [Conditional.encloses_iff] at hencloses
  simp only at hi hj
  omega

theorem Branches.le_of_mem_alternatives : ∀ (bs : Branches) {i k : Nat}, k ∈ bs.alternatives i →
    i ≤ k ∧ k < i + bs.size
  | .empty, i, k, h => by simp [Branches.alternatives] at h
  | .branch body more, i, k, h => by
    rw [Branches.size_branch]
    rcases List.mem_cons.1 h with rfl | h
    · omega
    · have := more.le_of_mem_alternatives h
      omega

mutual

/-- A statement of a block that lies inside `d` conditionals lies inside those and inside the ones
of the block around it. -/
theorem Block.depths_eq_around : ∀ (b : Block) (d i : Nat) {n k : Nat},
    (n, k) ∈ (b.depths d).zipIdx i → n = d + around (b.conditionals i) k
  | .empty, d, i, n, k, h => by simp [Block.depths] at h
  | .statement next, d, i, n, k, h => by
    rw [Block.depths, List.zipIdx_cons, List.mem_cons, Prod.mk.injEq] at h
    rcases h with ⟨rfl, rfl⟩ | h
    · rw [Block.conditionals, around_eq_zero (next.within (k + 1)) (by omega), Nat.add_zero]
    · exact next.depths_eq_around d (i + 1) h
  | .conditional body branches next, d, i, n, k, h => by
    have hbody := body.within (i + 1)
    have hbranches := branches.within (i + 1 + body.size)
    have hnext := next.within (i + 1 + body.size + branches.size + 1)
    rw [Block.depths, List.zipIdx_cons, List.zipIdx_append, List.zipIdx_append, List.zipIdx_cons,
      body.length_depths, branches.length_depths] at h
    simp only [List.mem_cons, List.mem_append, Prod.mk.injEq] at h
    rw [Block.conditionals, around, List.countP_cons, ← around, around_append, around_append]
    rcases h with ⟨rfl, rfl⟩ | h | h | ⟨rfl, rfl⟩ | h
    · rw [around_eq_zero hbody (by omega), around_eq_zero hbranches (by omega),
        around_eq_zero hnext (by omega)]
      simp [Conditional.encloses_iff]
    · have hn := body.depths_eq_around (d + 1) (i + 1) h
      obtain ⟨hlow, hhigh⟩ := body.range_of_mem_depths h
      have hnot : k ∉ branches.alternatives (i + 1 + body.size) := fun hmem => by
        have := branches.le_of_mem_alternatives hmem
        omega
      rw [if_pos (Conditional.encloses_iff.2 ⟨by omega, by omega, hnot⟩),
        around_eq_zero hbranches (by omega), around_eq_zero hnext (by omega)]
      omega
    · have hn := branches.depths_eq_around d (i + 1 + body.size) h
      obtain ⟨hlow, hhigh⟩ := branches.range_of_mem_depths h
      rw [around_eq_zero hbody (by omega), around_eq_zero hnext (by omega)]
      by_cases hmem : k ∈ branches.alternatives (i + 1 + body.size)
      · rw [if_neg (by simp [Conditional.encloses_iff, hmem])]
        rw [if_pos hmem] at hn
        omega
      · rw [if_pos (Conditional.encloses_iff.2 ⟨by omega, by omega, hmem⟩)]
        rw [if_neg hmem] at hn
        omega
    · rw [around_eq_zero hbody (by omega), around_eq_zero hbranches (by omega),
        around_eq_zero hnext (by omega), if_neg (by simp [Conditional.encloses_iff])]
      rfl
    · have hn := next.depths_eq_around d _ h
      obtain ⟨hlow, hhigh⟩ := next.range_of_mem_depths h
      rw [around_eq_zero hbody (by omega), around_eq_zero hbranches (by omega),
        if_neg (by rw [Conditional.encloses_iff]; omega)]
      omega

/-- A statement of a branch lies inside the conditional of the branches, an `else` does not. -/
theorem Branches.depths_eq_around : ∀ (bs : Branches) (d i : Nat) {n k : Nat},
    (n, k) ∈ (bs.depths d).zipIdx i →
      n = d + (if k ∈ bs.alternatives i then 0 else 1) + around (bs.conditionals i) k
  | .empty, d, i, n, k, h => by simp [Branches.depths] at h
  | .branch body more, d, i, n, k, h => by
    have hbody := body.within (i + 1)
    have hmore := more.within (i + 1 + body.size)
    rw [Branches.depths, List.zipIdx_cons, List.zipIdx_append, body.length_depths] at h
    simp only [List.mem_cons, List.mem_append, Prod.mk.injEq] at h
    rw [Branches.conditionals, around_append, Branches.alternatives]
    simp only [List.mem_cons]
    rcases h with ⟨rfl, rfl⟩ | h | h
    · rw [around_eq_zero hbody (by omega), around_eq_zero hmore (by omega), if_pos (Or.inl rfl)]
      rfl
    · have hn := body.depths_eq_around (d + 1) (i + 1) h
      obtain ⟨hlow, hhigh⟩ := body.range_of_mem_depths h
      have hnot : ¬ (k = i ∨ k ∈ more.alternatives (i + 1 + body.size)) := by
        rintro (rfl | hmem)
        · omega
        · have := more.le_of_mem_alternatives hmem
          omega
      rw [if_neg hnot, around_eq_zero hmore (by omega)]
      omega
    · have hn := more.depths_eq_around d (i + 1 + body.size) h
      obtain ⟨hlow, hhigh⟩ := more.range_of_mem_depths h
      have hi : ¬ k = i := by omega
      rw [around_eq_zero hbody (by omega)]
      simp only [hi, false_or]
      omega

end

/-! ## The marks of one conditional -/

/-- The marks of a block that lies inside `d` conditionals, with the nesting of each. -/
def Block.lines (d : Nat) (b : Block) : List (Mark × Nat) := b.marks.zip (b.depths d)

def Branches.lines (d : Nat) (bs : Branches) : List (Mark × Nat) := bs.marks.zip (bs.depths d)

theorem Block.length_lines (b : Block) (d : Nat) : (b.lines d).length = b.size := by
  rw [Block.lines, List.length_zip, b.length_depths, ← Block.size, Nat.min_self]

theorem Branches.length_lines (bs : Branches) (d : Nat) : (bs.lines d).length = bs.size := by
  rw [Branches.lines, List.length_zip, bs.length_depths, ← Branches.size, Nat.min_self]

theorem Block.zipIdx_lines_conditional (body : Block) (branches : Branches) (next : Block)
    (d i : Nat) :
    ((Block.conditional body branches next).lines d).zipIdx i
      = ((.opening, d), i) :: ((body.lines (d + 1)).zipIdx (i + 1)
          ++ ((branches.lines d).zipIdx (i + 1 + body.size)
            ++ ((.closing, d), i + 1 + body.size + branches.size)
              :: (next.lines d).zipIdx (i + 1 + body.size + branches.size + 1))) := by
  have hbody : body.marks.length = (body.depths (d + 1)).length := (body.length_depths _).symm
  have hbranches : branches.marks.length = (branches.depths d).length :=
    (branches.length_depths _).symm
  rw [Block.lines, Block.marks, Block.depths, List.zip_cons_cons, List.zip_append hbody,
    List.zip_append hbranches, List.zip_cons_cons, ← Block.lines, ← Branches.lines, ← Block.lines,
    List.zipIdx_cons, List.zipIdx_append, List.zipIdx_append, List.zipIdx_cons, body.length_lines,
    branches.length_lines]

theorem Branches.zipIdx_lines_branch (body : Block) (more : Branches) (d i : Nat) :
    ((Branches.branch body more).lines d).zipIdx i
      = ((.alternative, d), i) :: ((body.lines (d + 1)).zipIdx (i + 1)
          ++ (more.lines d).zipIdx (i + 1 + body.size)) := by
  have hbody : body.marks.length = (body.depths (d + 1)).length := (body.length_depths _).symm
  rw [Branches.lines, Branches.marks, Branches.depths, List.zip_cons_cons, List.zip_append hbody,
    ← Block.lines, ← Branches.lines, List.zipIdx_cons, List.zipIdx_append, body.length_lines]

/-- The `if`, the `else`s and the `endif` of a conditional stand among numbered lines, all with the
same nesting. -/
structure Conditional.Aligned (c : Conditional) (n : Nat) (lines : List ((Mark × Nat) × Nat)) :
    Prop where
  opening : ((.opening, n), c.opening) ∈ lines
  alternatives : ∀ k ∈ c.alternatives, ((.alternative, n), k) ∈ lines
  closing : ((.closing, n), c.closing) ∈ lines

theorem Conditional.Aligned.mono {c : Conditional} {n : Nat}
    {lines lines' : List ((Mark × Nat) × Nat)} (h : c.Aligned n lines) (hsub : lines ⊆ lines') :
    c.Aligned n lines' :=
  ⟨hsub h.opening, fun k hk => hsub (h.alternatives k hk), hsub h.closing⟩

theorem Branches.mem_lines_of_mem_alternatives : ∀ (bs : Branches) {d i k : Nat},
    k ∈ bs.alternatives i → ((.alternative, d), k) ∈ (bs.lines d).zipIdx i
  | .empty, d, i, k, h => by simp [Branches.alternatives] at h
  | .branch body more, d, i, k, h => by
    rw [Branches.zipIdx_lines_branch]
    rcases List.mem_cons.1 h with rfl | h
    · exact List.mem_cons_self
    · have hmem := more.mem_lines_of_mem_alternatives (d := d) h
      simp [hmem]

mutual

theorem Block.exists_aligned : ∀ (b : Block) (d i : Nat), ∀ c ∈ b.conditionals i,
    ∃ n, c.Aligned n ((b.lines d).zipIdx i)
  | .empty, d, i, c, h => by simp [Block.conditionals] at h
  | .statement next, d, i, c, h => by
    obtain ⟨n, haligned⟩ := next.exists_aligned d (i + 1) c h
    exact ⟨n, haligned.mono (List.subset_cons_self _ _)⟩
  | .conditional body branches next, d, i, c, h => by
    rw [Block.zipIdx_lines_conditional]
    simp only [Block.conditionals, List.mem_cons, List.mem_append] at h
    rcases h with rfl | h | h | h
    · refine ⟨d, by simp, fun k hk => ?_, by simp⟩
      have hmem := branches.mem_lines_of_mem_alternatives (d := d) hk
      simp [hmem]
    · obtain ⟨n, haligned⟩ := body.exists_aligned (d + 1) _ c h
      exact ⟨n, haligned.mono fun x hx => by simp [hx]⟩
    · obtain ⟨n, haligned⟩ := branches.exists_aligned d _ c h
      exact ⟨n, haligned.mono fun x hx => by simp [hx]⟩
    · obtain ⟨n, haligned⟩ := next.exists_aligned d _ c h
      exact ⟨n, haligned.mono fun x hx => by simp [hx]⟩

theorem Branches.exists_aligned : ∀ (bs : Branches) (d i : Nat), ∀ c ∈ bs.conditionals i,
    ∃ n, c.Aligned n ((bs.lines d).zipIdx i)
  | .empty, d, i, c, h => by simp [Branches.conditionals] at h
  | .branch body more, d, i, c, h => by
    rw [Branches.zipIdx_lines_branch]
    simp only [Branches.conditionals, List.mem_append] at h
    rcases h with h | h
    · obtain ⟨n, haligned⟩ := body.exists_aligned (d + 1) _ c h
      exact ⟨n, haligned.mono fun x hx => by simp [hx]⟩
    · obtain ⟨n, haligned⟩ := more.exists_aligned d _ c h
      exact ⟨n, haligned.mono fun x hx => by simp [hx]⟩

end

/-! ## The listing of a block -/

namespace Listing

variable {reading : Reading} {unit : CompiledUnit} {b : Block}

/-- The statement with the given number has a mark, and its line an indent. -/
def StandsAt (reading : Reading) (unit : CompiledUnit) (m : Mark) (n k : Nat) : Prop :=
  unit.statements[k]?.map reading.mark = some m
    ∧ (ofUnit reading unit).value.lines[k]?.map ListedLine.indent = some n

theorem indents_lines (h : unit.statements.map reading.mark = b.marks) :
    (ofUnit reading unit).value.lines.map ListedLine.indent = b.depths 0 := by
  rw [value_ofUnit, (indents_linesFrom reading unit.statements {}).1, h]
  exact b.indents_marks 0

theorem standsAt_of_mem_lines (h : unit.statements.map reading.mark = b.marks) {m : Mark}
    {n k : Nat} (hmem : ((m, n), k) ∈ (b.lines 0).zipIdx 0) : StandsAt reading unit m n k := by
  rw [List.mk_mem_zipIdx_iff_getElem?, Block.lines, List.getElem?_zip_eq_some] at hmem
  rw [StandsAt, ← List.getElem?_map, ← List.getElem?_map, h, indents_lines h]
  exact hmem

end Listing

open Listing

/-- The lines of a unit whose statements form a block are set in by the number of conditionals
around them; the `if`, every `else` and the `endif` of a conditional have the same indent, and the
counter ends at 0. From any indent a block returns to it and never steps below it. -/
theorem indent_eq_nesting (reading : Reading) (b : Block) :
    (∀ unit : CompiledUnit, unit.statements.map reading.mark = b.marks →
      (∀ k line, (ofUnit reading unit).value.lines[k]? = some line →
          line.indent = (b.conditionals 0).countP (·.encloses k))
        ∧ (∀ c ∈ b.conditionals 0, ∃ n, StandsAt reading unit .opening n c.opening
          ∧ (∀ k ∈ c.alternatives, StandsAt reading unit .alternative n k)
          ∧ StandsAt reading unit .closing n c.closing)
        ∧ (reached reading unit).indent = 0)
      ∧ ∀ (p : Progress) (segments : List (List UInt8)), segments.map reading.mark = b.marks →
        (linesFrom reading p segments).value.2.indent = p.indent
          ∧ ∀ line ∈ (linesFrom reading p segments).value.1, p.indent ≤ line.indent := by
  have hrun : ∀ (p : Progress) (segments : List (List UInt8)),
      segments.map reading.mark = b.marks →
        (linesFrom reading p segments).value.1.map ListedLine.indent = b.depths p.indent
          ∧ (linesFrom reading p segments).value.2.indent = p.indent := by
    intro p segments h
    obtain ⟨hlines, hlast⟩ := indents_linesFrom reading segments p
    rw [hlines, hlast, h]
    exact ⟨b.indents_marks p.indent, b.depthAfter_marks p.indent⟩
  refine ⟨fun unit h => ⟨fun k line hline => ?_, fun c hc => ?_, (hrun {} _ h).2⟩,
    fun p segments h => ⟨(hrun p segments h).2, fun line hline => ?_⟩⟩
  · have hindent : (b.depths 0)[k]? = some line.indent := by
      rw [← indents_lines h, List.getElem?_map, hline]
      rfl
    have hn := b.depths_eq_around 0 0 (List.mk_mem_zipIdx_iff_getElem?.2 hindent)
    rw [hn, Nat.zero_add]
    rfl
  · obtain ⟨n, haligned⟩ := b.exists_aligned 0 0 c hc
    exact ⟨n, standsAt_of_mem_lines h haligned.opening,
      fun k hk => standsAt_of_mem_lines h (haligned.alternatives k hk),
      standsAt_of_mem_lines h haligned.closing⟩
  · refine b.le_of_mem_depths (d := p.indent) ?_
    rw [← (hrun p segments h).1]
    exact List.mem_map_of_mem hline

/-- The marks of a conditional by their ids in the built-in table. -/
def Reading.conditionals : Reading where
  tables := {
    functions := {
      keywordThreshold := 162
      names := ⟨fun id =>
        if id = 165 then some "if" else if id = 166 then some "else"
        else if id = 167 then some "endif" else none⟩ }
    strings := none }

/-- The statements `if`, `x`, `else`, `if`, `endif`, `endif`. -/
def CompiledUnit.nested : CompiledUnit :=
  ⟨0, 0, [0x80, 0xa5, 0, 0x78, 0, 0x80, 0xa6, 0, 0x80, 0xa5, 0, 0x80, 0xa7, 0, 0x80, 0xa7]⟩

def Block.nested : Block :=
  .conditional (.statement .empty) (.branch (.conditional .empty .empty .empty) .empty) .empty

theorem indent_eq_nesting_nested :
    CompiledUnit.nested.statements.map Reading.conditionals.mark = Block.nested.marks
      ∧ Block.nested.conditionals 0 = [⟨0, [2], 5⟩, ⟨3, [], 4⟩]
      ∧ (∀ line, (ofUnit .conditionals .nested).value.lines[3]? = some line → line.indent = 1)
      ∧ (∃ n, StandsAt .conditionals .nested .opening n 0
        ∧ StandsAt .conditionals .nested .alternative n 2
        ∧ StandsAt .conditionals .nested .closing n 5)
      ∧ (linesFrom .conditionals { indent := 7 } CompiledUnit.nested.statements).value.2.indent = 7
      ∧ ∀ line ∈ (linesFrom .conditionals { indent := 7 } CompiledUnit.nested.statements).value.1,
          7 ≤ line.indent := by
  have hmarks : CompiledUnit.nested.statements.map Reading.conditionals.mark
      = Block.nested.marks := by decide +kernel
  have hconditionals : Block.nested.conditionals 0 = [⟨0, [2], 5⟩, ⟨3, [], 4⟩] := by decide
  obtain ⟨hunit, hblock⟩ := indent_eq_nesting .conditionals .nested
  obtain ⟨hindent, haligned, -⟩ := hunit .nested hmarks
  obtain ⟨hlast, hle⟩ := hblock { indent := 7 } _ hmarks
  obtain ⟨n, hopening, halternatives, hclosing⟩ := haligned ⟨0, [2], 5⟩ (by simp [hconditionals])
  refine ⟨hmarks, hconditionals, fun line hline => ?_,
    ⟨n, hopening, halternatives 2 (by simp), hclosing⟩, hlast, hle⟩
  rw [hindent 3 line hline, hconditionals]
  rfl

end MissionScript
