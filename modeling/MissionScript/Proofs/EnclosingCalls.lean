import MissionScript.Usage
import MissionScript.Proofs.Nesting

/-!
# The call around a string reference

A reference belongs to the innermost parenthesis in front of it that stays open and that a function
name stands before (`EnclosingCall`). The walk over a statement keeps one frame for each open
parenthesis, and the frame at place `k` belongs to the one behind which `k` more are open
(`Tracks`). So the first frame with a call is that of the enclosing call, and what a reference
says of its call and its side is what the tokens in front of it say (`located_of_mem_list`,
`exists_mem_list`).
-/

namespace MissionScript

open Token (openParen closeParen StaysOpen depth?)

namespace Reference

/-- The innermost call that is open after the given tokens. -/
structure EnclosingCall (functions : FunctionTable) (front : List Token) where
  outer : List Token
  id : UInt8
  name : String
  inside : List Token
  front_eq : front = outer ++ .name id name :: openParen :: inside
  not_keyword : functions.isKeyword id = false
  staysOpen : StaysOpen inside
  innermost : ∀ mid id name inner, inside = mid ++ .name id name :: openParen :: inner →
    functions.isKeyword id = false → ¬ StaysOpen inner

variable {functions : FunctionTable} {bound : ByteMap Side} {front seen : List Token} {t : Token}
  {frames : List Frame}

/-- The first word of a call, given the word that stands after the tokens read so far. -/
def EnclosingCall.first (call : EnclosingCall functions front) (next : Token) : Token :=
  call.inside.headD next

/-- The frame of a parenthesis between the given tokens. -/
def frameOf (functions : FunctionTable) (bound : ByteMap Side) (outer inside : List Token) :
    Frame where
  call := outer.getLast?.bind (callName? functions)
  side := inside.head?.bind (sideOf bound)
  fresh := inside.isEmpty

/-- The frames are those of the parentheses that stay open, each at the place that counts the
parentheses open behind it. Of the tokens `seen` no parenthesis is counted yet. -/
def Tracks (functions : FunctionTable) (bound : ByteMap Side) (front seen : List Token)
    (frames : List Frame) : Prop :=
  ∀ k f, frames[k]? = some f ↔ ∃ outer inside, front = outer ++ openParen :: inside
    ∧ depth? 0 inside = some k ∧ f = frameOf functions bound outer (inside ++ seen)

theorem tracks_nil : Tracks functions bound [] [] [] := by
  intro k f
  simp

/-- A frame after a word: the first one gives it its side. -/
def Frame.note (bound : ByteMap Side) (t : Token) (f : Frame) : Frame :=
  if f.fresh then { f with side := sideOf bound t, fresh := false } else f

theorem getElem?_noteFirst (k : Nat) (f : Frame) :
    (noteFirst bound t frames)[k]? = some f ↔
      ∃ g, frames[k]? = some g ∧ f = if k = 0 then g.note bound t else g := by
  cases frames with
  | nil => simp [noteFirst]
  | cons g rest =>
    have hnote : noteFirst bound t (g :: rest) = g.note bound t :: rest := rfl
    rw [hnote]
    cases k with
    | zero => simp [eq_comm]
    | succ k => simp

/-- Only the frame of the last parenthesis can still wait for its first word. -/
theorem note_frameOf {outer inside : List Token} {k : Nat} (h : depth? 0 inside = some k) :
    (if k = 0 then (frameOf functions bound outer inside).note bound t
        else frameOf functions bound outer inside)
      = frameOf functions bound outer (inside ++ [t]) := by
  cases inside with
  | nil =>
    obtain rfl : 0 = k := Option.some.inj h
    rfl
  | cons u inside =>
    have hnote : (frameOf functions bound outer (u :: inside)).note bound t
        = frameOf functions bound outer (u :: inside) := rfl
    rw [hnote, ite_self]
    rfl

theorem Tracks.noteFirst (h : Tracks functions bound front [] frames) (t : Token) :
    Tracks functions bound front [t] (noteFirst bound t frames) := by
  intro k f
  rw [getElem?_noteFirst]
  constructor
  · rintro ⟨g, hg, rfl⟩
    obtain ⟨outer, inside, hfront, hdepth, rfl⟩ := (h k g).1 hg
    rw [List.append_nil]
    exact ⟨outer, inside, hfront, hdepth, note_frameOf hdepth⟩
  · rintro ⟨outer, inside, hfront, hdepth, rfl⟩
    refine ⟨frameOf functions bound outer inside, (h k _).2 ?_, (note_frameOf hdepth).symm⟩
    exact ⟨outer, inside, hfront, hdepth, by rw [List.append_nil]⟩

/-- A parenthesis in front of or at the last token. -/
theorem append_singleton_eq {outer inside : List Token} :
    front ++ [t] = outer ++ openParen :: inside ↔
      (t = openParen ∧ front = outer ∧ inside = [])
        ∨ ∃ inside', inside = inside' ++ [t] ∧ front = outer ++ openParen :: inside' := by
  rcases List.eq_nil_or_concat inside with rfl | ⟨inside', u, rfl⟩
  · rw [List.append_singleton_inj]
    simp [and_comm]
  · rw [List.concat_eq_append, ← List.cons_append, ← List.append_assoc,
      List.append_singleton_inj]
    constructor
    · rintro ⟨hfront, rfl⟩
      exact Or.inr ⟨inside', rfl, hfront⟩
    · rintro (⟨-, -, h⟩ | ⟨inside'', h, hfront⟩)
      · simp at h
      · obtain ⟨rfl, rfl⟩ := List.append_singleton_inj.1 h
        exact ⟨hfront, rfl⟩

/-- The frames after one more token: a new one for an opening parenthesis, and the others at the
places that the token moves them to. -/
theorem Tracks.append (h : Tracks functions bound front [t] frames) {frames' : List Frame}
    (hstep : ∀ k f, frames'[k]? = some f ↔
      (t = openParen ∧ k = 0 ∧ f = frameOf functions bound front [])
        ∨ ∃ d, depth? d [t] = some k ∧ frames[d]? = some f) :
    Tracks functions bound (front ++ [t]) [] frames' := by
  intro k f
  rw [hstep]
  constructor
  · rintro (⟨rfl, rfl, rfl⟩ | ⟨d, hk, hd⟩)
    · exact ⟨front, [], rfl, rfl, rfl⟩
    · obtain ⟨outer, inside, rfl, hdepth, rfl⟩ := (h d f).1 hd
      refine ⟨outer, inside ++ [t], by simp, ?_, by rw [List.append_nil]⟩
      rw [Token.depth?_append, hdepth, Option.bind_some, hk]
  · rintro ⟨outer, inside, hfront, hdepth, rfl⟩
    rcases append_singleton_eq.1 hfront with ⟨rfl, rfl, rfl⟩ | ⟨inside', rfl, rfl⟩
    · exact Or.inl ⟨rfl, (Option.some.inj hdepth).symm, rfl⟩
    · rw [Token.depth?_append] at hdepth
      obtain ⟨d, hd, hk⟩ := Option.bind_eq_some_iff.1 hdepth
      refine Or.inr ⟨d, hk, (h d _).2 ⟨outer, inside', rfl, hd, by rw [List.append_nil]⟩⟩

theorem Tracks.word (h : Tracks functions bound front [t] frames) (ho : t ≠ openParen)
    (hc : t ≠ closeParen) : Tracks functions bound (front ++ [t]) [] frames := by
  refine h.append fun k f => ?_
  simp [Token.depth?_word ho hc, ho]

theorem Tracks.opened (h : Tracks functions bound front [openParen] frames) :
    Tracks functions bound (front ++ [openParen]) []
      (⟨front.getLast?.bind (callName? functions), none, true⟩ :: frames) := by
  refine h.append fun k f => ?_
  cases k with
  | zero => simp [frameOf, eq_comm]
  | succ k => simp

theorem Tracks.closed (h : Tracks functions bound front [closeParen] frames) :
    Tracks functions bound (front ++ [closeParen]) [] frames.tail := by
  refine h.append fun k f => ?_
  have hne : closeParen ≠ openParen := by decide
  rw [List.getElem?_tail]
  constructor
  · intro hk
    exact Or.inr ⟨k + 1, rfl, hk⟩
  · rintro (⟨h, -⟩ | ⟨d, hd, hf⟩)
    · exact absurd h hne
    · cases d with
      | zero => simp at hd
      | succ d =>
        obtain rfl : d = k := Option.some.inj hd
        exact hf

/-! ## The first frame with a call -/

theorem call_frameOf {outer inside : List Token} {name : String} :
    (frameOf functions bound outer inside).call = some name ↔
      ∃ outer' id, outer = outer' ++ [.name id name] ∧ functions.isKeyword id = false := by
  rcases List.eq_nil_or_concat outer with rfl | ⟨outer', u, rfl⟩
  · simp [frameOf]
  · rw [List.concat_eq_append]
    simp only [frameOf, List.getLast?_append, List.getLast?_singleton, Option.some_or,
      Option.bind_some, List.append_singleton_inj]
    cases u with
    | name id text =>
      simp only [callName?]
      split_ifs with hk <;> simp [hk]
    | _ => simp [callName?]

/-- Two parentheses in front of one place: the one behind which fewer are open is the later. -/
theorem exists_mid_of_lt {outer inside outer' inside' : List Token} {d e : Nat}
    (hfront : outer ++ openParen :: inside = outer' ++ openParen :: inside')
    (hd : depth? 0 inside = some d) (he : depth? 0 inside' = some e) (hlt : e < d) :
    ∃ mid, inside = mid ++ openParen :: inside' ∧ outer' = outer ++ openParen :: mid := by
  rcases List.append_eq_append_iff.1 hfront with ⟨k, rfl, hk⟩ | ⟨k, rfl, hk⟩
  · rcases k with _ | ⟨u, mid⟩
    · obtain ⟨-, rfl⟩ := List.cons.inj hk
      rw [hd, Option.some.injEq] at he
      omega
    · obtain ⟨rfl, rfl⟩ := List.cons.inj hk
      exact ⟨mid, rfl, rfl⟩
  · rcases k with _ | ⟨u, mid⟩
    · obtain ⟨-, rfl⟩ := List.cons.inj hk
      rw [hd, Option.some.injEq] at he
      omega
    · obtain ⟨rfl, rfl⟩ := List.cons.inj hk
      have := Token.lt_of_depth? mid he hd
      omega

/-- A name at the end of what follows a parenthesis stands behind that parenthesis. -/
theorem exists_mid_of_name {outer mid outer' : List Token} {id : UInt8} {name : String}
    (h : outer ++ openParen :: mid = outer' ++ [.name id name]) :
    ∃ mid', mid = mid' ++ [.name id name] := by
  rcases List.eq_nil_or_concat mid with rfl | ⟨mid', u, rfl⟩
  · have hlast := (List.append_singleton_inj.1 h).2
    exact absurd hlast (by simp [openParen])
  · rw [List.concat_eq_append, ← List.cons_append, ← List.append_assoc,
      List.append_singleton_inj] at h
    exact ⟨mid', by rw [List.concat_eq_append, h.2]⟩

/-- The frame of the enclosing call, when the next token has been read. -/
def EnclosingCall.frame (bound : ByteMap Side) (call : EnclosingCall functions front)
    (next : Token) : Frame where
  call := some call.name
  side := sideOf bound (call.first next)
  fresh := false

theorem EnclosingCall.frameOf_eq (call : EnclosingCall functions front) (next : Token) :
    frameOf functions bound (call.outer ++ [.name call.id call.name]) (call.inside ++ [next])
      = call.frame bound next := by
  have hfirst : (call.inside ++ [next]).head? = some (call.first next) := by
    unfold first
    cases call.inside <;> rfl
  simp [frameOf, frame, hfirst, callName?, call.not_keyword]

theorem Tracks.find?_eq_some (h : Tracks functions bound front [t] frames)
    (call : EnclosingCall functions front) :
    frames.find? (·.call.isSome) = some (call.frame bound t) := by
  obtain ⟨d, hd⟩ := Token.staysOpen_iff.1 call.staysOpen
  have hfront : front = (call.outer ++ [.name call.id call.name]) ++ openParen :: call.inside := by
    rw [List.append_assoc]
    exact call.front_eq
  have hframe : frames[d]? = some (call.frame bound t) :=
    (h d _).2 ⟨_, _, hfront, hd, (call.frameOf_eq t).symm⟩
  obtain ⟨hlt, hget⟩ := List.getElem?_eq_some_iff.1 hframe
  refine List.find?_eq_some_iff_getElem.2 ⟨rfl, d, hlt, hget, fun j hj => ?_⟩
  obtain ⟨outer, inside, hfront', hdepth, hf⟩ := (h j _).1 (List.getElem?_eq_getElem (by omega))
  obtain ⟨mid, hmid, rfl⟩ := exists_mid_of_lt (hfront.symm.trans hfront') hd hdepth hj
  rw [hf, Bool.not_eq_true', Option.isSome_eq_false_iff, Option.isNone_iff_eq_none,
    Option.eq_none_iff_forall_ne_some]
  intro name hname
  obtain ⟨outer', id, houter, hkeyword⟩ := call_frameOf.1 hname
  obtain ⟨mid', rfl⟩ := exists_mid_of_name houter
  rw [List.append_assoc] at hmid
  exact call.innermost mid' id name inside hmid hkeyword (Token.staysOpen_iff.2 ⟨j, hdepth⟩)

/-- A call that stays open has a frame. -/
theorem Tracks.exists_frame (h : Tracks functions bound front [t] frames)
    {outer inside : List Token} {id : UInt8} {name : String} {d : Nat}
    (hfront : front = outer ++ .name id name :: openParen :: inside)
    (hkeyword : functions.isKeyword id = false) (hd : depth? 0 inside = some d) :
    ∃ f, frames[d]? = some f ∧ f.call = some name := by
  refine ⟨_, (h d _).2 ⟨outer ++ [.name id name], inside, ?_, hd, rfl⟩, ?_⟩
  · rw [hfront, List.append_assoc]
    rfl
  · exact call_frameOf.2 ⟨outer, id, rfl, hkeyword⟩

theorem Tracks.exists_of_find? (h : Tracks functions bound front [t] frames) {f : Frame}
    (hf : frames.find? (·.call.isSome) = some f) :
    ∃ call : EnclosingCall functions front, f = call.frame bound t := by
  obtain ⟨hsome, d, hlt, hget, hfirst⟩ := List.find?_eq_some_iff_getElem.1 hf
  obtain ⟨outer, inside, hfront, hd, rfl⟩ := (h d f).1 (List.getElem?_eq_some_iff.2 ⟨hlt, hget⟩)
  obtain ⟨name, hname⟩ := Option.isSome_iff_exists.1 hsome
  obtain ⟨outer, id, rfl, hkeyword⟩ := call_frameOf.1 hname
  rw [List.append_assoc] at hfront
  have hinner : ∀ mid id name inner, inside = mid ++ .name id name :: openParen :: inner →
      functions.isKeyword id = false → ¬ StaysOpen inner := by
    rintro mid id' name' inner rfl hkeyword' hopen
    obtain ⟨e, he⟩ := Token.staysOpen_iff.1 hopen
    have hlt' : e < d := Token.lt_of_depth? (mid ++ [.name id' name']) (by simpa using hd) he
    have hfront' : front = (outer ++ .name id name :: openParen :: mid)
        ++ .name id' name' :: openParen :: inner := by
      rw [hfront]
      simp
    obtain ⟨g, hg, hcall⟩ := h.exists_frame hfront' hkeyword' he
    obtain ⟨hlen, hget'⟩ := List.getElem?_eq_some_iff.1 hg
    have hnone := hfirst e hlt'
    rw [hget', hcall] at hnone
    simp at hnone
  have hopen : StaysOpen inside := Token.staysOpen_iff.2 ⟨d, hd⟩
  refine ⟨⟨outer, id, name, inside, hfront, hkeyword, hopen, hinner⟩, ?_⟩
  rw [← EnclosingCall.frameOf_eq]

/-- What the first frame with a call says is what the frame of the enclosing call says. -/
theorem Tracks.find?_bind_eq_some (h : Tracks functions bound front [t] frames) {α : Type}
    (field : Frame → Option α) (x : α) :
    (frames.find? (·.call.isSome)).bind field = some x ↔
      ∃ call : EnclosingCall functions front, field (call.frame bound t) = some x := by
  constructor
  · intro hx
    obtain ⟨f, hf, hfield⟩ := Option.bind_eq_some_iff.1 hx
    obtain ⟨call, rfl⟩ := h.exists_of_find? hf
    exact ⟨call, hfield⟩
  · rintro ⟨call, hfield⟩
    rw [h.find?_eq_some call]
    exact hfield

/-! ## The references of a statement -/

/-- A reference says what the tokens in front of it say: the name of the enclosing call, and the
side that the first word of that call gives. -/
structure Located (functions : FunctionTable) (bound : ByteMap Side) (front : List Token)
    (r : Reference) : Prop where
  context : ∀ name, r.context = some name ↔ ∃ call : EnclosingCall functions front, call.name = name
  side : ∀ side, r.side = some side ↔ ∃ call : EnclosingCall functions front,
    sideOf bound (call.first (.stringRef r.index)) = some side

theorem Tracks.located {index : UInt8}
    (h : Tracks functions bound front [.stringRef index] frames) :
    Located functions bound front
      ⟨index, (frames.find? (·.call.isSome)).bind (·.call),
        (frames.find? (·.call.isSome)).bind (·.side)⟩ := by
  refine ⟨fun name => (h.find?_bind_eq_some _ name).trans ?_, h.find?_bind_eq_some _⟩
  simp only [EnclosingCall.frame, Option.some.injEq]

/-- One more token that is a string reference. -/
theorem listFrom_stringRef (h : Tracks functions bound front [] frames) (index : UInt8)
    (rest : List Token) :
    ∃ r frames', r.index = index ∧ Located functions bound front r
      ∧ Tracks functions bound (front ++ [.stringRef index]) [] frames'
      ∧ listFrom functions bound front.getLast? frames (.stringRef index :: rest)
        = r :: listFrom functions bound (front ++ [Token.stringRef index]).getLast? frames'
          rest := by
  have hnote := h.noteFirst (Token.stringRef index)
  refine ⟨_, _, rfl, hnote.located, hnote.word (by simp [openParen]) (by simp [closeParen]), ?_⟩
  rw [List.getLast?_append]
  rfl

/-- One more token of another kind. -/
theorem listFrom_of_ne (h : Tracks functions bound front [] frames) (ht : ∀ i, t ≠ .stringRef i)
    (rest : List Token) :
    ∃ frames', Tracks functions bound (front ++ [t]) [] frames'
      ∧ listFrom functions bound front.getLast? frames (t :: rest)
        = listFrom functions bound (front ++ [t]).getLast? frames' rest := by
  have hlist : ∀ before, listFrom functions bound before frames (t :: rest)
      = listFrom functions bound (some t)
          (if t = openParen then
            ⟨before.bind (callName? functions), none, true⟩ :: noteFirst bound t frames
          else if t = closeParen then (noteFirst bound t frames).tail
          else noteFirst bound t frames) rest := by
    intro before
    cases t with
    | stringRef i => exact absurd rfl (ht i)
    | _ => rfl
  have hnote := h.noteFirst t
  refine ⟨_, ?_, by rw [hlist, List.getLast?_append]; rfl⟩
  split_ifs with ho hc
  · subst ho
    exact hnote.opened
  · subst hc
    exact hnote.closed
  · exact hnote.word ho hc

theorem located_of_mem_listFrom {r : Reference} : ∀ {rest front : List Token} {frames : List Frame},
    Tracks functions bound front [] frames →
      r ∈ listFrom functions bound front.getLast? frames rest →
        ∃ mid back, rest = mid ++ .stringRef r.index :: back
          ∧ Located functions bound (front ++ mid) r
  | [], front, frames, _, hr => by simp [listFrom] at hr
  | t :: rest, front, frames, h, hr => by
    have hcons : ∀ frames', Tracks functions bound (front ++ [t]) [] frames' →
        r ∈ listFrom functions bound (front ++ [t]).getLast? frames' rest →
          ∃ mid back, t :: rest = mid ++ .stringRef r.index :: back
            ∧ Located functions bound (front ++ mid) r := by
      intro frames' h' hr'
      obtain ⟨mid, back, rfl, hlocated⟩ := located_of_mem_listFrom h' hr'
      exact ⟨t :: mid, back, rfl, by simpa using hlocated⟩
    by_cases ht : ∃ i, t = .stringRef i
    · obtain ⟨i, rfl⟩ := ht
      obtain ⟨r', frames', rfl, hlocated, h', hlist⟩ := listFrom_stringRef h i rest
      rw [hlist] at hr
      rcases List.mem_cons.1 hr with rfl | hr
      · exact ⟨[], rest, rfl, by simpa using hlocated⟩
      · exact hcons frames' h' hr
    · push Not at ht
      obtain ⟨frames', h', hlist⟩ := listFrom_of_ne h ht rest
      rw [hlist] at hr
      exact hcons frames' h' hr

theorem exists_mem_listFrom {index : UInt8} {back : List Token} :
    ∀ {mid front : List Token} {frames : List Frame}, Tracks functions bound front [] frames →
      ∃ r ∈ listFrom functions bound front.getLast? frames (mid ++ .stringRef index :: back),
        r.index = index ∧ Located functions bound (front ++ mid) r
  | [], front, frames, h => by
    obtain ⟨r, frames', hindex, hlocated, -, hlist⟩ := listFrom_stringRef h index back
    rw [List.nil_append, hlist, List.append_nil]
    exact ⟨r, List.mem_cons_self, hindex, hlocated⟩
  | t :: mid, front, frames, h => by
    rw [List.append_cons front t mid]
    by_cases ht : ∃ i, t = .stringRef i
    · obtain ⟨i, rfl⟩ := ht
      obtain ⟨r', frames', -, -, h', hlist⟩ :=
        listFrom_stringRef h i (mid ++ .stringRef index :: back)
      obtain ⟨r, hr, hlocated⟩ := exists_mem_listFrom h'
      rw [List.cons_append, hlist]
      exact ⟨r, List.mem_cons_of_mem r' hr, hlocated⟩
    · push Not at ht
      obtain ⟨frames', h', hlist⟩ := listFrom_of_ne h ht (mid ++ .stringRef index :: back)
      obtain ⟨r, hr, hlocated⟩ := exists_mem_listFrom h'
      rw [List.cons_append, hlist]
      exact ⟨r, hr, hlocated⟩

theorem located_of_mem_list {tokens : List Token} {r : Reference}
    (h : r ∈ list functions bound tokens) :
    ∃ front back, tokens = front ++ .stringRef r.index :: back
      ∧ Located functions bound front r := located_of_mem_listFrom tracks_nil h

theorem exists_mem_list (front back : List Token) (index : UInt8) :
    ∃ r ∈ list functions bound (front ++ .stringRef index :: back),
      r.index = index ∧ Located functions bound front r := exists_mem_listFrom tracks_nil

theorem countP_listFrom (index : UInt8) : ∀ (rest : List Token) {before : Option Token}
    {frames : List Frame},
    (listFrom functions bound before frames rest).countP (·.index == index)
      = rest.count (.stringRef index)
  | [], _, _ => rfl
  | t :: rest, before, frames => by
    cases t with
    | stringRef i =>
      rw [listFrom, List.countP_cons, List.count_cons, countP_listFrom index rest]
      simp
    | _ => exact (countP_listFrom index rest).trans (List.count_cons_of_ne (by simp)).symm

end Reference

end MissionScript
