import MissionScript.Yaml.Token

/-!
# From tokens to a document

A document is a tree of scalars, sequences and mappings. An alias stands for an anchored node by
the node's number; a number counts the different names anchored before, so after an anchor has
been used twice two nodes can share one, and the one that begins later is meant.
-/

namespace MissionScript

namespace Yaml

inductive Node where
  | scalar (anchor : Option Nat) (tag : Option Text) (style : ScalarStyle) (text : Text)
  | sequence (anchor : Option Nat) (items : List Node)
  | mapping (anchor : Option Nat) (entries : List (Node × Node))
  | alias (number : Nat)

namespace Node

/-- A node that is left out. -/
def missing : Node := .scalar none none .plain []

def own (anchor : Option Nat) (n : Node) : List (Nat × Node) := (anchor.map (·, n)).toList

mutual

/-- The anchored nodes in the order in which they begin. -/
def anchored : Node → List (Nat × Node)
  | .scalar a tag style text => own a (.scalar a tag style text)
  | .sequence a items => own a (.sequence a items) ++ anchoredItems items
  | .mapping a entries => own a (.mapping a entries) ++ anchoredEntries entries
  | .alias _ => []

def anchoredItems : List Node → List (Nat × Node)
  | [] => []
  | n :: more => n.anchored ++ anchoredItems more

def anchoredEntries : List (Node × Node) → List (Nat × Node)
  | [] => []
  | (k, v) :: more => k.anchored ++ v.anchored ++ anchoredEntries more

end

/-- The node that a number stands for in a document. -/
def anchored? (root : Node) (number : Nat) : Option Node :=
  (root.anchored.reverse.find? (·.1 == number)).map (·.2)

end Node

/-- The tokens still to be read, with the anchors and tag handles known so far. -/
structure Input where
  tokens : List Token
  anchors : List (Text × Nat) := []
  handles : List (Text × Text) := []

namespace Input

/-- Gives a name the number of names known so far. -/
def anchor (s : Input) : Option Text → Option Nat × Input
  | none => (none, s)
  | some name =>
    let number := s.anchors.length
    (some number, { s with anchors := (name, number) :: s.anchors.filter (·.1 != name) })

def tag? (s : Input) (handle suffix : Text) : Option Text :=
  if handle.isEmpty then some suffix else (s.handles.lookup handle).map (· ++ suffix)

/-- The anchor and the tag in front of a node, in either order. -/
def properties (s : Input) : Option ((Option Text × Option Text) × Input) :=
  match s.tokens with
  | .anchor a :: .tag h x :: rest =>
    (s.tag? h x).map fun t => ((some a, some t), { s with tokens := rest })
  | .anchor a :: rest => some ((some a, none), { s with tokens := rest })
  | .tag h x :: .anchor a :: rest =>
    (s.tag? h x).map fun t => ((some a, some t), { s with tokens := rest })
  | .tag h x :: rest => (s.tag? h x).map fun t => ((none, some t), { s with tokens := rest })
  | _ => some ((none, none), s)

def drop (s : Input) : Input := { s with tokens := s.tokens.drop 1 }

/-- Whether one of the given tokens is next. -/
def startsIn (s : Input) (ts : List Token) : Bool := s.tokens.head?.any ts.contains

end Input

namespace Node

mutual

/-- Reads a node. Blocks are allowed outside brackets only, and a sequence without indentation only
as an entry of a mapping. -/
def read (block indentless : Bool) : Nat → Input → Option (Node × Input)
  | 0, _ => none
  | fuel + 1, s =>
    match s.tokens with
    | .alias name :: rest => (s.anchors.lookup name).map (.alias ·, { s with tokens := rest })
    | _ => do
      let ((anchor, tag), s) ← s.properties
      let (number, s) := s.anchor anchor
      match s.tokens with
      | .scalar style text :: _ =>
        some (.scalar number (tag.filter (· != ['!'])) style text, s.drop)
      | .flowSequenceStart :: _ =>
        let (items, s) ← readFlowItems true fuel s.drop
        some (.sequence number items, s)
      | .flowMappingStart :: _ =>
        let (entries, s) ← readFlowEntries true fuel s.drop
        some (.mapping number entries, s)
      | t :: _ =>
        if indentless && t == .blockEntry then
          let (items, s) ← readIndentlessItems fuel s
          some (.sequence number items, s)
        else if block && t == .blockSequenceStart then
          let (items, s) ← readBlockItems fuel s.drop
          some (.sequence number items, s)
        else if block && t == .blockMappingStart then
          let (entries, s) ← readBlockEntries fuel s.drop
          some (.mapping number entries, s)
        else if anchor.isSome || tag.isSome then some (.scalar number tag .plain [], s)
        else none
      | [] => if anchor.isSome || tag.isSome then some (.scalar number tag .plain [], s) else none

/-- Reads a node unless one of the given tokens shows that it is left out. -/
def readUnless (ends : List Token) (block indentless : Bool) :
    Nat → Input → Option (Node × Input)
  | 0, _ => none
  | fuel + 1, s => if s.startsIn ends then some (missing, s) else read block indentless fuel s

def readBlockItems : Nat → Input → Option (List Node × Input)
  | 0, _ => none
  | fuel + 1, s =>
    match s.tokens with
    | .blockEntry :: _ => do
      let (item, s) ← readUnless [.blockEntry, .blockEnd] true false fuel s.drop
      let (items, s) ← readBlockItems fuel s
      some (item :: items, s)
    | .blockEnd :: _ => some ([], s.drop)
    | _ => none

def readIndentlessItems : Nat → Input → Option (List Node × Input)
  | 0, _ => none
  | fuel + 1, s =>
    match s.tokens with
    | .blockEntry :: _ => do
      let (item, s) ← readUnless [.blockEntry, .key, .value, .blockEnd] true false fuel s.drop
      let (items, s) ← readIndentlessItems fuel s
      some (item :: items, s)
    | _ => some ([], s)

def readBlockEntries : Nat → Input → Option (List (Node × Node) × Input)
  | 0, _ => none
  | fuel + 1, s =>
    match s.tokens with
    | .key :: _ => do
      let (k, s) ← readUnless [.key, .value, .blockEnd] true true fuel s.drop
      let (v, s) ←
        if s.startsIn [.value] then readUnless [.key, .value, .blockEnd] true true fuel s.drop
        else some (missing, s)
      let (entries, s) ← readBlockEntries fuel s
      some ((k, v) :: entries, s)
    | .blockEnd :: _ => some ([], s.drop)
    | _ => none

/-- Reads the items of a sequence in brackets; all but the first need a comma in front. An item may
be a single entry of a mapping. -/
def readFlowItems (first : Bool) : Nat → Input → Option (List Node × Input)
  | 0, _ => none
  | fuel + 1, s =>
    if s.startsIn [.flowSequenceEnd] then some ([], s.drop)
    else if !first && !s.startsIn [.flowEntry] then none
    else
      let s := if first then s else s.drop
      match s.tokens with
      | .flowSequenceEnd :: _ => some ([], s.drop)
      | .key :: _ => do
        let s := s.drop
        let (k, s) ←
          if s.startsIn [.value, .flowEntry, .flowSequenceEnd] then some (missing, s.drop)
          else read false false fuel s
        let (v, s) ←
          if s.startsIn [.value] then readUnless [.flowEntry, .flowSequenceEnd] false false fuel s.drop
          else some (missing, s)
        let (items, s) ← readFlowItems false fuel s
        some (.mapping none [(k, v)] :: items, s)
      | _ => do
        let (item, s) ← read false false fuel s
        let (items, s) ← readFlowItems false fuel s
        some (item :: items, s)

/-- Reads the entries of a mapping in brackets. A key that no indicator marks has no value. -/
def readFlowEntries (first : Bool) : Nat → Input → Option (List (Node × Node) × Input)
  | 0, _ => none
  | fuel + 1, s =>
    if s.startsIn [.flowMappingEnd] then some ([], s.drop)
    else if !first && !s.startsIn [.flowEntry] then none
    else
      let s := if first then s else s.drop
      match s.tokens with
      | .flowMappingEnd :: _ => some ([], s.drop)
      | .key :: _ => do
        let (k, s) ← readUnless [.value, .flowEntry, .flowMappingEnd] false false fuel s.drop
        let (v, s) ←
          if s.startsIn [.value] then readUnless [.flowEntry, .flowMappingEnd] false false fuel s.drop
          else some (missing, s)
        let (entries, s) ← readFlowEntries false fuel s
        some ((k, v) :: entries, s)
      | _ => do
        let (k, s) ← read false false fuel s
        let (entries, s) ← readFlowEntries false fuel s
        some ((k, missing) :: entries, s)

end

/-- The meanings of the two handles that every document has. -/
def standardHandles : List (Text × Text) :=
  [(['!'], ['!']), (['!', '!'], "tag:yaml.org,2002:".toList)]

/-- The directives in front of a document: at most one version, which must be known, and one meaning
for each handle. -/
def readDirectives (version : Bool) (handles : List (Text × Text)) :
    List Token → Option (List (Text × Text) × List Token)
  | .versionDirective major minor :: rest =>
    if version || major != 1 || !(minor == 1 || minor == 2) then none
    else readDirectives true handles rest
  | .tagDirective handle lead :: rest =>
    if (handles.lookup handle).isSome then none
    else readDirectives version (handles ++ [(handle, lead)]) rest
  | rest => some (handles, rest)

/-- The root of a document that begins here. Each token is passed by at most three nested calls. -/
def readRoot (tokens : List Token) : Option (Node × Input) :=
  let fuel := 3 * tokens.length + 3
  let explicit := tokens.head?.any fun
    | .versionDirective .. | .tagDirective .. | .documentStart => true
    | _ => false
  if explicit then do
    let (handles, rest) ← readDirectives false [] tokens
    match rest with
    | .documentStart :: rest =>
      let s : Input := { tokens := rest, handles := handles ++ standardHandles }
      let absent := rest.head?.all fun
        | .versionDirective .. | .tagDirective .. | .documentStart | .documentEnd => true
        | _ => false
      if absent then some (missing, s) else read true false fuel s
    | _ => none
  else read true false fuel { tokens, handles := standardHandles }

/-- The only document of a token stream. -/
def ofTokens? (tokens : List Token) : Option Node := do
  let (root, s) ← readRoot tokens
  if s.tokens.all (· == .documentEnd) then some root else none

end Node

end Yaml

end MissionScript
