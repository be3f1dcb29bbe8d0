import CodeAudit.Yaml.Token

namespace CodeAudit.Yaml

inductive Node where
  | scalar (tag : Option String) (text : String) (plain : Bool)
  | sequence (tag : Option String) (items : List Node)
  | mapping (tag : Option String) (entries : List (Node × Node))
  | alias (id : Nat)
deriving Inhabited

def Node.empty : Node := .scalar none "" true

mutual

/-- How many events a node is written with: one for a leaf, two for the ends of a collection. -/
def Node.events : Node → Nat
  | .scalar .. => 1
  | .alias _ => 1
  | .sequence _ items => 2 + Node.eventsOfItems items
  | .mapping _ entries => 2 + Node.eventsOfEntries entries

def Node.eventsOfItems : List Node → Nat
  | [] => 0
  | n :: rest => n.events + Node.eventsOfItems rest

def Node.eventsOfEntries : List (Node × Node) → Nat
  | [] => 0
  | (k, v) :: rest => k.events + v.events + Node.eventsOfEntries rest

end

/-- Anchors met so far. Each anchor name has a number, which is how many names were known before;
a number may come to be used again when a name is redefined, and then stands for the later node. -/
structure Anchors where
  numbers : List (String × Nat) := []
  /-- Which anchored node, counted in document order, a number stands for; latest first. -/
  positions : List (Nat × Nat) := []
  nodes : List (Nat × Node) := []

namespace Anchors

def known (a : Anchors) : Nat := a.numbers.length

def declare (a : Anchors) (name : String) : Nat × Anchors :=
  let number := a.known
  let position := a.positions.length
  (position,
    { a with
      numbers := (name, number) :: a.numbers.filter (·.1 != name)
      positions := (number, position) :: a.positions })

def record (a : Anchors) (position : Nat) (n : Node) : Anchors :=
  { a with nodes := (position, n) :: a.nodes }

def number? (a : Anchors) (name : String) : Option Nat := a.numbers.lookup name

def node? (a : Anchors) (number : Nat) : Option Node := do
  let position ← a.positions.lookup number
  a.nodes.lookup position

end Anchors

abbrev TagHandles := List (String × String)

def defaultHandles : TagHandles := [("!", "!"), ("!!", "tag:yaml.org,2002:")]

/-- The full tag; a handle that was not declared is an error. -/
def resolveTag? (handles : TagHandles) (handle suffix : String) : Option String :=
  if handle.isEmpty then some suffix else (handles.lookup handle).map (· ++ suffix)

/-- Anchor and tag in front of a node, in either order. -/
structure Properties where
  anchor : Option String := none
  tag : Option String := none

def readProperties (handles : TagHandles) : List Token → Option (Properties × List Token)
  | .anchor name :: .tag handle suffix :: rest => do
    return (⟨some name, some (← resolveTag? handles handle suffix)⟩, rest)
  | .anchor name :: rest => some (⟨some name, none⟩, rest)
  | .tag handle suffix :: .anchor name :: rest => do
    return (⟨some name, some (← resolveTag? handles handle suffix)⟩, rest)
  | .tag handle suffix :: rest => do
    return (⟨none, some (← resolveTag? handles handle suffix)⟩, rest)
  | rest => some (⟨none, none⟩, rest)

/-- What reading a part of the document gives: the part, the anchors met, the tokens behind it. -/
abbrev Part (α : Type) := α × Anchors × List Token

/-- Whether the next token is one of those that leave a place in a mapping empty. -/
def atEmptyPlace (stops : List Token) : List Token → Bool
  | [] => true
  | t :: _ => stops.contains t

mutual

/-- A node. `block` allows block collections, `indentless` a sequence whose entries stand at the
column of the key before it. -/
def readNode (handles : TagHandles) :
    Nat → Bool → Bool → Anchors → List Token → Option (Part Node)
  | 0, _, _, _, _ => none
  | steps + 1, block, indentless, anchors, ts =>
    match ts with
    | .alias name :: rest => do
      let id ← anchors.number? name
      return (.alias id, anchors, rest)
    | _ => do
      let (props, ts) ← readProperties handles ts
      let (position, anchors) :=
        match props.anchor with
        | some name =>
          let (p, a) := anchors.declare name
          (some p, a)
        | none => (none, anchors)
      let (node, anchors, rest) ←
        match ts with
        | .blockEntry :: _ =>
          -- A list may stand in the same column as the key that it belongs to.
          if indentless then do
            let (items, anchors, rest) ← readIndentless handles steps anchors ts
            pure (Node.sequence props.tag items, anchors, rest)
          else if props.anchor.isSome || props.tag.isSome then
            pure (Node.scalar props.tag "" true, anchors, ts)
          else none
        | .scalar text plain :: rest =>
          let tag := if props.tag == some "!" then none else props.tag
          pure (Node.scalar tag text plain, anchors, rest)
        | .flowSequenceStart :: rest => do
          let (items, anchors, rest) ← readFlowItems handles steps true anchors rest
          pure (Node.sequence props.tag items, anchors, rest)
        | .flowMappingStart :: rest => do
          let (entries, anchors, rest) ← readFlowEntries handles steps true anchors rest
          pure (Node.mapping props.tag entries, anchors, rest)
        | t :: rest =>
          if block && t == .blockSequenceStart then do
            let (items, anchors, rest) ← readBlockItems handles steps anchors rest
            pure (Node.sequence props.tag items, anchors, rest)
          else if block && t == .blockMappingStart then do
            let (entries, anchors, rest) ← readBlockEntries handles steps anchors rest
            pure (Node.mapping props.tag entries, anchors, rest)
          else if props.anchor.isSome || props.tag.isSome then
            pure (Node.scalar props.tag "" true, anchors, ts)
          else none
        | [] =>
          if props.anchor.isSome || props.tag.isSome then
            pure (Node.scalar props.tag "" true, anchors, ts)
          else none
      let anchors :=
        match position with
        | some p => anchors.record p node
        | none => anchors
      return (node, anchors, rest)

def readBlockItems (handles : TagHandles) : Nat → Anchors → List Token → Option (Part (List Node))
  | 0, _, _ => none
  | steps + 1, anchors, ts =>
    match ts with
    | .blockEntry :: rest => do
      let (item, anchors, rest) ←
        readPlace handles steps false [.blockEntry, .blockEnd] anchors rest
      let (items, anchors, rest) ← readBlockItems handles steps anchors rest
      return (item :: items, anchors, rest)
    | .blockEnd :: rest => some ([], anchors, rest)
    | _ => none

/-- Items behind `-` at the column of their key; the list ends at any other token. -/
def readIndentless (handles : TagHandles) : Nat → Anchors → List Token → Option (Part (List Node))
  | 0, _, _ => none
  | steps + 1, anchors, ts =>
    match ts with
    | .blockEntry :: rest => do
      let (item, anchors, rest) ←
        readPlace handles steps false [.blockEntry, .key, .value, .blockEnd] anchors rest
      let (items, anchors, rest) ← readIndentless handles steps anchors rest
      return (item :: items, anchors, rest)
    | _ => some ([], anchors, ts)

/-- A place in a block collection: empty before one of the `stops`, else a node. -/
def readPlace (handles : TagHandles) :
    Nat → Bool → List Token → Anchors → List Token → Option (Part Node)
  | 0, _, _, _, _ => none
  | steps + 1, indentless, stops, anchors, ts =>
    if atEmptyPlace stops ts then some (Node.empty, anchors, ts)
    else readNode handles steps true indentless anchors ts

def readBlockEntries (handles : TagHandles) :
    Nat → Anchors → List Token → Option (Part (List (Node × Node)))
  | 0, _, _ => none
  | steps + 1, anchors, ts =>
    match ts with
    | .key :: rest => do
      let stops := [Token.key, .value, .blockEnd]
      let (k, anchors, rest) ← readPlace handles steps true stops anchors rest
      let (v, anchors, rest) ←
        match rest with
        | .value :: rest => readPlace handles steps true stops anchors rest
        | _ => some (Node.empty, anchors, rest)
      let (entries, anchors, rest) ← readBlockEntries handles steps anchors rest
      return ((k, v) :: entries, anchors, rest)
    | .blockEnd :: rest => some ([], anchors, rest)
    | _ => none

def readFlowPlace (handles : TagHandles) :
    Nat → List Token → Anchors → List Token → Option (Part Node)
  | 0, _, _, _ => none
  | steps + 1, stops, anchors, ts =>
    if atEmptyPlace stops ts then some (Node.empty, anchors, ts)
    else readNode handles steps false false anchors ts

/-- Items of a flow sequence, up to its bracket. An item that begins with a key is a mapping of one
entry. -/
def readFlowItems (handles : TagHandles) :
    Nat → Bool → Anchors → List Token → Option (Part (List Node))
  | 0, _, _, _ => none
  | steps + 1, first, anchors, ts =>
    match ts with
    | .flowSequenceEnd :: rest => some ([], anchors, rest)
    | _ => do
      let ts ←
        if first then some ts
        else
          match ts with
          | .flowEntry :: rest => some rest
          | _ => none
      match ts with
      | .flowSequenceEnd :: rest => return ([], anchors, rest)
      | .key :: rest =>
        let (k, anchors, rest) ←
          if atEmptyPlace [.value, .flowEntry, .flowSequenceEnd] rest then
            some (Node.empty, anchors, rest.drop 1)
          else readNode handles steps false false anchors rest
        let (v, anchors, rest) ←
          match rest with
          | .value :: rest =>
            readFlowPlace handles steps [.flowEntry, .flowSequenceEnd] anchors rest
          | _ => some (Node.empty, anchors, rest)
        let (items, anchors, rest) ← readFlowItems handles steps false anchors rest
        return (.mapping none [(k, v)] :: items, anchors, rest)
      | _ =>
        let (item, anchors, rest) ← readNode handles steps false false anchors ts
        let (items, anchors, rest) ← readFlowItems handles steps false anchors rest
        return (item :: items, anchors, rest)

/-- Entries of a flow mapping, up to its brace. An entry without a key token has no value. -/
def readFlowEntries (handles : TagHandles) :
    Nat → Bool → Anchors → List Token → Option (Part (List (Node × Node)))
  | 0, _, _, _ => none
  | steps + 1, first, anchors, ts =>
    match ts with
    | .flowMappingEnd :: rest => some ([], anchors, rest)
    | _ => do
      let ts ←
        if first then some ts
        else
          match ts with
          | .flowEntry :: rest => some rest
          | _ => none
      match ts with
      | .flowMappingEnd :: rest => return ([], anchors, rest)
      | .key :: rest =>
        let (k, anchors, rest) ←
          readFlowPlace handles steps [.value, .flowEntry, .flowMappingEnd] anchors rest
        let (v, anchors, rest) ←
          match rest with
          | .value :: rest =>
            readFlowPlace handles steps [.flowEntry, .flowMappingEnd] anchors rest
          | _ => some (Node.empty, anchors, rest)
        let (entries, anchors, rest) ← readFlowEntries handles steps false anchors rest
        return ((k, v) :: entries, anchors, rest)
      | _ =>
        let (k, anchors, rest) ← readNode handles steps false false anchors ts
        let (entries, anchors, rest) ← readFlowEntries handles steps false anchors rest
        return ((k, Node.empty) :: entries, anchors, rest)

end

/-- The directives before a document: a version at most once, each handle at most once. -/
def readDirectives : Bool → TagHandles → List Token → Option (TagHandles × List Token)
  | seen, handles, .versionDirective major minor :: rest =>
    if seen || major != 1 || (minor != 1 && minor != 2) then none
    else readDirectives true handles rest
  | seen, handles, .tagDirective handle lead :: rest =>
    if (handles.lookup handle).isSome then none
    else readDirectives seen (handles ++ [(handle, lead)]) rest
  | _, handles, ts => some (handles, ts)

/-- A document: its root, absent when the stream is empty, and its anchors. -/
structure Document where
  root : Option Node
  anchors : Anchors := {}

/-- The root of the first document and the tokens behind it. -/
def readRoot (ts : List Token) : Option (Part (Option Node)) :=
  let steps := 4 * ts.length + 8
  let explicit : Option (Part (Option Node)) := do
    let (declared, rest) ← readDirectives false [] ts
    let handles := declared ++ defaultHandles
    match rest with
    | .documentStart :: rest =>
      let stop :=
        match rest with
        | [] | .versionDirective .. :: _ | .tagDirective .. :: _ | .documentStart :: _
        | .documentEnd :: _ => true
        | _ => false
      if stop then return (some Node.empty, {}, rest)
      else
        let (n, anchors, rest) ← readNode handles steps true false {} rest
        return (some n, anchors, rest)
    | _ => none
  match ts with
  | [] => some (none, {}, [])
  | .versionDirective .. :: _ | .tagDirective .. :: _ | .documentStart :: _ => explicit
  | _ => do
    let (n, anchors, rest) ← readNode defaultHandles steps true false {} ts
    return (some n, anchors, rest)

def document? (text : String) : Option Document := do
  let ts ← tokens? text
  let (root, anchors, rest) ← readRoot ts
  if (rest.dropWhile (· == .documentEnd)).isEmpty then return { root, anchors } else none

end CodeAudit.Yaml
