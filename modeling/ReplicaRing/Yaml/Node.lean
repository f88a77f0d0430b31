import ReplicaRing.OrderedMap
import ReplicaRing.Yaml.Token

/-!
# Nodes of a YAML document

* `Node` — scalars, sequences, mappings and references to anchored nodes;
* `Anchors` — the names of anchors and the nodes that they stand for;
* `Reading` — the tokens still to read, with the anchors and tag handles known so far;
* `readNode` — the node that starts with the next token.

Every reader below takes a bound on the number of nested calls; each call takes a token or goes
down to a reader that does, so a bound proportional to the number of tokens is never reached.
-/

namespace ReplicaRing.Yaml

/-- A node of a document. -/
inductive Node where
  | scalar (style : Style) (tag : Option (List UInt8)) (text : String)
  | sequence (items : List Node)
  | mapping (entries : List (Node × Node))
  /-- A reference to the node that holds a slot at the end of the document. -/
  | alias (slot : Nat)
  deriving Repr, Inhabited

/-! ### Anchors -/

/-- The anchors of a document. A name takes the slot whose number is the count of names before it;
a name that is taken again adds none to that count, so that the next new name shares its slot. A
slot is held by the anchored node that has started last. -/
structure Anchors where
  /-- The slots of the names. -/
  slots : OrderedMap String Nat := .empty
  /-- The anchored node, by its number, that holds a slot, the latest first. -/
  holders : List (Nat × Nat) := []
  /-- The anchored nodes that have been read to their end, by their numbers. -/
  nodes : List (Nat × Node) := []
  /-- The number of anchored nodes that have started. -/
  count : Nat := 0
  deriving Repr

namespace Anchors

/-- Bind a name to the anchored node that starts now. -/
def bind (a : Anchors) (name : String) : Anchors :=
  let slot := a.slots.size
  { a with
    slots := a.slots.insert name slot
    holders := (slot, a.count) :: a.holders
    count := a.count + 1 }

/-- Record an anchored node that has been read. -/
def record (a : Anchors) (number : Nat) (n : Node) : Anchors :=
  { a with nodes := (number, n) :: a.nodes }

/-- The node that holds a slot. -/
def node? (a : Anchors) (slot : Nat) : Option Node := do
  a.nodes.lookup (← a.holders.lookup slot)

end Anchors

/-- What the tag handles of a document stand for. -/
abbrev Handles := List (String × List UInt8)

/-- The state of reading nodes. -/
structure Reading where
  tokens : List Token
  handles : Handles := []
  anchors : Anchors := {}

namespace Reading

/-- The state behind the next token. -/
def skip (r : Reading) : Reading := { r with tokens := r.tokens.tail }

/-- Bind the name of an anchor, if there is one, to the node that starts now. -/
def bind (r : Reading) (name : Option String) : Reading :=
  match name with
  | some name => { r with anchors := r.anchors.bind name }
  | none => r

/-- Record an anchored node that has been read. -/
def record (r : Reading) (number : Option Nat) (n : Node) : Reading :=
  match number with
  | some k => { r with anchors := r.anchors.record k n }
  | none => r

end Reading

/-! ### Tags -/

/-- The bytes of a tag: its handle is replaced by what it stands for. -/
def resolveTag (handles : Handles) (t : Tag) : Option (List UInt8) :=
  if t.handle.isEmpty then some t.suffix
  else (handles.lookup t.handle).map (· ++ t.suffix)

/-! ### Nodes -/

/-- The scalar of an omitted node. -/
def Node.omitted : Node := .scalar .plain none ""

/-- The anchor and the tag in front of a node. -/
structure Properties where
  anchor : Option String := none
  tag : Option Tag := none

/-- Read an anchor and a tag in either order, at most one of each. -/
def readProperties (tokens : List Token) : Properties × List Token :=
  match tokens with
  | .anchor a :: .tag t :: rest => (⟨some a, some t⟩, rest)
  | .anchor a :: rest => (⟨some a, none⟩, rest)
  | .tag t :: .anchor a :: rest => (⟨some a, some t⟩, rest)
  | .tag t :: rest => (⟨none, some t⟩, rest)
  | rest => ({}, rest)

/-- The tokens before which a block sequence entry is omitted. -/
def endsBlockEntry : Option Token → Bool
  | some .blockEntry | some .blockEnd => true
  | _ => false

/-- The tokens before which an entry of a sequence that is not indented is omitted. -/
def endsBareEntry : Option Token → Bool
  | some .blockEntry | some .key | some .value | some .blockEnd => true
  | _ => false

/-- The tokens before which a key or a value of a block mapping is omitted. -/
def endsBlockPair : Option Token → Bool
  | some .key | some .value | some .blockEnd => true
  | _ => false

/-- The tokens before which a key inside of braces is omitted. -/
def endsFlowKey : Option Token → Bool
  | some .value | some .flowEntry | some .flowMappingEnd => true
  | _ => false

/-- The tokens before which a value inside of braces is omitted. -/
def endsFlowValue : Option Token → Bool
  | some .flowEntry | some .flowMappingEnd => true
  | _ => false

/-- The tokens before which the key of a single pair inside of brackets is omitted. -/
def endsPairKey : Option Token → Bool
  | some .value | some .flowEntry | some .flowSequenceEnd => true
  | _ => false

/-- The tokens before which the value of a single pair inside of brackets is omitted. -/
def endsPairValue : Option Token → Bool
  | some .flowEntry | some .flowSequenceEnd => true
  | _ => false

mutual

/-- Read a node. Block collections are admitted if `block` is set, and a sequence at the
indentation of its mapping if `bare` is. -/
def readNode (block bare : Bool) : Nat → Reading → Option (Node × Reading)
  | 0, _ => none
  | fuel + 1, r =>
    match r.tokens with
    | .alias name :: _ => do
      let slot ← r.anchors.slots.find? name
      return (.alias slot, r.skip)
    | _ => do
      let (p, tokens) := readProperties r.tokens
      let tag ← match p.tag with
        | some t => (resolveTag r.handles t).map some
        | none => some none
      let number := p.anchor.map fun _ => r.anchors.count
      let r := { r with tokens := tokens }.bind p.anchor
      let (n, r) ← readContent block bare tag p.anchor.isSome fuel r
      return (n, r.record number n)

/-- Read a node behind its properties. A node with properties may be omitted. -/
def readContent (block bare : Bool) (tag : Option (List UInt8)) (anchored : Bool) :
    Nat → Reading → Option (Node × Reading)
  | 0, _ => none
  | fuel + 1, r =>
    match r.tokens with
    | .scalar style text :: _ => some (.scalar style tag text, r.skip)
    | .flowSequenceStart :: _ => do
      let (items, r) ← readFlowItems true fuel r.skip
      return (.sequence items, r)
    | .flowMappingStart :: _ => do
      let (entries, r) ← readFlowPairs true fuel r.skip
      return (.mapping entries, r)
    | .blockSequenceStart :: _ =>
      if block then do
        let (items, r) ← readBlockItems fuel r.skip
        return (.sequence items, r)
      else omittedContent tag anchored r
    | .blockMappingStart :: _ =>
      if block then do
        let (entries, r) ← readBlockPairs fuel r.skip
        return (.mapping entries, r)
      else omittedContent tag anchored r
    | .blockEntry :: _ =>
      if bare then do
        let (items, r) ← readBareItems fuel r
        return (.sequence items, r)
      else omittedContent tag anchored r
    | _ => omittedContent tag anchored r

/-- A node that has properties but no content. -/
def omittedContent (tag : Option (List UInt8)) (anchored : Bool) (r : Reading) :
    Option (Node × Reading) :=
  if tag.isSome || anchored then some (.scalar .plain tag "", r) else none

/-- Read the entries of a block sequence up to its end. -/
def readBlockItems : Nat → Reading → Option (List Node × Reading)
  | 0, _ => none
  | fuel + 1, r =>
    match r.tokens with
    | .blockEntry :: rest => do
      let r := r.skip
      let (n, r) ← if endsBlockEntry rest.head? then some (Node.omitted, r)
        else readNode true false fuel r
      let (items, r) ← readBlockItems fuel r
      return (n :: items, r)
    | .blockEnd :: _ => some ([], r.skip)
    | _ => none

/-- Read the entries of a sequence at the indentation of its mapping. -/
def readBareItems : Nat → Reading → Option (List Node × Reading)
  | 0, _ => none
  | fuel + 1, r =>
    match r.tokens with
    | .blockEntry :: rest => do
      let r := r.skip
      let (n, r) ← if endsBareEntry rest.head? then some (Node.omitted, r)
        else readNode true false fuel r
      let (items, r) ← readBareItems fuel r
      return (n :: items, r)
    | _ => some ([], r)

/-- Read the pairs of a block mapping up to its end. -/
def readBlockPairs : Nat → Reading → Option (List (Node × Node) × Reading)
  | 0, _ => none
  | fuel + 1, r =>
    match r.tokens with
    | .key :: rest => do
      let r := r.skip
      let (k, r) ← if endsBlockPair rest.head? then some (Node.omitted, r)
        else readNode true true fuel r
      let (v, r) ← readBlockValue fuel r
      let (entries, r) ← readBlockPairs fuel r
      return ((k, v) :: entries, r)
    | .blockEnd :: _ => some ([], r.skip)
    | _ => none

/-- Read the value of a pair of a block mapping. -/
def readBlockValue : Nat → Reading → Option (Node × Reading)
  | 0, _ => none
  | fuel + 1, r =>
    match r.tokens with
    | .value :: rest =>
      if endsBlockPair rest.head? then some (Node.omitted, r.skip)
      else readNode true true fuel r.skip
    | _ => some (Node.omitted, r)

/-- Read the entries of a sequence in brackets up to the closing one. -/
def readFlowItems (first : Bool) : Nat → Reading → Option (List Node × Reading)
  | 0, _ => none
  | fuel + 1, r =>
    match first, r.tokens with
    | _, .flowSequenceEnd :: _ => some ([], r.skip)
    | false, .flowEntry :: .flowSequenceEnd :: _ => some ([], r.skip.skip)
    | false, .flowEntry :: _ => readFlowItem fuel r.skip
    | false, _ => none
    | true, _ => readFlowItem fuel r

/-- Read an entry of a sequence in brackets and those behind it. A key here is a mapping of a
single pair. -/
def readFlowItem : Nat → Reading → Option (List Node × Reading)
  | 0, _ => none
  | fuel + 1, r =>
    match r.tokens with
    | .key :: rest => do
      let r := r.skip
      let (k, r) ← if endsPairKey rest.head? then some (Node.omitted, r.skip)
        else readNode false false fuel r
      let (v, r) ← match r.tokens with
        | .value :: rest =>
          if endsPairValue rest.head? then some (Node.omitted, r.skip)
          else readNode false false fuel r.skip
        | _ => some (Node.omitted, r)
      let (items, r) ← readFlowItems false fuel r
      return (.mapping [(k, v)] :: items, r)
    | _ => do
      let (n, r) ← readNode false false fuel r
      let (items, r) ← readFlowItems false fuel r
      return (n :: items, r)

/-- Read the pairs of a mapping in braces up to the closing one. -/
def readFlowPairs (first : Bool) : Nat → Reading → Option (List (Node × Node) × Reading)
  | 0, _ => none
  | fuel + 1, r =>
    match first, r.tokens with
    | _, .flowMappingEnd :: _ => some ([], r.skip)
    | false, .flowEntry :: .flowMappingEnd :: _ => some ([], r.skip.skip)
    | false, .flowEntry :: _ => readFlowPair fuel r.skip
    | false, _ => none
    | true, _ => readFlowPair fuel r

/-- Read a pair of a mapping in braces and those behind it. A node without a key token is a key
without a value. -/
def readFlowPair : Nat → Reading → Option (List (Node × Node) × Reading)
  | 0, _ => none
  | fuel + 1, r =>
    match r.tokens with
    | .key :: rest => do
      let r := r.skip
      let (k, r) ← if endsFlowKey rest.head? then some (Node.omitted, r)
        else readNode false false fuel r
      let (v, r) ← match r.tokens with
        | .value :: rest =>
          if endsFlowValue rest.head? then some (Node.omitted, r.skip)
          else readNode false false fuel r.skip
        | _ => some (Node.omitted, r)
      let (entries, r) ← readFlowPairs false fuel r
      return ((k, v) :: entries, r)
    | _ => do
      let (k, r) ← readNode false false fuel r
      let (entries, r) ← readFlowPairs false fuel r
      return ((k, Node.omitted) :: entries, r)

end

end ReplicaRing.Yaml
