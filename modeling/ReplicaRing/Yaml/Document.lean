import ReplicaRing.Yaml.Node

/-!
# YAML documents

* `Document` — the root of a document with the nodes that its references point to;
* `Stream.ofText?` — the document of a text that holds at most one.
-/

namespace ReplicaRing.Yaml

/-- A document. -/
structure Document where
  root : Node
  anchors : Anchors := {}
  deriving Repr

/-- A node itself, or the node that it refers to. An anchored node is never a reference. -/
def Document.resolve (d : Document) : Node → Node
  | .alias slot => (d.anchors.node? slot).getD (.alias slot)
  | n => n

/-- What a well-formed text with at most one document holds. -/
inductive Stream where
  | empty
  | single (d : Document)
  deriving Repr

/-- The directives at the head of a document. -/
structure Head where
  version : Option (Nat × Nat) := none
  handles : Handles := []

/-- The handles that every document knows. -/
def standardHandles : Handles :=
  [("!", utf8Bytes "!"), ("!!", utf8Bytes "tag:yaml.org,2002:")]

/-- Add a directive: there is one version, which has to be known, and one meaning of a handle. -/
def Head.add? (h : Head) : Directive → Option Head
  | .version major minor =>
    if h.version.isNone && major == 1 && (minor == 1 || minor == 2) then
      some { h with version := some (major, minor) }
    else none
  | .tag handle start =>
    if (h.handles.lookup handle).isSome then none
    else some { h with handles := (handle, start) :: h.handles }

/-- Read the directives in front of a document. -/
def readHead (h : Head) : List Token → Option (Head × List Token)
  | .directive d :: rest => do readHead (← h.add? d) rest
  | rest => some (h, rest)

/-- Whether a document that has just been started has no content. -/
def endsDocument : Option Token → Bool
  | none | some (.directive _) | some .documentStart | some .documentEnd => true
  | _ => false

/-- Read a document behind its directives and its start marker, if it has one. -/
def readDocument (h : Head) (tokens : List Token) : Option (Document × List Token) := do
  let r : Reading := { tokens := tokens, handles := h.handles ++ standardHandles }
  let (n, r) ← readNode true false (4 * tokens.length + 8) r
  return (⟨n, r.anchors⟩, r.tokens)

/-- Read the first document of a stream. -/
def readFirst (tokens : List Token) : Option (Document × List Token) :=
  match tokens with
  | .directive _ :: _ | .documentStart :: _ => do
    let (h, rest) ← readHead {} tokens
    match rest with
    | .documentStart :: rest =>
      if endsDocument rest.head? then return (⟨Node.omitted, {}⟩, rest)
      else readDocument h rest
    | _ => none
  | _ => readDocument {} tokens

/-- The document of a text; a malformed text or a second document has none. -/
def Stream.ofText? (text : String) : Option Stream := do
  match ← tokens? text with
  | [] => return .empty
  | tokens => do
    let (d, rest) ← readFirst tokens
    if rest.all (· == .documentEnd) then return .single d else none

end ReplicaRing.Yaml
