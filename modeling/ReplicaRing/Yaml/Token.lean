import ReplicaRing.Yaml.Tag

/-!
# Tokens of a YAML stream

Indentation and simple keys are made explicit: the tokens say where a block starts and ends and
which scalar is a key.

* `Token` — the tokens;
* `Scanner` — the text still to read, the tokens so far, the open blocks and the simple keys that
  a colon may still confirm;
* `Scanner.next` — read one token, with the block tokens that it implies;
* `tokens?` — all tokens of a text, none for a malformed one.

A simple key is a key without a question mark. It is known to be one only when its colon is found,
so its key token, and the start of its block, are inserted later at the place kept for it.
-/

namespace ReplicaRing.Yaml

/-- A lexical unit of a stream. -/
inductive Token where
  | directive (d : Directive)
  | documentStart
  | documentEnd
  | blockSequenceStart
  | blockMappingStart
  | blockEnd
  | flowSequenceStart
  | flowSequenceEnd
  | flowMappingStart
  | flowMappingEnd
  | blockEntry
  | flowEntry
  | key
  | value
  | alias (name : String)
  | anchor (name : String)
  | tag (t : Tag)
  | scalar (style : Style) (text : String)
  deriving DecidableEq, Repr

/-- A place where a simple key may have started. -/
structure KeySpot where
  /-- The number of tokens before it. -/
  place : Nat
  mark : Mark
  /-- Whether only a key can stand here. -/
  required : Bool
  deriving Repr

/-- The state of reading tokens. -/
structure Scanner where
  rest : List Char
  mark : Mark := {}
  tokens : Array Token := #[]
  /-- The columns of the open blocks, the innermost first, each one more than its column; zero
  stands for no block. -/
  indent : Nat := 0
  indents : List Nat := []
  /-- One entry for each open bracket, the innermost first: the key spot outside of it. -/
  outerSpots : List (Option KeySpot) := []
  /-- The key spot of the innermost bracket, or of the block if none is open. -/
  spot : Option KeySpot := none
  /-- Whether a simple key may start here. -/
  keyAllowed : Bool := true
  deriving Repr

namespace Scanner

/-- Whether a bracket is open. -/
def inFlow (s : Scanner) : Bool := !s.outerSpots.isEmpty

/-- Append a token. -/
def emit (s : Scanner) (t : Token) : Scanner := { s with tokens := s.tokens.push t }

/-- Move on by `n` characters of the same line. -/
def forward (s : Scanner) (n : Nat) : Scanner :=
  { s with rest := s.rest.drop n, mark := s.mark.forward n }

/-- Set whether a simple key may start here. -/
def allowKey (s : Scanner) (allowed : Bool) : Scanner := { s with keyAllowed := allowed }

/-! ### Blocks and simple keys -/

/-- Close the blocks that are indented deeper than `level` (one more than a column). -/
def closeBlocks (level : Nat) : Nat → List Nat → Array Token → Nat × List Nat × Array Token
  | indent, [], tokens => (indent, [], tokens)
  | indent, outer :: indents, tokens =>
    if level < indent then closeBlocks level outer indents (tokens.push .blockEnd)
    else (indent, outer :: indents, tokens)

/-- Close the blocks that end before a column; brackets keep blocks open. -/
def unrollTo (s : Scanner) (level : Nat) : Scanner :=
  if s.inFlow then s
  else
    let (indent, indents, tokens) := closeBlocks level s.indent s.indents s.tokens
    { s with indent := indent, indents := indents, tokens := tokens }

/-- Open a block at a column that is deeper than the current one, with its token at `place`. -/
def openBlock (s : Scanner) (column place : Nat) (t : Token) : Scanner :=
  if s.inFlow || column + 1 ≤ s.indent then s
  else
    { s with
      indent := column + 1
      indents := s.indent :: s.indents
      tokens := s.tokens.insertIdxIfInBounds place t }

/-- Open a block whose token comes next. -/
def openBlockHere (s : Scanner) (t : Token) : Scanner :=
  s.openBlock s.mark.column s.tokens.size t

/-- Give up the current key spot, an error if a key had to stand there. -/
def dropSpot (s : Scanner) : Option Scanner :=
  match s.spot with
  | some spot => if spot.required then none else some { s with spot := none }
  | none => some s

/-- Note that a simple key may start here. -/
def noteSpot (s : Scanner) : Option Scanner :=
  if s.keyAllowed then do
    let spot : KeySpot :=
      { place := s.tokens.size
        mark := s.mark
        required := !s.inFlow && s.indent == s.mark.column + 1 }
    return { (← s.dropSpot) with spot := some spot }
  else some s

/-- Whether a key spot is too far behind: on an earlier line, or over 1024 bytes away. -/
def KeySpot.isStale (m : Mark) (spot : KeySpot) : Bool :=
  spot.mark.line < m.line || spot.mark.index + 1024 < m.index

/-- A key spot, if it is not too far behind; an error if a key had to stand there. -/
def refresh (m : Mark) : Option KeySpot → Option (Option KeySpot)
  | none => some none
  | some spot =>
    if KeySpot.isStale m spot then (if spot.required then none else some none)
    else some (some spot)

/-- Give up the key spots that are too far behind. -/
def refreshSpots (s : Scanner) : Option Scanner := do
  let spot ← refresh s.mark s.spot
  let outerSpots ← s.outerSpots.mapM (refresh s.mark)
  return { s with spot := spot, outerSpots := outerSpots }

/-! ### Single tokens -/

/-- Close all blocks at the start of a directive, a document marker or the end. -/
def leaveDocument (s : Scanner) : Option Scanner := do
  return (← (s.unrollTo 0).dropSpot).allowKey false

/-- A directive at the start of a line. -/
def directive (s : Scanner) : Option Scanner := do
  let s ← s.leaveDocument
  let (d, mark, rest) ← readDirective (s.mark.forward 1) (s.rest.drop 1)
  return { s with rest := rest, mark := mark }.emit (.directive d)

/-- A document marker. -/
def documentMarker (s : Scanner) (t : Token) : Option Scanner := do
  return ((← s.leaveDocument).forward 3).emit t

/-- An opening bracket. -/
def openFlow (s : Scanner) (t : Token) : Option Scanner := do
  let s ← s.noteSpot
  let s := { s with outerSpots := s.spot :: s.outerSpots, spot := none }
  return ((s.allowKey true).forward 1).emit t

/-- A closing bracket; without an open one it is for the grammar to refuse. -/
def closeFlow (s : Scanner) (t : Token) : Option Scanner := do
  let s ← s.dropSpot
  let s := match s.outerSpots with
    | spot :: outer => { s with outerSpots := outer, spot := spot }
    | [] => s
  return ((s.allowKey false).forward 1).emit t

/-- A comma inside of brackets. -/
def flowEntry (s : Scanner) : Option Scanner := do
  return (((← s.dropSpot).allowKey true).forward 1).emit .flowEntry

/-- The dash of a block sequence. -/
def blockEntry (s : Scanner) : Option Scanner := do
  if !s.inFlow && !s.keyAllowed then none
  else
    let s ← (s.openBlockHere .blockSequenceStart).dropSpot
    return ((s.allowKey true).forward 1).emit .blockEntry

/-- The question mark of a key. -/
def explicitKey (s : Scanner) : Option Scanner := do
  if !s.inFlow && !s.keyAllowed then none
  else
    let s ← (s.openBlockHere .blockMappingStart).dropSpot
    return ((s.allowKey !s.inFlow).forward 1).emit .key

/-- The colon of a value: it confirms the current key spot, or belongs to an explicit key. -/
def colon (s : Scanner) : Option Scanner :=
  match s.spot with
  | some spot =>
    let s := { s with tokens := s.tokens.insertIdxIfInBounds spot.place .key, spot := none }
    let s := s.openBlock spot.mark.column spot.place .blockMappingStart
    some (((s.allowKey false).forward 1).emit .value)
  | none =>
    if !s.inFlow && !s.keyAllowed then none
    else
      let s := s.openBlockHere .blockMappingStart
      some (((s.allowKey !s.inFlow).forward 1).emit .value)

/-- Go on behind a lexeme with its token. -/
def take (s : Scanner) (l : Lexeme) (t : Token) : Scanner :=
  { s with rest := l.rest, mark := l.mark }.emit t

/-- An alias or an anchor. -/
def name (s : Scanner) (t : String → Token) : Option Scanner := do
  let s := (← s.noteSpot).allowKey false
  let l ← readAnchor (s.mark.forward 1) (s.rest.drop 1)
  return s.take l (t l.text)

/-- A tag. -/
def tag (s : Scanner) : Option Scanner := do
  let s := (← s.noteSpot).allowKey false
  let l ← readTag s.inFlow s.mark s.rest
  return { s with rest := l.rest, mark := l.mark }.emit (.tag l.tag)

/-- A literal or folded scalar. -/
def blockScalar (s : Scanner) (literal : Bool) : Option Scanner := do
  let s := (← s.dropSpot).allowKey true
  let l ← readBlock literal s.indent (s.mark.forward 1) (s.rest.drop 1)
  return s.take l (.scalar (if literal then .literal else .folded) l.text)

/-- A quoted scalar. -/
def quotedScalar (s : Scanner) (single : Bool) : Option Scanner := do
  let s := (← s.noteSpot).allowKey false
  let l ← readQuoted single .text [] Gap.none (s.mark.forward 1) (s.rest.drop 1)
  return s.take l (.scalar (if single then .singleQuoted else .doubleQuoted) l.text)

/-- A plain scalar; a line that ends behind it allows a key on the next one. -/
def plainScalar (s : Scanner) : Option Scanner := do
  let s := (← s.noteSpot).allowKey false
  let l ← readPlain s.inFlow s.indent [] Gap.none s.mark s.rest
  return (s.take l.toLexeme (.scalar .plain l.text)).allowKey l.lineEnded

/-! ### The token that comes next -/

/-- The characters that mark the start of something other than a plain scalar. -/
def indicators : List Char :=
  ['-', '?', ':', ',', '[', ']', '{', '}', '#', '&', '*', '!', '|', '>', '\'', '"', '%', '@',
    '\x60']

/-- Whether a plain scalar may start with this text. -/
def plainStarts (flow : Bool) : List Char → Bool
  | [] => false
  | c :: cs =>
    if c == '-' then !(cs.head?.any isBlank)
    else if c == '?' || c == ':' then !flow && !gapAhead cs
    else !isGap c && !indicators.contains c

/-- Read the token that starts with `c`. -/
def token (s : Scanner) (c : Char) (cs : List Char) : Option Scanner :=
  let lineStart := s.mark.column == 0
  if lineStart && c == '%' then s.directive
  else if lineStart && documentMarkerAhead (c :: cs) then
    s.documentMarker (if c == '-' then .documentStart else .documentEnd)
  else if c == '[' then s.openFlow .flowSequenceStart
  else if c == '{' then s.openFlow .flowMappingStart
  else if c == ']' then s.closeFlow .flowSequenceEnd
  else if c == '}' then s.closeFlow .flowMappingEnd
  else if c == ',' then s.flowEntry
  else if c == '-' && gapAhead cs then s.blockEntry
  else if c == '?' && (s.inFlow || gapAhead cs) then s.explicitKey
  else if c == ':' && (s.inFlow || gapAhead cs) then s.colon
  else if c == '*' then s.name .alias
  else if c == '&' then s.name .anchor
  else if c == '!' then s.tag
  else if c == '|' && !s.inFlow then s.blockScalar true
  else if c == '>' && !s.inFlow then s.blockScalar false
  else if c == '\'' then s.quotedScalar true
  else if c == '"' then s.quotedScalar false
  else if plainStarts s.inFlow (c :: cs) then s.plainScalar
  else none

/-- The way to the next token, with the blocks and key spots that end on it. -/
def approach (s : Scanner) : Option Scanner := do
  let (allowed, mark, rest) := skipBlanks s.inFlow s.keyAllowed false s.mark s.rest
  let s ← { s with keyAllowed := allowed, mark := mark, rest := rest }.refreshSpots
  return s.unrollTo (mark.column + 1)

/-- The end of the text closes all blocks. -/
def finish (s : Scanner) : Option Scanner := s.leaveDocument

/-- Read tokens to the end of the text. Every token takes at least one character, so the length
of the text bounds their number. -/
def run : Nat → Scanner → Option Scanner
  | 0, _ => none
  | fuel + 1, s => do
    let s ← s.approach
    match s.rest with
    | [] => s.finish
    | c :: cs => run fuel (← s.token c cs)

end Scanner

/-- All tokens of a text, or none if the text is malformed. -/
def tokens? (text : String) : Option (List Token) :=
  let cs := text.toList
  if cs.all isPrintable then
    (Scanner.run (cs.length + 1) { rest := cs }).map (·.tokens.toList)
  else none

end ReplicaRing.Yaml
