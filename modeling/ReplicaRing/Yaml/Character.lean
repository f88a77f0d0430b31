/-!
# Characters of a YAML stream

* `isPrintable` — the characters that may occur at all;
* `isBreak`, `isBlank`, `isWord` — the classes that the lexical rules speak of;
* `Mark` — a position in the text;
* `skipBlanks` — the way to the next token over blanks, comments and line breaks.
-/

namespace ReplicaRing.Yaml

/-- The characters that a stream may hold. -/
def isPrintable (c : Char) : Bool :=
  let n := c.toNat
  n == 0x9 || n == 0xA || n == 0xD || (0x20 ≤ n && n ≤ 0x7E) || n == 0x85 ||
    (0xA0 ≤ n && n ≤ 0xFFFD) || 0x10000 ≤ n

/-- The characters that end a line. -/
def isBreak (c : Char) : Bool :=
  c == '\n' || c == '\r' || c == '\u0085' || c == '\u2028' || c == '\u2029'

/-- Spaces and tabs. -/
def isBlank (c : Char) : Bool := c == ' ' || c == '\t'

/-- A blank or a line break. -/
def isGap (c : Char) : Bool := isBlank c || isBreak c

/-- The characters of anchors, directive names and tag handles. -/
def isWord (c : Char) : Bool := c.isAlphanum || c == '_' || c == '-'

/-- Whether the text is at its end or goes on with a gap. -/
def gapAhead : List Char → Bool
  | [] => true
  | c :: _ => isGap c

/-- The character that a line break contributes to a scalar. -/
def breakText (c : Char) : Char :=
  if c == '\u2028' || c == '\u2029' then c else '\n'

/-- A position in the text: the bytes before it, its line, and the characters before it on that
line. -/
structure Mark where
  index : Nat := 0
  line : Nat := 0
  column : Nat := 0
  deriving DecidableEq, Repr, Inhabited

/-- The position `n` characters of one byte further on the same line. -/
def Mark.forward (m : Mark) (n : Nat) : Mark := ⟨m.index + n, m.line, m.column + n⟩

/-- The position behind a character of the same line. -/
def Mark.over (m : Mark) (c : Char) : Mark := ⟨m.index + c.utf8Size, m.line, m.column + 1⟩

/-- The position behind a line break of `width` bytes. -/
def Mark.newLine (m : Mark) (width : Nat) : Mark := ⟨m.index + width, m.line + 1, 0⟩

/-- Whether a line at its start is the marker of a document's start or end. -/
def documentMarkerAhead : List Char → Bool
  | '-' :: '-' :: '-' :: rest => gapAhead rest
  | '.' :: '.' :: '.' :: rest => gapAhead rest
  | _ => false

/-- Skip blanks, comments and line breaks. Outside of brackets a new line may start a simple key
(`allowed`), and while one may start, a tab is no blank. A byte order mark is skipped where a line
starts. -/
def skipBlanks (flow : Bool) :
    (allowed comment : Bool) → Mark → List Char → Bool × Mark × List Char
  | allowed, _, m, [] => (allowed, m, [])
  | allowed, _, m, '\r' :: '\n' :: cs => skipBlanks flow (allowed || !flow) false (m.newLine 2) cs
  | allowed, comment, m, c :: cs =>
    if isBreak c then skipBlanks flow (allowed || !flow) false (m.newLine c.utf8Size) cs
    else if comment then skipBlanks flow allowed true (m.over c) cs
    else if c == ' ' || (c == '\t' && (flow || !allowed)) then
      skipBlanks flow allowed false (m.forward 1) cs
    else if c == '#' then skipBlanks flow allowed true (m.forward 1) cs
    else if c == '\uFEFF' && m.column == 0 then skipBlanks flow allowed false (m.over c) cs
    else (allowed, m, c :: cs)

end ReplicaRing.Yaml
