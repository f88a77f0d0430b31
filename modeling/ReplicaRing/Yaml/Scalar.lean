import ReplicaRing.Yaml.Character

/-!
# Scalars of a YAML stream

The four written forms of a scalar, each read from the rest of the text. Line breaks inside a
scalar are folded: one break becomes a space, further ones are kept.

* `Gap` — the blanks and breaks met since the last visible character;
* `readPlain` — a scalar without quotes;
* `readQuoted` — a scalar in single or double quotes;
* `readBlock` — a literal or folded scalar in indented lines.
-/

namespace ReplicaRing.Yaml

/-- How a scalar was written. -/
inductive Style where
  | plain
  | singleQuoted
  | doubleQuoted
  | literal
  | folded
  deriving DecidableEq, Repr

/-- What is left of the text after a scalar has been read. -/
structure Lexeme where
  text : String
  mark : Mark
  rest : List Char
  deriving Repr

/-- The blanks and breaks since the last visible character of a scalar. -/
inductive Gap where
  /-- Blanks on the same line, latest first. -/
  | blanks (text : List Char)
  /-- A first break, if it counts, and the later breaks, latest first. -/
  | lines (first : Option Char) (later : List Char)
  deriving Repr

namespace Gap

/-- No gap. -/
def none : Gap := .blanks []

/-- Whether a line has ended in the gap. -/
def hasBreak : Gap → Bool
  | blanks _ => false
  | lines _ _ => true

/-- Whether nothing has been met yet. -/
def isEmpty : Gap → Bool
  | blanks text => text.isEmpty
  | lines _ _ => false

/-- Add a blank, which counts only on the line of the last visible character. -/
def addBlank (c : Char) : Gap → Gap
  | blanks text => blanks (c :: text)
  | lines first later => lines first later

/-- Add a line break, which drops the blanks before it. -/
def addBreak (c : Char) : Gap → Gap
  | blanks _ => lines (some c) []
  | lines first later => lines first (c :: later)

/-- What the gap contributes between two visible characters, latest first. -/
def fold : Gap → List Char
  | blanks text => text
  | lines (some '\n') [] => [' ']
  | lines (some '\n') later => later
  | lines (some c) later => later ++ [c]
  | lines Option.none later => later

end Gap

/-! ### Plain scalars -/

/-- The brackets and commas that end a plain scalar inside of brackets. -/
def isFlowIndicator (c : Char) : Bool :=
  c == ',' || c == '[' || c == ']' || c == '{' || c == '}'

/-- Whether a plain scalar ends before this text: at a colon with a gap behind it, and inside of
brackets at a bracket or a comma. -/
def plainEnds (flow : Bool) : List Char → Bool
  | [] => true
  | c :: cs => (c == ':' && gapAhead cs) || (flow && isFlowIndicator c)

/-- Whether the text goes on with a colon that inside of brackets may not stand before an
indicator. -/
def colonMisplaced (flow : Bool) : List Char → Bool
  | ':' :: c :: _ => flow && (isFlowIndicator c || c == '?')
  | _ => false

/-- A plain scalar with the flag whether a line ended behind its last visible character. -/
structure PlainLexeme extends Lexeme where
  lineEnded : Bool
  deriving Repr

/-- A plain scalar has ended. -/
def plainDone (acc : List Char) (gap : Gap) (m : Mark) (rest : List Char) : PlainLexeme :=
  ⟨⟨String.ofList acc.reverse, m, rest⟩, gap.hasBreak⟩

/-- Read a plain scalar whose continuation lines are indented by at least `indent`. `acc` holds
the visible characters so far, latest first. -/
def readPlain (flow : Bool) (indent : Nat) :
    List Char → Gap → Mark → List Char → Option PlainLexeme
  | acc, gap, m, [] => some (plainDone acc gap m [])
  | acc, gap, m, '\r' :: '\n' :: cs =>
    readPlain flow indent acc (gap.addBreak '\n') (m.newLine 2) cs
  | acc, gap, m, c :: cs =>
    if isBreak c then
      readPlain flow indent acc (gap.addBreak (breakText c)) (m.newLine c.utf8Size) cs
    else if isBlank c then
      if gap.hasBreak && m.column < indent && c == '\t' then none
      else readPlain flow indent acc (gap.addBlank c) (m.over c) cs
    else if !gap.isEmpty &&
        ((!flow && m.column < indent) || c == '#' ||
          (m.column == 0 && documentMarkerAhead (c :: cs))) then
      some (plainDone acc gap m (c :: cs))
    else if colonMisplaced flow (c :: cs) then none
    else if plainEnds flow (c :: cs) then some (plainDone acc gap m (c :: cs))
    else readPlain flow indent (c :: (gap.fold ++ acc)) Gap.none (m.over c) cs

/-! ### Quoted scalars -/

/-- The value of a hexadecimal digit. -/
def hexValue? (c : Char) : Option Nat :=
  if '0' ≤ c ∧ c ≤ '9' then some (c.toNat - 48)
  else if 'a' ≤ c ∧ c ≤ 'f' then some (c.toNat - 87)
  else if 'A' ≤ c ∧ c ≤ 'F' then some (c.toNat - 55)
  else none

/-- What a one-letter escape stands for. -/
def escapeValue? : Char → Option Char
  | '0' => some '\x00'
  | 'a' => some '\x07'
  | 'b' => some '\x08'
  | 't' => some '\t'
  | '\t' => some '\t'
  | 'n' => some '\n'
  | 'v' => some '\x0b'
  | 'f' => some '\x0c'
  | 'r' => some '\r'
  | 'e' => some '\x1b'
  | ' ' => some ' '
  | '"' => some '"'
  | '/' => some '/'
  | '\\' => some '\\'
  | 'N' => some '\u0085'
  | '_' => some '\u00a0'
  | 'L' => some '\u2028'
  | 'P' => some '\u2029'
  | _ => none

/-- How many hexadecimal digits follow an escape letter. -/
def escapeWidth? : Char → Option Nat
  | 'x' => some 2
  | 'u' => some 4
  | 'U' => some 8
  | _ => none

/-- Where a reader of a quoted scalar stands. -/
inductive QuoteState where
  | text
  /-- Behind a backslash. -/
  | escape
  /-- Inside a numeric escape with `left` digits to come. -/
  | digits (left value : Nat)
  deriving Repr

/-- Read a quoted scalar from behind its opening quote. -/
def readQuoted (single : Bool) :
    QuoteState → List Char → Gap → Mark → List Char → Option Lexeme
  | _, _, _, _, [] => none
  | .digits left value, acc, _, m, c :: cs => do
    let v := 16 * value + (← hexValue? c)
    match left with
    | 0 => none
    | 1 =>
      if h : v.isValidChar then
        readQuoted single .text (Char.ofNatAux v h :: acc) Gap.none (m.over c) cs
      else none
    | left + 2 => readQuoted single (.digits (left + 1) v) acc Gap.none (m.over c) cs
  | .escape, acc, _, m, '\r' :: '\n' :: cs =>
    readQuoted single .text acc (.lines none []) (m.newLine 2) cs
  | .escape, acc, _, m, c :: cs =>
    if isBreak c then readQuoted single .text acc (.lines none []) (m.newLine c.utf8Size) cs
    else
      match escapeWidth? c with
      | some width => readQuoted single (.digits width 0) acc Gap.none (m.over c) cs
      | none =>
        match escapeValue? c with
        | some v => readQuoted single .text (v :: acc) Gap.none (m.over c) cs
        | none => none
  | .text, acc, gap, m, '\r' :: '\n' :: cs =>
    readQuoted single .text acc (gap.addBreak '\n') (m.newLine 2) cs
  | .text, acc, gap, m, c :: cs =>
    if isBreak c then
      readQuoted single .text acc (gap.addBreak (breakText c)) (m.newLine c.utf8Size) cs
    else if isBlank c then readQuoted single .text acc (gap.addBlank c) (m.over c) cs
    else if m.column == 0 && documentMarkerAhead (c :: cs) then none
    else if !single && c == '\\' then
      readQuoted single .escape (gap.fold ++ acc) Gap.none (m.over c) cs
    else if !single && c == '"' then
      some ⟨String.ofList (gap.fold ++ acc).reverse, m.over c, cs⟩
    else if single && c == '\'' then
      match cs with
      | '\'' :: cs => readQuoted single .text ('\'' :: (gap.fold ++ acc)) Gap.none (m.forward 2) cs
      | _ => some ⟨String.ofList (gap.fold ++ acc).reverse, m.over c, cs⟩
    else readQuoted single .text (c :: (gap.fold ++ acc)) Gap.none (m.over c) cs

/-! ### Block scalars -/

/-- What happens to the line breaks at the end of a block scalar. -/
inductive Chomping where
  | strip
  | clip
  | keep
  deriving DecidableEq, Repr

/-- The first line of a block scalar. -/
structure BlockHeader where
  chomping : Chomping := .clip
  /-- The stated indentation relative to the parent, zero if none is stated. -/
  increment : Nat := 0
  deriving Repr

/-- The chomping that a character stands for. -/
def chomping? : Char → Option Chomping
  | '+' => some .keep
  | '-' => some .strip
  | _ => none

/-- The indicators of a header: a chomping sign and a digit from one to nine in either order. -/
def readHeader : List Char → Option (BlockHeader × Nat × List Char)
  | [] => some ({}, 0, [])
  | c :: cs =>
    match chomping? c with
    | some chomping =>
      match cs with
      | d :: ds =>
        if d == '0' then none
        else if d.isDigit then some (⟨chomping, d.toNat - 48⟩, 2, ds)
        else some (⟨chomping, 0⟩, 1, cs)
      | [] => some (⟨chomping, 0⟩, 1, cs)
    | none =>
      if c == '0' then none
      else if c.isDigit then
        match cs with
        | d :: ds =>
          match chomping? d with
          | some chomping => some (⟨chomping, c.toNat - 48⟩, 2, ds)
          | none => some (⟨.clip, c.toNat - 48⟩, 1, cs)
        | [] => some (⟨.clip, c.toNat - 48⟩, 1, cs)
      else some ({}, 0, c :: cs)

/-- Skip the rest of a line that holds nothing but blanks and a comment, with its break. -/
def endOfLine : (comment : Bool) → Mark → List Char → Option (Mark × List Char)
  | _, m, [] => some (m, [])
  | _, m, '\r' :: '\n' :: cs => some (m.newLine 2, cs)
  | comment, m, c :: cs =>
    if isBreak c then some (m.newLine c.utf8Size, cs)
    else if comment || c == '#' then endOfLine true (m.over c) cs
    else if isBlank c then endOfLine false (m.over c) cs
    else none

/-- A block scalar while it is read. -/
structure BlockState where
  /-- The content so far, latest first. -/
  acc : List Char := []
  /-- The break of the last content line. -/
  leading : Option Char := none
  /-- The breaks of the empty lines after it, latest first. -/
  trailing : List Char := []
  /-- Whether the last content line started with a blank. -/
  leadingBlank : Bool := false
  /-- The indentation of the content, zero while it is not known. -/
  indent : Nat
  /-- The widest indentation of the empty lines so far. -/
  widest : Nat := 0
  deriving Repr

/-- The content with the breaks before a new line whose first character is `c`. -/
def BlockState.joined (literal : Bool) (s : BlockState) (c : Char) : List Char :=
  let folds := !literal && s.leading == some '\n' && !s.leadingBlank && !isBlank c
  let first := if folds then (if s.trailing.isEmpty then [' '] else []) else s.leading.toList
  s.trailing ++ first ++ s.acc

/-- The text of a finished block scalar. -/
def BlockState.text (chomping : Chomping) (s : BlockState) : String :=
  let tail :=
    match chomping with
    | .strip => []
    | .clip => s.leading.toList
    | .keep => s.trailing ++ s.leading.toList
  String.ofList (tail ++ s.acc).reverse

/-- The indentation of the content, detected from the first line that is not empty: at least one
place deeper than the parent. -/
def BlockState.detected (parent : Nat) (s : BlockState) (column : Nat) : Nat :=
  if s.indent = 0 then max (max s.widest column) (max parent 1) else s.indent

/-- Read the lines of a block scalar; `parent` is one more than the indentation around it.
`inLine` tells whether the reader is inside a content line or at the indentation of one. -/
def readLines (literal : Bool) (chomping : Chomping) (parent : Nat) :
    (inLine : Bool) → BlockState → Mark → List Char → Option Lexeme
  | _, s, m, [] => some ⟨s.text chomping, m, []⟩
  | true, s, m, '\r' :: '\n' :: cs =>
    readLines literal chomping parent false { s with leading := some '\n' } (m.newLine 2) cs
  | false, s, m, '\r' :: '\n' :: cs =>
    readLines literal chomping parent false
      { s with trailing := '\n' :: s.trailing, widest := max s.widest m.column } (m.newLine 2) cs
  | true, s, m, c :: cs =>
    if isBreak c then
      readLines literal chomping parent false { s with leading := some (breakText c) }
        (m.newLine c.utf8Size) cs
    else readLines literal chomping parent true { s with acc := c :: s.acc } (m.over c) cs
  | false, s, m, c :: cs =>
    let outside := s.indent = 0 || m.column < s.indent
    if outside && c == ' ' then readLines literal chomping parent false s (m.over c) cs
    else if outside && c == '\t' then none
    else if isBreak c then
      readLines literal chomping parent false
        { s with trailing := breakText c :: s.trailing, widest := max s.widest m.column }
        (m.newLine c.utf8Size) cs
    else
      let indent := s.detected parent m.column
      if m.column = indent then
        readLines literal chomping parent true
          { s with
            acc := c :: s.joined literal c
            leading := none
            trailing := []
            leadingBlank := isBlank c
            indent := indent }
          (m.over c) cs
      else some ⟨s.text chomping, m, c :: cs⟩

/-- Read a block scalar from behind its indicator. -/
def readBlock (literal : Bool) (parent : Nat) (m : Mark) (cs : List Char) : Option Lexeme := do
  let (header, width, cs) ← readHeader cs
  let (m, cs) ← endOfLine false (m.forward width) cs
  let indent := if header.increment = 0 then 0
    else if parent = 0 then header.increment else parent - 1 + header.increment
  readLines literal header.chomping parent false { indent := indent } m cs

end ReplicaRing.Yaml
