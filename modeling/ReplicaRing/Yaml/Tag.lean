import ReplicaRing.Yaml.Scalar

/-!
# Tags, anchors and directives of a YAML stream

* `readAnchor` — the name of an anchor or of an alias;
* `beforeZero` — the bytes of a tag that count;
* `Tag`, `readTag` — the handle and the suffix of a tag;
* `Directive`, `readDirective` — a version or a tag directive with the rest of its line.
-/

namespace ReplicaRing.Yaml

/-- The characters at the start of a text that pass a test, and the rest. -/
def takeChars (p : Char → Bool) (cs : List Char) : List Char × List Char :=
  (cs.takeWhile p, cs.dropWhile p)

/-- Whether the end of the text, a gap or one of the given characters comes next. -/
def aheadIn (ends : List Char) : List Char → Bool
  | [] => true
  | c :: _ => isGap c || ends.contains c

/-- Read the name behind an anchor or alias sign. -/
def readAnchor (m : Mark) (cs : List Char) : Option Lexeme :=
  let (name, rest) := takeChars isWord cs
  if name.isEmpty || !aheadIn ['?', ':', ',', ']', '}', '%', '@', '\x60'] rest then none
  else some ⟨String.ofList name, m.forward name.length, rest⟩

/-! ### Tags -/

/-- The bytes of a text. -/
def utf8Bytes (text : String) : List UInt8 := text.toUTF8.toList

/-- The bytes before the first zero byte. A tag or a part of one ends there, whatever its escapes
denote behind it. -/
def beforeZero (bytes : List UInt8) : List UInt8 := bytes.takeWhile (· != 0)

/-- A tag as written. Its suffix is a sequence of bytes, which need not be text. The empty handle
marks a tag whose suffix is the whole of it. -/
structure Tag where
  handle : String
  suffix : List UInt8
  deriving DecidableEq, Repr

/-- The characters of a tag's suffix; commas and square brackets only between angle brackets. -/
def isUriChar (verbatim : Bool) (c : Char) : Bool :=
  isWord c || [';', '/', '?', ':', '@', '&', '=', '+', '$', '.', '%', '!', '~', '*', '\'', '(',
    ')'].contains c || (verbatim && (c == ',' || c == '[' || c == ']'))

/-- How many bytes the character takes that starts with a byte. -/
def leadWidth? (b : UInt8) : Option Nat :=
  if b < 0x80 then some 1
  else if b &&& 0xE0 == 0xC0 then some 2
  else if b &&& 0xF0 == 0xE0 then some 3
  else if b &&& 0xF8 == 0xF0 then some 4
  else none

/-- The number of escaped bytes still to come in the current character, checked byte by byte. -/
def escapeProgress? (due : Nat) (b : UInt8) : Option Nat :=
  match due with
  | 0 => (leadWidth? b).map (· - 1)
  | due + 1 => if b &&& 0xC0 == 0x80 then some due else none

/-- Decode the characters of a suffix: `due` escaped bytes must follow at once. -/
def decodeUri : (due : Nat) → List Char → Option (List UInt8)
  | due, '%' :: a :: b :: rest => do
    let byte := UInt8.ofNat (16 * (← hexValue? a) + (← hexValue? b))
    let tail ← decodeUri (← escapeProgress? due byte) rest
    return byte :: tail
  | 0, [] => some []
  | _, '%' :: _ => none
  | 0, c :: rest => do
    let tail ← decodeUri 0 rest
    return utf8Bytes (String.singleton c) ++ tail
  | _, _ => none

/-- The bytes of a suffix with what is left of the text behind it. -/
structure UriLexeme where
  bytes : List UInt8
  mark : Mark
  rest : List Char
  deriving Repr

/-- Read the suffix of a tag; `given` says whether characters of it have been read already. -/
def readUri (verbatim given : Bool) (m : Mark) (cs : List Char) : Option UriLexeme := do
  let (raw, rest) := takeChars (isUriChar verbatim) cs
  if raw.isEmpty && !given then none
  else return ⟨beforeZero (← decodeUri 0 raw), m.forward raw.length, rest⟩

/-- Read a handle: an exclamation mark, word characters, and perhaps a second mark. -/
def readHandle (m : Mark) : List Char → Option Lexeme
  | '!' :: cs =>
    let (name, rest) := takeChars isWord cs
    match rest with
    | '!' :: rest =>
      some ⟨String.ofList ('!' :: name ++ ['!']), m.forward (name.length + 2), rest⟩
    | _ => some ⟨String.ofList ('!' :: name), m.forward (name.length + 1), rest⟩
  | _ => none

/-- Whether a handle is closed by a second exclamation mark. -/
def isClosedHandle (handle : String) : Bool :=
  2 ≤ handle.length && handle.endsWith "!"

/-- A tag with what is left of the text behind it. -/
structure TagLexeme where
  tag : Tag
  mark : Mark
  rest : List Char
  deriving Repr

/-- Read the tag that starts here, without a look at what follows it. -/
def readTagText (m : Mark) (cs : List Char) : Option TagLexeme :=
  match cs with
  | '!' :: '<' :: cs => do
    let uri ← readUri true false (m.forward 2) cs
    match uri.rest with
    | '>' :: rest => return ⟨⟨"", uri.bytes⟩, uri.mark.forward 1, rest⟩
    | _ => none
  | _ => do
    let handle ← readHandle m cs
    if isClosedHandle handle.text then
      let uri ← readUri false false handle.mark handle.rest
      return ⟨⟨handle.text, uri.bytes⟩, uri.mark, uri.rest⟩
    else
      let uri ← readUri false true handle.mark handle.rest
      let suffix := utf8Bytes (String.ofList (handle.text.toList.drop 1)) ++ uri.bytes
      if suffix.isEmpty then return ⟨⟨"", utf8Bytes "!"⟩, uri.mark, uri.rest⟩
      else return ⟨⟨"!", suffix⟩, uri.mark, uri.rest⟩

/-- Read a tag, which ends before a gap or, inside of brackets, before a comma. -/
def readTag (flow : Bool) (m : Mark) (cs : List Char) : Option TagLexeme := do
  let t ← readTagText m cs
  if gapAhead t.rest || (flow && t.rest.head? == some ',') then return t else none

/-! ### Directives -/

/-- A directive at the head of a document. -/
inductive Directive where
  | version (major minor : Nat)
  | tag (handle : String) (start : List UInt8)
  deriving DecidableEq, Repr

/-- A number of at most nine digits. -/
def readVersionPart (cs : List Char) : Option (Nat × List Char) :=
  let (digits, rest) := takeChars Char.isDigit cs
  if digits.isEmpty || 9 < digits.length then none
  else some (Nat.ofDigitChars 10 digits 0, rest)

/-- The value of a version directive. -/
def readVersion (cs : List Char) : Option (Directive × List Char) := do
  let (major, cs) ← readVersionPart (cs.dropWhile isBlank)
  match cs with
  | '.' :: cs => do
    let (minor, cs) ← readVersionPart cs
    return (.version major minor, cs)
  | _ => none

/-- The value of a tag directive: a handle and, behind blanks, the start of the tags it stands
for. -/
def readTagDirective (cs : List Char) : Option (Directive × List Char) := do
  let handle ← readHandle {} (cs.dropWhile isBlank)
  if !isClosedHandle handle.text && handle.text != "!" then none
  else
    match handle.rest with
    | c :: rest =>
      if isBlank c then
        let uri ← readUri true false {} (rest.dropWhile isBlank)
        if gapAhead uri.rest then return (.tag handle.text uri.bytes, uri.rest) else none
      else none
    | [] => none

/-- Read the directive behind a percent sign at the start of a line, and the rest of the line. -/
def readDirective (m : Mark) (cs : List Char) : Option (Directive × Mark × List Char) := do
  let (name, rest) := takeChars isWord cs
  if name.isEmpty || !gapAhead rest then none
  else
    let (directive, rest) ←
      if String.ofList name == "YAML" then readVersion rest
      else if String.ofList name == "TAG" then readTagDirective rest
      else none
    let (m, rest) ← endOfLine false (m.forward (cs.length - rest.length)) rest
    return (directive, m, rest)

end ReplicaRing.Yaml
