import ReplicaRing.NodeId

/-!
# Node identities as JSON numerals

A node identity travels as the bare decimal numeral of its position.

* `NodeId.numeral` — the numeral of an identity;
* `NodeId.ofNumeral?` — the identity of a text: blanks around a digit string that has no
  superfluous leading zero and whose value is below `2 ^ 64`.
-/

namespace ReplicaRing.NodeId

/-- The decimal numeral of a position. -/
def numeral (id : NodeId) : String := toString id.position.toNat

/-- The blanks that may surround a JSON value. -/
def isBlank (c : Char) : Bool := c == ' ' || c == '\t' || c == '\n' || c == '\r'

/-- A text without the blanks at its two ends. -/
def stripBlanks (cs : List Char) : List Char :=
  ((cs.dropWhile isBlank).reverse.dropWhile isBlank).reverse

/-- A non-empty string of decimal digits that starts with zero only if it is `0`. -/
def isNumeral : List Char → Bool
  | [] => false
  | ['0'] => true
  | c :: cs => c != '0' && (c :: cs).all Char.isDigit

/-- The identity that a JSON text denotes; signs, fractions, exponents, quotes and values that
do not fit on the circle denote none. -/
def ofNumeral? (text : String) : Option NodeId :=
  let body := stripBlanks text.toList
  let value := Nat.ofDigitChars 10 body 0
  if isNumeral body && value < UInt64.size then some ⟨UInt64.ofNat value⟩ else none

end ReplicaRing.NodeId
