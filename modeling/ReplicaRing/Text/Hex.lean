/-!
# Hexadecimal numerals

* `Hex.padded` — a number on a fixed count of lower-case digits;
* `Hex.plain` — a number on as few digits as it needs;
* `Hex.value` — the number that a string of digits denotes.
-/

namespace ReplicaRing.Hex

/-- The lower-case digit of a number below sixteen. -/
def digit (n : Nat) : Char :=
  if n < 10 then Char.ofNat (48 + n) else Char.ofNat (87 + n)

/-- The lowest `width` digits of a number, most significant first. -/
def padded : Nat → Nat → List Char
  | 0, _ => []
  | width + 1, n => padded width (n / 16) ++ [digit (n % 16)]

/-- A number on as few digits as it needs; zero has one. -/
def plain (n : Nat) : List Char := Nat.toDigits 16 n

/-- What a lower-case digit stands for. -/
def digitValue (c : Char) : Nat :=
  if c.toNat < 58 then c.toNat - 48 else c.toNat - 87

/-- The number that a string of lower-case digits denotes. -/
def value (cs : List Char) : Nat := cs.foldl (fun acc c => 16 * acc + digitValue c) 0

end ReplicaRing.Hex
