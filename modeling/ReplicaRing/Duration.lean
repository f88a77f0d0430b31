/-!
# Durations

Spans of time in nanoseconds. The text of a span has the largest unit whose integer part is not
zero, with a fraction that ends in no zero.

* `Duration.ofMillis` — a whole count of milliseconds;
* `Duration.render` — the text.
-/

namespace ReplicaRing

/-- A span of time. -/
@[ext]
structure Duration where
  nanos : Nat
  deriving DecidableEq, Repr, Inhabited

namespace Duration

/-- No time at all. -/
def zero : Duration := ⟨0⟩

/-- A whole count of milliseconds. -/
def ofMillis (ms : Nat) : Duration := ⟨ms * 1000000⟩

/-- A whole count of seconds. -/
def ofSeconds (s : Nat) : Duration := ⟨s * 1000000000⟩

/-- A duration as a number of seconds. -/
def seconds (d : Duration) : Float := d.nanos.toFloat / 1000000000.0

/-- The places of `part / 10 ^ places` behind the point, without trailing zeros; nothing for a
whole number. -/
def fraction (places part : Nat) : List Char :=
  let digits := Nat.toDigits 10 part
  let padded := List.replicate (places - digits.length) '0' ++ digits
  match (padded.reverse.dropWhile (· == '0')).reverse with
  | [] => []
  | shown => '.' :: shown

/-- The nanoseconds of a unit that has so many decimal places. -/
def unit (places : Nat) : Nat := Nat.pow 10 places

/-- A count of units with `places` decimal places, with its fraction. -/
def inUnits (d : Duration) (places : Nat) : String :=
  toString (d.nanos / unit places) ++ String.ofList (fraction places (d.nanos % unit places))

/-- The text of a duration, such as `1.5s`, `50ms`, `1.001µs` or `0ns`. -/
def render (d : Duration) : String :=
  if unit 9 ≤ d.nanos then d.inUnits 9 ++ "s"
  else if unit 6 ≤ d.nanos then d.inUnits 6 ++ "ms"
  else if unit 3 ≤ d.nanos then d.inUnits 3 ++ "µs"
  else d.inUnits 0 ++ "ns"

instance : Add Duration := ⟨fun a b => ⟨a.nanos + b.nanos⟩⟩

@[simp] theorem add_nanos (a b : Duration) : (a + b).nanos = a.nanos + b.nanos := rfl

end Duration

end ReplicaRing
