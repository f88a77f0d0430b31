import ReplicaRing.Text.Hex

/-!
# Node identities

A node is named by its position on a circle of `2 ^ 64` places. The numeric order of positions
is the clockwise order of the circle.

* `NodeId` — the identity, ordered by position;
* `NodeId.display` — sixteen hexadecimal digits, so that texts sort like positions;
* `NodeId.debug` — the text inside printed values.
-/

namespace ReplicaRing

/-- A place on the circle, which is also the name of the node that sits there. -/
structure NodeId where
  position : UInt64
  deriving DecidableEq, Repr, Inhabited

namespace NodeId

instance : LT NodeId := ⟨fun a b => a.position < b.position⟩

instance : LE NodeId := ⟨fun a b => a.position ≤ b.position⟩

instance : DecidableLT NodeId := fun a b => inferInstanceAs (Decidable (a.position < b.position))

instance : DecidableLE NodeId := fun a b => inferInstanceAs (Decidable (a.position ≤ b.position))

theorem lt_def {a b : NodeId} : a < b ↔ a.position.toNat < b.position.toNat :=
  UInt64.lt_iff_toNat_lt

theorem le_def {a b : NodeId} : a ≤ b ↔ a.position.toNat ≤ b.position.toNat :=
  UInt64.le_iff_toNat_le

/-- The lowest place. -/
def lowest : NodeId := ⟨0⟩

/-- The highest place, next to the lowest one on the circle. -/
def highest : NodeId := ⟨0xFFFFFFFFFFFFFFFF⟩

/-- The digits that name a node: always sixteen, lower case. -/
def digits (id : NodeId) : List Char := Hex.padded 16 id.position.toNat

/-- The name of a node in messages. -/
def display (id : NodeId) : String := String.ofList id.digits

/-- The name of a node inside a printed value. -/
def debug (id : NodeId) : String := "NodeId(" ++ id.display ++ ")"

end NodeId

end ReplicaRing
