import ReplicaRing.NodeId
import ReplicaRing.OrderedMap

/-!
# The clockwise walk

The nodes responsible for a position are the first ones met on a walk around the circle that
starts just after it. A node that sits exactly on the position is therefore met last.

* `OrderedMap.clockwise` — the first `n` entries of the walk.
-/

namespace ReplicaRing.OrderedMap

variable {α : Type}

/-- All entries in the order of a walk that starts strictly after `position`. -/
def rotation (members : OrderedMap NodeId α) (position : UInt64) : List (NodeId × α) :=
  members.entries.filter (fun e => position < e.1.position) ++
    members.entries.filter (fun e => ¬ position < e.1.position)

/-- The first `n` entries met after `position`; fewer if there are fewer. -/
def clockwise (members : OrderedMap NodeId α) (position : UInt64) (n : Nat) :
    List (NodeId × α) :=
  (members.rotation position).take n

end ReplicaRing.OrderedMap
