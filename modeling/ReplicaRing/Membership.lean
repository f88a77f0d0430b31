import ReplicaRing.Clockwise
import ReplicaRing.Error

/-!
# Memberships and placements

A membership says which nodes are on a ring. It is a value: a change makes a new one, so one that
was kept earlier never changes.

* `Handle` — one particular node, told apart from others that have or had the same identity;
* `Placement` — the nodes responsible for a key, in the order in which reads ask them;
* `Membership` — the nodes of a ring by identity, with the number of changes so far;
* `Membership.placement` — the nodes responsible for a position;
* `Membership.replicaSet` — the same for a caller, who may ask for more than there is room for.
-/

namespace ReplicaRing

/-- One particular node: its identity, and its slot in the fleet of all nodes that ever existed.
Two nodes of one identity have different slots. -/
structure Handle where
  id : NodeId
  slot : Nat
  deriving DecidableEq, Repr, Inhabited

/-! ### Placements -/

/-- An ordered set of nodes, of which the first one is the primary. -/
structure Placement where
  members : List Handle := []
  deriving DecidableEq, Repr, Inhabited

namespace Placement

/-- Whether a node with that identity is a member. -/
def contains (p : Placement) (id : NodeId) : Bool := p.members.any (·.id == id)

/-- Append a node unless its identity is present. -/
def push (p : Placement) (h : Handle) : Placement :=
  if p.contains h.id then p else ⟨p.members ++ [h]⟩

/-- The nodes of a list in order, each identity once. -/
def ofList (handles : List Handle) : Placement := handles.foldl push {}

/-- The identities of the members, in order. -/
def ids (p : Placement) : List NodeId := p.members.map (·.id)

/-- The member that reads ask first. -/
def primary? (p : Placement) : Option Handle := p.members.head?

/-- The number of members. -/
def size (p : Placement) : Nat := p.members.length

/-- The identities of the members as a text. -/
def display (p : Placement) : String := ", ".intercalate (p.ids.map NodeId.display)

/-- The most members that a list has room for: it takes sixteen bytes for each of them, and fewer
than `2 ^ 63` bytes in all. -/
def capacity : Nat := 576460752303423487

/-- A placement as a printed value. -/
def debug (p : Placement) : String := Quoted.list (p.ids.map NodeId.debug)

end Placement

/-! ### Memberships -/

/-- The nodes of a ring, and how often they have changed. -/
structure Membership where
  nodes : OrderedMap NodeId Handle := .empty
  version : Nat := 0
  deriving DecidableEq, Repr, Inhabited

namespace Membership

/-- The number of nodes. -/
def size (m : Membership) : Nat := m.nodes.size

/-- Whether there is no node. -/
def isEmpty (m : Membership) : Bool := m.nodes.isEmpty

/-- Whether a node with that identity is on the ring. -/
def contains (m : Membership) (id : NodeId) : Bool := m.nodes.contains id

/-- The node with that identity. -/
def find? (m : Membership) (id : NodeId) : Option Handle := m.nodes.find? id

/-- The identities of all nodes, ascending. -/
def ids (m : Membership) : List NodeId := m.nodes.keys

/-- All nodes, ascending by identity. -/
def handles (m : Membership) : List Handle := m.nodes.values

/-- The `n` nodes responsible for a position. A ring never asks for more of them than it has. -/
def placement (m : Membership) (position : UInt64) (n : Nat) : Placement :=
  Placement.ofList ((m.nodes.clockwise position n).map Prod.snd)

/-- The `n` nodes responsible for a position, listed for a caller. There has to be room for that
many of them, however few there are. -/
def replicaSet (m : Membership) (position : UInt64) (n : Nat) : Except Overflow Placement :=
  if n ≤ Placement.capacity then .ok (m.placement position n) else .error .capacity

/-- A membership as a printed value. -/
def debug (m : Membership) : String :=
  s!"Membership \x7b version: {m.version}, ids: {Quoted.list (m.ids.map NodeId.debug)} \x7d"

end Membership

end ReplicaRing
