import ReplicaRing.Fleet

/-!
# Wipes

A wipe clears the nodes of a ring one after the other. Every node is attempted.

* `Wipe` — a wipe under way, which waits for the first of the nodes ahead;
* `Wipe.answered` — the answer of that node;
* `Wipe.settle` — the outcome: the first failure, if there was one.
-/

namespace ReplicaRing

/-- A wipe under way. The first node ahead has been asked. -/
structure Wipe where
  ahead : List Handle
  firstError : Option NodeError := none
  deriving DecidableEq, Repr

namespace Wipe

/-- A wipe of the nodes of a membership, in the order of their identities. -/
def start (m : Membership) : Wipe := { ahead := m.handles }

/-- Whether all nodes have answered. -/
def isDone (w : Wipe) : Bool := w.ahead.isEmpty

/-- The node asked has answered. -/
def answered (w : Wipe) (node : Handle) : Except NodeError Unit → Wipe × List LogEvent
  | .ok () => ({ w with ahead := w.ahead.tail }, [])
  | .error e =>
    ({ ahead := w.ahead.tail, firstError := w.firstError <|> some e }, [.clearFailed node.id e])

/-- The outcome of a wipe. -/
def settle (w : Wipe) : Except RingError Unit :=
  match w.firstError with
  | some e => .error (.node e)
  | none => .ok ()

end Wipe

end ReplicaRing
