import ReplicaRing.Membership
import ReplicaRing.Node

/-!
# The fleet

All nodes that ever existed, on a ring or not. A handle names one of them.

* `Fleet.node` — the node of a handle;
* `Fleet.begin`, `Fleet.conclude` — the two ends of a request to a node;
* `Flight` — a request that is under way.
-/

namespace ReplicaRing

/-- Every node that ever existed, by slot. -/
structure Fleet where
  nodes : Array Node := #[]
  deriving Repr, Inhabited

namespace Fleet

/-- The node of a handle. A slot that was never filled holds an empty node. -/
def node (f : Fleet) (h : Handle) : Node := f.nodes.getD h.slot { id := h.id }

/-- Replace the node of a handle. -/
def replace (f : Fleet) (h : Handle) (n : Node) : Fleet := ⟨f.nodes.setIfInBounds h.slot n⟩

/-- Change the node of a handle. -/
def update (f : Fleet) (h : Handle) (change : Node → Node) : Fleet :=
  f.replace h (change (f.node h))

/-- Put a node into the next slot. -/
def enlist (f : Fleet) (n : Node) : Handle × Fleet :=
  (⟨n.id, f.nodes.size⟩, ⟨f.nodes.push n⟩)

/-- Start a request to a node. -/
def begin (f : Fleet) (env : Env) (h : Handle) (r : Request) : Fate × Fleet :=
  let (fate, n) := (f.node h).begin env r
  (fate, f.replace h n)

/-- End a request to a node. -/
def conclude (f : Fleet) (h : Handle) (r : Request) (v : Verdict) :
    r.Answer × Fleet × List LogEvent :=
  let (answer, n, events) := (f.node h).conclude r v
  (answer, f.replace h n, events)

/-- Serve a request from the store of a node, past its faults. -/
def serve (f : Fleet) (h : Handle) (r : Request) : r.Reply × Fleet × List LogEvent :=
  let (reply, n, events) := (f.node h).serve r
  (reply, f.replace h n, events)

end Fleet

/-- A request that is under way to a node. -/
structure Flight where
  target : Handle
  /-- When the node will be done with it. -/
  due : Instant
  verdict : Verdict
  deriving DecidableEq, Repr

/-- Start a request at `now`. -/
def Fleet.launch (f : Fleet) (env : Env) (now : Instant) (h : Handle) (r : Request) :
    Flight × Fleet :=
  let (fate, f) := f.begin env h r
  (⟨h, env.timer.after now fate.delay, fate.verdict⟩, f)

end ReplicaRing
