import ReplicaRing.Cluster

/-!
# Steps of a scenario

* `Op` — everything that a scenario can do to a ring, its nodes and its repair;
* `Step` — one operation, or several steps that start at given times and run side by side;
* `Answer` — what an operation returns.
-/

namespace ReplicaRing.Scenario

/-- How the nodes of a placement are chosen. -/
inductive Selection where
  /-- The replicas of a key. -/
  | ofKey (key : String)
  /-- The first nodes behind a position. -/
  | atPosition (position : UInt64) (count : Nat)
  /-- Known nodes, on the ring or not. -/
  | nodes (ids : List NodeId)
  deriving Repr

/-- An operation. -/
inductive Op where
  | put (key value : String) (timeout : Option Duration)
  | delete (key : String) (timeout : Option Duration)
  | get (key : String) (timeout : Option Duration)
  | clear
  | add (node : Node)
  /-- Add a node that was on the ring before, with its data. -/
  | addAgain (id : NodeId)
  | drop (id : NodeId)
  /-- Add a new node at a random place. -/
  | addRandom
  /-- Drop the oldest node at a random place that is still on the ring. -/
  | dropRandom
  | size
  | nodeIds
  | lookup (id : NodeId)
  | snapshot
  /-- Keep the current membership under a name. -/
  | save (name : String)
  | showSaved (name : String) (position : Option UInt64) (count : Option Nat)
  | options
  | debug
  | position (key : String)
  | placement (choice : Selection) (probes : List NodeId)
  | writeTo (choice : Selection) (change : Change) (key : String) (timeout : Duration)
  | readFrom (choice : Selection) (key : String) (timeout : Duration)
  | nodeId (id : NodeId)
  /-- A request to a node through its faults. -/
  | ask (id : NodeId) (request : Request)
  /-- A request to the store below the faults. -/
  | serve (id : NodeId) (request : Request)
  | storeSize (id : NodeId)
  | fail (id : NodeId)
  | recover (id : NodeId)
  | isDown (id : NodeId)
  | nodeDebug (id : NodeId)
  | setFailureRate (id : NodeId) (rate : Float)
  | setLatency (id : NodeId) (latency : Duration)
  | script (id : NodeId) (rules : List Rule) (phantoms : List String)
  | dump
  /-- A sweep, cancelled some time after its start if a time is given. -/
  | repair (cancelAfter : Option Duration)
  | startRepair (interval settle : Duration)
  | isRepairStopped
  | stopRepair
  | sleep (time : Duration)
  | metrics (comments : Bool)
  deriving Repr

/-- A step: one operation, or several steps side by side, each with the time after which it
starts. -/
inductive Step where
  | single (op : Op)
  | parallel (tasks : List (Duration × Step))
  deriving Repr

/-- What an operation returns. -/
inductive Answer where
  | done
  | ringError (error : RingError)
  | nodeError (error : NodeError)
  /-- The operation has broken off. -/
  | overflow (cause : Overflow)
  /-- The operation makes no sense here. -/
  | rejected (reason : String)
  | written (outcome : WriteOutcome)
  | value (value : Option String)
  | keys (keys : List String)
  | dropped (id : NodeId)
  | addedRandom (present : Bool)
  | droppedRandom
  | size (size : Nat)
  | ids (ids : List NodeId)
  | found (id : Option NodeId) (member : Bool)
  | members (membership : Membership)
  | saved (membership : Membership) (placement : Option Placement)
  | options (options : RingOptions)
  | text (text : String)
  | position (position : UInt64)
  | placement (placement : Placement) (contained : List Bool)
  | fanOut (outcome : FanOut)
  | readOutcome (outcome : ReadOutcome)
  | flag (flag : Bool)
  | nodeId (id : NodeId)
  /-- The store of every known node, with whether it is on the ring. -/
  | contents (nodes : List (NodeId × Bool × Store))
  /-- A report, and for a sweep that could be cancelled whether it was told to stop. -/
  | report (report : Report) (signalled : Option Bool)
  | lines (lines : List String)
  deriving Repr

/-- The answer of a successful request. -/
def Answer.ofReply : (r : Request) → r.Reply → Answer
  | .set _ _, () => .done
  | .get _, v => .value v
  | .delete _, () => .done
  | .clear, () => .done
  | .keys, ks => .keys (ks.mergeSort fun a b => a ≤ b)

/-- The answer of a request. -/
def Answer.ofRequest (r : Request) : r.Answer → Answer
  | .ok reply => .ofReply r reply
  | .error e => .nodeError e

end ReplicaRing.Scenario
