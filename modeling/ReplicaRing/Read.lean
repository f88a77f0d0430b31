import ReplicaRing.Fleet
import ReplicaRing.Options

/-!
# Reads

A read asks the members of a placement one after the other, until one has the key or the deadline
passes. A member that fails is noted and passed over.

* `ReadOutcome` — what the members have answered so far;
* `Read` — a read under way, which waits for the first of the members ahead;
* `Read.answered`, `Read.expired` — the answer of that member, or the deadline;
* `ReadOutcome.settle` — the outcome under a read quorum;
* `ReadOutcome.events`, `ReadOutcome.misses` — what is reported and counted.
-/

namespace ReplicaRing

/-- What the members of a read answered. -/
structure ReadOutcome where
  /-- The first member that had the key, with its value. -/
  hit : Option (NodeId × String) := none
  /-- The members that answered without an error, the hit included. -/
  answered : Nat := 0
  failed : List (NodeId × NodeError) := []
  /-- Whether the deadline passed before the last member answered. -/
  timedOut : Bool := false
  deriving DecidableEq, Repr, Inhabited

/-- A read under way. The first member ahead has been asked. -/
structure Read where
  key : String
  ahead : List Handle
  outcome : ReadOutcome := {}
  deriving DecidableEq, Repr

namespace Read

/-- A read that is about to ask the first member. -/
def start (key : String) (p : Placement) : Read := { key := key, ahead := p.members }

/-- Whether no member is asked any more. -/
def isDone (r : Read) : Bool := r.ahead.isEmpty

/-- The member asked has answered. -/
def answered (r : Read) (member : Handle) : Except NodeError (Option String) → Read
  | .ok (some value) =>
    { r with
      ahead := []
      outcome := { r.outcome with
        hit := some (member.id, value)
        answered := r.outcome.answered + 1 } }
  | .ok none =>
    { r with
      ahead := r.ahead.tail
      outcome := { r.outcome with answered := r.outcome.answered + 1 } }
  | .error e =>
    { r with
      ahead := r.ahead.tail
      outcome := { r.outcome with failed := r.outcome.failed ++ [(member.id, e)] } }

/-- The deadline has passed before the member asked answered. -/
def expired (r : Read) : Read :=
  { r with ahead := [], outcome := { r.outcome with timedOut := true } }

end Read

namespace ReadOutcome

/-- The outcome of a client's read. A value counts whatever else happened; a key is absent only
if enough members answered so. -/
def settle (o : RingOptions) (key : String) (elapsed : Duration) (r : ReadOutcome) :
    Except RingError (Option String) :=
  match r.hit with
  | some (_, value) => .ok (some value)
  | none =>
    if r.timedOut then .error (.timeout key elapsed)
    else if r.answered < o.readQuorum then .error (.quorumNotReached o.readQuorum r.answered)
    else .ok none

/-- What is reported about a client's read whose first replica was `primary`. -/
def events (key : String) (primary : Option NodeId) (r : ReadOutcome) : List LogEvent :=
  r.failed.map (fun e => .replicaFailed .get key e.1 e.2) ++
    match r.hit with
    | some (id, _) => if primary = some id then [] else [.servedByBackup key id]
    | none => if r.timedOut then [.readExpired key] else []

/-- How many replica failures a client's read counts. -/
def misses (r : ReadOutcome) : Nat :=
  r.failed.length + if r.hit.isNone && r.timedOut then 1 else 0

end ReadOutcome

end ReplicaRing
