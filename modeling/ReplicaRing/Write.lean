import ReplicaRing.Fleet
import ReplicaRing.Options

/-!
# Writes

A write goes to all members of a placement at once. Each of them succeeds or fails on its own, and
those that are not done at the deadline are given up. Nothing is rolled back.

* `FanOut` — what has become of the members so far;
* `Write` — a write under way: the requests still in flight, earliest first;
* `Write.start`, `Write.step` — its start and its next event;
* `FanOut.settle` — the outcome under a write quorum;
* `FanOut.events`, `FanOut.misses` — what is reported and counted for members that failed or were
  given up.
-/

namespace ReplicaRing

/-- What a write does to a key. -/
inductive Change where
  | put (value : String)
  | delete
  deriving DecidableEq, Repr

/-- The request that carries a change of a key to a node. -/
def Change.request (key : String) : Change → Request
  | put value => .set key value
  | delete => .delete key

/-- The client operation that makes a change. -/
def Change.op : Change → ClientOp
  | put _ => .put
  | delete => .delete

/-- What became of the members of a write. -/
structure FanOut where
  /-- The members in placement order. -/
  members : List NodeId
  /-- Those that applied the change, as they finished. -/
  acked : List NodeId := []
  /-- Those that reported an error, as they finished. -/
  failed : List (NodeId × NodeError) := []
  deriving DecidableEq, Repr

namespace FanOut

/-- The members that have neither applied the change nor failed, in placement order. -/
def timedOut (f : FanOut) : List NodeId :=
  f.members.filter fun id => !f.acked.contains id && !f.failed.any (·.1 == id)

/-- The number of members that applied the change. -/
def acks (f : FanOut) : Nat := f.acked.length

/-- Whether every member applied the change. -/
def isComplete (f : FanOut) : Bool := f.failed.isEmpty && f.timedOut.isEmpty

/-- Note the answer of a member. -/
def record {α : Type} (f : FanOut) (id : NodeId) : Except NodeError α → FanOut
  | .ok _ => { f with acked := f.acked ++ [id] }
  | .error e => { f with failed := f.failed ++ [(id, e)] }

end FanOut

/-! ### Writes under way -/

/-- A write under way. -/
structure Write where
  change : Change
  key : String
  started : Instant
  deadline : Instant
  /-- The requests in flight by the time at which they are due; of two with one due time, the one
  earlier in the placement comes first. -/
  flights : List Flight
  outcome : FanOut
  deriving DecidableEq, Repr

namespace Write

/-- Start the request of a write to each of its members. -/
def launchAll (env : Env) (now : Instant) (r : Request) :
    List Handle → Fleet → List Flight × Fleet
  | [], f => ([], f)
  | h :: rest, f =>
    let (flight, f) := f.launch env now h r
    let (flights, f) := launchAll env now r rest f
    (flight :: flights, f)

/-- Start a write to the members of a placement. -/
def start (env : Env) (now : Instant) (timeout : Duration) (change : Change) (key : String)
    (p : Placement) (f : Fleet) : Write × Fleet :=
  let (flights, f) := launchAll env now (change.request key) p.members f
  ({ change := change
     key := key
     started := now
     deadline := now + timeout.ticks
     flights := flights.mergeSort fun a b => a.due ≤ b.due
     outcome := { members := p.ids } }, f)

/-- Whether no member is waited for any more. -/
def isDone (w : Write) : Bool := w.flights.isEmpty

/-- When the next member is done, or the deadline passes. -/
def wake (w : Write) : Instant :=
  match w.flights with
  | [] => w.started
  | flight :: _ => min flight.due w.deadline

/-- The next event: the earliest request ends, if that is not after the deadline; otherwise the
requests in flight are given up. -/
def step (w : Write) (f : Fleet) : Write × Fleet × List LogEvent :=
  match w.flights with
  | [] => (w, f, [])
  | flight :: flights =>
    if flight.due ≤ w.deadline then
      let (answer, f, events) := f.conclude flight.target (w.change.request w.key) flight.verdict
      ({ w with
         flights := flights
         outcome := w.outcome.record flight.target.id answer }, f, events)
    else ({ w with flights := [] }, f, [])

end Write

/-! ### Outcomes -/

/-- A write that reached its quorum. -/
structure WriteOutcome where
  /-- The replicas that applied it. -/
  acked : List NodeId
  /-- The replicas that failed, then those that missed the deadline. -/
  missed : List NodeId
  deriving DecidableEq, Repr

namespace FanOut

/-- The members that did not apply the change: those that failed, then those given up. -/
def missed (f : FanOut) : List NodeId := f.failed.map Prod.fst ++ f.timedOut

/-- The outcome of a client's write: with too few acknowledgements it is a timeout if members were
given up, and a missed quorum otherwise. -/
def settle (o : RingOptions) (key : String) (elapsed : Duration) (f : FanOut) :
    Except RingError WriteOutcome :=
  if o.writeQuorum ≤ f.acks then .ok ⟨f.acked, f.missed⟩
  else if f.timedOut.isEmpty then .error (.quorumNotReached o.writeQuorum f.acks)
  else .error (.timeout key elapsed)

/-- What is reported about the members that did not apply a client's write. -/
def events (op : ClientOp) (key : String) (f : FanOut) : List LogEvent :=
  f.failed.map (fun e => .replicaFailed op key e.1 e.2) ++
    f.timedOut.map fun id => .replicaTimedOut op key id

/-- How many replica failures a client's write counts. -/
def misses (f : FanOut) : Nat := f.failed.length + f.timedOut.length

end FanOut

end ReplicaRing
