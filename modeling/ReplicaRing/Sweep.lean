import ReplicaRing.Metrics
import ReplicaRing.Ring
import ReplicaRing.Fleet

/-!
# Repair sweeps

A sweep visits the nodes that were on the ring when it started and every key that each of them
lists. For each key it chooses the replicas anew and copies the value to those that lack it. Only
missing keys are repaired: a replica with another value is left alone, and nothing is removed.

* `Sweep` — a sweep under way: at a boundary, waiting for a node, or finished;
* `Sweep.proceed` — a step at a boundary, where the sweep looks at the ring and may be cancelled;
* `Sweep.Waiting.request` — what a waiting sweep has asked of which node;
* `Sweep.resume` — the answer of that node;
* `Metrics.recordSweep`, `Report.event` — what is counted and reported in the end.
-/

namespace ReplicaRing

/-- The repair of one key that a node listed. -/
structure KeyRepair where
  /-- The node that listed the key. -/
  source : Handle
  key : String
  /-- The value of the source, once it has been read. -/
  value : Option String := none
  /-- The replicas that have not been looked at yet. -/
  ahead : List Handle
  /-- The keys of the source that come after this one. -/
  keys : List String
  deriving DecidableEq, Repr

namespace Sweep

/-- What a sweep waits for. -/
inductive Waiting where
  /-- The keys of a node. -/
  | listing (source : Handle)
  /-- Whether a replica has the key. -/
  | checking (job : KeyRepair) (member : Handle)
  /-- The value of the source, for a replica that lacks the key. -/
  | fetching (job : KeyRepair) (member : Handle)
  /-- The copy to a replica. -/
  | copying (job : KeyRepair) (member : Handle) (value : String)
  deriving DecidableEq, Repr

/-- The node that has been asked. -/
def Waiting.target : Waiting → Handle
  | listing source => source
  | checking _ member => member
  | fetching job _ => job.source
  | copying _ member _ => member

/-- What has been asked of it. -/
def Waiting.request : Waiting → Request
  | listing _ => .keys
  | checking job _ => .get job.key
  | fetching job _ => .get job.key
  | copying job _ value => .set job.key value

/-- Where a sweep stands. -/
inductive Stage where
  /-- Before the next node. -/
  | betweenNodes
  /-- Before the next key of a node. -/
  | betweenKeys (source : Handle) (keys : List String)
  | waiting (w : Waiting)
  | finished
  deriving DecidableEq, Repr

end Sweep

/-- A repair sweep. -/
structure Sweep where
  /-- The nodes that have not been visited yet. -/
  sources : List Handle
  stage : Sweep.Stage := .betweenNodes
  report : Report := {}
  deriving DecidableEq, Repr

/-- Go on to the next replica of a key; the source itself is passed over. -/
def KeyRepair.next (job : KeyRepair) : Sweep.Stage :=
  match job.ahead.dropWhile (·.id == job.source.id) with
  | [] => .betweenKeys job.source job.keys
  | member :: rest => .waiting (.checking { job with ahead := rest } member)

namespace Sweep

/-- A sweep over the nodes of a membership, in the order of their identities. -/
def start (m : Membership) : Sweep := { sources := m.handles }

/-- Whether a sweep has come to its end. -/
def isFinished (s : Sweep) : Bool := s.stage == .finished

/-- End a sweep early. -/
def cancel (s : Sweep) : Sweep :=
  { s with stage := .finished, report := { s.report with cancelled := true } }

/-- Take the next node: it is passed over if its identity has left the ring. -/
def visit (r : Ring) (source : Handle) (rest : List Handle) (s : Sweep) :
    Sweep × List LogEvent :=
  if r.membership.contains source.id then
    ({ s with sources := rest, stage := .waiting (.listing source) }, [])
  else ({ s with sources := rest }, [.leftRing source.id])

/-- Take the next key of a node and choose its replicas. -/
def repair (r : Ring) (source : Handle) (key : String) (keys : List String) (s : Sweep) :
    Sweep × List LogEvent :=
  let job : KeyRepair :=
    { source := source, key := key, ahead := (r.placement key).members, keys := keys }
  ({ s with
     stage := job.next
     report := { s.report with keysScanned := s.report.keysScanned + 1 } },
   [r.placementEvent key])

/-- A step at a boundary. The sweep stops there if it has been cancelled and something is left to
do; elsewhere it stays as it is. -/
def proceed (r : Ring) (cancelled : Bool) (s : Sweep) : Sweep × List LogEvent :=
  match s.stage with
  | .betweenNodes =>
    match s.sources with
    | [] => ({ s with stage := .finished }, [])
    | source :: rest => if cancelled then (s.cancel, []) else s.visit r source rest
  | .betweenKeys source keys =>
    match keys with
    | [] => ({ s with stage := .betweenNodes }, [])
    | key :: keys => if cancelled then (s.cancel, []) else s.repair r source key keys
  | _ => (s, [])

/-- Count a request that failed or timed out, and go on. -/
def failedThen (s : Sweep) (stage : Stage) : Sweep :=
  { s with stage := stage, report := { s.report with failures := s.report.failures + 1 } }

/-- The node asked has answered, or its time was up. -/
def resume (s : Sweep) : (w : Waiting) → w.request.Answer → Sweep × List LogEvent
  | .listing source, .ok keys =>
    ({ s with
       stage := .betweenKeys source keys
       report := { s.report with nodesScanned := s.report.nodesScanned + 1 } }, [])
  | .listing source, .error e => (s.failedThen .betweenNodes, [.listFailed source.id e])
  | .checking job _, .ok (some _) => ({ s with stage := job.next }, [])
  | .checking job member, .ok none =>
    match job.value with
    | some value => ({ s with stage := .waiting (.copying job member value) }, [])
    | none => ({ s with stage := .waiting (.fetching job member) }, [])
  | .checking job member, .error e =>
    (s.failedThen job.next, [.checkFailed job.key member.id e])
  | .fetching job member, .ok (some value) =>
    ({ s with stage := .waiting (.copying { job with value := some value } member value) }, [])
  | .fetching job _, .ok none =>
    ({ s with
       stage := .betweenKeys job.source job.keys
       report := { s.report with inconsistencies := s.report.inconsistencies + 1 } },
     [.vanished job.key job.source.id])
  | .fetching job _, .error e =>
    (s.failedThen (.betweenKeys job.source job.keys), [.fetchFailed job.key job.source.id e])
  | .copying job member _, .ok () =>
    ({ s with
       stage := job.next
       report := { s.report with copies := s.report.copies + 1 } },
     [.copied job.key job.source.id member.id])
  | .copying job member _, .error e =>
    (s.failedThen job.next, [.copyFailed job.key member.id e])

end Sweep

/-! ### The end of a sweep -/

/-- What is reported at the end of a sweep. -/
def Report.event (r : Report) : LogEvent := if r.cancelled then .sweepCancelled r else .swept r

/-- Count the work of a sweep, and the sweep itself unless it was cancelled. -/
def Metrics.recordSweep (m : Metrics) (r : Report) : Metrics :=
  let m := m.add .repairCopies (UInt64.ofNat r.copies)
  let m := m.add .repairInconsistencies (UInt64.ofNat r.inconsistencies)
  if r.cancelled then m else m.add .repairSweeps 1

end ReplicaRing
