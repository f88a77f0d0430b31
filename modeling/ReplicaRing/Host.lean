import ReplicaRing.Config
import ReplicaRing.Scenario.Run

/-!
# Hosts

A host builds the ring that its configuration asks for, with background repair if that is enabled,
and checks that the ring works: it writes a value and reads it back, and if there are more nodes
than replicas it also drops the primary of the key, runs a sweep and reads the value again.

* `Host.start` — the ring of a configuration, before anything is done to it;
* `Host.operations` — what the host does to the ring;
* `Host.run` — the lines that it reports.
-/

namespace ReplicaRing.Host

open Scenario

/-- The key that a host writes and reads. -/
def probeKey : String := "asd"

/-- The value that it writes. -/
def probeValue : String := "123"

/-- The ring of a configuration: as many nodes at random places as it asks for. -/
def start (c : Config) : Except RingError World :=
  Scenario.initialWorld
    { nodes := []
      hasher := KeyHasher.sha1
      ring := some { options := c.ringOptions, randomSize := some c.ring.ringSize.toNat }
      steps := [] }

/-- The loss of a replica and its repair, on a ring that can spare a node. -/
def lossAndRepair (ring : Ring) : List Op :=
  if ring.options.replicaCount < ring.membership.size then
    (((ring.placement probeKey).primary?.map fun h => Op.drop h.id).toList) ++
      [.repair none, .get probeKey none]
  else []

/-- What a host does to its ring. -/
def operations (c : Config) (ring : Ring) : List Op :=
  let work := [.put probeKey probeValue none, .get probeKey none] ++ lossAndRepair ring
  if c.repair.enabled then
    let interval := Duration.ofSeconds c.repair.intervalSecs.toNat
    [.startRepair interval .zero] ++ work ++ [.stopRepair]
  else work

/-- What a host says about an operation that has been answered. -/
def remark (position : UInt64) : Op → Answer → List String
  | .put key _ _, .written outcome =>
    let place := String.ofList (Hex.padded 16 position.toNat)
    [s!"INFO put {key} ({place}) -> {outcome.acked.length} replica(s)"]
  | .get key _, .value (some value) => [s!"INFO get {key} = Some({Quoted.string value})"]
  | .get key _, .value none => [s!"INFO get {key} = None"]
  | .drop _, .dropped id => [s!"INFO dropped primary {id.display} of {probeKey}"]
  | .repair _, .report report _ =>
    [s!"INFO repair after drop copied {report.copies} value(s)"]
  | _, _ => []

/-- Whether a line of the log is reported: details are not. -/
def isReported (line : String) : Bool := !line.startsWith LogLevel.debug.name

/-- The lines of an operation: what the ring reported meanwhile, then the remark on its answer. -/
def lines (position : UInt64) (op : Op) (e : Entry) : List String :=
  e.log.filter isReported ++
    match e.result with
    | .one answer => remark position op answer
    | .many _ => []

/-- The lines that a host reports, or why it could not build its ring. -/
def run (c : Config) : Except RingError (List String) :=
  (start c).map fun w =>
    let ring := w.cluster.ring
    let ops := operations c ring
    let entries := (w.takeLog.2.performAll (ops.map .single)).1
    let greeting := s!"INFO ring of {ring.membership.size} node(s) up, " ++
      s!"replica count {ring.options.replicaCount}"
    [greeting] ++ (if c.repair.enabled then [] else ["INFO repair disabled"]) ++
      (ops.zip entries).flatMap fun e => lines (ring.position probeKey) e.1 e.2

end ReplicaRing.Host
