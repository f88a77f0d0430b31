import ReplicaRing.Metrics.Histogram
import ReplicaRing.Metrics.Labelled

/-!
# Metrics

What a ring counts: client operations by kind with their latency, failed replica operations by
kind, and the work of repair. Counters wrap at `2 ^ 64`.

* `Metrics.add` — raise one counter;
* `Metrics.replicaFailed` — count a failed or timed out replica operation of a kind;
* `Metrics.startTimer`, `Metrics.observe` — the two ends of a timed operation: its kind is listed
  from the start, its sample counts at the end.
-/

namespace ReplicaRing

/-- The counters without labels. -/
inductive Counter where
  | puts
  | gets
  | deletes
  | repairSweeps
  | repairCopies
  | repairInconsistencies
  deriving DecidableEq, Repr

/-- The measurements of one ring, or of several that share them. -/
structure Metrics where
  puts : UInt64 := 0
  gets : UInt64 := 0
  deletes : UInt64 := 0
  repairSweeps : UInt64 := 0
  repairCopies : UInt64 := 0
  repairInconsistencies : UInt64 := 0
  /-- Latencies by kind of operation. -/
  latency : Labelled Histogram := .empty
  /-- Failed or timed out replica operations, by kind of operation. -/
  replicaFailures : Labelled UInt64 := .empty
  deriving Repr, Inhabited

namespace Metrics

/-- The value of a counter. -/
def read (m : Metrics) : Counter → UInt64
  | .puts => m.puts
  | .gets => m.gets
  | .deletes => m.deletes
  | .repairSweeps => m.repairSweeps
  | .repairCopies => m.repairCopies
  | .repairInconsistencies => m.repairInconsistencies

/-- Raise a counter. -/
def add (m : Metrics) (c : Counter) (amount : UInt64) : Metrics :=
  match c with
  | .puts => { m with puts := m.puts + amount }
  | .gets => { m with gets := m.gets + amount }
  | .deletes => { m with deletes := m.deletes + amount }
  | .repairSweeps => { m with repairSweeps := m.repairSweeps + amount }
  | .repairCopies => { m with repairCopies := m.repairCopies + amount }
  | .repairInconsistencies =>
    { m with repairInconsistencies := m.repairInconsistencies + amount }

/-- Failed or timed out replica operations of a kind so far. -/
def failures (m : Metrics) (kind : String) : UInt64 := (m.replicaFailures.find? kind).getD 0

/-- Count a failed or timed out replica operation. -/
def replicaFailed (m : Metrics) (kind : String) : Metrics :=
  { m with replicaFailures := m.replicaFailures.insert kind (m.failures kind + 1) }

/-- Count as many failed replica operations at once. -/
def replicasFailed (m : Metrics) (kind : String) : Nat → Metrics
  | 0 => m
  | n + 1 => (m.replicaFailed kind).replicasFailed kind n

/-- The latencies of a kind of operation so far. -/
def latencies (m : Metrics) (kind : String) : Histogram := (m.latency.find? kind).getD .empty

/-- The number of timed operations of a kind so far. -/
def samples (m : Metrics) (kind : String) : UInt64 := (m.latencies kind).count

/-- Begin to time an operation, which lists its kind. -/
def startTimer (m : Metrics) (kind : String) : Metrics :=
  { m with latency := m.latency.insert kind (m.latencies kind) }

/-- Count the latency of an operation, in seconds. -/
def observe (m : Metrics) (kind : String) (seconds : Float) : Metrics :=
  { m with latency := m.latency.insert kind ((m.latencies kind).observe seconds) }

/-- Metrics as a printed value, which shows none of them. -/
def debug (_ : Metrics) : String := "RingMetrics \x7b .. \x7d"

end Metrics

end ReplicaRing
