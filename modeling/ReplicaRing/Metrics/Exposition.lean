import ReplicaRing.Decimal.Shortest
import ReplicaRing.Metrics

/-!
# Text exposition of metrics

One family of samples after the other in the order of their names. Each begins with its help and
type lines; a family with labels is left out until it has a member.

* `Sample.render`, `Family.lines` — the lines of a sample and of a family;
* `Metrics.families` — all families;
* `Metrics.exposition` — the whole text, as lines.
-/

namespace ReplicaRing

/-- One measured value with the labels that tell it from others of its family. -/
structure Sample where
  name : String
  labels : List (String × String)
  value : Float
  deriving Repr

/-- Samples of one measurement. -/
structure Family where
  name : String
  help : String
  kind : String
  samples : List Sample
  deriving Repr

/-- A label value with backslashes, quotes and line ends escaped. -/
def escapeLabel (text : String) : String :=
  String.ofList (text.toList.flatMap fun c =>
    if c = '\\' then ['\\', '\\']
    else if c = '"' then ['\\', '"']
    else if c = '\n' then ['\\', 'n']
    else [c])

/-- A sample as a line. -/
def Sample.render (s : Sample) : String :=
  let pair := fun (l : String × String) => l.1 ++ "=\"" ++ escapeLabel l.2 ++ "\""
  let labels := if s.labels.isEmpty then "" else
    "\x7b" ++ ",".intercalate (s.labels.map pair) ++ "\x7d"
  s.name ++ labels ++ " " ++ Double.positional s.value

/-- The lines of a family, none for one without samples. -/
def Family.lines (f : Family) : List String :=
  if f.samples.isEmpty then []
  else
    ["# HELP " ++ f.name ++ " " ++ f.help, "# TYPE " ++ f.name ++ " " ++ f.kind] ++
      f.samples.map Sample.render

namespace Metrics

/-- The family of a counter without labels. -/
def counterFamily (name help : String) (value : UInt64) : Family :=
  ⟨name, help, "counter", [⟨name, [], value.toFloat⟩]⟩

/-- The samples of one histogram: its buckets, the sum and the count. -/
def histogramSamples (name : String) (label : String × String) (h : Histogram) : List Sample :=
  h.cumulative.map (fun b =>
      ⟨name ++ "_bucket", [label, ("le", Double.positional b.1)], b.2.toFloat⟩) ++
    [⟨name ++ "_bucket", [label, ("le", "+Inf")], h.count.toFloat⟩,
      ⟨name ++ "_sum", [label], h.sum⟩,
      ⟨name ++ "_count", [label], h.count.toFloat⟩]

/-- The name of the latency family. -/
def latencyName : String := "ringkv_op_latency_seconds"

/-- All families in the order of their names. -/
def families (m : Metrics) : List Family :=
  [ counterFamily "ringkv_deletes_total" "Ring DELETE operations" m.deletes,
    counterFamily "ringkv_gets_total" "Ring GET operations" m.gets,
    ⟨latencyName, "Ring operation latency in seconds", "histogram",
      m.latency.listing.flatMap fun e => histogramSamples latencyName ("op_type", e.1) e.2⟩,
    counterFamily "ringkv_puts_total" "Ring PUT operations" m.puts,
    counterFamily "ringkv_repair_copies_total"
      "Values copied to lagging replicas by repair" m.repairCopies,
    counterFamily "ringkv_repair_inconsistencies_total"
      "Enumerated keys that vanished before repair could read them" m.repairInconsistencies,
    counterFamily "ringkv_repair_sweeps_total" "Completed repair sweeps" m.repairSweeps,
    ⟨"ringkv_replica_failures_total", "Replica operations that failed or timed out, by op",
      "counter",
      m.replicaFailures.listing.map fun e =>
        ⟨"ringkv_replica_failures_total", [("op_type", e.1)], e.2.toFloat⟩⟩ ]

/-- The text of all metrics, as lines. -/
def exposition (m : Metrics) : List String := m.families.flatMap Family.lines

/-- Whether a line is one that depends on how long operations took. -/
def isTimingLine (line : String) : Bool :=
  line.startsWith (latencyName ++ "_bucket") || line.startsWith (latencyName ++ "_sum")

/-- Whether a line is a help or type line. -/
def isComment (line : String) : Bool := line.startsWith "#"

end Metrics

end ReplicaRing
