/-!
# Latency histograms

* `Histogram.observe` — count a sample in the first bucket that holds it;
* `Histogram.cumulative` — for each bound, the samples not above it.
-/

namespace ReplicaRing

/-- Samples counted by bucket, with their sum and their number. Counts wrap at `2 ^ 64`. -/
structure Histogram where
  /-- Samples whose lowest bound is the bound at the same place of `Histogram.bounds`. -/
  buckets : List UInt64
  sum : Float
  count : UInt64
  deriving Repr, Inhabited

namespace Histogram

/-- The upper bounds of the buckets, in seconds. -/
def bounds : List Float := [0.00005, 0.0001, 0.0005, 0.001, 0.005, 0.01, 0.05, 0.1, 1.0]

/-- No samples yet. -/
def empty : Histogram := ⟨bounds.map fun _ => 0, 0.0, 0⟩

/-- Add one to the bucket of the first bound that is not below the sample. A sample above all
bounds, or one that cannot be compared, has no bucket. -/
def place (sample : Float) : List Float → List UInt64 → List UInt64
  | bound :: bs, n :: ns => if sample ≤ bound then (n + 1) :: ns else n :: place sample bs ns
  | _, ns => ns

/-- Count a sample. -/
def observe (h : Histogram) (sample : Float) : Histogram :=
  ⟨place sample bounds h.buckets, h.sum + sample, h.count + 1⟩

/-- Running totals of a list of counts that starts from `acc`. -/
def runningTotals (acc : UInt64) : List UInt64 → List UInt64
  | [] => []
  | n :: ns => (acc + n) :: runningTotals (acc + n) ns

/-- Each bound with the number of samples counted at or below it. -/
def cumulative (h : Histogram) : List (Float × UInt64) :=
  bounds.zip (runningTotals 0 h.buckets)

end Histogram

end ReplicaRing
