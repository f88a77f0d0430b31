import ReplicaRing.Proofs.LoopEvents
import ReplicaRing.Proofs.MetricsFrames

/-!
# The number of sweeps

One counter of a ring counts sweeps. It grows by one for every sweep that returns and has not been
cancelled, whoever has started it, and nothing else touches it.

* `Cluster.sweepCount` — the counter, with what leaves it alone;
* `World.returned?` — the report of a sweep that returns in a turn;
* `go_sweepCount`, `follow_sweepCount` — what a turn and what a run adds to the counter.
-/

namespace ReplicaRing

/-! ### What leaves the counter alone -/

theorem Metrics.replicasFailed_repairSweeps (m : Metrics) (kind : String) (misses : Nat) :
    (m.replicasFailed kind misses).repairSweeps = m.repairSweeps := by
  induction misses generalizing m with
  | zero => rfl
  | succ misses ih => exact ih (m.replicaFailed kind)

namespace Cluster

/-- How many sweeps have been counted. -/
def sweepCount (c : Cluster) : UInt64 := c.metrics.read .repairSweeps

variable (c : Cluster)

@[simp]
theorem sweepCount_report (events : List LogEvent) : (c.report events).sweepCount = c.sweepCount :=
  rfl

/-- Metrics that stay as they are count no sweep. -/
theorem sweepCount_congr {c c' : Cluster} (h : c'.metrics = c.metrics) :
    c'.sweepCount = c.sweepCount := congrArg (Metrics.read · .repairSweeps) h

@[simp]
theorem sweepCount_beginOp (op : ClientOp) : (c.beginOp op).sweepCount = c.sweepCount := by
  cases op <;> rfl

@[simp]
theorem sweepCount_endOp (op : ClientOp) (misses : Nat) (started : Instant) :
    (c.endOp op misses started).sweepCount = c.sweepCount :=
  c.metrics.replicasFailed_repairSweeps op.name misses

end Cluster

namespace Scenario

namespace Activity

theorem ofWrite_sweepCount (c : Cluster) (run : Write) (client : Bool) :
    (ofWrite c run client).2.sweepCount = c.sweepCount := by
  cases client with
  | false => exact Cluster.sweepCount_congr (ofWrite_metrics c run)
  | true =>
    rw [ofWrite]
    split
    · simp
    · rfl

theorem ofRead_sweepCount (c : Cluster) (run : ReadRun) (primary : Option NodeId)
    (client : Bool) : (ofRead c run primary client).2.sweepCount = c.sweepCount := by
  cases client with
  | false => exact Cluster.sweepCount_congr (ofRead_metrics c run primary)
  | true =>
    rw [ofRead]
    split
    · simp
    · rfl

end Activity

namespace World

variable {w v : World}

theorem breakOff_sweepCount (w : World) (op : ClientOp) :
    (w.breakOff op).2.cluster.sweepCount = w.cluster.sweepCount :=
  (Cluster.sweepCount_endOp ..).trans (w.cluster.sweepCount_beginOp op)

theorem beginWrite_sweepCount (w : World) (change : Change) (key : String)
    (timeout : Option Duration) :
    (w.beginWrite change key timeout).2.cluster.sweepCount = w.cluster.sweepCount := by
  rw [beginWrite]
  split
  · exact (Activity.ofWrite_sweepCount ..).trans (w.cluster.sweepCount_beginOp change.op)
  · exact w.breakOff_sweepCount change.op

theorem beginRead_sweepCount (w : World) (key : String) (timeout : Option Duration) :
    (w.beginRead key timeout).2.cluster.sweepCount = w.cluster.sweepCount := by
  rw [beginRead]
  split
  · exact (Activity.ofRead_sweepCount ..).trans <|
      (Cluster.sweepCount_congr (Cluster.metrics_askHead ..)).trans
        (w.cluster.sweepCount_beginOp .get)
  · exact w.breakOff_sweepCount .get

/-- A call counts no sweep. -/
theorem begin_sweepCount (w : World) (op : Op) :
    (w.begin op).2.cluster.sweepCount = w.cluster.sweepCount := by
  cases hop : op.client? with
  | none => exact Cluster.sweepCount_congr (w.begin_uncounted hop).metrics
  | some kind =>
    rw [begin]
    split
    · cases op with
      | put key value timeout => exact w.beginWrite_sweepCount ..
      | delete key timeout => exact w.beginWrite_sweepCount ..
      | get key timeout => exact w.beginRead_sweepCount ..
      | _ => cases hop
    · rfl

end World

/-! ### Sweeps that return -/

/-- The report of a sweep that a client has started, if it returns at the next event. -/
def Activity.returned? (c : Cluster) : Activity → Option Report
  | .sweep run cancelAt =>
    let sweep := (run.step (cancelledBy cancelAt c.now) c).1.sweep
    if sweep.isFinished then some sweep.report else none
  | _ => none

/-- What a sweep adds to the counter if it returns. -/
def added (r? : Option Report) : Nat := (r?.any fun r => !r.cancelled).toNat

theorem growth_repairSweeps (r : Report) : r.growth .repairSweeps = added (some r) := by
  rw [Report.growth, added, Option.any_some]
  cases r.cancelled <;> rfl

/-- A count that stays as it is. -/
theorem toNat_same {a b : UInt64} (h : a = b) : a.toNat = (b.toNat + added none) % 2 ^ 64 := by
  rw [h]
  exact (Nat.mod_eq_of_lt b.toNat_lt).symm

/-- A sweep that returns is counted. -/
theorem close_sweepCount (r : Report) (c : Cluster) :
    (SweepRun.close r c).sweepCount.toNat = (c.sweepCount.toNat + added (some r)) % 2 ^ 64 :=
  (Report.read_recordSweep c.metrics r .repairSweeps).trans (by
    rw [growth_repairSweeps]
    rfl)

/-- The next event of a repair loop counts the sweep that returns. -/
theorem loop_sweepCount (l : LoopRun) (c : Cluster) :
    (l.step c).2.sweepCount.toNat =
      (c.sweepCount.toNat + added ((l.seen? c).bind RepairLoop.Event.report?)) % 2 ^ 64 := by
  cases hphase : l.loop.phase with
  | idle =>
    have hnone : (l.seen? c).bind RepairLoop.Event.report? = none := by
      simp only [LoopRun.seen?, hphase]
      split
      · rfl
      · split <;> rfl
    rw [hnone]
    refine toNat_same ?_
    simp only [LoopRun.step, hphase, Cluster.sweepCount_report]
  | stopped =>
    have hnone : (l.seen? c).bind RepairLoop.Event.report? = none := by
      rw [LoopRun.seen?, hphase]
      rfl
    rw [hnone, LoopRun.step, hphase]
    exact toNat_same rfl
  | sweeping s =>
    cases hfinished : s.isFinished with
    | true =>
      have hsome : (l.seen? c).bind RepairLoop.Event.report? = some s.report := by
        simp only [LoopRun.seen?, hphase, hfinished, if_true]
        rfl
      rw [hsome]
      simp only [LoopRun.step, hphase, hfinished, if_true, Cluster.sweepCount_report]
      exact close_sweepCount s.report c
    | false =>
      have hnone : (l.seen? c).bind RepairLoop.Event.report? = none := by
        simp only [LoopRun.seen?, hphase, hfinished, Bool.false_eq_true, if_false]
        split
        · rfl
        · split
          · rfl
          · cases SweepRun.seen? l.loop.signalled c ⟨s, l.inquiry⟩ <;> rfl
      have hmetrics := (SweepRun.step_meets ⟨s, l.inquiry⟩ l.loop.signalled c).2
      rw [hnone]
      simp only [LoopRun.step, hphase, hfinished, Bool.false_eq_true, if_false]
      exact toNat_same (congrArg (Metrics.read · .repairSweeps) hmetrics)

namespace World

variable {w v : World}

/-- The next event of an activity counts the sweep that returns. -/
theorem stepActivity_sweepCount (v : World) (a : Activity) :
    (v.stepActivity a).2.cluster.sweepCount.toNat =
      (v.cluster.sweepCount.toNat + added (a.returned? v.cluster)) % 2 ^ 64 := by
  cases a with
  | sweep run cancelAt =>
    have hmetrics := (run.step_meets (cancelledBy cancelAt v.cluster.now) v.cluster).2
    have hsame : (run.step (cancelledBy cancelAt v.cluster.now) v.cluster).2.sweepCount =
        v.cluster.sweepCount := congrArg (Metrics.read · .repairSweeps) hmetrics
    simp only [stepActivity, started, Activity.ofSweep, Activity.returned?]
    split
    · rw [← hsame]
      exact close_sweepCount ..
    · exact toNat_same hsame
  | later t op => exact toNat_same (v.begin_sweepCount op)
  | write run client => exact toNat_same (Activity.ofWrite_sweepCount ..)
  | read run primary client =>
    exact toNat_same ((Activity.ofRead_sweepCount ..).trans
      (Cluster.sweepCount_congr (run.step_metrics _)))
  | wipe run =>
    exact toNat_same (Cluster.sweepCount_congr
      ((Activity.ofWipe_metrics ..).trans (run.step_metrics _)))
  | ask request q =>
    exact toNat_same (Cluster.sweepCount_congr (v.cluster.metrics_receive q request))
  | settle stop loop =>
    exact toNat_same (congrArg Cluster.sweepCount (v.hold_same loop).2.1)
  | _ => exact toNat_same rfl

/-- The report of a sweep that returns in a turn, to a client or to its loop. -/
def returned? (v : World) : Turn → Option Report
  | .activity i => v.activities[i]?.bind (Activity.returned? v.cluster)
  | .loop i => (v.loops[i]?.bind (LoopRun.seen? v.cluster)).bind RepairLoop.Event.report?

/-- **One turn.** The counter grows just by a sweep that returns. -/
theorem go_sweepCount (v : World) (x : Turn) :
    (v.go x).cluster.sweepCount.toNat =
      (v.cluster.sweepCount.toNat + added (v.returned? x)) % 2 ^ 64 := by
  cases x with
  | activity i =>
    cases hi : v.activities[i]? with
    | none =>
      rw [go_activity_none hi, returned?, hi]
      exact toNat_same rfl
    | some a =>
      rw [go_activity_some hi, returned?, hi]
      exact v.stepActivity_sweepCount a
  | loop i =>
    cases hi : v.loops[i]? with
    | none =>
      rw [go_loop_none hi, returned?, hi]
      exact toNat_same rfl
    | some l =>
      rw [go_loop_some hi, returned?, hi]
      exact loop_sweepCount l v.cluster

/-- **Runs.** The counter counts the sweeps that have returned without being cancelled. -/
theorem follow_sweepCount (w : World) (turns : List (Instant × Turn)) :
    (w.follow turns).cluster.sweepCount.toNat = (w.cluster.sweepCount.toNat +
      (w.trace returned? turns).countP fun r => !r.cancelled) % 2 ^ 64 := by
  induction turns using List.reverseRecOn with
  | nil => exact (Nat.mod_eq_of_lt (UInt64.toNat_lt _)).symm
  | append_singleton turns turn ih =>
    obtain ⟨t, x⟩ := turn
    have hadded : ∀ r? : Option Report, r?.toList.countP (fun r => !r.cancelled) = added r? := by
      intro r?
      cases r? with
      | none => rfl
      | some r =>
        rw [Option.toList_some, List.countP_singleton, added, Option.any_some]
        cases r.cancelled <;> rfl
    have hsame : ((w.follow turns).advanceTo t).cluster.sweepCount =
        (w.follow turns).cluster.sweepCount := rfl
    rw [follow_concat, go_sweepCount, trace_concat, List.countP_append, hadded, hsame, ih,
      Nat.mod_add_mod, Nat.add_assoc]

end World

end Scenario

end ReplicaRing
