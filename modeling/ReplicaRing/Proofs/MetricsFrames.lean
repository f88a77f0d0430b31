import ReplicaRing.Proofs.RingChanges
import ReplicaRing.Proofs.SweepTrace

/-!
# What leaves the metrics alone

Only calls of clients and sweeps are measured. Everything else, the membership and the nodes
included, leaves the metrics as they are, and so do calls and sweeps until they end.

* `Activity.client?` — the kind of client call that an activity is;
* `begin_uncounted` — the start of an operation that is no client call;
* `stepActivity_uncounted`, `go_loop_swept` — the next event of whatever is no client call.
-/

namespace ReplicaRing

/-! ### Requests -/

namespace Cluster

variable (c : Cluster)

@[simp]
theorem metrics_report (events : List LogEvent) : (c.report events).metrics = c.metrics := rfl

@[simp]
theorem metrics_askHead (ahead : List Handle) (r : Request) (expires : Option Instant) :
    (c.askHead ahead r expires).2.metrics = c.metrics := by
  cases ahead <;> rfl

@[simp]
theorem metrics_receive (q : Inquiry) (r : Request) : (c.receive q r).2.metrics = c.metrics := by
  rw [receive]
  split
  · obtain ⟨listed, hlisted⟩ := Cluster.arrange_snd
      (c := { c with fleet := (c.fleet.conclude q.flight.target r q.flight.verdict).2.1 })
      r (c.fleet.conclude q.flight.target r q.flight.verdict).1
    simp only [Cluster.report, hlisted]
  · rfl

end Cluster

theorem ReadRun.step_metrics (run : ReadRun) (c : Cluster) :
    (run.step c).2.metrics = c.metrics := by
  rw [step]
  split
  · rfl
  · simp

theorem WipeRun.step_metrics (run : WipeRun) (c : Cluster) :
    (run.step c).2.metrics = c.metrics := by
  rw [step]
  split
  · rfl
  · simp

theorem SweepRun.step_metrics (run : SweepRun) (cancelled : Bool) (c : Cluster) :
    (run.step cancelled c).2.metrics = c.metrics := (run.step_meets cancelled c).2

/-- Metrics that a sweep may have been recorded in. -/
def Metrics.Swept (m m' : Metrics) : Prop := m' = m ∨ ∃ r, m' = m.recordSweep r

/-- The next event of a repair loop measures at most a sweep. -/
theorem LoopRun.step_swept (l : LoopRun) (c : Cluster) :
    c.metrics.Swept (l.step c).2.metrics := by
  cases hphase : l.loop.phase with
  | idle =>
    apply Or.inl
    simp only [step, hphase, Cluster.metrics_report]
  | stopped =>
    apply Or.inl
    simp only [step, hphase]
  | sweeping s =>
    cases hfinished : s.isFinished with
    | true =>
      refine .inr ⟨s.report, ?_⟩
      simp only [step, hphase, hfinished, if_true, Cluster.metrics_report, SweepRun.close]
    | false =>
      apply Or.inl
      simp only [step, hphase, hfinished, Bool.false_eq_true, if_false]
      exact SweepRun.step_metrics ⟨s, l.inquiry⟩ l.loop.signalled c

namespace Scenario

/-! ### Client calls -/

/-- The kind of an operation that is a client call. -/
def Op.client? : Op → Option ClientOp
  | .put _ _ _ => some .put
  | .delete _ _ => some .delete
  | .get _ _ => some .get
  | _ => none

namespace Activity

/-- The kind of a client call that has not been answered yet. -/
def client? : Activity → Option ClientOp
  | later _ op => op.client?
  | write run true => some run.change.op
  | read _ _ true => some .get
  | _ => none

/-- What is no client call becomes none. -/
theorem client?_of_settles {a : Activity} {c : Cluster} {p : Activity × Cluster}
    (h : Settles c a p) (ha : a.client? = none) : p.1.client? = none := by
  rcases h.outcome with he | ⟨t, x, he⟩
  · rw [he, ha]
  · rw [he]
    rfl

theorem ofWrite_metrics (c : Cluster) (run : Write) :
    (ofWrite c run false).2.metrics = c.metrics := by
  rw [ofWrite]
  split <;> rfl

theorem ofRead_metrics (c : Cluster) (run : ReadRun) (primary : Option NodeId) :
    (ofRead c run primary false).2.metrics = c.metrics := by
  rw [ofRead]
  split <;> rfl

theorem ofWipe_metrics (c : Cluster) (run : WipeRun) : (ofWipe c run).2.metrics = c.metrics := by
  rw [ofWipe]
  split
  · split <;> rfl
  · rfl

theorem ofSweep_swept (c : Cluster) (run : SweepRun) (cancelAt : Option Instant) :
    c.metrics.Swept (ofSweep c run cancelAt).2.metrics := by
  rw [ofSweep]
  split
  · exact .inr ⟨run.sweep.report, rfl⟩
  · exact .inl rfl

end Activity

namespace World

variable {w : World}

/-- Choosing nodes measures nothing. -/
theorem select_metrics {choice : Selection} {p : Placement} {c : Cluster}
    (h : w.select choice = .ok (p, c)) : c.metrics = w.cluster.metrics := by
  cases choice with
  | ofKey key =>
    rw [select] at h
    split at h
    · obtain ⟨-, rfl⟩ := Prod.mk.inj (Except.ok.inj h)
      rfl
    · cases h
  | atPosition position count =>
    rw [select] at h
    split at h
    · split at h
      · obtain ⟨-, rfl⟩ := Prod.mk.inj (Except.ok.inj h)
        rfl
      · cases h
    · cases h
  | nodes ids =>
    rw [select] at h
    split at h
    · obtain ⟨-, rfl⟩ := Prod.mk.inj (Except.ok.inj h)
      rfl
    · cases h

/-- An activity that is no client call, on a world whose metrics are the old ones. -/
structure Uncounted (w : World) (p : Activity × World) : Prop where
  client : p.1.client? = none
  metrics : p.2.cluster.metrics = w.cluster.metrics

theorem uncounted_reply (w : World) (x : Answer) : w.Uncounted (w.reply x) := ⟨rfl, rfl⟩

/-- **Operations of other kinds.** What is no client call starts nothing that is one. -/
theorem begin_uncounted (w : World) {op : Op} (hop : op.client? = none) :
    w.Uncounted (w.begin op) := by
  have hnode : ∀ (id : NodeId) {f : Handle → Activity × World}, (∀ h, w.Uncounted (f h)) →
      w.Uncounted (w.withNode id f) :=
    fun id _ hf => withNode_elim w.uncounted_reply id fun h _ => hf h
  cases hchange : op.isChange with
  | true =>
    have halters := w.begin_alters hchange
    obtain ⟨t, x, hanswered⟩ := halters.answered
    exact ⟨by rw [hanswered]; rfl, halters.metrics⟩
  | false =>
    rw [begin]
    split
    · cases op with
      | put key value timeout => exact absurd hop (Option.some_ne_none _)
      | delete key timeout => exact absurd hop (Option.some_ne_none _)
      | get key timeout => exact absurd hop (Option.some_ne_none _)
      | add | addAgain | drop | addRandom | dropRandom => cases hchange
      | clear =>
        let p := WipeRun.start w.cluster
        refine ⟨Activity.client?_of_settles (Activity.ofWipe_settles p.2 p.1) rfl, ?_⟩
        exact (Activity.ofWipe_metrics p.2 p.1).trans (Cluster.metrics_askHead ..)
      | placement choice probes =>
        exact withSelection_elim w.uncounted_reply choice fun p c hs => ⟨rfl, select_metrics hs⟩
      | writeTo choice change key timeout =>
        refine withSelection_elim w.uncounted_reply choice fun p c hs => ?_
        split
        · let q := Write.start c.env c.now timeout change key p c.fleet
          refine ⟨Activity.client?_of_settles
            (Activity.ofWrite_settles { c with fleet := q.2 } q.1 false) rfl, ?_⟩
          exact (Activity.ofWrite_metrics { c with fleet := q.2 } q.1).trans
            (select_metrics (c := c) hs)
        · exact ⟨rfl, select_metrics hs⟩
      | readFrom choice key timeout =>
        refine withSelection_elim w.uncounted_reply choice fun p c hs => ?_
        split
        · let q := ReadRun.start c key p timeout
          refine ⟨Activity.client?_of_settles
            (Activity.ofRead_settles q.2 q.1 (p.primary?.map (·.id)) false) rfl, ?_⟩
          exact (Activity.ofRead_metrics q.2 q.1 _).trans <|
            (Cluster.metrics_askHead ..).trans (select_metrics hs)
        · exact ⟨rfl, select_metrics hs⟩
      | stopRepair =>
        rw [beginChecked, stopRepair]
        cases w.held <;> exact ⟨rfl, rfl⟩
      | _ => first | exact ⟨rfl, rfl⟩ | exact hnode _ fun _ => ⟨rfl, rfl⟩
    · exact w.uncounted_reply _

/-- **Events of other kinds.** What is no client call stays none, and measures at most a sweep. -/
theorem stepActivity_uncounted (w : World) {a : Activity} (ha : a.client? = none) :
    (w.stepActivity a).1.client? = none ∧
      w.cluster.metrics.Swept (w.stepActivity a).2.cluster.metrics := by
  have huncounted : w.Uncounted (w.stepActivity a) → (w.stepActivity a).1.client? = none ∧
      w.cluster.metrics.Swept (w.stepActivity a).2.cluster.metrics :=
    fun h => ⟨h.client, .inl h.metrics⟩
  cases a with
  | later t op => exact huncounted (w.begin_uncounted ha)
  | write run client =>
    cases client with
    | true => exact absurd ha (Option.some_ne_none _)
    | false =>
      exact huncounted ⟨Activity.client?_of_settles (Activity.ofWrite_settles _ _ false) rfl,
        Activity.ofWrite_metrics _ _⟩
  | read run primary client =>
    cases client with
    | true => exact absurd ha (Option.some_ne_none _)
    | false =>
      exact huncounted ⟨Activity.client?_of_settles (Activity.ofRead_settles _ _ primary false) rfl,
        (Activity.ofRead_metrics _ _ primary).trans (run.step_metrics w.cluster)⟩
  | wipe run =>
    exact huncounted ⟨Activity.client?_of_settles (Activity.ofWipe_settles _ _) rfl,
      (Activity.ofWipe_metrics _ _).trans (run.step_metrics w.cluster)⟩
  | ask request q => exact huncounted ⟨rfl, w.cluster.metrics_receive q request⟩
  | sweep run cancelAt =>
    let p := run.step (cancelledBy cancelAt w.cluster.now) w.cluster
    have hswept := Activity.ofSweep_swept p.2 p.1 cancelAt
    rw [show p.2.metrics = w.cluster.metrics from run.step_metrics _ _] at hswept
    exact ⟨Activity.client?_of_settles (Activity.ofSweep_settles p.2 p.1 cancelAt) rfl, hswept⟩
  | settle stop loop => exact huncounted ⟨rfl, congrArg Cluster.metrics (w.hold_same loop).2.1⟩
  | _ => exact huncounted ⟨rfl, rfl⟩

/-- The turn of a repair loop measures at most a sweep. -/
theorem go_loop_swept (w : World) (i : Nat) :
    w.cluster.metrics.Swept (w.go (.loop i)).cluster.metrics := by
  cases hi : w.loops[i]? with
  | none =>
    rw [go_loop_none hi]
    exact .inl rfl
  | some l =>
    rw [go_loop_some hi]
    exact l.step_swept w.cluster

end World

end Scenario

end ReplicaRing
