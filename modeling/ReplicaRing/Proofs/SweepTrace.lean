import Mathlib.Data.List.DropRight
import ReplicaRing.Proofs.SweepEvents

/-!
# Traces of sweeps

The requests of a sweep and their answers are a trace. The nodes asked may answer anything, the ring
may change and the sweep may be told to stop at any time.

* `Sweep.Event`, `SweepRun.seen?` — what is seen of an event of a sweep;
* `SweepRun.Meets`, `SweepRun.Course` — an event with any answer, and all traces of such events;
* `SweepRun.step_meets` — the next event of a sweep is one of these;
* `Report.tally`, `Report.note` — the report that a trace amounts to, and one more event;
* `Sweep.proceed_cases` — what is seen and what is counted at a boundary;
* `resume_report`, `proceed_report` — a sweep reports every event for what it is;
* `SweepRun.after`, `SweepRun.traceOf` — a sweep that runs alone, and its trace.
-/

namespace ReplicaRing

/-! ### Events -/

namespace Sweep

/-- The node whose keys are listed or repaired. -/
def Waiting.source : Waiting → Handle
  | listing source => source
  | checking job _ => job.source
  | fetching job _ => job.source
  | copying job _ _ => job.source

/-- What is seen of a sweep, with the node whose keys are listed or repaired. -/
inductive Event where
  /-- The repair of a key begins. -/
  | begins (source : Handle) (key : String)
  /-- A node is asked. -/
  | sends (source target : Handle) (request : Request)
  /-- It has answered, or its time was up. -/
  | hears (source target : Handle) (request : Request) (answer : request.Answer)

namespace Event

/-- The repair of a key begins. -/
def isBegin : Event → Bool
  | begins _ _ => true
  | _ => false

/-- The node whose key is repaired is asked for its value. -/
def readsSource : Event → Bool
  | sends source target (.get _) => target.id == source.id
  | _ => false

/-- A node has listed its keys. -/
def isListing : Event → Bool
  | hears _ _ .keys (.ok _) => true
  | _ => false

/-- A node has stored a copy. -/
def isCopy : Event → Bool
  | hears _ _ (.set _ _) (.ok _) => true
  | _ => false

/-- A request has failed or timed out. -/
def isFailure : Event → Bool
  | hears _ _ _ (.error _) => true
  | _ => false

/-- The node that listed a key does not hold it. -/
def isInconsistency : Event → Bool
  | hears source target (.get _) (.ok none) => target.id == source.id
  | _ => false

/-- The events since the repair of a key began. -/
def recent (trace : List Event) : List Event := trace.rtakeWhile fun e => !e.isBegin

theorem recent_concat (trace : List Event) (e : Event) :
    recent (trace ++ [e]) = if e.isBegin then [] else recent trace ++ [e] := by
  rw [recent, List.rtakeWhile_concat]
  cases e.isBegin <;> rfl

end Event

/-- What is seen at a boundary: the repair of the next key begins. -/
def Stage.begins? (cancelled : Bool) : Stage → Option Event
  | .betweenKeys source (key :: _) => if cancelled then none else some (.begins source key)
  | _ => none

end Sweep

/-! ### Courses -/

namespace SweepRun

open Sweep (Event)

/-- What is seen of the next event of a sweep. -/
def seen? (cancelled : Bool) (c : Cluster) (run : SweepRun) : Option Event :=
  match run.sweep.stage, run.inquiry with
  | .waiting w, none => some (.sends w.source w.target w.request)
  | .waiting w, some q =>
    some (.hears w.source w.target w.request (heard w (c.receive q w.request).1))
  | stage, _ => stage.begins? cancelled

/-- An event of a sweep, and what is seen of it. Any answer may come, the ring may have become any
other one, and the sweep may have been told to stop. -/
inductive Meets (run : SweepRun) : Option Event → SweepRun → Prop
  | asks (w : Sweep.Waiting) (q : Inquiry) (waits : run.sweep.stage = .waiting w)
      (idle : run.inquiry = none) :
      Meets run (some (.sends w.source w.target w.request)) { run with inquiry := some q }
  | hears (w : Sweep.Waiting) (q : Inquiry) (answer : w.request.Answer)
      (waits : run.sweep.stage = .waiting w) (asked : run.inquiry = some q) :
      Meets run (some (.hears w.source w.target w.request answer))
        ⟨(run.sweep.resume w answer).1, none⟩
  | passes (r : Ring) (cancelled : Bool) (between : ∀ w, run.sweep.stage ≠ .waiting w) :
      Meets run (run.sweep.stage.begins? cancelled) ⟨(run.sweep.proceed r cancelled).1, none⟩

/-- The sweeps over the nodes of a membership, with all that has been seen of them. -/
inductive Course (m : Membership) : List Event → SweepRun → Prop
  | start : Course m [] ⟨.start m, none⟩
  | event {trace : List Event} {run run' : SweepRun} {seen : Option Event}
      (h : Course m trace run) (meets : run.Meets seen run') :
      Course m (trace ++ seen.toList) run'

/-- **Steps.** The next event of a sweep is one of these, and it counts nothing yet. -/
theorem step_meets (run : SweepRun) (cancelled : Bool) (c : Cluster) :
    run.Meets (run.seen? cancelled c) (run.step cancelled c).1 ∧
      (run.step cancelled c).2.metrics = c.metrics := by
  by_cases hw : ∃ w, run.sweep.stage = .waiting w
  · obtain ⟨w, hw⟩ := hw
    cases hq : run.inquiry with
    | none =>
      simp only [seen?, step, hw, hq]
      exact ⟨.asks w _ hw hq, rfl⟩
    | some q =>
      simp only [seen?, step, hw, hq]
      refine ⟨.hears w q _ hw hq, ?_⟩
      show (c.receive q w.request).2.metrics = c.metrics
      rw [Cluster.receive]
      split
      · obtain ⟨listed, hlisted⟩ := Cluster.arrange_snd
          (c := { c with
            fleet := (c.fleet.conclude q.flight.target w.request q.flight.verdict).2.1 })
          w.request (c.fleet.conclude q.flight.target w.request q.flight.verdict).1
        simp only [Cluster.report, hlisted]
      · rfl
  · have hboundary := not_exists.1 hw
    have hseen : run.seen? cancelled c = run.sweep.stage.begins? cancelled := by
      rw [seen?]
      split
      · next w hw' _ => exact absurd hw' (hboundary w)
      · next w q hw' _ => exact absurd hw' (hboundary w)
      · rfl
    have hstep : run.step cancelled c = (⟨(run.sweep.proceed c.ring cancelled).1, none⟩,
        c.report (run.sweep.proceed c.ring cancelled).2) := by
      rw [step]
      split
      · next w hw' => exact absurd hw' (hboundary w)
      · rfl
    rw [hseen, hstep]
    exact ⟨.passes c.ring cancelled hboundary, rfl⟩

end SweepRun

/-! ### Tallies -/

namespace Report

open Sweep (Event)

/-- The report that a trace amounts to. -/
def tally (cancelled : Bool) (trace : List Event) : Report where
  nodesScanned := trace.countP Event.isListing
  keysScanned := trace.countP Event.isBegin
  copies := trace.countP Event.isCopy
  failures := trace.countP Event.isFailure
  inconsistencies := trace.countP Event.isInconsistency
  cancelled := cancelled

/-- A report with one more event. -/
def note (r : Report) (e : Event) : Report where
  nodesScanned := r.nodesScanned + e.isListing.toNat
  keysScanned := r.keysScanned + e.isBegin.toNat
  copies := r.copies + e.isCopy.toNat
  failures := r.failures + e.isFailure.toNat
  inconsistencies := r.inconsistencies + e.isInconsistency.toNat
  cancelled := r.cancelled

theorem tally_concat (cancelled : Bool) (trace : List Event) (e : Event) :
    tally cancelled (trace ++ [e]) = (tally cancelled trace).note e := by
  have hcount : ∀ p : Event → Bool, (trace ++ [e]).countP p = trace.countP p + (p e).toNat := by
    intro p
    rw [List.countP_append, List.countP_singleton]
    cases p e <;> rfl
  simp only [tally, note, hcount]

/-- What a sweep adds to a counter in the end. -/
def growth (r : Report) : Counter → Nat
  | .repairCopies => r.copies
  | .repairInconsistencies => r.inconsistencies
  | .repairSweeps => if r.cancelled then 0 else 1
  | _ => 0

/-- Every counter grows as a report says, up to where it wraps. -/
theorem read_recordSweep (m : Metrics) (r : Report) (counter : Counter) :
    ((m.recordSweep r).read counter).toNat =
      ((m.read counter).toNat + r.growth counter) % 2 ^ 64 := by
  have hwrap : ∀ a : UInt64, a.toNat % 2 ^ 64 = a.toNat :=
    fun a => Nat.mod_eq_of_lt a.toNat_lt
  have hadd : ∀ (a : UInt64) (n : Nat), (a + UInt64.ofNat n).toNat = (a.toNat + n) % 2 ^ 64 := by
    intro a n
    rw [UInt64.toNat_add, UInt64.toNat_ofNat', Nat.add_mod_mod]
  cases hcancelled : r.cancelled with
  | true =>
    simp only [Metrics.recordSweep, hcancelled, if_true]
    cases counter <;> simp only [Metrics.add, Metrics.read, growth, hcancelled, if_true, hadd,
      Nat.add_zero, hwrap]
  | false =>
    simp only [Metrics.recordSweep, hcancelled, Bool.false_eq_true, if_false]
    cases counter <;> simp only [Metrics.add, Metrics.read, growth, hcancelled, Bool.false_eq_true,
      if_false, hadd, Nat.add_zero, hwrap]
    exact hadd _ 1

end Report

namespace Sweep

variable {σ : Sweep} {w : Waiting}

/-- Replicas that are looked at are others than the node whose key is repaired. -/
def Waiting.AvoidsSource : Waiting → Prop
  | listing _ => True
  | checking job member => member.id ≠ job.source.id
  | fetching job member => member.id ≠ job.source.id
  | copying job member _ => member.id ≠ job.source.id

/-- An answer is counted for what it is. -/
theorem resume_report (h : w.AvoidsSource) (answer : w.request.Answer) :
    (σ.resume w answer).1.report =
      σ.report.note (.hears w.source w.target w.request answer) := by
  cases w with
  | listing source => cases answer <;> rfl
  | checking job member =>
    have hne : (member.id == job.source.id) = false := beq_false_of_ne h
    rcases answer with e | _ | value
    · rfl
    · have hsame : σ.report =
          σ.report.note (.hears job.source member (.get job.key) (.ok none)) := by
        simp only [Report.note, Event.isListing, Event.isBegin, Event.isCopy, Event.isFailure,
          Event.isInconsistency, hne, Bool.toNat_false, Nat.add_zero]
      rw [resume]
      split <;> exact hsame
    · rfl
  | fetching job member =>
    have heq : (job.source.id == job.source.id) = true := beq_self_eq_true _
    rcases answer with e | _ | value
    · rfl
    · show { σ.report with inconsistencies := σ.report.inconsistencies + 1 } =
        σ.report.note (.hears job.source job.source (.get job.key) (.ok none))
      simp only [Report.note, Event.isListing, Event.isBegin, Event.isCopy, Event.isFailure,
        Event.isInconsistency, heq, Bool.toNat_false, Bool.toNat_true, Nat.add_zero]
    · rfl
  | copying job member value => cases answer <;> rfl

/-- At a boundary the repair of a key begins, or else nothing is seen and nothing is counted, and
the sweep asks at most for a listing next. -/
theorem proceed_cases (r : Ring) (cancelled : Bool) (hw : ∀ w, σ.stage ≠ .waiting w) :
    (∃ source key keys, σ.stage.begins? cancelled = some (.begins source key) ∧
      (σ.proceed r cancelled).1 = (σ.repair r source key keys).1) ∨
    σ.stage.begins? cancelled = none ∧
      (∃ c, (σ.proceed r cancelled).1.report = { σ.report with cancelled := c }) ∧
      ∀ w, (σ.proceed r cancelled).1.stage = .waiting w → ∃ source, w = .listing source := by
  cases hst : σ.stage with
  | betweenNodes =>
    refine .inr ⟨rfl, ?_⟩
    cases hsrc : σ.sources with
    | nil =>
      simp only [proceed, hst, hsrc]
      exact ⟨⟨_, rfl⟩, fun w hwait => Stage.noConfusion hwait⟩
    | cons source rest =>
      cases cancelled with
      | true =>
        simp only [proceed, hst, hsrc, if_true]
        exact ⟨⟨true, rfl⟩, fun w hwait => Stage.noConfusion hwait⟩
      | false =>
        simp only [proceed, hst, hsrc, Bool.false_eq_true, if_false, visit]
        split
        · exact ⟨⟨_, rfl⟩, fun w hwait => ⟨source, (Stage.waiting.inj hwait).symm⟩⟩
        · exact ⟨⟨_, rfl⟩, fun w hwait => Stage.noConfusion hwait⟩
  | betweenKeys source keys =>
    cases keys with
    | nil =>
      simp only [proceed, hst]
      exact .inr ⟨rfl, ⟨_, rfl⟩, fun w hwait => Stage.noConfusion hwait⟩
    | cons key keys =>
      cases cancelled with
      | true =>
        simp only [proceed, hst, if_true]
        exact .inr ⟨rfl, ⟨true, rfl⟩, fun w hwait => Stage.noConfusion hwait⟩
      | false =>
        simp only [proceed, hst, Bool.false_eq_true, if_false]
        exact .inl ⟨source, key, keys, rfl, rfl⟩
  | waiting w => exact absurd hst (hw w)
  | finished =>
    simp only [proceed, hst]
    exact .inr ⟨rfl, ⟨_, rfl⟩, fun w hwait => Stage.noConfusion hwait⟩

/-- The report still amounts to the trace after a boundary. -/
theorem proceed_report {trace : List Event} (h : σ.report = Report.tally σ.report.cancelled trace)
    (r : Ring) (cancelled : Bool) (hw : ∀ w, σ.stage ≠ .waiting w) :
    (σ.proceed r cancelled).1.report = Report.tally (σ.proceed r cancelled).1.report.cancelled
      (trace ++ (σ.stage.begins? cancelled).toList) := by
  rcases proceed_cases r cancelled hw with
    ⟨source, key, keys, hbegins, hproceed⟩ | ⟨hbegins, ⟨c, hreport⟩, -⟩
  · rw [hbegins, hproceed, Option.toList_some, Report.tally_concat]
    show { σ.report with keysScanned := σ.report.keysScanned + 1 } =
      (Report.tally σ.report.cancelled trace).note (.begins source key)
    rw [← h]
    rfl
  · rw [hbegins, hreport, Option.toList_none, List.append_nil]
    show { σ.report with cancelled := c } = Report.tally c trace
    rw [h]
    rfl

end Sweep

namespace SweepRun

open Sweep (Event)

/-! ### Sweeps that run alone -/

/-- The clock goes on to the next event of a sweep, which then happens; the sweep has been told to
stop by then or not. -/
def tickTold (told : Bool) (p : SweepRun × Cluster) : SweepRun × Cluster :=
  p.1.step told { p.2 with now := max p.2.now (p.1.wake p.2.now) }

/-- What is seen of that event. -/
def tickSeen (told : Bool) (p : SweepRun × Cluster) : List Event :=
  (p.1.seen? told { p.2 with now := max p.2.now (p.1.wake p.2.now) }).toList

/-- A sweep after so many events; `told` says at which of them it has been told to stop. -/
def after (told : Nat → Bool) (p : SweepRun × Cluster) : Nat → SweepRun × Cluster
  | 0 => p
  | n + 1 => tickTold (told n) (after told p n)

/-- What is seen of so many events. -/
def traceOf (told : Nat → Bool) (p : SweepRun × Cluster) : Nat → List Event
  | 0 => []
  | n + 1 => traceOf told p n ++ tickSeen (told n) (after told p n)

theorem traceOf_mono (told : Nat → Bool) (p : SweepRun × Cluster) {n n' : Nat} (h : n ≤ n') :
    traceOf told p n <+: traceOf told p n' := by
  induction h with
  | refl => exact List.prefix_refl _
  | step h ih => exact ih.trans (List.prefix_append _ _)

/-- A sweep that runs alone takes its course. -/
theorem course_after (m : Membership) (c : Cluster) (told : Nat → Bool) (n : Nat) :
    Course m (traceOf told (⟨.start m, none⟩, c) n) (after told (⟨.start m, none⟩, c) n).1 := by
  induction n with
  | zero => exact .start
  | succ n ih => exact ih.event (step_meets _ _ _).1

end SweepRun

end ReplicaRing
