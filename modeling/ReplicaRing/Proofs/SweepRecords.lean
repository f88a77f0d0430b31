import ReplicaRing.Proofs.RingChanges
import ReplicaRing.Proofs.SweepTrace

/-!
# Trace, report and metrics of a sweep

Whatever the nodes answer a sweep, it copies only what it has read from the source, to replicas that
it has found to lack it, and its report and the metrics count what is in its trace.

* `Event.Prepared`, `Event.Orderly` — what comes before a copy, and how often a source is read;
* `Stage.Traced` — what a sweep has been through at each stage, with one lemma for each kind of
  event;
* `Accords.meets`, `Course.agrees` — one event, and all of them;
* `Course.accords` — trace, report and metrics of every sweep agree;
* `Fair.follow_course` — every sweep of a world takes such a course.
-/

namespace ReplicaRing

/-! ### What comes before a copy -/

namespace Sweep.Event

variable {trace before : List Event} {e : Event} {source member : Handle} {key value : String}

/-- The last repair that has begun is that of a key of a node. -/
def Repairing (trace : List Event) (source : Handle) (key : String) : Prop :=
  .begins source key :: recent trace <:+ trace

/-- A replica has been asked for a key and has none. -/
def lack (source member : Handle) (key : String) : List Event :=
  [.sends source member (.get key), .hears source member (.get key) (.ok none)]

/-- The node whose key is repaired has been asked for its value. -/
def fetch (source : Handle) (key value : String) : List Event :=
  [.sends source source (.get key), .hears source source (.get key) (.ok (some value))]

/-- A copy to a replica may be sent: in the repair of the same key the replica has just been found
to lack it, but perhaps for the question to the source, which has returned the value. -/
structure Prepared (trace : List Event) (source member : Handle) (key value : String) : Prop where
  other : member.id ≠ source.id
  repairing : Repairing trace source key
  lacking : lack source member key <:+ recent trace ∨
    lack source member key ++ fetch source key value <:+ recent trace
  fetched : .hears source source (.get key) (.ok (some value)) ∈ recent trace

/-- A trace in order: every copy in it has been prepared, and in no repair has the source been asked
for its value twice. -/
structure Orderly (trace : List Event) : Prop where
  copies : ∀ before source member key value,
    before ++ [.sends source member (.set key value)] <+: trace →
      Prepared before source member key value
  reads : ∀ before, before <+: trace → (recent before).countP readsSource ≤ 1

theorem suffix_concat (h : before <:+ trace) (e : Event) : before ++ [e] <:+ trace ++ [e] := by
  obtain ⟨earlier, rfl⟩ := h
  exact ⟨earlier, (List.append_assoc ..).symm⟩

theorem recent_concat_of_not (he : e.isBegin = false) :
    recent (trace ++ [e]) = recent trace ++ [e] := by
  rw [recent_concat, he]
  rfl

/-- A repair that has begun is still the last one, unless another one begins. -/
theorem Repairing.concat (h : Repairing trace source key) (he : e.isBegin = false) :
    Repairing (trace ++ [e]) source key := by
  rw [Repairing, recent_concat_of_not he]
  exact suffix_concat h e

theorem repairing_begins (trace : List Event) (source : Handle) (key : String) :
    Repairing (trace ++ [.begins source key]) source key := by
  rw [Repairing, recent_concat]
  exact ⟨trace, rfl⟩

theorem orderly_nil : Orderly [] where
  copies before source member key value h := by
    have hlen := h.length_le
    rw [List.length_append, List.length_singleton, List.length_nil] at hlen
    omega
  reads before h := by
    rw [List.prefix_nil.1 h]
    exact Nat.zero_le 1

/-- One more event keeps a trace in order, if a copy has been prepared and the source has not been
read before. -/
theorem Orderly.concat (h : Orderly trace)
    (hcopy : ∀ source member key value, e = .sends source member (.set key value) →
      Prepared trace source member key value)
    (hread : e.readsSource = true → (recent trace).countP readsSource = 0) :
    Orderly (trace ++ [e]) where
  copies before source member key value hp := by
    rcases List.prefix_concat_iff.1 hp with heq | hp
    · obtain ⟨rfl, he⟩ := List.append_inj' heq rfl
      exact hcopy source member key value (List.singleton_inj.1 he).symm
    · exact h.copies before source member key value hp
  reads before hp := by
    rcases List.prefix_concat_iff.1 hp with rfl | hp
    · have hone := h.reads trace (List.prefix_refl trace)
      rw [recent_concat]
      split
      · exact Nat.zero_le 1
      · rw [List.countP_append, List.countP_singleton]
        split
        · next he => rw [hread he]
        · exact hone
    · exact h.reads before hp

end Sweep.Event

/-! ### Where a sweep stands in its trace -/

open Sweep (Event)

/-- The repair of a key has begun, and its source has been read just if its value is known. -/
structure KeyRepair.Traced (job : KeyRepair) (trace : List Event) : Prop where
  repairing : Event.Repairing trace job.source job.key
  unread : job.value = none → (Event.recent trace).countP Event.readsSource = 0
  fetched : ∀ value, job.value = some value →
    .hears job.source job.source (.get job.key) (.ok (some value)) ∈ Event.recent trace

/-- What a waiting sweep has been through, before it asks and after it has asked. -/
def Sweep.Waiting.Traced (asked : Bool) (trace : List Event) : Sweep.Waiting → Prop
  | listing _ => True
  | checking job member => job.Traced trace ∧
    (asked = true → [.sends job.source member (.get job.key)] <:+ Event.recent trace)
  | fetching job member => Event.Repairing trace job.source job.key ∧
    if asked then
      Event.lack job.source member job.key ++ [.sends job.source job.source (.get job.key)] <:+
        Event.recent trace
    else
      Event.lack job.source member job.key <:+ Event.recent trace ∧
        (Event.recent trace).countP Event.readsSource = 0
  | copying job member value => job.Traced trace ∧ job.value = some value ∧
    (asked = false → Event.Prepared trace job.source member job.key value)

/-- What a sweep has been through at a stage. -/
def Sweep.Stage.Traced (asked : Bool) (trace : List Event) : Sweep.Stage → Prop
  | .waiting w => w.AvoidsSource ∧ w.Traced asked trace
  | _ => True

theorem KeyRepair.Traced.concat {job : KeyRepair} {trace : List Event} {e : Event}
    (h : job.Traced trace) (hbegin : e.isBegin = false) (hread : e.readsSource = false) :
    job.Traced (trace ++ [e]) where
  repairing := h.repairing.concat hbegin
  unread hv := by
    rw [Event.recent_concat_of_not hbegin, List.countP_append, List.countP_singleton, h.unread hv,
      hread]
    rfl
  fetched value hv := by
    rw [Event.recent_concat_of_not hbegin]
    exact List.mem_append_left _ (h.fetched value hv)

/-- The next replica that is looked at is another node than the source. -/
theorem KeyRepair.Traced.next {job : KeyRepair} {trace : List Event} (h : job.Traced trace) :
    job.next.Traced false trace := by
  rw [KeyRepair.next]
  cases hd : job.ahead.dropWhile (·.id == job.source.id) with
  | nil => exact trivial
  | cons member rest =>
    have hmember : (member.id == job.source.id) = false := by
      have hnonempty : job.ahead.dropWhile (·.id == job.source.id) ≠ [] := by
        rw [hd]
        exact List.cons_ne_nil _ _
      have hhead := List.head_dropWhile_not (fun x : Handle => x.id == job.source.id) hnonempty
      simpa only [hd, List.head_cons] using hhead
    exact ⟨ne_of_beq_false hmember, ⟨h.repairing, h.unread, h.fetched⟩,
      fun ha => absurd ha Bool.false_ne_true⟩

/-- Asking is noted for a sweep that waits. -/
theorem Sweep.Waiting.Traced.asks {w : Sweep.Waiting} {trace : List Event}
    (havoids : w.AvoidsSource) (h : w.Traced false trace) :
    w.Traced true (trace ++ [.sends w.source w.target w.request]) := by
  have hrecent : Event.recent (trace ++ [.sends w.source w.target w.request]) =
      Event.recent trace ++ [.sends w.source w.target w.request] := Event.recent_concat_of_not rfl
  cases w with
  | listing source => exact trivial
  | checking job member =>
    refine ⟨h.1.concat rfl (beq_false_of_ne havoids), fun _ => ?_⟩
    rw [hrecent]
    exact List.suffix_append ..
  | fetching job member =>
    obtain ⟨hrepairing, hlack, -⟩ := h
    refine ⟨hrepairing.concat rfl, ?_⟩
    rw [if_pos rfl, hrecent]
    exact Event.suffix_concat hlack _
  | copying job member value =>
    exact ⟨h.1.concat rfl rfl, h.2.1, fun ha => absurd ha.symm Bool.false_ne_true⟩

/-- **Answers.** Whatever is answered, a sweep stands where its trace has led it. -/
theorem Sweep.Waiting.Traced.resume {w : Sweep.Waiting} {trace : List Event} {σ : Sweep}
    (havoids : w.AvoidsSource) (h : w.Traced true trace) (answer : w.request.Answer) :
    (σ.resume w answer).1.stage.Traced false
      (trace ++ [.hears w.source w.target w.request answer]) := by
  cases w with
  | listing source => cases answer <;> exact trivial
  | checking job member =>
    have htraced := h.1.concat (e := .hears job.source member (.get job.key) answer) rfl rfl
    rcases answer with e | _ | found
    · exact htraced.next
    · have hlack : Event.lack job.source member job.key <:+
          Event.recent (trace ++ [.hears job.source member (.get job.key) (.ok none)]) := by
        rw [Event.recent_concat_of_not rfl]
        exact Event.suffix_concat (h.2 rfl) _
      cases hv : job.value with
      | none =>
        simp only [Sweep.resume, hv]
        exact ⟨havoids, htraced.repairing, hlack, htraced.unread hv⟩
      | some value =>
        simp only [Sweep.resume, hv]
        exact ⟨havoids, htraced, hv, fun _ =>
          ⟨havoids, htraced.repairing, .inl hlack, htraced.fetched value hv⟩⟩
    · exact htraced.next
  | fetching job member =>
    obtain ⟨hrepairing, hasked⟩ := h
    rw [if_pos rfl] at hasked
    rcases answer with e | _ | value
    · exact trivial
    · exact trivial
    · let trace' := trace ++ [.hears job.source job.source (.get job.key) (.ok (some value))]
      have hrepairing' : Event.Repairing trace' job.source job.key := hrepairing.concat rfl
      have hrecent : Event.recent trace' = Event.recent trace ++
          [.hears job.source job.source (.get job.key) (.ok (some value))] :=
        Event.recent_concat_of_not rfl
      have hfetched : .hears job.source job.source (.get job.key) (.ok (some value)) ∈
          Event.recent trace' := by
        rw [hrecent]
        exact List.mem_append_right _ (List.mem_singleton_self _)
      have hlack : Event.lack job.source member job.key ++
          Event.fetch job.source job.key value <:+ Event.recent trace' := by
        rw [hrecent]
        exact Event.suffix_concat hasked _
      have hjob : KeyRepair.Traced { job with value := some value } trace' := by
        refine ⟨hrepairing', fun hv => absurd hv (Option.some_ne_none value), ?_⟩
        rintro v ⟨⟩
        exact hfetched
      exact ⟨havoids, hjob, rfl, fun _ => ⟨havoids, hrepairing', .inr hlack, hfetched⟩⟩
  | copying job member value =>
    have htraced := h.1.concat (e := .hears job.source member (.set job.key value) answer) rfl rfl
    cases answer <;> exact htraced.next

/-- A boundary leads a sweep on. -/
theorem Sweep.traced_proceed {σ : Sweep} {trace : List Event} (r : Ring) (cancelled : Bool)
    (hw : ∀ w, σ.stage ≠ .waiting w) :
    (σ.proceed r cancelled).1.stage.Traced false
      (trace ++ (σ.stage.begins? cancelled).toList) := by
  rcases Sweep.proceed_cases r cancelled hw with
    ⟨source, key, keys, hbegins, hproceed⟩ | ⟨hbegins, -, hlisting⟩
  · rw [hbegins, hproceed, Option.toList_some]
    have hrecent : Event.recent (trace ++ [.begins source key]) = [] := Event.recent_concat ..
    refine KeyRepair.Traced.next ⟨Event.repairing_begins trace source key, fun _ => ?_,
      fun v hv => absurd hv.symm (Option.some_ne_none v)⟩
    rw [hrecent]
    rfl
  · cases hst : (σ.proceed r cancelled).1.stage with
    | waiting w =>
      obtain ⟨source, rfl⟩ := hlisting w hst
      exact ⟨trivial, trivial⟩
    | betweenNodes => exact trivial
    | betweenKeys source keys => exact trivial
    | finished => exact trivial

namespace SweepRun

variable {m : Membership} {trace : List Event} {run run' : SweepRun} {seen : Option Event}

/-- A sweep and its trace agree. -/
structure Accords (trace : List Event) (run : SweepRun) : Prop where
  orderly : Event.Orderly trace
  traced : run.sweep.stage.Traced run.inquiry.isSome trace
  tally : run.sweep.report = Report.tally run.sweep.report.cancelled trace

/-- **One event.** A sweep and its trace go on to agree. -/
theorem Accords.meets (h : run.Accords trace) (hm : run.Meets seen run') :
    run'.Accords (trace ++ seen.toList) := by
  obtain ⟨horderly, htraced, htally⟩ := h
  cases hm with
  | asks w q waits idle =>
    rw [waits, idle] at htraced
    obtain ⟨havoids, htraced⟩ := htraced
    refine ⟨horderly.concat (fun source member key value he => ?_) fun hread => ?_, ?_, ?_⟩
    · cases w with
      | copying job member' value' =>
        cases he
        exact htraced.2.2 rfl
      | listing source' => cases he
      | checking job member' => cases he
      | fetching job member' => cases he
    · cases w with
      | fetching job member => exact htraced.2.2
      | checking job member => exact absurd (eq_of_beq hread) havoids
      | listing source => cases hread
      | copying job member value => cases hread
    · show run.sweep.stage.Traced true _
      rw [waits]
      exact ⟨havoids, htraced.asks havoids⟩
    · show run.sweep.report = _
      rw [Option.toList_some, Report.tally_concat, ← htally]
      rfl
  | hears w q answer waits asked =>
    rw [waits, asked] at htraced
    obtain ⟨havoids, htraced⟩ := htraced
    have hreport := Sweep.resume_report (σ := run.sweep) havoids answer
    refine ⟨horderly.concat (fun _ _ _ _ he => nomatch he) (fun hread => nomatch hread),
      htraced.resume havoids answer, ?_⟩
    show (run.sweep.resume w answer).1.report = _
    rw [Option.toList_some, Report.tally_concat, hreport]
    show run.sweep.report.note _ = (Report.tally run.sweep.report.cancelled trace).note _
    rw [← htally]
  | passes r cancelled between =>
    refine ⟨?_, Sweep.traced_proceed r cancelled between,
      Sweep.proceed_report htally r cancelled between⟩
    rcases Sweep.proceed_cases r cancelled between with
      ⟨source, key, keys, hbegins, -⟩ | ⟨hbegins, -⟩
    · rw [hbegins]
      exact horderly.concat (fun _ _ _ _ he => nomatch he) fun hread => nomatch hread
    · rw [hbegins, Option.toList_none, List.append_nil]
      exact horderly

/-- Every sweep agrees with its trace. -/
theorem Course.agrees (h : Course m trace run) : run.Accords trace := by
  induction h with
  | start => exact ⟨Event.orderly_nil, trivial, rfl⟩
  | event h meets ih => exact ih.meets meets

/-! ### The return of a sweep -/

/-- A sweep returns, to the client that has started it or to its repair loop. -/
inductive Returns (run : SweepRun) (c : Cluster) : Cluster → Prop
  | toClient (cancelAt : Option Instant) :
      Returns run c (Scenario.Activity.ofSweep c run cancelAt).2
  | toLoop (l : RepairLoop) (sweeping : l.phase = .sweeping run.sweep) :
      Returns run c (LoopRun.step ⟨l, run.inquiry⟩ c).2

/-- A sweep that returns at its end has been counted. -/
theorem Returns.metrics {c c' : Cluster} (h : run.Returns c c')
    (hfinished : run.sweep.isFinished = true) :
    c'.metrics = c.metrics.recordSweep run.sweep.report := by
  cases h with
  | toClient cancelAt =>
    rw [Scenario.Activity.ofSweep, if_pos hfinished]
    rfl
  | toLoop l sweeping =>
    simp only [LoopRun.step, sweeping, hfinished, if_true]
    rfl

/-- **Trace, report and metrics.** Whatever the nodes answer, however the ring changes and whenever
the sweep is told to stop: every copy has been prepared, no repair reads its source twice, the
report is the tally of the trace, and the metrics grow by the report just when the sweep returns. -/
theorem Course.accords (h : Course m trace run) :
    (∀ before source member key value,
      before ++ [.sends source member (.set key value)] <+: trace →
        Event.Prepared before source member key value) ∧
    (∀ before, before <+: trace → (Event.recent before).countP Event.readsSource ≤ 1) ∧
    run.sweep.report = Report.tally run.sweep.report.cancelled trace ∧
    (∀ cancelled c, (run.step cancelled c).2.metrics = c.metrics) ∧
    ∀ c c', run.sweep.isFinished = true → run.Returns c c' →
      (c'.metrics.read .repairCopies).toNat =
        ((c.metrics.read .repairCopies).toNat + trace.countP Event.isCopy) % 2 ^ 64 ∧
      (c'.metrics.read .repairInconsistencies).toNat =
        ((c.metrics.read .repairInconsistencies).toNat +
          trace.countP Event.isInconsistency) % 2 ^ 64 ∧
      (c'.metrics.read .repairSweeps).toNat = ((c.metrics.read .repairSweeps).toNat +
        if run.sweep.report.cancelled then 0 else 1) % 2 ^ 64 := by
  obtain ⟨horderly, -, htally⟩ := h.agrees
  refine ⟨horderly.copies, horderly.reads, htally,
    fun cancelled c => (step_meets run cancelled c).2, fun c c' hfinished hreturns => ?_⟩
  have hcopies : run.sweep.report.copies = trace.countP Event.isCopy :=
    congrArg Report.copies htally
  have hinconsistencies : run.sweep.report.inconsistencies = trace.countP Event.isInconsistency :=
    congrArg Report.inconsistencies htally
  have hgrows := Report.read_recordSweep c.metrics run.sweep.report
  rw [hreturns.metrics hfinished, ← hcopies, ← hinconsistencies]
  exact ⟨hgrows .repairCopies, hgrows .repairInconsistencies, hgrows .repairSweeps⟩

/-- Two replicas of every key: one holds a value and lists another key besides, the other one fails
to store anything. -/
def lossyPair : Cluster where
  fleet := ⟨#[{ id := ⟨10⟩, store := ⟨[("k", "v")]⟩, faults := .scripted [] ["ghost"] },
    { id := ⟨20⟩, faults := .scripted [{ on := .set, act := .timeout }] [] }]⟩
  ring := ⟨fun _ => 0, { replicaCount := 2 },
    ⟨⟨[(⟨10⟩, ⟨⟨10⟩, 0⟩), (⟨20⟩, ⟨⟨20⟩, 1⟩)]⟩, 0⟩⟩

/-- A sweep over the two nodes that is not told to stop, after so many events. -/
def lossySweep (n : Nat) : SweepRun × Cluster :=
  after (fun _ => false) (⟨.start lossyPair.ring.membership, none⟩, lossyPair) n

/-- What is seen of these events. -/
def lossyTrace (n : Nat) : List Event :=
  traceOf (fun _ => false) (⟨.start lossyPair.ring.membership, none⟩, lossyPair) n

/-- The copy that fails has been prepared, and the key that is not held is an inconsistency. -/
theorem accords_lossyPair :
    Course lossyPair.ring.membership (lossyTrace 21) (lossySweep 21).1 ∧
      (lossySweep 21).1.sweep.isFinished = true ∧
      Event.Prepared (lossyTrace 8) ⟨⟨10⟩, 0⟩ ⟨⟨20⟩, 1⟩ "k" "v" ∧
      (lossySweep 21).1.sweep.report =
        { nodesScanned := 2, keysScanned := 2, failures := 1, inconsistencies := 1 } ∧
      ((Scenario.Activity.ofSweep (lossySweep 21).2 (lossySweep 21).1 none).2.metrics.read
        .repairInconsistencies).toNat = 1 := by
  have hcourse := course_after lossyPair.ring.membership lossyPair (fun _ => false) 21
  have hfinished : (lossySweep 21).1.sweep.isFinished = true := by decide +kernel
  obtain ⟨hcopies, -, -, -, hreturns⟩ := hcourse.accords
  have hsent : lossyTrace 9 =
      lossyTrace 8 ++ [.sends ⟨⟨10⟩, 0⟩ ⟨⟨20⟩, 1⟩ (.set "k" "v")] := rfl
  have hprefix : lossyTrace 9 <+: lossyTrace 21 := traceOf_mono _ _ (by decide)
  have hgrown := (hreturns (lossySweep 21).2 _ hfinished (.toClient none)).2.1
  have hone : (((lossySweep 21).2.metrics.read .repairInconsistencies).toNat +
      (lossyTrace 21).countP Event.isInconsistency) % 2 ^ 64 = 1 := by decide +kernel
  exact ⟨hcourse, hfinished, hcopies _ _ _ _ _ (hsent ▸ hprefix), by decide +kernel,
    hgrown.trans hone⟩

end SweepRun

/-! ### Sweeps of a world -/

namespace Scenario.World

open Sweep (Event)

variable {w v : World} {i : Nat}

/-- What is seen of a sweep that a client has started, if it is the one that goes on. -/
def sweepSeen? (i : Nat) (v : World) : Turn → Option Event
  | .activity j =>
    if j = i then
      match v.activities[i]? with
      | some (.sweep run cancelAt) => run.seen? (cancelledBy cancelAt v.cluster.now) v.cluster
      | _ => none
    else none
  | .loop _ => none

theorem sweepSeen?_of_ne {x : Turn} (h : x ≠ .activity i) : sweepSeen? i v x = none := by
  cases x with
  | loop j => rfl
  | activity j => exact if_neg fun he => h (congrArg Turn.activity he)

/-- A sweep that a client has started is on its course, or its report has been returned. -/
def OnCourse (m : Membership) (cancelAt : Option Instant) (trace : List Event) (a : Activity) :
    Prop :=
  ∃ run, SweepRun.Course m trace run ∧ (a = .sweep run cancelAt ∨
    run.sweep.isFinished = true ∧ ∃ t told, a = .answered t (.report run.sweep.report told))

/-- The turn of a sweep that a client has started is the next event of its course. -/
theorem OnCourse.turn {m : Membership} {cancelAt : Option Instant} {trace : List Event}
    {a : Activity} (h : OnCourse m cancelAt trace a) (hi : v.activities[i]? = some a) :
    OnCourse m cancelAt (trace ++ (sweepSeen? i v (.activity i)).toList) (v.stepActivity a).1 := by
  obtain ⟨run, hcourse, rfl | ⟨hfinished, t, told, rfl⟩⟩ := h
  · let p := run.step (cancelledBy cancelAt v.cluster.now) v.cluster
    have hmeets := (run.step_meets (cancelledBy cancelAt v.cluster.now) v.cluster).1
    have hseen : sweepSeen? i v (.activity i) =
        run.seen? (cancelledBy cancelAt v.cluster.now) v.cluster := by
      rw [sweepSeen?, if_pos rfl, hi]
    have hstep : v.stepActivity (.sweep run cancelAt) =
        v.started (Activity.ofSweep p.2 p.1 cancelAt) := rfl
    refine ⟨p.1, hseen ▸ hcourse.event hmeets, ?_⟩
    rw [hstep, started, Activity.ofSweep]
    split
    · next hfinished => exact .inr ⟨hfinished, _, _, rfl⟩
    · exact .inl rfl
  · have hseen : sweepSeen? i v (.activity i) = none := by
      rw [sweepSeen?, if_pos rfl, hi]
    rw [hseen, Option.toList_none, List.append_nil]
    exact ⟨run, hcourse, .inr ⟨hfinished, t, told, rfl⟩⟩

/-- **Sweeps of a world.** Whoever else is at work, a sweep that a client has started takes its
course, and what it returns is the report of that course. -/
theorem Fair.follow_course (hw : w.Fair Operation.never) {m : Membership}
    {cancelAt : Option Instant}
    (hi : w.activities[i]? = some (.sweep { sweep := .start m } cancelAt))
    (turns : List (Instant × Turn)) :
    ∃ a, (w.follow turns).activities[i]? = some a ∧
      OnCourse m cancelAt (w.trace (sweepSeen? i) turns) a := by
  refine hw.follow_any (Q := fun past => ∃ a, (w.follow past).activities[i]? = some a ∧
    OnCourse m cancelAt (w.trace (sweepSeen? i) past) a) ⟨_, hi, _, .start, .inl rfl⟩ ?_
  rintro past t x v - rfl ⟨a, ha, hcourse⟩ hfair hturned
  rw [follow_concat, trace_concat]
  have hbefore : ((w.follow past).advanceTo t).activities[i]? = some a := ha
  by_cases hx : x = .activity i
  · subst hx
    have hadv := stepActivity_advances hfair (hfair.activities i a hbefore) a.candid_never
    have hlt : i < ((w.follow past).advanceTo t).activities.size :=
      (Array.getElem?_eq_some_iff.1 hbefore).1
    refine ⟨_, ?_, hcourse.turn hbefore⟩
    rw [go_activity_some hbefore, hadv.activities, Array.getElem?_setIfInBounds_self_of_lt hlt]
  · refine ⟨a, (hturned.activities i hx).trans hbefore, ?_⟩
    rw [sweepSeen?_of_ne hx, Option.toList_none, List.append_nil]
    exact hcourse

end Scenario.World

end ReplicaRing
