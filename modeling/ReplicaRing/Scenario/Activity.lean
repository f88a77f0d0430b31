import ReplicaRing.Scenario.Step

/-!
# Activities of a scenario

* `Activity` — an operation that has been started, or is about to be, or has been answered;
* `Step.activities` — the activities of a step;
* `Activity.wake?` — when it goes on;
* `Activity.ofWrite`, `ofRead`, `ofWipe`, `ofSweep` — the activity of an operation under way, which
  is answered as soon as the operation is done.
-/

namespace ReplicaRing.Scenario

/-- An operation in the course of a scenario. -/
inductive Activity where
  /-- It starts at a later time. -/
  | later (start : Instant) (op : Op)
  /-- A write, of a client if `client` is set and else of a placement alone. -/
  | write (run : Write) (client : Bool)
  | read (run : ReadRun) (primary : Option NodeId) (client : Bool)
  | wipe (run : WipeRun)
  | ask (request : Request) (inquiry : Inquiry)
  | sweep (run : SweepRun) (cancelAt : Option Instant)
  | pause (stop : Instant)
  /-- It lets a new repair loop run for a while before that loop is the one to stop. -/
  | settle (stop : Instant) (loop : Nat)
  /-- It waits until a repair loop has stopped. -/
  | awaitStop (loop : Nat)
  | answered (time : Instant) (answer : Answer)
  deriving Repr

namespace Activity

/-- An answer that is there at once. -/
def now (c : Cluster) (a : Answer) : Activity := .answered c.now a

/-- When an activity goes on, unless it waits for a loop or has been answered. -/
def wake? (now : Instant) (loops : Array LoopRun) : Activity → Option Instant
  | later start _ => some start
  | write run _ => some run.wake
  | read run _ _ => some (run.inquiry.elim now Inquiry.wake)
  | wipe run => some (run.inquiry.elim now Inquiry.wake)
  | ask _ q => some q.wake
  | sweep run _ => some (run.wake now)
  | pause stop => some stop
  | settle stop _ => some stop
  | awaitStop i => if (loops[i]?).all fun l => l.loop.isStopped then some now else none
  | answered _ _ => none

/-- Whether an activity has been answered. -/
def isAnswered : Activity → Bool
  | answered _ _ => true
  | _ => false

end Activity

mutual

/-- The activities of a step that starts at a time, in the order in which it names them. No steps
side by side are a pause that ends at once. -/
def Step.activities (timer : Timer) (start : Instant) : Step → List Activity
  | .single op => [.later start op]
  | .parallel [] => [.pause start]
  | .parallel (t :: tasks) => tasksActivities timer start (t :: tasks)

/-- The activities of steps side by side. -/
def tasksActivities (timer : Timer) (start : Instant) : List (Duration × Step) → List Activity
  | [] => []
  | (after, s) :: tasks =>
    s.activities timer (timer.after start after) ++ tasksActivities timer start tasks

end

/-- A write that is finished, or an activity that waits for it. -/
def Activity.ofWrite (c : Cluster) (w : Write) (client : Bool) : Activity × Cluster :=
  if w.isDone then
    if client then
      let c := (c.report (w.outcome.events w.change.op w.key)).endOp w.change.op w.outcome.misses
        w.started
      let answer := match w.outcome.settle c.ring.options w.key (.ofMillis (c.now - w.started)) with
        | .ok outcome => Answer.written outcome
        | .error e => .ringError e
      (.now c answer, c)
    else (.now c (.fanOut w.outcome), c)
  else (.write w client, c)

/-- A read that is finished, or an activity that waits for it. -/
def Activity.ofRead (c : Cluster) (run : ReadRun) (primary : Option NodeId) (client : Bool) :
    Activity × Cluster :=
  if run.read.isDone then
    let outcome := run.read.outcome
    if client then
      let c := (c.report (outcome.events run.read.key primary)).endOp .get outcome.misses
        run.started
      let elapsed := Duration.ofMillis (c.now - run.started)
      let answer := match outcome.settle c.ring.options run.read.key elapsed with
        | .ok value => Answer.value value
        | .error e => .ringError e
      (.now c answer, c)
    else (.now c (.readOutcome outcome), c)
  else (.read run primary client, c)

/-- A wipe that is finished, or an activity that waits for it. -/
def Activity.ofWipe (c : Cluster) (run : WipeRun) : Activity × Cluster :=
  if run.wipe.isDone then
    match run.wipe.settle with
    | .ok () => (.now c .done, c)
    | .error e => (.now c (.ringError e), c)
  else (.wipe run, c)

/-- Whether a sweep with a time of cancellation has been told to stop. -/
def cancelledBy (cancelAt : Option Instant) (now : Instant) : Bool := cancelAt.any (· ≤ now)

/-- A sweep that is finished, or an activity that waits for it. -/
def Activity.ofSweep (c : Cluster) (run : SweepRun) (cancelAt : Option Instant) :
    Activity × Cluster :=
  if run.sweep.isFinished then
    let c := SweepRun.close run.sweep.report c
    (.now c (.report run.sweep.report (cancelAt.map fun t => t ≤ c.now)), c)
  else (.sweep run cancelAt, c)

end ReplicaRing.Scenario
