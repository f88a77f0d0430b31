import ReplicaRing.Scenario.World

/-!
# The course of a scenario

Time passes from event to event: of all that wait for a point in time, the one with the earliest
goes on.

* `World.stepActivity`, `World.stepLoop` — the next event of an activity or of a repair loop;
* `World.step?` — the next event of all;
* `World.proceed`, `World.drain` — event after event, until every activity has been answered;
* `Scenario`, `Scenario.run` — nodes, a ring and steps, and the transcript of these steps.
-/

namespace ReplicaRing.Scenario

namespace World

/-- The next event of an activity that is awake. -/
def stepActivity (w : World) : Activity → Activity × World
  | .later _ op => w.begin op
  | .write run client =>
    let (run, fleet, events) := run.step w.cluster.fleet
    w.started (Activity.ofWrite ({ w.cluster with fleet := fleet }.report events) run client)
  | .read run primary client =>
    let (run, c) := run.step w.cluster
    w.started (Activity.ofRead c run primary client)
  | .wipe run =>
    let (run, c) := run.step w.cluster
    w.started (Activity.ofWipe c run)
  | .ask request q =>
    let (answer?, c) := w.cluster.receive q request
    let answer := answer?.getD (.error (.timeout q.flight.target.id))
    w.answer c (.ofRequest request answer)
  | .sweep run cancelAt =>
    let (run, c) := run.step (cancelledBy cancelAt w.cluster.now) w.cluster
    w.started (Activity.ofSweep c run cancelAt)
  | .pause _ => w.reply .done
  | .settle _ loop => (w.hold loop).reply .done
  | .awaitStop _ => w.reply .done
  | .answered time a => (.answered time a, w)

/-- The next event of a repair loop. -/
def stepLoop (w : World) (run : LoopRun) : LoopRun × World :=
  let (run, c) := run.step w.cluster
  (run, { w with cluster := c })

/-- Who goes on next. -/
inductive Turn where
  | activity (index : Nat)
  | loop (index : Nat)
  deriving Repr

/-- The earliest of two wake-ups, the first one if they are at the same time. -/
def earlier (a : Option (Instant × Turn)) (b : Instant × Turn) : Option (Instant × Turn) :=
  match a with
  | some a => if b.1 < a.1 then some b else some a
  | none => some b

/-- Everybody who waits for a point in time, with that time. -/
def turns (w : World) : List (Instant × Turn) :=
  let now := w.cluster.now
  (w.activities.toList.zipIdx.filterMap fun e =>
      (e.1.wake? now w.loops).map fun t => (t, Turn.activity e.2)) ++
    w.loops.toList.zipIdx.filterMap fun e => (e.1.wake? now).map fun t => (t, Turn.loop e.2)

/-- Who goes on next, and when. -/
def nextTurn? (w : World) : Option (Instant × Turn) := w.turns.foldl earlier none

/-- Let time pass up to a wake-up. -/
def advanceTo (w : World) (t : Instant) : World :=
  { w with cluster := { w.cluster with now := max w.cluster.now t } }

/-- The next event of all, if anybody waits for a point in time. -/
def step? (w : World) : Option World := do
  let (t, turn) ← w.nextTurn?
  let w := w.advanceTo t
  match turn with
  | .activity i =>
    let activity ← w.activities[i]?
    let (activity, w) := w.stepActivity activity
    return { w with activities := w.activities.setIfInBounds i activity }
  | .loop i =>
    let run ← w.loops[i]?
    let (run, w) := w.stepLoop run
    return { w with loops := w.loops.setIfInBounds i run }

/-- Whether every activity has been answered. -/
def isIdle (w : World) : Bool := w.activities.all Activity.isAnswered

instance : Nonempty World := ⟨{ cluster := { fleet := {}, ring := ⟨fun _ => 0, {}, {}⟩ } }⟩

/-- The world after the next event, or the world in the end: when every activity has been answered,
or when nobody waits for a point in time any more. -/
def proceed (w : World) : World ⊕ World :=
  if w.isIdle then .inr w
  else
    match w.step? with
    | some w => .inl w
    | none => .inr w

/-- Event after event, up to the end. -/
def drain (w : World) : World := Id.run (repeatM proceed w)

theorem drain_eq (w : World) :
    w.drain = match w.proceed with
      | .inl w => w.drain
      | .inr w => w := by
  have hstep : Id.run (repeatM proceed w) = Id.run (repeatM.body proceed (repeatM proceed) w) :=
    congrArg Id.run (repeatM_eq_of_monadTail w)
  rw [drain, hstep, repeatM.body]
  cases w.proceed <;> rfl

/-! ### Steps -/

/-- Take the log of the world, sorted by its lines. -/
def takeLog (w : World) : List String × World :=
  ((w.cluster.log.toList.map LogEvent.render).mergeSort fun a b => a ≤ b,
    { w with cluster := { w.cluster with log := #[] } })

/-- Run activities until all have been answered. -/
def perform (w : World) (activities : List Activity) : List Activity × World :=
  let w := drain { w with activities := activities.toArray }
  (w.activities.toList, { w with activities := #[] })

end World

/-- When an activity was answered, and how. -/
def Activity.result (w : World) : Activity → Instant × Answer
  | .answered time a => (time, a)
  | _ => (w.cluster.now, .rejected "no answer")

/-- The result of a step: one answer, or the results of several steps with their times. -/
inductive Result where
  | one (answer : Answer)
  | many (results : List (Instant × Result))
  deriving Repr

/-- What the activities of a step came to, and the results of the activities behind them. -/
structure Gathered (α : Type) where
  outcome : α
  rest : List (Instant × Answer)

/-- When the last of several results was there. -/
def lastTime (results : List (Instant × Result)) : Instant :=
  (results.map Prod.fst).foldl max 0

mutual

/-- The result of a step, and when it was there, from the results of its activities. -/
def Step.gather : Step → List (Instant × Answer) → Gathered (Instant × Result)
  | .parallel [], (time, _) :: rest => ⟨(time, .many []), rest⟩
  | .parallel (t :: tasks), answers =>
    let g := gatherTasks (t :: tasks) answers
    ⟨(lastTime g.outcome, .many g.outcome), g.rest⟩
  | .single _, (time, a) :: rest => ⟨(time, .one a), rest⟩
  | _, [] => ⟨(0, .one (.rejected "no answer")), []⟩

/-- The results of steps side by side. -/
def gatherTasks : List (Duration × Step) → List (Instant × Answer) →
    Gathered (List (Instant × Result))
  | [], answers => ⟨[], answers⟩
  | (_, s) :: tasks, answers =>
    let first := s.gather answers
    let others := gatherTasks tasks first.rest
    ⟨first.outcome :: others.outcome, others.rest⟩

end

/-- What a step returned, when it ended, and what was reported meanwhile. -/
structure Entry where
  time : Instant
  result : Result
  log : List String
  deriving Repr

namespace World

/-- Run a step. -/
def performStep (w : World) (s : Step) : Entry × World :=
  let (activities, w) := w.perform (s.activities w.cluster.env.timer w.cluster.now)
  let result := (s.gather (activities.map (Activity.result w))).outcome.2
  let (log, w) := w.takeLog
  (⟨w.cluster.now, result, log⟩, w)

/-- Run steps one after the other. -/
def performAll (w : World) : List Step → List Entry × World
  | [] => ([], w)
  | s :: rest =>
    let (e, w) := w.performStep s
    let (es, w) := performAll w rest
    (e :: es, w)

end World

end ReplicaRing.Scenario

namespace ReplicaRing

open Scenario

/-! ### Scenarios -/

/-- The ring of a scenario. -/
structure RingPlan where
  options : RingOptions
  /-- The number of nodes at random places, if the ring is to be built of such nodes. -/
  randomSize : Option Nat := none
  /-- The puts that its metrics have counted before. -/
  putsBefore : UInt64 := 0

/-- Nodes, a ring and steps. -/
structure Scenario where
  nodes : List Node
  hasher : KeyHasher
  ring : Option RingPlan
  steps : List Step
  listing : Listing := {}
  env : Env := {}
  /-- The random identities, one after the other. -/
  stream : Nat → NodeId := hashed

/-- What happened in a scenario. -/
structure Transcript where
  entries : List Entry
  /-- What was reported while the ring was built. -/
  initialLog : List String
  /-- Whether all identities were drawn at random. -/
  allRandom : Bool
  /-- The identities drawn at random later on. -/
  randoms : List NodeId

/-- The name of a node in a transcript; one drawn at random has none. -/
def Transcript.label (t : Transcript) (id : NodeId) : String :=
  if t.allRandom || t.randoms.contains id then "?" else id.display

namespace Scenario

/-- Enlist nodes one after the other. -/
def enlistAll : List Node → Fleet → List Handle × Fleet
  | [], f => ([], f)
  | n :: rest, f =>
    let (h, f) := f.enlist n
    let (hs, f) := enlistAll rest f
    (h :: hs, f)

/-- A world without a ring. -/
def ringlessWorld (s : Scenario) (handles : List Handle) (fleet : Fleet) : World :=
  { cluster := { fleet := fleet, ring := ⟨s.hasher, {}, {}⟩, listing := s.listing, env := s.env }
    hasRing := false
    registry := .ofList (handles.map fun h => (h.id, h))
    stream := s.stream }

/-- The world with the ring of a plan. -/
def ringWorld (w : World) (handles : List Handle) (plan : RingPlan) : Except RingError World :=
  let metrics := ({} : Metrics).add .puts plan.putsBefore
  match plan.randomSize with
  | none =>
    (Ring.create w.cluster.ring.hasher plan.options handles).map fun ring =>
      { w with
        hasRing := true
        cluster := { w.cluster with ring := ring, metrics := metrics }.report
          (Ring.creationEvents handles) }
  | some size =>
    let slot := w.cluster.fleet.nodes.size
    (Ring.createRandom w.cluster.ring.hasher plan.options size slot (w.draws size)).map fun p =>
      let fleet := (enlistAll (p.2.map fun h => { id := h.id }) w.cluster.fleet).2
      { w with
        hasRing := true
        drawn := w.drawn + size
        cluster := { w.cluster with fleet := fleet, ring := p.1, metrics := metrics }.report
          (Ring.creationEvents p.2) }

/-- The world in which a scenario starts. -/
def initialWorld (s : Scenario) : Except RingError World :=
  let (handles, fleet) := enlistAll s.nodes {}
  let w := s.ringlessWorld handles fleet
  match s.ring with
  | none => .ok w
  | some plan => ringWorld w handles plan

/-- Run a scenario. -/
def run (s : Scenario) : Except RingError Transcript :=
  s.initialWorld.map fun w =>
    let (log, w) := w.takeLog
    let (entries, w) := w.performAll s.steps
    { entries := entries
      initialLog := log
      allRandom := (s.ring.bind RingPlan.randomSize).isSome
      randoms := w.randoms }

end Scenario

end ReplicaRing
