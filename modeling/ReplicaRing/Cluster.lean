import ReplicaRing.RepairLoop
import ReplicaRing.Read
import ReplicaRing.Wipe
import ReplicaRing.Write

/-!
# Clusters

A cluster is a ring together with its nodes, its metrics, its log and a clock. Time passes only
while everything waits for a node or for a tick.

* `Listing` — the orders in which nodes list their keys;
* `Inquiry` — a request to one node that is waited for, perhaps only for a limited time;
* `Cluster.ask`, `Cluster.receive` — its two ends;
* `ReadRun`, `WipeRun`, `SweepRun`, `LoopRun` — operations that wait for one node at a time;
* `Cluster.beginOp`, `Cluster.endOp` — what is counted for every client operation.
-/

namespace ReplicaRing

/-- The orders in which nodes list their keys. A store keeps no order of its own, so every listing
may come in another one. -/
structure Listing where
  /-- The keys of a listing as they arrive; listings are counted from the start. -/
  arrange : Nat → List String → List String := fun _ keys => keys
  perm : ∀ n keys, (arrange n keys).Perm keys := by intros; exact .refl _

/-- A ring with everything around it. -/
structure Cluster where
  now : Instant := 0
  fleet : Fleet
  ring : Ring
  metrics : Metrics := {}
  /-- The events since the log was last emptied. -/
  log : Array LogEvent := #[]
  env : Env := {}
  listing : Listing := {}
  /-- How many listings have arrived. -/
  listed : Nat := 0

namespace Cluster

/-- The end of a wait that starts now. -/
def after (c : Cluster) (d : Duration) : Instant := c.env.timer.after c.now d

/-- Append events to the log. -/
def report (c : Cluster) (events : List LogEvent) : Cluster :=
  { c with log := c.log ++ events.toArray }

/-- Start to count a client operation. -/
def beginOp (c : Cluster) (op : ClientOp) : Cluster :=
  let counter : Counter :=
    match op with
    | .put => .puts
    | .get => .gets
    | .delete => .deletes
  { c with metrics := (c.metrics.add counter 1).startTimer op.name }

/-- Count the failed replicas and the latency of a client operation that has ended. -/
def endOp (c : Cluster) (op : ClientOp) (misses : Nat) (started : Instant) : Cluster :=
  let seconds := Duration.seconds (.ofMillis (c.now - started))
  { c with metrics := (c.metrics.replicasFailed op.name misses).observe op.name seconds }

/-- Choose the nodes responsible for a key, which is reported. -/
def place (c : Cluster) (key : String) : Placement × Cluster :=
  (c.ring.placement key, c.report [c.ring.placementEvent key])

end Cluster

/-! ### Requests to single nodes -/

/-- A request that is waited for. -/
structure Inquiry where
  flight : Flight
  /-- When it is given up, if ever. -/
  expires : Option Instant := none
  deriving DecidableEq, Repr

namespace Inquiry

/-- Whether the answer comes before the request is given up, or at that very time. -/
def arrives (q : Inquiry) : Bool := q.expires.all fun e => q.flight.due ≤ e

/-- When the wait is over. -/
def wake (q : Inquiry) : Instant :=
  match q.expires with
  | some e => min q.flight.due e
  | none => q.flight.due

end Inquiry

namespace Cluster

/-- Ask a node. -/
def ask (c : Cluster) (h : Handle) (r : Request) (expires : Option Instant) :
    Inquiry × Cluster :=
  let (flight, fleet) := c.fleet.launch c.env c.now h r
  (⟨flight, expires⟩, { c with fleet := fleet })

/-- The answer of a node as it arrives: the keys of a listing come in some order. -/
def arrange (c : Cluster) : (r : Request) → r.Answer → r.Answer × Cluster
  | .keys, .ok keys => (.ok (c.listing.arrange c.listed keys), { c with listed := c.listed + 1 })
  | _, answer => (answer, c)

/-- Receive the answer of a node, or none if the request is given up. -/
def receive (c : Cluster) (q : Inquiry) (r : Request) : Option r.Answer × Cluster :=
  if q.arrives then
    let (answer, fleet, events) := c.fleet.conclude q.flight.target r q.flight.verdict
    let (answer, c) := { c with fleet := fleet }.arrange r answer
    (some answer, c.report events)
  else (none, c)

/-- Ask the first node of a list, if there is one. -/
def askHead (c : Cluster) (ahead : List Handle) (r : Request) (expires : Option Instant) :
    Option Inquiry × Cluster :=
  match ahead with
  | [] => (none, c)
  | h :: _ =>
    let (q, c) := c.ask h r expires
    (some q, c)

end Cluster

/-! ### Reads and wipes -/

/-- A read that waits for a member. -/
structure ReadRun where
  read : Read
  started : Instant
  deadline : Instant
  inquiry : Option Inquiry
  deriving Repr

namespace ReadRun

/-- Start a read: ask the first member. -/
def start (c : Cluster) (key : String) (p : Placement) (timeout : Duration) :
    ReadRun × Cluster :=
  let read := Read.start key p
  let deadline := c.now + timeout.ticks
  let (inquiry, c) := c.askHead read.ahead (.get key) (some deadline)
  (⟨read, c.now, deadline, inquiry⟩, c)

/-- The next event of a read: an answer, with the question to the next member, or the deadline. -/
def step (run : ReadRun) (c : Cluster) : ReadRun × Cluster :=
  match run.inquiry with
  | none => (run, c)
  | some q =>
    let (answer?, c) := c.receive q (.get run.read.key)
    let read := match answer? with
      | some answer => run.read.answered q.flight.target answer
      | none => run.read.expired
    let (inquiry, c) := c.askHead read.ahead (.get read.key) (some run.deadline)
    ({ run with read := read, inquiry := inquiry }, c)

end ReadRun

/-- A wipe that waits for a node. -/
structure WipeRun where
  wipe : Wipe
  inquiry : Option Inquiry
  deriving Repr

namespace WipeRun

/-- Start a wipe of the ring: ask its first node. -/
def start (c : Cluster) : WipeRun × Cluster :=
  let wipe := Wipe.start c.ring.membership
  let (inquiry, c) := c.askHead wipe.ahead .clear none
  (⟨wipe, inquiry⟩, c)

/-- The next event of a wipe: an answer, with the question to the next node. -/
def step (run : WipeRun) (c : Cluster) : WipeRun × Cluster :=
  match run.inquiry with
  | none => (run, c)
  | some q =>
    let (answer?, c) := c.receive q .clear
    let answer := answer?.getD (.error (.timeout q.flight.target.id))
    let (wipe, events) := run.wipe.answered q.flight.target answer
    let (inquiry, c) := (c.report events).askHead wipe.ahead .clear none
    (⟨wipe, inquiry⟩, c)

end WipeRun

/-! ### Sweeps -/

/-- A sweep, and the request that it waits for. -/
structure SweepRun where
  sweep : Sweep
  inquiry : Option Inquiry := none
  deriving Repr

namespace SweepRun

/-- When a sweep goes on; at once unless it waits for a node. -/
def wake (run : SweepRun) (now : Instant) : Instant :=
  match run.inquiry with
  | some q => q.wake
  | none => now

/-- The next event of a sweep. Every request is given up after the operation timeout of the ring
and then counts as timed out. -/
def step (run : SweepRun) (cancelled : Bool) (c : Cluster) : SweepRun × Cluster :=
  match run.sweep.stage with
  | .waiting w =>
    match run.inquiry with
    | none =>
      let (q, c) := c.ask w.target w.request (some (c.after c.ring.options.opTimeout))
      ({ run with inquiry := some q }, c)
    | some q =>
      let (answer?, c) := c.receive q w.request
      let answer := answer?.getD (.error (.timeout w.target.id))
      let (sweep, events) := run.sweep.resume w answer
      (⟨sweep, none⟩, c.report events)
  | _ =>
    let (sweep, events) := run.sweep.proceed c.ring cancelled
    (⟨sweep, none⟩, c.report events)

/-- Count and report a sweep that has ended. -/
def close (r : Report) (c : Cluster) : Cluster :=
  { c with metrics := c.metrics.recordSweep r }.report [r.event]

end SweepRun

/-- A repair loop, and the request that its sweep waits for. -/
structure LoopRun where
  loop : RepairLoop
  inquiry : Option Inquiry := none
  deriving Repr

namespace LoopRun

/-- When a loop goes on, unless it has ended. -/
def wake? (run : LoopRun) (now : Instant) : Option Instant :=
  match run.loop.phase with
  | .idle => some (if run.loop.isEnding then now else run.loop.nextTick.ticks)
  | .sweeping s => some (SweepRun.wake ⟨s, run.inquiry⟩ now)
  | .stopped => none

/-- The next event of a loop. -/
def step (run : LoopRun) (c : Cluster) : LoopRun × Cluster :=
  match run.loop.phase with
  | .idle =>
    let (loop, events) := run.loop.poll c.now c.ring.membership
    (⟨loop, none⟩, c.report events)
  | .sweeping s =>
    if s.isFinished then
      let (loop, events) := run.loop.sweepEnded s.report
      (⟨loop, none⟩, (SweepRun.close s.report c).report events)
    else
      let (sr, c) := SweepRun.step ⟨s, run.inquiry⟩ run.loop.signalled c
      (⟨{ run.loop with phase := .sweeping sr.sweep }, sr.inquiry⟩, c)
  | .stopped => (run, c)

end LoopRun

end ReplicaRing
