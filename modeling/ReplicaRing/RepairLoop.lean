import ReplicaRing.Sweep

/-!
# Background repair

A repair loop runs sweeps one after the other, the first at once and the others in a fixed period,
until it is told to stop. A sweep under way then stops at its next boundary. A loop that is
abandoned stops too, but only after the sweep under way.

* `RepairLoop` — idle until its next tick, sweeping, or stopped;
* `RepairLoop.poll` — what an idle loop does at a time: an end goes before a tick;
* `RepairLoop.sweepEnded` — what it does after a sweep.
-/

namespace ReplicaRing

/-- What a repair loop is doing. -/
inductive LoopPhase where
  | idle
  | sweeping (s : Sweep)
  | stopped
  deriving DecidableEq, Repr

/-- A repair loop. -/
structure RepairLoop where
  period : Duration
  /-- When the next sweep is due, as the time since the start. -/
  nextTick : Duration
  /-- Whether it has been told to stop. -/
  signalled : Bool := false
  /-- Whether nobody is left who could tell it to stop. -/
  abandoned : Bool := false
  phase : LoopPhase := .idle
  deriving DecidableEq, Repr

namespace RepairLoop

/-- The shortest period. -/
def minPeriod : Duration := .ofMillis 1

/-- How late a tick may be served without moving the ticks after it. -/
def tolerance : Duration := .ofMillis 5

/-- The period that stands for a given interval. -/
def periodFor (interval : Duration) : Duration :=
  if interval.nanos < minPeriod.nanos then minPeriod else interval

/-- A loop that starts now. -/
def start (now : Instant) (interval : Duration) : RepairLoop :=
  { period := periodFor interval, nextTick := .ofMillis now }

/-- What is reported when a loop starts: a period that had to be raised. -/
def startEvents (interval : Duration) : List LogEvent :=
  if periodFor interval = interval then [] else [.intervalRaised interval (periodFor interval)]

/-- Whether the loop has ended. -/
def isStopped (l : RepairLoop) : Bool := l.phase == .stopped

/-- Tell the loop to stop. -/
def signal (l : RepairLoop) : RepairLoop := { l with signalled := true }

/-- Give the loop up. -/
def abandon (l : RepairLoop) : RepairLoop := { l with abandoned := true }

/-- Whether the loop has no reason to start another sweep. -/
def isEnding (l : RepairLoop) : Bool := l.signalled || l.abandoned

/-- Whether a tick that is served now is late. -/
def isLate (l : RepairLoop) (now : Instant) : Bool :=
  (l.nextTick + tolerance).nanos < (Duration.ofMillis now).nanos

/-- The tick after one that is served now: a period later, counted from now if this one is late or
the clock cannot tell the time of the next one. -/
def followingTick (l : RepairLoop) (now : Instant) : Duration :=
  (if l.isLate now || !l.period.fits then .ofMillis now else l.nextTick) + l.period.told

/-- What an idle loop does: it stops if it is ending, and otherwise starts a sweep if one is due. -/
def poll (l : RepairLoop) (now : Instant) (m : Membership) : RepairLoop × List LogEvent :=
  match l.phase with
  | .idle =>
    if l.isEnding then ({ l with phase := .stopped }, [.repairStopped])
    else if l.nextTick.ticks ≤ now then
      ({ l with phase := .sweeping (.start m), nextTick := l.followingTick now }, [])
    else (l, [])
  | _ => (l, [])

/-- What the loop does after a sweep: a cancelled sweep was its last. -/
def sweepEnded (l : RepairLoop) (r : Report) : RepairLoop × List LogEvent :=
  if r.cancelled then ({ l with phase := .stopped }, [.repairStopped])
  else ({ l with phase := .idle }, [])

end RepairLoop

end ReplicaRing
