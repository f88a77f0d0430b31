import ReplicaRing.Duration

/-!
# Clocks and timers

The clock ticks every millisecond, and a timer goes off at the first tick by which its time is over.

* `Duration.ticks` — how many ticks it takes until a span is over;
* `Duration.fits` — whether the clock has room for a span, `Duration.told` — what it makes of one;
* `Timer` — how long the waits of a runtime take, `Timer.standard` and `Timer.capped`;
* `Timer.after` — when a wait ends.
-/

namespace ReplicaRing

namespace Duration

/-- How many ticks of the clock it takes until a span is over that starts at a tick. -/
def ticks (d : Duration) : Nat := (d.nanos + 999999) / 1000000

@[simp] theorem ticks_ofMillis (ms : Nat) : (ofMillis ms).ticks = ms := by
  simp only [ticks, ofMillis]
  omega

theorem ticks_mono {d d' : Duration} (h : d.nanos ≤ d'.nanos) : d.ticks ≤ d'.ticks :=
  Nat.div_le_div_right (Nat.add_le_add_right h _)

/-- The longest span that the clock has room for: it counts seconds up to `2 ^ 63`. How far it has
got is nothing beside that, so a time that it cannot tell is one that is too far off by itself. -/
def room : Duration := ⟨9223372036854775808 * 1000000000 - 1⟩

/-- Whether the clock can tell the time so long from now. -/
def fits (d : Duration) : Bool := d.nanos ≤ room.nanos

/-- What stands for a time that the clock cannot tell: thirty years of 365 days from now. -/
def farFuture : Duration := ofSeconds (30 * 365 * 86400)

/-- What the clock makes of a span that is waited for. -/
def told (d : Duration) : Duration := if d.fits then d else farFuture

/-- The longest span that every runtime can wait for. -/
def longestSleep : Duration := ofMillis 68719476734

end Duration

/-- A point in time: the ticks of the clock since the start, one for each millisecond. -/
abbrev Instant := Nat

/-- How many ticks a wait takes. Runtimes differ in what they make of the longest ones. -/
structure Timer where
  wait : Duration → Nat
  exact : ∀ d, d.nanos ≤ Duration.longestSleep.nanos → wait d = d.ticks
  pos : ∀ d, 0 < d.nanos → 0 < wait d

namespace Timer

/-- A timer that waits for whatever the clock can tell. -/
def standard : Timer where
  wait d := d.told.ticks
  exact d hd := by
    have hfits : d.fits = true :=
      decide_eq_true (Nat.le_trans hd (by decide : Duration.longestSleep.nanos ≤ _))
    rw [Duration.told, if_pos hfits]
  pos d hd := by
    rw [Duration.told]
    split
    · rw [Duration.ticks]
      omega
    · decide

/-- A timer that cuts every wait at thirty years. -/
def capped : Timer where
  wait d := min d.ticks Duration.farFuture.ticks
  exact d hd := by
    have hfar : Duration.farFuture.ticks = 946080000000 := rfl
    have hlongest : Duration.longestSleep.nanos = 68719476734000000 := rfl
    rw [hfar, Duration.ticks]
    omega
  pos d hd := by
    have hfar : Duration.farFuture.ticks = 946080000000 := rfl
    rw [hfar, Duration.ticks]
    omega

/-- The end of a wait that starts now. -/
def after (t : Timer) (now : Instant) (d : Duration) : Instant := now + t.wait d

variable (t : Timer)

@[simp] theorem wait_zero : t.wait .zero = 0 := t.exact .zero (Nat.zero_le _)

@[simp] theorem after_zero (now : Instant) : t.after now .zero = now :=
  congrArg (now + ·) t.wait_zero

theorem lt_after {now : Instant} {d : Duration} (h : 0 < d.nanos) : now < t.after now d :=
  Nat.lt_add_of_pos_right (t.pos d h)

end Timer

end ReplicaRing
