import Mathlib.Data.List.Infix
import ReplicaRing.Proofs.SoloRun

/-!
# Schedules

The clock decides who goes on next, an activity or a repair loop. What holds whatever it decides is
a matter of schedules: lists of turns, each of which names a time and who goes on.

* `World.go`, `World.follow` — one turn, and the turns of a schedule;
* `World.trace` — what is seen of the turns of a schedule;
* `go_later` — the turn that starts an operation, `World.writing`, `go_write` — that of a write;
* `step?_eq_go` — the clock only ever picks such a turn;
* `World.Calls` — a condition on the activities that a schedule calls;
* `follow_induction`, `trace_induction` — what every turn keeps is kept by every schedule.
-/

namespace ReplicaRing.Scenario.World

/-- Whoever is named goes on. -/
def go (w : World) : Turn → World
  | .activity i =>
    match w.activities[i]? with
    | none => w
    | some a => { (w.stepActivity a).2 with
        activities := (w.stepActivity a).2.activities.setIfInBounds i (w.stepActivity a).1 }
  | .loop i =>
    match w.loops[i]? with
    | none => w
    | some run => { (w.stepLoop run).2 with
        loops := (w.stepLoop run).2.loops.setIfInBounds i (w.stepLoop run).1 }

/-- The turns of a schedule: the clock goes on to a time, then somebody goes on. -/
def follow (w : World) : List (Instant × Turn) → World
  | [] => w
  | (t, x) :: turns => ((w.advanceTo t).go x).follow turns

/-- What is seen of the turns of a schedule. -/
def trace {α : Type} (see : World → Turn → Option α) (w : World) :
    List (Instant × Turn) → List α
  | [] => []
  | (t, x) :: turns =>
    (see (w.advanceTo t) x).toList ++ ((w.advanceTo t).go x).trace see turns

variable {w : World}

theorem go_activity_some {i : Nat} {a : Activity} (h : w.activities[i]? = some a) :
    w.go (.activity i) = { (w.stepActivity a).2 with
      activities := (w.stepActivity a).2.activities.setIfInBounds i (w.stepActivity a).1 } := by
  rw [go, h]

theorem go_activity_none {i : Nat} (h : w.activities[i]? = none) : w.go (.activity i) = w := by
  rw [go, h]

/-- The turn that starts an operation. -/
theorem go_later {i : Nat} {t : Instant} {op : Op} {s : Activity × World}
    (hi : w.activities[i]? = some (.later t op)) (hbegin : w.begin op = s) :
    w.go (.activity i) = { s.2 with activities := s.2.activities.setIfInBounds i s.1 } := by
  rw [go_activity_some hi, stepActivity, hbegin]

theorem go_loop_some {i : Nat} {run : LoopRun} (h : w.loops[i]? = some run) :
    w.go (.loop i) = { (w.stepLoop run).2 with
      loops := (w.stepLoop run).2.loops.setIfInBounds i (w.stepLoop run).1 } := by
  rw [go, h]

theorem go_loop_none {i : Nat} (h : w.loops[i]? = none) : w.go (.loop i) = w := by
  rw [go, h]

/-- A write of an activity has started, and its requests are due in the order of the placement. -/
def writing (w : World) (i : Nat) (change : Change) (key : String) (timeout : Option Duration) :
    World :=
  let p := w.writeStarted change key timeout
  { p.2 with activities := p.2.activities.setIfInBounds i p.1 }

/-- The turn that starts a write. -/
theorem go_write (change : Change) (hw : w.hasRing = true) {i : Nat} {t : Instant} {key : String}
    {timeout : Option Duration} (hfits : (w.cluster.ring.options.limit timeout).fits = true)
    (hi : w.activities[i]? = some (.later t (changeOp key timeout change)))
    (hsorted : (Write.launchAll w.cluster.env w.cluster.now (change.request key)
      (w.cluster.ring.placement key).members w.cluster.fleet).1.Pairwise (·.due ≤ ·.due))
    (hne : (Write.launchAll w.cluster.env w.cluster.now (change.request key)
      (w.cluster.ring.placement key).members w.cluster.fleet).1 ≠ []) :
    w.go (.activity i) = w.writing i change key timeout :=
  go_later hi (begin_change_sorted change hw hfits hsorted hne)

theorem follow_append (w : World) (turns turns' : List (Instant × Turn)) :
    w.follow (turns ++ turns') = (w.follow turns).follow turns' := by
  induction turns generalizing w with
  | nil => rfl
  | cons turn turns ih => exact ih _

theorem follow_concat (w : World) (turns : List (Instant × Turn)) (t : Instant) (x : Turn) :
    w.follow (turns ++ [(t, x)]) = ((w.follow turns).advanceTo t).go x :=
  follow_append w turns [(t, x)]

theorem trace_append {α : Type} (see : World → Turn → Option α) (w : World)
    (turns turns' : List (Instant × Turn)) :
    w.trace see (turns ++ turns') = w.trace see turns ++ (w.follow turns).trace see turns' := by
  induction turns generalizing w with
  | nil => rfl
  | cons turn turns ih =>
    rw [List.cons_append, trace, ih, trace, List.append_assoc]
    rfl

theorem trace_concat {α : Type} (see : World → Turn → Option α) (w : World)
    (turns : List (Instant × Turn)) (t : Instant) (x : Turn) :
    w.trace see (turns ++ [(t, x)]) =
      w.trace see turns ++ (see ((w.follow turns).advanceTo t) x).toList := by
  rw [trace_append, trace, trace, List.append_nil]

/-- **The clock picks a turn.** The next event of all is somebody who goes on at some time. -/
theorem step?_eq_go {w' : World} (h : w.step? = some w') :
    ∃ t x, w' = (w.advanceTo t).go x := by
  rw [step?, Option.bind_eq_bind, Option.bind_eq_some_iff] at h
  obtain ⟨⟨t, turn⟩, -, h⟩ := h
  cases turn with
  | activity i =>
    simp only [Option.bind_eq_bind, Option.bind_eq_some_iff] at h
    obtain ⟨a, ha, h⟩ := h
    refine ⟨t, .activity i, ?_⟩
    rw [go_activity_some ha]
    exact (Option.some.inj h).symm
  | loop i =>
    simp only [Option.bind_eq_bind, Option.bind_eq_some_iff] at h
    obtain ⟨run, hrun, h⟩ := h
    refine ⟨t, .loop i, ?_⟩
    rw [go_loop_some hrun]
    exact (Option.some.inj h).symm

/-! ### What a schedule keeps -/

/-- Every activity that goes on in a schedule meets a condition. -/
def Calls (w : World) (turns : List (Instant × Turn)) (P : Activity → Prop) : Prop :=
  ∀ i a, (∃ t, (t, .activity i) ∈ turns) → w.activities[i]? = some a → P a

theorem Calls.of_forall {P : Activity → Prop}
    (h : ∀ (i : Nat) a, w.activities[i]? = some a → P a) (turns : List (Instant × Turn)) :
    w.Calls turns P := fun i a _ => h i a

theorem Calls.mono {P : Activity → Prop} {turns turns' : List (Instant × Turn)}
    (h : w.Calls turns P) (hsub : ∀ e ∈ turns', e ∈ turns) : w.Calls turns' P :=
  fun i a ⟨t, ht⟩ => h i a ⟨t, hsub _ ht⟩

/-- What every turn keeps is kept by every schedule, along with what is seen. -/
theorem trace_induction {α : Type} (see : World → Turn → Option α) {P : World → List α → Prop}
    (htime : ∀ w l t, P w l → P (w.advanceTo t) l)
    (hturn : ∀ w l x, P w l → P (w.go x) (l ++ (see w x).toList))
    (turns : List (Instant × Turn)) {l : List α} (h : P w l) :
    P (w.follow turns) (l ++ w.trace see turns) := by
  induction turns generalizing w l with
  | nil => rwa [trace, List.append_nil]
  | cons turn turns ih =>
    obtain ⟨t, x⟩ := turn
    rw [follow, trace, ← List.append_assoc]
    exact ih (hturn (w.advanceTo t) l x (htime w l t h))

/-- **Schedules.** What every turn keeps, as long as it is called for, is kept by every schedule.
The turns so far are at hand, for what is kept may refer to them. -/
theorem follow_induction {P : List (Instant × Turn) → Prop} (turns : List (Instant × Turn))
    (hstart : P []) (hturn : ∀ past t x, past ++ [(t, x)] <+: turns → P past →
      P (past ++ [(t, x)])) : P turns := by
  suffices h : ∀ past, past <+: turns → P past from h turns (List.prefix_refl turns)
  intro past
  induction past using List.reverseRecOn with
  | nil => exact fun _ => hstart
  | append_singleton past turn ih =>
    obtain ⟨t, x⟩ := turn
    exact fun h => hturn past t x h (ih ((List.prefix_append past _).trans h))

end ReplicaRing.Scenario.World
