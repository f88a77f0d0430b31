import ReplicaRing.Proofs.KeySweeps
import ReplicaRing.Proofs.KeyWorlds
import ReplicaRing.Proofs.SoloEvents

/-!
# Events seen through one key

Of two worlds that look alike under a key the second one holds nothing else. An activity of the
first one and what remains of it in the second one go on side by side: an event that shows under
the key has its like, and any other one happens only in the first world.

* `World.KeyImage` — such worlds, at rest;
* `Activity.Alike` — activities that differ at most in the repair of other keys;
* `Mirrored`, `AvoidsKey` — an activity and its like, and one that has none;
* `mirrors_next`, `avoidsKey_next` — **every event has its like, or shows nowhere**.
-/

namespace ReplicaRing

variable {k : String}

namespace Scenario

/-- Two activities differ at most in the repair of other keys and in what is reported of it. -/
inductive Activity.Alike (k : String) (now : Instant) : Bool → Activity → Activity → Prop
  | same {a : Activity} (within : a.Within (Request.Concerns k) now) : Alike k now false a a
  | sweep {run run' : SweepRun} {cancelAt : Option Instant} (mirrors : run.Mirrors k now run')
      (untold : cancelledBy cancelAt now = false) :
      Alike k now true (.sweep run cancelAt) (.sweep run' cancelAt)
  | reported (t : Instant) (r r' : Report) (told : Option Bool) :
      Alike k now true (.answered t (.report r told)) (.answered t (.report r' told))

namespace World

variable {w w' : World} {c c' : Cluster}

/-! ### Images of worlds -/

/-- A world, and another one that looks alike under a key and holds nothing else. -/
structure KeyImage (k : String) (w w' : World) : Prop where
  alike : w.Alike k w'
  activities : w.activities = #[]
  linked : w.Linked

theorem Switched.keyImage (hw : w.Switched) (k : String) : w.KeyImage k (w.only k) :=
  ⟨hw.alike_only k, hw.activities, hw.linked⟩

theorem KeyImage.settled (h : w.KeyImage k w') : w.settled.KeyImage k w'.settled :=
  ⟨h.alike.settled, rfl, h.linked.mono rfl rfl fun _ hx => hx⟩

theorem KeyImage.settled_left (h : w.KeyImage k w') : w.settled.KeyImage k w' :=
  ⟨h.alike.settled_left, rfl, h.linked.mono rfl rfl fun _ hx => hx⟩

theorem Alike.inStep (h : w.Alike k w') :
    Cluster.InStep (Fleet.KeyImage k w.cluster.fleet) w.cluster.ring w.cluster.env w.cluster.now
      w.cluster w'.cluster :=
  ⟨rfl, h.ring, rfl, h.now, rfl, h.env, h.left, h.right, rfl, h.fleet, h.narrow⟩

/-- Clusters in step leave one world the image of the other. -/
theorem KeyImage.of_inStep (h : w.KeyImage k w')
    (hc : Cluster.InStep (Fleet.KeyImage k w.cluster.fleet) w.cluster.ring w.cluster.env
      w.cluster.now c c') :
    KeyImage k { w with cluster := c } { w' with cluster := c' } where
  alike :=
    { hasRing := h.alike.hasRing
      hasRing' := h.alike.hasRing'
      loops := h.alike.loops
      loops' := h.alike.loops'
      left := hc.fleet.left
      right := hc.fleet.right
      ring := hc.ring'.trans hc.ring.symm
      now := hc.now'.trans hc.now.symm
      env := hc.env'.trans hc.env.symm
      fleet := hc.fleet.alike
      narrow := hc.fleet.narrow
      registry := h.alike.registry
      randoms := h.alike.randoms
      stream := h.alike.stream
      drawn := h.alike.drawn }
  activities := h.activities
  linked := h.linked.mono hc.ring rfl fun _ hx => Fleet.houses_of_frame hc.fleet.frame.symm hx

/-- The first cluster is in step with itself while requests avoid the key. -/
theorem Alike.inStep_self (h : w.Alike k w') :
    Cluster.InStep (Fleet.KeepsColumn k w.cluster.fleet) w.cluster.ring w.cluster.env w.cluster.now
      w.cluster w.cluster :=
  ⟨rfl, rfl, rfl, rfl, rfl, rfl, rfl, h.left, .refl k _⟩

/-- Requests that avoid the key leave the image an image. -/
theorem KeyImage.of_keepsColumn (h : w.KeyImage k w')
    (hc : Cluster.InStep (Fleet.KeepsColumn k w.cluster.fleet) w.cluster.ring w.cluster.env
      w.cluster.now c c') :
    KeyImage k { w with cluster := c } w' := by
  have halike := hc.fleet.alike
  have hstep : Cluster.InStep (Fleet.KeyImage k w.cluster.fleet) w.cluster.ring w.cluster.env
      w.cluster.now c w'.cluster :=
    ⟨hc.ring, h.alike.ring, hc.now, h.alike.now, hc.env, h.alike.env, hc.fleet.switches,
      h.alike.right, halike.frame.symm, halike.symm.trans h.alike.fleet, h.alike.narrow⟩
  exact h.of_inStep hstep

/-! ### Events -/

/-- An activity that waits for nothing later takes no time. -/
theorem next_of_due {a : Activity} {q : Activity × World} (h : Next (a, w) q)
    (hdue : ∀ t, a.wake? w.cluster.now #[] = some t → t ≤ w.cluster.now) :
    ∃ t, a.wake? w.cluster.now #[] = some t ∧ q = w.stepActivity a := by
  obtain ⟨-, t, ht, rfl⟩ := h
  refine ⟨t, ht, ?_⟩
  have hstill : w.advanceTo t = w := by
    rw [advanceTo, Nat.max_eq_left (hdue t ht)]
  rw [hstill]

/-- An event that takes no time. -/
theorem next_now {a : Activity} {t : Instant} (hl : w.loops = #[])
    (ht : a.wake? w.cluster.now #[] = some t) (hle : t ≤ w.cluster.now) :
    Next (a, w) (w.stepActivity a) := by
  refine ⟨hl, t, ht, ?_⟩
  have hstill : w.advanceTo t = w := by
    rw [advanceTo, Nat.max_eq_left hle]
  rw [hstill]

/-- An activity and a world, and their likes. -/
def Mirrored (k : String) (sweeps : Bool) (p p' : Activity × World) : Prop :=
  p.1.Alike k p.2.cluster.now sweeps p'.1 ∧ p.2.KeyImage k p'.2

/-- An activity that avoids a key, and an image of its world. -/
def AvoidsKey (k : String) (p : Activity × World) (w' : World) : Prop :=
  p.1.Within (Request.Elsewhere k) p.2.cluster.now ∧ p.2.KeyImage k w'

/-- An activity that goes on in lockstep over two worlds is its own like. -/
theorem KeyImage.mirrored (h : w.KeyImage k w') {p p' : Activity × Cluster}
    (hp : Activity.Agrees (Request.Concerns k) (Fleet.KeyImage k w.cluster.fleet) w.cluster.ring
      w.cluster.env w.cluster.now p p') : Mirrored k false (w.started p) (w'.started p') := by
  have hnow : p.2.now = w.cluster.now := hp.inStep.now
  have hlike : Activity.Alike k p.2.now false p.1 p'.1 := by
    rw [← hp.same, hnow]
    exact .same hp.within
  exact ⟨hlike, h.of_inStep hp.inStep⟩

/-- An activity that avoids a key goes on in the first world only. -/
theorem KeyImage.avoidsKey (h : w.KeyImage k w') {p p' : Activity × Cluster}
    (hp : Activity.Agrees (Request.Elsewhere k) (Fleet.KeepsColumn k w.cluster.fleet) w.cluster.ring
      w.cluster.env w.cluster.now p p') : AvoidsKey k (w.started p) w' := by
  have hnow : p.2.now = w.cluster.now := hp.inStep.now
  have hwithin := hp.within
  rw [← hnow] at hwithin
  exact ⟨hwithin, h.of_keepsColumn hp.inStep⟩

/-- **An event of an operation on other keys** shows nowhere. -/
theorem avoidsKey_next {p q : Activity × World} (h : AvoidsKey k p w') (hnext : Next p q) :
    AvoidsKey k q w' := by
  obtain ⟨a, w⟩ := p
  obtain ⟨hwithin, himage⟩ := h
  obtain ⟨-, -, rfl⟩ := next_of_due hnext fun t => hwithin.wake_le
  obtain ⟨r, _, hstep, -, hagrees⟩ := step_agrees (Fleet.lockstep_keepsColumn k w.cluster.fleet)
    himage.alike.inStep_self hwithin
  rw [hstep]
  exact himage.avoidsKey hagrees

theorem AvoidsKey.reaches {p q : Activity × World} (h : AvoidsKey k p w') (hreach : Reaches p q) :
    AvoidsKey k q w' := by
  induction hreach with
  | refl => exact h
  | tail _ hnext ih => exact avoidsKey_next ih hnext

/-- An event of an operation on the key has its like. -/
theorem own_next {a : Activity} {q : Activity × World} (hwithin : a.Within (Request.Concerns k)
    w.cluster.now) (himage : w.KeyImage k w') (hnext : Next (a, w) q) :
    ∃ q', Next (a, w') q' ∧ Mirrored k false q q' := by
  obtain ⟨t, ht, rfl⟩ := next_of_due hnext fun t => hwithin.wake_le
  obtain ⟨r, r', hstep, hstep', hagrees⟩ :=
    step_agrees (Fleet.lockstep_keyImage k w.cluster.fleet) himage.alike.inStep hwithin
  refine ⟨w'.stepActivity a, next_now (t := t) himage.alike.loops' ?_ ?_, ?_⟩
  · rw [himage.alike.now]
    exact ht
  · rw [himage.alike.now]
    exact hwithin.wake_le ht
  · rw [hstep, hstep']
    exact himage.mirrored hagrees

/-- A sweep that waits for nothing later takes no time. -/
theorem sweep_wake_le {now : Instant} {run : SweepRun}
    (hdue : ∀ q, run.inquiry = some q → q.flight.due ≤ now) : run.wake now ≤ now := by
  rw [SweepRun.wake]
  split
  · next q hq => exact wake_le_of_due (hdue q hq)
  · exact Nat.le_refl _

/-- What a sweep waits for is due if it is for its like. -/
theorem due_of_mirrors {now : Instant} {run run' : SweepRun} (h : run.Mirrors k now run')
    {q : Inquiry} (hq : run'.inquiry = some q) : q.flight.due ≤ now := by
  by_cases hwaits : ∃ w, run'.sweep.stage = .waiting w
  · obtain ⟨w, hw⟩ := hwaits
    exact h.due q ((h.asked w hw).symm.trans hq)
  · have hidle := h.idle (not_exists.1 hwaits)
    exact absurd (hidle.symm.trans hq).symm (Option.some_ne_none q)

/-- A sweep and its like come to their ends together. -/
theorem ofSweep_alike {f₀ : Fleet} {r₀ : Ring} {env : Env} {now : Instant} {run run' : SweepRun}
    {cancelAt : Option Instant} (h : run.Mirrors k now run')
    (hc : Cluster.InStep (Fleet.KeyImage k f₀) r₀ env now c c')
    (huntold : cancelledBy cancelAt now = false) :
    Activity.Alike k now true (Activity.ofSweep c run cancelAt).1
        (Activity.ofSweep c' run' cancelAt).1 ∧
      Cluster.InStep (Fleet.KeyImage k f₀) r₀ env now (Activity.ofSweep c run cancelAt).2
        (Activity.ofSweep c' run' cancelAt).2 := by
  cases hfin : run.sweep.isFinished with
  | false =>
    have hfin' : run'.sweep.isFinished = false := by
      rw [Sweep.isFinished, beq_eq_false_iff_ne] at hfin ⊢
      rw [h.sweep.stage]
      exact fun he => hfin (Sweep.finished_of_only he)
    rw [Activity.ofSweep, Activity.ofSweep, hfin, hfin']
    exact ⟨.sweep h huntold, hc⟩
  | true =>
    have hfin' : run'.sweep.isFinished = true := by
      rw [Sweep.isFinished, beq_iff_eq] at hfin ⊢
      rw [h.sweep.stage, hfin]
      rfl
    rw [Activity.ofSweep, Activity.ofSweep, hfin, hfin', if_pos rfl, if_pos rfl]
    have hclosed : Cluster.InStep (Fleet.KeyImage k f₀) r₀ env now
        (SweepRun.close run.sweep.report c) (SweepRun.close run'.sweep.report c') :=
      ⟨hc.ring, hc.ring', hc.now, hc.now', hc.env, hc.env', hc.fleet⟩
    simp only [Activity.now, hclosed.now, hclosed.now']
    exact ⟨.reported _ _ _ _, hclosed⟩

/-- An event of a sweep has its like, or none. -/
theorem sweep_next {run run' : SweepRun} {cancelAt : Option Instant} {q : Activity × World}
    (hmirrors : run.Mirrors k w.cluster.now run')
    (huntold : cancelledBy cancelAt w.cluster.now = false) (himage : w.KeyImage k w')
    (hnext : Next (.sweep run cancelAt, w) q) :
    Mirrored k true q (.sweep run' cancelAt, w') ∨
      ∃ q', Next (.sweep run' cancelAt, w') q' ∧ Mirrored k true q q' := by
  obtain ⟨t, ht, rfl⟩ := next_of_due hnext fun t ht => by
    obtain rfl := Option.some.inj ht
    exact sweep_wake_le hmirrors.due
  have hstep : w.stepActivity (.sweep run cancelAt) =
      w.started (Activity.ofSweep (run.step false w.cluster).2 (run.step false w.cluster).1
        cancelAt) := by
    rw [stepActivity, huntold]
  rw [hstep]
  obtain ⟨hstays, hopen, hc⟩ | ⟨hgoes, hc⟩ := hmirrors.step himage.alike.inStep
  · have hof : Activity.ofSweep (run.step false w.cluster).2 (run.step false w.cluster).1 cancelAt =
        (.sweep (run.step false w.cluster).1 cancelAt, (run.step false w.cluster).2) := by
      rw [Activity.ofSweep, hopen]
      rfl
    have hnow : (run.step false w.cluster).2.now = w.cluster.now := hc.now
    have hlike := Activity.Alike.sweep hstays huntold
    rw [← hnow] at hlike
    rw [hof]
    exact .inl ⟨hlike, himage.of_inStep hc⟩
  · have hstep' : w'.stepActivity (.sweep run' cancelAt) =
        w'.started (Activity.ofSweep (run'.step false w'.cluster).2
          (run'.step false w'.cluster).1 cancelAt) := by
      rw [stepActivity, himage.alike.now, huntold]
    obtain ⟨hlike, hc'⟩ := ofSweep_alike hgoes hc huntold
    rw [← hc'.now] at hlike
    refine .inr ⟨w'.stepActivity (.sweep run' cancelAt), next_now himage.alike.loops' rfl ?_, ?_⟩
    · rw [himage.alike.now]
      exact sweep_wake_le fun q hq => due_of_mirrors hmirrors hq
    · rw [hstep']
      exact ⟨hlike, himage.of_inStep hc'⟩

/-- **Every event has its like, or shows nowhere.** -/
theorem mirrors_next (k : String) (sweeps : Bool) : Simulates (Mirrored k sweeps) := by
  rintro ⟨a, w⟩ ⟨a', w'⟩ q ⟨hlike, himage⟩ hnext
  simp only at hlike himage
  cases hlike with
  | same within => exact .inr (own_next within himage hnext)
  | sweep mirrors untold => exact sweep_next mirrors untold himage hnext
  | reported t r r' told => exact absurd hnext (not_next_answered t _ w q)

/-- The like of an activity that has been answered has been answered, and alike if they are no
sweeps. -/
theorem Mirrored.answered {sweeps : Bool} {t : Instant} {x : Answer} {v : World}
    {q : Activity × World} (h : Mirrored k sweeps (.answered t x, v) q) :
    ∃ x' v', q = (.answered t x', v') ∧ v.KeyImage k v' ∧ (sweeps = false → x' = x) := by
  obtain ⟨a', v'⟩ := q
  obtain ⟨hlike, himage⟩ := h
  simp only at hlike himage
  cases hlike with
  | same within => exact ⟨x, v', rfl, himage, fun _ => rfl⟩
  | reported s r r' told => exact ⟨_, v', rfl, himage, fun he => Bool.noConfusion he⟩

end World

end Scenario

end ReplicaRing
