import ReplicaRing.Proofs.ClientRuns
import ReplicaRing.Proofs.SweepResult

/-!
# Sweeps that take no time

Nodes without faults answer at once, so the clock stands still while a sweep over them goes on. A
sweep that is told to stop has therefore been told so before its first node, or it is told too late.

* `SweepRun.Prompt` — a sweep that does not have to wait;
* `Prompt.reaches` — it takes no time;
* `performs_repair_stopped` — a sweep that has been told to stop before its first node;
* `performs_repair_prompt` — any other sweep is complete.
-/

namespace ReplicaRing

/-- A request to a node without faults is due at once. -/
theorem Fleet.Memory.launch_due {f : Fleet} (hf : f.Memory) (env : Env) (now : Instant)
    (h : Handle) (r : Request) : (f.launch env now h r).1.due = now := by
  have hfate : (f.begin env h r).1 = .immediate := by
    rw [Fleet.begin, (hf.node h).begin_eq]
  rw [Fleet.launch]
  simp [hfate, Fate.immediate]

/-- An answer arrives when it arrives, and no fault comes with it. -/
theorem Cluster.receive_memory {c : Cluster} (hc : c.fleet.Memory) (q : Inquiry) (r : Request) :
    (c.receive q r).2.now = c.now ∧ (c.receive q r).2.fleet.Memory := by
  rw [Cluster.receive]
  split
  · obtain ⟨listed, hlisted⟩ := Cluster.arrange_snd
      (c := { c with fleet := (c.fleet.conclude q.flight.target r q.flight.verdict).2.1 }) r
      (c.fleet.conclude q.flight.target r q.flight.verdict).1
    simp only [Cluster.report, hlisted]
    exact ⟨trivial, hc.conclude _ _ _⟩
  · exact ⟨rfl, hc⟩

namespace SweepRun

/-- A sweep over nodes without faults waits for nothing that is not there already. -/
structure Prompt (p : SweepRun × Cluster) : Prop where
  memory : p.2.fleet.Memory
  due : ∀ q, p.1.inquiry = some q → q.flight.due ≤ p.2.now

variable {p q : SweepRun × Cluster}

theorem Prompt.wake_le (h : Prompt p) : p.1.wake p.2.now ≤ p.2.now := by
  rw [wake]
  split
  · next q hq =>
    have hdue := h.due q hq
    rw [Inquiry.wake]
    split
    · exact Nat.le_trans (Nat.min_le_left _ _) hdue
    · exact hdue
  · exact Nat.le_refl _

/-- An event takes no time. -/
theorem Prompt.step (h : Prompt p) (cancelled : Bool) :
    Prompt (p.1.step cancelled p.2) ∧ (p.1.step cancelled p.2).2.now = p.2.now := by
  rw [SweepRun.step]
  split
  · next w _ =>
    split
    · refine ⟨⟨h.memory.launch _ p.2.now _ _, fun q hq => ?_⟩, rfl⟩
      obtain rfl := Option.some.inj hq
      exact Nat.le_of_eq (h.memory.launch_due _ _ _ _)
    · next q _ =>
      obtain ⟨hnow, hmemory⟩ := Cluster.receive_memory h.memory q w.request
      exact ⟨⟨hmemory, fun _ hq => absurd hq.symm (Option.some_ne_none _)⟩, hnow⟩
  · exact ⟨⟨h.memory, fun _ hq => absurd hq.symm (Option.some_ne_none _)⟩, rfl⟩

theorem Prompt.tick (h : Prompt p) :
    Prompt (SweepRun.tick p) ∧ (SweepRun.tick p).2.now = p.2.now := by
  rw [SweepRun.tick, Nat.max_eq_left h.wake_le]
  exact h.step false

/-- **A prompt sweep takes no time.** -/
theorem Prompt.reaches (h : Prompt p) (hr : Reaches p q) : Prompt q ∧ q.2.now = p.2.now := by
  induction hr with
  | refl => exact ⟨h, rfl⟩
  | tail _ hstep ih =>
    obtain ⟨-, rfl⟩ := hstep
    obtain ⟨hprompt, hnow⟩ := ih.1.tick
    exact ⟨hprompt, hnow.trans ih.2⟩

end SweepRun

namespace Scenario.World

variable {w : World}

/-- A sweep that has been told to stop before its first node does nothing. -/
theorem performs_repair_stopped (hring : w.hasRing = true) (hl : w.loops = #[])
    (hne : w.cluster.ring.membership.handles ≠ []) {cancelAfter : Option Duration}
    (hstop : cancelledBy (cancelAfter.map w.cluster.after) w.cluster.now = true) :
    ∃ r told, w.Performs (.repair cancelAfter) (.report r told)
        (settled { w with cluster := SweepRun.close r w.cluster }) ∧ r.cancelled = true := by
  obtain ⟨source, rest, hsources⟩ := List.exists_cons_of_ne_nil hne
  let s : Sweep := .start w.cluster.ring.membership
  have hbegin : w.begin (.repair cancelAfter) =
      (.sweep ⟨s, none⟩ (cancelAfter.map w.cluster.after), w) := begin_of_hasRing hring _
  have hproceed : s.proceed w.cluster.ring true = (s.cancel, []) := by
    simp only [s, Sweep.proceed, Sweep.start, hsources, if_true]
  have hstep : w.stepActivity (.sweep ⟨s, none⟩ (cancelAfter.map w.cluster.after)) =
      w.started (Activity.ofSweep (w.cluster.report []) ⟨s.cancel, none⟩
        (cancelAfter.map w.cluster.after)) := by
    rw [stepActivity, hstop]
    exact congrArg (fun p => w.started (Activity.ofSweep (w.cluster.report p.2) ⟨p.1, none⟩
      (cancelAfter.map w.cluster.after))) hproceed
  have hdrain := drain_alone (a := .sweep ⟨s, none⟩ (cancelAfter.map w.cluster.after))
    hl (t := w.cluster.now) rfl
  rw [advanceTo_now, hstep] at hdrain
  exact ⟨_, _, performs_of_drain hl hbegin (hdrain.trans (drain_answered _ _ _)), rfl⟩

/-- **A prompt sweep is complete,** unless it has been told to stop before its first node. -/
theorem performs_repair_prompt {down : Finset NodeId} (hring : w.hasRing = true)
    (hl : w.loops = #[]) (hc : w.cluster.Steady down) (hm : w.cluster.fleet.Memory)
    {cancelAfter : Option Duration}
    (hgo : cancelledBy (cancelAfter.map w.cluster.after) w.cluster.now = false) :
    ∃ (c' : Cluster) (r : Report) (told : Option Bool),
      w.Performs (.repair cancelAfter) (.report r told)
        (settled { w with cluster := SweepRun.close r c' }) ∧
      w.cluster.Evolves c' ∧ r.cancelled = false ∧
      w.cluster.Passed down w.cluster.ring.membership.handles c' r.nodesScanned r.keysScanned
        r.copies r.failures := by
  have hstart : SweepRun.Prompt (⟨.start w.cluster.ring.membership, none⟩, w.cluster) :=
    ⟨hm, fun _ hq => absurd hq.symm (Option.some_ne_none _)⟩
  obtain ⟨c', r, hperforms, -, hev, hcancel, -, hpassed⟩ :=
    performs_repair hring hl hc cancelAfter fun p hp => by
      obtain ⟨hprompt, hnow⟩ := hstart.reaches hp
      rw [Nat.max_eq_left hprompt.wake_le, hnow]
      exact hgo
  exact ⟨c', r, _, hperforms, hev, hcancel, hpassed⟩

end Scenario.World

end ReplicaRing
