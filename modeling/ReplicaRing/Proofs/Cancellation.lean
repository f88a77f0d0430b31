import ReplicaRing.Proofs.PartialSweep
import ReplicaRing.Proofs.SweepRecords

/-!
# Sweeps that are told to stop

A sweep looks whether it has been told to stop only at a boundary with something ahead. Up to the
first one at which it sees so, it does what it would have done anyway, and a later sweep does the
rest.

* `Sweep.checks` — a boundary with something ahead;
* `after_of_unseen`, `after_stop` — a sweep up to the boundary at which it stops, and from there on;
* `Cluster.sweeping`, `Cluster.StopsAt` — a sweep of a whole ring, and that boundary;
* `sweeping_cases`, `Steady.resumed` — what a sweep has done, and what a later sweep makes of it;
* `Steady.cancelled_sweep` — both;
* `World.performs_sweeping` — the sweep of a client is such a sweep.
-/

namespace ReplicaRing

/-! ### Boundaries -/

namespace Sweep

/-- Whether a sweep is before a node or a key, where it looks whether it has been told to stop. -/
def checks (s : Sweep) : Bool :=
  match s.stage with
  | .betweenNodes => !s.sources.isEmpty
  | .betweenKeys _ keys => !keys.isEmpty
  | _ => false

variable {s : Sweep}

/-- Anywhere else it makes no difference whether it has been told to stop. -/
theorem proceed_of_not_checks (h : s.checks = false) (r : Ring) (told : Bool) :
    s.proceed r told = s.proceed r false ∧ s.stage.begins? told = s.stage.begins? false := by
  cases hst : s.stage with
  | betweenNodes =>
    cases hsrc : s.sources with
    | nil => exact ⟨by simp only [proceed, hst, hsrc], rfl⟩
    | cons source rest =>
      rw [checks, hst, hsrc] at h
      cases h
  | betweenKeys source keys =>
    cases keys with
    | nil => exact ⟨by simp only [proceed, hst], rfl⟩
    | cons key keys =>
      rw [checks, hst] at h
      cases h
  | waiting w => exact ⟨by simp only [proceed, hst], rfl⟩
  | finished => exact ⟨by simp only [proceed, hst], rfl⟩

/-- There a sweep stops if it has been told to, and nothing else is seen of it. -/
theorem proceed_of_checks (h : s.checks = true) (r : Ring) :
    s.proceed r true = (s.cancel, []) ∧ s.stage.begins? true = none ∧
      ∀ w, s.stage ≠ .waiting w := by
  cases hst : s.stage with
  | betweenNodes =>
    cases hsrc : s.sources with
    | nil =>
      rw [checks, hst, hsrc] at h
      cases h
    | cons source rest =>
      refine ⟨?_, rfl, fun w => Stage.noConfusion⟩
      simp only [proceed, hst, hsrc, if_true]
  | betweenKeys source keys =>
    cases keys with
    | nil =>
      rw [checks, hst] at h
      cases h
    | cons key keys =>
      refine ⟨?_, rfl, fun w => Stage.noConfusion⟩
      simp only [proceed, hst, if_true]
  | waiting w =>
    rw [checks, hst] at h
    cases h
  | finished =>
    rw [checks, hst] at h
    cases h

theorem not_checks_of_finished (h : s.isFinished = true) : s.checks = false := by
  rw [isFinished, beq_iff_eq] at h
  rw [checks, h]

end Sweep

/-! ### One event -/

namespace SweepRun

open Sweep (Event)

variable {p : SweepRun × Cluster} {told : Nat → Bool} {b n : Nat}

/-- An event at which a sweep does not see that it has been told to stop. -/
theorem tickTold_of_unseen {t : Bool} (h : ¬ (t = true ∧ p.1.sweep.checks = true)) :
    tickTold t p = tickTold false p ∧ tickSeen t p = tickSeen false p := by
  cases t with
  | false => exact ⟨rfl, rfl⟩
  | true =>
    have hchecks : p.1.sweep.checks = false := Bool.eq_false_iff.2 fun hc => h ⟨rfl, hc⟩
    obtain ⟨hproceed, hbegins⟩ := Sweep.proceed_of_not_checks hchecks p.2.ring true
    constructor
    · by_cases hw : ∃ w, p.1.sweep.stage = .waiting w
      · obtain ⟨w, hw⟩ := hw
        simp only [tickTold, step, hw]
      · rw [tickTold_boundary (not_exists.1 hw), tickTold_boundary (not_exists.1 hw), hproceed]
    · rw [tickSeen, tickSeen, seen?, seen?]
      split
      · rfl
      · rfl
      · rw [hbegins]

/-- The event at which a sweep stops. -/
theorem tickTold_of_seen (h : p.1.sweep.checks = true) :
    ∃ c', tickTold true p = (⟨p.1.sweep.cancel, none⟩, c') ∧ p.2.Alike c' ∧
      tickSeen true p = [] := by
  obtain ⟨hproceed, hbegins, hw⟩ := Sweep.proceed_of_checks h p.2.ring
  have htick := tickTold_boundary hw true
  rw [hproceed] at htick
  refine ⟨_, htick, ⟨rfl, rfl, rfl⟩, ?_⟩
  rw [tickSeen, seen?]
  split
  · next w hw' _ => exact absurd hw' (hw w)
  · next w q hw' _ => exact absurd hw' (hw w)
  · rw [hbegins]
    rfl

/-- A sweep that has come to its end. -/
def Ended (run : SweepRun) : Prop := run.sweep.stage = .finished ∧ run.inquiry = none

theorem Ended.isFinished {run : SweepRun} (h : run.Ended) : run.sweep.isFinished = true := by
  rw [Sweep.isFinished, h.1]
  rfl

/-- A sweep that has come to its end stays as it is. -/
theorem tickTold_of_ended (h : p.1.Ended) (t : Bool) : tickTold t p = p ∧ tickSeen t p = [] := by
  obtain ⟨⟨s, inquiry⟩, c⟩ := p
  obtain ⟨hst, rfl : inquiry = none⟩ := h
  have hstage : s.stage = .finished := hst
  constructor
  · simp only [tickTold, step, hstage, Sweep.proceed, wake, Nat.max_self, Cluster.report,
      Array.append_empty]
  · simp only [tickSeen, seen?, hstage, Sweep.Stage.begins?, Option.toList_none]

theorem after_of_ended (h : (after told p b).1.Ended) (hbn : b ≤ n) :
    after told p n = after told p b ∧ traceOf told p n = traceOf told p b := by
  induction hbn with
  | refl => exact ⟨rfl, rfl⟩
  | @step n hbn ih =>
    obtain ⟨hafter, htrace⟩ := ih
    obtain ⟨htick, hseen⟩ := tickTold_of_ended h (told n)
    rw [after, traceOf, hafter, htrace, htick, hseen, List.append_nil]
    exact ⟨rfl, rfl⟩

/-! ### All events -/

/-- Up to the first event at which it sees that it has been told to stop, a sweep does what it would
have done anyway. -/
theorem after_of_unseen
    (h : ∀ i < n, ¬ (told i = true ∧ (after untold p i).1.sweep.checks = true)) :
    after told p n = after untold p n ∧ traceOf told p n = traceOf untold p n := by
  induction n with
  | zero => exact ⟨rfl, rfl⟩
  | succ n ih =>
    obtain ⟨hafter, htrace⟩ := ih fun i hi => h i (Nat.lt_succ_of_lt hi)
    have hunseen := h n (Nat.lt_succ_self n)
    rw [← hafter] at hunseen
    obtain ⟨htick, hseen⟩ := tickTold_of_unseen hunseen
    rw [after, traceOf, htick, hseen, hafter, htrace]
    exact ⟨rfl, rfl⟩

/-- The first event at which a sweep sees that it has been told to stop. -/
structure StopsAt (told : Nat → Bool) (p : SweepRun × Cluster) (b : Nat) : Prop where
  signalled : told b = true
  checks : (after untold p b).1.sweep.checks = true
  first : ∀ i < b, ¬ (told i = true ∧ (after untold p i).1.sweep.checks = true)

/-- A sweep that does not stop anywhere sees nowhere that it has been told to. -/
theorem unseen_of_not_stopsAt (h : ∀ b, ¬ StopsAt told p b) (i : Nat) :
    ¬ (told i = true ∧ (after untold p i).1.sweep.checks = true) := by
  induction i using Nat.strong_induction_on with
  | _ i ih => exact fun hi => h i ⟨hi.1, hi.2, ih⟩

/-- **Stopping.** A sweep does what it would have done up to the boundary at which it stops, and
nothing from there on. -/
theorem StopsAt.after_stop (h : StopsAt told p b) (hbn : b < n) :
    ∃ c', after told p n = (⟨(after untold p b).1.sweep.cancel, none⟩, c') ∧
      (after untold p b).2.Alike c' ∧ traceOf told p n = traceOf untold p b := by
  obtain ⟨hafter, htrace⟩ := after_of_unseen h.first
  obtain ⟨c', htick, halike, hseen⟩ := tickTold_of_seen h.checks
  have hstop : after told p (b + 1) = (⟨(after untold p b).1.sweep.cancel, none⟩, c') := by
    rw [after, h.signalled, hafter, htick]
  have hended : (after told p (b + 1)).1.Ended := by
    rw [hstop]
    exact ⟨rfl, rfl⟩
  obtain ⟨hlater, htraceLater⟩ := after_of_ended hended hbn
  refine ⟨c', hlater.trans hstop, halike, ?_⟩
  rw [htraceLater, traceOf, htrace, h.signalled, hafter, hseen, List.append_nil]

/-- A sweep that has come to its end does not stop any more. -/
theorem StopsAt.lt_of_ended (h : StopsAt told p b) (hn : (after untold p n).1.Ended) : b < n := by
  by_contra hnb
  have hsame := (after_of_ended hn (Nat.not_lt.1 hnb)).1
  have hchecks := h.checks
  rw [hsame, Sweep.not_checks_of_finished hn.isFinished] at hchecks
  cases hchecks

end SweepRun

/-! ### Sweeps of a whole ring -/

namespace Cluster

open Sweep (Event)
open SweepRun (untold)

/-- A sweep of the whole ring that runs alone, after so many events. -/
def sweeping (told : Nat → Bool) (c : Cluster) (n : Nat) : SweepRun × Cluster :=
  SweepRun.after told (⟨.start c.ring.membership, none⟩, c) n

/-- What is seen of these events. -/
def sweepTrace (told : Nat → Bool) (c : Cluster) (n : Nat) : List Event :=
  SweepRun.traceOf told (⟨.start c.ring.membership, none⟩, c) n

/-- The event at which such a sweep stops: the first boundary with something ahead at which it has
been told to. -/
def StopsAt (told : Nat → Bool) (c : Cluster) (b : Nat) : Prop :=
  SweepRun.StopsAt told (⟨.start c.ring.membership, none⟩, c) b

variable {down : Finset NodeId} {c later : Cluster} {told : Nat → Bool} {b n : Nat}

/-- How far a sweep has come, told to stop or not, it has come without being told. -/
theorem sweeping_cases (told : Nat → Bool) (hn : (c.sweeping untold n).1.Ended) :
    (∃ b, b < n ∧ c.StopsAt told b ∧
      (c.sweeping told n).1 = ⟨(c.sweeping untold b).1.sweep.cancel, none⟩ ∧
      (c.sweeping untold b).2.Alike (c.sweeping told n).2 ∧
      c.sweepTrace told n = c.sweepTrace untold b) ∨
    (∀ b, ¬ c.StopsAt told b) ∧ c.sweeping told n = c.sweeping untold n ∧
      c.sweepTrace told n = c.sweepTrace untold n := by
  by_cases hstops : ∃ b, c.StopsAt told b
  · obtain ⟨b, hb⟩ := hstops
    have hbn : b < n := SweepRun.StopsAt.lt_of_ended hb hn
    obtain ⟨c', hafter, halike, htrace⟩ := SweepRun.StopsAt.after_stop hb hbn
    refine .inl ⟨b, hbn, hb, congrArg Prod.fst hafter, ?_, htrace⟩
    rw [show c.sweeping told n = _ from hafter]
    exact halike
  · have hnone := not_exists.1 hstops
    exact .inr ⟨hnone, SweepRun.after_of_unseen fun i _ => SweepRun.unseen_of_not_stopsAt hnone i⟩

/-- A sweep that has not been told to stop comes to its end, and passes all nodes of the ring. -/
theorem Steady.passed_of_ended (hc : c.Steady down) (hn : (c.sweeping untold n).1.Ended) :
    ∃ nodes keys failures, (c.sweeping untold n).1.sweep.report.cancelled = false ∧
      c.Passed down c.ring.membership.handles (c.sweeping untold n).2 nodes keys
        (c.sweeping untold n).1.sweep.report.copies failures := by
  obtain ⟨m, nodes, keys, copies, failures, d, hm, hpassed⟩ := hc.whole_sweep
  have hended : (c.sweeping untold m).1.Ended := by
    rw [show c.sweeping untold m = _ from hm]
    exact ⟨rfl, rfl⟩
  have hsame : c.sweeping untold n = c.sweeping untold m := by
    rcases Nat.le_total n m with hle | hle
    · exact (SweepRun.after_of_ended hn hle).1.symm
    · exact (SweepRun.after_of_ended hended hle).1
  rw [hsame, show c.sweeping untold m = _ from hm]
  exact ⟨nodes, keys, failures, rfl, hpassed⟩

theorem Steady.exists_ended (hc : c.Steady down) : ∃ n, (c.sweeping untold n).1.Ended := by
  obtain ⟨n, nodes, keys, copies, failures, d, hn, -⟩ := hc.whole_sweep
  refine ⟨n, ?_⟩
  rw [show c.sweeping untold n = _ from hn]
  exact ⟨rfl, rfl⟩

/-- **Resuming.** Whatever a sweep has done by some event, a whole sweep afterwards leaves every
store as it would have left it by its end, and makes the copies that it would still have made. -/
theorem Steady.resumed (hc : c.Steady down) (hn : (c.sweeping untold n).1.Ended) (hbn : b ≤ n)
    (hlater : (c.sweeping untold b).2.Alike later) :
    ∃ m, (later.sweeping untold m).1.Ended ∧
      (later.sweeping untold m).1.sweep.report.cancelled = false ∧
      (∀ h, c.fleet.Houses h → ((later.sweeping untold m).2.fleet.node h).store =
        ((c.sweeping untold n).2.fleet.node h).store) ∧
      (c.sweeping untold b).1.sweep.report.copies +
          (later.sweeping untold m).1.sweep.report.copies =
        (c.sweeping untold n).1.sweep.report.copies := by
  have hstart := SweepRun.underway_start hc
  have hb := hstart.after b
  have hend := hstart.after n
  obtain ⟨nodes, keys, failures, -, hwhole⟩ := hc.passed_of_ended hn
  have hfleet : later.fleet = (SweepRun.after untold _ b).2.fleet := hlater.fleet
  have hring : later.ring = c.ring := hlater.ring.trans hb.evolves.ring
  have hpartly : c.Partly down later := by
    refine hwhole.partly hring (fun x hx k hk => ?_) fun x hx k hk => ?_
    · rw [hfleet]
      exact hb.kept x hx k hk
    · rw [hfleet] at hk ⊢
      exact hstart.keeps hbn x (by rwa [hb.evolves.ring, ← hring]) k hk
  have hsteady : later.Steady down := hb.steady.of_eq hlater.ring hlater.env hlater.fleet
  obtain ⟨m, hm⟩ := hsteady.exists_ended
  obtain ⟨nodes', keys', failures', hcancel, hrest⟩ := hsteady.passed_of_ended hm
  have hlast := (SweepRun.underway_start hsteady).after m
  rw [hring] at hrest
  refine ⟨m, hm, hcancel, fun h hh => ?_, ?_⟩
  · by_cases hmem : h ∈ c.ring.membership.handles
    · have hmem' : h ∈ later.ring.membership.handles := by rwa [hring]
      refine OrderedMap.Sorted.eq_of_find?
        (hlast.steady.sorted h (by rwa [hlast.evolves.ring]))
        (hend.steady.sorted h (by rwa [hend.evolves.ring])) fun k => ?_
      exact hpartly.resumed hwhole hrest h hmem k
    · -- nobody has asked a node that is not on the ring
      have hnode : later.fleet.node h = c.fleet.node h := by
        rw [hfleet]
        exact hb.evolves.others h hh hmem
      have hhouses : later.fleet.Houses h := hfleet ▸ hb.evolves.houses h hh
      have hleft : (later.sweeping untold m).2.fleet.node h = later.fleet.node h :=
        hlast.evolves.others h hhouses (by rwa [hring])
      have hright : (c.sweeping untold n).2.fleet.node h = c.fleet.node h :=
        hend.evolves.others h hh hmem
      rw [hleft, hright, hnode]
  · refine hpartly.copies_add hwhole hrest (hb.filled.congr fun e => ?_) hc.sound
    rw [hfleet]

/-- **Cancelled sweeps.** Members of a set fail and all others answer, and nothing else is at work.
Whenever a sweep is told to stop, its trace is the beginning of what it would have done anyway, up
to the first boundary with something ahead at which it has been told; it is cancelled just if there
is one, and its report is the tally of that trace. A whole sweep afterwards, from any cluster with
the same ring and nodes, leaves every store as one sweep would have, and the copies add up. -/
theorem Steady.cancelled_sweep (hc : c.Steady down) (told : Nat → Bool) :
    ∃ n, (c.sweeping untold n).1.sweep.isFinished = true ∧
      (c.sweeping untold n).1.sweep.report.cancelled = false ∧
      (c.sweeping told n).1.sweep.isFinished = true ∧
      c.sweepTrace told n <+: c.sweepTrace untold n ∧
      (∀ b, c.StopsAt told b → c.sweepTrace told n = c.sweepTrace untold b) ∧
      ((∀ b, ¬ c.StopsAt told b) → c.sweepTrace told n = c.sweepTrace untold n) ∧
      ((c.sweeping told n).1.sweep.report.cancelled = true ↔ ∃ b, c.StopsAt told b) ∧
      (c.sweeping told n).1.sweep.report =
        Report.tally (c.sweeping told n).1.sweep.report.cancelled (c.sweepTrace told n) ∧
      ∀ later, (c.sweeping told n).2.Alike later → ∃ m,
        (later.sweeping untold m).1.sweep.isFinished = true ∧
        (later.sweeping untold m).1.sweep.report.cancelled = false ∧
        (∀ h, c.fleet.Houses h → ((later.sweeping untold m).2.fleet.node h).store =
          ((c.sweeping untold n).2.fleet.node h).store) ∧
        (c.sweeping told n).1.sweep.report.copies +
            (later.sweeping untold m).1.sweep.report.copies =
          (c.sweeping untold n).1.sweep.report.copies := by
  obtain ⟨n, hn⟩ := hc.exists_ended
  obtain ⟨-, -, -, hwhole, -⟩ := hc.passed_of_ended hn
  have htally := (SweepRun.course_after c.ring.membership c told n).agrees.tally
  have hstops : ∀ b, c.StopsAt told b → c.sweepTrace told n = c.sweepTrace untold b := by
    intro b hb
    obtain ⟨c', -, -, htrace⟩ := SweepRun.StopsAt.after_stop hb (hb.lt_of_ended hn)
    exact htrace
  rcases sweeping_cases told hn with ⟨b, hbn, hb, hrun, halike, htrace⟩ |
    ⟨hnone, hsame, htrace⟩
  · have hprefix : c.sweepTrace untold b <+: c.sweepTrace untold n :=
      SweepRun.traceOf_mono _ _ (Nat.le_of_lt hbn)
    have hcopies : (c.sweeping told n).1.sweep.report.copies =
        (c.sweeping untold b).1.sweep.report.copies := by
      rw [hrun]
      rfl
    refine ⟨n, hn.isFinished, hwhole, by rw [hrun]; rfl, htrace ▸ hprefix, hstops,
      fun hnone => absurd hb (hnone b), ⟨fun _ => ⟨b, hb⟩, fun _ => by rw [hrun]; rfl⟩, htally,
      fun later hlater => ?_⟩
    obtain ⟨m, hm, hcancel, hstores, hsum⟩ :=
      hc.resumed hn (Nat.le_of_lt hbn) (halike.trans hlater)
    exact ⟨m, hm.isFinished, hcancel, hstores, hcopies ▸ hsum⟩
  · refine ⟨n, hn.isFinished, hwhole, hsame ▸ hn.isFinished, htrace ▸ List.prefix_refl _, hstops,
      fun _ => htrace, ⟨fun hcancel => ?_, fun ⟨b, hb⟩ => absurd hb (hnone b)⟩, htally,
      fun later hlater => ?_⟩
    · rw [hsame, hwhole] at hcancel
      cases hcancel
    · rw [hsame] at hlater ⊢
      obtain ⟨m, hm, hcancel, hstores, hsum⟩ := hc.resumed hn (Nat.le_refl n) hlater
      exact ⟨m, hm.isFinished, hcancel, hstores, hsum⟩

end Cluster

namespace Scenario.World

open SweepRun (untold)

/-- A sweep over three nodes that is told to stop in the middle of the repair of a key still makes
the copy, and stops before the second node. -/
theorem cancelled_sweep_lameTrio :
    lameTrio.cluster.Steady {⟨30⟩} ∧ lameTrio.cluster.StopsAt (fun i => decide (7 ≤ i)) 13 ∧
      ∃ n m,
        let cut := lameTrio.cluster.sweeping (fun i => decide (7 ≤ i)) n
        cut.1.sweep.report.cancelled = true ∧ cut.1.sweep.report.copies = 1 ∧
          (cut.2.sweeping untold m).1.sweep.isFinished = true ∧
          1 + (cut.2.sweeping untold m).1.sweep.report.copies =
            (lameTrio.cluster.sweeping untold n).1.sweep.report.copies := by
  have hstop : lameTrio.cluster.StopsAt (fun i => decide (7 ≤ i)) 13 :=
    ⟨rfl, by decide +kernel, by decide +kernel⟩
  obtain ⟨n, -, -, -, -, htrace, -, hcancel, htally, hlater⟩ :=
    lameTrio_steady.cancelled_sweep fun i => decide (7 ≤ i)
  obtain ⟨m, hm, -, -, hsum⟩ := hlater _ ⟨rfl, rfl, rfl⟩
  have hcopies : (lameTrio.cluster.sweeping (fun i => decide (7 ≤ i)) n).1.sweep.report.copies =
      1 := by
    have hcount : (lameTrio.cluster.sweepTrace untold 13).countP Sweep.Event.isCopy = 1 := by
      decide +kernel
    rw [htally, htrace 13 hstop]
    exact hcount
  rw [hcopies] at hsum
  exact ⟨lameTrio_steady, hstop, n, m, hcancel.2 ⟨13, hstop⟩, hcopies, hm, hsum⟩

end Scenario.World

/-! ### Sweeps of a client -/

namespace Scenario.World

open SweepRun (untold)

variable {w : World} {down : Finset NodeId}

/-- The time of the next event of a sweep. -/
def clock (p : SweepRun × Cluster) : Instant := max p.2.now (p.1.wake p.2.now)

/-- Whether a sweep with a time of cancellation has been told to stop by some event. -/
def toldBy (cancelAt : Option Instant) (c : Cluster) (i : Nat) : Bool :=
  cancelledBy cancelAt (clock (c.sweeping untold i))

/-- A sweep that has not come to its end has not stopped anywhere. -/
theorem sweeping_of_unfinished {c : Cluster} {told : Nat → Bool} {i : Nat}
    (h : (c.sweeping told i).1.sweep.isFinished = false) :
    c.sweeping told i = c.sweeping untold i := by
  refine (SweepRun.after_of_unseen fun j hj => ?_).1
  induction j using Nat.strong_induction_on with
  | _ j ih =>
    intro hseen
    have hstops : c.StopsAt told j :=
      ⟨hseen.1, hseen.2, fun k hk => ih k hk (Nat.lt_trans hk hj)⟩
    obtain ⟨c', hafter, -, -⟩ := hstops.after_stop hj
    rw [show c.sweeping told i = _ from hafter] at h
    cases h

/-- **Sweeps of a client.** A sweep that is all that goes on is answered with the report of the
sweep that is told to stop at the same point. -/
theorem performs_sweeping (hring : w.hasRing = true) (hl : w.loops = #[])
    (hc : w.cluster.Steady down) (cancelAfter : Option Duration) :
    let cancelAt := cancelAfter.map w.cluster.after
    let sweeping := w.cluster.sweeping (toldBy cancelAt w.cluster)
    ∃ n, (sweeping n).1.sweep.isFinished = true ∧
      w.Performs (.repair cancelAfter)
        (.report (sweeping n).1.sweep.report
          (cancelAt.map fun t => decide (t ≤ (sweeping n).2.now)))
        (settled { w with
          cluster := SweepRun.close (sweeping n).1.sweep.report (sweeping n).2 }) := by
  intro cancelAt sweeping
  have hend : ∃ n, (sweeping n).1.sweep.isFinished = true := by
    obtain ⟨n, hn⟩ := hc.exists_ended
    refine ⟨n, ?_⟩
    rcases Cluster.sweeping_cases (toldBy cancelAt w.cluster) hn with
      ⟨b, -, -, hrun, -⟩ | ⟨-, hsame, -⟩
    · show (w.cluster.sweeping (toldBy cancelAt w.cluster) n).1.sweep.isFinished = true
      rw [hrun]
      rfl
    · show (w.cluster.sweeping (toldBy cancelAt w.cluster) n).1.sweep.isFinished = true
      rw [hsame]
      exact hn.isFinished
  -- the first event after which the sweep has come to its end
  obtain ⟨n, hn, hfirst⟩ : ∃ n, (sweeping n).1.sweep.isFinished = true ∧
      ∀ i < n, (sweeping i).1.sweep.isFinished = false :=
    ⟨Nat.find hend, Nat.find_spec hend, fun i hi => Bool.eq_false_iff.2 (Nat.find_min hend hi)⟩
  have hstep : ∀ i < n, (alone { w with cluster := (sweeping i).2 }
      (.sweep (sweeping i).1 cancelAt)).drain =
      (alone { w with
        cluster := (Activity.ofSweep (sweeping (i + 1)).2 (sweeping (i + 1)).1 cancelAt).2 }
        (Activity.ofSweep (sweeping (i + 1)).2 (sweeping (i + 1)).1 cancelAt).1).drain := by
    intro i hi
    have hsame : sweeping i = w.cluster.sweeping untold i := sweeping_of_unfinished (hfirst i hi)
    have htold : cancelledBy cancelAt (clock (sweeping i)) = toldBy cancelAt w.cluster i := by
      rw [toldBy, ← hsame]
    exact Reaches.drain (.single (next_sweep hl htold rfl))
  have hdrain : ∀ i < n, (alone w (.sweep (sweeping 0).1 cancelAt)).drain =
      (alone { w with cluster := (sweeping i).2 } (.sweep (sweeping i).1 cancelAt)).drain := by
    intro i hi
    induction i with
    | zero => rfl
    | succ i ih =>
      have hunfinished : ¬ (sweeping (i + 1)).1.sweep.isFinished = true := by
        rw [hfirst (i + 1) hi]
        exact Bool.false_ne_true
      rw [ih (Nat.lt_of_succ_lt hi), hstep i (Nat.lt_of_succ_lt hi), Activity.ofSweep,
        if_neg hunfinished]
  cases n with
  | zero => cases hn
  | succ n =>
    refine ⟨n + 1, hn, performs_of_drain (t := (sweeping (n + 1)).2.now) hl
      (begin_of_hasRing hring _) ?_⟩
    have hlast := (hdrain n (Nat.lt_succ_self n)).trans (hstep n (Nat.lt_succ_self n))
    rw [Activity.ofSweep, if_pos hn] at hlast
    exact hlast.trans (drain_answered _ _ _)

end Scenario.World

end ReplicaRing
