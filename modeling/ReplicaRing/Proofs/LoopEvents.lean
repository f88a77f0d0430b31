import ReplicaRing.Proofs.Cancellation

/-!
# Events of a repair loop

What the next event of a repair loop does, whatever the nodes answer and however the ring changes,
and how much its sweep still asks for the key under repair.

* `RepairLoop.Event`, `LoopRun.seen?` — what is seen of an event of a repair loop;
* `LoopRun.Goes`, `step_goes` — the inversion of an event;
* `SweepRun.work`, `Busy.step` — the requests that the key under repair may still cost;
* `LoopRun.left`, `Goes.left_lt` — the events of a loop that has been told to stop run out.
-/

namespace ReplicaRing

/-! ### The work for one key -/

/-- The most requests that the replicas still ahead may cost: two for each of them, and one for the
value of the source if it is not known yet. -/
def KeyRepair.work (job : KeyRepair) : Nat :=
  2 * job.ahead.length + if job.value.isNone then 1 else 0

namespace Sweep

/-- The most requests that a waiting sweep may still send for the key under repair, the one that it
waits for left out if it has been sent. -/
def Waiting.work (asked : Bool) : Waiting → Nat
  | listing _ => 0
  | checking job _ => job.work + 1 + (!asked).toNat
  | fetching job _ => 2 * job.ahead.length + 1 + (!asked).toNat
  | copying job _ _ => job.work + (!asked).toNat

/-- The most requests that a sweep may still send for the key under repair. -/
def Stage.work (asked : Bool) : Stage → Nat
  | .waiting w => w.work asked
  | _ => 0

/-- A request for the key under repair is sent. -/
def Event.asksKey : Event → Bool
  | sends _ _ .keys => false
  | sends _ _ _ => true
  | _ => false

end Sweep

theorem KeyRepair.work_next (job : KeyRepair) : job.next.work false ≤ job.work := by
  rw [next]
  have hlen := (List.dropWhile_suffix (fun x : Handle => x.id == job.source.id)
    (l := job.ahead)).length_le
  cases hd : job.ahead.dropWhile (·.id == job.source.id) with
  | nil => exact Nat.zero_le _
  | cons member rest =>
    rw [hd, List.length_cons] at hlen
    simp only [Sweep.Stage.work, Sweep.Waiting.work, work, Bool.not_false, Bool.toNat_true]
    omega

namespace Sweep

/-- A sweep that asks has one request less to send. -/
theorem Waiting.work_asks (w : Waiting) :
    w.work false = w.work true +
      (Event.asksKey (.sends w.source w.target w.request)).toNat := by
  cases w <;> rfl

/-- Whatever is answered, no more requests are to be sent than before. -/
theorem work_resume (s : Sweep) (w : Waiting) (answer : w.request.Answer) :
    (s.resume w answer).1.stage.work false ≤ w.work true := by
  cases w with
  | listing source => cases answer <;> exact Nat.le_refl 0
  | checking job member =>
    have hnext : job.next.work false ≤ job.work + 1 :=
      (KeyRepair.work_next job).trans (Nat.le_succ _)
    rcases answer with e | _ | value
    · exact hnext
    · cases hv : job.value with
      | some value =>
        simp only [resume, hv]
        exact Nat.le_refl _
      | none =>
        simp only [resume, hv, Stage.work, Waiting.work, KeyRepair.work, Option.isNone_none,
          if_true, Bool.not_false, Bool.not_true, Bool.toNat_true, Bool.toNat_false]
        omega
    · exact hnext
  | fetching job member =>
    rcases answer with e | _ | value
    · exact Nat.zero_le _
    · exact Nat.zero_le _
    · exact Nat.le_refl _
  | copying job member value => cases answer <;> exact KeyRepair.work_next job

end Sweep

namespace SweepRun

open Sweep (Event)

/-- The most requests that a sweep may still send for the key under repair. -/
def work (run : SweepRun) : Nat := run.sweep.stage.work run.inquiry.isSome

/-- The key under repair costs at most two requests for each of its replicas and one more: those
that have been sent, and those that may still be. -/
def Busy (n : Nat) (trace : List Event) (run : SweepRun) : Prop :=
  (Event.recent trace).countP Event.asksKey + run.work ≤ 2 * n + 1

/-- A boundary is passed with the ring as it is. -/
theorem step_boundary {run : SweepRun} (hw : ∀ w, run.sweep.stage ≠ .waiting w) (told : Bool)
    (c : Cluster) :
    (run.step told c).1 = ⟨(run.sweep.proceed c.ring told).1, none⟩ ∧
      run.seen? told c = run.sweep.stage.begins? told := by
  rw [step, seen?]
  cases hst : run.sweep.stage with
  | waiting w => exact absurd hst (hw w)
  | betweenNodes => exact ⟨rfl, rfl⟩
  | betweenKeys source keys => exact ⟨rfl, rfl⟩
  | finished => exact ⟨rfl, rfl⟩

/-- **The work for one key.** An event sends one of the requests that were still to be sent, or the
next key comes up. -/
theorem Busy.step {n : Nat} {trace : List Event} {run : SweepRun} (h : run.Busy n trace)
    (told : Bool) {c : Cluster} (hr : c.ring.Proper) (hn : c.ring.options.replicaCount = n) :
    (run.step told c).1.Busy n (trace ++ (run.seen? told c).toList) := by
  rw [Busy, work] at h
  by_cases hw : ∃ w, run.sweep.stage = .waiting w
  · obtain ⟨w, hw⟩ := hw
    cases hq : run.inquiry with
    | none =>
      have hseen : run.seen? told c = some (.sends w.source w.target w.request) := by
        rw [seen?, hw, hq]
      have hstage : (run.step told c).1.work = w.work true := by
        simp only [SweepRun.step, hw, hq, work, Option.isSome_some, Sweep.Stage.work]
      have hasks := w.work_asks
      rw [hw, hq] at h
      rw [Busy, hseen, hstage, Option.toList_some, Event.recent_concat_of_not rfl,
        List.countP_append, List.countP_singleton]
      have hone : (if Event.asksKey (.sends w.source w.target w.request) = true then 1 else 0) =
          (Event.asksKey (.sends w.source w.target w.request)).toNat := by
        cases Event.asksKey (.sends w.source w.target w.request) <;> rfl
      have hbefore : (Event.recent trace).countP Event.asksKey + w.work false ≤ 2 * n + 1 := h
      omega
    | some q =>
      let answer := heard w (c.receive q w.request).1
      have hseen : run.seen? told c = some (.hears w.source w.target w.request answer) := by
        rw [seen?, hw, hq]
      have hstage : (run.step told c).1.work = (run.sweep.resume w answer).1.stage.work false := by
        simp only [SweepRun.step, hw, hq, work, Option.isSome_none, answer, heard]
      have hresume := Sweep.work_resume run.sweep w answer
      rw [hw, hq] at h
      rw [Busy, hseen, hstage, Option.toList_some, Event.recent_concat_of_not rfl,
        List.countP_append, List.countP_singleton]
      exact (Nat.add_le_add_left hresume _).trans h
  · have hboundary := not_exists.1 hw
    obtain ⟨hstep, hseen⟩ := step_boundary hboundary told c
    rw [Busy, hstep, hseen, work]
    rcases Sweep.proceed_cases c.ring told hboundary with
      ⟨source, key, keys, hbegins, hproceed⟩ | ⟨hbegins, -, hlisting⟩
    · have hlength : (c.ring.placement key).members.length = n := (hr.placement key).1.trans hn
      have hnext := KeyRepair.work_next
        ⟨source, key, none, (c.ring.placement key).members, keys⟩
      rw [hbegins, hproceed, Option.toList_some, Event.recent_concat]
      simp only [KeyRepair.work, hlength] at hnext
      exact (Nat.zero_add _).trans_le hnext
    · have hwork : (run.sweep.proceed c.ring told).1.stage.work false = 0 := by
        cases hst : (run.sweep.proceed c.ring told).1.stage with
        | waiting w =>
          obtain ⟨source, rfl⟩ := hlisting w hst
          rfl
        | betweenNodes => rfl
        | betweenKeys source keys => rfl
        | finished => rfl
      rw [hbegins, Option.toList_none, List.append_nil]
      show _ + (run.sweep.proceed c.ring told).1.stage.work false ≤ 2 * n + 1
      rw [hwork]
      exact (Nat.add_le_add_left (Nat.zero_le _) _).trans h

end SweepRun

/-! ### Events of a loop -/

/-- The node that a sweep takes up at a boundary. -/
def Sweep.visits? (r : Ring) (s : Sweep) : Option Handle :=
  match s.stage, s.sources with
  | .betweenNodes, source :: _ => if r.membership.contains source.id then some source else none
  | _, _ => none

/-- There the sweep passes without a look at anything else. -/
theorem Sweep.proceed_visits {s : Sweep} {r : Ring} {source : Handle} {rest : List Handle}
    (between : s.stage = .betweenNodes) (next : s.sources = source :: rest)
    (member : r.membership.contains source.id = true) :
    s.proceed r false = ({ s with sources := rest, stage := .waiting (.listing source) }, []) ∧
      s.stage.begins? false = none ∧ ∀ w, s.stage ≠ .waiting w := by
  refine ⟨?_, by rw [between]; rfl, fun w hw => by cases between.symm.trans hw⟩
  simp only [proceed, between, next, Bool.false_eq_true, if_false, visit, member, if_true]

namespace RepairLoop

/-- What is seen of a repair loop. -/
inductive Event where
  /-- A sweep starts. -/
  | starts
  /-- The sweep has seen no signal and takes up a node: it begins to list its keys. -/
  | lists (source : Handle)
  /-- Something else is seen of the sweep. -/
  | does (e : Sweep.Event)
  /-- The sweep sees that the loop has been told to stop. -/
  | sees
  /-- The sweep returns. -/
  | ends (r : Report)
  /-- The loop stops while it is idle. -/
  | stops

namespace Event

/-- What is seen of the sweep itself. -/
def ofSweep? : Event → Option Sweep.Event
  | does e => some e
  | _ => none

/-- The report of a sweep that returns. -/
def report? : Event → Option Report
  | ends r => some r
  | _ => none

/-- Whether a sweep returns and is counted. -/
def isCounted (e : Event) : Bool := e.report?.any fun r => !r.cancelled

/-- Something new is taken up: a sweep, a node or a key. -/
def isNew : Event → Bool
  | starts => true
  | lists _ => true
  | does e => e.isBegin
  | _ => false

end Event

end RepairLoop

namespace LoopRun

open RepairLoop (Event)

/-- What is seen of the next event of a loop. -/
def seen? (c : Cluster) (l : LoopRun) : Option Event :=
  match l.loop.phase with
  | .idle =>
    if l.loop.isEnding then some .stops
    else if l.loop.nextTick.ticks ≤ c.now then some .starts else none
  | .sweeping s =>
    if s.isFinished then some (.ends s.report)
    else if l.loop.signalled && s.checks then some .sees
    else
      match s.visits? c.ring with
      | some source => some (.lists source)
      | none => (SweepRun.seen? l.loop.signalled c ⟨s, l.inquiry⟩).map .does
  | .stopped => none

/-- A loop that goes on with a sweep. -/
def withSweep (l : LoopRun) (run : SweepRun) : LoopRun :=
  ⟨{ l.loop with phase := .sweeping run.sweep }, run.inquiry⟩

/-- The next event of a loop. -/
inductive Goes (c : Cluster) (l : LoopRun) : Option Event → LoopRun → Prop
  | waits (l' : LoopRun) (same : l'.loop = l.loop) (idle : l.loop.phase = .idle)
      (going : l.loop.isEnding = false) : Goes c l none l'
  | starts (tick : Duration) (idle : l.loop.phase = .idle) (going : l.loop.isEnding = false) :
      Goes c l (some .starts)
        ⟨{ l.loop with nextTick := tick, phase := .sweeping (.start c.ring.membership) }, none⟩
  | sees (s : Sweep) (sweeping : l.loop.phase = .sweeping s) (told : l.loop.signalled = true)
      (checks : s.checks = true) : Goes c l (some .sees) (l.withSweep ⟨s.cancel, none⟩)
  | lists (s : Sweep) (source : Handle) (rest : List Handle) (sweeping : l.loop.phase = .sweeping s)
      (untold : l.loop.signalled = false) (between : s.stage = .betweenNodes)
      (next : s.sources = source :: rest) (member : c.ring.membership.contains source.id = true) :
      Goes c l (some (.lists source))
        (l.withSweep ⟨{ s with sources := rest, stage := .waiting (.listing source) }, none⟩)
  | does (s : Sweep) (sweeping : l.loop.phase = .sweeping s) (unfinished : s.isFinished = false)
      (unchecked : l.loop.signalled = true → s.checks = false)
      (unvisited : s.visits? c.ring = none) :
      Goes c l ((SweepRun.seen? l.loop.signalled c ⟨s, l.inquiry⟩).map .does)
        (l.withSweep (SweepRun.step ⟨s, l.inquiry⟩ l.loop.signalled c).1)
  | ends (s : Sweep) (sweeping : l.loop.phase = .sweeping s) (finished : s.isFinished = true) :
      Goes c l (some (.ends s.report)) ⟨(l.loop.sweepEnded s.report).1, none⟩
  | stops (idle : l.loop.phase = .idle) (ending : l.loop.isEnding = true) :
      Goes c l (some .stops) ⟨{ l.loop with phase := .stopped }, none⟩
  | rests (stopped : l.loop.phase = .stopped) : Goes c l none l

theorem visits?_eq_some {r : Ring} {s : Sweep} {source : Handle} (h : s.visits? r = some source) :
    ∃ rest, s.stage = .betweenNodes ∧ s.sources = source :: rest ∧
      r.membership.contains source.id = true := by
  rw [Sweep.visits?] at h
  split at h
  · next source' rest hstage hsources =>
    split at h
    · next hmember =>
      obtain rfl := Option.some.inj h
      exact ⟨rest, hstage, hsources, hmember⟩
    · cases h
  · cases h

/-- **The next event of a loop.** There are no other ways to go on. -/
theorem step_goes (l : LoopRun) (c : Cluster) : l.Goes c (l.seen? c) (l.step c).1 := by
  cases hphase : l.loop.phase with
  | idle =>
    cases hending : l.loop.isEnding with
    | true =>
      have hseen : l.seen? c = some .stops := by simp only [seen?, hphase, hending, if_true]
      have hstep : (l.step c).1 = ⟨{ l.loop with phase := .stopped }, none⟩ := by
        simp only [step, hphase, RepairLoop.poll, hending, if_true]
      rw [hseen, hstep]
      exact .stops hphase hending
    | false =>
      by_cases hdue : l.loop.nextTick.ticks ≤ c.now
      · have hseen : l.seen? c = some .starts := by
          simp only [seen?, hphase, hending, Bool.false_eq_true, if_false, if_pos hdue]
        have hstep : (l.step c).1 = ⟨{ l.loop with
            nextTick := l.loop.followingTick c.now
            phase := .sweeping (.start c.ring.membership) }, none⟩ := by
          simp only [step, hphase, RepairLoop.poll, hending, Bool.false_eq_true, if_false,
            if_pos hdue]
        rw [hseen, hstep]
        exact .starts _ hphase hending
      · have hseen : l.seen? c = none := by
          simp only [seen?, hphase, hending, Bool.false_eq_true, if_false, if_neg hdue]
        rw [hseen]
        refine .waits _ ?_ hphase hending
        simp only [step, hphase, RepairLoop.poll, hending, Bool.false_eq_true, if_false,
          if_neg hdue]
  | sweeping s =>
    cases hfinished : s.isFinished with
    | true =>
      have hseen : l.seen? c = some (.ends s.report) := by
        simp only [seen?, hphase, hfinished, if_true]
      have hstep : (l.step c).1 = ⟨(l.loop.sweepEnded s.report).1, none⟩ := by
        simp only [step, hphase, hfinished, if_true]
      rw [hseen, hstep]
      exact .ends s hphase hfinished
    | false =>
      have hstep : (l.step c).1 =
          l.withSweep (SweepRun.step ⟨s, l.inquiry⟩ l.loop.signalled c).1 := by
        simp only [step, hphase, hfinished, Bool.false_eq_true, if_false, withSweep]
      rw [hstep]
      by_cases hsees : l.loop.signalled = true ∧ s.checks = true
      · obtain ⟨htold, hchecks⟩ := hsees
        obtain ⟨hcancel, -, hboundary⟩ := Sweep.proceed_of_checks hchecks c.ring
        have hseen : l.seen? c = some .sees := by
          simp only [seen?, hphase, hfinished, htold, hchecks, Bool.false_eq_true, if_false,
            Bool.and_self, if_true]
        rw [hseen, (SweepRun.step_boundary hboundary _ c).1, htold, hcancel]
        exact .sees s hphase htold hchecks
      · have hsees' : (l.loop.signalled && s.checks) = false := by
          rwa [Bool.eq_false_iff, Ne, Bool.and_eq_true]
        cases hvisits : s.visits? c.ring with
        | some source =>
          obtain ⟨rest, hstage, hsources, hmember⟩ := visits?_eq_some hvisits
          have hseen : l.seen? c = some (.lists source) := by
            simp only [seen?, hphase, hfinished, hsees', hvisits, Bool.false_eq_true, if_false]
          have huntold : l.loop.signalled = false := by
            have hchecks : s.checks = true := by simp only [Sweep.checks, hstage, hsources,
              List.isEmpty_cons, Bool.not_false]
            rwa [hchecks, Bool.and_true] at hsees'
          obtain ⟨hvisit, -, hboundary⟩ := Sweep.proceed_visits hstage hsources hmember
          rw [hseen, (SweepRun.step_boundary hboundary _ c).1, huntold, hvisit]
          exact .lists s source rest hphase huntold hstage hsources hmember
        | none =>
          have hseen : l.seen? c =
              (SweepRun.seen? l.loop.signalled c ⟨s, l.inquiry⟩).map .does := by
            simp only [seen?, hphase, hfinished, hsees', hvisits, Bool.false_eq_true, if_false]
          rw [hseen]
          refine .does s hphase hfinished (fun htold => ?_) hvisits
          rwa [htold, Bool.true_and] at hsees'
  | stopped =>
    have hseen : l.seen? c = none := by rw [seen?, hphase]
    have hstep : (l.step c).1 = l := by rw [step, hphase]
    rw [hseen, hstep]
    exact .rests hphase

end LoopRun

/-! ### Loops that have been told to stop -/

/-- A sweep that has been told to stop does not begin to repair a key. -/
theorem SweepRun.not_isBegin_of_told {run : SweepRun} {c : Cluster} {e : Sweep.Event}
    (h : run.seen? true c = some e) : e.isBegin = false := by
  by_cases hw : ∃ w, run.sweep.stage = .waiting w
  · obtain ⟨w, hw⟩ := hw
    cases hq : run.inquiry with
    | none =>
      rw [seen?, hw, hq] at h
      cases h
      rfl
    | some q =>
      rw [seen?, hw, hq] at h
      cases h
      rfl
  · rw [(step_boundary (not_exists.1 hw) true c).2] at h
    cases hst : run.sweep.stage with
    | betweenKeys source keys => cases keys <;> simp [hst, Sweep.Stage.begins?] at h
    | _ => simp [hst, Sweep.Stage.begins?] at h

namespace LoopRun

open RepairLoop (Event)

variable {c : Cluster} {l l' : LoopRun} {seen : Option Event}

/-- A loop does not forget that it has been told to stop. -/
theorem Goes.told (h : l.Goes c seen l') (htold : l.loop.signalled = true) :
    l'.loop.signalled = true := by
  cases h with
  | waits _ same idle going => exact same ▸ htold
  | ends s sweeping finished =>
    rw [RepairLoop.sweepEnded]
    split <;> exact htold
  | _ => exact htold

/-- The sweep of a loop sees only a signal that has been given. -/
theorem Goes.sees_told (h : l.Goes c seen l') (hseen : seen = some .sees) :
    l.loop.signalled = true := by
  cases h with
  | sees s sweeping told checks => exact told
  | does s sweeping unfinished unchecked unvisited =>
    obtain ⟨e, -, he⟩ := Option.map_eq_some_iff.1 hseen
    cases he
  | _ => cases hseen

/-- A loop that has been told to stop takes up nothing new. -/
theorem Goes.nothing_new (h : l.Goes c seen l') (htold : l.loop.signalled = true) :
    ∀ e, seen = some e → e.isNew = false := by
  have hending : l.loop.isEnding = true := by rw [RepairLoop.isEnding, htold, Bool.true_or]
  cases h with
  | starts tick idle going => exact absurd (hending.symm.trans going) Bool.noConfusion
  | lists s source rest sweeping untold between next member =>
    exact absurd (htold.symm.trans untold) Bool.noConfusion
  | does s sweeping unfinished unchecked unvisited =>
    intro e he
    obtain ⟨e', he', rfl⟩ := Option.map_eq_some_iff.1 he
    exact SweepRun.not_isBegin_of_told (htold ▸ he')
  | waits _ same idle going => rintro e ⟨⟩
  | rests stopped => rintro e ⟨⟩
  | _ => rintro e ⟨⟩; rfl

end LoopRun

namespace Sweep

/-- How many events are left at most of a loop that has been told to stop, from a stage of its sweep
on. -/
def Stage.left (asked : Bool) : Stage → Nat
  | .finished => 2
  | .betweenNodes => 3
  | .betweenKeys _ _ => 4
  | .waiting (.listing _) => 5 + (!asked).toNat
  | .waiting w => 4 + 2 * w.work asked + asked.toNat

theorem Stage.left_le (asked : Bool) (stage : Stage) :
    stage.left asked ≤ 2 * stage.work asked + 6 := by
  have hone := asked.toNat_le
  have hone' := (!asked).toNat_le
  cases stage with
  | waiting w => cases w <;> simp only [left, work, Waiting.work] <;> omega
  | betweenNodes => exact Nat.le_add_left_of_le (by simp only [left]; decide)
  | betweenKeys source keys => exact Nat.le_add_left_of_le (by simp only [left]; decide)
  | finished => exact Nat.le_add_left_of_le (by simp only [left]; decide)

/-- A question leaves less than there was before. -/
theorem Waiting.left_asks (w : Waiting) :
    (Stage.waiting w).left true + 1 ≤ (Stage.waiting w).left false := by
  have hasks := w.work_asks
  cases w <;> simp only [Stage.left, Waiting.request, Event.asksKey, Bool.toNat_true,
    Bool.toNat_false, Bool.not_true, Bool.not_false] at hasks ⊢ <;> omega

theorem resume_ne_listing (s : Sweep) (w : Waiting) (answer : w.request.Answer)
    (source : Handle) : (s.resume w answer).1.stage ≠ .waiting (.listing source) := by
  have hnext : ∀ job : KeyRepair, job.next ≠ .waiting (.listing source) := by
    intro job hjob
    rcases job.next_cases with hn | ⟨member, rest, -, hn⟩
    · cases hn.symm.trans hjob
    · cases hn.symm.trans hjob
  cases w with
  | listing source' => cases answer <;> exact Stage.noConfusion
  | checking job member =>
    rcases answer with e | _ | value
    · exact hnext job
    · intro h
      cases hv : job.value with
      | none =>
        simp only [resume, hv] at h
        cases h
      | some value =>
        simp only [resume, hv] at h
        cases h
    · exact hnext job
  | fetching job member =>
    intro h
    rcases answer with e | _ | value
    · cases h
    · cases h
    · cases h
  | copying job member value => cases answer <;> exact hnext job

/-- An answer leaves less than there was before. -/
theorem left_resume (s : Sweep) (w : Waiting) (answer : w.request.Answer) :
    (s.resume w answer).1.stage.left false + 1 ≤ (Stage.waiting w).left true := by
  have hwork := work_resume s w answer
  have hlisting := resume_ne_listing s w answer
  have hleft : (Stage.waiting w).left true = 4 + 2 * w.work true + 1 := by cases w <;> rfl
  rw [hleft]
  generalize (s.resume w answer).1.stage = stage at hwork hlisting
  cases stage with
  | waiting w' =>
    have hwork' : w'.work false ≤ w.work true := hwork
    have hsame : (Stage.waiting w').left false = 4 + 2 * w'.work false := by
      cases w' with
      | listing source => exact absurd rfl (hlisting source)
      | _ => rfl
    omega
  | betweenNodes => simp only [Stage.left]; omega
  | betweenKeys source keys => simp only [Stage.left]; omega
  | finished => simp only [Stage.left]; omega

end Sweep

namespace LoopRun

/-- How many events are left at most of a loop that has been told to stop. -/
def left (l : LoopRun) : Nat :=
  match l.loop.phase with
  | .idle => 1
  | .sweeping s => s.stage.left l.inquiry.isSome
  | .stopped => 0

variable {c : Cluster} {l l' : LoopRun} {seen : Option RepairLoop.Event}

theorem left_of_sweeping {s : Sweep} (h : l.loop.phase = .sweeping s) :
    l.left = s.stage.left l.inquiry.isSome := by
  rw [left, h]

theorem withSweep_left (l : LoopRun) (run : SweepRun) :
    (l.withSweep run).left = run.sweep.stage.left run.inquiry.isSome := rfl

/-- **Promptness.** Every event of a loop that has been told to stop brings it nearer to its end. -/
theorem Goes.left_lt (h : l.Goes c seen l') (htold : l.loop.signalled = true) :
    l'.left ≤ l.left - 1 := by
  have hending : l.loop.isEnding = true := by rw [RepairLoop.isEnding, htold, Bool.true_or]
  cases h with
  | waits _ same idle going => exact absurd (hending.symm.trans going) Bool.noConfusion
  | starts tick idle going => exact absurd (hending.symm.trans going) Bool.noConfusion
  | lists s source rest sweeping untold between next member =>
    exact absurd (htold.symm.trans untold) Bool.noConfusion
  | sees s sweeping told checks =>
    have hthree : 3 ≤ s.stage.left l.inquiry.isSome := by
      cases hst : s.stage with
      | betweenNodes => exact Nat.le_refl 3
      | betweenKeys source keys => exact Nat.le_succ 3
      | waiting w => exact absurd hst ((Sweep.proceed_of_checks checks c.ring).2.2 w)
      | finished =>
        rw [Sweep.checks, hst] at checks
        cases checks
    have htwo : (l.withSweep ⟨s.cancel, none⟩).left = 2 := rfl
    rw [htwo, left_of_sweeping sweeping]
    exact Nat.le_sub_one_of_lt hthree
  | does s sweeping unfinished unchecked unvisited =>
    have hchecks := unchecked htold
    rw [withSweep_left, left_of_sweeping sweeping]
    cases hst : s.stage with
    | waiting w =>
      cases hq : l.inquiry with
      | none =>
        simp only [SweepRun.step, hst, Option.isSome_some, Option.isSome_none]
        exact Nat.le_sub_one_of_lt w.left_asks
      | some q =>
        simp only [SweepRun.step, hst, Option.isSome_some, Option.isSome_none]
        exact Nat.le_sub_one_of_lt (Sweep.left_resume s w _)
    | betweenNodes =>
      have hsources : s.sources = [] := by
        simpa only [Sweep.checks, hst, Bool.not_eq_false', List.isEmpty_iff] using hchecks
      simp only [SweepRun.step, hst, Sweep.proceed, hsources]
      exact Nat.le_refl 2
    | betweenKeys source keys =>
      have hkeys : keys = [] := by
        simpa only [Sweep.checks, hst, Bool.not_eq_false', List.isEmpty_iff] using hchecks
      simp only [SweepRun.step, hst, Sweep.proceed, hkeys]
      exact Nat.le_refl 3
    | finished =>
      rw [Sweep.isFinished, hst] at unfinished
      cases unfinished
  | ends s sweeping finished =>
    rw [left_of_sweeping sweeping, eq_of_beq finished]
    cases hcancelled : s.report.cancelled with
    | true =>
      simp only [left, RepairLoop.sweepEnded, hcancelled, if_true]
      exact Nat.zero_le _
    | false =>
      simp only [left, RepairLoop.sweepEnded, hcancelled, Bool.false_eq_true, if_false]
      exact Nat.le_refl 1
  | stops idle ending => exact Nat.zero_le _
  | rests stopped =>
    have hzero : l.left = 0 := by rw [left, stopped]
    rw [hzero]

/-- Only a loop that has ended has no events left. -/
theorem isStopped_of_left (h : l.left = 0) : l.loop.isStopped = true := by
  cases hphase : l.loop.phase with
  | stopped => rw [RepairLoop.isStopped, hphase]; rfl
  | idle =>
    rw [left, hphase] at h
    cases h
  | sweeping s =>
    rw [left_of_sweeping hphase] at h
    cases hst : s.stage with
    | waiting w => cases w <;> simp [hst, Sweep.Stage.left] at h
    | _ => simp [hst, Sweep.Stage.left] at h

end LoopRun

end ReplicaRing
