import ReplicaRing.Proofs.PlainWorld
import ReplicaRing.Proofs.RaceEvents
import ReplicaRing.Proofs.Schedules

/-!
# A sweep against a write

A client writes a key while one sweep goes on, and nobody else touches the key. Whatever order their
events take, the history of the key tells whether the write lasts.

* `World.race` — a write and a sweep that are about to start;
* `World.happening?` — what a turn shows of the key;
* `Racing` — what holds at every point of such a race;
* `race_lasts_iff` — the write lasts exactly if the sweep has not overwritten it.
-/

namespace ReplicaRing

/-! ### Outcomes of a write -/

/-- A write that has missed nobody has been acknowledged by all of its members. -/
theorem FanOut.mem_acked {f : FanOut} (h : f.missed = []) {id : NodeId} (hid : id ∈ f.members) :
    id ∈ f.acked := by
  rw [missed, List.append_eq_nil_iff, List.map_eq_nil_iff] at h
  obtain ⟨hfailed, htimed⟩ := h
  rw [timedOut, List.filter_eq_nil_iff] at htimed
  have hin := htimed id hid
  rw [hfailed] at hin
  simpa using hin

theorem FanOut.settle_ok {f : FanOut} {o : RingOptions} {key : String} {t : Duration}
    {outcome : WriteOutcome} (h : f.settle o key t = .ok outcome) :
    outcome = ⟨f.acked, f.missed⟩ := by
  rw [settle] at h
  split at h
  · exact (Except.ok.inj h).symm
  · split at h <;> exact absurd h (by simp)

namespace Scenario

/-! ### Events of the two activities -/

/-- What shows of a key when an activity goes on. -/
def Activity.happening? (key : String) (c : Cluster) : Activity → Option Happening
  | .write r _ => if r.key = key then r.landing?.map .applied else none
  | .sweep run _ => run.happening? key c.fleet
  | _ => none

theorem Activity.happening?_later (key : String) (c : Cluster) (t : Instant) (op : Op) :
    (Activity.later t op).happening? key c = none := rfl

theorem Activity.happening?_answered (key : String) (c : Cluster) (t : Instant) (x : Answer) :
    (Activity.answered t x).happening? key c = none := rfl

/-- The replica that an activity has found to lack a key and is about to fill. -/
def Activity.lacks? (key : String) : Activity → Option Handle
  | .sweep run _ => run.sweep.stage.lacks? key
  | _ => none

/-- Where the write of a race stands. -/
inductive Writing (ring : Ring) (change : Change) (key : String) (past : List Happening) :
    Activity → Prop where
  | later (t : Instant) (timeout : Option Duration) (fresh : ∀ h, .applied h ∉ past) :
    Writing ring change key past (.later t (World.changeOp key timeout change))
  | going (r : Write) (tracks : r.Tracks ring change key past) :
    Writing ring change key past (.write r true)
  | ended (t : Instant) (x : Answer)
      (complete : ∀ o, x = .written o → o.missed = [] →
        ∀ h ∈ (ring.placement key).members, .applied h ∈ past) :
    Writing ring change key past (.answered t x)

/-- Where the sweep of a race stands. -/
inductive Sweeping (ring : Ring) : Activity → Prop where
  | later (t : Instant) (cancel : Option Duration) : Sweeping ring (.later t (.repair cancel))
  | going (run : SweepRun) (cancelAt : Option Instant) (ready : run.Ready ring) :
    Sweeping ring (.sweep run cancelAt)
  | ended (t : Instant) (x : Answer) : Sweeping ring (.answered t x)

variable {ring : Ring} {change : Change} {key : String} {past : List Happening} {c : Cluster}

/-- A write that is under way, or over with everybody reached if nobody has been missed. -/
theorem ofWrite_writing {r : Write} (h : r.Tracks ring change key past) :
    ∃ a c', Activity.ofWrite c r true = (a, c') ∧ c'.ring = c.ring ∧ c'.env = c.env ∧
      c'.fleet = c.fleet ∧ Writing ring change key past a := by
  by_cases hdone : r.isDone = true
  · rw [Activity.ofWrite, if_pos hdone, if_pos rfl]
    refine ⟨_, _, rfl, rfl, rfl, rfl, .ended _ _ fun o ho hmissed x hx => ?_⟩
    split at ho
    · next outcome hsettle =>
      obtain rfl := Answer.written.inj ho
      obtain rfl := FanOut.settle_ok hsettle
      refine h.acked x hx (FanOut.mem_acked hmissed ?_)
      rw [h.members]
      exact List.mem_map_of_mem hx
    · exact absurd ho (by simp)
  · rw [Activity.ofWrite, if_neg hdone]
    exact ⟨_, _, rfl, rfl, rfl, rfl, .going r h⟩

theorem ofSweep_sweeping (c : Cluster) {run : SweepRun} (h : run.Ready ring)
    (cancelAt : Option Instant) (key : String) :
    ∃ a c', Activity.ofSweep c run cancelAt = (a, c') ∧ c'.ring = c.ring ∧ c'.env = c.env ∧
      c'.fleet = c.fleet ∧ Sweeping ring a ∧ a.lacks? key = run.sweep.stage.lacks? key := by
  by_cases hdone : run.sweep.isFinished = true
  · rw [Activity.ofSweep, if_pos hdone]
    have hstage : run.sweep.stage = .finished := by
      simpa [Sweep.isFinished] using hdone
    refine ⟨_, _, rfl, rfl, rfl, rfl, .ended _ _, ?_⟩
    rw [hstage]
    rfl
  · rw [Activity.ofSweep, if_neg hdone]
    exact ⟨_, _, rfl, rfl, rfl, rfl, .going run cancelAt h, rfl⟩

/-! ### The turns of a race -/

variable {w : World} {a : Activity}

/-- A turn of the write. -/
theorem Writing.turn (hw : w.hasRing = true) (hc : w.cluster.Steady ∅)
    (ha : Writing w.cluster.ring change key past a) (lacks : Option Handle) :
    ∃ a' c', w.stepActivity a = (a', { w with cluster := c' }) ∧
      c'.Steady ∅ ∧ w.cluster.Evolves c' ∧
      Writing w.cluster.ring change key (past ++ (a.happening? key w.cluster).toList) a' ∧
      View.Goes change.value w.cluster.ring.membership.handles
        (w.cluster.ring.placement key).members past ⟨fun x => w.cluster.fleet.held x key, lacks⟩
        ⟨fun x => c'.fleet.held x key, lacks⟩ (a.happening? key w.cluster) := by
  cases ha with
  | later t timeout fresh =>
    rw [Activity.happening?_later, Option.toList_none, List.append_nil, World.stepActivity]
    by_cases hfits : (w.cluster.ring.options.limit timeout).fits = true
    · let c₀ := (w.cluster.beginOp change.op).report [w.cluster.ring.placementEvent key]
      have hc₀ : c₀.Steady ∅ := hc.of_eq rfl rfl rfl
      obtain ⟨⟨r, f⟩, hstart⟩ : ∃ p, Write.start w.cluster.env w.cluster.now
          (w.cluster.ring.options.limit timeout) change key
          (w.cluster.ring.placement key) w.cluster.fleet = p := ⟨_, rfl⟩
      obtain ⟨htracks, hst, hev, hsame⟩ := Write.Tracks.start hc₀ fresh _ hstart
      obtain ⟨a', c', hof, hring, henv, hfleet, hwriting⟩ :=
        ofWrite_writing (c := { c₀ with fleet := f }) htracks
      refine ⟨a', c', ?_, hst.of_eq hring henv hfleet, ?_, hwriting, ?_⟩
      · rw [World.begin_change hw hfits hstart]
        exact congrArg w.started hof
      · have hev₀ : w.cluster.Evolves c₀ := .of_eq rfl rfl rfl
        exact hev₀.trans (hev.trans (.of_eq hring henv hfleet))
      · refine .quietly (fun x hx => ?_) (.inl rfl)
        simp only [hfleet]
        exact congrArg (OrderedMap.find? · key) (hsame x hx)
    · rw [World.breaks_change hw hfits]
      exact ⟨_, _, rfl, hc.of_eq rfl rfl rfl, .of_eq rfl rfl rfl,
        .ended _ _ fun _ h => absurd h (by simp), .quietly (fun _ _ => rfl) (.inl rfl)⟩
  | going r tracks =>
    obtain ⟨⟨r', f, events⟩, hstep⟩ : ∃ p, r.step w.cluster.fleet = p := ⟨_, rfl⟩
    obtain ⟨htracks, hst, hev, hgoes⟩ := tracks.goes hc hstep lacks
    have hhap : Activity.happening? key w.cluster (.write r true) = r.landing?.map .applied :=
      if_pos tracks.sameKey
    obtain ⟨a', c', hof, hring, henv, hfleet, hwriting⟩ :=
      ofWrite_writing (c := { w.cluster with fleet := f }.report events) htracks
    refine ⟨a', c', ?_, hst.of_eq hring henv hfleet, hev.trans (.of_eq hring henv hfleet), ?_,
      ?_⟩
    · rw [World.stepActivity, hstep]
      exact congrArg w.started hof
    · rwa [hhap]
    · rw [hhap, hfleet]
      exact hgoes
  | ended t x complete =>
    refine ⟨_, w.cluster, rfl, hc, .refl _, ?_, .quietly (fun _ _ => rfl) (.inl rfl)⟩
    rw [Activity.happening?_answered, Option.toList_none, List.append_nil]
    exact .ended t x complete

/-- A turn of the sweep. -/
theorem Sweeping.turn (hw : w.hasRing = true) (hc : w.cluster.Steady ∅)
    (ha : Sweeping w.cluster.ring a) (left : Option String) (key : String)
    (past : List Happening) :
    ∃ a' c', w.stepActivity a = (a', { w with cluster := c' }) ∧
      c'.Steady ∅ ∧ w.cluster.Evolves c' ∧ Sweeping w.cluster.ring a' ∧
      View.Goes left w.cluster.ring.membership.handles
        (w.cluster.ring.placement key).members past
        ⟨fun x => w.cluster.fleet.held x key, a.lacks? key⟩
        ⟨fun x => c'.fleet.held x key, a'.lacks? key⟩ (a.happening? key w.cluster) := by
  cases ha with
  | later t cancel =>
    refine ⟨.sweep { sweep := .start w.cluster.ring.membership }
      (cancel.map w.cluster.after), w.cluster, ?_, hc, .refl _, .going _ _ ⟨⟨?_, ?_⟩, ?_⟩,
      .quietly (fun _ _ => rfl) (.inl rfl)⟩
    · rw [World.stepActivity, World.begin_of_hasRing hw]
      rfl
    · exact fun h hh => hh
    · trivial
    · exact fun _ _ h => absurd h (by simp [Sweep.start])
  | going run cancelAt ready =>
    obtain ⟨⟨run', c₁⟩, hstep⟩ :
        ∃ p, run.step (cancelledBy cancelAt w.cluster.now) w.cluster = p := ⟨_, rfl⟩
    obtain ⟨hready, hst, hev, hgoes⟩ := ready.goes hc hstep
    obtain ⟨a', c', hof, hring, henv, hfleet, hsweeping, hlacks⟩ :=
      ofSweep_sweeping c₁ hready cancelAt key
    refine ⟨a', c', ?_, hst.of_eq hring henv hfleet, hev.trans (.of_eq hring henv hfleet),
      hsweeping, ?_⟩
    · rw [World.stepActivity, hstep]
      exact congrArg w.started hof
    · rw [hlacks, hfleet]
      exact hgoes
  | ended t x =>
    exact ⟨_, w.cluster, rfl, hc, .refl _, .ended t x, .quietly (fun _ _ => rfl) (.inl rfl)⟩

theorem Sweeping.not_applied (hb : Sweeping ring a) (x : Handle) :
    a.happening? key c ≠ some (.applied x) := by
  cases hb with
  | later t cancel => simp [Activity.happening?_later]
  | going run cancelAt ready =>
    simp only [Activity.happening?, SweepRun.happening?]
    split
    · split <;> simp
    · split <;> simp
    · simp
  | ended t x => simp [Activity.happening?_answered]

/-- What the sweep does is none of the write's business. -/
theorem Writing.concat (ha : Writing ring change key past a) {e : Option Happening}
    (he : ∀ x, e ≠ some (.applied x)) : Writing ring change key (past ++ e.toList) a := by
  have hpast : ∀ x, .applied x ∈ past ++ e.toList ↔ .applied x ∈ past := by
    intro x
    rw [List.mem_append, Option.mem_toList]
    exact or_iff_left (he x)
  cases ha with
  | later t timeout fresh => exact .later t timeout fun h => (hpast h).not.2 (fresh h)
  | going r tracks =>
    exact .going r
      { tracks with
        ahead := fun q hq => ⟨(tracks.ahead q hq).1, (hpast _).not.2 (tracks.ahead q hq).2⟩
        acked := fun h hh hack => (hpast h).2 (tracks.acked h hh hack) }
  | ended t x complete =>
    exact .ended t x fun o ho hmissed h hh => (hpast h).2 (complete o ho hmissed h hh)

/-- What holds at every point of a race: the write and the sweep are where they can be, and the
history explains the values under the key. -/
structure Racing (ring : Ring) (change : Change) (key : String) (start : Handle → Option String)
    (w : World) (past : List Happening) : Prop where
  hasRing : w.hasRing = true
  noLoops : w.loops = #[]
  sameRing : w.cluster.ring = ring
  steady : w.cluster.Steady ∅
  stages : ∃ a b, w.activities = #[a, b] ∧ Writing ring change key past a ∧ Sweeping ring b ∧
    Explains change.value ring.membership.handles (ring.placement key).members start past
      ⟨fun x => w.cluster.fleet.held x key, b.lacks? key⟩

variable {start : Handle → Option String}

/-- What a turn shows of a key. -/
def World.happening? (key : String) (w : World) : World.Turn → Option Happening
  | .activity i => w.activities[i]?.bind (Activity.happening? key w.cluster)
  | .loop _ => none

/-- An activity of a race goes on. -/
theorem Racing.activity (h : Racing ring change key start w past) {i : Nat}
    (hi : w.activities[i]? = some a) :
    Racing ring change key start (w.go (.activity i))
      (past ++ (a.happening? key w.cluster).toList) := by
  obtain ⟨hring, hl, rfl, hc, wr, sw, hact, hwr, hsw, hex⟩ := h
  have hsub : ∀ x ∈ (w.cluster.ring.placement key).members,
      x ∈ w.cluster.ring.membership.handles := fun x hx => hc.sound.placement_subset hx
  rw [World.go_activity_some hi]
  rw [hact] at hi
  match i with
  | 0 =>
    obtain rfl : wr = a := Option.some.inj hi
    obtain ⟨a', c', hstep, hst, hev, hwr', hgoes⟩ := hwr.turn hring hc (sw.lacks? key)
    rw [hstep]
    refine ⟨hring, hl, hev.ring, hst, a', sw, ?_, hwr', hsw, hex.goes hsub hgoes⟩
    simp [hact]
  | 1 =>
    obtain rfl : sw = a := Option.some.inj hi
    obtain ⟨a', c', hstep, hst, hev, hsw', hgoes⟩ :=
      hsw.turn hring hc change.value key past
    rw [hstep]
    refine ⟨hring, hl, hev.ring, hst, wr, a', ?_, hwr.concat hsw.not_applied, hsw',
      hex.goes hsub hgoes⟩
    simp [hact]
  | i + 2 => simp at hi

/-- **A turn of a race.** -/
theorem Racing.turn (h : Racing ring change key start w past) (x : World.Turn) :
    Racing ring change key start (w.go x) (past ++ (w.happening? key x).toList) := by
  cases x with
  | activity i =>
    cases hi : w.activities[i]? with
    | none =>
      rw [World.go_activity_none hi, World.happening?, hi, Option.bind_none, Option.toList_none,
        List.append_nil]
      exact h
    | some a =>
      rw [World.happening?, hi]
      exact h.activity hi
  | loop i =>
    have hnone : w.loops[i]? = none := by simp [h.noLoops]
    rw [World.go_loop_none hnone, World.happening?, Option.toList_none, List.append_nil]
    exact h

theorem Racing.explains (h : Racing ring change key start w past) :
    ∃ lacks, Explains change.value ring.membership.handles (ring.placement key).members start past
      ⟨fun x => w.cluster.fleet.held x key, lacks⟩ := by
  obtain ⟨a, b, -, -, -, hex⟩ := h.stages
  exact ⟨_, hex⟩

/-- A write that has missed nobody has reached all replicas. -/
theorem Racing.applied (h : Racing ring change key start w past) {t : Instant}
    {acked : List NodeId}
    (hwritten : w.activities[0]? = some (.answered t (.written ⟨acked, []⟩))) :
    ∀ x ∈ (ring.placement key).members, .applied x ∈ past := by
  obtain ⟨a, b, hact, hwr, -, -⟩ := h.stages
  rw [hact] at hwritten
  obtain rfl : a = .answered t (.written ⟨acked, []⟩) := Option.some.inj hwritten
  cases hwr with
  | ended _ _ complete => exact complete _ rfl rfl

namespace World

/-- A world in which a write of a client and a sweep are about to start. -/
def race (w : World) (change : Change) (key : String) (timeout cancel : Option Duration)
    (t t' : Instant) : World :=
  { w with
    activities := #[.later t (changeOp key timeout change), .later t' (.repair cancel)]
    loops := #[] }

/-- The history of a key in a race. -/
theorem racing_follow (hw : w.hasRing = true) (hc : w.cluster.Steady ∅) (change : Change)
    (key : String) (timeout cancel : Option Duration) (t t' : Instant)
    (turns : List (Instant × Turn)) :
    Racing w.cluster.ring change key (fun x => w.cluster.fleet.held x key)
      ((w.race change key timeout cancel t t').follow turns)
      ((w.race change key timeout cancel t t').trace (happening? key) turns) := by
  have hstart : Racing w.cluster.ring change key (fun x => w.cluster.fleet.held x key)
      (w.race change key timeout cancel t t') [] :=
    ⟨hw, rfl, rfl, hc, _, _, rfl, .later t timeout fun _ => List.not_mem_nil, .later t' cancel,
      .nil (fun _ _ => rfl) rfl⟩
  refine trace_induction (happening? key) (fun w l t h => ?_) (fun w l x h => h.turn x) turns hstart
  obtain ⟨hring, hl, hsame, hst, hstages⟩ := h
  exact ⟨hring, hl, hsame, hst.of_eq rfl rfl rfl, hstages⟩

/-- **A write against a sweep.** The nodes of a ring always answer. A client writes a key and is
told that nobody has been missed, while one sweep goes on in any order of events. A put lasts unless
it reaches some replica after the sweep has found that replica empty and before the sweep copies
another value to it. A delete of a key that only replicas held lasts unless some copy of the sweep
reaches a replica after the delete. -/
theorem race_lasts_iff (hw : w.hasRing = true) (hc : w.cluster.Steady ∅) (change : Change)
    (key : String) (timeout cancel : Option Duration) (t t' : Instant)
    (turns : List (Instant × Turn)) {w' : World} {past : List Happening}
    (hfollow : (w.race change key timeout cancel t t').follow turns = w')
    (hpast : (w.race change key timeout cancel t t').trace (happening? key) turns = past)
    {time : Instant} {acked : List NodeId}
    (hwritten : w'.activities[0]? = some (.answered time (.written ⟨acked, []⟩))) :
    (∀ value, change = .put value →
      ((∀ h ∈ (w.cluster.ring.placement key).members,
          w'.cluster.fleet.held h key = some value) ↔
        ¬ ∃ h u, u ≠ value ∧ [.lacking h, .applied h, .copied h u].Sublist past)) ∧
    (change = .delete →
      (∀ h ∈ w.cluster.ring.membership.handles, h ∉ (w.cluster.ring.placement key).members →
        w.cluster.fleet.held h key = none) →
      ((∀ h ∈ w.cluster.ring.membership.handles, w'.cluster.fleet.held h key = none) ↔
        ¬ ∃ h u, [.applied h, .copied h u].Sublist past)) := by
  subst hfollow hpast
  have hracing := racing_follow hw hc change key timeout cancel t t' turns
  obtain ⟨lacks, hex⟩ := hracing.explains
  have hall := hracing.applied hwritten
  have hsub : ∀ x ∈ (w.cluster.ring.placement key).members,
      x ∈ w.cluster.ring.membership.handles := fun x hx => hc.sound.placement_subset hx
  constructor
  · rintro value rfl
    exact hex.put_iff hsub hall
  · rintro rfl hstart
    exact hex.delete_iff hsub hall hstart

/-! ### A race that is lost -/

/-- Two replicas that take their time. The second one lacks a key. -/
def slowPair : World where
  cluster :=
    { fleet := ⟨#[
        { id := ⟨10⟩, store := ⟨[("k", "old")]⟩, faults := .injected { latency := .ofMillis 10 } },
        { id := ⟨20⟩, faults := .injected { latency := .ofMillis 20 } }]⟩
      ring := ⟨fun _ => 0, { replicaCount := 2, opTimeout := .ofMillis 1000 },
        ⟨⟨[(⟨10⟩, ⟨⟨10⟩, 0⟩), (⟨20⟩, ⟨⟨20⟩, 1⟩)]⟩, 0⟩⟩ }

theorem slowPair_forall {P : Handle → Prop} (h₁ : P ⟨⟨10⟩, 0⟩) (h₂ : P ⟨⟨20⟩, 1⟩) :
    ∀ h ∈ slowPair.cluster.ring.membership.handles, P h := by
  intro h hh
  have hlist : slowPair.cluster.ring.membership.handles = [⟨⟨10⟩, 0⟩, ⟨⟨20⟩, 1⟩] := rfl
  rw [hlist, List.mem_cons, List.mem_singleton] at hh
  rcases hh with rfl | rfl
  · exact h₁
  · exact h₂

theorem slowPair_steady : slowPair.cluster.Steady ∅ where
  sound := ⟨by unfold OrderedMap.Sorted; decide, by decide⟩
  houses := slowPair_forall ⟨_, rfl, rfl⟩ ⟨_, rfl, rfl⟩
  sorted := slowPair_forall (List.pairwise_singleton _ _) .nil
  answering := slowPair_forall
    (fun _ => Node.answering_of_injected rfl rfl rfl (by decide) (by decide))
    (fun _ => Node.answering_of_injected rfl rfl rfl (by decide) (by decide))
  failing := slowPair_forall (fun h => absurd h (by decide)) fun h => absurd h (by decide)

/-- The sweep finds the second replica empty and asks the first one for its value. -/
def looks : List (Instant × Turn) :=
  [0, 0, 0, 10, 10, 10, 30, 30].map fun t => (t, .activity 1)

/-- The sweep gets the value, the write reaches both replicas, and the sweep copies. -/
def copies : List (Instant × Turn) :=
  [(40, .activity 1), (40, .activity 1), (45, .activity 0), (55, .activity 0)] ++
    [60, 60, 60, 60, 80, 80, 80, 90, 90, 110, 110, 120, 120, 120].map fun t => (t, .activity 1)

/-- The race up to the start of the write. -/
def looked (change : Change) : World :=
  ((slowPair.race change "k" none none 35 0).follow looks).advanceTo 35

/-- The race once the write has started. -/
def overtaking (change : Change) : World := (looked change).writing 0 change "k" none

theorem go_looked (h : change = .put "new" ∨ change = .delete) :
    (looked change).go (.activity 0) = overtaking change := by
  have hflights : (Write.launchAll (looked change).cluster.env (looked change).cluster.now
      (change.request "k") ((looked change).cluster.ring.placement "k").members
      (looked change).cluster.fleet).1 =
        [⟨⟨⟨10⟩, 0⟩, 45, .forward⟩, ⟨⟨⟨20⟩, 1⟩, 55, .forward⟩] := by
    rcases h with rfl | rfl <;> rfl
  have hwrite : (looked change).activities[0]? =
      some (.later 35 (changeOp "k" none change)) := by
    rcases h with rfl | rfl <;> rfl
  refine go_write _ ?_ ?_ hwrite ?_ ?_
  · rcases h with rfl | rfl <;> rfl
  · rcases h with rfl | rfl <;> rfl
  · rw [hflights]
    decide
  · rw [hflights]
    decide

theorem follow_slowPair (h : change = .put "new" ∨ change = .delete) :
    (slowPair.race change "k" none none 35 0).follow (looks ++ (35, .activity 0) :: copies) =
      (overtaking change).follow copies := by
  rw [follow_append, ← go_looked h, follow, looked]

set_option maxRecDepth 4000 in
theorem overtaking_written (h : change = .put "new" ∨ change = .delete) :
    ((overtaking change).follow copies).activities[0]? =
      some (.answered 55 (.written ⟨[⟨10⟩, ⟨20⟩], []⟩)) := by
  rcases h with rfl | rfl <;> rfl

theorem overtaking_trace :
    [.lacking ⟨⟨20⟩, 1⟩, .applied ⟨⟨20⟩, 1⟩, .copied ⟨⟨20⟩, 1⟩ "old"].Sublist
      ((slowPair.race (.put "new") "k" none none 35 0).trace (happening? "k")
        (looks ++ (35, .activity 0) :: copies)) := by
  have hlate : [.applied ⟨⟨20⟩, 1⟩, .copied ⟨⟨20⟩, 1⟩ "old"].Sublist
      ((overtaking (.put "new")).trace (happening? "k") copies) := by
    decide +kernel
  have hearly : [.lacking ⟨⟨20⟩, 1⟩].Sublist ((slowPair.race (.put "new") "k" none none 35
      0).trace (happening? "k") looks) := by
    decide +kernel
  rw [trace_append, trace, show ((slowPair.race (.put "new") "k" none none 35 0).follow
    looks).advanceTo 35 = looked (.put "new") from rfl, go_looked (.inl rfl)]
  exact hearly.append (hlate.trans (List.sublist_append_right ..))

/-- The old value at the second replica outlasts a put that both replicas have acknowledged. -/
theorem race_lasts_iff_slowPair :
    slowPair.hasRing = true ∧ slowPair.cluster.Steady ∅ ∧
    ((slowPair.race (.put "new") "k" none none 35 0).follow
      (looks ++ (35, .activity 0) :: copies)).activities[0]? =
      some (.answered 55 (.written ⟨[⟨10⟩, ⟨20⟩], []⟩)) ∧
    ¬ ∀ h ∈ (slowPair.cluster.ring.placement "k").members,
      ((slowPair.race (.put "new") "k" none none 35 0).follow
        (looks ++ (35, .activity 0) :: copies)).cluster.fleet.held h "k" = some "new" := by
  have hwritten : ((slowPair.race (.put "new") "k" none none 35 0).follow
      (looks ++ (35, .activity 0) :: copies)).activities[0]? =
      some (.answered 55 (.written ⟨[⟨10⟩, ⟨20⟩], []⟩)) := by
    rw [follow_slowPair (.inl rfl)]
    exact overtaking_written (.inl rfl)
  obtain ⟨hput, -⟩ := race_lasts_iff rfl slowPair_steady (.put "new") "k" none none 35 0
    (looks ++ (35, .activity 0) :: copies) rfl rfl hwritten
  refine ⟨rfl, slowPair_steady, hwritten, fun hall => ?_⟩
  exact (hput "new" rfl).1 hall ⟨⟨⟨20⟩, 1⟩, "old", by decide, overtaking_trace⟩

/-- How the race ends if both replicas have acknowledged a write and the sweep is over: the second
replica holds the value that it got from the sweep. -/
structure Lost (change : Change) (w : World) : Prop where
  written : w.activities[0]? = some (.answered 55 (.written ⟨[⟨10⟩, ⟨20⟩], []⟩))
  swept : ∃ t r, w.activities[1]? = some (.answered t (.report r none))
  other : some "old" ≠ change.value
  held : w.cluster.fleet.held ⟨⟨20⟩, 1⟩ "k" = some "old"

set_option maxRecDepth 4000 in
theorem overtaking_lost (h : change = .put "new" ∨ change = .delete) :
    Lost change ((overtaking change).follow copies) where
  written := overtaking_written h
  swept := by
    rcases h with rfl | rfl
    · exact ⟨_, _, by rfl⟩
    · exact ⟨_, _, by rfl⟩
  other := by rcases h with rfl | rfl <;> decide
  held := by rcases h with rfl | rfl <;> rfl

/-- **A sweep undoes writes.** The second replica is one of the key's, and no other node holds the
key. Yet an acknowledged put is overwritten there with the old value, and an acknowledged delete
brings the old value to a replica that never had it. -/
theorem sweep_undoes_write :
    slowPair.hasRing = true ∧ slowPair.cluster.Steady ∅ ∧
    (slowPair.cluster.ring.placement "k").members = slowPair.cluster.ring.membership.handles ∧
    ⟨⟨20⟩, 1⟩ ∈ (slowPair.cluster.ring.placement "k").members ∧
    Lost (.put "new") ((slowPair.race (.put "new") "k" none none 35 0).follow
      (looks ++ (35, .activity 0) :: copies)) ∧
    Lost .delete ((slowPair.race .delete "k" none none 35 0).follow
      (looks ++ (35, .activity 0) :: copies)) := by
  rw [follow_slowPair (.inl rfl), follow_slowPair (.inr rfl)]
  exact ⟨rfl, slowPair_steady, by decide, by decide, overtaking_lost (.inl rfl),
    overtaking_lost (.inr rfl)⟩

end World

end Scenario

end ReplicaRing
