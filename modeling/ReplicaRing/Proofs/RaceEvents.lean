import ReplicaRing.Proofs.RaceHistory
import ReplicaRing.Proofs.SweepRepair

/-!
# Events of a race

Nodes that always answer carry out every request of a sweep and every request of a write that is
due in time. So each event of either shows in the history of a key just as it changes the data.

* `Write.landing?`, `SweepRun.happening?` — what the next event shows of a key;
* `Write.Tracks` — a history tells which replicas a write has reached;
* `SweepRun.Ready` — a sweep asks nodes of the ring and copies to replicas only;
* `Write.Tracks.goes`, `SweepRun.Ready.goes` — what the next event does.
-/

namespace ReplicaRing

/-! ### Writes -/

/-- The replica that the next event of a write changes, if it changes any. -/
def Write.landing? (r : Write) : Option Handle :=
  match r.flights with
  | [] => none
  | q :: _ => if q.due ≤ r.deadline ∧ q.verdict = .forward then some q.target else none

/-- A write under way has reached the replicas that a history tells, those that have answered among
them, and is on its way to others. -/
structure Write.Tracks (ring : Ring) (change : Change) (key : String) (past : List Happening)
    (r : Write) : Prop where
  sameChange : r.change = change
  sameKey : r.key = key
  members : r.outcome.members = (ring.placement key).members.map (·.id)
  forward : ∀ q ∈ r.flights, q.verdict = .forward
  ahead : ∀ q ∈ r.flights,
    q.target ∈ (ring.placement key).members ∧ .applied q.target ∉ past
  nodup : (r.flights.map (·.target)).Nodup
  acked : ∀ h ∈ (ring.placement key).members, h.id ∈ r.outcome.acked → .applied h ∈ past

theorem Change.effect_request (change : Change) (key : String) (old : Option String) :
    (change.request key).effect key old = change.value := by
  cases change with
  | put value => exact if_pos rfl
  | delete => exact if_pos rfl

namespace Cluster

variable {c : Cluster}

/-- The requests of a write are started without a change of data, and all of them reach their
nodes. The induction is on the nodes still to be asked. -/
theorem Steady.launchAll (hc : c.Steady ∅) (r : Request) (hs : List Handle)
    (hsub : ∀ x ∈ hs, x ∈ c.ring.membership.handles) {flights : List Flight} {f : Fleet}
    (hrun : Write.launchAll c.env c.now r hs c.fleet = (flights, f)) :
    Steady ∅ { c with fleet := f } ∧ c.Evolves { c with fleet := f } ∧
      (∀ x ∈ c.ring.membership.handles, (f.node x).store = (c.fleet.node x).store) ∧
      flights.map (·.target) = hs ∧ ∀ q ∈ flights, q.verdict = .forward := by
  induction hs generalizing c flights f with
  | nil =>
    obtain ⟨rfl, rfl⟩ := Prod.mk.inj hrun
    exact ⟨hc, .refl c, fun _ _ => rfl, rfl, fun _ h => absurd h List.not_mem_nil⟩
  | cons h hs ih =>
    have hh := hsub h (List.mem_cons_self ..)
    obtain ⟨hst, hev, hsame⟩ := hc.ask hh r rfl
    obtain ⟨rfl, rfl⟩ := Prod.mk.inj hrun
    obtain ⟨hst', hev', hsame', htargets, hforward⟩ :=
      ih hst (fun x hx => hsub x (List.mem_cons_of_mem _ hx)) rfl
    refine ⟨hst', hev.trans hev', fun x hx => (hsame' x hx).trans (hsame x hx),
      congrArg (h :: ·) htargets, fun q hq => ?_⟩
    rcases List.mem_cons.1 hq with rfl | hq
    · exact (hc.answering h hh (Finset.notMem_empty h.id)).forward [] r
    · exact hforward q hq

end Cluster

namespace Write

variable {c : Cluster} {change : Change} {key : String} {past : List Happening} {r : Write}

/-- A write that starts has reached no replica. -/
theorem Tracks.start (hc : c.Steady ∅) (hpast : ∀ h, .applied h ∉ past) (timeout : Duration)
    {f : Fleet}
    (hrun : Write.start c.env c.now timeout change key (c.ring.placement key) c.fleet = (r, f)) :
    r.Tracks c.ring change key past ∧ Cluster.Steady ∅ { c with fleet := f } ∧
      c.Evolves { c with fleet := f } ∧
      ∀ x ∈ c.ring.membership.handles, (f.node x).store = (c.fleet.node x).store := by
  obtain ⟨rfl, rfl⟩ := Prod.mk.inj hrun
  obtain ⟨hst, hev, hsame, htargets, hforward⟩ :=
    hc.launchAll (change.request key) (c.ring.placement key).members
      (fun x hx => hc.sound.placement_subset hx) rfl
  have hperm := List.mergeSort_perm (Write.launchAll c.env c.now (change.request key)
    (c.ring.placement key).members c.fleet).1 (fun a b => decide (a.due ≤ b.due))
  refine ⟨⟨rfl, rfl, rfl, fun q hq => hforward q (hperm.mem_iff.1 hq), fun q hq => ⟨?_, hpast _⟩,
    ?_, fun _ _ h => absurd h List.not_mem_nil⟩, hst, hev, hsame⟩
  · rw [← htargets]
    exact List.mem_map_of_mem (hperm.mem_iff.1 hq)
  · refine (hperm.map _).nodup_iff.2 ?_
    rw [htargets]
    exact hc.sound.placement_nodup _ _

theorem step_landing {q : Flight} {flights : List Flight} (hf : r.flights = q :: flights)
    (hdue : q.due ≤ r.deadline) (hverdict : q.verdict = .forward) (f : Fleet) :
    r.step f =
      ({ r with
         flights := flights
         outcome := { r.outcome with acked := r.outcome.acked ++ [q.target.id] } },
        (f.conclude q.target (r.change.request r.key) .forward).2) := by
  rw [step, hf]
  simp only [hdue, if_true, hverdict]
  rfl

theorem step_late {q : Flight} {flights : List Flight} (hf : r.flights = q :: flights)
    (hdue : ¬ q.due ≤ r.deadline) (f : Fleet) : r.step f = ({ r with flights := [] }, f, []) := by
  rw [step, hf]
  simp only [hdue, if_false]

/-- A request that reaches its node has been answered. -/
theorem Tracks.landing (hc : c.Steady ∅) (h : r.Tracks c.ring change key past) {q : Flight}
    {flights : List Flight} (hf : r.flights = q :: flights) :
    Tracks c.ring change key (past ++ [.applied q.target])
      { r with
        flights := flights
        outcome := { r.outcome with acked := r.outcome.acked ++ [q.target.id] } } := by
  have hq : q ∈ r.flights := hf ▸ List.mem_cons_self ..
  have hrest : ∀ x ∈ flights, x ∈ r.flights := fun x hx => hf ▸ List.mem_cons_of_mem _ hx
  have hnodup := h.nodup
  rw [hf, List.map_cons, List.nodup_cons] at hnodup
  refine ⟨h.sameChange, h.sameKey, h.members, fun x hx => h.forward x (hrest x hx),
    fun x hx => ?_, hnodup.2, fun x hx hack => ?_⟩
  · obtain ⟨hxmem, hxnot⟩ := h.ahead x (hrest x hx)
    refine ⟨hxmem, ?_⟩
    rw [List.mem_append, List.mem_singleton, Happening.applied.injEq]
    rintro (hx' | hx')
    · exact hxnot hx'
    · exact hnodup.1 (hx' ▸ List.mem_map_of_mem hx)
  · rw [List.mem_append, List.mem_singleton] at hack ⊢
    rcases hack with hack | hack
    · exact .inl (h.acked x hx hack)
    · exact .inr (congrArg _ (hc.sound.eq_of_id (hc.sound.placement_subset hx)
        (hc.sound.placement_subset (h.ahead q hq).1) hack))

/-- **The next event of a write.** It changes one replica, which the write has not reached before,
or no data at all. -/
theorem Tracks.goes (hc : c.Steady ∅) (h : r.Tracks c.ring change key past) {r' : Write}
    {f : Fleet} {events : List LogEvent} (hrun : r.step c.fleet = (r', f, events))
    (lacks : Option Handle) :
    r'.Tracks c.ring change key (past ++ (r.landing?.map .applied).toList) ∧
      Cluster.Steady ∅ { c with fleet := f } ∧ c.Evolves { c with fleet := f } ∧
      View.Goes change.value c.ring.membership.handles (c.ring.placement key).members past
        ⟨fun x => c.fleet.held x key, lacks⟩ ⟨fun x => f.held x key, lacks⟩
        (r.landing?.map .applied) := by
  obtain rfl := h.sameChange
  obtain rfl := h.sameKey
  cases hf : r.flights with
  | nil =>
    have hland : r.landing? = none := by rw [landing?, hf]
    have hstep : r.step c.fleet = (r, c.fleet, []) := by rw [step, hf]
    rw [hstep, Prod.mk.injEq, Prod.mk.injEq] at hrun
    obtain ⟨rfl, rfl, -⟩ := hrun
    rw [hland, Option.map_none, Option.toList_none, List.append_nil]
    exact ⟨h, hc, .refl c, .quietly (fun _ _ => rfl) (.inl rfl)⟩
  | cons q flights =>
    have hq : q ∈ r.flights := hf ▸ List.mem_cons_self ..
    have hverdict := h.forward q hq
    obtain ⟨hmem, hnot⟩ := h.ahead q hq
    have hhandle := hc.sound.placement_subset hmem
    by_cases hdue : q.due ≤ r.deadline
    · -- the request reaches its node
      have hland : r.landing? = some q.target := by simp [landing?, hf, hdue, hverdict]
      rw [step_landing hf hdue hverdict, Prod.mk.injEq, Prod.mk.injEq] at hrun
      obtain ⟨rfl, rfl, -⟩ := hrun
      obtain ⟨hst, hev⟩ := hc.serve hhandle (r.change.request r.key) rfl
      rw [hland, Option.map_some, Option.toList_some]
      refine ⟨h.landing hc hf, hst, hev, .applied q.target hmem hnot (fun x hx => ?_) rfl⟩
      have hheld := Fleet.held_conclude_forward (r.change.request r.key)
        (hc.houses _ hhandle) (hc.houses x hx) r.key
      rwa [Change.effect_request] at hheld
    · -- the deadline has passed
      have hland : r.landing? = none := by simp [landing?, hf, hdue]
      rw [step_late hf hdue, Prod.mk.injEq, Prod.mk.injEq] at hrun
      obtain ⟨rfl, rfl, -⟩ := hrun
      rw [hland, Option.map_none, Option.toList_none, List.append_nil]
      exact ⟨⟨rfl, rfl, h.members, fun _ hx => absurd hx List.not_mem_nil,
        fun _ hx => absurd hx List.not_mem_nil, List.nodup_nil, h.acked⟩, hc, .refl c,
        .quietly (fun _ _ => rfl) (.inl rfl)⟩

end Write

/-! ### Sweeps -/

/-- Whether a request is carried out by its node. -/
def Inquiry.lands (q : Inquiry) : Bool := q.arrives && q.flight.verdict == .forward

/-- The replica that has been found to lack a key and is about to be filled. -/
def Sweep.Stage.lacks? (key : String) : Sweep.Stage → Option Handle
  | .waiting (.fetching j h) => if j.key = key then some h else none
  | .waiting (.copying j h _) => if j.key = key then some h else none
  | _ => none

/-- What the next event of a sweep shows of a key. -/
def SweepRun.happening? (key : String) (f : Fleet) (run : SweepRun) : Option Happening :=
  match run.sweep.stage, run.inquiry with
  | .waiting (.checking j h), some q =>
    if j.key = key ∧ q.lands ∧ f.held h key = none then some (.lacking h) else none
  | .waiting (.copying j h value), some q =>
    if j.key = key ∧ q.lands then some (.copied h value) else none
  | _, _ => none

/-- A key is repaired from a node of the ring to its replicas. -/
def KeyRepair.Within (r : Ring) (j : KeyRepair) : Prop :=
  j.source ∈ r.membership.handles ∧ ∀ h ∈ j.ahead, h ∈ (r.placement j.key).members

/-- A sweep asks nodes of the ring, and copies a key to its replicas only. -/
def Sweep.Stage.Within (r : Ring) : Sweep.Stage → Prop
  | .betweenNodes => True
  | .betweenKeys source _ => source ∈ r.membership.handles
  | .waiting (.listing source) => source ∈ r.membership.handles
  | .waiting (.checking j h) => j.Within r ∧ h ∈ (r.placement j.key).members
  | .waiting (.fetching j h) => j.Within r ∧ h ∈ (r.placement j.key).members
  | .waiting (.copying j h _) => j.Within r ∧ h ∈ (r.placement j.key).members
  | .finished => True

/-- A sweep over nodes of the ring. -/
structure Sweep.Within (r : Ring) (s : Sweep) : Prop where
  sources : ∀ h ∈ s.sources, h ∈ r.membership.handles
  stage : s.stage.Within r

namespace KeyRepair

variable {r : Ring} {j : KeyRepair}

theorem next_cases (j : KeyRepair) :
    j.next = .betweenKeys j.source j.keys ∨
      ∃ h rest, (∀ x ∈ h :: rest, x ∈ j.ahead) ∧
        j.next = .waiting (.checking { j with ahead := rest } h) := by
  have hsub : ∀ x ∈ j.ahead.dropWhile (·.id == j.source.id), x ∈ j.ahead :=
    fun x hx => (List.dropWhile_sublist _).subset hx
  rw [next]
  cases hd : j.ahead.dropWhile (·.id == j.source.id) with
  | nil => exact .inl rfl
  | cons h rest => exact .inr ⟨h, rest, hd ▸ hsub, rfl⟩

theorem Within.next (hj : j.Within r) : j.next.Within r := by
  rcases j.next_cases with hn | ⟨h, rest, hsub, hn⟩
  · rw [hn]
    exact hj.1
  · rw [hn]
    exact ⟨⟨hj.1, fun x hx => hj.2 x (hsub x (List.mem_cons_of_mem _ hx))⟩,
      hj.2 h (hsub h (List.mem_cons_self ..))⟩

theorem next_lacks (j : KeyRepair) (key : String) : j.next.lacks? key = none := by
  rcases j.next_cases with hn | ⟨h, rest, -, hn⟩ <;> rw [hn] <;> rfl

end KeyRepair

namespace Sweep

variable {r : Ring} {s : Sweep}

theorem Within.target_mem (hs : s.Within r) (hr : r.membership.Sound) {w : Waiting}
    (hw : s.stage = .waiting w) : w.target ∈ r.membership.handles := by
  have hstage := hs.stage
  rw [hw] at hstage
  cases w with
  | listing source => exact hstage
  | checking j h => exact hr.placement_subset hstage.2
  | fetching j h => exact hstage.1.1
  | copying j h value => exact hr.placement_subset hstage.2

/-- A step at a boundary stays within the ring and leaves no replica about to be filled. -/
theorem Within.proceed (hs : s.Within r) (hw : ∀ w, s.stage ≠ .waiting w) (cancelled : Bool)
    (key : String) :
    (s.proceed r cancelled).1.Within r ∧ (s.proceed r cancelled).1.stage.lacks? key = none := by
  obtain ⟨hsources, hstage⟩ := hs
  cases hst : s.stage with
  | betweenNodes =>
    cases hsrc : s.sources with
    | nil =>
      simp only [Sweep.proceed, hst, hsrc]
      exact ⟨⟨fun h hh => absurd hh List.not_mem_nil, trivial⟩, rfl⟩
    | cons source rest =>
      have hsource := hsources source (hsrc ▸ List.mem_cons_self ..)
      have hrest : ∀ h ∈ rest, h ∈ r.membership.handles :=
        fun h hh => hsources h (hsrc ▸ List.mem_cons_of_mem _ hh)
      cases cancelled with
      | true =>
        simp only [Sweep.proceed, hst, hsrc, if_true]
        exact ⟨⟨hsources, trivial⟩, rfl⟩
      | false =>
        simp only [Sweep.proceed, hst, hsrc, Bool.false_eq_true, if_false, Sweep.visit]
        split
        · exact ⟨⟨hrest, hsource⟩, rfl⟩
        · exact ⟨⟨hrest, trivial⟩, rfl⟩
  | betweenKeys source keys =>
    rw [hst] at hstage
    cases keys with
    | nil =>
      simp only [Sweep.proceed, hst]
      exact ⟨⟨hsources, trivial⟩, rfl⟩
    | cons key' keys =>
      cases cancelled with
      | true =>
        simp only [Sweep.proceed, hst, if_true]
        exact ⟨⟨hsources, trivial⟩, rfl⟩
      | false =>
        simp only [Sweep.proceed, hst, Bool.false_eq_true, if_false, Sweep.repair]
        have hjob : KeyRepair.Within r ⟨source, key', none, (r.placement key').members, keys⟩ :=
          ⟨hstage, fun h hh => hh⟩
        exact ⟨⟨hsources, hjob.next⟩, KeyRepair.next_lacks _ key⟩
  | waiting w => exact absurd hst (hw w)
  | finished =>
    simp only [Sweep.proceed, hst]
    exact ⟨⟨hsources, hst ▸ trivial⟩, rfl⟩

/-- Whatever a node answers, a sweep stays within the ring. -/
theorem Within.resume (hs : s.Within r) {w : Waiting} (hw : s.stage = .waiting w)
    (answer : w.request.Answer) : (s.resume w answer).1.Within r := by
  obtain ⟨hsources, hstage⟩ := hs
  rw [hw] at hstage
  cases w with
  | listing source =>
    cases answer with
    | ok keys => exact ⟨hsources, hstage⟩
    | error e => exact ⟨hsources, trivial⟩
  | checking j h =>
    cases answer with
    | ok found =>
      cases found with
      | some value => exact ⟨hsources, hstage.1.next⟩
      | none =>
        simp only [Sweep.resume]
        split <;> exact ⟨hsources, hstage⟩
    | error e => exact ⟨hsources, hstage.1.next⟩
  | fetching j h =>
    cases answer with
    | ok found =>
      cases found with
      | some value => exact ⟨hsources, hstage⟩
      | none => exact ⟨hsources, hstage.1.1⟩
    | error e => exact ⟨hsources, hstage.1.1⟩
  | copying j h value =>
    cases answer with
    | ok reply => exact ⟨hsources, hstage.1.next⟩
    | error e => exact ⟨hsources, hstage.1.next⟩

end Sweep

namespace SweepRun

/-- A sweep stays within the ring, and the request that it waits for will be carried out. -/
structure Ready (r : Ring) (run : SweepRun) : Prop where
  within : run.sweep.Within r
  lands : ∀ w q, run.sweep.stage = .waiting w → run.inquiry = some q →
    q.flight.target = w.target ∧ q.lands = true

variable {c : Cluster} {run run' : SweepRun} {c' : Cluster}

/-- What a sweep shows of a key. -/
def view (key : String) (c : Cluster) (run : SweepRun) : View :=
  ⟨fun x => c.fleet.held x key, run.sweep.stage.lacks? key⟩

variable {left : Option String} {past : List Happening} {key : String}

theorem happening?_of_none {w : Sweep.Waiting} (hw : run.sweep.stage = .waiting w)
    (hq : run.inquiry = none) (f : Fleet) : run.happening? key f = none := by
  cases w <;> simp only [happening?, hw, hq]

/-- A question changes no data, and it will be answered. -/
theorem Ready.goes_question (hc : c.Steady ∅) (hr : run.Ready c.ring) {w : Sweep.Waiting}
    (hw : run.sweep.stage = .waiting w) (hq : run.inquiry = none) {cancelled : Bool}
    (hrun : run.step cancelled c = (run', c')) :
    run'.Ready c.ring ∧ c'.Steady ∅ ∧ c.Evolves c' ∧
      View.Goes left c.ring.membership.handles (c.ring.placement key).members past
        (run.view key c) (run'.view key c') (run.happening? key c.fleet) := by
  have ht := hr.within.target_mem hc.sound hw
  have hstep : run.step cancelled c = ({ run with inquiry := some (c.inquiry w.target w.request) },
      { c with fleet := (c.fleet.launch c.env c.now w.target w.request).2 }) := by
    simp only [step, hw, hq]
    rfl
  rw [hstep, Prod.mk.injEq] at hrun
  obtain ⟨rfl, rfl⟩ := hrun
  obtain ⟨hst, hev, hsame⟩ := hc.ask ht w.request rfl
  have hanswering := hc.answering _ ht (Finset.notMem_empty _)
  refine ⟨⟨hr.within, fun w' q hw' hq' => ?_⟩, hst, hev, ?_⟩
  · obtain rfl := Option.some.inj hq'
    obtain rfl : w = w' := Sweep.Stage.waiting.inj (hw.symm.trans hw')
    have harr : (c.inquiry w.target w.request).arrives = true := by
      rw [Cluster.inquiry_arrives]
      exact decide_eq_true (hanswering.inTime [] _)
    have hverdict : (c.inquiry w.target w.request).flight.verdict = .forward :=
      hanswering.forward [] _
    exact ⟨rfl, by simp [Inquiry.lands, harr, hverdict]⟩
  · rw [happening?_of_none hw hq]
    refine .quietly (fun x hx => ?_) (.inl rfl)
    exact congrArg (OrderedMap.find? · key) (hsame x hx)

theorem happening?_checking (key : String) {j : KeyRepair} {h : Handle} {q : Inquiry}
    (hw : run.sweep.stage = .waiting (.checking j h)) (hq : run.inquiry = some q)
    (hl : q.lands = true) (f : Fleet) :
    run.happening? key f =
      if j.key = key ∧ f.held h key = none then some (.lacking h) else none := by
  simp only [happening?, hw, hq, hl, true_and]

theorem happening?_copying (key : String) {j : KeyRepair} {h : Handle} {value : String}
    {q : Inquiry} (hw : run.sweep.stage = .waiting (.copying j h value)) (hq : run.inquiry = some q)
    (hl : q.lands = true) (f : Fleet) :
    run.happening? key f = if j.key = key then some (.copied h value) else none := by
  simp only [happening?, hw, hq, hl, and_true]

/-- A replica is found to lack a key if it does. -/
theorem goes_checked {all : List Handle} {j : KeyRepair} {h : Handle} {q : Inquiry}
    (hw : run.sweep.stage = .waiting (.checking j h)) (hq : run.inquiry = some q)
    (hl : q.lands = true) (hmem : h ∈ (c.ring.placement j.key).members)
    (hsame : ∀ x ∈ all, c'.fleet.held x key = c.fleet.held x key)
    (hrun : run'.sweep = (run.sweep.resume (.checking j h) (.ok (c.fleet.held h j.key))).1) :
    View.Goes left all (c.ring.placement key).members past (run.view key c) (run'.view key c')
      (run.happening? key c.fleet) := by
  have hhap := happening?_checking key hw hq hl c.fleet
  simp only [view, hrun]
  cases hfound : c.fleet.held h j.key with
  | some value =>
    have hnone : ¬ (j.key = key ∧ c.fleet.held h key = none) := by
      rintro ⟨rfl, hempty⟩
      exact Option.some_ne_none value (hfound.symm.trans hempty)
    rw [hhap, if_neg hnone]
    exact .quietly hsame (.inr (j.next_lacks key))
  | none =>
    have hlacks : (run.sweep.resume (.checking j h) (.ok none)).1.stage.lacks? key =
        if j.key = key then some h else none := by
      simp only [Sweep.resume]
      split <;> rfl
    by_cases hk : j.key = key
    · subst hk
      rw [hhap, if_pos ⟨rfl, hfound⟩, hlacks, if_pos rfl]
      exact .lacking h hfound hmem hsame rfl
    · rw [hhap, if_neg fun h => hk h.1, hlacks, if_neg hk]
      exact .quietly hsame (.inr rfl)

/-- A copy leaves its value under its own key. -/
theorem goes_copied {all : List Handle} {j : KeyRepair} {h : Handle} {value : String}
    {q : Inquiry} (hw : run.sweep.stage = .waiting (.copying j h value))
    (hq : run.inquiry = some q) (hl : q.lands = true)
    (hmem : h ∈ (c.ring.placement j.key).members)
    (hheld : ∀ x ∈ all, c'.fleet.held x key =
      if x = h then (Request.set j.key value).effect key (c.fleet.held h key)
      else c.fleet.held x key)
    (hrun : run'.sweep = (run.sweep.resume (.copying j h value) (.ok ())).1) :
    View.Goes left all (c.ring.placement key).members past (run.view key c) (run'.view key c')
      (run.happening? key c.fleet) := by
  have hhap := happening?_copying key hw hq hl c.fleet
  have hlacks : (run.sweep.resume (.copying j h value) (.ok ())).1.stage.lacks? key = none :=
    j.next_lacks key
  simp only [view, hrun]
  by_cases hk : j.key = key
  · subst hk
    have hlacked : run.sweep.stage.lacks? j.key = some h := by
      rw [hw]
      exact if_pos rfl
    rw [hhap, if_pos rfl]
    refine .copied h value hmem hlacked (fun x hx => ?_) hlacks
    exact (hheld x hx).trans (by simp only [Request.effect, if_pos])
  · rw [hhap, if_neg hk]
    refine .quietly (fun x hx => ?_) (.inr hlacks)
    have hother : (Request.set j.key value).effect key (c.fleet.held h key) =
        c.fleet.held h key := if_neg (Ne.symm hk)
    refine (hheld x hx).trans ?_
    rw [hother]
    split
    · next he => rw [he]
    · rfl

/-- An answer that finds a replica empty, or that ends a copy, shows in the history. -/
theorem Ready.goes_answer (hc : c.Steady ∅) (hr : run.Ready c.ring) {w : Sweep.Waiting}
    (hw : run.sweep.stage = .waiting w) {q : Inquiry} (hq : run.inquiry = some q)
    {cancelled : Bool} (hrun : run.step cancelled c = (run', c')) :
    run'.Ready c.ring ∧ c'.Steady ∅ ∧ c.Evolves c' ∧
      View.Goes left c.ring.membership.handles (c.ring.placement key).members past
        (run.view key c) (run'.view key c') (run.happening? key c.fleet) := by
  have ht := hr.within.target_mem hc.sound hw
  obtain ⟨htarget, hlands⟩ := hr.lands w q hw hq
  have hq' := hlands
  rw [Inquiry.lands, Bool.and_eq_true, beq_iff_eq] at hq'
  obtain ⟨reply, c₁, hrecv, hrep, hring, henv, hfleet⟩ :=
    Cluster.receive_forward (r := w.request) hq'.1 hq'.2 htarget
      (hc.answering _ ht (Finset.notMem_empty _)).plain
  have hstep : run.step cancelled c = (⟨(run.sweep.resume w (.ok reply)).1, none⟩,
      c₁.report (run.sweep.resume w (.ok reply)).2) := by
    simp only [step, hw, hq, hrecv]
    rfl
  rw [hstep, Prod.mk.injEq] at hrun
  obtain ⟨rfl, rfl⟩ := hrun
  obtain ⟨hst, hev⟩ := hc.serve ht w.request rfl
  have hheld : ∀ x ∈ c.ring.membership.handles, c₁.fleet.held x key =
      if x = w.target then w.request.effect key (c.fleet.held w.target key)
      else c.fleet.held x key := by
    intro x hx
    rw [hfleet]
    exact Fleet.held_conclude_forward w.request (hc.houses _ ht) (hc.houses x hx) key
  have hsame (hid : ∀ old, w.request.effect key old = old) :
      ∀ x ∈ c.ring.membership.handles, c₁.fleet.held x key = c.fleet.held x key := by
    intro x hx
    rw [hheld x hx, hid]
    split
    · next he => rw [he]
    · rfl
  refine ⟨⟨hr.within.resume hw _, fun _ _ _ h => absurd h.symm (Option.some_ne_none _)⟩,
    hst.of_eq hring henv hfleet, hev.trans (.of_eq hring henv hfleet), ?_⟩
  have hstage := hr.within.stage
  rw [hw] at hstage
  cases w with
  | listing source =>
    have hnone : run.happening? key c.fleet = none := by simp only [happening?, hw, hq]
    rw [hnone]
    exact .quietly (hsame fun _ => rfl) (.inr rfl)
  | checking j h =>
    obtain rfl : reply = c.fleet.held h j.key := hrep
    exact goes_checked hw hq hlands hstage.2 (hsame fun _ => rfl) rfl
  | fetching j h =>
    have hnone : run.happening? key c.fleet = none := by simp only [happening?, hw, hq]
    rw [hnone]
    simp only [view]
    cases reply with
    | some value => exact .quietly (hsame fun _ => rfl) (.inl (by rw [hw]; rfl))
    | none => exact .quietly (hsame fun _ => rfl) (.inr rfl)
  | copying j h value => exact goes_copied hw hq hlands hstage.2 hheld rfl

/-- A step at a boundary changes nothing. -/
theorem Ready.goes_boundary (hc : c.Steady ∅) (hr : run.Ready c.ring)
    (hw : ∀ w, run.sweep.stage ≠ .waiting w) {cancelled : Bool}
    (hrun : run.step cancelled c = (run', c')) :
    run'.Ready c.ring ∧ c'.Steady ∅ ∧ c.Evolves c' ∧
      View.Goes left c.ring.membership.handles (c.ring.placement key).members past
        (run.view key c) (run'.view key c') (run.happening? key c.fleet) := by
  have hstep : run.step cancelled c = (⟨(run.sweep.proceed c.ring cancelled).1, none⟩,
      c.report (run.sweep.proceed c.ring cancelled).2) := by
    rw [step]
    split
    · next w hw' => exact absurd hw' (hw w)
    · rfl
  rw [hstep, Prod.mk.injEq] at hrun
  obtain ⟨rfl, rfl⟩ := hrun
  obtain ⟨hwithin, hlacks⟩ := hr.within.proceed hw cancelled key
  have hnone : run.happening? key c.fleet = none := by
    unfold happening?
    split
    · next hst _ => exact absurd hst (hw _)
    · next hst _ => exact absurd hst (hw _)
    · rfl
  rw [hnone]
  exact ⟨⟨hwithin, fun _ _ _ h => absurd h.symm (Option.some_ne_none _)⟩, hc.of_eq rfl rfl rfl,
    .of_eq rfl rfl rfl, .quietly (fun _ _ => rfl) (.inr hlacks)⟩

/-- **The next event of a sweep.** -/
theorem Ready.goes (hc : c.Steady ∅) (hr : run.Ready c.ring) {cancelled : Bool}
    (hrun : run.step cancelled c = (run', c')) :
    run'.Ready c.ring ∧ c'.Steady ∅ ∧ c.Evolves c' ∧
      View.Goes left c.ring.membership.handles (c.ring.placement key).members past
        (run.view key c) (run'.view key c') (run.happening? key c.fleet) := by
  by_cases hw : ∃ w, run.sweep.stage = .waiting w
  · obtain ⟨w, hw⟩ := hw
    cases hq : run.inquiry with
    | none => exact hr.goes_question hc hw hq hrun
    | some q => exact hr.goes_answer hc hw hq hrun
  · exact hr.goes_boundary hc (not_exists.1 hw) hrun

end SweepRun

end ReplicaRing
