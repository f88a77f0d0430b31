import ReplicaRing.Proofs.GapFilling
import ReplicaRing.Proofs.QuorumReads
import ReplicaRing.Proofs.RingChanges
import ReplicaRing.Proofs.SweepAccounts

/-!
# Where values come from

Whoever goes on, whatever fails, answers late or is given up, and whoever joins or leaves: no value
is made up, none gets under another key, and none is lost without a delete or a clear.

* `Op.WritesByPut` — an operation writes a value only if it is a put of a client;
* `Cluster.found_of_receive`, `Goes.sourced` — a value that is read is there, so a sweep copies only
  what one of its nodes holds;
* `World.Started`, `World.Brings`, `World.Original` — puts that have started, entries that nodes
  have brought in, and the two sources of a value;
* `World.Traced`, `Traced.turn` — the invariant, and that each turn keeps it;
* `values_have_origin` — the law over every run.
-/

namespace ReplicaRing

/-- What a request leaves under a key is the value that it writes or was there before. -/
theorem Request.effect_eq_some {r : Request} {k v : String} {old : Option String}
    (h : r.effect k old = some v) : r = .set k v ∨ old = some v := by
  cases r with
  | set key value =>
    rw [Request.effect] at h
    split at h
    · next hk =>
      obtain rfl := Option.some.inj h
      exact .inl (hk ▸ rfl)
    · exact .inr h
  | delete key =>
    rw [Request.effect] at h
    split at h
    · cases h
    · exact .inr h
  | clear => cases h
  | get key => exact .inr h
  | keys => exact .inr h

/-- A value that a node answers with is there, whatever faults the node has. -/
theorem Cluster.found_of_receive {c : Cluster} {q : Inquiry} {k v : String}
    (h : (c.receive q (.get k)).1 = some (.ok (some v))) :
    c.fleet.held q.flight.target k = some v := by
  cases harr : q.arrives with
  | false =>
    rw [receive_of_not_arrives harr] at h
    exact nomatch h
  | true =>
    rw [receive_of_arrives harr] at h
    cases hverdict : q.flight.verdict with
    | forward =>
      rw [hverdict, Fleet.conclude_forward_fst] at h
      exact Except.ok.inj (Option.some.inj h)
    | pretend =>
      rw [hverdict] at h
      exact nomatch Except.ok.inj (Option.some.inj h)
    | refuse e =>
      rw [hverdict] at h
      exact nomatch Option.some.inj h

/-! ### Sweeps -/

namespace SweepRun

variable {on : Operation → Prop} {c : Cluster} {f' : Fleet} {cancelled : Bool}
  {run run' : SweepRun} {placed : String → Handle → Prop} {seen : String → String → Prop}

/-- A value that a sweep has been told is there. -/
theorem found_there {q : Inquiry} {w : Sweep.Waiting} {v : String}
    (htarget : q.flight.target = w.target)
    (h : w.found? (heard w (c.receive q w.request).1) = some (some v)) :
    c.fleet.held w.target w.request.key = some v := by
  rw [← htarget]
  cases w with
  | listing source => exact nomatch h
  | checking job member =>
    refine Cluster.found_of_receive (k := job.key) ?_
    revert h
    simp only [Sweep.Waiting.request]
    rcases (c.receive q (.get job.key)).1 with _ | (_ | reply)
    · exact fun h => nomatch h
    · exact fun h => nomatch h
    · exact fun h => congrArg (some ∘ Except.ok) (Option.some.inj h)
  | fetching job member =>
    refine Cluster.found_of_receive (k := job.key) ?_
    revert h
    simp only [Sweep.Waiting.request]
    rcases (c.receive q (.get job.key)).1 with _ | (_ | reply)
    · exact fun h => nomatch h
    · exact fun h => nomatch h
    · exact fun h => congrArg (some ∘ Except.ok) (Option.some.inj h)
  | copying job member value => exact nomatch h

/-- A sweep goes on to copy only what one of its nodes holds, whatever the nodes answer. -/
theorem Goes.sourced (h : run.Goes on c f' cancelled run') (hrun : run.Fair on c.fleet)
    (hb : run.sweep.stage.Backed placed seen)
    (hp : ∀ k x, x ∈ (c.ring.placement k).members → placed k x)
    (hs : ∀ x ∈ run.sweep.handles, ∀ k v, c.fleet.held x k = some v → seen k v) :
    run'.sweep.stage.Backed placed seen := by
  cases h with
  | asks w q waits idle serving => exact hb
  | passes s proceeds still => exact proceeds.backed hb hp
  | hears w q answer? waits asked arrives ends =>
    rw [waits] at hb
    refine Sweep.backed_resume hb fun v hv => hs w.target ?_ _ v ?_
    · refine List.mem_append_right _ ?_
      rw [waits]
      exact w.target_mem_handles
    · exact found_there (hrun.asked w q waits asked).1 (arrives ▸ hv)

end SweepRun

/-! ### Reads -/

/-- A read that returns a value has hit it. -/
theorem ReadOutcome.hit_of_settle {o : RingOptions} {key v : String} {elapsed : Duration}
    {r : ReadOutcome} (h : r.settle o key elapsed = .ok (some v)) : ∃ id, r.hit = some (id, v) := by
  rw [settle] at h
  split at h
  · next id value hhit =>
    obtain rfl := Option.some.inj (Except.ok.inj h)
    exact ⟨id, hhit⟩
  · split at h
    · cases h
    · split at h <;> cases h

/-- What a read has hit is what it had hit before or what the node asked has just answered. -/
theorem ReadRun.hit_of_hear {run : ReadRun} {member : Handle}
    {answer? : Option (Request.get run.read.key).Answer} {id : NodeId} {v : String}
    (h : (run.hear member answer?).outcome.hit = some (id, v)) :
    run.read.outcome.hit = some (id, v) ∨ answer? = some (.ok (some v)) := by
  rcases answer? with _ | (e | (_ | value))
  · exact .inl h
  · exact .inl h
  · exact .inl h
  · obtain ⟨-, rfl⟩ := Prod.mk.inj (Option.some.inj h)
    exact .inr rfl

namespace Scenario

/-! ### Puts, entries and origins -/

/-- An operation writes a value only if it is a put of a client. -/
def Op.WritesByPut (op : Op) : Prop :=
  ∀ k v, op.Requests (.set k v) → ∃ timeout, op = .put k v timeout

/-- An activity that has not started yet writes a value only if it is a put of a client. -/
def Activity.WritesByPut (a : Activity) : Prop := ∀ t op, a = .later t op → op.WritesByPut

theorem Activity.WritesByPut.lasts : World.Lasts Activity.WritesByPut := fun _ _ hleads h t op he =>
  h t op ((hleads.started t op he).trans he)

namespace World

variable {w v : World} {past turns : List (Instant × Turn)} {t : Instant} {x : Turn} {k u : String}
  {y : Handle} {a : Activity} {i j : Nat}

/-- A put of a value under a key has started in the turns so far. -/
def Started (w : World) (past : List (Instant × Turn)) (k u : String) : Prop :=
  ∃ before t i start timeout, before ++ [(t, .activity i)] <+: past ∧
    (w.follow before).activities[i]? = some (.later start (.put k u timeout))

/-- A node has been on the ring at some time of a run. -/
def Joined (w : World) (past : List (Instant × Turn)) (y : Handle) : Prop :=
  ∃ before, before <+: past ∧ y ∈ (w.follow before).cluster.ring.membership.handles

/-- A node held an entry when it entered a run. -/
def Brings (w : World) (past : List (Instant × Turn)) (y : Handle) (k u : String) : Prop :=
  ∃ before, before <+: past ∧ w.Enters before y ∧
    (w.follow before).cluster.fleet.held y k = some u

/-- A value is that of a put that has started, or a node that has been on the ring has brought it
in under its key. -/
def Original (w : World) (past : List (Instant × Turn)) (k u : String) : Prop :=
  w.Started past k u ∨ ∃ y, w.Joined past y ∧ w.Brings past y k u

theorem Started.mono (h : w.Started past k u) (hp : past <+: turns) : w.Started turns k u := by
  obtain ⟨before, t, i, start, timeout, hb, hi⟩ := h
  exact ⟨before, t, i, start, timeout, hb.trans hp, hi⟩

theorem Joined.mono (h : w.Joined past y) (hp : past <+: turns) : w.Joined turns y := by
  obtain ⟨before, hb, hy⟩ := h
  exact ⟨before, hb.trans hp, hy⟩

theorem Brings.mono (h : w.Brings past y k u) (hp : past <+: turns) : w.Brings turns y k u := by
  obtain ⟨before, hb, he, hu⟩ := h
  exact ⟨before, hb.trans hp, he, hu⟩

theorem Original.mono (h : w.Original past k u) (hp : past <+: turns) : w.Original turns k u :=
  h.imp (·.mono hp) fun ⟨y, hjoined, hbrings⟩ => ⟨y, hjoined.mono hp, hbrings.mono hp⟩

/-! ### Gets -/

/-- What is known of a get that is about to start, goes on or has been answered. -/
def GetsOriginal (w : World) (past : List (Instant × Turn)) (k : String) : Activity → Prop
  | .later _ op => ∃ timeout, op = .get k timeout
  | .read run _ client => client = true ∧ run.read.key = k ∧
      (∀ y ∈ run.read.ahead, w.Joined past y) ∧
      ∀ id u, run.read.outcome.hit = some (id, u) → w.Original past k u
  | .answered _ (.value found) => ∀ u, found = some u → w.Original past k u
  | .answered _ _ => True
  | _ => False

theorem GetsOriginal.mono (h : w.GetsOriginal past k a) (hp : past <+: turns) :
    w.GetsOriginal turns k a := by
  cases a with
  | read run primary client =>
    exact ⟨h.1, h.2.1, fun y hy => (h.2.2.1 y hy).mono hp, fun id u hu => (h.2.2.2 id u hu).mono hp⟩
  | answered t' answer =>
    cases answer with
    | value found => exact fun u hu => (h u hu).mono hp
    | _ => exact trivial
  | later t' op => exact h
  | _ => exact False.elim h

/-- A get that is under way, or has come to its end. -/
theorem getsOriginal_ofRead {c : Cluster} {run : ReadRun} (primary : Option NodeId)
    (hkey : run.read.key = k) (hahead : ∀ y ∈ run.read.ahead, w.Joined past y)
    (hhit : ∀ id u, run.read.outcome.hit = some (id, u) → w.Original past k u) :
    w.GetsOriginal past k (Activity.ofRead c run primary true).1 := by
  rcases Activity.ofRead_cases c run primary with
    he | ⟨t, elapsed, found, -, hsettle, he⟩ | ⟨t, e, he⟩ <;> rw [he]
  · exact ⟨rfl, hkey, hahead, hhit⟩
  · rintro u rfl
    obtain ⟨id, hid⟩ := ReadOutcome.hit_of_settle hsettle
    exact hhit id u hid
  · exact trivial

/-- The start of a get asks the replicas of its key, unless the get does not take place. -/
theorem begin_get_reads (w : World) (k : String) (timeout : Option Duration) :
    (∃ c run primary, run.read = .start k (w.cluster.ring.placement k) ∧
      (w.begin (.get k timeout)).1 = (Activity.ofRead c run primary true).1) ∨
    ∃ t x, x.declines = true ∧ (w.begin (.get k timeout)).1 = .answered t x := by
  rw [begin]
  split
  · rw [beginChecked, beginRead]
    split
    · exact .inl ⟨_, _, _, rfl, rfl⟩
    · exact .inr ⟨_, _, rfl, rfl⟩
  · exact .inr ⟨_, _, rfl, rfl⟩

/-- **The turn of a get.** It goes on to replicas of its key and returns what one of them holds. -/
theorem GetsOriginal.own {on : Operation → Prop} (h : w.GetsOriginal past k a)
    (ha : a.Fair on v.cluster.fleet)
    (hjoined : ∀ y ∈ v.cluster.ring.membership.handles, w.Joined past y)
    (hsound : v.cluster.ring.membership.Sound)
    (hheld : ∀ y, w.Joined past y → v.cluster.fleet.Houses y → ∀ u,
      v.cluster.fleet.held y k = some u → w.Original past k u) :
    w.GetsOriginal past k (v.stepActivity a).1 := by
  cases a with
  | later t' op =>
    obtain ⟨timeout, rfl⟩ := h
    obtain ⟨c, run, primary, hread, hbegin⟩ | ⟨t', x, hx, hbegin⟩ := v.begin_get_reads k timeout
    · rw [stepActivity, hbegin]
      refine getsOriginal_ofRead primary (by rw [hread]; rfl) (fun y hy => hjoined y ?_)
        fun id u hu => ?_
      · rw [hread] at hy
        exact hsound.placement_subset hy
      · rw [hread] at hu
        cases hu
    · rw [stepActivity, hbegin]
      cases x with
      | value found => exact absurd hx Bool.false_ne_true
      | _ => exact trivial
  | read run primary client =>
    obtain ⟨rfl, rfl, hahead, hhit⟩ := h
    have hasks : Cluster.AsksHead on v.cluster.fleet run.read.ahead (.get run.read.key)
      run.inquiry := ha
    have hstep : v.stepActivity (.read run primary true) =
        v.started (Activity.ofRead (run.step v.cluster).2 (run.step v.cluster).1 primary true) :=
      rfl
    rw [hstep, started]
    cases hq : run.inquiry with
    | none =>
      have hrests : (run.step v.cluster).1 = run := by rw [ReadRun.step, hq]
      rw [hrests]
      exact getsOriginal_ofRead primary rfl hahead hhit
    | some q =>
      have hread := ReadRun.step_read hq v.cluster
      have hhead : q.flight.target ∈ run.read.ahead := by
        refine List.mem_of_head? (hasks.head.symm.trans ?_)
        rw [hq, Option.map_some]
      refine getsOriginal_ofRead primary ?_ (fun y hy => ?_) fun id u hu => ?_
      · rw [hread, ReadRun.hear_key]
      · rw [hread] at hy
        exact hahead y (ReadRun.hear_ahead run _ _ y hy)
      · rw [hread] at hu
        rcases ReadRun.hit_of_hear hu with hold | hanswer
        · exact hhit id u hold
        · exact hheld _ (hahead _ hhead) (hasks.houses _ hhead) u
            (Cluster.found_of_receive hanswer)
  | answered t' answer => exact h
  | _ => exact False.elim h

/-! ### The invariant -/

/-- A sweep refers only to nodes that have been on the ring, and copies only original values. -/
structure CopiesOriginal (w : World) (past : List (Instant × Turn)) (run : SweepRun) : Prop where
  handles : ∀ y ∈ run.sweep.handles, w.Joined past y
  backed : run.sweep.stage.Backed (fun _ _ => True) (w.Original past)

theorem CopiesOriginal.mono {run : SweepRun} (h : w.CopiesOriginal past run) (hp : past <+: turns) :
    w.CopiesOriginal turns run where
  handles y hy := (h.handles y hy).mono hp
  backed := h.backed.mono (fun _ _ _ => trivial) fun _ _ hu => hu.mono hp

/-- What is known of the data, the sweeps, the writes and the gets of a run. -/
structure Traced (w : World) (past : List (Instant × Turn)) : Prop where
  data : ∀ y k u, (w.follow past).cluster.fleet.Houses y →
    (w.follow past).cluster.fleet.held y k = some u → w.Brings past y k u ∨ w.Original past k u
  sweeps : ∀ z run, (w.follow past).sweepAt z = some run → w.CopiesOriginal past run
  /-- What an activity under way writes is the value of a put that has started. -/
  writes : ∀ (i : Nat) a k u, (w.follow past).activities[i]? = some a → a.Requests (.set k u) →
    w.Started past k u ∨ ∃ t op, a = .later t op
  gets : ∀ j k a, w.Gets j k → (w.follow past).activities[j]? = some a → w.GetsOriginal past k a

theorem Traced.start (hfresh : w.Fresh) : w.Traced [] where
  data y k u hy hu := .inl ⟨[], List.prefix_refl _,
    ⟨hy, fun before turn he => absurd he.symm (by simp)⟩, hu⟩
  sweeps z run hrun := absurd ((hfresh.sweepAt z).symm.trans hrun).symm (Option.some_ne_none run)
  writes i a k u ha _ := .inr (hfresh.activities a (Array.mem_of_getElem? ha))
  gets j k a hget ha := by
    obtain ⟨t, timeout, hj⟩ := hget.later
    obtain rfl := Option.some.inj (hj.symm.trans ha)
    exact ⟨timeout, rfl⟩

/-- Whoever goes on writes only the values of puts that have started. -/
theorem Traced.asks (h : w.Traced past) (hv : v = (w.follow past).advanceTo t)
    (hcalled : ∀ (i : Nat) a, x = .activity i → v.activities[i]? = some a → a.WritesByPut)
    (hr : v.Asks x (.set k u)) : w.Started (past ++ [(t, x)]) k u := by
  cases x with
  | loop j => exact False.elim hr
  | activity i =>
    obtain ⟨a, ha, hr⟩ := hr
    have hi : (w.follow past).activities[i]? = some a := by rwa [hv] at ha
    rcases h.writes i a k u hi hr with hstarted | ⟨start, op, rfl⟩
    · exact hstarted.mono (List.prefix_append _ _)
    · obtain ⟨timeout, rfl⟩ := hcalled i _ rfl ha start op rfl k u hr
      exact ⟨past, t, i, start, timeout, List.prefix_refl _, hi⟩

/-- **One turn.** The data of a node change by a write of whoever goes on or by a copy of a sweep,
and a node that has just been added has brought in its data. -/
theorem Traced.turn {on : Operation → Prop} (h : w.Traced past)
    (hv : v = (w.follow past).advanceTo t) (hfair : v.Fair on)
    (hcalled : ∀ (i : Nat) a, x = .activity i → v.activities[i]? = some a →
      a.WritesByPut ∧ a.Candid on)
    (hturned : v.Turned on x (v.go x)) : w.Traced (past ++ [(t, x)]) := by
  have hpast : past <+: past ++ [(t, x)] := List.prefix_append _ _
  have hafter : w.follow (past ++ [(t, x)]) = v.go x := by rw [follow_concat, hv]
  have hasks : ∀ k u, v.Asks x (.set k u) → w.Started (past ++ [(t, x)]) k u := fun k u =>
    h.asks hv fun i a hx ha => (hcalled i a hx ha).1
  have hring : ∀ y ∈ v.cluster.ring.membership.handles, w.Joined past y := by
    subst hv
    exact fun y hy => ⟨past, List.prefix_refl _, hy⟩
  have hdata : ∀ y k u, v.cluster.fleet.Houses y → v.cluster.fleet.held y k = some u →
      w.Brings past y k u ∨ w.Original past k u := by
    subst hv
    exact h.data
  have hheld : ∀ y, w.Joined past y → v.cluster.fleet.Houses y → ∀ k u,
      v.cluster.fleet.held y k = some u → w.Original past k u := fun y hjoined hy k u hu =>
    (hdata y k u hy hu).elim (fun hb => .inr ⟨y, hjoined, hb⟩) id
  have hsweeps : ∀ z run, v.sweepAt z = some run → w.CopiesOriginal past run := by
    subst hv
    exact h.sweeps
  constructor
  · intro y k u hy hu
    rw [hafter] at hy hu
    by_cases hold : v.cluster.fleet.Houses y
    · have hbefore : v.cluster.fleet.held y k = some u →
          w.Brings (past ++ [(t, x)]) y k u ∨ w.Original (past ++ [(t, x)]) k u := fun hu =>
        (hdata y k u hold hu).imp (·.mono hpast) (·.mono hpast)
      rcases hturned.held hold k with
        hsame | ⟨r, hr, heffect⟩ | ⟨run, job, u', hx, hstage, rfl, hnew⟩
      · exact hbefore (hsame.symm.trans hu)
      · rcases Request.effect_eq_some (heffect.symm.trans hu) with rfl | hu
        · exact .inr (.inl (hasks k u hr))
        · exact hbefore hu
      · have hbacked := (hsweeps x run hx).backed
        rw [hstage] at hbacked
        obtain rfl : u' = u := Option.some.inj (hnew.symm.trans hu)
        exact .inr (hbacked.2.2.mono hpast)
    · -- the node has just been added
      refine .inl ⟨_, List.prefix_refl _, ⟨hafter ▸ hy, fun before turn he => ?_⟩, hafter ▸ hu⟩
      rw [(List.append_inj' he rfl).1.symm]
      subst hv
      exact hold
  · intro z run hrun
    rw [hafter] at hrun
    rcases hturned.sweeps hrun with hsame | rfl | ⟨run₀, cancelled, hz, hgoes⟩
    · exact (hsweeps z run hsame).mono hpast
    · refine CopiesOriginal.mono ⟨fun y hy => hring y ?_, trivial⟩ hpast
      simpa [Sweep.handles, Sweep.start, Sweep.Stage.handles] using hy
    · obtain ⟨hhandles, hbacked⟩ := hsweeps z run₀ hz
      have hsweep := hfair.sweep hz
      refine CopiesOriginal.mono ⟨fun y hy => ?_,
        hgoes.sourced hsweep hbacked (fun _ _ _ => trivial)
          fun y hy k u hu => hheld y (hhandles y hy) (hsweep.houses y hy) k u hu⟩ hpast
      exact (hgoes.mem_handles hfair.linked.sound hy).elim (hhandles y) (hring y)
  · intro i a' k u ha' hr
    rw [hafter] at ha'
    obtain ⟨a, ha, hleads⟩ := hturned.leads i a' ha'
    by_cases hx : x = .activity i
    · exact .inl (hasks k u (hx ▸ ⟨a, ha, hleads.requests _ hr⟩))
    · have hsame : (w.follow past).activities[i]? = some a' := by
        rw [hturned.activities i hx, hv] at ha'
        exact ha'
      exact (h.writes i a' k u hsame hr).imp_left (·.mono hpast)
  · intro j k a' hget ha'
    rw [hafter] at ha'
    by_cases hx : x = .activity j
    · obtain ⟨a, ha, -⟩ := hturned.leads j a' ha'
      have hown := (h.gets j k a hget (by rwa [hv] at ha)).own (hfair.activities j a ha) hring
        hfair.linked.sound fun y hjoined hy u hu => hheld y hjoined hy k u hu
      subst hx
      rw [hfair.go_activity ha (hcalled j a rfl ha).2] at ha'
      obtain rfl := Option.some.inj ha'
      exact hown.mono hpast
    · have hsame : (w.follow past).activities[j]? = some a' := by
        rw [hturned.activities j hx, hv] at ha'
        exact ha'
      exact (h.gets j k a' hget hsame).mono hpast

/-! ### Runs -/

/-- Where no request removes a key, a node that holds it goes on to hold it, on the ring or not. -/
theorem Fair.keeps_any (hw : w.Fair Operation.never)
    (hcalls : w.Calls turns (Activity.Only Operation.never (Request.Spares k)))
    (hy : w.cluster.fleet.Houses y) (hk : w.cluster.fleet.held y k ≠ none) :
    (w.follow turns).cluster.fleet.held y k ≠ none := by
  refine (hw.follow_turned Activity.Only.lasts (fun a _ => a.candid_never) hcalls
    (Q := fun past => (w.follow past).cluster.fleet.Houses y ∧
      (w.follow past).cluster.fleet.held y k ≠ none) ⟨hy, hk⟩ ?_).2
  rintro past t x v - rfl ⟨hhouse, hthere⟩ hfair hcalled hturned
  rw [follow_concat]
  refine ⟨hturned.houses hhouse, ?_⟩
  rcases hturned.held hhouse k with hsame | ⟨r, hr, heffect⟩ | ⟨run, job, u, -, -, -, hnew⟩
  · rwa [hsame]
  · rw [heffect]
    exact (asks_only hcalled hr : r.Spares k).effect hthere
  · rw [hnew]
    exact Option.some_ne_none u

/-- The invariant holds after every part of a run. -/
theorem traced_of_fresh (hw : w.Fair Operation.never) (hfresh : w.Fresh)
    (hcalls : w.Calls turns Activity.WritesByPut) : w.Traced turns := by
  refine hw.follow_turned Activity.WritesByPut.lasts (fun a _ => a.candid_never) hcalls
    (Traced.start hfresh) fun past t x v _ hv htraced hfair hcalled hturned => ?_
  exact htraced.turn hv hfair (fun i a hx ha => ⟨hcalled i a hx ha, a.candid_never⟩) hturned

/-- **Where values come from.** Puts, gets, deletes, clears, sweeps and changes of the ring go on in
any number and any order of events, and the nodes fail, answer late or make up answers at any time.
After every part of the run, what a node holds under a key, on the ring or not, is what it held when
it entered the run, the value of a put of that key that has started, or what some node that has been
on the ring held under that key when it entered; a get returns only values of the latter two kinds.
And where nothing deletes a key and nothing clears, a node that holds it goes on to hold it. -/
theorem values_have_origin (hlinked : w.Linked) (hfresh : w.Fresh)
    (hcalls : w.Calls turns Activity.WritesByPut) :
    (∀ past, past <+: turns → ∀ y k u, (w.follow past).cluster.fleet.Houses y →
      (w.follow past).cluster.fleet.held y k = some u →
        w.Brings past y k u ∨ w.Original past k u) ∧
    (∀ past, past <+: turns → ∀ j k u, w.Gets j k →
      (w.follow past).value? j = some (some u) → w.Original past k u) ∧
    (∀ k, w.Calls turns (fun a => ∀ r, a.Requests r → r.Spares k) →
      ∀ past rest, past ++ rest <+: turns → ∀ y, (w.follow past).cluster.fleet.Houses y →
        (w.follow past).cluster.fleet.held y k ≠ none →
          (w.follow (past ++ rest)).cluster.fleet.held y k ≠ none) := by
  have hw : w.Fair Operation.never := hfresh.fair hlinked fun n _ => n.faults.candid_never
  have htraced : ∀ past, past <+: turns → w.Traced past := fun past hpast =>
    traced_of_fresh hw hfresh (hcalls.mono fun e he => hpast.subset he)
  refine ⟨fun past hpast => (htraced past hpast).data, fun past hpast j k u hget hvalue => ?_,
    fun k hspares past rest hrun y hy hk => ?_⟩
  · obtain ⟨t, ha⟩ := value?_eq_some hvalue
    exact (htraced past hpast).gets j k _ hget ha u rfl
  · have honly : w.Calls (past ++ rest) (Activity.Only Operation.never (Request.Spares k)) :=
      fun i a ⟨t, ht⟩ ha => ⟨a.candid_never, hspares i a ⟨t, hrun.subset ht⟩ ha⟩
    obtain ⟨hfair, hrest⟩ := hw.follow Activity.Only.lasts (fun a _ => a.candid_never) honly
    rw [follow_append]
    exact hfair.keeps_any hrest hy hk

/-! ### A write that lands after its node has left -/

/-- Three nodes, of which the first is the only replica of every key and takes long over its first
write; the second one has brought in another value. -/
def handoffTrio : World where
  cluster :=
    { fleet := ⟨#[
        { id := ⟨10⟩, faults := .scripted [{ on := .set, delay := ⟨100⟩, times := some 1 }] [] },
        { id := ⟨20⟩, store := ⟨[("k", "b")]⟩ }, { id := ⟨30⟩ }]⟩
      ring := ⟨fun _ => 5, { replicaCount := 1, opTimeout := ⟨1000⟩ },
        ⟨⟨[(⟨10⟩, ⟨⟨10⟩, 0⟩), (⟨20⟩, ⟨⟨20⟩, 1⟩), (⟨30⟩, ⟨⟨30⟩, 2⟩)]⟩, 0⟩⟩ }
  activities := #[.later 0 (.put "k" "a" none), .later 0 (.repair none), .later 0 (.drop ⟨10⟩),
    .later 100 (.get "k" none), .later 100 (.delete "j" none)]
  registry := ⟨[(⟨10⟩, ⟨⟨10⟩, 0⟩), (⟨20⟩, ⟨⟨20⟩, 1⟩), (⟨30⟩, ⟨⟨30⟩, 2⟩)]⟩

theorem handoffTrio_fresh : handoffTrio.Fresh where
  activities := by simp [handoffTrio]
  loops := rfl

theorem handoffTrio_linked : handoffTrio.Linked :=
  .of_registry ⟨by unfold OrderedMap.Sorted; decide, by decide⟩ (by decide) rfl

theorem handoffTrio_calls (turns : List (Instant × Turn)) :
    handoffTrio.Calls turns Activity.WritesByPut := by
  refine Calls.of_forall (fun i a ha t op he k v hr => ?_) turns
  have hmem := Array.mem_of_getElem? ha
  simp only [handoffTrio, List.mem_toArray, List.mem_cons, List.not_mem_nil, or_false] at hmem
  rcases hmem with rfl | rfl | rfl | rfl | rfl <;> cases he <;> cases hr
  exact ⟨none, rfl⟩

theorem handoffTrio_spares (turns : List (Instant × Turn)) :
    handoffTrio.Calls turns fun a => ∀ r, a.Requests r → r.Spares "k" := by
  refine Calls.of_forall (fun i a ha r hr => ?_) turns
  have hmem := Array.mem_of_getElem? ha
  simp only [handoffTrio, List.mem_toArray, List.mem_cons, List.not_mem_nil, or_false] at hmem
  rcases hmem with rfl | rfl | rfl | rfl | rfl <;> cases hr
  · exact trivial
  · exact trivial
  · exact (by decide : "j" ≠ "k")

/-- The put starts, the sweep copies the value of the second node to the first one, and that one
leaves. -/
def handingOff : List (Instant × Turn) :=
  (0, .activity 0) :: List.replicate 16 (0, .activity 1) ++ [(0, .activity 2)]

/-- The write lands on the node that has left, the key is read, and another one is deleted. -/
def arriving : List (Instant × Turn) :=
  (100, .activity 0) :: List.replicate 3 (100, .activity 3) ++ [(100, .activity 4)]

/-- The node that has left holds the value of the put, the get returns the value that the second
node has brought in, and the first node has held the key all along. -/
theorem values_have_origin_handoffTrio :
    handoffTrio.Linked ∧ handoffTrio.Fresh ∧
    handoffTrio.Calls (handingOff ++ arriving) Activity.WritesByPut ∧
    (handoffTrio.follow handingOff).cluster.ring.membership.contains ⟨10⟩ = false ∧
    (handoffTrio.follow handingOff).cluster.fleet.held ⟨⟨10⟩, 0⟩ "k" = some "b" ∧
    (handoffTrio.follow (handingOff ++ arriving)).cluster.fleet.held ⟨⟨10⟩, 0⟩ "k" = some "a" ∧
    (handoffTrio.Brings (handingOff ++ arriving) ⟨⟨10⟩, 0⟩ "k" "a" ∨
      handoffTrio.Original (handingOff ++ arriving) "k" "a") ∧
    (handoffTrio.follow (handingOff ++ arriving)).value? 3 = some (some "b") ∧
    handoffTrio.Original (handingOff ++ arriving) "k" "b" ∧
    (handoffTrio.follow (handingOff ++ arriving)).cluster.fleet.held ⟨⟨10⟩, 0⟩ "k" ≠ none := by
  obtain ⟨hdata, hgets, hkeeps⟩ := values_have_origin handoffTrio_linked handoffTrio_fresh
    (handoffTrio_calls (handingOff ++ arriving))
  have hfirst : (handoffTrio.follow handingOff).cluster.fleet.held ⟨⟨10⟩, 0⟩ "k" = some "b" := by
    decide +kernel
  have hlanded : (handoffTrio.follow (handingOff ++ arriving)).cluster.fleet.held ⟨⟨10⟩, 0⟩ "k" =
      some "a" := by decide +kernel
  have hread : (handoffTrio.follow (handingOff ++ arriving)).value? 3 = some (some "b") := by
    decide +kernel
  refine ⟨handoffTrio_linked, handoffTrio_fresh, handoffTrio_calls _, by decide +kernel, hfirst,
    hlanded, hdata _ (List.prefix_refl _) _ _ _ (by decide +kernel) hlanded, hread,
    hgets _ (List.prefix_refl _) 3 "k" "b" (by decide) hread,
    hkeeps "k" (handoffTrio_spares _) handingOff arriving (List.prefix_refl _) _
      (by decide +kernel) (by rw [hfirst]; exact Option.some_ne_none _)⟩

end World

end Scenario

end ReplicaRing
