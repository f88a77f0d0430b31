import ReplicaRing.Proofs.CleanReport
import ReplicaRing.Proofs.Provenance

/-!
# One sweep heals an outage

Clients put, get and sweep over a fixed membership whose nodes were empty, every key is only ever
put with one value, and any node is down, fails or is late at any time. Then one sweep in which no
request fails brings every key that some replica has acknowledged to just its replicas.

* `World.acknowledged?` — the key of a put that a replica acknowledges in a turn;
* `Activity.PutsHome` — a put under way goes to the replicas of its key alone;
* `Fair.held_home` — what a turn does to the data;
* `World.Filled`, `Filled.turn` — the invariant, and that each turn keeps it;
* `sweep_heals` — the law over every run.
-/

namespace ReplicaRing

/-- A request that removes nothing and writes under each key only the value that belongs to it. -/
def Request.Fills (value : String → String) : Request → Prop
  | set key v => v = value key
  | get _ => True
  | keys => True
  | _ => False

variable {value : String → String}

theorem Request.Fills.spares {r : Request} (h : r.Fills value) (k : String) : r.Spares k := by
  cases r with
  | set key v => exact trivial
  | get key => exact trivial
  | keys => exact trivial
  | _ => exact False.elim h

/-- Such a request leaves a key alone or writes its value. -/
theorem Request.Fills.effect {r : Request} (h : r.Fills value) (k : String) (old : Option String) :
    r.effect k old = old ∨ r = .set k (value k) := by
  cases r with
  | set key v =>
    obtain rfl : v = value key := h
    by_cases hk : k = key
    · exact .inr (hk ▸ rfl)
    · exact .inl (if_neg hk)
  | get key => exact .inl rfl
  | keys => exact .inl rfl
  | _ => exact False.elim h

namespace Write

variable {f f' : Fleet} {run run' : Write} {u : String}

/-- An event of a put that changes a value is the answer of that replica, which acknowledges it. -/
theorem Goes.held {on : Operation → Prop} (h : run.Goes on f f' run')
    (hchange : run.change = .put u) {y : Handle} (hy : f.Houses y) (k : String) :
    f'.held y k = f.held y k ∨
      (∃ q ∈ run.flights, q.target = y) ∧ run.key = k ∧ f'.held y k = some u ∧
        run.outcome.acks < run'.outcome.acks := by
  cases h with
  | rests done still => exact .inl (still ▸ rfl)
  | expires still => exact .inl (still ▸ rfl)
  | hears q flights answer first intime ends =>
    obtain ⟨change, key, started, deadline, flights', outcome⟩ := run
    obtain rfl : change = .put u := hchange
    cases ends with
    | served reply honest serving =>
      have hheld := serving.held y hy k
      rw [Fleet.after] at hheld
      by_cases htarget : y = q.target
      · by_cases hk : k = key
        · refine .inr ⟨⟨q, first ▸ List.mem_cons_self .., htarget.symm⟩, hk.symm, ?_, ?_⟩
          · exact (hheld.trans (if_pos htarget)).trans (if_pos hk)
          · simp [FanOut.record, FanOut.acks]
        · exact .inl ((hheld.trans (if_pos htarget)).trans (if_neg hk))
      · exact .inl (hheld.trans (if_neg htarget))
    | pretended reply dubious serving => exact .inl (serving.held y hy k)
    | refused e serving => exact .inl (serving.held y hy k)

/-- A replica that acknowledges a put holds its value. -/
theorem Goes.acknowledged (h : run.Goes Operation.every f f' run') (hchange : run.change = .put u)
    (hhouses : ∀ q ∈ run.flights, f.Houses q.target)
    (hacks : run.outcome.acks < run'.outcome.acks) :
    ∃ q ∈ run.flights, f'.held q.target run.key = some u := by
  cases h with
  | rests done still => exact absurd hacks (Nat.lt_irrefl _)
  | expires still => exact absurd hacks (Nat.lt_irrefl _)
  | hears q flights answer first intime ends =>
    obtain ⟨change, key, started, deadline, flights', outcome⟩ := run
    obtain rfl : change = .put u := hchange
    obtain rfl : flights' = q :: flights := first
    have hq : q ∈ q :: flights := List.mem_cons_self ..
    cases answer with
    | error e => exact absurd hacks (Nat.lt_irrefl _)
    | ok reply => exact ⟨q, hq, Fleet.Ends.stored ends trivial (hhouses q hq)⟩

end Write

namespace Scenario

/-- An activity removes nothing, leaves the membership alone, makes nothing up, and writes under
each key only the value that belongs to it, by puts of clients. -/
structure Activity.Fills (value : String → String) (a : Activity) : Prop where
  calm : a.Calm (Request.Fills value)
  byPut : a.WritesByPut

theorem Activity.Fills.lasts : World.Lasts (Activity.Fills value) := fun _ _ hleads h =>
  ⟨Activity.Calm.lasts _ _ hleads h.calm, Activity.WritesByPut.lasts _ _ hleads h.byPut⟩

/-- Whatever an activity under way writes goes to the replicas of its key. -/
def Activity.PutsHome (r : Ring) : Activity → Prop
  | write run _ => ∀ q ∈ run.flights, q.target ∈ (r.placement run.key).members
  | ask request _ => ∀ k u, request ≠ .set k u
  | _ => True

theorem Activity.Settles.home {c : Cluster} {a : Activity} {p : Activity × Cluster} {r : Ring}
    (h : Settles c a p) (ha : a.PutsHome r) : p.1.PutsHome r := by
  rcases h.outcome with he | ⟨t, answer, he⟩ <;> rw [he]
  · exact ha
  · exact trivial

namespace World

variable {w v : World} {past turns turns' : List (Instant × Turn)} {t : Instant} {x : Turn}
  {k u : String} {y : Handle} {a : Activity} {i j : Nat}

/-- The key of a put that a replica acknowledges in a turn. -/
def acknowledged? (v : World) : Turn → Option String
  | .activity i =>
    match v.activities[i]? with
    | some (.write run _) =>
      match run.change with
      | .put _ =>
        if run.outcome.acks < (run.step v.cluster.fleet).1.outcome.acks then some run.key else none
      | .delete => none
    | _ => none
  | .loop _ => none

theorem acknowledged?_eq_some (h : v.acknowledged? x = some k) :
    ∃ i run client u, x = .activity i ∧ v.activities[i]? = some (.write run client) ∧
      run.change = .put u ∧ run.key = k ∧
        run.outcome.acks < (run.step v.cluster.fleet).1.outcome.acks := by
  unfold acknowledged? at h
  split at h
  · next i =>
    split at h
    · next run client hi =>
      split at h
      · next u hchange =>
        split at h
        · next hacks => exact ⟨i, run, client, u, rfl, hi, hchange, Option.some.inj h, hacks⟩
        · cases h
      · cases h
    · cases h
  · cases h

theorem acknowledged?_write {run : Write} {client : Bool}
    (hi : v.activities[i]? = some (.write run client)) (hchange : run.change = .put u)
    (hacks : run.outcome.acks < (run.step v.cluster.fleet).1.outcome.acks) :
    v.acknowledged? (.activity i) = some run.key := by
  simp only [acknowledged?, hi, hchange, if_pos hacks]

/-- The nodes after the turn of a write are those after its next event. -/
theorem go_write_fleet {run : Write} {client : Bool}
    (hi : v.activities[i]? = some (.write run client)) :
    (v.go (.activity i)).cluster.fleet = (run.step v.cluster.fleet).2.1 := by
  rw [go_activity_some hi]
  exact (Activity.ofWrite_settles _ _ client).fleet

/-! ### Puts -/

/-- The start of a put changes no data. -/
theorem begin_put_servesAtMost (hv : v.Fair Operation.every) (k u : String)
    (timeout : Option Duration) :
    v.cluster.fleet.ServesAtMost Operation.every (v.begin (.put k u timeout)).2.cluster.fleet
      none := by
  rw [begin]
  split
  · simp only [beginChecked, beginWrite]
    split
    · let c := ((v.cluster.beginOp .put).place k).2
      obtain ⟨-, -, hserving⟩ := Fleet.launchAll_servesAtMost hv.candid c.env c.now (.set k u) _
        (hv.linked.placement k)
      let p := Write.start c.env c.now (c.ring.options.limit timeout) (.put u) k
        (v.cluster.ring.placement k) c.fleet
      have hfleet : (Activity.ofWrite { c with fleet := p.2 } p.1 true).2.fleet = p.2 :=
        (Activity.ofWrite_settles _ _ true).fleet
      show v.cluster.fleet.ServesAtMost Operation.every
        (Activity.ofWrite { c with fleet := p.2 } p.1 true).2.fleet none
      rw [hfleet]
      exact hserving
    · exact .refl _
  · exact .refl _

/-- The start of a put asks its replicas. -/
theorem begin_put_home (hv : v.Fair Operation.every) (k u : String) (timeout : Option Duration) :
    (v.begin (.put k u timeout)).1.PutsHome v.cluster.ring := by
  obtain ⟨c, run, -, -, rfl, hcounts, he⟩ | ⟨t, x, -, he⟩ :=
    put_starts (k := k) (v := u) hv (fun _ => True) v.cluster.fleet timeout <;> rw [he]
  · rcases Activity.ofWrite_cases c run with he | ⟨t, -, he⟩ | ⟨t, e, he⟩ <;> rw [he]
    · exact hcounts.targets
    · exact trivial
    · exact trivial
  · exact trivial

/-- The start of an operation asks only replicas to write. -/
theorem begin_home {op : Op} (hv : v.Fair Operation.every)
    (hfills : Activity.Fills value (.later t op)) : (v.begin op).1.PutsHome v.cluster.ring := by
  have hbegins := begin_begins hv hfills.calm.only.candid
  have hwrites : ∀ k u, (v.begin op).1.Requests (.set k u) →
      (v.begin op).1.PutsHome v.cluster.ring := by
    intro k u hr
    obtain ⟨timeout, rfl⟩ := hfills.byPut t op rfl k u (hbegins.requests _ hr)
    exact begin_put_home hv k u timeout
  have hasks : ∀ r, (v.begin op).1.Requests r → r.Fills value := fun r hr =>
    hfills.calm.only.requests r (hbegins.requests r hr)
  cases ha : (v.begin op).1 with
  | write run client =>
    cases hchange : run.change with
    | put u =>
      refine ha ▸ hwrites run.key u ?_
      rw [ha]
      exact (congrArg (Change.request run.key) hchange).symm
    | delete =>
      refine False.elim (hasks (.delete run.key) ?_)
      rw [ha]
      exact (congrArg (Change.request run.key) hchange).symm
  | ask request q =>
    rintro k u rfl
    have hhome := ha ▸ hwrites k u (by rw [ha]; exact rfl)
    exact hhome k u rfl
  | _ => exact trivial

/-- What an activity becomes in its own turn asks only replicas to write. -/
theorem stepActivity_home (hv : v.Fair Operation.every) (hi : v.activities[i]? = some a)
    (hfills : a.Fills value) (hhome : a.PutsHome v.cluster.ring) :
    (v.stepActivity a).1.PutsHome v.cluster.ring := by
  cases a with
  | later t op => exact begin_home hv hfills
  | write run client =>
    have hgoes := Write.goes hv.candid (hv.activities i _ hi)
    have hnext : Activity.PutsHome v.cluster.ring
        (.write (run.step v.cluster.fleet).1 client) := by
      intro q hq
      rw [hgoes.key_eq]
      exact hhome q (hgoes.flights_subset q hq)
    exact (Activity.ofWrite_settles _ _ client).home hnext
  | read run primary client => exact (Activity.ofRead_settles _ _ primary client).home trivial
  | wipe run => exact (Activity.ofWipe_settles _ _).home trivial
  | sweep run cancelAt => exact (Activity.ofSweep_settles _ _ cancelAt).home trivial
  | _ => exact trivial

/-! ### One turn -/

/-- **Data.** A turn leaves a key alone, or a replica of the key acknowledges a put of it, or a
sweep copies it. -/
theorem Fair.held_home (hv : v.Fair Operation.every) (hturned : v.Turned Operation.every x (v.go x))
    (hcalled : ∀ (i : Nat) a, x = .activity i → v.activities[i]? = some a →
      a.Fills value ∧ a.PutsHome v.cluster.ring) (hy : v.cluster.fleet.Houses y) (k : String) :
    (v.go x).cluster.fleet.held y k = v.cluster.fleet.held y k ∨
      y ∈ (v.cluster.ring.placement k).members ∧
        (v.go x).cluster.fleet.held y k = some (value k) ∧ v.acknowledged? x = some k ∨
      ∃ run job u, v.sweepAt x = some run ∧ run.sweep.stage = .waiting (.copying job y u) ∧
        job.key = k ∧ (v.go x).cluster.fleet.held y k = some u := by
  rcases hturned.held hy k with hsame | ⟨r, hr, heffect⟩ | hcopy
  · exact .inl hsame
  · have hfills : r.Fills value := asks_only (fun i a hx ha => (hcalled i a hx ha).1.calm.only) hr
    rcases hfills.effect k (v.cluster.fleet.held y k) with hsame | rfl
    · exact .inl (heffect.trans hsame)
    · cases x with
      | loop i => exact False.elim hr
      | activity i =>
        obtain ⟨a, hi, hr⟩ := hr
        obtain ⟨hfills, hhome⟩ := hcalled i a rfl hi
        cases a with
        | later t op =>
          obtain ⟨timeout, rfl⟩ := hfills.byPut t op rfl k _ hr
          have hserving := begin_put_servesAtMost hv k (value k) timeout
          have hfleet : (v.go (.activity i)).cluster.fleet =
              (v.begin (.put k (value k) timeout)).2.cluster.fleet := by
            rw [go_activity_some hi]
            rfl
          exact .inl (hfleet ▸ hserving.held y hy k)
        | write run client =>
          obtain ⟨u, hchange⟩ : ∃ u, run.change = .put u := by
            cases hc : run.change with
            | put u => exact ⟨u, rfl⟩
            | delete => cases hr.trans (congrArg (Change.request run.key) hc)
          have hgoes := Write.goes hv.candid (hv.activities i _ hi)
          rcases hgoes.held hchange hy k with hsame | ⟨⟨q, hq, rfl⟩, rfl, hnew, hacks⟩
          · exact .inl (go_write_fleet hi ▸ hsame)
          · refine .inr (.inl ⟨hhome q hq, ?_, acknowledged?_write hi hchange hacks⟩)
            have hvalue : (Request.set run.key (value run.key)) = .set run.key u :=
              hr.trans (congrArg (Change.request run.key) hchange)
            rw [go_write_fleet hi, hnew, (Request.set.inj hvalue).2]
        | ask request q => exact absurd hr.symm (hhome k _)
        | _ => cases hr
  · exact .inr (.inr hcopy)

/-- A replica that acknowledges a put in a turn holds the key after it. -/
theorem Fair.stored_home (hv : v.Fair Operation.every)
    (hcalled : ∀ (i : Nat) a, x = .activity i → v.activities[i]? = some a →
      a.PutsHome v.cluster.ring) (hk : v.acknowledged? x = some k) :
    ∃ y ∈ (v.cluster.ring.placement k).members, (v.go x).cluster.fleet.held y k ≠ none := by
  obtain ⟨i, run, client, u, rfl, hi, hchange, rfl, hacks⟩ := acknowledged?_eq_some hk
  have hflights := hv.activities i _ hi
  obtain ⟨q, hq, hstored⟩ := (Write.goes hv.candid hflights).acknowledged hchange
    (fun q hq => (hflights q hq).houses) hacks
  refine ⟨q.target, hcalled i _ rfl hi q hq, ?_⟩
  rw [go_write_fleet hi, hstored]
  exact Option.some_ne_none u

/-! ### Runs -/

/-- What is known of the data, the sweeps and the puts of a run whose nodes were empty. -/
structure Filled (w : World) (value : String → String) (turns past : List (Instant × Turn)) :
    Prop where
  ring : (w.follow past).cluster.ring = w.cluster.ring
  houses : ∀ y, w.cluster.fleet.Houses y → (w.follow past).cluster.fleet.Houses y
  /-- An entry sits on a replica of its key, which some replica has acknowledged. -/
  data : ∀ y k u, w.cluster.fleet.Houses y → (w.follow past).cluster.fleet.held y k = some u →
    y ∈ (w.cluster.ring.placement k).members ∧ u = value k ∧ k ∈ w.trace acknowledged? past
  stored : ∀ k ∈ w.trace acknowledged? past, ∃ y ∈ (w.cluster.ring.placement k).members,
    (w.follow past).cluster.fleet.held y k ≠ none
  handles : ∀ z run, (w.follow past).sweepAt z = some run →
    ∀ y ∈ run.sweep.handles, y ∈ w.cluster.ring.membership.handles
  backed : ∀ z run, (w.follow past).sweepAt z = some run →
    run.sweep.stage.Backed (fun k y => y ∈ (w.cluster.ring.placement k).members)
      fun k u => u = value k ∧ k ∈ w.trace acknowledged? past
  home : ∀ (i : Nat) a, (∃ t, (t, .activity i) ∈ turns) → (w.follow past).activities[i]? = some a →
    a.PutsHome w.cluster.ring

theorem Filled.start (hfresh : w.Fresh)
    (hempty : ∀ y, w.cluster.fleet.Houses y → ∀ k, w.cluster.fleet.held y k = none) :
    w.Filled value turns [] where
  ring := rfl
  houses _ hy := hy
  data y k u hy hu := absurd ((hempty y hy k).symm.trans hu).symm (Option.some_ne_none u)
  stored k hk := absurd hk List.not_mem_nil
  handles z run hrun := absurd ((hfresh.sweepAt z).symm.trans hrun).symm (Option.some_ne_none run)
  backed z run hrun := absurd ((hfresh.sweepAt z).symm.trans hrun).symm (Option.some_ne_none run)
  home i a _ ha := by
    obtain ⟨t, op, rfl⟩ := hfresh.activities a (Array.mem_of_getElem? ha)
    exact trivial

/-- **One turn.** Entries come to replicas only, by puts that are acknowledged and by copies of
sweeps, and they stay. -/
theorem Filled.turn (hw : w.Linked) (h : w.Filled value turns past)
    (hinit : past ++ [(t, x)] <+: turns) (hv : v = (w.follow past).advanceTo t)
    (hfair : v.Fair Operation.every)
    (hcalled : ∀ (i : Nat) a, x = .activity i → v.activities[i]? = some a → a.Fills value)
    (hturned : v.Turned Operation.every x (v.go x)) :
    w.Filled value turns (past ++ [(t, x)]) := by
  have hafter : w.follow (past ++ [(t, x)]) = v.go x := by rw [follow_concat, hv]
  have hring : v.cluster.ring = w.cluster.ring := by rw [← h.ring, hv]; rfl
  have hhouses : ∀ y, w.cluster.fleet.Houses y → v.cluster.fleet.Houses y := hv ▸ h.houses
  have htrace : w.trace acknowledged? (past ++ [(t, x)]) =
      w.trace acknowledged? past ++ (v.acknowledged? x).toList := by rw [trace_concat, hv]
  have hacked : ∀ k ∈ w.trace acknowledged? past, k ∈ w.trace acknowledged? (past ++ [(t, x)]) :=
    fun k hk => htrace ▸ List.mem_append_left _ hk
  have hhome : ∀ (i : Nat) a, x = .activity i → v.activities[i]? = some a →
      a.PutsHome v.cluster.ring := by
    intro i a hx ha
    rw [hring]
    exact h.home i a ⟨t, hinit.subset (by simp [hx])⟩ (by rwa [hv] at ha)
  have hdata : ∀ y k u, w.cluster.fleet.Houses y → v.cluster.fleet.held y k = some u →
      y ∈ (w.cluster.ring.placement k).members ∧ u = value k ∧
        k ∈ w.trace acknowledged? past := hv ▸ h.data
  have hbacked : ∀ z run, v.sweepAt z = some run →
      run.sweep.stage.Backed (fun k y => y ∈ (w.cluster.ring.placement k).members)
        fun k u => u = value k ∧ k ∈ w.trace acknowledged? (past ++ [(t, x)]) := by
    intro z run hrun
    subst hv
    exact (h.backed z run hrun).mono (fun _ _ hp => hp) fun k _ hs => ⟨hs.1, hacked k hs.2⟩
  have hhandles : ∀ z run, v.sweepAt z = some run →
      ∀ y ∈ run.sweep.handles, y ∈ w.cluster.ring.membership.handles := hv ▸ h.handles
  have hheld : ∀ y, w.cluster.fleet.Houses y → ∀ k, _ := fun y hy k =>
    hfair.held_home hturned (fun i a hx ha => ⟨hcalled i a hx ha, hhome i a hx ha⟩)
      (hhouses y hy) k
  constructor
  · rw [hafter, hturned.ring_eq (spares_of_calm fun i a hx ha => (hcalled i a hx ha).calm), hring]
  · exact fun y hy => hafter ▸ hturned.houses (hhouses y hy)
  · intro y k u hy hu
    rw [hafter] at hu
    rcases hheld y hy k with hsame | ⟨hmem, hnew, hack⟩ | ⟨run, job, u', hrun, hstage, rfl, hnew⟩
    · obtain ⟨hmem, hvalue, hk⟩ := hdata y k u hy (hsame.symm.trans hu)
      exact ⟨hmem, hvalue, hacked k hk⟩
    · refine ⟨hring ▸ hmem, Option.some.inj (hu.symm.trans hnew), ?_⟩
      rw [htrace, hack]
      exact List.mem_append_right _ (List.mem_singleton_self _)
    · obtain rfl := Option.some.inj (hnew.symm.trans hu)
      have hcopies := hbacked x run hrun
      rw [hstage] at hcopies
      exact ⟨hcopies.2.1, hcopies.2.2.1, hcopies.2.2.2⟩
  · intro k hk
    rw [htrace] at hk
    rw [hafter]
    rcases List.mem_append.1 hk with hk | hk
    · obtain ⟨y, hy, hthere⟩ := h.stored k hk
      have hhouse := hw.houses y (hw.sound.placement_subset hy)
      refine ⟨y, hy, ?_⟩
      rcases hheld y hhouse k with hsame | ⟨-, hnew, -⟩ | ⟨run, job, u, -, -, -, hnew⟩
      · rw [hsame, hv]
        exact hthere
      · rw [hnew]
        exact Option.some_ne_none _
      · rw [hnew]
        exact Option.some_ne_none u
    · rw [← hring]
      exact hfair.stored_home hhome (Option.mem_toList.1 hk)
  · intro z run hrun y hy
    rw [hafter] at hrun
    rcases hturned.sweeps hrun with hsame | rfl | ⟨run₀, cancelled, hz, hgoes⟩
    · exact hhandles z run hsame y hy
    · rw [← hring]
      simpa [Sweep.handles, Sweep.start, Sweep.Stage.handles] using hy
    · rcases hgoes.mem_handles hfair.linked.sound hy with hy | hy
      · exact hhandles z run₀ hz y hy
      · exact hring ▸ hy
  · intro z run hrun
    rw [hafter] at hrun
    rcases hturned.sweeps hrun with hsame | rfl | ⟨run₀, cancelled, hz, hgoes⟩
    · exact hbacked z run hsame
    · exact trivial
    · refine hgoes.sourced (hfair.sweep hz) (hbacked z run₀ hz) (fun k y hy => hring ▸ hy) ?_
      intro y hy k u hu
      obtain ⟨-, hvalue, hk⟩ := hdata y k u (hw.houses y (hhandles z run₀ hz y hy)) hu
      exact ⟨hvalue, hacked k hk⟩
  · intro i a' hi ha'
    rw [hafter] at ha'
    by_cases hx : x = .activity i
    · subst hx
      obtain ⟨a, ha, -⟩ := hturned.leads i a' ha'
      have hfills := hcalled i a rfl ha
      rw [hfair.go_activity ha hfills.calm.only.candid] at ha'
      obtain rfl := Option.some.inj ha'
      rw [← hring]
      exact stepActivity_home hfair ha hfills (hhome i a rfl ha)
    · refine h.home i a' hi ?_
      rw [hturned.activities i hx, hv] at ha'
      exact ha'

/-- The invariant holds along every run whose nodes were empty. -/
theorem filled_of_empty (hw : w.Fair Operation.every) (hfresh : w.Fresh)
    (hempty : ∀ y, w.cluster.fleet.Houses y → ∀ k, w.cluster.fleet.held y k = none)
    (hcalls : w.Calls turns (Activity.Fills value)) : w.Filled value turns turns :=
  hw.follow_turned Activity.Fills.lasts (fun _ ha => ha.calm.only.candid) hcalls
    (Filled.start hfresh hempty) fun _ _ _ _ hinit hv h hfair hcalled hturned =>
      h.turn hw.linked hinit hv hfair hcalled hturned

/-- An operation that asks no node for anything fills nothing of its own. -/
theorem fills_of_no_requests {op : Op} (hcandid : op.Candid Operation.every) (hfixed : op.Fixed)
    (hasks : ∀ r, ¬ op.Requests r) : Activity.Fills value (.later t op) where
  calm := ⟨⟨hcandid, fun r hr => absurd hr (hasks r)⟩, hfixed⟩
  byPut t' op' he k v hr := by
    obtain ⟨-, rfl⟩ := Activity.later.inj he
    exact absurd hr (hasks _)

/-- A put of the value that belongs to its key. -/
theorem fills_put (t : Instant) (timeout : Option Duration) (hu : u = value k) :
    Activity.Fills value (.later t (.put k u timeout)) where
  calm := ⟨⟨trivial, fun r hr => by cases hr; exact hu⟩, trivial⟩
  byPut t' op' he k' v hr := by
    obtain ⟨-, rfl⟩ := Activity.later.inj he
    obtain ⟨rfl, rfl⟩ := Request.set.inj hr
    exact ⟨timeout, rfl⟩

/-- While only a sweep goes on, no put is acknowledged. -/
theorem trace_acknowledged_of_repairs (hw : w.Fair Operation.every) (hj : w.Repairs j)
    (hcalls : w.Calls turns (Activity.Calm Request.Reads))
    (halone : ∀ e ∈ turns, e.2 = .activity j) : w.trace acknowledged? turns = [] := by
  obtain ⟨t, cancelAfter, hj⟩ := hj.later
  refine (hw.follow_calm hcalls (Q := fun past => w.trace acknowledged? past = []) rfl ?_).2
  intro past t x v hinit htakes hpast
  rw [trace_concat, hpast, ← htakes.before]
  cases hx : v.acknowledged? x with
  | none => rfl
  | some k =>
    obtain ⟨i, run, client, u, rfl, hi, -⟩ := acknowledged?_eq_some hx
    obtain rfl : i = j := Turn.activity.inj (halone (t, .activity i) (hinit.subset (by simp)))
    have hpre := (List.prefix_append _ _).trans hinit
    obtain ⟨a, ha, hleads⟩ := hw.follow_leads (hcalls.mono fun e he => hpre.subset he) i
      (.write run client) (by rwa [htakes.before] at hi)
    obtain rfl := Option.some.inj (ha.symm.trans hj)
    exact False.elim (hleads.requests _ rfl)

/-- **One sweep heals any outage.** Over a fixed membership of nodes that were empty, clients put,
get and sweep in any number and any order of events, every key is only ever put with one value, and
the nodes are down, fail or are late at any time. Then one sweep comes to its end, nothing else goes
on meanwhile, and none of its requests fails. Just the keys of which some replica has acknowledged a
put are then held, with their value, each by all its replicas and by no other node. -/
theorem sweep_heals {value : String → String} {r : Report} (hw : w.Fair Operation.every)
    (hfresh : w.Fresh) (hproper : w.cluster.ring.Proper)
    (hempty : ∀ y, w.cluster.fleet.Houses y → ∀ k, w.cluster.fleet.held y k = none)
    (hcalls : w.Calls turns (Activity.Fills value)) (hj : (w.follow turns).Repairs j)
    (halone : ∀ e ∈ turns', e.2 = .activity j)
    (hclean : (w.follow turns).trace (failing? j) turns' = [])
    (hreport : (w.follow (turns ++ turns')).report? j = some r) (hfull : r.cancelled = false) :
    ∀ k, (w.cluster.ring.placement k).size = w.cluster.ring.options.replicaCount ∧
      (w.cluster.ring.placement k).ids.Nodup ∧
      ∀ y, w.cluster.fleet.Houses y →
        (w.follow (turns ++ turns')).cluster.fleet.held y k =
          if k ∈ w.trace acknowledged? turns ∧ y ∈ (w.cluster.ring.placement k).members
          then some (value k) else none := by
  have hcalm : w.Calls turns (Activity.Calm (Request.Fills value)) :=
    fun i a ht ha => (hcalls i a ht ha).calm
  obtain ⟨hfair, -⟩ := hw.follow_rest
    (show w.Calls (turns ++ []) (Activity.Calm (Request.Fills value)) by rwa [List.append_nil])
  have hbefore := filled_of_empty hw hfresh hempty hcalls
  obtain ⟨t, cancelAfter, hlater⟩ := hj.later
  have hrest : (w.follow turns).Calls turns' (Activity.Calm Request.Reads) := by
    rintro i a ⟨t', ht'⟩ ha
    obtain rfl := Turn.activity.inj (halone _ ht')
    obtain rfl := Option.some.inj (ha.symm.trans hlater)
    exact ⟨⟨trivial, fun _ hr => False.elim hr⟩, trivial⟩
  have hall : w.Calls (turns ++ turns') (Activity.Fills value) := by
    rintro i a ⟨t', ht'⟩ ha
    rcases List.mem_append.1 ht' with hmem | hmem
    · exact hcalls i a ⟨t', hmem⟩ ha
    · obtain rfl := Turn.activity.inj (halone _ hmem)
      obtain ⟨a', ha', hleads⟩ := hw.follow_leads hcalm i _ hlater
      obtain rfl := Option.some.inj (ha'.symm.trans ha)
      rw [hleads.started t _ rfl]
      exact fills_of_no_requests trivial trivial fun _ => id
  have hafter := filled_of_empty hw hfresh hempty hall
  have hacked : w.trace acknowledged? (turns ++ turns') = w.trace acknowledged? turns := by
    rw [trace_append, trace_acknowledged_of_repairs hfair hj hrest halone, List.append_nil]
  rw [follow_append] at hreport
  have hring := hbefore.ring
  obtain ⟨σ, hstage, rfl, haccounts⟩ := report_accounted hfair hj hrest hreport
  rw [hclean, hring] at haccounts
  intro k
  obtain ⟨hsize, hnodup, -⟩ := hproper.placement k
  refine ⟨hsize, hnodup, fun y hy => ?_⟩
  split
  · next hk =>
    -- a replica held the key when the sweep was to start, and no request of the sweep is to blame
    obtain ⟨s, hs, hheld⟩ := hbefore.stored k hk.1
    have hthere : ((w.follow turns).follow turns').cluster.fleet.held y k ≠ none := fun hnone =>
      (haccounts.ended hstage hfull (hw.linked.sound.placement_subset hs) hheld hk.2 hnone).elim
        List.not_mem_nil List.not_mem_nil
    obtain ⟨u, hu⟩ := Option.ne_none_iff_exists'.1 hthere
    rw [← follow_append] at hu
    rw [hu, (hafter.data y k u hy hu).2.1]
  · next hk =>
    cases hu : (w.follow (turns ++ turns')).cluster.fleet.held y k with
    | none => rfl
    | some u =>
      obtain ⟨hmem, -, hack⟩ := hafter.data y k u hy hu
      exact absurd ⟨hacked ▸ hack, hmem⟩ hk

/-! ### An outage of both replicas -/

/-- Three empty nodes, of which the first two are the replicas of every key and can be switched off.
A put finds one of them, a put of another key finds none, and when both are back a sweep follows. -/
def outageTrio : World where
  cluster :=
    { fleet := ⟨#[
        { id := ⟨10⟩, faults := .injected {} }, { id := ⟨20⟩, faults := .injected {} },
        { id := ⟨30⟩ }]⟩
      ring := ⟨fun _ => 5, { replicaCount := 2, writeQuorum := 2, opTimeout := ⟨1000⟩ },
        ⟨⟨[(⟨10⟩, ⟨⟨10⟩, 0⟩), (⟨20⟩, ⟨⟨20⟩, 1⟩), (⟨30⟩, ⟨⟨30⟩, 2⟩)]⟩, 0⟩⟩ }
  activities := #[.later 0 (.fail ⟨20⟩), .later 1 (.put "k" "v" none), .later 2 (.fail ⟨10⟩),
    .later 3 (.put "j" "u" none), .later 4 (.recover ⟨10⟩), .later 5 (.recover ⟨20⟩),
    .later 6 (.repair none)]
  registry := ⟨[(⟨10⟩, ⟨⟨10⟩, 0⟩), (⟨20⟩, ⟨⟨20⟩, 1⟩), (⟨30⟩, ⟨⟨30⟩, 2⟩)]⟩

theorem outageTrio_fresh : outageTrio.Fresh where
  activities := by simp [outageTrio]
  loops := rfl

theorem outageTrio_linked : outageTrio.Linked :=
  .of_registry ⟨by unfold OrderedMap.Sorted; decide, by decide⟩ (by decide) rfl

theorem outageTrio_fair : outageTrio.Fair Operation.every :=
  outageTrio_fresh.fair outageTrio_linked (by
    simp [Fleet.Candid, outageTrio, Node.Candid, Faults.Candid])

theorem outageTrio_proper : outageTrio.cluster.ring.Proper where
  sound := outageTrio_linked.sound
  valid := by
    unfold RingOptions.Valid
    decide
  enough := by decide

theorem outageTrio_empty (y : Handle) (hy : outageTrio.cluster.fleet.Houses y) (k : String) :
    outageTrio.cluster.fleet.held y k = none := by
  have hstore : ∀ n ∈ outageTrio.cluster.fleet.nodes, n.store = .empty := by
    simp [outageTrio]
  rw [Fleet.held, hstore _ hy.node_mem]
  exact OrderedMap.find?_empty k

/-- The value that belongs to a key. -/
def outageValue (key : String) : String := if key = "k" then "v" else "u"

theorem outageTrio_calls (turns : List (Instant × Turn)) :
    outageTrio.Calls turns (Activity.Fills outageValue) := by
  refine Calls.of_forall (fun i a ha => ?_) turns
  have hmem := Array.mem_of_getElem? ha
  simp only [outageTrio, List.mem_toArray, List.mem_cons, List.not_mem_nil, or_false] at hmem
  rcases hmem with rfl | rfl | rfl | rfl | rfl | rfl | rfl
  · exact fills_of_no_requests trivial trivial fun _ => id
  · exact fills_put 1 none (by decide)
  · exact fills_of_no_requests trivial trivial fun _ => id
  · exact fills_put 3 none (by decide)
  · exact fills_of_no_requests trivial trivial fun _ => id
  · exact fills_of_no_requests trivial trivial fun _ => id
  · exact fills_of_no_requests trivial trivial fun _ => id

/-- One replica is switched off. -/
def switchingOff : List (Instant × Turn) := [(0, .activity 0)]

/-- The first put goes on to its end, and the other replica is switched off. -/
def failingFirst : List (Instant × Turn) := [(1, .activity 1), (1, .activity 1), (2, .activity 2)]

/-- The second put goes on to its end, and both replicas recover. -/
def failingSecond : List (Instant × Turn) :=
  [(3, .activity 3), (3, .activity 3), (4, .activity 4), (5, .activity 5)]

/-- Both puts, each while a replica or both are down, until all nodes are back. -/
def outage : List (Instant × Turn) :=
  switchingOff ++ (1, .activity 1) :: (failingFirst ++ (3, .activity 3) :: failingSecond)

/-- The world in which the first put has started and failed. -/
def broken : World :=
  (((outageTrio.follow switchingOff).advanceTo 1).writing 1 (.put "v") "k" none).follow failingFirst

/-- The world in which the second put has failed as well, and all nodes are back. -/
def restored : World := ((broken.advanceTo 3).writing 3 (.put "u") "j" none).follow failingSecond

theorem go_first : ((outageTrio.follow switchingOff).advanceTo 1).go (.activity 1) =
    ((outageTrio.follow switchingOff).advanceTo 1).writing 1 (.put "v") "k" none :=
  go_write (.put "v") rfl rfl rfl (by decide) (by decide)

theorem go_second : (broken.advanceTo 3).go (.activity 3) =
    (broken.advanceTo 3).writing 3 (.put "u") "j" none :=
  go_write (.put "u") rfl rfl rfl (by decide +kernel) (by decide +kernel)

theorem follow_outage : outageTrio.follow outage = restored := by
  rw [outage, follow_append, follow, go_first, follow_append, ← broken, follow, go_second, restored]

theorem trace_outage : outageTrio.trace acknowledged? outage = ["k"] := by
  rw [outage, trace_append, trace, go_first, trace_append, ← broken, trace, go_second]
  decide +kernel

/-- The sweep from its start to its end. -/
def healing : List (Instant × Turn) := List.replicate 30 (6, .activity 6)

/-- The sweep copies the value of the first put, which has failed, to the replica that missed it.
The other put has reached nobody, and its key is held nowhere. -/
theorem sweep_heals_outageTrio :
    outageTrio.Fair Operation.every ∧ outageTrio.Fresh ∧ outageTrio.cluster.ring.Proper ∧
    (∀ y, outageTrio.cluster.fleet.Houses y → ∀ k, outageTrio.cluster.fleet.held y k = none) ∧
    outageTrio.Calls outage (Activity.Fills outageValue) ∧
    (outageTrio.follow outage).Repairs 6 ∧ (∀ e ∈ healing, e.2 = .activity 6) ∧
    (outageTrio.follow outage).trace (failing? 6) healing = [] ∧
    (outageTrio.follow (outage ++ healing)).report? 6 = some ⟨3, 2, 1, 0, 0, false⟩ ∧
    (outageTrio.follow outage).written? 1 = none ∧
    (outageTrio.follow outage).cluster.fleet.held ⟨⟨20⟩, 1⟩ "k" = none ∧
    (outageTrio.follow (outage ++ healing)).cluster.fleet.held ⟨⟨20⟩, 1⟩ "k" = some "v" ∧
    (outageTrio.follow (outage ++ healing)).cluster.fleet.held ⟨⟨30⟩, 2⟩ "k" = none ∧
    ∀ y, outageTrio.cluster.fleet.Houses y →
      (outageTrio.follow (outage ++ healing)).cluster.fleet.held y "j" = none := by
  have hrepairs : (outageTrio.follow outage).Repairs 6 := by
    rw [follow_outage]
    decide +kernel
  have halone : ∀ e ∈ healing, e.2 = .activity 6 := fun e he =>
    congrArg Prod.snd (List.eq_of_mem_replicate he)
  have hclean : (outageTrio.follow outage).trace (failing? 6) healing = [] := by
    rw [follow_outage]
    decide +kernel
  have hreport : (outageTrio.follow (outage ++ healing)).report? 6 =
      some ⟨3, 2, 1, 0, 0, false⟩ := by
    rw [follow_append, follow_outage]
    decide +kernel
  have hmissed : (outageTrio.follow outage).written? 1 = none ∧
      (outageTrio.follow outage).cluster.fleet.held ⟨⟨20⟩, 1⟩ "k" = none := by
    rw [follow_outage]
    decide +kernel
  have hheals := sweep_heals outageTrio_fair outageTrio_fresh outageTrio_proper outageTrio_empty
    (outageTrio_calls outage) hrepairs halone hclean hreport rfl
  rw [trace_outage] at hheals
  refine ⟨outageTrio_fair, outageTrio_fresh, outageTrio_proper, outageTrio_empty,
    outageTrio_calls outage, hrepairs, halone, hclean, hreport, hmissed.1, hmissed.2, ?_, ?_,
    fun y hy => ?_⟩
  · rw [(hheals "k").2.2 _ (by decide), if_pos (by decide +kernel)]
    decide
  · rw [(hheals "k").2.2 _ (by decide), if_neg (by decide +kernel)]
  · rw [(hheals "j").2.2 y hy, if_neg fun h => absurd h.1 (by decide)]

end World

end Scenario

end ReplicaRing
