import ReplicaRing.Proofs.Turns

/-!
# Sweeps fill gaps

Any number of sweeps go on at the same time, nodes fail, answer late, list what they like, join and
leave, but no client writes. Then data only ever appear: no entry is removed, and what appears is on
a replica of its key and was held by some node before.

* `Sweep.Stage.Backed` — where the copies of a sweep go and where their values come from;
* `Goes.backed`, `Goes.held`, `Goes.lacks` — what one event of a sweep does to that;
* `World.Enters`, `World.Seen`, `World.Placed` — when a node enters a run, the values seen then, and
  the replicas of a key so far;
* `sweeps_fill_gaps` — the law over every run;
* `refill_changes_entry` — a node that leaves and joins again may have its entry changed.
-/

namespace ReplicaRing

/-- A request that changes no data. -/
def Request.Reads : Request → Prop
  | get _ => True
  | keys => True
  | _ => False

theorem Request.Reads.effect {r : Request} (h : r.Reads) (k : String) (old : Option String) :
    r.effect k old = old := by
  cases r with
  | get key => rfl
  | keys => rfl
  | _ => exact False.elim h

/-! ### One event of a sweep -/

section Backed

variable (placed : String → Handle → Prop) (seen : String → String → Prop)

/-- The replicas that a repair still looks at are placed, and the value that it has read is seen. -/
structure KeyRepair.Backed (job : KeyRepair) : Prop where
  ahead : ∀ x ∈ job.ahead, placed job.key x
  value : ∀ v, job.value = some v → seen job.key v

/-- A sweep looks only at replicas that are placed and copies only values that are seen. -/
def Sweep.Stage.Backed : Sweep.Stage → Prop
  | .waiting (.checking job member) => job.Backed placed seen ∧ placed job.key member
  | .waiting (.fetching job member) => job.Backed placed seen ∧ placed job.key member
  | .waiting (.copying job member value) =>
    job.Backed placed seen ∧ placed job.key member ∧ seen job.key value
  | _ => True

end Backed

section

variable {placed placed' : String → Handle → Prop} {seen seen' : String → String → Prop}

theorem KeyRepair.Backed.mono {job : KeyRepair} (h : job.Backed placed seen)
    (hp : ∀ k x, placed k x → placed' k x) (hs : ∀ k v, seen k v → seen' k v) :
    job.Backed placed' seen' :=
  ⟨fun x hx => hp _ x (h.ahead x hx), fun v hv => hs _ v (h.value v hv)⟩

theorem Sweep.Stage.Backed.mono {stage : Sweep.Stage} (h : stage.Backed placed seen)
    (hp : ∀ k x, placed k x → placed' k x) (hs : ∀ k v, seen k v → seen' k v) :
    stage.Backed placed' seen' := by
  cases stage with
  | waiting w =>
    cases w with
    | listing source => exact trivial
    | checking job member => exact ⟨h.1.mono hp hs, hp _ _ h.2⟩
    | fetching job member => exact ⟨h.1.mono hp hs, hp _ _ h.2⟩
    | copying job member value => exact ⟨h.1.mono hp hs, hp _ _ h.2.1, hs _ _ h.2.2⟩
  | _ => exact trivial

theorem KeyRepair.Backed.next {job : KeyRepair} (h : job.Backed placed seen) :
    job.next.Backed placed seen := by
  rcases job.next_cases with hn | ⟨member, rest, hsub, hn⟩
  · rw [hn]
    exact trivial
  · rw [hn]
    exact ⟨⟨fun x hx => h.ahead x (hsub x (List.mem_cons_of_mem _ hx)), h.value⟩,
      h.ahead member (hsub member (List.mem_cons_self ..))⟩

namespace Sweep

variable {s : Sweep}

/-- A key whose repair begins is repaired at its replicas. -/
theorem Proceeds.backed {r : Ring} {cancelled : Bool} {s' : Sweep} (h : s.Proceeds r cancelled s')
    (hs : s.stage.Backed placed seen) (hp : ∀ k x, x ∈ (r.placement k).members → placed k x) :
    s'.stage.Backed placed seen := by
  cases h with
  | rests finished => exact hs
  | skips source rest between next gone => exact hs
  | repairs source key keys between =>
    exact KeyRepair.Backed.next
      ⟨fun x hx => hp key x hx, fun v hv => absurd hv.symm (Option.some_ne_none v)⟩
  | _ => exact trivial

/-- A boundary says of no replica that it lacks a key. -/
theorem Proceeds.lacks {r : Ring} {cancelled : Bool} {s' : Sweep} (h : s.Proceeds r cancelled s')
    {k : String} {x : Handle} (hx : s'.stage.lacks? k = some x) : s.stage.lacks? k = some x := by
  cases h with
  | rests finished => exact hx
  | skips source rest between next gone => exact hx
  | repairs source key keys between =>
    exact absurd ((KeyRepair.next_lacks _ k).symm.trans hx).symm (Option.some_ne_none x)
  | _ => exact nomatch hx

/-- What an answer says about the key that was asked for, if it says anything. -/
def Waiting.found? : (w : Waiting) → w.request.Answer → Option (Option String)
  | .checking _ _, .ok found => some found
  | .fetching _ _, .ok found => some found
  | _, _ => none

/-- A value that is read from the source of a key is the value to be copied. -/
theorem backed_resume {w : Waiting} (h : (Stage.waiting w).Backed placed seen)
    {answer : w.request.Answer}
    (hread : ∀ v, w.found? answer = some (some v) → seen w.request.key v) :
    (s.resume w answer).1.stage.Backed placed seen := by
  cases w with
  | listing source => cases answer <;> exact trivial
  | checking job member =>
    cases answer with
    | ok found =>
      cases found with
      | some value => exact h.1.next
      | none =>
        simp only [resume]
        cases hv : job.value with
        | some value => exact ⟨h.1, h.2, h.1.value value hv⟩
        | none => exact h
    | error e => exact h.1.next
  | fetching job member =>
    cases answer with
    | ok found =>
      cases found with
      | some value =>
        have hseen : seen job.key value := hread value rfl
        refine ⟨⟨h.1.ahead, fun v hv => ?_⟩, h.2, hseen⟩
        obtain rfl : value = v := Option.some.inj hv
        exact hseen
      | none => exact trivial
    | error e => exact trivial
  | copying job member value => cases answer <;> exact h.1.next

/-- A replica is found to lack a key only by the answer that says so. -/
theorem lacks_resume {w : Waiting} {answer : w.request.Answer} {k : String} {x : Handle}
    (h : (s.resume w answer).1.stage.lacks? k = some x) :
    (Stage.waiting w).lacks? k = some x ∨
      ∃ job, w = .checking job x ∧ job.key = k ∧ w.found? answer = some none := by
  have hnext : ∀ job : KeyRepair, job.next.lacks? k = some x → False := fun job hj =>
    absurd ((job.next_lacks k).symm.trans hj).symm (Option.some_ne_none x)
  cases w with
  | listing source => cases answer <;> cases h
  | checking job member =>
    cases answer with
    | ok found =>
      cases found with
      | some value => exact (hnext job h).elim
      | none =>
        have hlacks : job.key = k ∧ member = x := by
          simp only [resume] at h
          split at h <;> simpa [Stage.lacks?] using h
        exact .inr ⟨job, by rw [hlacks.2], hlacks.1, rfl⟩
    | error e => exact (hnext job h).elim
  | fetching job member =>
    cases answer with
    | ok found =>
      cases found with
      | some value => exact .inl h
      | none => cases h
    | error e => cases h
  | copying job member value => cases answer <;> exact (hnext job h).elim

end Sweep

end

/-! ### One event of a sweep among others -/

namespace SweepRun

variable {on : Operation → Prop} {c : Cluster} {f' : Fleet} {cancelled : Bool}
  {run run' : SweepRun} {placed : String → Handle → Prop} {seen : String → String → Prop}

/-- What a node says about a key is what it holds. -/
theorem found_ends (hget : on .get) {f : Fleet} {w : Sweep.Waiting}
    {answer? : Option w.request.Answer} (h : f.Ends on f' w.target w.request answer?)
    {found : Option String} (hfound : w.found? (heard w answer?) = some found) :
    f.held w.target w.request.key = found := by
  cases w with
  | listing source => rcases answer? with _ | (_ | _) <;> exact nomatch hfound
  | checking job member =>
    rcases answer? with _ | (_ | reply)
    · exact nomatch hfound
    · exact nomatch hfound
    · obtain rfl : reply = found := Option.some.inj hfound
      exact h.found hget
  | fetching job member =>
    rcases answer? with _ | (_ | reply)
    · exact nomatch hfound
    · exact nomatch hfound
    · obtain rfl : reply = found := Option.some.inj hfound
      exact h.found hget
  | copying job member value => rcases answer? with _ | (_ | _) <;> exact nomatch hfound

/-- A sweep goes on to copy values that are seen to replicas that are placed. -/
theorem Goes.backed (h : run.Goes on c f' cancelled run') (hget : on .get)
    (hrun : run.Fair on c.fleet) (hb : run.sweep.stage.Backed placed seen)
    (hp : ∀ k x, x ∈ (c.ring.placement k).members → placed k x)
    (hs : ∀ x k v, c.fleet.Houses x → c.fleet.held x k = some v → seen k v) :
    run'.sweep.stage.Backed placed seen := by
  cases h with
  | asks w q waits idle serving => exact hb
  | passes s proceeds still => exact proceeds.backed hb hp
  | hears w q answer? waits asked arrives ends =>
    rw [waits] at hb
    exact Sweep.backed_resume hb fun v hv =>
      hs w.target _ v (hrun.target waits) (found_ends hget ends hv)

/-- A sweep finds that a replica lacks a key only if it does. -/
theorem Goes.lacks (h : run.Goes on c f' cancelled run') (hget : on .get) {k : String} {x : Handle}
    (hx : run'.sweep.stage.lacks? k = some x) :
    run.sweep.stage.lacks? k = some x ∨
      ∃ job, run.sweep.stage = .waiting (.checking job x) ∧ job.key = k ∧
        c.fleet.held x k = none := by
  cases h with
  | asks w q waits idle serving => exact .inl hx
  | passes s proceeds still => exact .inl (proceeds.lacks hx)
  | hears w q answer? waits asked arrives ends =>
    rcases Sweep.lacks_resume hx with hx | ⟨job, rfl, rfl, hnone⟩
    · exact .inl (waits ▸ hx)
    · exact .inr ⟨job, waits, rfl, found_ends hget ends hnone⟩

end SweepRun

/-! ### Runs without writes -/

namespace Scenario

namespace World

variable {on : Operation → Prop} {w w' v : World} {x : Turn} {turns past : List (Instant × Turn)}

/-- A node enters a run: it is there from the start, or the last turn has added it. -/
def Enters (w : World) (past : List (Instant × Turn)) (x : Handle) : Prop :=
  (w.follow past).cluster.fleet.Houses x ∧
    ∀ before turn, past = before ++ [turn] → ¬ (w.follow before).cluster.fleet.Houses x

/-- A value that some node held under a key when it entered a run. -/
def Seen (w : World) (turns : List (Instant × Turn)) (k v : String) : Prop :=
  ∃ past x, past <+: turns ∧ w.Enters past x ∧ (w.follow past).cluster.fleet.held x k = some v

/-- A node that has been a replica of a key under some membership of a run. -/
def Placed (w : World) (turns : List (Instant × Turn)) (k : String) (x : Handle) : Prop :=
  ∃ past, past <+: turns ∧ x ∈ ((w.follow past).cluster.ring.placement k).members

theorem Seen.mono {past turns : List (Instant × Turn)} {k u : String} (h : w.Seen past k u)
    (hp : past <+: turns) : w.Seen turns k u := by
  obtain ⟨before, y, hb, he, hheld⟩ := h
  exact ⟨before, y, hb.trans hp, he, hheld⟩

theorem Placed.mono {past turns : List (Instant × Turn)} {k : String} {y : Handle}
    (h : w.Placed past k y) (hp : past <+: turns) : w.Placed turns k y := by
  obtain ⟨before, hb, hy⟩ := h
  exact ⟨before, hb.trans hp, hy⟩

/-- An entry was brought in by its node, or it sits on a replica of its key. -/
def Explained (w : World) (turns : List (Instant × Turn)) (y : Handle) (k : String) : Prop :=
  w.Placed turns k y ∨
    ∃ past, past <+: turns ∧ w.Enters past y ∧ (w.follow past).cluster.fleet.held y k ≠ none

theorem Explained.mono {past turns : List (Instant × Turn)} {k : String} {y : Handle}
    (h : w.Explained past y k) (hp : past <+: turns) : w.Explained turns y k := by
  rcases h with h | ⟨before, hb, he, hheld⟩
  · exact .inl (h.mono hp)
  · exact .inr ⟨before, hb.trans hp, he, hheld⟩

/-- What is known of the data and of the sweeps of a run without writes. -/
structure Filling (w : World) (past : List (Instant × Turn)) : Prop where
  data : ∀ y k u, (w.follow past).cluster.fleet.Houses y →
    (w.follow past).cluster.fleet.held y k = some u → w.Seen past k u ∧ w.Explained past y k
  sweeps : ∀ z run, (w.follow past).sweepAt z = some run →
    run.sweep.stage.Backed (w.Placed past) (w.Seen past)

theorem Filling.start (hidle : ∀ z, w.sweepAt z = none) : w.Filling [] where
  data y k u hy hu := by
    have henters : w.Enters [] y :=
      ⟨hy, fun before turn he => absurd he.symm (List.append_ne_nil_of_right_ne_nil _ (by simp))⟩
    exact ⟨⟨[], y, List.prefix_refl _, henters, hu⟩,
      .inr ⟨[], List.prefix_refl _, henters, fun hn => Option.some_ne_none u (hu.symm.trans hn)⟩⟩
  sweeps z run hrun := absurd ((hidle z).symm.trans hrun).symm (Option.some_ne_none run)

/-- **One turn of a run without writes.** -/
theorem Filling.turn (h : w.Filling past) {t : Instant} (hv : v = (w.follow past).advanceTo t)
    (hfair : v.Fair on) (hget : on .get)
    (hcalled : ∀ (i : Nat) a, x = .activity i → v.activities[i]? = some a → a.Only on Request.Reads)
    (hturned : v.Turned on x (v.go x)) : w.Filling (past ++ [(t, x)]) := by
  have hpast : past <+: past ++ [(t, x)] := List.prefix_append _ _
  have hafter : w.follow (past ++ [(t, x)]) = v.go x := by rw [follow_concat, hv]
  have hreads : ∀ r, v.Asks x r → r.Reads := fun r => asks_only hcalled
  have hdata : ∀ y k u, v.cluster.fleet.Houses y → v.cluster.fleet.held y k = some u →
      w.Seen (past ++ [(t, x)]) k u ∧ w.Explained (past ++ [(t, x)]) y k := by
    subst hv
    exact fun y k u hy hu => ⟨(h.data y k u hy hu).1.mono hpast, (h.data y k u hy hu).2.mono hpast⟩
  have hsweeps : ∀ z run, v.sweepAt z = some run →
      run.sweep.stage.Backed (w.Placed (past ++ [(t, x)])) (w.Seen (past ++ [(t, x)])) := by
    subst hv
    exact fun z run hrun => (h.sweeps z run hrun).mono (fun _ _ hp => hp.mono hpast)
      fun _ _ hs => hs.mono hpast
  have hplaced : ∀ k y, y ∈ (v.cluster.ring.placement k).members →
      w.Placed (past ++ [(t, x)]) k y := by
    subst hv
    exact fun k y hy => ⟨past, hpast, hy⟩
  constructor
  · intro y k u hy hu
    rw [hafter] at hy hu
    by_cases hold : v.cluster.fleet.Houses y
    · rcases hturned.held hold k with
        hsame | ⟨r, hr, heffect⟩ | ⟨run, job, u', hx, hstage, rfl, hnew⟩
      · exact hdata y k u hold (hsame.symm.trans hu)
      · rw [heffect, (hreads r hr).effect] at hu
        exact hdata y k u hold hu
      · have hbacked := hsweeps x run hx
        rw [hstage] at hbacked
        obtain rfl : u' = u := Option.some.inj (hnew.symm.trans hu)
        exact ⟨hbacked.2.2, .inl hbacked.2.1⟩
    · -- the node has just been added
      have henters : w.Enters (past ++ [(t, x)]) y := by
        refine ⟨hafter ▸ hy, fun before turn he => ?_⟩
        rw [(List.append_inj' he rfl).1.symm]
        subst hv
        exact hold
      have hu' := hafter ▸ hu
      exact ⟨⟨_, y, List.prefix_refl _, henters, hu'⟩, .inr ⟨_, List.prefix_refl _, henters,
        fun hn => Option.some_ne_none u (hu'.symm.trans hn)⟩⟩
  · intro z run hrun
    rw [hafter] at hrun
    rcases hturned.sweeps hrun with hsame | rfl | ⟨run₀, cancelled, hz, hgoes⟩
    · exact hsweeps z run hsame
    · exact trivial
    · exact hgoes.backed hget (hfair.sweep hz) (hsweeps z run₀ hz) hplaced
        fun y k u hy hu => (hdata y k u hy hu).1

/-- Nobody who sweeps has found that a node lacks a key. -/
def Unmissed (w : World) (y : Handle) (k : String) : Prop :=
  ∀ z run, w.sweepAt z = some run → run.sweep.stage.lacks? k ≠ some y

/-- **Entries last.** In a run without writes no entry is removed, and its value stays unless a
sweep under way has found the entry to be missing before. -/
theorem entry_lasts (hw : w.Fair on) (hget : on .get)
    (hcalls : w.Calls turns (Activity.Only on Request.Reads)) {y : Handle} {k u : String}
    (hy : w.cluster.fleet.Houses y) (hu : w.cluster.fleet.held y k = some u) :
    (w.follow turns).cluster.fleet.held y k ≠ none ∧
      (w.Unmissed y k → (w.follow turns).cluster.fleet.held y k = some u) := by
  have hkept := hw.follow_turned Activity.Only.lasts (fun _ ha => ha.candid) hcalls
    (Q := fun past => (w.follow past).cluster.fleet.Houses y ∧
      (w.follow past).cluster.fleet.held y k ≠ none ∧ (w.Unmissed y k →
        (w.follow past).cluster.fleet.held y k = some u ∧ (w.follow past).Unmissed y k))
    ⟨hy, fun hn => Option.some_ne_none u (hu.symm.trans hn), fun hm => ⟨hu, hm⟩⟩ ?_
  · exact ⟨hkept.2.1, fun hm => (hkept.2.2 hm).1⟩
  rintro past t x v - hv ⟨hhouse, hsome, hval⟩ hfair hcalled hturned
  rw [follow_concat, ← hv]
  have hhouse' : v.cluster.fleet.Houses y := hv ▸ hhouse
  have hsome' : v.cluster.fleet.held y k ≠ none := hv ▸ hsome
  have hval' : w.Unmissed y k → v.cluster.fleet.held y k = some u ∧ v.Unmissed y k := by
    subst hv
    exact hval
  have hreads : ∀ r, v.Asks x r → r.Reads := fun r => asks_only hcalled
  have hchange : (v.go x).cluster.fleet.held y k = v.cluster.fleet.held y k ∨
      ∃ run job u', v.sweepAt x = some run ∧ run.sweep.stage = .waiting (.copying job y u') ∧
        job.key = k ∧ (v.go x).cluster.fleet.held y k = some u' := by
    rcases hturned.held hhouse' k with hsame | ⟨r, hr, heffect⟩ | hcopy
    · exact .inl hsame
    · exact .inl (heffect.trans ((hreads r hr).effect k _))
    · exact .inr hcopy
  refine ⟨hturned.houses hhouse', ?_, fun hm => ⟨?_, fun z run hrun hlacks => ?_⟩⟩
  · rcases hchange with hsame | ⟨run, job, u', -, -, -, hnew⟩
    · rwa [hsame]
    · rw [hnew]
      exact Option.some_ne_none u'
  · obtain ⟨hheld, hmissed⟩ := hval' hm
    rcases hchange with hsame | ⟨run, job, u', hx, hstage, hk, -⟩
    · rwa [hsame]
    · exact absurd (by rw [hstage, Sweep.Stage.lacks?, if_pos hk]) (hmissed x run hx)
  · obtain ⟨hheld, hmissed⟩ := hval' hm
    rcases hturned.sweeps hrun with hsame | rfl | ⟨run₀, cancelled, hz, hgoes⟩
    · exact hmissed z run hsame hlacks
    · cases hlacks
    · rcases hgoes.lacks hget hlacks with hl | ⟨job, -, -, hl⟩
      · exact hmissed z run₀ hz hl
      · exact hsome' hl

/-- No sweep under way knows of a node that has just been added. -/
theorem unmissed_of_added (hget : on .get) {y : Handle} (hy : ¬ v.cluster.fleet.Houses y)
    (hfair : v.Fair on) (hturned : v.Turned on x w') (k : String) : w'.Unmissed y k := by
  intro z run hrun hlacks
  have hknown : ∀ z run, v.sweepAt z = some run → run.sweep.stage.lacks? k ≠ some y :=
    fun z run hz hl => hy ((hfair.sweep hz).houses y
      (List.mem_append_right _ (Sweep.Stage.mem_handles_of_lacks hl)))
  rcases hturned.sweeps hrun with hsame | rfl | ⟨run₀, cancelled, hz, hgoes⟩
  · exact hknown z run hsame hlacks
  · exact nomatch hlacks
  · rcases hgoes.lacks hget hlacks with hl | ⟨job, hstage, -, -⟩
    · exact hknown z run₀ hz hl
    · exact hy ((hfair.sweep hz).target hstage)

/-- When a node enters a run, no sweep has found it to lack a key. -/
theorem Enters.unmissed (hw : w.Fair on) (hget : on .get) (hidle : ∀ z, w.sweepAt z = none)
    (hcalls : w.Calls past (Activity.Only on Request.Reads)) {y : Handle} (hy : w.Enters past y)
    (k : String) : (w.follow past).Unmissed y k := by
  rcases List.eq_nil_or_concat past with rfl | ⟨before, ⟨t, x⟩, rfl⟩
  · exact fun z run hrun => absurd ((hidle z).symm.trans hrun).symm (Option.some_ne_none run)
  rw [List.concat_eq_append] at *
  obtain ⟨hfair, hcalled⟩ :=
    hw.follow Activity.Only.lasts (fun _ ha => ha.candid) hcalls
  have hturned := (hfair.advanceTo t).turned (x := x) fun i a hx ha =>
    (hcalled i a ⟨t, hx ▸ List.mem_singleton_self _⟩ ha).candid
  rw [follow_concat]
  exact unmissed_of_added (v := (w.follow before).advanceTo t) hget (hy.2 before (t, x) rfl)
    (hfair.advanceTo t) hturned k

/-- **Sweeps fill gaps.** Sweeps go on in any number and any order of events, whatever the nodes
answer as long as they make up no value, and nodes join and leave, but no client writes. An entry is
never removed. Its value stays from the time at which its node enters the run, and from any other
time at which no sweep under way has found the entry to be missing. An entry that its node did not
bring in sits on a node that has been a replica of the key, and every value has been held under its
key by some node when that node entered. -/
theorem sweeps_fill_gaps (hw : w.Fair (· = .get)) (hidle : ∀ z, w.sweepAt z = none)
    (hcalls : w.Calls turns (Activity.Only (· = .get) Request.Reads)) :
    (∀ past y k u, past <+: turns → (w.follow past).cluster.fleet.Houses y →
      (w.follow past).cluster.fleet.held y k = some u →
      (w.follow turns).cluster.fleet.held y k ≠ none ∧
        (w.Enters past y ∨ (w.follow past).Unmissed y k →
          (w.follow turns).cluster.fleet.held y k = some u)) ∧
    (∀ y k u, (w.follow turns).cluster.fleet.Houses y →
      (w.follow turns).cluster.fleet.held y k = some u →
      w.Seen turns k u ∧
        ((∀ past, past <+: turns → w.Enters past y →
          (w.follow past).cluster.fleet.held y k = none) → w.Placed turns k y)) := by
  constructor
  · rintro past y k u ⟨rest, rfl⟩ hy hu
    obtain ⟨hfair, hcalled⟩ :=
      hw.follow Activity.Only.lasts (fun _ ha => ha.candid) hcalls
    obtain ⟨hsome, hval⟩ := entry_lasts hfair rfl hcalled hy hu
    rw [follow_append]
    refine ⟨hsome, fun h => hval ?_⟩
    rcases h with henters | hmissed
    · exact henters.unmissed hw rfl hidle
        (hcalls.mono fun e he => List.mem_append_left _ he) k
    · exact hmissed
  · intro y k u hy hu
    have hfilling := hw.follow_turned Activity.Only.lasts (fun _ ha => ha.candid) hcalls
      (Filling.start hidle)
      fun past t x v _ hv hq hfair hcalled hturned =>
        hq.turn hv hfair rfl hcalled hturned
    obtain ⟨hseen, hplaced | ⟨past, hpast, henters, hheld⟩⟩ := hfilling.data y k u hy hu
    · exact ⟨hseen, fun _ => hplaced⟩
    · exact ⟨hseen, fun hnew => absurd (hnew past hpast henters) hheld⟩

/-! ### A node that leaves and joins again -/

/-- Three nodes, of which the first is the only replica of every key and lacks one that the two
others hold with different values. Its first write takes long, and the second node fails to list its
keys once. Two sweeps are about to start, and the first node to leave and to join again. -/
def lateTrio : World where
  cluster :=
    { fleet := ⟨#[
        { id := ⟨10⟩, faults := .scripted [{ on := .set, delay := ⟨100⟩, times := some 1 }] [] },
        { id := ⟨20⟩, store := ⟨[("k", "a")]⟩,
          faults := .scripted [{ on := .keys, act := .failed "busy", times := some 1 }] [] },
        { id := ⟨30⟩, store := ⟨[("k", "b")]⟩ }]⟩
      ring := ⟨fun _ => 5, { replicaCount := 1, opTimeout := ⟨1000⟩ },
        ⟨⟨[(⟨10⟩, ⟨⟨10⟩, 0⟩), (⟨20⟩, ⟨⟨20⟩, 1⟩), (⟨30⟩, ⟨⟨30⟩, 2⟩)]⟩, 0⟩⟩ }
  activities := #[.later 0 (.repair none), .later 10 (.repair none), .later 20 (.drop ⟨10⟩),
    .later 30 (.addAgain ⟨10⟩)]
  registry := ⟨[(⟨10⟩, ⟨⟨10⟩, 0⟩), (⟨20⟩, ⟨⟨20⟩, 1⟩), (⟨30⟩, ⟨⟨30⟩, 2⟩)]⟩

theorem lateTrio_fresh : lateTrio.Fresh where
  activities := by simp [lateTrio]
  loops := rfl

theorem lateTrio_linked : lateTrio.Linked :=
  .of_registry ⟨by unfold OrderedMap.Sorted; decide, by decide⟩ (by decide) rfl

theorem lateTrio_fair : lateTrio.Fair (· = .get) :=
  lateTrio_fresh.fair lateTrio_linked (by
    simp [Fleet.Candid, lateTrio, Node.Candid, Faults.Candid, Rule.Candid])

theorem lateTrio_calls (turns : List (Instant × Turn)) :
    lateTrio.Calls turns (Activity.Only (· = .get) Request.Reads) := by
  refine Calls.of_forall (fun i a ha => ?_) turns
  have hmem := Array.mem_of_getElem? ha
  simp only [lateTrio, List.mem_toArray, List.mem_cons, List.not_mem_nil, or_false] at hmem
  rcases hmem with rfl | rfl | rfl | rfl <;> exact ⟨trivial, fun _ hr => False.elim hr⟩

/-- The first sweep reads the value of the third node and starts to copy it; the second one copies
the value of the second node; then the replica leaves. -/
def leaving : List (Instant × Turn) :=
  List.replicate 17 (0, .activity 0) ++ List.replicate 24 (10, .activity 1) ++ [(20, .activity 2)]

/-- The replica joins again with the value that it has got. -/
def joining : List (Instant × Turn) := leaving ++ [(30, .activity 3)]

/-- The first copy lands. -/
def landing : List (Instant × Turn) := joining ++ List.replicate 3 (100, .activity 0)

/-- The second node keeps its value, the first one keeps an entry, and what it holds in the end is a
value that some node has brought in. -/
theorem sweeps_fill_gaps_lateTrio :
    lateTrio.Fair (· = .get) ∧ (∀ z, lateTrio.sweepAt z = none) ∧
    lateTrio.Calls landing (Activity.Only (· = .get) Request.Reads) ∧
    (lateTrio.follow landing).cluster.fleet.held ⟨⟨20⟩, 1⟩ "k" = some "a" ∧
    (lateTrio.follow landing).cluster.fleet.held ⟨⟨10⟩, 0⟩ "k" ≠ none ∧
    lateTrio.Seen landing "k" "b" := by
  obtain ⟨hlasts, hcomes⟩ := sweeps_fill_gaps lateTrio_fair lateTrio_fresh.sweepAt
    (lateTrio_calls landing)
  have hsecond : lateTrio.cluster.fleet.Houses ⟨⟨20⟩, 1⟩ := by decide
  have henters : lateTrio.Enters [] ⟨⟨20⟩, 1⟩ :=
    ⟨hsecond, fun before turn he => absurd he.symm (by simp)⟩
  have hjoined : (lateTrio.follow joining).cluster.fleet.held ⟨⟨10⟩, 0⟩ "k" = some "a" := by
    decide +kernel
  have hlanded : (lateTrio.follow landing).cluster.fleet.held ⟨⟨10⟩, 0⟩ "k" = some "b" := by
    decide +kernel
  exact ⟨lateTrio_fair, lateTrio_fresh.sweepAt, lateTrio_calls landing,
    (hlasts [] _ _ _ (List.nil_prefix) hsecond (by decide +kernel)).2 (.inl henters),
    (hlasts joining _ _ _ (List.prefix_append _ _) (by decide +kernel) hjoined).1,
    (hcomes ⟨⟨10⟩, 0⟩ _ _ (by decide +kernel) hlanded).1⟩

/-- **A refill changes an entry.** The replica joins again with one value and ends with another,
although nobody has written: a sweep found the entry to be missing before the other one filled
it. -/
theorem refill_changes_entry :
    lateTrio.Fair (· = .get) ∧ (∀ z, lateTrio.sweepAt z = none) ∧
    lateTrio.Calls landing (Activity.Only (· = .get) Request.Reads) ∧
    (lateTrio.follow leaving).cluster.ring.membership.contains ⟨10⟩ = false ∧
    (lateTrio.follow joining).cluster.ring.membership.contains ⟨10⟩ = true ∧
    (lateTrio.follow joining).cluster.fleet.held ⟨⟨10⟩, 0⟩ "k" = some "a" ∧
    (lateTrio.follow landing).cluster.fleet.held ⟨⟨10⟩, 0⟩ "k" = some "b" := by
  refine ⟨lateTrio_fair, lateTrio_fresh.sweepAt, lateTrio_calls landing, ?_, ?_, ?_, ?_⟩
  · decide +kernel
  · decide +kernel
  · decide +kernel
  · decide +kernel

end World

end Scenario

end ReplicaRing
