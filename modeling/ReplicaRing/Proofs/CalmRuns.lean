import ReplicaRing.Proofs.Turns

/-!
# Runs over a fixed membership

Clients ask only certain requests, nobody joins or leaves, and the nodes make nothing up, but they
may fail or be late at any time. Everything else goes on side by side.

* `World.Takes` — what is known of a turn of such a run;
* `Fair.follow_calm` — what each turn keeps is kept by the run;
* `Fair.follow_activity` — an invariant of one activity, kept by its own turns and by all others;
* `Fair.follow_leads` — every activity has come from what it was at the start;
* `Fair.keeps` — a node loses a key only to a request that removes it;
* `Fair.sweep_goes` — the turn of a sweep that a client has started.
-/

namespace ReplicaRing

/-- A request that does not remove a key. -/
def Request.Spares (k : String) : Request → Prop
  | delete key => key ≠ k
  | clear => False
  | _ => True

/-- A request that does not write a key. -/
def Request.Avoids (k : String) : Request → Prop
  | set key _ => key ≠ k
  | delete key => key ≠ k
  | clear => False
  | _ => True

theorem Request.Avoids.effect {r : Request} {k : String} (h : r.Avoids k) (old : Option String) :
    r.effect k old = old := by
  cases r with
  | set key value => exact if_neg (Ne.symm h)
  | delete key => exact if_neg (Ne.symm h)
  | clear => exact False.elim h
  | _ => rfl

theorem Request.Spares.effect {r : Request} {k : String} (h : r.Spares k) {old : Option String}
    (hold : old ≠ none) : r.effect k old ≠ none := by
  cases r with
  | set key value =>
    rw [Request.effect]
    split
    · exact Option.some_ne_none value
    · exact hold
  | delete key =>
    rw [Request.effect, if_neg (Ne.symm h)]
    exact hold
  | clear => exact False.elim h
  | _ => exact hold

namespace Scenario.World

variable {ok : Request → Prop} {w v : World} {past turns : List (Instant × Turn)} {t : Instant}
  {x : Turn} {i : Nat} {a : Activity}

/-- What is known of a turn of a run over a fixed membership. -/
structure Takes (ok : Request → Prop) (w : World) (past : List (Instant × Turn)) (t : Instant)
    (x : Turn) (v : World) : Prop where
  before : v = (w.follow past).advanceTo t
  fair : v.Fair Operation.every
  ring : v.cluster.ring = w.cluster.ring
  called : ∀ (i : Nat) a, x = .activity i → v.activities[i]? = some a → a.Calm ok
  turned : v.Turned Operation.every x (v.go x)

theorem Takes.asks (h : w.Takes ok past t x v) {r : Request} (hr : v.Asks x r) : ok r :=
  asks_only (fun i a hx ha => (h.called i a hx ha).only) hr

theorem Takes.after (h : w.Takes ok past t x v) : w.follow (past ++ [(t, x)]) = v.go x := by
  rw [follow_concat, h.before]

/-- **Runs over a fixed membership.** What each turn keeps is kept by the run, and so is the
ring. -/
theorem Fair.follow_calm (hw : w.Fair Operation.every) (hcalls : w.Calls turns (Activity.Calm ok))
    {Q : List (Instant × Turn) → Prop} (hstart : Q [])
    (hturn : ∀ past t x v, past ++ [(t, x)] <+: turns → w.Takes ok past t x v → Q past →
      Q (past ++ [(t, x)])) : (w.follow turns).cluster.ring = w.cluster.ring ∧ Q turns := by
  refine hw.follow_turned Activity.Calm.lasts (fun _ ha => ha.only.candid) hcalls
    (Q := fun past => (w.follow past).cluster.ring = w.cluster.ring ∧ Q past) ⟨rfl, hstart⟩ ?_
  rintro past t x v hinit rfl ⟨hring, hq⟩ hfair hcalled hturned
  have htakes : w.Takes ok past t x ((w.follow past).advanceTo t) :=
    ⟨rfl, hfair, hring, hcalled, hturned⟩
  refine ⟨?_, hturn past t x _ hinit htakes hq⟩
  rw [htakes.after, hturned.ring_eq (spares_of_calm hcalled), htakes.ring]

theorem Fair.follow_ring (hw : w.Fair Operation.every)
    (hcalls : w.Calls turns (Activity.Calm ok)) :
    (w.follow turns).cluster.ring = w.cluster.ring :=
  (hw.follow_calm hcalls (Q := fun _ => True) trivial fun _ _ _ _ _ _ _ => trivial).1

/-- A run goes on as it began. -/
theorem Fair.follow_rest (hw : w.Fair Operation.every)
    (hcalls : w.Calls (past ++ turns) (Activity.Calm ok)) :
    (w.follow past).Fair Operation.every ∧ (w.follow past).Calls turns (Activity.Calm ok) :=
  hw.follow Activity.Calm.lasts (fun _ ha => ha.only.candid) hcalls

/-- **Data.** Where no request removes a key, a node that holds it goes on to hold it. -/
theorem Takes.keeps {k : String} (h : w.Takes ok past t x v) (hok : ∀ r, ok r → r.Spares k)
    {y : Handle} (hy : v.cluster.fleet.Houses y) (hk : v.cluster.fleet.held y k ≠ none) :
    (v.go x).cluster.fleet.held y k ≠ none := by
  rcases h.turned.held hy k with hsame | ⟨r, hr, heffect⟩ | ⟨run, job, u, -, -, -, hnew⟩
  · rwa [hsame]
  · rw [heffect]
    exact (hok r (h.asks hr)).effect hk
  · rw [hnew]
    exact Option.some_ne_none u

theorem Takes.houses (h : w.Takes ok past t x v) {y : Handle}
    (hy : y ∈ w.cluster.ring.membership.handles) : v.cluster.fleet.Houses y :=
  h.fair.linked.houses y (h.ring ▸ hy)

theorem Fair.keeps (hw : w.Fair Operation.every) (hcalls : w.Calls turns (Activity.Calm ok))
    (hpast : past <+: turns) {k : String} (hok : ∀ r, ok r → r.Spares k) {y : Handle}
    (hy : y ∈ w.cluster.ring.membership.handles) (hk : w.cluster.fleet.held y k ≠ none) :
    (w.follow past).cluster.fleet.held y k ≠ none := by
  refine (hw.follow_calm (hcalls.mono fun e he => hpast.subset he)
    (Q := fun past => (w.follow past).cluster.fleet.held y k ≠ none) hk ?_).2
  intro past t x v _ htakes hthere
  rw [htakes.after]
  refine htakes.keeps hok (htakes.houses hy) ?_
  rwa [htakes.before]

/-! ### One activity of a run -/

/-- Every activity has come from what it was at the start. -/
theorem Fair.follow_leads (hw : w.Fair Operation.every)
    (hcalls : w.Calls turns (Activity.Calm ok)) :
    ∀ (j : Nat) a', (w.follow turns).activities[j]? = some a' →
      ∃ a, w.activities[j]? = some a ∧ a.Leads a' := by
  refine (hw.follow_calm hcalls (Q := fun past => ∀ (j : Nat) a',
    (w.follow past).activities[j]? = some a' → ∃ a, w.activities[j]? = some a ∧ a.Leads a')
    (fun j a' ha' => ⟨a', ha', .refl a'⟩) ?_).2
  intro past t x v _ htakes hleads j a'' ha''
  rw [htakes.after] at ha''
  obtain ⟨a', ha', h'⟩ := htakes.turned.leads j a'' ha''
  obtain ⟨a, ha, h⟩ := hleads j a' (by rwa [htakes.before] at ha')
  exact ⟨a, ha, h.trans h'⟩

/-- What becomes of an activity in its own turn. -/
theorem Takes.go_activity (h : w.Takes ok past t (.activity i) v) (hi : v.activities[i]? = some a) :
    (v.go (.activity i)).activities[i]? = some (v.stepActivity a).1 :=
  h.fair.go_activity hi (h.called i a rfl hi).only.candid

/-- **One activity.** What its own turns and all others keep of an activity is kept by the run. -/
theorem Fair.follow_activity (hw : w.Fair Operation.every)
    (hcalls : w.Calls turns (Activity.Calm ok)) {I : List (Instant × Turn) → Activity → Prop}
    (hi : w.activities[i]? = some a) (hstart : I [] a)
    (hown : ∀ past t v a, past ++ [(t, .activity i)] <+: turns →
      w.Takes ok past t (.activity i) v → v.activities[i]? = some a → I past a →
      I (past ++ [(t, .activity i)]) (v.stepActivity a).1)
    (hother : ∀ past t x v a, past ++ [(t, x)] <+: turns → w.Takes ok past t x v →
      x ≠ .activity i → I past a → I (past ++ [(t, x)]) a) :
    ∃ a', (w.follow turns).activities[i]? = some a' ∧ I turns a' := by
  refine (hw.follow_calm hcalls
    (Q := fun past => ∃ a', (w.follow past).activities[i]? = some a' ∧ I past a')
    ⟨a, hi, hstart⟩ ?_).2
  rintro past t x v hinit htakes ⟨a', ha', hI⟩
  have hbefore : v.activities[i]? = some a' := by rwa [htakes.before]
  rw [htakes.after]
  by_cases hx : x = .activity i
  · subst hx
    exact ⟨_, htakes.go_activity hbefore, hown past t v a' hinit htakes hbefore hI⟩
  · exact ⟨a', (htakes.turned.activities i hx).trans hbefore,
      hother past t x v a' hinit htakes hx hI⟩

/-- The turn of a sweep that a client has started: it goes on, and if it is finished then its report
is the answer. -/
theorem Fair.sweep_goes {on : Operation → Prop} {run : SweepRun} {cancelAt : Option Instant}
    (hv : v.Fair on) (hi : v.activities[i]? = some (.sweep run cancelAt)) :
    ∃ cancelled run', run.Goes on v.cluster (v.go (.activity i)).cluster.fleet cancelled run' ∧
      ((v.stepActivity (.sweep run cancelAt)).1 = .sweep run' cancelAt ∨
        run'.sweep.stage = .finished ∧ ∃ t' told, (v.stepActivity (.sweep run cancelAt)).1 =
          .answered t' (.report run'.sweep.report told)) := by
  obtain ⟨hgoes, -, -⟩ := SweepRun.Fair.goes hv.candid hv.linked.sound hv.linked.houses
    (hv.activities i _ hi) (cancelledBy cancelAt v.cluster.now)
  let p := run.step (cancelledBy cancelAt v.cluster.now) v.cluster
  have hstep : v.stepActivity (.sweep run cancelAt) =
      v.started (Activity.ofSweep p.2 p.1 cancelAt) := rfl
  have hfleet : (v.go (.activity i)).cluster.fleet = p.2.fleet := by
    rw [go_activity_some hi, hstep]
    exact (Activity.ofSweep_settles p.2 p.1 cancelAt).fleet
  refine ⟨cancelledBy cancelAt v.cluster.now, p.1, hfleet ▸ hgoes, ?_⟩
  rw [hstep, started, Activity.ofSweep]
  split
  · next hfinished =>
    exact .inr ⟨by simpa [Sweep.isFinished] using hfinished, _, _, rfl⟩
  · exact .inl rfl

end Scenario.World

end ReplicaRing
