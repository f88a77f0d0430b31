import ReplicaRing.Proofs.CalmRuns
import ReplicaRing.Proofs.SweepAccounts

/-!
# Reports account for what is missing

A sweep over a fixed membership meets nodes that fail now and then, while other sweeps and reads go
on, but no client writes.

* `Fair.sweeps_own` — what the events of a sweep keep, up to its answer;
* `World.failing?` — what is seen of the requests of one sweep that fail;
* `Accounted.own`, `Accounted.other` — the account of a sweep stays right in every turn;
* `World.Closed` — a run without writes takes up no nodes and keys that were not there before;
* `copies_nothing` — a sweep has nothing to copy when every key is on all its replicas;
* `clean_report` — the report of a sweep explains what is missing after it.
-/

namespace ReplicaRing

theorem Request.Reads.spares {r : Request} (h : r.Reads) (k : String) : r.Spares k := by
  cases r with
  | get key => exact trivial
  | keys => exact trivial
  | _ => exact False.elim h

namespace Scenario

/-- An activity is a sweep that has not started yet. -/
def Activity.isRepair : Activity → Bool
  | later _ (.repair _) => true
  | _ => false

/-- The report of a sweep that has been answered. -/
def Activity.report? : Activity → Option Report
  | answered _ (.report r _) => some r
  | _ => none

/-- A sweep that is about to start, goes on or has been answered, with a property of its state and
one of its report. -/
def Activity.Sweeps (I : Sweep → Prop) (Q : Report → Prop) : Activity → Prop
  | later _ op => ∃ cancelAfter, op = .repair cancelAfter
  | sweep run _ => I run.sweep
  | answered _ (.report r _) => Q r
  | answered _ _ => True
  | _ => False

namespace World

variable {w v : World} {past turns : List (Instant × Turn)} {t : Instant} {x : Turn} {i : Nat}

/-- An activity is about to start a sweep. -/
def Repairs (w : World) (i : Nat) : Prop := w.activities[i]?.any Activity.isRepair = true

instance (w : World) (i : Nat) : Decidable (w.Repairs i) :=
  inferInstanceAs (Decidable (_ = true))

/-- The report of the sweep of an activity, once there is one. -/
def report? (w : World) (i : Nat) : Option Report := w.activities[i]?.bind Activity.report?

theorem Repairs.later (h : w.Repairs i) :
    ∃ t cancelAfter, w.activities[i]? = some (.later t (.repair cancelAfter)) := by
  obtain ⟨a, ha, hrepair⟩ := (Option.any_eq_true _ _).1 h
  unfold Activity.isRepair at hrepair
  split at hrepair
  · exact ⟨_, _, ha⟩
  · exact absurd hrepair Bool.false_ne_true

theorem report?_eq_some {r : Report} (h : w.report? i = some r) :
    ∃ t told, w.activities[i]? = some (.answered t (.report r told)) := by
  obtain ⟨a, ha, hreport⟩ := Option.bind_eq_some_iff.1 h
  unfold Activity.report? at hreport
  split at hreport
  · obtain rfl := Option.some.inj hreport
    exact ⟨_, _, ha⟩
  · exact absurd hreport.symm (Option.some_ne_none r)

/-- The node whose request fails in a turn of the sweep that an activity carries out. -/
def failing? (i : Nat) (w : World) : Turn → Option Handle
  | .activity j =>
    if j = i then (w.sweepAt (.activity j)).bind (SweepRun.failing? w.cluster) else none
  | .loop _ => none

theorem failing?_of_ne (hx : x ≠ .activity i) : w.failing? i x = none := by
  cases x with
  | activity j => exact if_neg fun h => hx (congrArg Turn.activity h)
  | loop j => rfl

/-- What is known of a sweep that is about to start, goes on or has been answered. -/
def Accounted (w : World) (i : Nat) (past : List (Instant × Turn)) : Activity → Prop
  | .later _ op => (∃ cancelAfter, op = .repair cancelAfter) ∧ w.trace (failing? i) past = []
  | .sweep run _ => run.sweep.Accounts w.cluster.ring w.cluster.fleet
      (w.follow past).cluster.fleet (w.trace (failing? i) past)
  | .answered _ (.report r _) => ∃ σ : Sweep, σ.stage = .finished ∧ σ.report = r ∧
      σ.Accounts w.cluster.ring w.cluster.fleet (w.follow past).cluster.fleet
        (w.trace (failing? i) past)
  | .answered _ _ => True
  | _ => False

/-- The start of a sweep: there is nothing to do without a ring. -/
theorem begin_repair (v : World) (cancelAfter : Option Duration) :
    (∃ cancelAt, (v.begin (.repair cancelAfter)).1 =
      .sweep ⟨.start v.cluster.ring.membership, none⟩ cancelAt) ∨
    ∃ t' reason, (v.begin (.repair cancelAfter)).1 = .answered t' (.rejected reason) := by
  rw [begin]
  split
  · exact .inl ⟨_, rfl⟩
  · exact .inr ⟨_, _, rfl⟩

/-- **The turn of a sweep.** What its start has and its events keep is there to the end. -/
theorem Fair.sweeps_own {I : Sweep → Prop} {Q : Report → Prop} {a : Activity} (hv : v.Fair ok)
    (hi : v.activities[i]? = some a) (h : a.Sweeps I Q)
    (hstart : I (.start v.cluster.ring.membership))
    (hkeeps : ∀ run cancelled run', v.sweepAt (.activity i) = some run → I run.sweep →
      run.Goes ok v.cluster (v.go (.activity i)).cluster.fleet cancelled run' → I run'.sweep)
    (hreport : ∀ σ, I σ → Q σ.report) : (v.stepActivity a).1.Sweeps I Q := by
  cases a with
  | later t' op =>
    obtain ⟨cancelAfter, rfl⟩ := h
    obtain ⟨cancelAt, hbegin⟩ | ⟨t', reason, hbegin⟩ := v.begin_repair cancelAfter
    · rw [stepActivity, hbegin]
      exact hstart
    · rw [stepActivity, hbegin]
      exact trivial
  | sweep run cancelAt =>
    obtain ⟨cancelled, run', hgoes, houtcome⟩ := hv.sweep_goes hi
    have hrun : v.sweepAt (.activity i) = some run := congrArg (·.bind Activity.sweepRun?) hi
    have hkept : I run'.sweep := hkeeps run cancelled run' hrun h hgoes
    rcases houtcome with hstep | ⟨-, t', told, hstep⟩
    · rw [hstep]
      exact hkept
    · rw [hstep]
      exact hreport run'.sweep hkept
  | answered t' answer => exact h
  | _ => exact False.elim h

/-- **One turn.** The account of a sweep stays right, whoever goes on. -/
theorem Accounted.other {a : Activity} (h : w.Accounted i past a)
    (htakes : w.Takes Request.Reads past t x v) (hx : x ≠ .activity i) :
    w.Accounted i (past ++ [(t, x)]) a := by
  have htrace : w.trace (failing? i) (past ++ [(t, x)]) = w.trace (failing? i) past := by
    rw [trace_concat, ← htakes.before, failing?_of_ne hx]
    exact List.append_nil _
  have hkept : ∀ m ∈ w.cluster.ring.membership.handles, ∀ k,
      (w.follow past).cluster.fleet.held m k ≠ none →
      (w.follow (past ++ [(t, x)])).cluster.fleet.held m k ≠ none := by
    intro m hm k hk
    rw [htakes.after]
    refine htakes.keeps (fun _ hr => hr.spares k) (htakes.houses hm) ?_
    rwa [htakes.before]
  have hsound : w.cluster.ring.membership.Sound := htakes.ring ▸ htakes.fair.linked.sound
  cases a with
  | later t' op => exact ⟨h.1, htrace.trans h.2⟩
  | sweep run cancelAt =>
    rw [Accounted, htrace]
    exact Sweep.Accounts.mono h hkept hsound
  | answered t' answer =>
    cases answer with
    | report r told =>
      obtain ⟨σ, hstage, hr, haccounts⟩ := h
      refine ⟨σ, hstage, hr, ?_⟩
      rw [htrace]
      exact haccounts.mono hkept hsound
    | _ => exact trivial
  | _ => exact h

/-- **The turn of a sweep.** Its account stays right. -/
theorem Accounted.own {a : Activity} (hw : w.Fair Operation.every)
    (hcalls : w.Calls turns (Activity.Calm Request.Reads)) (hpast : past <+: turns)
    (h : w.Accounted i past a) (htakes : w.Takes Request.Reads past t (.activity i) v)
    (hi : v.activities[i]? = some a) :
    w.Accounted i (past ++ [(t, .activity i)]) (v.stepActivity a).1 := by
  have htrace : w.trace (failing? i) (past ++ [(t, .activity i)]) =
      w.trace (failing? i) past ++ (a.sweepRun?.bind (SweepRun.failing? v.cluster)).toList := by
    rw [trace_concat, ← htakes.before, failing?, if_pos rfl, sweepAt, hi, Option.bind_some]
  have hsame : v.cluster.fleet = (w.follow past).cluster.fleet := by
    rw [htakes.before]
    rfl
  have hsound : v.cluster.ring.membership.Sound := htakes.fair.linked.sound
  cases a with
  | later t' op =>
    obtain ⟨⟨cancelAfter, rfl⟩, hnone⟩ := h
    rw [hnone] at htrace
    obtain ⟨cancelAt, hbegin⟩ | ⟨t', reason, hbegin⟩ := v.begin_repair cancelAfter
    · rw [stepActivity, hbegin, Accounted, htrace, htakes.ring]
      exact .start _ _ _
    · rw [stepActivity, hbegin]
      exact trivial
  | sweep run cancelAt =>
    obtain ⟨cancelled, run', hgoes, houtcome⟩ := htakes.fair.sweep_goes hi
    have haccounts : run'.sweep.Accounts w.cluster.ring w.cluster.fleet
        (w.follow (past ++ [(t, .activity i)])).cluster.fleet
        (w.trace (failing? i) (past ++ [(t, .activity i)])) := by
      rw [htrace, htakes.after, ← htakes.ring]
      refine Sweep.Accounts.goes ?_ hgoes (htakes.fair.activities i _ hi) hsound ?_ ?_
      · rw [hsame, htakes.ring]
        exact h
      · intro s hs k hk
        rw [hsame]
        exact hw.keeps hcalls hpast (fun _ hr => hr.spares k) (htakes.ring ▸ hs) hk
      · exact fun m hm k hk =>
          htakes.keeps (fun _ hr => hr.spares k) (htakes.fair.linked.houses m hm) hk
    rcases houtcome with hstep | ⟨hstage, t', told, hstep⟩
    · rw [hstep]
      exact haccounts
    · rw [hstep]
      exact ⟨run'.sweep, hstage, rfl, haccounts⟩
  | answered t' answer =>
    have hstay : (v.go (.activity i)).cluster.fleet = v.cluster.fleet := by
      rw [go_activity_some hi]
      rfl
    cases answer with
    | report r told =>
      obtain ⟨σ, hstage, hr, haccounts⟩ := h
      refine ⟨σ, hstage, hr, ?_⟩
      rw [htrace, htakes.after, hstay, hsame]
      exact (List.append_nil _).symm ▸ haccounts
    | _ => exact trivial
  | _ => exact False.elim h

/-- The report of a sweep accounts for what is missing in the end. -/
theorem report_accounted {r : Report} (hw : w.Fair Operation.every) (hi : w.Repairs i)
    (hcalls : w.Calls turns (Activity.Calm Request.Reads))
    (hreport : (w.follow turns).report? i = some r) :
    ∃ σ : Sweep, σ.stage = .finished ∧ σ.report = r ∧
      σ.Accounts w.cluster.ring w.cluster.fleet (w.follow turns).cluster.fleet
        (w.trace (failing? i) turns) := by
  obtain ⟨t, cancelAfter, hi⟩ := hi.later
  obtain ⟨t', told, hanswered⟩ := report?_eq_some hreport
  obtain ⟨a, ha, haccounted⟩ := hw.follow_activity hcalls (I := w.Accounted i) hi
    ⟨⟨cancelAfter, rfl⟩, rfl⟩
    (fun past t v a hinit htakes hi h =>
      h.own hw hcalls ((List.prefix_append _ _).trans hinit) htakes hi)
    (fun past t x v a _ htakes hx h => h.other htakes hx)
  rwa [Option.some.inj (ha.symm.trans hanswered)] at haccounted

/-! ### A second sweep -/

/-- Some member holds a key. -/
def Known (w : World) (k : String) : Prop :=
  ∃ y ∈ w.cluster.ring.membership.handles, w.cluster.fleet.held y k ≠ none

/-- Neither the members nor the sweeps of a run know of keys or nodes that were not there at its
start. -/
structure Closed (w : World) (past : List (Instant × Turn)) : Prop where
  data : ∀ y ∈ w.cluster.ring.membership.handles, ∀ k,
    (w.follow past).cluster.fleet.held y k ≠ none → w.Known k
  sweeps : ∀ z run, (w.follow past).sweepAt z = some run →
    (∀ y ∈ run.sweep.handles, y ∈ w.cluster.ring.membership.handles) ∧
      ∀ k ∈ run.sweep.stage.keys, w.Known k

theorem Closed.turn (h : w.Closed past) (htakes : w.Takes Request.Reads past t x v) :
    w.Closed (past ++ [(t, x)]) := by
  have hdata : ∀ y ∈ w.cluster.ring.membership.handles, ∀ k,
      v.cluster.fleet.held y k ≠ none → w.Known k := htakes.before ▸ h.data
  have hsweeps : ∀ z run, v.sweepAt z = some run →
      (∀ y ∈ run.sweep.handles, y ∈ w.cluster.ring.membership.handles) ∧
        ∀ k ∈ run.sweep.stage.keys, w.Known k := htakes.before ▸ h.sweeps
  constructor
  · intro y hy k hk
    rw [htakes.after] at hk
    rcases htakes.turned.held (htakes.houses hy) k with
      hsame | ⟨r, hr, heffect⟩ | ⟨run, job, u, hrun, hstage, rfl, -⟩
    · exact hdata y hy k (hsame ▸ hk)
    · rw [heffect, (htakes.asks hr).effect] at hk
      exact hdata y hy k hk
    · refine (hsweeps x run hrun).2 job.key ?_
      rw [hstage]
      exact List.mem_cons_self ..
  · intro z run hrun
    rw [htakes.after] at hrun
    rcases htakes.turned.sweeps hrun with hsame | rfl | ⟨run₀, cancelled, hz, hgoes⟩
    · exact hsweeps z run hsame
    · refine ⟨fun y hy => ?_, fun k hk => absurd hk List.not_mem_nil⟩
      rw [← htakes.ring]
      simpa [Sweep.handles, Sweep.start, Sweep.Stage.handles] using hy
    · obtain ⟨hhandles, hkeys⟩ := hsweeps z run₀ hz
      constructor
      · intro y hy
        rcases hgoes.mem_handles htakes.fair.linked.sound hy with hy | hy
        · exact hhandles y hy
        · exact htakes.ring ▸ hy
      · intro k hk
        rcases hgoes.mem_keys hk with hk | ⟨source, hsource, hk⟩
        · exact hkeys k hk
        · exact hdata source (hhandles source hsource) k hk

theorem Closed.of_idle (hidle : ∀ z, w.sweepAt z = none) : w.Closed [] where
  data y hy _ hk := ⟨y, hy, hk⟩
  sweeps z run hrun := absurd ((hidle z).symm.trans hrun).symm (Option.some_ne_none run)

theorem Closed.follow (h : w.Closed []) (hw : w.Fair Operation.every)
    (hcalls : w.Calls turns (Activity.Calm Request.Reads)) : w.Closed turns :=
  (hw.follow_calm hcalls h fun _ _ _ _ _ htakes hpast => hpast.turn htakes).2

/-- Every key that is known is on all its replicas. -/
def Replicated (w : World) (known : String → Prop) : Prop :=
  ∀ k, known k → ∀ m ∈ (w.cluster.ring.placement k).members, w.cluster.fleet.held m k ≠ none

/-- A sweep has found no replica to lack a key, and has copied nothing. -/
structure Spotless (r : Ring) (σ : Sweep) : Prop where
  lacks : ∀ k, σ.stage.lacks? k = none
  backed : σ.stage.Backed (fun k m => m ∈ (r.placement k).members) fun _ _ => True
  copies : σ.report.copies = 0

theorem Spotless.goes {c : Cluster} {f' : Fleet} {cancelled : Bool} {run run' : SweepRun}
    (h : Spotless c.ring run.sweep) (hgoes : run.Goes Operation.every c f' cancelled run')
    (hrun : run.Fair Operation.every c.fleet)
    (hheld : ∀ k ∈ run.sweep.stage.keys, ∀ m ∈ (c.ring.placement k).members,
      c.fleet.held m k ≠ none) : Spotless c.ring run'.sweep where
  lacks k := by
    cases hx : run'.sweep.stage.lacks? k with
    | none => rfl
    | some x =>
      rcases hgoes.lacks trivial hx with hl | ⟨job, hstage, rfl, hnone⟩
      · exact absurd ((h.lacks k).symm.trans hl).symm (Option.some_ne_none x)
      · have hbacked := h.backed
        rw [hstage] at hheld hbacked
        exact absurd hnone (hheld job.key (List.mem_cons_self ..) x hbacked.2)
  backed := hgoes.backed trivial hrun h.backed (fun _ _ hx => hx) fun _ _ _ _ _ => trivial
  copies := by
    refine (hgoes.copies fun job x v hstage => ?_).trans h.copies
    have hx := h.lacks job.key
    rw [hstage, Sweep.Stage.lacks?, if_pos rfl] at hx
    exact absurd hx (Option.some_ne_none x)

/-- A sweep that is about to start, goes on or has been answered copies nothing. -/
def CopiesNothing (r : Ring) : Activity → Prop
  | .later _ op => ∃ cancelAfter, op = .repair cancelAfter
  | .sweep run _ => Spotless r run.sweep
  | .answered _ (.report report _) => report.copies = 0
  | .answered _ _ => True
  | _ => False

theorem copiesNothing_iff {r : Ring} {a : Activity} :
    CopiesNothing r a ↔ a.Sweeps (Spotless r) fun report => report.copies = 0 := Iff.rfl

/-- The turn of a sweep whose keys are on all their replicas. -/
theorem CopiesNothing.own {a : Activity} (h : CopiesNothing w.cluster.ring a)
    (htakes : w.Takes ok past t (.activity i) v) (hi : v.activities[i]? = some a)
    (hheld : ∀ run, v.sweepAt (.activity i) = some run → ∀ k ∈ run.sweep.stage.keys,
      ∀ m ∈ (w.cluster.ring.placement k).members, v.cluster.fleet.held m k ≠ none) :
    CopiesNothing w.cluster.ring (v.stepActivity a).1 := by
  rw [copiesNothing_iff, ← htakes.ring] at h ⊢
  rw [← htakes.ring] at hheld
  refine htakes.fair.sweeps_own hi h ⟨fun _ => rfl, trivial, rfl⟩
    (fun run cancelled run' hrun hspotless hgoes => ?_) fun _ hspotless => hspotless.copies
  exact hspotless.goes hgoes (htakes.fair.sweep hrun) (hheld run hrun)

/-- **Nothing to copy.** When every key is on all its replicas, a sweep copies nothing. -/
theorem copies_nothing {turns' : List (Instant × Turn)} {r : Report}
    (hw : w.Fair Operation.every) (hclosed : w.Closed [])
    (hcalls : w.Calls (turns ++ turns') (Activity.Calm Request.Reads))
    (hfull : (w.follow turns).Replicated w.Known) (hi : (w.follow turns).Repairs i)
    (hreport : (w.follow (turns ++ turns')).report? i = some r) : r.copies = 0 := by
  obtain ⟨t, cancelAfter, hi⟩ := hi.later
  obtain ⟨t', told, hanswered⟩ := report?_eq_some hreport
  obtain ⟨hfair, hrest⟩ := hw.follow_rest hcalls
  have hend := hfair.follow_activity hrest
    (I := fun _ => CopiesNothing (w.follow turns).cluster.ring) hi ⟨cancelAfter, rfl⟩ ?_
    fun _ _ _ _ _ _ _ _ h => h
  · obtain ⟨a, ha, hnothing⟩ := hend
    rw [follow_append] at hanswered
    obtain rfl := Option.some.inj (ha.symm.trans hanswered)
    exact hnothing
  intro past t v a hinit htakes hia h
  have hpast : past <+: turns' := (List.prefix_append _ _).trans hinit
  have hknows : w.Closed (turns ++ past) :=
    hclosed.follow hw (hcalls.mono fun e he =>
      ((List.prefix_append_right_inj turns).2 hpast).subset he)
  refine h.own htakes hia fun run hrun k hk m hm => ?_
  have hknown : w.Known k := by
    refine (hknows.sweeps (.activity i) run ?_).2 k hk
    rw [follow_append]
    rwa [htakes.before] at hrun
  have hthere := hfull k hknown m hm
  rw [htakes.before]
  exact hfair.keeps hrest hpast (fun _ hr => hr.spares k)
    (hfair.linked.sound.placement_subset hm) hthere

/-- **Clean reports.** A sweep goes on among other sweeps and reads over a fixed membership, and any
request may fail or be late, but no client writes. Unless the sweep is cancelled, its report counts
the requests of its own that have failed. If a replica then lacks a key, one of them went to that
replica or to the member that held the key when the sweep was to start, whichever member that is.
So if none has failed, every key is on as many replicas as the options say. Then a sweep that
follows has nothing to copy, unless sweeps under way at the start know of nodes or keys that are
gone. -/
theorem clean_report {r : Report} (hw : w.Fair Operation.every)
    (hsize : w.cluster.ring.options.replicaCount ≤ w.cluster.ring.membership.size)
    (hi : w.Repairs i) (hcalls : w.Calls turns (Activity.Calm Request.Reads))
    (hreport : (w.follow turns).report? i = some r) (hfull : r.cancelled = false) :
    (w.trace (failing? i) turns).length = r.failures ∧
    (∀ s ∈ w.cluster.ring.membership.handles, ∀ k, w.cluster.fleet.held s k ≠ none →
      ∀ m ∈ (w.cluster.ring.placement k).members,
        (w.follow turns).cluster.fleet.held m k = none →
          s ∈ w.trace (failing? i) turns ∨ m ∈ w.trace (failing? i) turns) ∧
    (r.failures = 0 →
      (∀ k, w.Known k →
        (w.cluster.ring.placement k).members.length = w.cluster.ring.options.replicaCount ∧
          ∀ m ∈ (w.cluster.ring.placement k).members,
            (w.follow turns).cluster.fleet.held m k ≠ none) ∧
      (w.Closed [] → ∀ (turns' : List (Instant × Turn)) (j : Nat) (r' : Report),
        w.Calls (turns ++ turns') (Activity.Calm Request.Reads) → (w.follow turns).Repairs j →
        (w.follow (turns ++ turns')).report? j = some r' → r'.copies = 0)) := by
  obtain ⟨σ, hstage, rfl, haccounts⟩ := report_accounted hw hi hcalls hreport
  have hmissing : ∀ s ∈ w.cluster.ring.membership.handles, ∀ k,
      w.cluster.fleet.held s k ≠ none → ∀ m ∈ (w.cluster.ring.placement k).members,
        (w.follow turns).cluster.fleet.held m k = none →
          s ∈ w.trace (failing? i) turns ∨ m ∈ w.trace (failing? i) turns :=
    fun s hs k hk m hm hnone => haccounts.ended hstage hfull hs hk hm hnone
  refine ⟨haccounts.failures, hmissing, fun hclean => ?_⟩
  have hempty : w.trace (failing? i) turns = [] :=
    List.length_eq_zero_iff.1 (haccounts.failures.trans hclean)
  have hthere : ∀ k, w.Known k → ∀ m ∈ (w.cluster.ring.placement k).members,
      (w.follow turns).cluster.fleet.held m k ≠ none := by
    rintro k ⟨s, hs, hk⟩ m hm hnone
    have hblamed := hmissing s hs k hk m hm hnone
    simp [hempty] at hblamed
  refine ⟨fun k hk => ⟨hw.linked.sound.placement_length _ hsize, hthere k hk⟩, ?_⟩
  intro hclosed turns' j r' hcalls' hj hreport'
  refine copies_nothing hw hclosed hcalls' (fun k hk m hm => hthere k hk m ?_) hj hreport'
  rwa [hw.follow_ring hcalls] at hm

/-- Three nodes and a key that only the third one holds, although it is no replica of it. The second
one fails the first time it is asked for a value. Three sweeps are about to start. -/
def shakyTrio : World where
  cluster :=
    { fleet := ⟨#[
        { id := ⟨10⟩ },
        { id := ⟨20⟩,
          faults := .scripted [{ on := .get, act := .failed "busy", times := some 1 }] [] },
        { id := ⟨30⟩, store := ⟨[("k", "v")]⟩ }]⟩
      ring := ⟨fun _ => 5, { replicaCount := 2, opTimeout := ⟨1000⟩ },
        ⟨⟨[(⟨10⟩, ⟨⟨10⟩, 0⟩), (⟨20⟩, ⟨⟨20⟩, 1⟩), (⟨30⟩, ⟨⟨30⟩, 2⟩)]⟩, 0⟩⟩ }
  activities := #[.later 0 (.repair none), .later 0 (.repair none), .later 0 (.repair none)]
  registry := ⟨[(⟨10⟩, ⟨⟨10⟩, 0⟩), (⟨20⟩, ⟨⟨20⟩, 1⟩), (⟨30⟩, ⟨⟨30⟩, 2⟩)]⟩

theorem shakyTrio_fresh : shakyTrio.Fresh where
  activities := by simp [shakyTrio]
  loops := rfl

theorem shakyTrio_linked : shakyTrio.Linked :=
  .of_registry ⟨by unfold OrderedMap.Sorted; decide, by decide⟩ (by decide) rfl

theorem shakyTrio_fair : shakyTrio.Fair Operation.every :=
  shakyTrio_fresh.fair shakyTrio_linked (by
    simp [Fleet.Candid, shakyTrio, Node.Candid, Faults.Candid, Rule.Candid])

theorem shakyTrio_calls (turns : List (Instant × Turn)) :
    shakyTrio.Calls turns (Activity.Calm Request.Reads) := by
  refine Calls.of_forall (fun i a ha => ?_) turns
  have hmem := Array.mem_of_getElem? ha
  simp only [shakyTrio, List.mem_toArray, List.mem_cons, List.not_mem_nil, or_false] at hmem
  rcases hmem with rfl | rfl | rfl <;>
    exact ⟨⟨trivial, fun _ hr => False.elim hr⟩, trivial⟩

/-- One of the sweeps from its start to its end. -/
def sweeping (i : Nat) : List (Instant × Turn) := List.replicate 36 (0, .activity i)

/-- The first sweep fails to look at the second node, which is left without the key. The second one
reports no failure, so both replicas then hold the key and the third one copies nothing. -/
theorem clean_report_shakyTrio :
    shakyTrio.Fair Operation.every ∧ (∀ i < 3, shakyTrio.Repairs i) ∧
    (∀ turns, shakyTrio.Calls turns (Activity.Calm Request.Reads)) ∧
    (shakyTrio.follow (sweeping 0)).report? 0 = some ⟨3, 1, 1, 1, 0, false⟩ ∧
    (shakyTrio.follow (sweeping 0)).cluster.fleet.held ⟨⟨20⟩, 1⟩ "k" = none ∧
    (⟨⟨30⟩, 2⟩ ∈ shakyTrio.trace (failing? 0) (sweeping 0) ∨
      ⟨⟨20⟩, 1⟩ ∈ shakyTrio.trace (failing? 0) (sweeping 0)) ∧
    (shakyTrio.follow (sweeping 0 ++ sweeping 1)).report? 1 = some ⟨3, 3, 1, 0, 0, false⟩ ∧
    (∀ m ∈ (shakyTrio.cluster.ring.placement "k").members,
      (shakyTrio.follow (sweeping 0 ++ sweeping 1)).cluster.fleet.held m "k" ≠ none) ∧
    ∀ r, (shakyTrio.follow (sweeping 0 ++ sweeping 1 ++ sweeping 2)).report? 2 = some r →
      r.copies = 0 := by
  have hrepairs : ∀ i < 3, shakyTrio.Repairs i := by decide
  have hfirst : (shakyTrio.follow (sweeping 0)).report? 0 = some ⟨3, 1, 1, 1, 0, false⟩ := by
    decide +kernel
  have hlacks : (shakyTrio.follow (sweeping 0)).cluster.fleet.held ⟨⟨20⟩, 1⟩ "k" = none := by
    decide +kernel
  have hsecond : (shakyTrio.follow (sweeping 0 ++ sweeping 1)).report? 1 =
      some ⟨3, 3, 1, 0, 0, false⟩ := by
    decide +kernel
  have hbrought : shakyTrio.cluster.fleet.held ⟨⟨30⟩, 2⟩ "k" ≠ none := by decide +kernel
  obtain ⟨-, hblamed, -⟩ := clean_report shakyTrio_fair (by decide) (hrepairs 0 (by decide))
    (shakyTrio_calls _) hfirst rfl
  obtain ⟨-, -, hclean⟩ := clean_report shakyTrio_fair (by decide) (hrepairs 1 (by decide))
    (shakyTrio_calls _) hsecond rfl
  obtain ⟨hthere, hnext⟩ := hclean rfl
  refine ⟨shakyTrio_fair, hrepairs, shakyTrio_calls, hfirst, hlacks,
    hblamed _ (by decide +kernel) "k" hbrought _ (by decide +kernel) hlacks, hsecond,
    (hthere "k" ⟨_, by decide +kernel, hbrought⟩).2, fun r hr => ?_⟩
  exact hnext (.of_idle shakyTrio_fresh.sweepAt) _ 2 r (shakyTrio_calls _) (by decide +kernel) hr

end World

end Scenario

end ReplicaRing
