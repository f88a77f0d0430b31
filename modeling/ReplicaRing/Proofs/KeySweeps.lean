import ReplicaRing.Proofs.Lockstep

/-!
# What a sweep is to one key

A sweep repairs all keys of a node in one loop. Seen through one key it is a sweep over nodes that
hold nothing else: what it does for other keys shows nowhere, and what it does for this one is the
same.

* `Sweep.Stage.only` — a stage of a sweep, seen through one key;
* `Sweep.Mirrors` — a sweep is what another one is to a key;
* `Mirrors.proceed`, `Mirrors.resume` — boundaries and answers keep it, or show nowhere;
* `receive_keys` — what is listed beside a node that holds one key only;
* `SweepRun.Mirrors`, `Mirrors.step` — **every event of a sweep has its like, or none.**
-/

namespace ReplicaRing

variable {k : String}

/-! ### Stages -/

/-- The repair of a key, with only one key of the source after it. -/
def KeyRepair.only (k : String) (job : KeyRepair) : KeyRepair :=
  { job with keys := job.keys.filter (· == k) }

namespace Sweep

/-- What a sweep waits for, seen through one key. The repair of another key shows nowhere. -/
def Waiting.only (k : String) : Waiting → Stage
  | listing source => .waiting (.listing source)
  | checking job member =>
    if job.key = k then .waiting (.checking (job.only k) member)
    else .betweenKeys job.source (job.only k).keys
  | fetching job member =>
    if job.key = k then .waiting (.fetching (job.only k) member)
    else .betweenKeys job.source (job.only k).keys
  | copying job member value =>
    if job.key = k then .waiting (.copying (job.only k) member value)
    else .betweenKeys job.source (job.only k).keys

/-- A stage of a sweep, seen through one key. -/
def Stage.only (k : String) : Stage → Stage
  | betweenNodes => .betweenNodes
  | betweenKeys source keys => .betweenKeys source (keys.filter (· == k))
  | waiting w => w.only k
  | finished => .finished

/-- The repair that a sweep is at while it waits, unless it waits for a listing. -/
def Waiting.job? : Waiting → Option KeyRepair
  | listing _ => none
  | checking job _ => some job
  | fetching job _ => some job
  | copying job _ _ => some job

/-- The same request, with only one key of the source after it. -/
def Waiting.narrow (k : String) : Waiting → Waiting
  | listing source => .listing source
  | checking job member => .checking (job.only k) member
  | fetching job member => .fetching (job.only k) member
  | copying job member value => .copying (job.only k) member value

namespace Waiting

variable {w : Waiting} {job : KeyRepair}

theorem target_narrow (k : String) (w : Waiting) : (w.narrow k).target = w.target := by
  cases w <;> rfl

theorem request_narrow (k : String) (w : Waiting) : (w.narrow k).request = w.request := by
  cases w <;> rfl

/-- The requests for a key are about it. -/
theorem only_of_own (hj : w.job? = some job) (hk : job.key = k) :
    w.only k = .waiting (w.narrow k) ∧ w.request.Concerns k := by
  cases w with
  | listing source => cases hj
  | checking job' member =>
    obtain rfl := Option.some.inj hj
    exact ⟨if_pos hk, hk⟩
  | fetching job' member =>
    obtain rfl := Option.some.inj hj
    exact ⟨if_pos hk, hk⟩
  | copying job' member value =>
    obtain rfl := Option.some.inj hj
    exact ⟨if_pos hk, hk⟩

/-- The requests for another key are about that one. -/
theorem only_of_other (hj : w.job? = some job) (hk : job.key ≠ k) :
    w.only k = .betweenKeys job.source (job.only k).keys ∧ w.request.Elsewhere k := by
  cases w with
  | listing source => cases hj
  | checking job' member =>
    obtain rfl := Option.some.inj hj
    exact ⟨if_neg hk, hk⟩
  | fetching job' member =>
    obtain rfl := Option.some.inj hj
    exact ⟨if_neg hk, hk⟩
  | copying job' member value =>
    obtain rfl := Option.some.inj hj
    exact ⟨if_neg hk, hk⟩

end Waiting

/-- What comes after a replica, seen through one key. -/
theorem only_next (k : String) (job : KeyRepair) :
    job.next.only k = if job.key = k then (job.only k).next
      else .betweenKeys job.source (job.only k).keys := by
  rw [KeyRepair.next, KeyRepair.next, show (job.only k).ahead = job.ahead from rfl,
    show (job.only k).source = job.source from rfl]
  cases job.ahead.dropWhile (·.id == job.source.id) with
  | nil => exact (ite_self _).symm
  | cons member rest => rfl

theorem finished_of_only {stage : Stage} (h : stage.only k = .finished) : stage = .finished := by
  cases stage with
  | finished => rfl
  | betweenNodes => cases h
  | betweenKeys source keys => cases h
  | waiting w =>
    cases hj : w.job? with
    | none =>
      cases w with
      | listing source => cases h
      | checking job member => cases hj
      | fetching job member => cases hj
      | copying job member value => cases hj
    | some job =>
      by_cases hk : job.key = k
      · rw [Stage.only, (Waiting.only_of_own hj hk).1] at h
        cases h
      · rw [Stage.only, (Waiting.only_of_other hj hk).1] at h
        cases h

/-! ### Sweeps -/

/-- A sweep is what another one is to a key. -/
structure Mirrors (k : String) (s s' : Sweep) : Prop where
  sources : s'.sources = s.sources
  stage : s'.stage = s.stage.only k

variable {s s' : Sweep}

/-- **Boundaries.** A boundary before another key shows nowhere, and any other one has its like. -/
theorem Mirrors.proceed (h : s.Mirrors k s') (r : Ring) (hw : ∀ w, s.stage ≠ .waiting w) :
    (s.proceed r false).1.Mirrors k s' ∧ (∃ source keys, s'.stage = .betweenKeys source keys) ∨
      (s.proceed r false).1.Mirrors k (s'.proceed r false).1 ∧ ∀ w, s'.stage ≠ .waiting w := by
  obtain ⟨hsources, hstage⟩ := h
  cases hst : s.stage with
  | waiting w => exact absurd hst (hw w)
  | finished =>
    rw [hst] at hstage
    have hstage' : s'.stage = .finished := hstage
    refine .inr ⟨?_, fun w he => Stage.noConfusion (hstage'.symm.trans he)⟩
    simp only [Sweep.proceed, hst, hstage']
    exact ⟨hsources, by rw [hst, hstage']; rfl⟩
  | betweenNodes =>
    rw [hst] at hstage
    have hstage' : s'.stage = .betweenNodes := hstage
    refine .inr ⟨?_, fun w he => Stage.noConfusion (hstage'.symm.trans he)⟩
    cases hrest : s.sources with
    | nil =>
      simp only [Sweep.proceed, hst, hstage', hsources, hrest]
      exact ⟨rfl, rfl⟩
    | cons source rest =>
      simp only [Sweep.proceed, hst, hstage', hsources, hrest, Bool.false_eq_true, if_false, visit]
      split
      · exact ⟨rfl, rfl⟩
      · exact ⟨rfl, rfl⟩
  | betweenKeys source keys =>
    rw [hst] at hstage
    cases keys with
    | nil =>
      have hstage' : s'.stage = .betweenKeys source [] := hstage
      refine .inr ⟨?_, fun w he => Stage.noConfusion (hstage'.symm.trans he)⟩
      simp only [Sweep.proceed, hst, hstage']
      exact ⟨hsources, rfl⟩
    | cons key keys =>
      by_cases hk : key = k
      · subst hk
        have hstage' : s'.stage = .betweenKeys source (key :: keys.filter (· == key)) :=
          hstage.trans (congrArg (Stage.betweenKeys source)
            (List.filter_cons_of_pos (beq_self_eq_true key)))
        refine .inr ⟨?_, fun w he => Stage.noConfusion (hstage'.symm.trans he)⟩
        simp only [Sweep.proceed, hst, hstage', Bool.false_eq_true, if_false]
        exact ⟨hsources, ((only_next key _).trans (if_pos rfl)).symm⟩
      · have hstage' : s'.stage = .betweenKeys source (keys.filter (· == k)) := by
          rw [hstage, Stage.only, List.filter_cons_of_neg (by simpa using hk)]
        refine .inl ⟨?_, _, _, hstage'⟩
        simp only [Sweep.proceed, hst, Bool.false_eq_true, if_false]
        exact ⟨hsources, hstage'.trans ((only_next k _).trans (if_neg hk)).symm⟩

variable {w : Waiting} {job : KeyRepair}

/-- **Answers about another key** show nowhere. -/
theorem Mirrors.resume_other (h : s.Mirrors k s') (hs : s.stage = .waiting w)
    (hj : w.job? = some job) (hk : job.key ≠ k) (answer : w.request.Answer) :
    (s.resume w answer).1.Mirrors k s' := by
  obtain ⟨hsources, hstage⟩ := h
  rw [hs, Stage.only, (Waiting.only_of_other hj hk).1] at hstage
  have hnext := (only_next k job).trans (if_neg hk)
  cases w with
  | listing source => cases hj
  | checking job' member =>
    obtain rfl := Option.some.inj hj
    rcases answer with e | _ | value
    · exact ⟨hsources, hstage.trans hnext.symm⟩
    · rw [resume]
      split
      · exact ⟨hsources, hstage.trans (if_neg hk).symm⟩
      · exact ⟨hsources, hstage.trans (if_neg hk).symm⟩
    · exact ⟨hsources, hstage.trans hnext.symm⟩
  | fetching job' member =>
    obtain rfl := Option.some.inj hj
    rcases answer with e | _ | value
    · exact ⟨hsources, hstage⟩
    · exact ⟨hsources, hstage⟩
    · exact ⟨hsources, hstage.trans (if_neg hk).symm⟩
  | copying job' member value =>
    obtain rfl := Option.some.inj hj
    cases answer with
    | ok reply => exact ⟨hsources, hstage.trans hnext.symm⟩
    | error e => exact ⟨hsources, hstage.trans hnext.symm⟩

/-- **Answers about the key** have their like. -/
theorem Mirrors.resume_own (h : s.Mirrors k s') (hj : w.job? = some job) (hk : job.key = k)
    (answer : (r : Request) → r.Answer) :
    (s.resume w (answer w.request)).1.Mirrors k
      (s'.resume (w.narrow k) (answer (w.narrow k).request)).1 := by
  have hsources := h.sources
  have hnext := (only_next k job).trans (if_pos hk)
  cases w with
  | listing source => cases hj
  | checking job' member =>
    obtain rfl := Option.some.inj hj
    have hlike : ∀ a : (Request.get job'.key).Answer,
        (s.resume (.checking job' member) a).1.Mirrors k
          (s'.resume (.checking (job'.only k) member) a).1 := by
      intro a
      rcases a with e | _ | value
      · exact ⟨hsources, hnext.symm⟩
      · have hvalue : (job'.only k).value = job'.value := rfl
        cases hv : job'.value with
        | none =>
          simp only [resume, hvalue, hv]
          exact ⟨hsources, (if_pos hk).symm⟩
        | some value =>
          simp only [resume, hvalue, hv]
          exact ⟨hsources, (if_pos hk).symm⟩
      · exact ⟨hsources, hnext.symm⟩
    exact hlike _
  | fetching job' member =>
    obtain rfl := Option.some.inj hj
    have hlike : ∀ a : (Request.get job'.key).Answer,
        (s.resume (.fetching job' member) a).1.Mirrors k
          (s'.resume (.fetching (job'.only k) member) a).1 := by
      intro a
      rcases a with e | _ | value
      · exact ⟨hsources, rfl⟩
      · exact ⟨hsources, rfl⟩
      · exact ⟨hsources, (if_pos hk).symm⟩
    exact hlike _
  | copying job' member value =>
    obtain rfl := Option.some.inj hj
    have hlike : ∀ a : (Request.set job'.key value).Answer,
        (s.resume (.copying job' member value) a).1.Mirrors k
          (s'.resume (.copying (job'.only k) member value) a).1 := by
      intro a
      cases a with
      | ok reply => exact ⟨hsources, hnext.symm⟩
      | error e => exact ⟨hsources, hnext.symm⟩
    exact hlike _

end Sweep

/-! ### Listings -/

/-- Two listings end alike, but for the other keys. -/
inductive ListsAlike (k : String) :
    Option (Request.Answer .keys) → Option (Request.Answer .keys) → Prop
  | late : ListsAlike k none none
  | refused (e : NodeError) : ListsAlike k (some (.error e)) (some (.error e))
  | listed (l : List String) : ListsAlike k (some (.ok l)) (some (.ok (l.filter (· == k))))

/-- **Listings** have their like. -/
theorem Sweep.Mirrors.resume_listing {s s' : Sweep} (hsources : s'.sources = s.sources)
    (source : Handle) {answer? answer?' : Option (Request.Answer .keys)}
    (h : ListsAlike k answer? answer?') :
    (s.resume (.listing source) (SweepRun.heard (.listing source) answer?)).1.Mirrors k
      (s'.resume (.listing source) (SweepRun.heard (.listing source) answer?')).1 := by
  cases h with
  | late => exact ⟨hsources, rfl⟩
  | refused e => exact ⟨hsources, rfl⟩
  | listed l => exact ⟨hsources, rfl⟩

/-- What is listed beside a store that holds one key only. -/
theorem Store.listed_filter {s s' : Store} (hs : s.Sorted) (hs' : s'.Sorted)
    (hfind : s.find? k = s'.find? k) (hnarrow : ∀ key, s'.find? key ≠ none → key = k)
    {l l' : List String} (hl : l.Perm s.keys) (hl' : l'.Perm s'.keys) :
    l' = l.filter (· == k) := by
  have hself : l'.filter (· == k) = l' := by
    refine List.filter_eq_self.2 fun key hkey => ?_
    obtain rfl := hnarrow key (OrderedMap.mem_keys_iff.1 (hl'.mem_iff.1 hkey))
    exact beq_self_eq_true key
  have hmem : k ∈ s.keys ↔ k ∈ s'.keys := by
    rw [OrderedMap.mem_keys_iff, OrderedMap.mem_keys_iff, hfind]
  have hcount : l'.count k = l.count k := by
    rw [hl'.count_eq, hl.count_eq, hs'.keys_nodup.count, hs.keys_nodup.count]
    exact if_congr hmem.symm rfl rfl
  rw [← hself, List.filter_beq, List.filter_beq, hcount]

/-- A listing ends alike beside nodes that hold one key only, but for the other keys. -/
theorem Cluster.InStep.receive_keys {f₀ : Fleet} {r₀ : Ring} {env : Env} {now : Instant}
    {c c' : Cluster} (h : InStep (Fleet.KeyImage k f₀) r₀ env now c c') (q : Inquiry) :
    InStep (Fleet.KeyImage k f₀) r₀ env now (c.receive q .keys).2 (c'.receive q .keys).2 ∧
      ListsAlike k (c.receive q .keys).1 (c'.receive q .keys).1 := by
  obtain ⟨hleft, hright, -, halike, hnarrow⟩ := h.fleet
  -- no fault lists a key that is not there, and a listing changes nothing
  have hphantoms : ∀ f : Fleet, f.Switches → (f.node q.flight.target).phantoms = [] := by
    intro f hf
    have hfaults := (hf.node q.flight.target).faults
    rw [Node.phantoms]
    cases hn : (f.node q.flight.target).faults with
    | scripted rules phantoms =>
      rw [hn] at hfaults
      exact hfaults.elim
    | none => rfl
    | injected i => rfl
  have hstill : ∀ f : Fleet,
      (f.conclude q.flight.target .keys q.flight.verdict).2.1 = f := by
    intro f
    obtain ⟨-, he⟩ | ⟨-, he⟩ := f.conclude_cases q.flight.target .keys q.flight.verdict
    · exact he.trans (f.replace_self q.flight.target)
    · exact he
  cases harr : q.arrives with
  | false =>
    rw [receive_of_not_arrives harr, receive_of_not_arrives harr]
    exact ⟨h, .late⟩
  | true =>
    rw [receive_of_arrives harr, receive_of_arrives harr]
    simp only [hstill]
    constructor
    · obtain ⟨m, hm⟩ := arrange_snd (c := c) .keys
        (c.fleet.conclude q.flight.target .keys q.flight.verdict).1
      obtain ⟨m', hm'⟩ := arrange_snd (c := c') .keys
        (c'.fleet.conclude q.flight.target .keys q.flight.verdict).1
      simp only [hm, hm']
      exact ⟨h.ring, h.ring', h.now, h.now', h.env, h.env', h.fleet⟩
    · cases hv : q.flight.verdict with
      | refuse e => exact .refused e
      | pretend =>
        have hnothing : ∀ d : Cluster, d.fleet.Switches →
            (d.arrange .keys (d.fleet.conclude q.flight.target .keys .pretend).1).1 = .ok [] := by
          intro d hd
          have hempty : (d.fleet.conclude q.flight.target .keys .pretend).1 = .ok [] :=
            congrArg (fun p => Except.ok (addMissing [] p)) (hphantoms _ hd)
          rw [hempty, arrange, List.perm_nil.1 (d.listing.perm d.listed [])]
        rw [hnothing c hleft, hnothing c' hright]
        exact .listed []
      | forward =>
        have hlists : ∀ d : Cluster, d.fleet.Switches →
            ∃ l : List String, l.Perm (d.fleet.node q.flight.target).store.keys ∧
              (d.arrange .keys (d.fleet.conclude q.flight.target .keys .forward).1).1 =
                .ok l := by
          intro d hd
          have hkeys : (d.fleet.conclude q.flight.target .keys .forward).1 =
              .ok (d.fleet.node q.flight.target).store.keys :=
            congrArg (fun p => Except.ok (addMissing _ p)) (hphantoms _ hd)
          rw [hkeys]
          exact ⟨_, d.listing.perm d.listed _, rfl⟩
        obtain ⟨l, hl, hlisted⟩ := hlists c hleft
        obtain ⟨l', hl', hlisted'⟩ := hlists c' hright
        obtain rfl := Store.listed_filter (hleft.node q.flight.target).sorted
          (hright.node q.flight.target).sorted (halike.held q.flight.target)
          (fun key hkey => hnarrow.node q.flight.target hkey) hl hl'
        rw [hlisted, hlisted']
        exact .listed l

/-! ### Events -/

namespace SweepRun

/-- A sweep under way is what another one is to a key. It waits only for requests that show. -/
structure Mirrors (k : String) (now : Instant) (run run' : SweepRun) : Prop where
  sweep : run.sweep.Mirrors k run'.sweep
  due : ∀ q, run.inquiry = some q → q.flight.due ≤ now
  asked : ∀ w, run'.sweep.stage = .waiting w → run'.inquiry = run.inquiry
  idle : (∀ w, run'.sweep.stage ≠ .waiting w) → run'.inquiry = none

variable {f₀ : Fleet} {r₀ : Ring} {env : Env} {now : Instant} {c c' : Cluster} {run run' : SweepRun}

/-- A boundary of a sweep. -/
theorem step_of_boundary {run : SweepRun} (hw : ∀ w, run.sweep.stage ≠ .waiting w)
    (told : Bool) (c : Cluster) :
    run.step told c = (⟨(run.sweep.proceed c.ring told).1, none⟩,
      c.report (run.sweep.proceed c.ring told).2) := by
  rw [step]
  cases hst : run.sweep.stage with
  | waiting w => exact absurd hst (hw w)
  | betweenNodes => rfl
  | betweenKeys source keys => rfl
  | finished => rfl

/-- A question of a sweep. -/
theorem step_of_idle {run : SweepRun} {w : Sweep.Waiting} (hw : run.sweep.stage = .waiting w)
    (hq : run.inquiry = none) (told : Bool) (c : Cluster) :
    run.step told c =
      ({ run with inquiry := some (c.ask w.target w.request
          (some (c.after c.ring.options.opTimeout))).1 },
        (c.ask w.target w.request (some (c.after c.ring.options.opTimeout))).2) := by
  simp only [step, hw, hq]

/-- An answer to a sweep. -/
theorem step_of_asked {run : SweepRun} {w : Sweep.Waiting} {q : Inquiry}
    (hw : run.sweep.stage = .waiting w) (hq : run.inquiry = some q) (told : Bool) (c : Cluster) :
    run.step told c =
      (⟨(run.sweep.resume w (heard w (c.receive q w.request).1)).1, none⟩,
        (c.receive q w.request).2.report
          (run.sweep.resume w (heard w (c.receive q w.request).1)).2) := by
  simp only [step, hw, hq, heard]

/-- A sweep that has just passed a boundary or heard an answer. -/
theorem Mirrors.of_sweep {s s' : Sweep} (h : s.Mirrors k s') :
    Mirrors k now ⟨s, none⟩ ⟨s', none⟩ where
  sweep := h
  due _ hq := absurd hq.symm (Option.some_ne_none _)
  asked _ _ := rfl
  idle _ := rfl

/-- What the next event of a sweep is to a key: it shows nowhere, or it has its like. -/
def Matched (k : String) (f₀ : Fleet) (r₀ : Ring) (env : Env) (now : Instant)
    (p : SweepRun × Cluster) (run' : SweepRun) (c' : Cluster) : Prop :=
  (p.1.Mirrors k now run' ∧ p.1.sweep.isFinished = false ∧
      Cluster.InStep (Fleet.KeyImage k f₀) r₀ env now p.2 c') ∨
    p.1.Mirrors k now (run'.step false c').1 ∧
      Cluster.InStep (Fleet.KeyImage k f₀) r₀ env now p.2 (run'.step false c').2

theorem not_finished {s s' : Sweep} (h : s.Mirrors k s') (hs' : s'.stage ≠ .finished) :
    s.isFinished = false := by
  rw [Sweep.isFinished, beq_eq_false_iff_ne]
  intro hfin
  exact hs' (by rw [h.stage, hfin]; rfl)

/-- An event for another key shows nowhere. -/
theorem Mirrors.step_other (h : run.Mirrors k now run')
    (hc : Cluster.InStep (Fleet.KeyImage k f₀) r₀ env now c c') {w : Sweep.Waiting}
    {job : KeyRepair}
    (hw : run.sweep.stage = .waiting w) (hj : w.job? = some job) (hk : job.key ≠ k) :
    Matched k f₀ r₀ env now (run.step false c) run' c' := by
  obtain ⟨honly, hrequest⟩ := Sweep.Waiting.only_of_other hj hk
  have hstage : run'.sweep.stage = .betweenKeys job.source (job.only k).keys := by
    rw [h.sweep.stage, hw, Sweep.Stage.only, honly]
  have hboundary : ∀ w', run'.sweep.stage ≠ .waiting w' :=
    fun w' he => Sweep.Stage.noConfusion (hstage.symm.trans he)
  have hopen : run'.sweep.stage ≠ .finished :=
    fun he => Sweep.Stage.noConfusion (hstage.symm.trans he)
  have hidle := h.idle hboundary
  -- the first cluster is in lockstep with itself, and looks the same under the key
  have hself : Cluster.InStep (Fleet.KeepsColumn k c.fleet) r₀ env now c c :=
    ⟨hc.ring, hc.ring, hc.now, hc.now, hc.env, hc.env, rfl, hc.fleet.left, .refl k _⟩
  have himage : ∀ d : Cluster, Cluster.InStep (Fleet.KeepsColumn k c.fleet) r₀ env now d d →
      Cluster.InStep (Fleet.KeyImage k f₀) r₀ env now d c' := fun d hd =>
    ⟨hd.ring, hc.ring', hd.now, hc.now', hd.env, hc.env', hd.fleet.switches, hc.fleet.right,
      hd.fleet.alike.frame.symm.trans hc.fleet.frame,
      hd.fleet.alike.symm.trans hc.fleet.alike, hc.fleet.narrow⟩
  cases hq : run.inquiry with
  | none =>
    obtain ⟨q, hdue, hask, -⟩ := hself.ask (Fleet.lockstep_keepsColumn k c.fleet) w.target w.request
      (some (c.after c.ring.options.opTimeout))
    rw [step_of_idle hw hq, hask]
    refine .inl ⟨⟨h.sweep, fun q' hq' => ?_, fun w' he => absurd he (hboundary w'), fun _ => hidle⟩,
      not_finished h.sweep hopen, hc⟩
    obtain rfl := Option.some.inj hq'
    exact Nat.le_of_eq hdue
  | some q =>
    obtain ⟨-, hreceived⟩ := hself.receive (Fleet.lockstep_keepsColumn k c.fleet) hrequest q
    rw [step_of_asked hw hq]
    have hsweep := h.sweep.resume_other hw hj hk (heard w (c.receive q w.request).1)
    refine .inl ⟨?_, not_finished hsweep hopen, himage _ (hreceived.report _ _)⟩
    exact ⟨hsweep, fun q' hq' => absurd hq'.symm (Option.some_ne_none _),
      fun w' he => absurd he (hboundary w'), fun _ => hidle⟩

/-- An event for the key has its like. -/
theorem Mirrors.step_own (h : run.Mirrors k now run')
    (hc : Cluster.InStep (Fleet.KeyImage k f₀) r₀ env now c c') {w : Sweep.Waiting}
    {job : KeyRepair}
    (hw : run.sweep.stage = .waiting w) (hj : w.job? = some job) (hk : job.key = k) :
    Matched k f₀ r₀ env now (run.step false c) run' c' := by
  obtain ⟨honly, hrequest⟩ := Sweep.Waiting.only_of_own hj hk
  have hw' : run'.sweep.stage = .waiting (w.narrow k) := by
    rw [h.sweep.stage, hw, Sweep.Stage.only, honly]
  have hasked := h.asked _ hw'
  refine .inr ?_
  cases hq : run.inquiry with
  | none =>
    obtain ⟨q, hdue, hask, hask'⟩ := hc.ask (Fleet.lockstep_keyImage k f₀) w.target w.request
      (some (env.timer.after now r₀.options.opTimeout))
    rw [step_of_idle hw hq, step_of_idle hw' (hasked.trans hq), w.target_narrow, w.request_narrow,
      Cluster.after, Cluster.after, hc.ring, hc.ring', hc.now, hc.now', hc.env, hc.env', hask,
      hask']
    refine ⟨⟨h.sweep, fun q' hq' => ?_, fun _ _ => rfl, fun hnot => absurd hw' (hnot _)⟩, hc⟩
    obtain rfl := Option.some.inj hq'
    exact Nat.le_of_eq hdue
  | some q =>
    obtain ⟨hanswer, hreceived⟩ := hc.receive (Fleet.lockstep_keyImage k f₀) hrequest q
    rw [step_of_asked hw hq, step_of_asked hw' (hasked.trans hq)]
    constructor
    · have htimeout : w.target.id = (w.narrow k).target.id := by rw [w.target_narrow]
      have hlike := h.sweep.resume_own hj hk fun r =>
        ((c.receive q r).1).getD (.error (.timeout w.target.id))
      have hheard : heard (w.narrow k) (c'.receive q (w.narrow k).request).1 =
          ((c.receive q (w.narrow k).request).1).getD (.error (.timeout w.target.id)) := by
        rw [heard, htimeout, w.request_narrow, hanswer]
      rw [hheard]
      exact .of_sweep hlike
    · have hnarrow : (c'.receive q (w.narrow k).request).2 = (c'.receive q w.request).2 := by
        rw [w.request_narrow]
      rw [← hnarrow] at hreceived
      exact hreceived.report _ _

/-- An event for a listing has its like. -/
theorem Mirrors.step_listing (h : run.Mirrors k now run')
    (hc : Cluster.InStep (Fleet.KeyImage k f₀) r₀ env now c c') {source : Handle}
    (hw : run.sweep.stage = .waiting (.listing source)) :
    Matched k f₀ r₀ env now (run.step false c) run' c' := by
  have hw' : run'.sweep.stage = .waiting (.listing source) := by
    rw [h.sweep.stage, hw]
    rfl
  have hasked := h.asked _ hw'
  have hsources := h.sweep.sources
  refine .inr ?_
  cases hq : run.inquiry with
  | none =>
    obtain ⟨q, hdue, hask, hask'⟩ := hc.ask (Fleet.lockstep_keyImage k f₀) source .keys
      (some (env.timer.after now r₀.options.opTimeout))
    rw [step_of_idle hw hq, step_of_idle hw' (hasked.trans hq), Cluster.after, Cluster.after,
      hc.ring, hc.ring', hc.now, hc.now', hc.env, hc.env',
      show (Sweep.Waiting.listing source).target = source from rfl,
      show (Sweep.Waiting.listing source).request = .keys from rfl, hask, hask']
    refine ⟨⟨h.sweep, fun q' hq' => ?_, fun _ _ => rfl, fun hnot => absurd hw' (hnot _)⟩, hc⟩
    obtain rfl := Option.some.inj hq'
    exact Nat.le_of_eq hdue
  | some q =>
    obtain ⟨hreceived, hanswers⟩ := hc.receive_keys q
    rw [step_of_asked hw hq, step_of_asked hw' (hasked.trans hq)]
    exact ⟨.of_sweep (.resume_listing hsources source hanswers), hreceived.report _ _⟩

/-- **Every event of a sweep has its like, or none.** -/
theorem Mirrors.step (h : run.Mirrors k now run')
    (hc : Cluster.InStep (Fleet.KeyImage k f₀) r₀ env now c c') :
    Matched k f₀ r₀ env now (run.step false c) run' c' := by
  by_cases hwaits : ∃ w, run.sweep.stage = .waiting w
  · obtain ⟨w, hw⟩ := hwaits
    cases hj : w.job? with
    | none =>
      cases w with
      | listing source => exact h.step_listing hc hw
      | checking job member => cases hj
      | fetching job member => cases hj
      | copying job member value => cases hj
    | some job =>
      by_cases hk : job.key = k
      · exact h.step_own hc hw hj hk
      · exact h.step_other hc hw hj hk
  · have hw := not_exists.1 hwaits
    rw [step_of_boundary hw, hc.ring]
    obtain ⟨hsweep, source, keys, hstage⟩ | ⟨hsweep, hw'⟩ := h.sweep.proceed r₀ hw
    · have hboundary : ∀ w', run'.sweep.stage ≠ .waiting w' :=
        fun w' he => Sweep.Stage.noConfusion (hstage.symm.trans he)
      refine .inl ⟨⟨hsweep, fun q hq => absurd hq.symm (Option.some_ne_none _),
        fun w' he => absurd he (hboundary w'), fun _ => h.idle hboundary⟩,
        not_finished hsweep fun he => Sweep.Stage.noConfusion (hstage.symm.trans he), ?_⟩
      exact ⟨hc.ring, hc.ring', hc.now, hc.now', hc.env, hc.env', hc.fleet⟩
    · rw [Matched, step_of_boundary hw', hc.ring']
      exact .inr ⟨.of_sweep hsweep, hc.report _ _⟩

end SweepRun

end ReplicaRing
