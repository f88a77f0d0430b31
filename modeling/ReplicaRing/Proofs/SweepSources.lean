import ReplicaRing.Proofs.RingChanges
import ReplicaRing.Proofs.SweepAccounts

/-!
# Sources of a sweep

A sweep goes through the nodes that were on the ring when it started, while nodes leave and join,
some of them under an identity that another node had before. Before it lists the keys of a node, it
looks up the identity of that node in the membership of the moment.

* `World.Lists` — a sweep starts to list the keys of a node;
* `World.joins?`, `World.newest?` — the node that joins in a turn, and the last one that has joined
  under an identity;
* `Fair.find?_follow` — who is found under an identity is the last one that has joined under it;
* `World.Since`, `Fair.since` — a sweep under way has started in some turn of the run;
* `listed_sources` — which nodes a sweep lists, and which it passes over;
* `replaced_source_listed` — a node that has left is listed if another one has its identity.
-/

namespace ReplicaRing

namespace SweepRun

variable {on : Operation → Prop} {c : Cluster} {f' : Fleet} {cancelled : Bool}
  {run run' : SweepRun} {source : Handle} {rest : List Handle}

/-- An event of a sweep takes up no further nodes to visit. -/
theorem Goes.sources (h : run.Goes on c f' cancelled run') :
    ∀ y ∈ run'.sweep.sources, y ∈ run.sweep.sources := by
  cases h with
  | asks w q waits idle moves => exact fun y hy => hy
  | hears w q answer? waits asked arrives ends =>
    exact fun y hy => resume_sources run.sweep w _ ▸ hy
  | passes s proceeds still =>
    intro y hy
    cases proceeds with
    | visits source rest between next member => exact next ▸ List.mem_cons_of_mem _ hy
    | skips source rest between next gone => exact next ▸ List.mem_cons_of_mem _ hy
    | _ => exact hy

/-- A sweep between two nodes asks nobody and waits for nobody. -/
theorem Goes.proceeds (h : run.Goes on c f' cancelled run')
    (between : run.sweep.stage = .betweenNodes) :
    run.sweep.Proceeds c.ring cancelled run'.sweep := by
  cases h with
  | asks w q waits idle moves => exact nomatch between.symm.trans waits
  | hears w q answer? waits asked arrives ends => exact nomatch between.symm.trans waits
  | passes s proceeds still => exact proceeds

/-- A sweep lists the keys of a node that it still has to visit, and only if the identity of the
node is on the ring. -/
theorem Goes.lists (h : run.Goes on c f' cancelled run')
    (between : run.sweep.stage = .betweenNodes)
    (listing : run'.sweep.stage = .waiting (.listing source)) :
    source ∈ run.sweep.sources ∧ c.ring.membership.contains source.id = true := by
  have hproceeds := h.proceeds between
  generalize run'.sweep = s at hproceeds listing
  cases hproceeds with
  | rests finished => exact nomatch between.symm.trans finished
  | visits source' rest between' next member =>
    obtain rfl := Sweep.Waiting.listing.inj (Sweep.Stage.waiting.inj listing)
    exact ⟨next ▸ List.mem_cons_self .., member⟩
  | skips source' rest between' next gone => exact nomatch between.symm.trans listing
  | repairs source' key keys between' => exact nomatch between.symm.trans between'
  | _ => exact nomatch listing

/-- A sweep that is not told to stop lists the keys of the next node or passes it over. -/
theorem Goes.visits (h : run.Goes on c f' cancelled run')
    (between : run.sweep.stage = .betweenNodes) (next : run.sweep.sources = source :: rest) :
    run'.sweep.report.cancelled = true ∨
      (c.ring.membership.contains source.id = true ∧
        run'.sweep = { run.sweep with sources := rest, stage := .waiting (.listing source) }) ∨
      (c.ring.membership.contains source.id = false ∧
        run'.sweep = { run.sweep with sources := rest }) := by
  have hproceeds := h.proceeds between
  generalize run'.sweep = s at hproceeds
  cases hproceeds with
  | rests finished => exact nomatch between.symm.trans finished
  | ends between' last => exact nomatch next.symm.trans last
  | cancels told between' => exact .inl rfl
  | visits source' rest' between' next' member =>
    obtain ⟨rfl, rfl⟩ := List.cons.inj (next.symm.trans next')
    exact .inr (.inl ⟨member, rfl⟩)
  | skips source' rest' between' next' gone =>
    obtain ⟨rfl, rfl⟩ := List.cons.inj (next.symm.trans next')
    exact .inr (.inr ⟨gone, rfl⟩)
  | leaves source' between' => exact nomatch between.symm.trans between'
  | repairs source' key keys between' => exact nomatch between.symm.trans between'

end SweepRun

namespace Scenario.World

variable {w v : World} {t : Instant} {x : Turn} {turns : List (Instant × Turn)} {h source : Handle}
  {id : NodeId}

/-- A sweep starts in a turn to list the keys of a node. The look at the ring and the question to
the node count as one step. -/
def Lists (v : World) (x : Turn) (source : Handle) : Prop :=
  ∃ run run', v.sweepAt x = some run ∧ run.sweep.stage = .betweenNodes ∧
    (v.go x).sweepAt x = some run' ∧ run'.sweep.stage = .waiting (.listing source)

/-! ### Who is found under an identity -/

/-- The node that joins the ring in a turn. -/
def joins? (v : World) (x : Turn) : Option Handle :=
  (v.go x).cluster.ring.membership.handles.find? fun h =>
    h ∉ v.cluster.ring.membership.handles

/-- The last node that has joined under an identity in the turns of a schedule. -/
def newest? (w : World) (turns : List (Instant × Turn)) (id : NodeId) : Option Handle :=
  ((w.trace joins? turns).filter fun h => h.id = id).getLast?

theorem newest?_concat (w : World) (turns : List (Instant × Turn)) (t : Instant) (x : Turn)
    (id : NodeId) : w.newest? (turns ++ [(t, x)]) id =
      ((((w.follow turns).advanceTo t).joins? x).filter fun h => h.id = id).or
        (w.newest? turns id) := by
  rw [newest?, trace_concat, List.filter_append, List.getLast?_append, ← newest?]
  congr 1
  cases ((w.follow turns).advanceTo t).joins? x with
  | none => rfl
  | some h => by_cases hid : h.id = id <;> simp [Option.filter, hid]

/-- Nobody joins if all nodes were on the ring before. -/
theorem joins?_eq_none (h : ∀ y ∈ (v.go x).cluster.ring.membership.handles,
    y ∈ v.cluster.ring.membership.handles) : v.joins? x = none :=
  List.find?_eq_none.2 fun y hy hnot => of_decide_eq_true hnot (h y hy)

/-- A node that is added joins. -/
theorem joins?_of_add (hfresh : v.cluster.ring.membership.find? h.id = none)
    (hs : v.cluster.ring.membership.Sound)
    (hperm : (v.go x).cluster.ring.membership.handles.Perm
      (h :: v.cluster.ring.membership.handles)) : v.joins? x = some h := by
  have hnew : h ∉ v.cluster.ring.membership.handles := fun hmem => by
    have hcontains := (Membership.contains_iff hs).2 ⟨h, hmem, rfl⟩
    rw [Membership.contains, OrderedMap.contains, ← Membership.find?, hfresh] at hcontains
    cases hcontains
  cases hjoins : v.joins? x with
  | none =>
    have hnone := List.find?_eq_none.1 hjoins h (hperm.mem_iff.2 (List.mem_cons_self ..))
    exact absurd (decide_eq_true hnew) hnone
  | some y =>
    have hy := List.mem_of_find?_eq_some hjoins
    have hnot : y ∉ v.cluster.ring.membership.handles := by
      have hfound := List.find?_some hjoins
      exact of_decide_eq_true hfound
    rcases List.mem_cons.1 (hperm.mem_iff.1 hy) with rfl | hold
    · rfl
    · exact absurd hold hnot

/-- **One turn.** Who is found under an identity has just joined or was found there before. -/
theorem Turned.find? {on : Operation → Prop} (hs : v.cluster.ring.membership.Sound)
    (ht : v.Turned on x (v.go x))
    (hfind : (v.go x).cluster.ring.membership.find? id = some h) :
    ((v.joins? x).filter fun y => y.id = id).or (v.cluster.ring.membership.find? id) = some h := by
  rcases ht.ring with hsame | ⟨-, ⟨y, hadd⟩ | ⟨id', y, hdrop⟩⟩
  · rw [joins?_eq_none fun y hy => hsame ▸ hy, ← hsame]
    exact hfind
  · obtain ⟨e, he⟩ | ⟨hok, hfresh, -⟩ := v.cluster.ring.add_cases y
    · exact nomatch he.symm.trans hadd
    · have hring := Except.ok.inj (hadd.symm.trans hok)
      have hjoins := joins?_of_add (x := x) hfresh hs
        (by rw [hring]; exact Membership.handles_insert hfresh _)
      rw [hring] at hfind
      have hfind' := (OrderedMap.find?_insert ..).symm.trans hfind
      rw [hjoins]
      by_cases hid : id = y.id
      · rw [if_pos hid] at hfind'
        obtain rfl := Option.some.inj hfind'
        simp [Option.filter, hid]
      · have hold : v.cluster.ring.membership.find? id = some h := (if_neg hid).symm.trans hfind'
        simp [Option.filter, Ne.symm hid, hold]
  · obtain ⟨e, he⟩ | ⟨y', hok, -, -⟩ := v.cluster.ring.drop_cases id'
    · exact nomatch he.symm.trans hdrop
    · have hring := (Prod.mk.inj (Except.ok.inj (hdrop.symm.trans hok))).2
      have hgone : v.joins? x = none := joins?_eq_none fun z hz => by
        rw [hring] at hz
        exact List.mem_of_mem_filter (Membership.handles_erase hs id' _ ▸ hz)
      rw [hring] at hfind
      have hfind' := (OrderedMap.find?_erase ..).symm.trans hfind
      rw [hgone]
      split at hfind'
      · cases hfind'
      · exact hfind'

/-- **Runs.** Who is found under an identity is the last one that has joined under it, or was found
there at the start if nobody has. -/
theorem Fair.find?_follow (hw : w.Fair Operation.never) (turns : List (Instant × Turn))
    (hfind : (w.follow turns).cluster.ring.membership.find? id = some h) :
    (w.newest? turns id).or (w.cluster.ring.membership.find? id) = some h := by
  refine hw.follow_any (Q := fun past =>
    ∀ id h, (w.follow past).cluster.ring.membership.find? id = some h →
      (w.newest? past id).or (w.cluster.ring.membership.find? id) = some h)
    (fun _ _ hfind => hfind) ?_ id h hfind
  rintro past t x v - rfl hpast hfair hturned id h hfind
  rw [follow_concat] at hfind
  have hstep := hturned.find? hfair.linked.sound hfind
  rw [newest?_concat, Option.or_assoc]
  cases hjoins : (((w.follow past).advanceTo t).joins? x).filter fun y => y.id = id with
  | some y => rwa [hjoins] at hstep
  | none =>
    rw [hjoins] at hstep
    exact hpast id h hstep

/-! ### When a sweep has started -/

/-- All nodes that a world refers to exist at every time of a run. -/
theorem Fair.follow_never (hw : w.Fair Operation.never) (turns : List (Instant × Turn)) :
    (w.follow turns).Fair Operation.never :=
  hw.follow_any (Q := fun past => (w.follow past).Fair Operation.never) hw
    fun past t x v _ hv _ _ hturned => by
      rw [follow_concat, ← hv]
      exact hturned.fair

/-- A sweep that somebody waits for takes one step in its turn. -/
theorem go_sweep_activity {i : Nat} {run run' : SweepRun}
    (hrun : v.sweepAt (.activity i) = some run)
    (hrun' : (v.go (.activity i)).sweepAt (.activity i) = some run') :
    ∃ told, (run.step told v.cluster).1 = run' ∧
      (v.go (.activity i)).cluster.fleet = (run.step told v.cluster).2.fleet := by
  obtain ⟨a, hi, ha⟩ := Option.bind_eq_some_iff.1 hrun
  have hlt : i < v.activities.size := (Array.getElem?_eq_some_iff.1 hi).1
  cases a with
  | sweep run₀ cancelAt =>
    obtain rfl := Option.some.inj ha
    let p := run₀.step (cancelledBy cancelAt v.cluster.now) v.cluster
    have hsettles := Activity.ofSweep_settles p.2 p.1 cancelAt
    have hgo : v.go (.activity i) = { v.started (Activity.ofSweep p.2 p.1 cancelAt) |>.2 with
        activities := v.activities.setIfInBounds i (Activity.ofSweep p.2 p.1 cancelAt).1 } := by
      rw [go_activity_some hi]
      rfl
    rw [hgo, sweepAt, Array.getElem?_setIfInBounds_self_of_lt hlt, Option.bind_some] at hrun'
    refine ⟨cancelledBy cancelAt v.cluster.now, ?_, by rw [hgo]; exact hsettles.fleet⟩
    rcases hsettles.outcome with he | ⟨t, y, he⟩
    · rw [he] at hrun'
      exact Option.some.inj hrun'
    · rw [he] at hrun'
      cases hrun'
  | _ => cases ha

/-- A sweep of a repair loop takes one step in its turn, unless it has ended. -/
theorem go_sweep_loop {i : Nat} {run run' : SweepRun} (hrun : v.sweepAt (.loop i) = some run)
    (hrun' : (v.go (.loop i)).sweepAt (.loop i) = some run') :
    ∃ told, (run.step told v.cluster).1 = run' ∧
      (v.go (.loop i)).cluster.fleet = (run.step told v.cluster).2.fleet := by
  obtain ⟨l, hi, hl⟩ := Option.bind_eq_some_iff.1 hrun
  have hlt : i < v.loops.size := (Array.getElem?_eq_some_iff.1 hi).1
  have hnext : (v.loops.setIfInBounds i (v.stepLoop l).1)[i]?.bind LoopRun.sweepRun? =
      some run' := by
    rw [go_loop_some hi] at hrun'
    exact hrun'
  rw [Array.getElem?_setIfInBounds_self_of_lt hlt, Option.bind_some] at hnext
  rw [go_loop_some hi]
  cases hphase : l.loop.phase with
  | sweeping s =>
    rw [LoopRun.sweepRun?, hphase] at hl
    obtain rfl := Option.some.inj hl
    cases hfinished : s.isFinished with
    | true =>
      simp only [stepLoop, LoopRun.step, hphase, hfinished, if_true, LoopRun.sweepRun?] at hnext
      split at hnext
      · next s' hs => exact absurd hs (sweepEnded_not_sweeping l.loop s.report s')
      · cases hnext
    | false =>
      simp only [stepLoop, LoopRun.step, hphase, hfinished, Bool.false_eq_true, if_false,
        LoopRun.sweepRun?] at hnext ⊢
      exact ⟨l.loop.signalled, Option.some.inj hnext, rfl⟩
  | _ =>
    rw [LoopRun.sweepRun?, hphase] at hl
    cases hl

/-- **A sweep under way.** If it is still under way after its turn, then it has gone on by one
event. -/
theorem Fair.go_sweep {on : Operation → Prop} {run run' : SweepRun} (hv : v.Fair on)
    (hrun : v.sweepAt x = some run) (hrun' : (v.go x).sweepAt x = some run') :
    ∃ told, run.Goes on v.cluster (v.go x).cluster.fleet told run' := by
  obtain ⟨told, hnext, hfleet⟩ : ∃ told, (run.step told v.cluster).1 = run' ∧
      (v.go x).cluster.fleet = (run.step told v.cluster).2.fleet := by
    cases x with
    | activity i => exact go_sweep_activity hrun hrun'
    | loop i => exact go_sweep_loop hrun hrun'
  have hgoes := (SweepRun.Fair.goes hv.candid hv.linked.sound hv.linked.houses (hv.sweep hrun)
    told).1
  rw [hnext, ← hfleet] at hgoes
  exact ⟨told, hgoes⟩

/-- A sweep has started in one of its turns, over the nodes that were on the ring at that time, and
has been under way ever since. -/
structure Since (w : World) (x : Turn) (past : List (Instant × Turn)) (start : Instant)
    (during : List (Instant × Turn)) : Prop where
  quiet : (w.follow past).sweepAt x = none
  starts : (w.follow (past ++ [(start, x)])).sweepAt x =
    some ⟨.start (w.follow past).cluster.ring.membership, none⟩
  lasts : ∀ mid, mid <+: during → (w.follow (past ++ (start, x) :: mid)).sweepAt x ≠ none

theorem Since.concat {past during : List (Instant × Turn)} {start : Instant}
    (hsince : w.Since x past start during) {e : Instant × Turn}
    (hlast : (w.follow (past ++ (start, x) :: (during ++ [e]))).sweepAt x ≠ none) :
    w.Since x past start (during ++ [e]) where
  quiet := hsince.quiet
  starts := hsince.starts
  lasts mid hmid := by
    rcases List.prefix_concat_iff.1 hmid with rfl | hmid
    · exact hlast
    · exact hsince.lasts mid hmid

/-- **Sweeps under way.** Each has started in some turn of the run, and the nodes that it has still
to visit were on the ring then. -/
theorem Fair.since (hw : w.Fair Operation.never) (hidle : ∀ x, w.sweepAt x = none)
    (turns : List (Instant × Turn)) {run : SweepRun}
    (hrun : (w.follow turns).sweepAt x = some run) :
    ∃ past start during, turns = past ++ (start, x) :: during ∧ w.Since x past start during ∧
      ∀ y ∈ run.sweep.sources, y ∈ (w.follow past).cluster.ring.membership.handles := by
  refine hw.follow_any (Q := fun turns => ∀ x run,
    (w.follow turns).sweepAt x = some run → ∃ past start during,
      turns = past ++ (start, x) :: during ∧ w.Since x past start during ∧
        ∀ y ∈ run.sweep.sources, y ∈ (w.follow past).cluster.ring.membership.handles)
    (fun x run hrun => absurd ((hidle x).symm.trans hrun).symm (Option.some_ne_none run)) ?_
    x run hrun
  rintro turns t z v - rfl hpast hfair hturned x run hrun
  -- the sweep was under way before, with the nodes that it has still to visit and perhaps more
  have hextend : ∀ run₀, ((w.follow turns).advanceTo t).sweepAt x = some run₀ →
      (∀ y ∈ run.sweep.sources, y ∈ run₀.sweep.sources) → ∃ past start during,
        turns ++ [(t, z)] = past ++ (start, x) :: during ∧ w.Since x past start during ∧
          ∀ y ∈ run.sweep.sources, y ∈ (w.follow past).cluster.ring.membership.handles := by
    intro run₀ hrun₀ hsources
    obtain ⟨past, start, during, rfl, hsince, hthere⟩ := hpast x run₀ hrun₀
    refine ⟨past, start, during ++ [(t, z)], by simp, hsince.concat ?_, fun y hy =>
      hthere y (hsources y hy)⟩
    have hsplit : past ++ (start, x) :: (during ++ [(t, z)]) =
        (past ++ (start, x) :: during) ++ [(t, z)] := by simp
    rw [hsplit, hrun]
    exact Option.some_ne_none run
  rw [follow_concat] at hrun
  by_cases hz : x = z
  · subst hz
    cases hbefore : ((w.follow turns).advanceTo t).sweepAt x with
    | some run₀ =>
      obtain ⟨cancelled, hgoes⟩ := hfair.go_sweep hbefore hrun
      exact hextend run₀ hbefore hgoes.sources
    | none =>
      rcases hturned.sweeps hrun with hsame | rfl | ⟨run₀, cancelled, hx, -⟩
      · exact nomatch hbefore.symm.trans hsame
      · have hstarts : (w.follow (turns ++ [(t, x)])).sweepAt x =
            some ⟨.start (w.follow turns).cluster.ring.membership, none⟩ := by
          rw [follow_concat]
          exact hrun
        refine ⟨turns, t, [], rfl, ⟨hbefore, hstarts, fun mid hmid => ?_⟩, fun y hy => hy⟩
        rw [List.prefix_nil.1 hmid, hstarts]
        exact Option.some_ne_none _
      · exact nomatch hbefore.symm.trans hx
  · exact hextend run ((hturned.others x hz).symm.trans hrun) fun y hy => hy

/-! ### Which nodes a sweep lists -/

/-- **Sources of a sweep.** Sweeps and all other operations go on in any number and any order of
events, while nodes join and leave. A sweep that lists the keys of a node finds the identity of that
node on the ring; the node itself was on the ring when the sweep started, and it is there now just
if the last node that has joined under its identity since then, if any, is the node itself. At
every node that it comes to, a sweep lists the keys if the identity of the node is on the ring, and
passes the node over if it is not, unless the sweep has been told to stop. -/
theorem listed_sources (hlinked : w.Linked) (hfresh : w.Fresh) (turns : List (Instant × Turn))
    (t : Instant) (x : Turn) (hv : v = (w.follow turns).advanceTo t) :
    (∀ source, v.Lists x source → v.cluster.ring.membership.contains source.id = true ∧
      ∃ past start during, turns = past ++ (start, x) :: during ∧ w.Since x past start during ∧
        (w.follow past).cluster.ring.membership.find? source.id = some source ∧
        (v.cluster.ring.membership.find? source.id = some source ↔
          ∀ h, (w.follow past).newest? ((start, x) :: during) source.id = some h → h = source)) ∧
    ∀ run run' source rest, v.sweepAt x = some run → run.sweep.stage = .betweenNodes →
      run.sweep.sources = source :: rest → (v.go x).sweepAt x = some run' →
      run'.sweep.report.cancelled = true ∨
        (v.cluster.ring.membership.contains source.id = true ∧ v.Lists x source ∧
          run'.sweep.sources = rest) ∨
        (v.cluster.ring.membership.contains source.id = false ∧
          run'.sweep = { run.sweep with sources := rest }) := by
  have hw : w.Fair Operation.never := hfresh.fair hlinked fun n _ => n.faults.candid_never
  subst hv
  have hfair := (hw.follow_never turns).advanceTo t
  constructor
  · rintro source ⟨run, run', hrun, between, hrun', listing⟩
    obtain ⟨cancelled, hgoes⟩ := hfair.go_sweep hrun hrun'
    obtain ⟨hahead, hcontains⟩ := hgoes.lists between listing
    obtain ⟨past, start, during, rfl, hsince, hthere⟩ := hw.since hfresh.sweepAt turns hrun
    have hstart := hw.follow_never past
    have hbefore := hstart.linked.sound.find?_of_mem (hthere source hahead)
    refine ⟨hcontains, past, start, during, rfl, hsince, hbefore, ?_⟩
    obtain ⟨h, hnow⟩ : ∃ h, ((w.follow (past ++ (start, x) :: during)).advanceTo
        t).cluster.ring.membership.find? source.id = some h :=
      Option.isSome_iff_exists.1 hcontains
    have hfound : ((w.follow past).follow ((start, x) :: during)).cluster.ring.membership.find?
        source.id = some h := by
      rw [← follow_append]
      exact hnow
    rw [hnow, ← hstart.find?_follow ((start, x) :: during) hfound, hbefore]
    cases (w.follow past).newest? ((start, x) :: during) source.id with
    | none => simp
    | some y => simp
  · intro run run' source rest hrun between next hrun'
    obtain ⟨cancelled, hgoes⟩ := hfair.go_sweep hrun hrun'
    rcases hgoes.visits between next with htold | ⟨hmember, hnext⟩ | hgone
    · exact .inl htold
    · refine .inr (.inl ⟨hmember, ⟨run, run', hrun, between, hrun', ?_⟩, ?_⟩)
      · rw [hnext]
      · rw [hnext]
    · exact .inr (.inr hgone)

/-! ### A node that has left -/

/-- Two nodes, the first of them slow and the other one with an entry, a sweep, and the operations
that take the second node off the ring and put it or another one with its identity there. -/
def replacedPair : World where
  cluster :=
    { fleet := ⟨#[
        { id := ⟨10⟩, faults := .injected { latency := ⟨10⟩ } },
        { id := ⟨20⟩, store := ⟨[("k", "v")]⟩ }]⟩
      ring := ⟨fun _ => 5, { replicaCount := 1, opTimeout := ⟨1000⟩ },
        ⟨⟨[(⟨10⟩, ⟨⟨10⟩, 0⟩), (⟨20⟩, ⟨⟨20⟩, 1⟩)]⟩, 0⟩⟩ }
  activities := #[.later 0 (.repair none), .later 3 (.drop ⟨20⟩), .later 6 (.add { id := ⟨20⟩ }),
    .later 6 (.addAgain ⟨20⟩)]
  registry := ⟨[(⟨10⟩, ⟨⟨10⟩, 0⟩), (⟨20⟩, ⟨⟨20⟩, 1⟩)]⟩

theorem replacedPair_fresh : replacedPair.Fresh where
  activities := by simp [replacedPair]
  loops := rfl

theorem replacedPair_linked : replacedPair.Linked :=
  .of_registry ⟨by unfold OrderedMap.Sorted; decide, by decide⟩ (by decide) rfl

/-- The sweep waits for the first node while the second one leaves. -/
def departing : List (Instant × Turn) :=
  List.replicate 3 (0, .activity 0) ++ [(3, .activity 1)]

/-- Then somebody joins under the identity of the second node, and the sweep is done with the
first. -/
def rejoining (join : Nat) : List (Instant × Turn) :=
  departing ++ (6, .activity join) :: List.replicate 2 (10, .activity 0)

/-- The sweep goes through the keys of the node that it has listed. -/
def copying : List (Instant × Turn) :=
  rejoining 2 ++ (List.replicate 4 (10, .activity 0) ++
    (List.replicate 4 (20, .activity 0) ++ List.replicate 4 (30, .activity 0)))

theorem replacedPair_lists (join : Nat) (hjoin : join = 2 ∨ join = 3) :
    ((replacedPair.follow (rejoining join)).advanceTo 10).Lists (.activity 0) ⟨⟨20⟩, 1⟩ := by
  rcases hjoin with rfl | rfl
  · exact ⟨_, _, rfl, rfl, rfl, rfl⟩
  · exact ⟨_, _, rfl, rfl, rfl, rfl⟩

/-- If the second node joins again itself, then the sweep lists a node on the ring. If it stays
away, then the sweep passes it over. -/
theorem listed_sources_replacedPair :
    replacedPair.Linked ∧ replacedPair.Fresh ∧
    (∃ past start during, rejoining 3 = past ++ (start, .activity 0) :: during ∧
      replacedPair.Since (.activity 0) past start during ∧
      (replacedPair.follow past).cluster.ring.membership.find? ⟨20⟩ = some ⟨⟨20⟩, 1⟩ ∧
      ∀ h, (replacedPair.follow past).newest? ((start, .activity 0) :: during) ⟨20⟩ = some h →
        h = ⟨⟨20⟩, 1⟩) ∧
    ∃ run run', ((replacedPair.follow (departing ++ List.replicate 2 (10, .activity 0))).advanceTo
        10).sweepAt (.activity 0) = some run ∧ run.sweep.sources = [⟨⟨20⟩, 1⟩] ∧
      (((replacedPair.follow (departing ++ List.replicate 2 (10, .activity 0))).advanceTo
        10).go (.activity 0)).sweepAt (.activity 0) = some run' ∧
      run'.sweep = { run.sweep with sources := [] } := by
  refine ⟨replacedPair_linked, replacedPair_fresh, ?_, ?_⟩
  · obtain ⟨hlists, -⟩ := listed_sources replacedPair_linked replacedPair_fresh (rejoining 3) 10
      (.activity 0) rfl
    obtain ⟨-, past, start, during, hsplit, hsince, hbefore, hmember⟩ :=
      hlists _ (replacedPair_lists 3 (.inr rfl))
    exact ⟨past, start, during, hsplit, hsince, hbefore, hmember.1 (by decide +kernel)⟩
  · obtain ⟨-, hvisits⟩ := listed_sources replacedPair_linked replacedPair_fresh
      (departing ++ List.replicate 2 (10, .activity 0)) 10 (.activity 0) rfl
    refine ⟨_, _, rfl, rfl, rfl, ?_⟩
    rcases hvisits _ _ _ _ rfl rfl rfl rfl with htold | ⟨hmember, -⟩ | ⟨-, hpast⟩
    · exact nomatch htold
    · exact absurd hmember (by decide +kernel)
    · exact hpast

/-- **A sweep lists a node that has left.** Another node has joined under its identity by then, and
the sweep copies the entry of the node that has left to a node on the ring. -/
theorem replaced_source_listed :
    replacedPair.Linked ∧ replacedPair.Fresh ∧
    ((replacedPair.follow (rejoining 2)).advanceTo 10).Lists (.activity 0) ⟨⟨20⟩, 1⟩ ∧
    ⟨⟨20⟩, 1⟩ ∉
      ((replacedPair.follow (rejoining 2)).advanceTo 10).cluster.ring.membership.handles ∧
    (replacedPair.follow (rejoining 2)).cluster.fleet.held ⟨⟨10⟩, 0⟩ "k" = none ∧
    (replacedPair.follow copying).cluster.fleet.held ⟨⟨10⟩, 0⟩ "k" = some "v" := by
  refine ⟨replacedPair_linked, replacedPair_fresh, replacedPair_lists 2 (.inl rfl), ?_, ?_, ?_⟩
  · decide +kernel
  · decide +kernel
  · decide +kernel

end Scenario.World

end ReplicaRing
