import ReplicaRing.Proofs.CleanReport
import ReplicaRing.Proofs.Provenance
import ReplicaRing.Proofs.ReachableRings
import ReplicaRing.Proofs.VacantRings
import ReplicaRing.Proofs.Wipes

/-!
# Rings that have been cleared

Once a wipe has reached all members there is nothing that a get could find or a sweep could spread,
and as long as nobody writes and the membership stays, nothing comes from anywhere else.

* `Ring.Reachable` — a ring that calls have led to;
* `Activity.Browses` — an activity that writes nothing and leaves the membership alone;
* `World.Bare` — members without data, and `Fair.not_original` — no value can be found;
* `Fair.follow_bare`, `Fair.follow_copies` — no member gets data, and no sweep makes a copy;
* `World.FindsNothing` — what such a run comes to, and `Fresh.finds_nothing`;
* `clear_leaves_nothing` — a wipe, and everything after it.
-/

namespace ReplicaRing

open Scenario

/-- A ring that calls have led to, in whatever order they went on, from one that could be built. -/
def Ring.Reachable (r : Ring) : Prop :=
  ∃ (s : ReplicaRing.Scenario) (plan : RingPlan) (w : World) (calls : Array Activity)
    (past : List (Instant × World.Turn)),
    s.ring = some plan ∧ s.initialWorld = .ok w ∧ (∀ a ∈ calls, ∃ t op, a = .later t op) ∧
      (World.follow { w with activities := calls } past).cluster.ring = r

theorem Ring.Reachable.proper {r : Ring} (h : r.Reachable) : r.Proper := by
  obtain ⟨s, plan, w, calls, past, hplan, hw, hcalls, rfl⟩ := h
  obtain ⟨-, -, -, hproper, -⟩ := World.initialWorld_proper hplan hw
  exact ((World.initialWorld_fair hplan hw hcalls).follow_ring_proper hproper past).2.1

namespace Scenario

/-- An activity asks nodes only for keys and values and leaves the membership alone. -/
structure Activity.Browses (a : Activity) : Prop where
  reads : ∀ r, a.Requests r → r.Reads
  fixed : a.Fixed

theorem Activity.Browses.lasts : World.Lasts Activity.Browses := fun _ _ hleads h =>
  ⟨fun r hr => h.reads r (hleads.requests r hr), hleads.fixed h.fixed⟩

theorem Activity.Browses.writesByPut {a : Activity} (h : a.Browses) : a.WritesByPut := by
  rintro t op rfl k u hr
  exact False.elim (h.reads _ hr)

/-- A sweep that is about to start, goes on or has been answered, and has copied nothing. -/
def Activity.CopiesNone : Activity → Prop :=
  Activity.Sweeps (fun σ => σ.report.copies = 0) fun r => r.copies = 0

namespace World

variable {w v : World} {past turns : List (Instant × Turn)} {t : Instant} {x : Turn} {k u : String}
  {y : Handle} {j : Nat}

/-! ### Runs without writes -/

/-- No member holds anything. -/
def Bare (w : World) : Prop :=
  ∀ y ∈ w.cluster.ring.membership.handles, ∀ k, w.cluster.fleet.held y k = none

/-- The membership stays as it is. -/
theorem Fair.follow_browses (hw : w.Fair Operation.never)
    (hcalls : w.Calls turns Activity.Browses) (hpast : past <+: turns) :
    (w.follow past).Fair Operation.never ∧ (w.follow past).cluster.ring = w.cluster.ring := by
  refine hw.follow_turned Activity.Browses.lasts (fun a _ => a.candid_never)
    (hcalls.mono fun e he => hpast.subset he)
    (Q := fun past => (w.follow past).Fair Operation.never ∧
      (w.follow past).cluster.ring = w.cluster.ring) ⟨hw, rfl⟩ ?_
  rintro past t x v - rfl ⟨-, hring⟩ hfair hcalled hturned
  rw [follow_concat]
  have hspares := spares_of_fixed fun i a hx ha => (hcalled i a hx ha).fixed
  exact ⟨hturned.fair, (hturned.ring_eq hspares).trans hring⟩

/-- No put starts. -/
theorem Fair.not_started (hw : w.Fair Operation.never) (hcalls : w.Calls turns Activity.Browses) :
    ¬ w.Started turns k u := by
  rintro ⟨before, t, i, start, timeout, hbefore, hi⟩
  obtain ⟨-, hrest⟩ := hw.follow Activity.Browses.lasts (fun a _ => a.candid_never)
    (hcalls.mono fun e he => hbefore.subset he)
  exact (hrest i _ ⟨t, List.mem_singleton_self _⟩ hi).reads (.set k u) rfl

/-- No member brings anything in, for they have all been there from the start. -/
theorem Fair.not_brings (hw : w.Fair Operation.never) (hcalls : w.Calls turns Activity.Browses)
    (hbare : w.Bare) (hy : y ∈ w.cluster.ring.membership.handles) : ¬ w.Brings turns y k u := by
  rintro ⟨past, hpast, henters, hu⟩
  obtain rfl | ⟨before, turn, rfl⟩ := List.eq_nil_or_concat' past
  · exact nomatch (hbare y hy k).symm.trans hu
  · obtain ⟨hfair, hring⟩ := hw.follow_browses hcalls ((List.prefix_append _ _).trans hpast)
    exact henters.2 before turn rfl (hfair.linked.houses y (hring ▸ hy))

/-- **No value can be found**: neither a put nor a member has one. -/
theorem Fair.not_original (hw : w.Fair Operation.never) (hcalls : w.Calls turns Activity.Browses)
    (hbare : w.Bare) : ¬ w.Original turns k u := by
  rintro (hstarted | ⟨y, ⟨past, hpast, hy⟩, hbrings⟩)
  · exact hw.not_started hcalls hstarted
  · rw [(hw.follow_browses hcalls hpast).2] at hy
    exact hw.not_brings hcalls hbare hy hbrings

/-- No member gets any data. -/
theorem Fair.follow_bare (hw : w.Fair Operation.never) (hfresh : w.Fresh)
    (hcalls : w.Calls turns Activity.Browses) (hbare : w.Bare) : (w.follow turns).Bare := by
  have htraced := traced_of_fresh hw hfresh fun i a hi ha => (hcalls i a hi ha).writesByPut
  obtain ⟨hfair, hring⟩ := hw.follow_browses hcalls (List.prefix_refl _)
  intro y hy k
  cases hheld : (w.follow turns).cluster.fleet.held y k with
  | none => rfl
  | some u =>
    rcases htraced.data y k u (hfair.linked.houses y hy) hheld with hbrings | horiginal
    · exact (hw.not_brings hcalls hbare (hring ▸ hy) hbrings).elim
    · exact (hw.not_original hcalls hbare horiginal).elim

/-- **No sweep makes a copy**, whether a client or a loop has started it. -/
theorem Fair.follow_copies (hw : w.Fair Operation.never) (hfresh : w.Fresh)
    (hcalls : w.Calls turns Activity.Browses) (hbare : w.Bare) :
    (∀ z run, (w.follow turns).sweepAt z = some run → run.sweep.report.copies = 0) ∧
      ∀ j a, w.Repairs j → (w.follow turns).activities[j]? = some a → a.CopiesNone := by
  refine hw.follow_turned Activity.Browses.lasts (fun a _ => a.candid_never) hcalls
    (Q := fun past =>
      (∀ z run, (w.follow past).sweepAt z = some run → run.sweep.report.copies = 0) ∧
        ∀ j a, w.Repairs j → (w.follow past).activities[j]? = some a → a.CopiesNone)
    ⟨fun z run hrun => ?_, fun j a hj ha => ?_⟩ ?_
  · exact absurd ((hfresh.sweepAt z).symm.trans hrun).symm (Option.some_ne_none run)
  · obtain ⟨t, cancelAfter, hlater⟩ := hj.later
    obtain rfl := Option.some.inj (hlater.symm.trans ha)
    exact ⟨cancelAfter, rfl⟩
  rintro past t x v hinit rfl ⟨hsweeps, hrepairs⟩ hfair hcalled hturned
  have hcalls' : w.Calls past Activity.Browses :=
    hcalls.mono fun e he => hinit.subset (List.mem_append_left _ he)
  have htraced := traced_of_fresh hw hfresh fun i a hi ha => (hcalls' i a hi ha).writesByPut
  -- a sweep that waits for a copy would have a value to copy
  have hcopying : ∀ z run, (w.follow past).sweepAt z = some run → ∀ job m value,
      run.sweep.stage ≠ .waiting (.copying job m value) := by
    intro z run hz job m value hstage
    have hbacked := (htraced.sweeps z run hz).backed
    rw [hstage] at hbacked
    exact hw.not_original hcalls' hbare hbacked.2.2
  rw [follow_concat]
  refine ⟨fun z run hrun => ?_, fun j a' hj ha' => ?_⟩
  · rcases hturned.sweeps hrun with hsame | rfl | ⟨run₀, cancelled, hz, hgoes⟩
    · exact hsweeps z run hsame
    · rfl
    · exact (hgoes.copies (hcopying z run₀ hz)).trans (hsweeps z run₀ hz)
  · by_cases hx : x = .activity j
    · subst hx
      obtain ⟨a, ha, -⟩ := hturned.leads j a' ha'
      rw [hfair.go_activity ha a.candid_never] at ha'
      obtain rfl := Option.some.inj ha'
      refine hfair.sweeps_own ha (hrepairs j a hj ha) rfl
        (fun run cancelled run' hrun hzero hgoes => ?_) fun _ hzero => hzero
      exact (hgoes.copies (hcopying (.activity j) run hrun)).trans hzero
    · exact hrepairs j a' hj ((hturned.activities j hx).symm.trans ha')

/-- Nothing goes on in a world any more, neither operations nor repair loops. -/
def quiet (w : World) : World := { w with activities := #[], loops := #[], held := none }

/-- What a run comes to in which nobody has anything to find: no member gets data, a get that
returns has found nothing, and no sweep has made a copy. If all members answer in time by then, gets
return that there is no value and sweeps are complete without a copy, in any sequence of both. -/
structure FindsNothing (w : World) (turns : List (Instant × Turn)) : Prop where
  ring : (w.follow turns).cluster.ring = w.cluster.ring
  stores : ∀ h ∈ w.cluster.ring.membership.handles,
    ((w.follow turns).cluster.fleet.node h).store = .empty
  gets : ∀ j k found, w.Gets j k → (w.follow turns).value? j = some found → found = none
  reports : ∀ j r, w.Repairs j → (w.follow turns).report? j = some r → r.copies = 0
  sweeps : ∀ z run, (w.follow turns).sweepAt z = some run → run.sweep.report.copies = 0
  healthy : ∀ (pace : Handle → Nat) (ops : List Op),
    (∀ h ∈ w.cluster.ring.membership.handles, ((w.follow turns).cluster.fleet.node h).Answering
      (w.follow turns).cluster.env (pace h)) →
    (∀ op ∈ ops, op.InTime (w.follow turns).cluster.env.timer w.cluster.ring pace) →
    ∀ pre op, pre ++ [op] <+: ops →
      op.FindsNothing (((w.follow turns).quiet.after pre).answerTo op)

/-- **Runs without data.** As long as nobody writes and nobody joins or leaves, there is nothing to
find, whatever else goes on. -/
theorem Fresh.finds_nothing (hfresh : w.Fresh) (hlinked : w.Linked) (hring : w.hasRing = true)
    (hproper : w.cluster.ring.Proper) (hbare : w.Bare) (hcalls : w.Calls turns Activity.Browses) :
    w.FindsNothing turns := by
  have hw : w.Fair Operation.never := hfresh.fair hlinked fun n _ => n.faults.candid_never
  have htraced := traced_of_fresh hw hfresh fun i a hi ha => (hcalls i a hi ha).writesByPut
  obtain ⟨hfair, hsame⟩ := hw.follow_browses hcalls (List.prefix_refl turns)
  obtain ⟨hsweeps, hrepairs⟩ := hw.follow_copies hfresh hcalls hbare
  have hempty : ∀ h ∈ (w.follow turns).cluster.ring.membership.handles,
      ((w.follow turns).cluster.fleet.node h).store = .empty := fun h hh =>
    OrderedMap.eq_empty (hw.follow_bare hfresh hcalls hbare h hh)
  refine ⟨hsame, fun h hh => hempty h (hsame ▸ hh), fun j k found hget hvalue => ?_,
    fun j r hj hreport => ?_, hsweeps, fun pace ops hanswering hops => ?_⟩
  · obtain ⟨t, ha⟩ := value?_eq_some hvalue
    cases found with
    | none => rfl
    | some u => exact (hw.not_original hcalls hbare (htraced.gets j k _ hget ha u rfl)).elim
  · obtain ⟨t, told, ha⟩ := report?_eq_some hreport
    exact hrepairs j _ hj ha
  · have hvacant : (w.follow turns).quiet.Vacant (w.follow turns).cluster.env.timer pace :=
      ⟨(w.follow_hasRing turns).trans hring, rfl, rfl, hsame.symm ▸ hproper, hfair.linked.houses,
        hsame.symm ▸ hanswering, hempty⟩
    exact hvacant.finds_nothing (hsame.symm ▸ hops)

/-! ### A wipe and what comes after it -/

/-- **Clearing a ring.** A wipe that is all that goes on asks every member, and each of them carries
it out or refuses it. Those that carry it out have lost their data, all other nodes have kept
theirs, the membership and its version are the same, and the answer is the refusal of the lowest
member that has refused, if one has. If none has, there is nothing to find from then on, as long as
nobody writes and nobody joins or leaves: not by the gets and sweeps of clients nor by repair loops,
whichever nodes fail meanwhile. -/
theorem clear_leaves_nothing (hreach : w.cluster.ring.Reachable) (hring : w.hasRing = true)
    (hl : w.loops = #[]) (hlinked : w.Linked)
    (hhonest : ∀ h ∈ w.cluster.ring.membership.handles, w.cluster.Honest h) :
    ∃ x w', w.Performs .clear x w' ∧ w.Wipes x w' ∧
      (x = .done → ∀ (calls : Array Activity) (turns : List (Instant × Turn)),
        (∀ a ∈ calls, (∃ t op, a = .later t op) ∧ a.Browses) →
        World.FindsNothing { w' with activities := calls } turns) := by
  obtain ⟨c', hwiped, hperforms⟩ := performs_wipe hring hl hlinked.sound hlinked.houses hhonest
  have hwipes := wipes_of_wiped hlinked.sound hlinked.houses hwiped
  refine ⟨_, _, hperforms, hwipes, fun hdone calls turns hcalls => ?_⟩
  let start : World := { settled { w with cluster := c' } with activities := calls }
  have hfresh : start.Fresh := ⟨fun a ha => (hcalls a ha).1, hl⟩
  have hbrowses : start.Calls turns Activity.Browses :=
    .of_forall (fun i a ha => (hcalls a (Array.mem_of_getElem? ha)).2) turns
  -- all members have carried out the wipe
  have hbare : start.Bare := by
    intro y hy k
    have hmem : y ∈ w.cluster.ring.membership.handles := hwiped.ring ▸ hy
    have hempty : (start.cluster.fleet.node y).store = .empty :=
      hwipes.cleared y hmem (hwipes.done_iff.1 hdone y hmem)
    rw [Fleet.held, hempty]
    rfl
  have hproper : start.cluster.ring.Proper := hwiped.ring.symm ▸ hreach.proper
  have hlinked' : start.Linked := hlinked.mono hwiped.ring rfl hwiped.houses
  exact hfresh.finds_nothing hlinked' hring hproper hbare hbrowses

/-- The ring of the empty trio, with data on its nodes and on one that is not on the ring. Two
members take their time or are switched off. -/
def laggingTrio (down : Bool) : World where
  cluster :=
    { fleet := ⟨#[
        { id := ⟨10⟩, store := ⟨[("k", "a")]⟩ },
        { id := ⟨20⟩
          store := ⟨[("k", "b")]⟩
          faults := .injected { latency := .ofMillis 1000, down := down } },
        { id := ⟨30⟩
          store := ⟨[("j", "c")]⟩
          faults := .injected { latency := .ofMillis 1000, down := down } },
        { id := ⟨40⟩, store := ⟨[("k", "d")]⟩ }]⟩
      ring := ⟨fun _ => 0, { replicaCount := 2 },
        ⟨⟨[(⟨10⟩, ⟨⟨10⟩, 0⟩), (⟨20⟩, ⟨⟨20⟩, 1⟩), (⟨30⟩, ⟨⟨30⟩, 2⟩)]⟩, 0⟩⟩ }
  registry := ⟨[(⟨10⟩, ⟨⟨10⟩, 0⟩), (⟨20⟩, ⟨⟨20⟩, 1⟩), (⟨30⟩, ⟨⟨30⟩, 2⟩)]⟩

theorem mem_laggingTrio {down : Bool} {h : Handle}
    (hh : h ∈ (laggingTrio down).cluster.ring.membership.handles) :
    h = ⟨⟨10⟩, 0⟩ ∨ h = ⟨⟨20⟩, 1⟩ ∨ h = ⟨⟨30⟩, 2⟩ := by
  have hmem : h ∈ [(⟨⟨10⟩, 0⟩ : Handle), ⟨⟨20⟩, 1⟩, ⟨⟨30⟩, 2⟩] := hh
  simpa using hmem

theorem laggingTrio_reachable (down : Bool) : (laggingTrio down).cluster.ring.Reachable :=
  ⟨emptyTrio, _, _, #[], [], rfl, rfl, fun _ ha => absurd ha (Array.not_mem_empty _), rfl⟩

theorem laggingTrio_linked (down : Bool) : (laggingTrio down).Linked :=
  .of_registry ⟨by unfold OrderedMap.Sorted; decide +revert, by decide +revert⟩
    (by decide +revert) rfl

theorem laggingTrio_honest (down : Bool) :
    ∀ h ∈ (laggingTrio down).cluster.ring.membership.handles,
      (laggingTrio down).cluster.Honest h := by
  intro h hh
  rcases mem_laggingTrio hh with rfl | rfl | rfl
  · exact nofun
  · cases down <;> exact nofun
  · cases down <;> exact nofun

/-- The trio after a wipe that everybody has carried out. -/
def blankTrio : World :=
  { laggingTrio false with
    cluster := { (laggingTrio false).cluster with
      now := 2000
      fleet := ⟨#[
        { id := ⟨10⟩ },
        { id := ⟨20⟩, faults := .injected { latency := .ofMillis 1000 } },
        { id := ⟨30⟩, faults := .injected { latency := .ofMillis 1000 } },
        { id := ⟨40⟩, store := ⟨[("k", "d")]⟩ }]⟩ } }

theorem performs_laggingTrio : (laggingTrio false).Performs .clear .done blankTrio := by
  have hreach : Reaches ((laggingTrio false).begin .clear) (.answered 2000 .done, _) :=
    .head ⟨rfl, 0, rfl, rfl⟩ (.head ⟨rfl, 1000, rfl, rfl⟩ (.single ⟨rfl, 2000, rfl, rfl⟩))
  exact performs_of_reaches rfl hreach

/-- Who looks for data afterwards. -/
def lookers : Array Activity := #[.later 2000 (.repair none), .later 2000 (.get "k" none)]

/-- The sweep goes on to its end, and then the get. -/
def looking : List (Instant × Turn) :=
  List.replicate 14 (4000, .activity 0) ++ List.replicate 3 (5000, .activity 1)

theorem lookers_browse : ∀ a ∈ lookers, (∃ t op, a = .later t op) ∧ a.Browses := by
  intro a ha
  simp only [lookers, List.mem_toArray, List.mem_cons, List.not_mem_nil, or_false] at ha
  rcases ha with rfl | rfl
  · exact ⟨⟨_, _, rfl⟩, fun _ hr => False.elim hr, trivial⟩
  · refine ⟨⟨_, _, rfl⟩, fun r hr => ?_, trivial⟩
    obtain rfl : r = .get "k" := hr
    exact trivial

/-- The trio while they look. -/
def searchedTrio : World := World.follow { blankTrio with activities := lookers } looking

theorem searchedTrio_answering : ∀ h ∈ (laggingTrio false).cluster.ring.membership.handles,
    (searchedTrio.cluster.fleet.node h).Answering searchedTrio.cluster.env 1000 := by
  intro h hh
  rcases mem_laggingTrio hh with rfl | rfl | rfl
  · exact Node.answering_of_none rfl
  · exact Node.answering_of_injected rfl rfl rfl (by decide) (by decide)
  · exact Node.answering_of_injected rfl rfl rfl (by decide) (by decide)

/-- With two members switched off, the lower one of them is reported, both keep their data, and the
other member loses its own. With all of them up nothing is left but on the node that is not on the
ring, and neither the sweep nor any get finds it. -/
theorem clear_leaves_nothing_laggingTrio :
    (∀ down, (laggingTrio down).cluster.ring.Reachable ∧ (laggingTrio down).Linked ∧
      ∀ h ∈ (laggingTrio down).cluster.ring.membership.handles,
        (laggingTrio down).cluster.Honest h) ∧
    (∃ w', (laggingTrio true).Performs .clear (.ringError (.node (.unavailable ⟨20⟩))) w' ∧
      (w'.cluster.fleet.node ⟨⟨10⟩, 0⟩).store = .empty ∧
      w'.cluster.fleet.held ⟨⟨20⟩, 1⟩ "k" = some "b" ∧
      w'.cluster.fleet.held ⟨⟨30⟩, 2⟩ "j" = some "c" ∧
      w'.cluster.fleet.held ⟨⟨40⟩, 3⟩ "k" = some "d") ∧
    (laggingTrio false).Performs .clear .done blankTrio ∧
    blankTrio.cluster.fleet.held ⟨⟨40⟩, 3⟩ "k" = some "d" ∧
    (∀ a ∈ lookers, (∃ t op, a = .later t op) ∧ a.Browses) ∧
    searchedTrio.report? 0 = some ⟨3, 0, 0, 0, 0, false⟩ ∧
    (∀ r, searchedTrio.report? 0 = some r → r.copies = 0) ∧
    searchedTrio.value? 1 = some none ∧
    (∀ found, searchedTrio.value? 1 = some found → found = none) ∧
    (searchedTrio.quiet.after [.get "k" none, .repair none]).answerTo (.get "k" none) =
      .one (.value none) := by
  have hfirst : ∃ w', (laggingTrio true).Performs .clear
        (.ringError (.node (.unavailable ⟨20⟩))) w' ∧
      (w'.cluster.fleet.node ⟨⟨10⟩, 0⟩).store = .empty ∧
      w'.cluster.fleet.held ⟨⟨20⟩, 1⟩ "k" = some "b" ∧
      w'.cluster.fleet.held ⟨⟨30⟩, 2⟩ "j" = some "c" ∧
      w'.cluster.fleet.held ⟨⟨40⟩, 3⟩ "k" = some "d" := by
    obtain ⟨x, w', hperforms, hwipes, -⟩ := clear_leaves_nothing (laggingTrio_reachable true) rfl
      rfl (laggingTrio_linked true) (laggingTrio_honest true)
    have hrefused : x ≠ .done := fun hdone =>
      Option.some_ne_none _ (hwipes.done_iff.1 hdone ⟨⟨20⟩, 1⟩ (by decide))
    obtain ⟨h, hh, e, he, rfl, hlowest⟩ := hwipes.error hrefused
    obtain rfl : e = .unavailable ⟨20⟩ := by
      rcases mem_laggingTrio hh with rfl | rfl | rfl
      · exact absurd he.symm (Option.some_ne_none e)
      · exact (Option.some.inj he).symm
      · exact absurd (hlowest ⟨⟨20⟩, 1⟩ (by decide) (Option.some_ne_none _)) (by decide)
    refine ⟨w', hperforms, hwipes.cleared ⟨⟨10⟩, 0⟩ (by decide) rfl, ?_, ?_, ?_⟩
    · rw [Fleet.held, hwipes.kept ⟨⟨20⟩, 1⟩ (by decide) fun _ => Option.some_ne_none _]
      rfl
    · rw [Fleet.held, hwipes.kept ⟨⟨30⟩, 2⟩ (by decide) fun _ => Option.some_ne_none _]
      rfl
    · rw [Fleet.held, hwipes.kept ⟨⟨40⟩, 3⟩ (by decide) fun hmem => absurd hmem (by decide)]
      rfl
  have hsecond : World.FindsNothing { blankTrio with activities := lookers } looking := by
    obtain ⟨x, w', hperforms, hwipes, hfinds⟩ := clear_leaves_nothing (laggingTrio_reachable false)
      rfl rfl (laggingTrio_linked false) (laggingTrio_honest false)
    have hdone : x = .done := hwipes.done_iff.2 fun h hh => by
      rcases mem_laggingTrio hh with rfl | rfl | rfl <;> rfl
    obtain rfl : w' = blankTrio := hperforms.world.symm.trans performs_laggingTrio.world
    exact hfinds hdone lookers looking lookers_browse
  have hops : ∀ op ∈ [Op.get "k" none, .repair none, .get "k" none],
      op.InTime searchedTrio.cluster.env.timer blankTrio.cluster.ring fun _ => 1000 := by
    simp only [List.mem_cons, List.not_mem_nil, or_false]
    rintro op (rfl | rfl | rfl)
    · exact ⟨by decide, (by decide : 2000 ≤ 5000)⟩
    · exact fun _ _ => (by decide : 1000 ≤ 5000)
    · exact ⟨by decide, (by decide : 2000 ≤ 5000)⟩
  have hanswer := hsecond.healthy (fun _ => 1000) _ searchedTrio_answering hops
    [.get "k" none, .repair none] (.get "k" none) (List.prefix_refl _)
  exact ⟨fun down => ⟨laggingTrio_reachable down, laggingTrio_linked down, laggingTrio_honest down⟩,
    hfirst, performs_laggingTrio, by decide +kernel, lookers_browse, by decide +kernel,
    fun r hr => hsecond.reports 0 r (by decide) hr, by decide +kernel,
    fun found hfound => hsecond.gets 1 "k" found (by decide) hfound, hanswer⟩

end World

end Scenario

end ReplicaRing
