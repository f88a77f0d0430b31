import ReplicaRing.Proofs.LoopTraces
import ReplicaRing.Proofs.SweepCounts

/-!
# Background repair

Whatever clients do to the ring meanwhile, a repair loop runs one sweep after the other. Once it has
been told to stop it takes up nothing new and ends soon.

* `LoopRun.Keeps`, `stepActivity_loops` — what all others leave of a repair loop;
* `World.loopSeen?`, `go_goes` — what is seen of a loop in a turn, and what becomes of it;
* `Fair.follow_stands` — a loop stands where its trace has led it;
* `follow_quiet` — a loop that has been told to stop takes up nothing new, and its events run out;
* `follow_counted` — the sweeps of a loop and those of all others are counted;
* `Fair.go_startRepair`, `Fair.background_repair` — every repair loop of every world.
-/

namespace ReplicaRing

open RepairLoop (Event)

/-! ### What others leave of a loop -/

/-- A loop is left to itself, but perhaps told to stop or given up. -/
structure LoopRun.Keeps (l l' : LoopRun) : Prop where
  phase : l'.loop.phase = l.loop.phase
  inquiry : l'.inquiry = l.inquiry
  told : l.loop.signalled = true → l'.loop.signalled = true

namespace LoopRun

variable {l l' : LoopRun}

theorem Keeps.refl (l : LoopRun) : l.Keeps l := ⟨rfl, rfl, id⟩

theorem Keeps.stands {n : Nat} {trace : List Event} (h : l.Keeps l') (hl : l.Stands n trace) :
    l'.Stands n trace := by
  rwa [Stands, h.phase, h.inquiry]

theorem Keeps.left_eq (h : l.Keeps l') : l'.left = l.left := by
  rw [left, left, h.phase, h.inquiry]

end LoopRun

namespace Scenario.World

variable {w v : World} {i : Nat} {l : LoopRun}

theorem changeLoop_loops (h : w.loops[i]? = some l) (j : Nat) {f : RepairLoop → RepairLoop}
    (hf : ∀ l, (f l).phase = l.phase ∧ (l.signalled = true → (f l).signalled = true)) :
    ∃ l', (w.changeLoop j f).loops[i]? = some l' ∧ l.Keeps l' := by
  simp only [changeLoop, Array.getElem?_modify]
  split
  · rw [h]
    exact ⟨_, rfl, (hf l.loop).1, rfl, (hf l.loop).2⟩
  · exact ⟨l, h, .refl l⟩

theorem hold_loops (h : w.loops[i]? = some l) (j : Nat) :
    ∃ l', (w.hold j).loops[i]? = some l' ∧ l.Keeps l' := by
  rw [hold]
  cases w.held with
  | none => exact ⟨l, h, .refl l⟩
  | some old => exact changeLoop_loops h old (f := .abandon) fun _ => ⟨rfl, id⟩

theorem startRepair_loops (h : w.loops[i]? = some l) (interval settle : Duration) :
    (w.startRepair interval settle).2.loops[i]? = some l := by
  have hlt : i < w.loops.size := (Array.getElem?_eq_some_iff.1 h).1
  simp only [startRepair]
  rwa [Array.getElem?_push, if_neg (Nat.ne_of_lt hlt)]

theorem stopRepair_loops (h : w.loops[i]? = some l) :
    ∃ l', w.stopRepair.2.loops[i]? = some l' ∧ l.Keeps l' := by
  rw [stopRepair]
  cases w.held with
  | none => exact ⟨l, h, .refl l⟩
  | some j => exact changeLoop_loops h j (f := .signal) fun _ => ⟨rfl, fun _ => rfl⟩

theorem beginWrite_loops (w : World) (change : Change) (key : String) (timeout : Option Duration) :
    (w.beginWrite change key timeout).2.loops = w.loops := by
  rw [beginWrite]
  split <;> rfl

theorem beginRead_loops (w : World) (key : String) (timeout : Option Duration) :
    (w.beginRead key timeout).2.loops = w.loops := by
  rw [beginRead]
  split <;> rfl

/-- A call leaves the repair loops alone, but one call starts another loop and one tells a loop to
stop. -/
theorem begin_loops (h : w.loops[i]? = some l) (op : Op) :
    ∃ l', (w.begin op).2.loops[i]? = some l' ∧ l.Keeps l' := by
  let P : World → Prop := fun v => v.loops = w.loops
  have hsame : ∀ {v : World}, P v → ∃ l', v.loops[i]? = some l' ∧ l.Keeps l' :=
    fun he => ⟨l, he ▸ h, .refl l⟩
  have hnode : ∀ (id : NodeId) {f : Handle → Activity × World}, (∀ h, P (f h).2) →
      P (w.withNode id f).2 :=
    fun id _ hf => withNode_elim (P := fun p => P p.2) (fun _ => rfl) id fun h _ => hf h
  have hselection : ∀ (choice : Selection) {f : Placement → Cluster → Activity × World},
      (∀ p c, P (f p c).2) → P (w.withSelection choice f).2 :=
    fun choice _ hf =>
      withSelection_elim (P := fun p => P p.2) (fun _ => rfl) choice fun p c _ => hf p c
  cases hchange : op.isChange with
  | true => exact hsame (w.begin_alters hchange).loops
  | false =>
    rw [begin]
    split
    · cases op with
      | put key value timeout => exact hsame (w.beginWrite_loops ..)
      | delete key timeout => exact hsame (w.beginWrite_loops ..)
      | get key timeout => exact hsame (w.beginRead_loops ..)
      | add | addAgain | drop | addRandom | dropRandom => cases hchange
      | startRepair interval settle => exact ⟨l, startRepair_loops h interval settle, .refl l⟩
      | stopRepair => exact stopRepair_loops h
      | placement choice probes => exact hsame (hselection choice fun _ _ => rfl)
      | writeTo choice change key timeout =>
        refine hsame (hselection choice fun _ _ => ?_)
        simp only
        split <;> rfl
      | readFrom choice key timeout =>
        refine hsame (hselection choice fun _ _ => ?_)
        simp only
        split <;> rfl
      | _ => first | exact hsame rfl | exact hsame (hnode _ fun _ => rfl)
    · exact hsame rfl

/-- The next event of an activity leaves the repair loops alone, but for what a call does. -/
theorem stepActivity_loops (h : w.loops[i]? = some l) (a : Activity) :
    ∃ l', (w.stepActivity a).2.loops[i]? = some l' ∧ l.Keeps l' := by
  cases a with
  | later t op => exact begin_loops h op
  | settle stop j => exact hold_loops h j
  | _ => exact ⟨l, h, .refl l⟩

/-! ### Turns -/

/-- What is seen of a loop, if it is the one that goes on. -/
def loopSeen? (i : Nat) (v : World) : Turn → Option Event
  | .activity _ => none
  | .loop j => if j = i then v.loops[i]?.bind (LoopRun.seen? v.cluster) else none

/-- Whether it is a loop that goes on. -/
def Turn.isLoop (i : Nat) : Turn → Bool
  | .activity _ => false
  | .loop j => j == i

/-- **One turn.** The loop goes on, or it is left to itself. -/
theorem go_goes (h : v.loops[i]? = some l) (x : Turn) :
    ∃ l', (v.go x).loops[i]? = some l' ∧
      (x.isLoop i = true ∧ l.Goes v.cluster (loopSeen? i v x) l' ∨
        x.isLoop i = false ∧ loopSeen? i v x = none ∧ l.Keeps l') := by
  cases x with
  | activity j =>
    cases hj : v.activities[j]? with
    | none =>
      rw [go_activity_none hj]
      exact ⟨l, h, .inr ⟨rfl, rfl, .refl l⟩⟩
    | some a =>
      obtain ⟨l', hl', hkeeps⟩ := stepActivity_loops h a
      rw [go_activity_some hj]
      exact ⟨l', hl', .inr ⟨rfl, rfl, hkeeps⟩⟩
  | loop j =>
    by_cases hj : j = i
    · subst hj
      have hlt : j < v.loops.size := (Array.getElem?_eq_some_iff.1 h).1
      have hseen : loopSeen? j v (.loop j) = l.seen? v.cluster := by
        rw [loopSeen?, if_pos rfl, h, Option.bind_some]
      refine ⟨(l.step v.cluster).1, ?_, .inl ⟨beq_self_eq_true j, hseen ▸ l.step_goes v.cluster⟩⟩
      rw [go_loop_some h]
      exact Array.getElem?_setIfInBounds_self_of_lt hlt
    · have hseen : loopSeen? i v (.loop j) = none := if_neg hj
      refine ⟨l, ?_, .inr ⟨beq_false_of_ne hj, hseen, .refl l⟩⟩
      cases hl : v.loops[j]? with
      | none => rwa [go_loop_none hl]
      | some run =>
        rw [go_loop_some hl]
        exact (Array.getElem?_setIfInBounds_ne hj).trans h

/-! ### Runs -/

/-- A loop that has just started. -/
theorem stands_start (n : Nat) (t : Instant) (interval : Duration) :
    LoopRun.Stands n [] { loop := .start t interval } := rfl

/-- **Runs.** A loop stands where its trace has led it, and its trace is one sweep after the
other. -/
theorem Fair.follow_stands (hw : w.Fair Operation.never) (hr : w.cluster.ring.Proper)
    {t : Instant} {interval : Duration} (hi : w.loops[i]? = some { loop := .start t interval })
    (turns : List (Instant × Turn)) :
    ∃ l, (w.follow turns).loops[i]? = some l ∧
      l.Stands w.cluster.ring.options.replicaCount (w.trace (loopSeen? i) turns) ∧
      Event.Sequential w.cluster.ring.options.replicaCount (w.trace (loopSeen? i) turns) ∧
      (.sees ∈ w.trace (loopSeen? i) turns → l.loop.signalled = true) := by
  let n := w.cluster.ring.options.replicaCount
  refine follow_induction (P := fun past => ∃ l, (w.follow past).loops[i]? = some l ∧
    l.Stands n (w.trace (loopSeen? i) past) ∧
    Event.Sequential n (w.trace (loopSeen? i) past) ∧
    (.sees ∈ w.trace (loopSeen? i) past → l.loop.signalled = true)) turns
    ⟨_, hi, stands_start n t interval, Event.sequential_nil n,
      fun hmem => absurd hmem List.not_mem_nil⟩ ?_
  rintro past t x - ⟨l, hl, hstands, hsequential, htold⟩
  obtain ⟨-, hproper, -, hoptions, -⟩ := hw.follow_ring_proper hr past
  have hl' : ((w.follow past).advanceTo t).loops[i]? = some l := hl
  have hproper' : ((w.follow past).advanceTo t).cluster.ring.Proper := hproper
  rw [follow_concat, trace_concat]
  obtain ⟨l', hnext, ⟨-, hgoes⟩ | ⟨-, hseen, hkeeps⟩⟩ := go_goes hl' x
  · obtain ⟨hstands', hadmitted⟩ :=
      hstands.goes hproper' (congrArg RingOptions.replicaCount hoptions) hgoes
    refine ⟨l', hnext, hstands', hsequential.append hadmitted, fun hmem => ?_⟩
    rcases List.mem_append.1 hmem with hmem | hmem
    · exact hgoes.told (htold hmem)
    · exact hgoes.told (hgoes.sees_told (Option.mem_toList.1 hmem))
  · rw [hseen, Option.toList_none, List.append_nil]
    exact ⟨l', hnext, hkeeps.stands hstands, hsequential, fun hmem => hkeeps.told (htold hmem)⟩

/-- **Told to stop.** A loop takes up nothing new from then on, and every event of its own brings
it nearer to its end. -/
theorem follow_quiet (h : v.loops[i]? = some l) (htold : l.loop.signalled = true)
    (rest : List (Instant × Turn)) :
    ∃ l', (v.follow rest).loops[i]? = some l' ∧ l'.loop.signalled = true ∧
      (∀ e ∈ v.trace (loopSeen? i) rest, e.isNew = false) ∧
      l'.left ≤ l.left - rest.countP fun turn => turn.2.isLoop i := by
  refine follow_induction (P := fun past => ∃ l', (v.follow past).loops[i]? = some l' ∧
    l'.loop.signalled = true ∧ (∀ e ∈ v.trace (loopSeen? i) past, e.isNew = false) ∧
    l'.left ≤ l.left - past.countP fun turn => turn.2.isLoop i) rest
    ⟨l, h, htold, fun e he => absurd he List.not_mem_nil, Nat.le_refl _⟩ ?_
  rintro past t x - ⟨l', hl', htold', hnew, hleft⟩
  have hbefore : ((v.follow past).advanceTo t).loops[i]? = some l' := hl'
  rw [follow_concat, trace_concat, List.countP_append, List.countP_singleton]
  obtain ⟨l'', hnext, ⟨hx, hgoes⟩ | ⟨hx, hseen, hkeeps⟩⟩ := go_goes hbefore x
  · refine ⟨l'', hnext, hgoes.told htold', fun e he => ?_, ?_⟩
    · rcases List.mem_append.1 he with he | he
      · exact hnew e he
      · exact hgoes.nothing_new htold' e (Option.mem_toList.1 he)
    · have hless := hgoes.left_lt htold'
      simp only [hx, if_true]
      omega
  · rw [hseen, Option.toList_none, List.append_nil]
    refine ⟨l'', hnext, hkeeps.told htold', hnew, ?_⟩
    simp only [hx, Bool.false_eq_true, if_false]
    exact hkeeps.left_eq ▸ hleft

/-! ### Counting -/

/-- The report of a sweep that returns in a turn to anybody else. -/
def returnedElsewhere? (i : Nat) (v : World) (x : Turn) : Option Report :=
  if x.isLoop i then none else v.returned? x

/-- A sweep that returns in a turn is one of the loop or not. -/
theorem countP_returned? (i : Nat) (v : World) (x : Turn) :
    (v.returned? x).toList.countP (fun r => !r.cancelled) =
      (loopSeen? i v x).toList.countP Event.isCounted +
        (returnedElsewhere? i v x).toList.countP fun r => !r.cancelled := by
  cases x with
  | activity j => exact (Nat.zero_add _).symm
  | loop j =>
    by_cases hj : j = i
    · subst hj
      have helsewhere : returnedElsewhere? j v (.loop j) = none := if_pos (beq_self_eq_true j)
      have hseen : loopSeen? j v (.loop j) = v.loops[j]?.bind (LoopRun.seen? v.cluster) :=
        if_pos rfl
      rw [helsewhere, hseen, returned?]
      cases v.loops[j]?.bind (LoopRun.seen? v.cluster) with
      | none => rfl
      | some e =>
        rw [Option.bind_some, Option.toList_some, List.countP_singleton, Event.isCounted]
        cases e.report? with
        | none => rfl
        | some r => exact List.countP_singleton
    · have helsewhere : returnedElsewhere? i v (.loop j) = v.returned? (.loop j) :=
        if_neg fun he => hj (eq_of_beq he)
      have hseen : loopSeen? i v (.loop j) = none := if_neg hj
      rw [helsewhere, hseen]
      exact (Nat.zero_add _).symm

/-- The counter counts the sweeps of a loop and those of all others. -/
theorem follow_counted (w : World) (i : Nat) (turns : List (Instant × Turn)) :
    (w.follow turns).cluster.sweepCount.toNat = (w.cluster.sweepCount.toNat +
      ((w.trace (loopSeen? i) turns).countP Event.isCounted +
        (w.trace (returnedElsewhere? i) turns).countP fun r => !r.cancelled)) % 2 ^ 64 := by
  have hsplit : (w.trace returned? turns).countP (fun r => !r.cancelled) =
      (w.trace (loopSeen? i) turns).countP Event.isCounted +
        (w.trace (returnedElsewhere? i) turns).countP fun r => !r.cancelled := by
    induction turns using List.reverseRecOn with
    | nil => rfl
    | append_singleton turns turn ih =>
      obtain ⟨t, x⟩ := turn
      have hturn := countP_returned? i ((w.follow turns).advanceTo t) x
      simp only [trace_concat, List.countP_append, ih, hturn]
      omega
  rw [follow_sweepCount, hsplit]

/-- **The operation** that starts a repair loop. The loop is at its start, and the ring is as it
was. -/
theorem Fair.go_startRepair (hw : w.Fair Operation.never) (hr : w.cluster.ring.Proper)
    (hring : w.hasRing = true) {j : Nat} {t : Instant} {interval settle : Duration}
    (hj : w.activities[j]? = some (.later t (.startRepair interval settle))) :
    (w.go (.activity j)).Fair Operation.never ∧ (w.go (.activity j)).cluster.ring.Proper ∧
      (w.go (.activity j)).loops[w.loops.size]? =
        some { loop := .start w.cluster.now interval } := by
  have hgo : w.go (.activity j) =
      { (w.startRepair interval settle).2 with
        activities := w.activities.setIfInBounds j (w.startRepair interval settle).1 } :=
    go_later hj (begin_of_hasRing hring _)
  have hturned := hw.turned (x := .activity j) fun i a _ _ => a.candid_never
  refine ⟨hturned.fair, ?_, ?_⟩
  · rw [hgo]
    exact hr
  · rw [hgo]
    exact Array.getElem?_push_size

/-- **Background repair.** Whatever clients do meanwhile, a repair loop that has just been started
runs one sweep after the other, and they are counted unless they have been cancelled. Only the
signal cancels a sweep. Once it has been given, nothing new is taken up, and the loop ends after a
bounded number of its own events. -/
theorem Fair.background_repair (hw : w.Fair Operation.never) (hr : w.cluster.ring.Proper)
    {t : Instant} {interval : Duration} (hi : w.loops[i]? = some { loop := .start t interval })
    (turns : List (Instant × Turn)) :
    Event.Sequential w.cluster.ring.options.replicaCount (w.trace (loopSeen? i) turns) ∧
    (w.follow turns).cluster.sweepCount.toNat = (w.cluster.sweepCount.toNat +
      ((w.trace (loopSeen? i) turns).countP Event.isCounted +
        (w.trace (returnedElsewhere? i) turns).countP fun r => !r.cancelled)) % 2 ^ 64 ∧
    ∀ past rest, past ++ rest = turns → ∃ l l', (w.follow past).loops[i]? = some l ∧
      (w.follow turns).loops[i]? = some l' ∧
      (.sees ∈ w.trace (loopSeen? i) past → l.loop.signalled = true) ∧
      (l.loop.signalled = true →
        Event.Quiets (w.trace (loopSeen? i) past) ((w.follow past).trace (loopSeen? i) rest) ∧
        (4 * w.cluster.ring.options.replicaCount + 8 ≤
            rest.countP (fun turn => turn.2.isLoop i) → l'.loop.isStopped = true)) := by
  obtain ⟨l', hl', -, hsequential, -⟩ := hw.follow_stands hr hi turns
  refine ⟨hsequential, follow_counted w i turns, ?_⟩
  rintro past rest rfl
  obtain ⟨l, hl, hstands, -, hsees⟩ := hw.follow_stands hr hi past
  refine ⟨l, l', hl, hl', hsees, fun htold => ?_⟩
  obtain ⟨l'', hl'', -, hnew, hleft⟩ := follow_quiet hl htold rest
  rw [follow_append] at hl'
  obtain rfl := Option.some.inj (hl''.symm.trans hl')
  rw [trace_append] at hsequential
  refine ⟨hsequential.quiets hnew, fun hturns => LoopRun.isStopped_of_left ?_⟩
  have hbound := hstands.left_le
  omega

/-- Two replicas of every key, of which one lacks the key of the other. A repair loop is started,
and told to stop later on. -/
def hastyCalls : World where
  cluster :=
    { fleet := ⟨#[{ id := ⟨10⟩, store := ⟨[("k", "v")]⟩ }, { id := ⟨20⟩ }]⟩
      ring := ⟨fun _ => 0, { replicaCount := 2 },
        ⟨⟨[(⟨10⟩, ⟨⟨10⟩, 0⟩), (⟨20⟩, ⟨⟨20⟩, 1⟩)]⟩, 0⟩⟩ }
  activities := #[.later 0 (.startRepair (.ofMillis 1000) .zero), .later 0 .stopRepair]
  registry := ⟨[(⟨10⟩, ⟨⟨10⟩, 0⟩), (⟨20⟩, ⟨⟨20⟩, 1⟩)]⟩

theorem hastyCalls_linked : hastyCalls.Linked :=
  .of_registry ⟨by unfold OrderedMap.Sorted; decide, by decide⟩ (by decide) rfl

theorem hastyCalls_fair : hastyCalls.Fair Operation.never where
  linked := hastyCalls_linked
  candid := by simp [Fleet.Candid, hastyCalls, Node.Candid, Faults.Candid]
  activities i a ha := by
    have hmem := Array.mem_of_getElem? ha
    simp only [hastyCalls, List.mem_toArray, List.mem_cons, List.not_mem_nil, or_false] at hmem
    rcases hmem with rfl | rfl <;> trivial
  loops i run hrun := by simp [hastyCalls, sweepAt] at hrun

theorem hastyCalls_proper : hastyCalls.cluster.ring.Proper where
  sound := hastyCalls_linked.sound
  valid := by
    unfold RingOptions.Valid
    decide
  enough := by decide

/-- The loop has been started. -/
def hastyPair : World := hastyCalls.go (.activity 0)

theorem hastyPair_starts : hastyPair.Fair Operation.never ∧ hastyPair.cluster.ring.Proper ∧
    hastyPair.loops[0]? = some { loop := .start 0 (.ofMillis 1000) } :=
  hastyCalls_fair.go_startRepair hastyCalls_proper rfl rfl

/-- The caller holds the loop. The sweep asks the second node for the key, and then the loop is told
to stop. -/
def interrupting : List (Instant × Turn) :=
  (0, .activity 0) :: List.replicate 6 (0, .loop 0) ++ [(0, .activity 1)]

/-- The loop is left to itself. -/
def windingDown : List (Instant × Turn) := List.replicate 16 (0, .loop 0)

/-- The key under repair is still copied, the second node is not taken up any more, and the sweep is
not counted. -/
theorem background_repair_hastyPair :
    hastyPair.Fair Operation.never ∧ hastyPair.cluster.ring.Proper ∧
    hastyPair.loops[0]? = some { loop := .start 0 (.ofMillis 1000) } ∧
    (hastyPair.follow interrupting).loops[0]?.map (·.loop.signalled) = some true ∧
    (hastyPair.follow interrupting).cluster.fleet.held ⟨⟨20⟩, 1⟩ "k" = none ∧
    Event.Quiets (hastyPair.trace (loopSeen? 0) interrupting)
      ((hastyPair.follow interrupting).trace (loopSeen? 0) windingDown) ∧
    (hastyPair.follow (interrupting ++ windingDown)).cluster.fleet.held ⟨⟨20⟩, 1⟩ "k" =
      some "v" ∧
    (hastyPair.follow (interrupting ++ windingDown)).loops[0]?.map (·.loop.isStopped) =
      some true ∧
    (hastyPair.follow (interrupting ++ windingDown)).cluster.sweepCount.toNat = 0 := by
  obtain ⟨hfair, hproper, hstarts⟩ := hastyPair_starts
  obtain ⟨-, hcounted, hsplits⟩ := hfair.background_repair hproper hstarts
    (interrupting ++ windingDown)
  obtain ⟨l, l', hl, hl', -, htold⟩ := hsplits interrupting windingDown rfl
  have hsignalled : (hastyPair.follow interrupting).loops[0]?.map (·.loop.signalled) =
      some true := by decide +kernel
  obtain ⟨hquiets, hstopped⟩ := htold (by
    rw [hl, Option.map_some] at hsignalled
    exact Option.some.inj hsignalled)
  have hnone : (hastyPair.cluster.sweepCount.toNat +
      ((hastyPair.trace (loopSeen? 0) (interrupting ++ windingDown)).countP Event.isCounted +
        (hastyPair.trace (returnedElsewhere? 0) (interrupting ++ windingDown)).countP
          fun r => !r.cancelled)) % 2 ^ 64 = 0 := by decide +kernel
  refine ⟨hfair, hproper, hstarts, hsignalled, by decide +kernel, hquiets,
    by decide +kernel, ?_, hcounted.trans hnone⟩
  rw [hl', Option.map_some, hstopped (by decide)]

end Scenario.World

end ReplicaRing
