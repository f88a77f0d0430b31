import Mathlib.Algebra.BigOperators.Group.List.Basic
import Mathlib.Algebra.Ring.Nat
import ReplicaRing.Proofs.ClientEnds
import ReplicaRing.Proofs.RingChanges

/-!
# Runs that the clock allows

In a run that the clock allows everybody goes on exactly when it is due, and nobody is passed over;
what is due at one time goes on in any order. A write or a read that goes on while others change the
membership is left alone by them, and it comes to its end.

* `World.Punctual` — the turns that the clock allows, and `punctual_of_step?` — its own choice is
  one;
* `Alters.passes` — a call that changes the membership leaves other calls alone;
* `World.AmongChanges` — one call is under way, and all others change the membership at most;
* `AmongChanges.turn`, `Punctual.keeps` — what the events of the call keep is kept by such a run,
  whose turns are limited;
* `AmongChanges.answered_of_turns` — the call is answered when nobody has a turn any more;
* `AmongChanges.drain` — the program's own run is one of these.
-/

namespace ReplicaRing

/-- What calls that change the membership leave alone in a cluster, while time passes. -/
structure Cluster.Passes (c c' : Cluster) : Prop where
  now : c.now ≤ c'.now
  env : c'.env = c.env
  options : c'.ring.options = c.ring.options
  houses : ∀ x, c.fleet.Houses x → c'.fleet.Houses x
  node : ∀ x, c.fleet.Houses x → c'.fleet.node x = c.fleet.node x

namespace Scenario

/-- A write or a read that is under way, or a call that has been answered. -/
def Activity.Underway : Activity → Prop
  | write run _ => run.flights ≠ []
  | read run _ _ => run.read.ahead ≠ [] ∧ run.inquiry ≠ none
  | answered _ _ => True
  | _ => False

/-- How many events an activity still has at most. -/
def Activity.pending : Activity → Nat
  | later _ _ => 1
  | write run _ => run.flights.length
  | read run _ _ => run.read.ahead.length
  | _ => 0

namespace World

variable {w w' : World} {a : Activity} {i j : Nat} {t : Instant} {x : Turn}
  {turns : List (Instant × Turn)}

/-! ### The clock -/

/-- Turns that the clock allows: whoever goes on is due, and nobody else was due before. -/
def Punctual (w : World) : List (Instant × Turn) → Prop
  | [] => True
  | (t, x) :: turns =>
    ((t, x) ∈ w.turns ∧ ∀ e ∈ w.turns, t ≤ e.1) ∧ ((w.advanceTo t).go x).Punctual turns

/-- The earliest of several wake-ups is one of them. -/
theorem foldl_earlier {l : List (Instant × Turn)} {first? : Option (Instant × Turn)}
    {e : Instant × Turn} (h : l.foldl earlier first? = some e) :
    (first? = some e ∨ e ∈ l) ∧ (∀ e' ∈ l, e.1 ≤ e'.1) ∧ ∀ e', first? = some e' → e.1 ≤ e'.1 := by
  induction l generalizing first? with
  | nil =>
    refine ⟨.inl h, fun e' he' => absurd he' List.not_mem_nil, fun e' he' => ?_⟩
    rw [Option.some.inj (h.symm.trans he')]
  | cons b l ih =>
    obtain ⟨hmem, hle, hfirst⟩ := ih h
    cases first? with
    | none =>
      have hb : e.1 ≤ b.1 := hfirst b rfl
      refine ⟨.inr ?_, ?_, fun e' he' => nomatch he'⟩
      · rcases hmem with he | he
        · exact Option.some.inj he ▸ List.mem_cons_self ..
        · exact List.mem_cons_of_mem _ he
      · intro e' he'
        rcases List.mem_cons.1 he' with rfl | he'
        · exact hb
        · exact hle e' he'
    | some a =>
      rw [earlier] at hmem hfirst
      have hboth : e.1 ≤ b.1 ∧ e.1 ≤ a.1 := by
        split at hfirst
        · next hlt =>
          have hb := hfirst b rfl
          exact ⟨hb, Nat.le_trans hb (Nat.le_of_lt hlt)⟩
        · next hnot =>
          have ha := hfirst a rfl
          exact ⟨Nat.le_trans ha (Nat.le_of_not_lt hnot), ha⟩
      refine ⟨?_, ?_, fun e' he' => Option.some.inj he' ▸ hboth.2⟩
      · rcases hmem with he | he
        · split at he
          · exact .inr (Option.some.inj he ▸ List.mem_cons_self ..)
          · exact .inl he
        · exact .inr (List.mem_cons_of_mem _ he)
      · intro e' he'
        rcases List.mem_cons.1 he' with rfl | he'
        · exact hboth.1
        · exact hle e' he'

theorem foldl_earlier_ne_none (l : List (Instant × Turn)) (e : Instant × Turn) :
    l.foldl earlier (some e) ≠ none := by
  induction l generalizing e with
  | nil => exact Option.some_ne_none e
  | cons b l ih =>
    rw [List.foldl_cons, earlier]
    split
    · exact ih b
    · exact ih e

/-- **The clock's own choice is allowed.** -/
theorem punctual_of_step? (h : w.step? = some w') :
    ∃ t x, w' = (w.advanceTo t).go x ∧ w.Punctual [(t, x)] := by
  rw [step?, Option.bind_eq_bind, Option.bind_eq_some_iff] at h
  obtain ⟨⟨t, x⟩, hnext, h⟩ := h
  obtain ⟨hmem, hle, -⟩ := foldl_earlier hnext
  refine ⟨t, x, ?_, ⟨hmem.resolve_left (by simp), hle⟩, trivial⟩
  cases x with
  | activity i =>
    simp only [Option.bind_eq_bind, Option.bind_eq_some_iff] at h
    obtain ⟨a, ha, h⟩ := h
    rw [go_activity_some ha]
    exact (Option.some.inj h).symm
  | loop i =>
    simp only [Option.bind_eq_bind, Option.bind_eq_some_iff] at h
    obtain ⟨run, hrun, h⟩ := h
    rw [go_loop_some hrun]
    exact (Option.some.inj h).symm

/-- An activity has its turn at the time that it waits for. -/
theorem mem_turns_activity (hl : w.loops = #[]) :
    (t, Turn.activity i) ∈ w.turns ↔
      ∃ a, w.activities[i]? = some a ∧ a.wake? w.cluster.now #[] = some t := by
  rw [turns, hl]
  simp only [List.zipIdx_nil, List.filterMap_nil, List.append_nil, List.mem_filterMap,
    Option.map_eq_some_iff, Prod.mk.injEq, Turn.activity.injEq]
  constructor
  · rintro ⟨⟨a, k⟩, hmem, s, hs, rfl, rfl⟩
    rw [List.mem_zipIdx_iff_getElem?] at hmem
    exact ⟨a, by simpa using hmem, hs⟩
  · rintro ⟨a, ha, hs⟩
    refine ⟨(a, i), ?_, t, hs, rfl, rfl⟩
    rw [List.mem_zipIdx_iff_getElem?]
    simpa using ha

/-- Without repair loops it is an activity that has a turn. -/
theorem activity_of_mem_turns (hl : w.loops = #[]) (h : (t, x) ∈ w.turns) :
    ∃ i, x = .activity i := by
  rw [World.turns, hl] at h
  simp only [List.zipIdx_nil, List.filterMap_nil, List.append_nil, List.mem_filterMap,
    Option.map_eq_some_iff, Prod.mk.injEq] at h
  obtain ⟨e, -, s, -, -, rfl⟩ := h
  exact ⟨e.2, rfl⟩

/-! ### Calls that change the membership -/

/-- Such a call leaves the nodes alone that other calls wait for. -/
theorem Alters.passes {p : Activity × World} (h : w.Alters p) : w.cluster.Passes p.2.cluster := by
  have hnow : w.cluster.now ≤ p.2.cluster.now := Nat.le_of_eq h.now.symm
  rcases h.fleet with hf | ⟨n, hf⟩
  · exact ⟨hnow, h.env, h.options, fun x hx => hf ▸ hx, fun x _ => congrArg (Fleet.node · x) hf⟩
  · refine ⟨hnow, h.env, h.options, fun x hx => ?_, fun x hx => ?_⟩
    · rw [hf]
      exact Fleet.houses_enlist n hx
    · rw [hf]
      exact Fleet.node_enlist n hx

/-! ### One turn of a write or a read -/

theorem ofWrite_underway (c : Cluster) (run : Write) (client : Bool) :
    (Activity.ofWrite c run client).1.Underway ∧
      (Activity.ofWrite c run client).1.pending ≤ run.flights.length := by
  rw [Activity.ofWrite]
  split
  · split
    · exact ⟨trivial, Nat.zero_le _⟩
    · exact ⟨trivial, Nat.zero_le _⟩
  · next hmore => exact ⟨fun hnone => hmore (List.isEmpty_iff.2 hnone), Nat.le_refl _⟩

theorem ofRead_underway (c : Cluster) {run : ReadRun} (primary : Option NodeId) (client : Bool)
    (hasked : run.read.ahead ≠ [] → run.inquiry ≠ none) :
    (Activity.ofRead c run primary client).1.Underway ∧
      (Activity.ofRead c run primary client).1.pending ≤ run.read.ahead.length := by
  rw [Activity.ofRead]
  split
  · split
    · exact ⟨trivial, Nat.zero_le _⟩
    · exact ⟨trivial, Nat.zero_le _⟩
  · next hmore =>
    have hne : run.read.ahead ≠ [] := fun hnone => hmore (List.isEmpty_iff.2 hnone)
    exact ⟨⟨hne, hasked hne⟩, Nat.le_refl _⟩

/-- **The next event of a write or a read** changes the cluster alone, and it has fewer of them
ahead then. -/
theorem underway_goes (ha : a.Underway) (hwake : a.wake? w.cluster.now #[] ≠ none) :
    (∃ c, (w.stepActivity a).2 = { w with cluster := c }) ∧ (w.stepActivity a).1.Underway ∧
      (w.stepActivity a).1.pending < a.pending := by
  cases a with
  | write run client =>
    obtain ⟨q, flights, hflights⟩ := List.exists_cons_of_ne_nil ha
    have hshort : (run.step w.cluster.fleet).1.flights.length < run.flights.length := by
      rw [hflights, List.length_cons]
      by_cases hdue : q.due ≤ run.deadline
      · simp only [Write.step, hflights, hdue, if_true]
        omega
      · simp only [Write.step, hflights, hdue, if_false, List.length_nil]
        omega
    obtain ⟨hunder, hle⟩ := ofWrite_underway
      (Cluster.report { w.cluster with fleet := (run.step w.cluster.fleet).2.1 }
        (run.step w.cluster.fleet).2.2) (run.step w.cluster.fleet).1 client
    exact ⟨⟨_, rfl⟩, hunder, Nat.lt_of_le_of_lt hle hshort⟩
  | read run primary client =>
    obtain ⟨hahead, hasked⟩ := ha
    obtain ⟨q, hq⟩ := Option.ne_none_iff_exists'.1 hasked
    let read := run.hear q.flight.target (w.cluster.receive q (.get run.read.key)).1
    have hread : (run.step w.cluster).1.read = read := by
      simp only [ReadRun.step, hq]
      rfl
    have hnext : (run.step w.cluster).1.read.ahead ≠ [] →
        (run.step w.cluster).1.inquiry ≠ none := by
      rw [hread]
      intro hne
      simp only [ReadRun.step, hq]
      exact askHead_ne_none hne _ _
    have hshort : (run.step w.cluster).1.read.ahead.length < run.read.ahead.length := by
      have hpos := List.length_pos_iff.2 hahead
      rw [hread]
      rcases hear_ahead_cases run q.flight.target
        (w.cluster.receive q (.get run.read.key)).1 with hnone | htail
      · rw [hnone]
        exact hpos
      · rw [htail, List.length_tail]
        omega
    obtain ⟨hunder, hle⟩ := ofRead_underway (run.step w.cluster).2 primary client hnext
    exact ⟨⟨_, rfl⟩, hunder, Nat.lt_of_le_of_lt hle hshort⟩
  | answered t x => exact absurd rfl hwake
  | _ => exact ha.elim

/-! ### One call among others -/

/-- There is no repair loop, and all calls but one are answered or change the membership. -/
structure Undisturbed (i : Nat) (w : World) : Prop where
  loops : w.loops = #[]
  others : ∀ j b, j ≠ i → w.activities[j]? = some b →
    (∃ t x, b = .answered t x) ∨ ∃ t op, b = .later t op ∧ op.isChange = true

/-- A call is under way or answered, and all others change the membership at most. -/
structure AmongChanges (i : Nat) (w : World) : Prop extends w.Undisturbed i where
  call : ∃ a, w.activities[i]? = some a ∧ a.Underway

/-- How many events all activities still have at most. -/
def pending (w : World) : Nat := (w.activities.toList.map Activity.pending).sum

/-- An activity that has fewer events ahead makes them fewer in all. -/
theorem sum_set_lt {f : Activity → Nat} {l : List Activity} {b : Activity} (h : l[j]? = some a)
    (hlt : f b < f a) : ((l.set j b).map f).sum < (l.map f).sum := by
  induction l generalizing j with
  | nil => exact nomatch h
  | cons x l ih =>
    cases j with
    | zero =>
      obtain rfl := Option.some.inj h
      simp only [List.set_cons_zero, List.map_cons, List.sum_cons]
      omega
    | succ j =>
      have hrest := ih (j := j) h
      simp only [List.set_cons_succ, List.map_cons, List.sum_cons]
      omega

theorem pending_set_lt {b : Activity} (h : w.activities[j]? = some a)
    (hlt : b.pending < a.pending) :
    (({ w with activities := w.activities.setIfInBounds j b } : World)).pending < w.pending := by
  have h' : w.activities.toList[j]? = some a := by rwa [Array.getElem?_toList]
  show ((w.activities.setIfInBounds j b).toList.map Activity.pending).sum < _
  rw [Array.toList_setIfInBounds]
  exact sum_set_lt h' hlt

/-- What a turn that the clock allows does: the call goes on when it is due, or another one changes
the membership before that. -/
inductive Proceeds (i : Nat) (t : Instant) (w w' : World) : Prop
  | own (a : Activity) (call : w.activities[i]? = some a)
      (wake : a.wake? w.cluster.now #[] = some t)
      (next : w'.activities[i]? = some ((w.advanceTo t).stepActivity a).1)
      (cluster : w'.cluster = ((w.advanceTo t).stepActivity a).2.cluster)
  | other (call : w'.activities[i]? = w.activities[i]?) (passes : w.cluster.Passes w'.cluster)
      (now : w'.cluster.now = max w.cluster.now t)
      (first : ∀ a s, w.activities[i]? = some a → a.wake? w.cluster.now #[] = some s → t ≤ s)

/-- **One turn.** -/
theorem AmongChanges.turn (h : w.AmongChanges i) (hmem : (t, x) ∈ w.turns)
    (hfirst : ∀ e ∈ w.turns, t ≤ e.1) :
    ((w.advanceTo t).go x).AmongChanges i ∧ ((w.advanceTo t).go x).pending < w.pending ∧
      Proceeds i t w ((w.advanceTo t).go x) := by
  obtain ⟨j, rfl⟩ := activity_of_mem_turns h.loops hmem
  obtain ⟨b, hb, hwake⟩ := (mem_turns_activity h.loops).1 hmem
  have hb' : (w.advanceTo t).activities[j]? = some b := hb
  have hbound : j < w.activities.size := (Array.getElem?_eq_some_iff.1 hb).1
  rw [go_activity_some hb']
  by_cases hj : j = i
  · subst hj
    obtain ⟨a, ha, hunder⟩ := h.call
    obtain rfl := Option.some.inj (ha.symm.trans hb)
    have hawake : a.wake? (w.advanceTo t).cluster.now #[] ≠ none := by
      cases a with
      | answered t x => cases hwake
      | write run client => exact Option.some_ne_none _
      | read run primary client => exact Option.some_ne_none _
      | _ => exact hunder.elim
    obtain ⟨⟨c, hc⟩, hunder', hless⟩ := underway_goes (w := w.advanceTo t) hunder hawake
    have hset : (w.activities.setIfInBounds j ((w.advanceTo t).stepActivity a).1)[j]? =
        some ((w.advanceTo t).stepActivity a).1 := by
      rw [Array.getElem?_setIfInBounds, if_pos rfl, if_pos hbound]
    rw [hc]
    refine ⟨⟨⟨h.loops, fun k b' hk hb' => ?_⟩, ⟨_, hset, hunder'⟩⟩, ?_, .own a ha hwake hset ?_⟩
    · refine h.others k b' hk ?_
      simpa only [advanceTo, Array.getElem?_setIfInBounds, if_neg (Ne.symm hk)] using hb'
    · exact pending_set_lt (w := { w.advanceTo t with cluster := c }) hb' hless
    · rw [hc]
  · obtain ⟨s, y, rfl⟩ | ⟨s, op, rfl, hop⟩ := h.others j b hj hb
    · cases hwake
    · have halters := begin_alters (w.advanceTo t) hop
      have hstep : (w.advanceTo t).stepActivity (.later s op) = (w.advanceTo t).begin op := rfl
      obtain ⟨s', y, hanswered⟩ := halters.answered
      have hacts : ((w.advanceTo t).begin op).2.activities = w.activities := halters.activities
      rw [hstep, hanswered, hacts]
      have hcall : (w.activities.setIfInBounds j (.answered s' y))[i]? = w.activities[i]? := by
        rw [Array.getElem?_setIfInBounds, if_neg hj]
      obtain ⟨a, ha, hunder⟩ := h.call
      have hpasses := halters.passes
      refine ⟨⟨⟨halters.loops.trans h.loops, fun k b' hk hb' => ?_⟩, ⟨a, hcall.trans ha, hunder⟩⟩,
        ?_, .other hcall ?_ halters.now fun a s ha hs => ?_⟩
      · simp only [Array.getElem?_setIfInBounds] at hb'
        split at hb'
        · next hkj =>
          exact .inl ⟨s', y, (Option.some.inj hb').symm⟩
        · exact h.others k b' hk hb'
      · exact pending_set_lt (w := w) (b := .answered s' y) hb Nat.zero_lt_one
      · exact ⟨Nat.le_trans (Nat.le_max_left _ _) hpasses.now, hpasses.env, hpasses.options,
          hpasses.houses, hpasses.node⟩
      · exact hfirst (s, .activity i) ((mem_turns_activity h.loops).2 ⟨a, ha, hs⟩)

/-- What the events of a call keep, and changes of the membership meanwhile. -/
structure Kept (I : Cluster → Activity → Prop) : Prop where
  early : ∀ {c a s}, I c a → a.wake? c.now #[] = some s → c.now ≤ s
  meanwhile : ∀ {c c' a}, I c a → c.Passes c' →
    (∀ s, a.wake? c.now #[] = some s → c'.now ≤ s) → I c' a
  goes : ∀ {w : World} {a}, I w.cluster a → a.wake? w.cluster.now #[] = some w.cluster.now →
    I (w.stepActivity a).2.cluster (w.stepActivity a).1

/-- An activity under way waits for the same time whatever the clock says. -/
theorem wake_of_underway (ha : a.Underway) (now now' : Instant) :
    a.wake? now #[] = a.wake? now' #[] := by
  cases a with
  | read run primary client =>
    obtain ⟨q, hq⟩ := Option.ne_none_iff_exists'.1 ha.2
    rw [Activity.wake?, Activity.wake?, hq]
    rfl
  | write run client => rfl
  | answered t x => rfl
  | _ => exact ha.elim

theorem passes_advanceTo (w : World) (t : Instant) : w.cluster.Passes (w.advanceTo t).cluster :=
  ⟨Nat.le_max_left _ _, rfl, rfl, fun _ hx => hx, fun _ _ => rfl⟩

/-- **Runs that the clock allows.** What the events of a call keep is kept, and the turns are no
more than the events ahead. The induction is on the turns. -/
theorem Punctual.keeps {I : Cluster → Activity → Prop} (hI : Kept I) (h : w.AmongChanges i)
    (hturns : w.Punctual turns) (hstart : ∀ a, w.activities[i]? = some a → I w.cluster a) :
    (w.follow turns).AmongChanges i ∧ turns.length + (w.follow turns).pending ≤ w.pending ∧
      ∀ a, (w.follow turns).activities[i]? = some a → I (w.follow turns).cluster a := by
  induction turns generalizing w with
  | nil => exact ⟨h, Nat.le_of_eq (Nat.zero_add _), hstart⟩
  | cons turn turns ih =>
    obtain ⟨t, x⟩ := turn
    obtain ⟨⟨hmem, hfirst⟩, hrest⟩ := hturns
    obtain ⟨hnext, hless, hproceeds⟩ := h.turn hmem hfirst
    have hkept : ∀ b, ((w.advanceTo t).go x).activities[i]? = some b →
        I ((w.advanceTo t).go x).cluster b := by
      intro b hb
      obtain ⟨a₀, ha₀, hunder⟩ := h.call
      cases hproceeds with
      | own a call wake next cluster =>
        obtain rfl := Option.some.inj (ha₀.symm.trans call)
        obtain rfl := Option.some.inj (next.symm.trans hb)
        have hnow : (w.advanceTo t).cluster.now = t :=
          Nat.max_eq_right (hI.early (hstart _ call) wake)
        have hdue : I (w.advanceTo t).cluster a₀ := by
          refine hI.meanwhile (hstart _ call) (passes_advanceTo w t) fun s hs => ?_
          rw [Option.some.inj (hs.symm.trans wake)]
          exact Nat.le_of_eq hnow
        rw [cluster]
        refine hI.goes hdue ?_
        rw [hnow, ← wake_of_underway hunder w.cluster.now, wake]
      | other call passes now first =>
        have hb' : w.activities[i]? = some b := call.symm.trans hb
        refine hI.meanwhile (hstart b hb') passes fun s hs => ?_
        rw [now]
        exact Nat.max_le.2 ⟨hI.early (hstart b hb') hs, first b s hb' hs⟩
    obtain ⟨hamong, hcount, hlast⟩ := ih hnext hrest hkept
    refine ⟨hamong, ?_, hlast⟩
    rw [List.length_cons, Nat.add_right_comm]
    exact Nat.le_trans (Nat.succ_le_succ hcount) hless

/-- **The end of a run.** When nobody has a turn any more, the call is answered. -/
theorem AmongChanges.answered_of_turns (h : w.AmongChanges i) (hnone : w.turns = []) :
    ∃ t x, w.activities[i]? = some (.answered t x) := by
  obtain ⟨a, ha, hunder⟩ := h.call
  have hidle : a.wake? w.cluster.now #[] = none := by
    refine Option.eq_none_iff_forall_ne_some.2 fun s hs => ?_
    have hturn := (mem_turns_activity h.loops).2 ⟨a, ha, hs⟩
    exact absurd (hnone ▸ hturn) List.not_mem_nil
  cases a with
  | answered t x => exact ⟨t, x, ha⟩
  | write run client => exact nomatch hidle
  | read run primary client => exact nomatch hidle
  | _ => exact hunder.elim

/-- When there is no next event, nobody has a turn. -/
theorem turns_eq_nil (hl : w.loops = #[]) (hnone : w.step? = none) : w.turns = [] := by
  cases hturns : w.turns with
  | nil => rfl
  | cons e rest =>
    cases hnext : w.nextTurn? with
    | none =>
      rw [nextTurn?, hturns, List.foldl_cons] at hnext
      exact absurd hnext (foldl_earlier_ne_none _ _)
    | some e =>
      obtain ⟨t, x⟩ := e
      obtain ⟨hmem, -, -⟩ := foldl_earlier hnext
      have hmem := hmem.resolve_left (by simp)
      obtain ⟨j, rfl⟩ := activity_of_mem_turns hl hmem
      obtain ⟨a, ha, -⟩ := (mem_turns_activity hl).1 hmem
      have ha' : (w.advanceTo t).activities[j]? = some a := ha
      simp [step?, hnext, ha'] at hnone

/-- In an idle world nobody has a turn. -/
theorem turns_of_isIdle (hl : w.loops = #[]) (hidle : w.isIdle = true) : w.turns = [] := by
  refine List.eq_nil_iff_forall_not_mem.2 fun e he => ?_
  obtain ⟨j, hj⟩ := activity_of_mem_turns hl he
  obtain ⟨t, x⟩ := e
  obtain rfl : x = .activity j := hj
  obtain ⟨a, ha, hwake⟩ := (mem_turns_activity hl).1 he
  have hanswered : a.isAnswered = true := by
    rw [isIdle, Array.all_eq_true_iff_forall_mem] at hidle
    exact hidle a (Array.mem_of_getElem? ha)
  cases a with
  | answered t x => cases hwake
  | _ => cases hanswered

/-- **The program's own run** is one that the clock allows, and it goes on until nobody has a turn.
The induction is on the events ahead. -/
theorem AmongChanges.drain (h : w.AmongChanges i) :
    ∃ turns, w.Punctual turns ∧ w.drain = w.follow turns ∧ (w.follow turns).turns = [] := by
  induction hn : w.pending using Nat.strong_induction_on generalizing w with
  | _ n ih =>
    rw [drain_eq, proceed]
    cases hidle : w.isIdle with
    | true => exact ⟨[], trivial, rfl, turns_of_isIdle h.loops hidle⟩
    | false =>
      cases hstep : w.step? with
      | none => exact ⟨[], trivial, rfl, turns_eq_nil h.loops hstep⟩
      | some v =>
        obtain ⟨t, x, rfl, ⟨hmem, hfirst⟩, -⟩ := punctual_of_step? hstep
        obtain ⟨hnext, hless, -⟩ := h.turn hmem hfirst
        obtain ⟨turns, hpunctual, hdrain, hend⟩ := ih _ (hn ▸ hless) hnext rfl
        exact ⟨(t, x) :: turns, ⟨⟨hmem, hfirst⟩, hpunctual⟩, hdrain, hend⟩

/-! ### What a call comes to -/

/-- However the clock lets a world go on, a call is answered in the end, and something is true of
its answer and of the cluster from then on. -/
structure Concludes (i : Nat) (w : World) (Q : Answer → Cluster → Prop) : Prop where
  /-- The program's own run goes on until nobody has a turn. -/
  ends : ∃ turns, w.Punctual turns ∧ w.drain = w.follow turns ∧ (w.follow turns).turns = []
  bounded : ∀ turns, w.Punctual turns → turns.length ≤ w.pending
  answered : ∀ turns, w.Punctual turns → (w.follow turns).turns = [] →
    ∃ t x, (w.follow turns).activities[i]? = some (.answered t x)
  result : ∀ turns, w.Punctual turns →
    ∀ t x, (w.follow turns).activities[i]? = some (.answered t x) → Q x (w.follow turns).cluster

theorem Concludes.mono {Q Q' : Answer → Cluster → Prop} (h : w.Concludes i Q)
    (hQ : ∀ x c, Q x c → Q' x c) : w.Concludes i Q' where
  ends := h.ends
  bounded := h.bounded
  answered := h.answered
  result turns hturns t x hx := hQ _ _ (h.result turns hturns t x hx)

/-- **Calls come to their end,** and what their events keep tells what to. -/
theorem AmongChanges.concludes {I : Cluster → Activity → Prop} {Q : Answer → Cluster → Prop}
    (hI : Kept I) (h : w.AmongChanges i) (hstart : ∀ a, w.activities[i]? = some a → I w.cluster a)
    (hQ : ∀ c t x, I c (.answered t x) → Q x c) : w.Concludes i Q where
  ends := h.drain
  bounded turns hturns := by
    have hcount := (hturns.keeps hI h hstart).2.1
    omega
  answered turns hturns hnone :=
    (hturns.keeps hI h hstart).1.answered_of_turns hnone
  result turns hturns t x hx := hQ _ t x ((hturns.keeps hI h hstart).2.2 _ hx)

/-- A call that starts among changes of the membership. -/
theorem Undisturbed.amongChanges {c : Cluster} (h : w.Undisturbed i) (hi : i < w.activities.size)
    (ha : a.Underway) :
    ({ w with
       cluster := c
       activities := w.activities.setIfInBounds i a } : World).AmongChanges i where
  loops := h.loops
  others j b hj hb := by
    refine h.others j b hj ?_
    simpa only [Array.getElem?_setIfInBounds, if_neg (Ne.symm hj)] using hb
  call := ⟨a, by rw [Array.getElem?_setIfInBounds, if_pos rfl, if_pos hi], ha⟩

end World

end Scenario

end ReplicaRing
