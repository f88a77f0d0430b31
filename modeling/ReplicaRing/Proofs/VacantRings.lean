import Mathlib.Algebra.Ring.Nat
import ReplicaRing.Proofs.Cancellation
import ReplicaRing.Proofs.PlainRuns
import ReplicaRing.Proofs.RingChanges

/-!
# Rings without data

Where the members hold nothing and answer in time, a get finds no value and a sweep has nothing to
copy. Neither of them changes this, so it goes on for any number of both.

* `Cluster.Vacant` — members that hold nothing, each of which answers within a time of its own;
* `next_absent`, `reaches_absent` — a get that runs alone, by the replicas still to be asked;
* `SweepRun.Barren` — a sweep that lists no key, and `Barren.step` — one event of it;
* `Vacant.performs_get`, `Vacant.performs_repair` — what both come to;
* `World.Vacant.finds_nothing` — gets and sweeps one after the other.
-/

namespace ReplicaRing

/-- A node that answers within a limit answers within a longer one. -/
theorem Node.Answering.mono {env : Env} {limit limit' : Nat} {n : Node}
    (h : n.Answering env limit) (hle : limit ≤ limit') : n.Answering env limit' where
  plain := h.plain
  forward := h.forward
  inTime rs r := (h.inTime rs r).trans hle

namespace Cluster

/-- A ring whose members hold nothing, each of which answers within a number of ticks of its own. -/
structure Vacant (timer : Timer) (pace : Handle → Nat) (c : Cluster) : Prop where
  timer : c.env.timer = timer
  proper : c.ring.Proper
  houses : ∀ h ∈ c.ring.membership.handles, c.fleet.Houses h
  answering : ∀ h ∈ c.ring.membership.handles, (c.fleet.node h).Answering c.env (pace h)
  empty : ∀ h ∈ c.ring.membership.handles, (c.fleet.node h).store = .empty

namespace Vacant

variable {timer : Timer} {pace : Handle → Nat} {c c' : Cluster} {h : Handle}

/-- A new clock, log or count does not matter. -/
theorem of_eq (hc : c.Vacant timer pace) (hr : c'.ring = c.ring) (hl : c'.env = c.env)
    (hf : c'.fleet = c.fleet) : c'.Vacant timer pace := by
  obtain ⟨h₁, h₂, h₃, h₄, h₅⟩ := hc
  constructor <;> simpa only [hr, hl, hf]

/-- **A question.** It is carried out within the time of the node, and nothing is there afterwards
either. -/
theorem asks (hc : c.Vacant timer pace) (hh : h ∈ c.ring.membership.handles) (r : Request)
    (expires : Option Instant) :
    ∃ wait ≤ pace h, ∃ c', c'.Vacant timer pace ∧ c'.ring = c.ring ∧ c'.now = c.now ∧
      c.ask h r expires = (⟨⟨h, c.now + wait, .forward⟩, expires⟩, c') := by
  have hhouse := hc.houses h hh
  have hid : ((c.fleet.node h).begin c.env r).2.id = h.id :=
    (Node.begin_id ..).trans hhouse.node_id
  have hverdict : ((c.fleet.node h).begin c.env r).1.verdict = .forward :=
    (hc.answering h hh).forward [] r
  have hasked : (c.ask h r expires).1 =
      ⟨⟨h, c.now + ((c.fleet.node h).fateAfter c.env [] r).wait c.env.timer,
        ((c.fleet.node h).begin c.env r).1.verdict⟩, expires⟩ := rfl
  rw [hverdict] at hasked
  refine ⟨_, (hc.answering h hh).inTime [] r, (c.ask h r expires).2, ?_, rfl, rfl,
    Prod.ext hasked rfl⟩
  refine ⟨hc.timer, hc.proper, fun y hy => Fleet.houses_replace hid hhouse (hc.houses y hy),
    fun y hy => ?_, fun y hy => ?_⟩
  · show ((c.fleet.launch c.env c.now h r).2.node y).Answering c.env (pace y)
    rw [Fleet.node_launch _ _ _ hhouse (hc.houses y hy)]
    split
    · next he =>
      subst he
      exact (hc.answering y hh).begin r
    · exact hc.answering y hy
  · exact (Fleet.store_launch _ c.now _ hhouse (hc.houses y hy)).trans (hc.empty y hy)

/-- A listing has no keys. -/
theorem hears_listing (hc : c.Vacant timer pace) (hh : h ∈ c.ring.membership.handles) {t : Instant}
    {expires : Option Instant}
    (harrives : Inquiry.arrives ⟨⟨h, t, .forward⟩, expires⟩ = true) :
    ∃ c', c'.Vacant timer pace ∧ c'.ring = c.ring ∧
      c.receive ⟨⟨h, t, .forward⟩, expires⟩ .keys = (some (.ok []), c') := by
  obtain ⟨reply, c', hreceive, hreplies, hring, henv, hfleet⟩ :=
    receive_forward (c := c) (r := .keys) harrives rfl rfl (hc.answering h hh).plain
  rw [hc.empty h hh] at hreplies
  obtain rfl : reply = [] := List.perm_nil.1 hreplies
  have hsame : c'.fleet = c.fleet := hfleet.trans (Fleet.replace_node (hc.houses h hh))
  exact ⟨c', hc.of_eq hring henv hsame, hring, hreceive⟩

/-- With time enough for a sweep, nobody fails. -/
theorem steady (hc : c.Vacant timer pace)
    (hprompt : ∀ h ∈ c.ring.membership.handles, pace h ≤ timer.wait c.ring.options.opTimeout) :
    c.Steady ∅ where
  sound := hc.proper.sound
  houses := hc.houses
  sorted h hh := by
    rw [hc.empty h hh]
    exact List.Pairwise.nil
  answering h hh _ := (hc.answering h hh).mono (hc.timer.symm ▸ hprompt h hh)
  failing _ _ hdown := absurd hdown (Finset.notMem_empty _)

end Vacant

end Cluster

/-! ### A sweep -/

namespace SweepRun

variable {timer : Timer} {pace : Handle → Nat} {c : Cluster} {run : SweepRun}

/-- Where a sweep can be as long as it has been told of no key. -/
inductive Lists (r : Ring) : Sweep.Stage → Option Inquiry → Prop
  | between : Lists r .betweenNodes none
  | asks {source : Handle} (member : source ∈ r.membership.handles) :
      Lists r (.waiting (.listing source)) none
  | hears {source : Handle} {t : Instant} {expires : Option Instant}
      (member : source ∈ r.membership.handles)
      (arrives : Inquiry.arrives ⟨⟨source, t, .forward⟩, expires⟩ = true) :
      Lists r (.waiting (.listing source)) (some ⟨⟨source, t, .forward⟩, expires⟩)
  | listed (source : Handle) : Lists r (.betweenKeys source []) none
  | finished : Lists r .finished none

/-- A sweep that has been told of no key. -/
structure Barren (r : Ring) (run : SweepRun) : Prop where
  sources : ∀ h ∈ run.sweep.sources, h ∈ r.membership.handles
  lists : Lists r run.sweep.stage run.inquiry
  copies : run.sweep.report.copies = 0
  failures : run.sweep.report.failures = 0

theorem barren_start (r : Ring) : Barren r ⟨.start r.membership, none⟩ where
  sources _ hh := hh
  lists := .between
  copies := rfl
  failures := rfl

/-- What an event of a sweep keeps where there is nothing. -/
structure Keeps (timer : Timer) (pace : Handle → Nat) (c : Cluster) (cancelled : Bool)
    (p : SweepRun × Cluster) : Prop where
  barren : p.1.Barren c.ring
  vacant : p.2.Vacant timer pace
  ring : p.2.ring = c.ring
  cancels : p.1.sweep.report.cancelled = true → cancelled = true

/-- **One event.** The listing that a sweep asks for has no key. -/
theorem Barren.step (h : run.Barren c.ring) (hc : c.Vacant timer pace)
    (hprompt : ∀ h ∈ c.ring.membership.handles, pace h ≤ timer.wait c.ring.options.opTimeout)
    (told : Bool) :
    Keeps timer pace c (told || run.sweep.report.cancelled) (run.step told c) := by
  obtain ⟨⟨sources, stage, report⟩, inquiry⟩ := run
  obtain ⟨hsources, hlists, hcopies, hfailures⟩ := h
  have hsame : ∀ events, (c.report events).Vacant timer pace := fun _ => hc.of_eq rfl rfl rfl
  have horig : report.cancelled = true → (told || report.cancelled) = true := fun h => by
    rw [h, Bool.or_true]
  cases hlists with
  | between =>
    cases sources with
    | nil => exact ⟨⟨hsources, .finished, hcopies, hfailures⟩, hsame _, rfl, horig⟩
    | cons source rest =>
      cases told with
      | true => exact ⟨⟨hsources, .finished, hcopies, hfailures⟩, hsame _, rfl, fun _ => rfl⟩
      | false =>
        have hmem := hsources source (List.mem_cons_self ..)
        have hon : c.ring.membership.contains source.id = true :=
          (Membership.contains_iff hc.proper.sound).2 ⟨source, hmem, rfl⟩
        have hstep : SweepRun.step ⟨⟨source :: rest, .betweenNodes, report⟩, none⟩ false c =
            (⟨⟨rest, .waiting (.listing source), report⟩, none⟩, c.report []) := by
          simp [SweepRun.step, Sweep.proceed, Sweep.visit, hon]
        rw [hstep]
        exact ⟨⟨fun y hy => hsources y (List.mem_cons_of_mem _ hy), .asks hmem, hcopies, hfailures⟩,
          hsame _, rfl, horig⟩
  | @asks source hmem =>
    obtain ⟨wait, hwait, c', hvacant, hring, hnow, hask⟩ :=
      hc.asks hmem .keys (some (c.after c.ring.options.opTimeout))
    have harrives : Inquiry.arrives ⟨⟨source, c.now + wait, .forward⟩,
        some (c.after c.ring.options.opTimeout)⟩ = true :=
      decide_eq_true (Nat.add_le_add_left (hwait.trans (hc.timer.symm ▸ hprompt source hmem)) _)
    have hstep : SweepRun.step ⟨⟨sources, .waiting (.listing source), report⟩, none⟩ told c =
        (⟨⟨sources, .waiting (.listing source), report⟩, some ⟨⟨source, c.now + wait, .forward⟩,
          some (c.after c.ring.options.opTimeout)⟩⟩, c') := by
      simp only [SweepRun.step, Sweep.Waiting.target, Sweep.Waiting.request, hask]
    rw [hstep]
    exact ⟨⟨hsources, .hears hmem harrives, hcopies, hfailures⟩, hvacant, hring, horig⟩
  | @hears source t expires hmem harrives =>
    obtain ⟨c', hvacant, hring, hreceive⟩ := hc.hears_listing hmem harrives
    have hstep : SweepRun.step ⟨⟨sources, .waiting (.listing source), report⟩,
          some ⟨⟨source, t, .forward⟩, expires⟩⟩ told c =
        (⟨⟨sources, .betweenKeys source [],
          { report with nodesScanned := report.nodesScanned + 1 }⟩, none⟩, c'.report []) := by
      simp only [SweepRun.step, Sweep.Waiting.request, hreceive]
      rfl
    rw [hstep]
    exact ⟨⟨hsources, .listed source, hcopies, hfailures⟩, hvacant.of_eq rfl rfl rfl, hring, horig⟩
  | listed source => exact ⟨⟨hsources, .between, hcopies, hfailures⟩, hsame _, rfl, horig⟩
  | finished => exact ⟨⟨hsources, .finished, hcopies, hfailures⟩, hsame _, rfl, horig⟩

end SweepRun

namespace Cluster.Vacant

variable {timer : Timer} {pace : Handle → Nat} {c : Cluster} {told : Nat → Bool}

/-- **All events.** A sweep is cancelled only if it is told to stop. -/
theorem sweeping (hc : c.Vacant timer pace)
    (hprompt : ∀ h ∈ c.ring.membership.handles, pace h ≤ timer.wait c.ring.options.opTimeout)
    (told : Nat → Bool) (n : Nat) :
    ∃ cancelled, SweepRun.Keeps timer pace c cancelled (c.sweeping told n) ∧
      (cancelled = true → ∃ i, told i = true) := by
  induction n with
  | zero =>
    exact ⟨false, ⟨SweepRun.barren_start c.ring, hc, rfl, fun h => nomatch h⟩, fun h => nomatch h⟩
  | succ n ih =>
    obtain ⟨cancelled, ⟨hbarren, hvacant, hring, hcancels⟩, htold⟩ := ih
    let p := c.sweeping told n
    let c₁ : Cluster := { p.2 with now := max p.2.now (p.1.wake p.2.now) }
    have hring₁ : c₁.ring = c.ring := hring
    have hstep := SweepRun.Barren.step (c := c₁) (hring₁.symm ▸ hbarren)
      (hvacant.of_eq rfl rfl rfl) (hring₁.symm ▸ hprompt) (told n)
    refine ⟨_, ⟨hring₁ ▸ hstep.barren, hstep.vacant, hstep.ring.trans hring₁, hstep.cancels⟩,
      fun h => ?_⟩
    rcases Bool.or_eq_true_iff.1 h with h | h
    · exact ⟨n, h⟩
    · exact htold (hcancels h)

end Cluster.Vacant

/-! ### Operations that run alone -/

namespace Scenario

namespace World

variable {w : World} {timer : Timer} {pace : Handle → Nat}

/-- A ring without data, where no sweeps go on by themselves. -/
structure Vacant (timer : Timer) (pace : Handle → Nat) (w : World) : Prop where
  hasRing : w.hasRing = true
  loops : w.loops = #[]
  cluster : w.cluster.Vacant timer pace

/-- A get of a client that has heard of some replicas that they lack the key, and is about to ask
the next one. -/
def reading (w : World) (c : Cluster) (run : ReadRun) (primary : Option NodeId) (n : Nat)
    (ahead : List Handle) : Activity × World :=
  let q := c.askHead ahead (.get run.read.key) (some run.deadline)
  w.started (Activity.ofRead q.2
    { run with read := ⟨run.read.key, ahead, { answered := n }⟩, inquiry := q.1 } primary true)

/-- **The next replica.** It answers in time that it lacks the key, and the get is about to ask the
one behind it. -/
theorem next_absent (hl : w.loops = #[]) {c : Cluster} (hc : c.Vacant timer pace) (run : ReadRun)
    (primary : Option NodeId) (n : Nat) {h : Handle} (hmem : h ∈ c.ring.membership.handles)
    (htime : c.now + pace h ≤ run.deadline) (ahead : List Handle) :
    ∃ c', c'.Vacant timer pace ∧ c'.ring = c.ring ∧ c'.now ≤ c.now + pace h ∧
      Next (w.reading c run primary n (h :: ahead)) (w.reading c' run primary (n + 1) ahead) := by
  obtain ⟨wait, hwait, c₁, hvacant, hring, hnow, hask⟩ :=
    hc.asks hmem (.get run.read.key) (some run.deadline)
  have hdue : c.now + wait ≤ run.deadline := (Nat.add_le_add_left hwait _).trans htime
  let q : Inquiry := ⟨⟨h, c.now + wait, .forward⟩, some run.deadline⟩
  let asked : ReadRun :=
    { run with read := ⟨run.read.key, h :: ahead, { answered := n }⟩, inquiry := some q }
  have hwake : q.wake = c.now + wait := Nat.min_eq_left hdue
  -- the clock goes on to the answer of the replica
  let c₂ : Cluster := { c₁ with now := max c₁.now q.wake }
  have hclock : c₂.now = c.now + wait := by
    show max c₁.now q.wake = _
    rw [hwake, hnow]
    exact Nat.max_eq_right (Nat.le_add_right _ _)
  have hvacant₂ : c₂.Vacant timer pace := hvacant.of_eq rfl rfl rfl
  have hmem₂ : h ∈ c₂.ring.membership.handles := hring.symm ▸ hmem
  have hnone : c₂.fleet.held h run.read.key = none := by
    rw [Fleet.held, hvacant₂.empty h hmem₂]
    rfl
  have hreceive := receive_get (hvacant₂.houses h hmem₂) hdue run.read.key
  rw [hnone] at hreceive
  refine ⟨c₂.report [], hvacant₂.of_eq rfl rfl rfl, hring,
    hclock.trans_le (Nat.add_le_add_left hwait _), ?_⟩
  have hstart : w.reading c run primary n (h :: ahead) =
      (.read asked primary true, { w with cluster := c₁ }) := by
    simp only [reading, Cluster.askHead, hask]
    rfl
  have hstep : asked.step c₂ =
      (let next := (c₂.report []).askHead ahead (.get run.read.key) (some run.deadline)
       ({ run with
          read := ⟨run.read.key, ahead, { answered := n + 1 }⟩
          inquiry := next.1 }, next.2)) := by
    simp only [ReadRun.step, asked, q, hreceive]
    rfl
  rw [hstart]
  refine ⟨hl, q.wake, rfl, ?_⟩
  show World.started _ (Activity.ofRead (asked.step c₂).2 (asked.step c₂).1 primary true) = _
  rw [hstep]
  rfl

/-- **The replicas ahead.** Each of them answers in time that it lacks the key. The induction is on
the replicas ahead. -/
theorem reaches_absent (hl : w.loops = #[]) {c : Cluster} (hc : c.Vacant timer pace) (run : ReadRun)
    (primary : Option NodeId) {n : Nat} {ahead : List Handle}
    (hahead : ∀ h ∈ ahead, h ∈ c.ring.membership.handles)
    (htime : c.now + (ahead.map pace).sum ≤ run.deadline)
    (hquorum : c.ring.options.readQuorum ≤ n + ahead.length) :
    ∃ t c', c'.Vacant timer pace ∧ c'.ring = c.ring ∧
      Reaches (w.reading c run primary n ahead)
        (.answered t (.value none), { w with cluster := c' }) := by
  induction ahead generalizing c n with
  | nil =>
    have hfound : Found { answered := n } none n := ⟨rfl, rfl, fun _ => rfl⟩
    obtain ⟨c', hring, henv, hfleet, hread⟩ := ofRead_found (c := c)
      (r := { run with read := ⟨run.read.key, [], { answered := n }⟩, inquiry := none })
      rfl hfound hquorum primary
    refine ⟨c'.now, c', hc.of_eq hring henv hfleet, hring, ?_⟩
    rw [reading, Cluster.askHead, hread]
    exact .refl
  | cons h ahead ih =>
    rw [List.map_cons, List.sum_cons, ← Nat.add_assoc] at htime
    rw [List.length_cons, ← Nat.add_assoc, Nat.add_right_comm] at hquorum
    obtain ⟨c₁, hvacant, hring, hnow, hnext⟩ := next_absent hl hc run primary n
      (hahead h (List.mem_cons_self ..)) ((Nat.le_add_right _ _).trans htime) ahead
    obtain ⟨t, c', hlast, hring', hreach⟩ := ih hvacant
      (fun x hx => hring.symm ▸ hahead x (List.mem_cons_of_mem _ hx))
      ((Nat.add_le_add_right hnow _).trans htime) (hring.symm ▸ hquorum)
    exact ⟨t, c', hlast, hring'.trans hring, .head hnext hreach⟩

/-- A get starts with the question to the first replica of its key. -/
theorem begin_reading (hring : w.hasRing = true) (key : String) {timeout : Option Duration}
    (hfits : (w.cluster.ring.options.limit timeout).fits = true) :
    let p := w.cluster.ring.placement key
    let c := (w.cluster.beginOp .get).report [w.cluster.ring.placementEvent key]
    let deadline := c.now + (w.cluster.ring.options.limit timeout).ticks
    w.begin (.get key timeout) =
      w.reading c ⟨.start key p, c.now, deadline, none⟩ (p.primary?.map (·.id)) 0 p.members := by
  intro p c deadline
  have hstart : ReadRun.start c key p (w.cluster.ring.options.limit timeout) =
      (let q := c.askHead p.members (.get key) (some deadline)
       (⟨.start key p, c.now, deadline, q.1⟩, q.2)) := by
    rw [ReadRun.start, Read.start]
    cases p.members <;> rfl
  rw [begin_get hring hfits hstart]
  rfl

/-- **A get finds nothing**, and leaves everything as it was. -/
theorem Vacant.performs_get (hw : w.Vacant timer pace) {key : String} {timeout : Option Duration}
    (hfits : (w.cluster.ring.options.limit timeout).fits = true)
    (htime : ((w.cluster.ring.placement key).members.map pace).sum ≤
      (w.cluster.ring.options.limit timeout).ticks) :
    ∃ w', w'.Vacant timer pace ∧ w'.cluster.ring = w.cluster.ring ∧
      w.Performs (.get key timeout) (.value none) w' := by
  have hproper := hw.cluster.proper
  have hquorum : w.cluster.ring.options.readQuorum ≤
      0 + (w.cluster.ring.placement key).members.length := by
    rw [Nat.zero_add]
    exact hproper.valid.2.2.1.2.trans (hproper.placement key).1.ge
  have hmembers : ∀ h ∈ (w.cluster.ring.placement key).members,
      h ∈ w.cluster.ring.membership.handles := fun h hh => hproper.sound.placement_subset hh
  have hvacant : Cluster.Vacant timer pace
      ((w.cluster.beginOp .get).report [w.cluster.ring.placementEvent key]) :=
    hw.cluster.of_eq rfl rfl rfl
  let deadline := w.cluster.now + (w.cluster.ring.options.limit timeout).ticks
  obtain ⟨t, c', hlast, hring, hreach⟩ := reaches_absent hw.loops hvacant
    ⟨.start key (w.cluster.ring.placement key), w.cluster.now, deadline, none⟩
    ((w.cluster.ring.placement key).primary?.map (·.id)) hmembers
    (Nat.add_le_add_left htime w.cluster.now) hquorum
  have hperforms : w.Performs (.get key timeout) (.value none)
      (settled { w with cluster := c' }) :=
    performs_of_reaches hw.loops (begin_reading hw.hasRing key hfits ▸ hreach)
  exact ⟨settled { w with cluster := c' }, ⟨hw.hasRing, hw.loops, hlast.of_eq rfl rfl rfl⟩, hring,
    hperforms⟩

/-- **A sweep copies nothing**, and leaves everything as it was. No request of it fails, and unless
it is told to stop it is complete. -/
theorem Vacant.performs_repair (hw : w.Vacant timer pace)
    (hprompt : ∀ h ∈ w.cluster.ring.membership.handles,
      pace h ≤ timer.wait w.cluster.ring.options.opTimeout) (cancelAfter : Option Duration) :
    ∃ r told w', w'.Vacant timer pace ∧ w'.cluster.ring = w.cluster.ring ∧
      r.copies = 0 ∧ r.failures = 0 ∧ (cancelAfter = none → r.cancelled = false) ∧
      w.Performs (.repair cancelAfter) (.report r told) w' := by
  obtain ⟨n, -, hperforms⟩ := performs_sweeping hw.hasRing hw.loops (hw.cluster.steady hprompt)
    cancelAfter
  obtain ⟨cancelled, hkeeps, htold⟩ := hw.cluster.sweeping hprompt
    (toldBy (cancelAfter.map w.cluster.after) w.cluster) n
  let sweeping := w.cluster.sweeping (toldBy (cancelAfter.map w.cluster.after) w.cluster) n
  let c' := SweepRun.close sweeping.1.sweep.report sweeping.2
  refine ⟨_, _, settled { w with cluster := c' }, ?_, hkeeps.ring, hkeeps.barren.copies,
    hkeeps.barren.failures, ?_, hperforms⟩
  · exact ⟨hw.hasRing, hw.loops, hkeeps.vacant.of_eq rfl rfl rfl⟩
  rintro rfl
  refine Bool.eq_false_iff.2 fun hcancelled => ?_
  obtain ⟨i, hi⟩ := htold (hkeeps.cancels hcancelled)
  exact nomatch hi

end World

/-! ### Gets and sweeps one after the other -/

/-- A get, or a sweep, for which the nodes of a ring answer in time. -/
def Op.InTime (timer : Timer) (r : Ring) (pace : Handle → Nat) : Op → Prop
  | .get key timeout => (r.options.limit timeout).fits = true ∧
      ((r.placement key).members.map pace).sum ≤ (r.options.limit timeout).ticks
  | .repair _ => ∀ h ∈ r.membership.handles, pace h ≤ timer.wait r.options.opTimeout
  | _ => False

/-- A get finds no value. A sweep copies nothing, no request of it fails, and it is complete unless
it has been told to stop. -/
def Op.FindsNothing : Op → Result → Prop
  | .get _ _, x => x = .one (.value none)
  | .repair cancelAfter, x => ∃ r told, x = .one (.report r told) ∧ r.copies = 0 ∧ r.failures = 0 ∧
      (cancelAfter = none → r.cancelled = false)
  | _, _ => False

namespace World.Vacant

variable {w : World} {timer : Timer} {pace : Handle → Nat} {op : Op} {ops : List Op}

theorem step (hw : w.Vacant timer pace) (hop : op.InTime timer w.cluster.ring pace) :
    op.FindsNothing (w.answerTo op) ∧ (w.performStep (.single op)).2.Vacant timer pace ∧
      (w.performStep (.single op)).2.cluster.ring = w.cluster.ring := by
  cases op with
  | get key timeout =>
    obtain ⟨w', hvacant, hring, hperforms⟩ := hw.performs_get hop.1 hop.2
    exact hperforms.elim (P := fun x v => Op.FindsNothing (.get key timeout) x ∧
      v.Vacant timer pace ∧ v.cluster.ring = w.cluster.ring) ⟨rfl, hvacant, hring⟩
  | repair cancelAfter =>
    obtain ⟨r, told, w', hvacant, hring, hcopies, hfailures, hfull, hperforms⟩ :=
      hw.performs_repair hop cancelAfter
    exact hperforms.elim (P := fun x v => Op.FindsNothing (.repair cancelAfter) x ∧
      v.Vacant timer pace ∧ v.cluster.ring = w.cluster.ring)
      ⟨⟨r, told, rfl, hcopies, hfailures, hfull⟩, hvacant, hring⟩
  | _ => exact False.elim hop

/-- **Nothing is found**, however often and in whatever order keys are read and the ring is
swept. -/
theorem finds_nothing (hw : w.Vacant timer pace)
    (hops : ∀ op ∈ ops, op.InTime timer w.cluster.ring pace) :
    ∀ pre op, pre ++ [op] <+: ops → op.FindsNothing ((w.after pre).answerTo op) := by
  have hkept : ∀ pre, pre <+: ops →
      (w.after pre).Vacant timer pace ∧ (w.after pre).cluster.ring = w.cluster.ring :=
    run_induction (P := fun _ v => v.Vacant timer pace ∧ v.cluster.ring = w.cluster.ring) ⟨hw, rfl⟩
      fun pre op hpre ⟨hvacant, hring⟩ => by
        obtain ⟨-, hvacant', hring'⟩ :=
          hvacant.step (hring.symm ▸ hops op (prefix_of_concat hpre).2)
        exact ⟨hvacant', hring'.trans hring⟩
  intro pre op hpre
  obtain ⟨hvacant, hring⟩ := hkept pre (prefix_of_concat hpre).1
  exact (hvacant.step (hring.symm ▸ hops op (prefix_of_concat hpre).2)).1

end World.Vacant

end Scenario

end ReplicaRing
