import Mathlib.Data.List.Perm.Subperm
import ReplicaRing.Proofs.MetricsFrames
import ReplicaRing.Proofs.RingChanges

/-!
# What client calls count

Three things are measured of each kind of client calls: how many have begun, how many have ended,
and how many of their replicas have failed. A call contributes to the first when it begins and to
the others when it ends, whatever it comes to.

* `CallMeasure`, `Metrics.ofCalls` — what is measured of a kind of calls;
* `Metrics.Books` — metrics that grow by what one call contributes;
* `Write.Fans`, `Write.Fans.misses_add` — every replica of a write is counted once;
* `Activity.reply?` — what a member answers to a client call in time;
* `Activity.Stands`, `Activity.contribution` — a call after some answers, and what it has
  contributed;
* `stepActivity_call` — the next event of a client call.
-/

namespace ReplicaRing

/-! ### Measures -/

/-- The counter of a kind of client calls. -/
def ClientOp.counter : ClientOp → Counter
  | put => .puts
  | get => .gets
  | delete => .deletes

/-- What is measured of a kind of client calls. -/
inductive CallMeasure where
  /-- The counter of the calls. -/
  | begun
  /-- The samples of their latency. -/
  | ended
  /-- The failed replicas. -/
  | failed
  deriving DecidableEq, Repr

namespace Metrics

/-- A measure of a kind of client calls. -/
def ofCalls (m : Metrics) (op : ClientOp) : CallMeasure → UInt64
  | .begun => m.read op.counter
  | .ended => m.samples op.name
  | .failed => m.failures op.name

variable {m m' m'' : Metrics} {op op' : ClientOp}

/-- The labels of the kinds of calls share no measurement. -/
theorem fingerprint_name (op op' : ClientOp) :
    Labelled.fingerprint op'.name = Labelled.fingerprint op.name ↔ op' = op := by
  cases op <;> cases op' <;> decide +kernel

theorem latencies_startTimer (m : Metrics) (kind kind' : String) :
    (m.startTimer kind).latencies kind' =
      if Labelled.fingerprint kind' = Labelled.fingerprint kind then m.latencies kind
      else m.latencies kind' := by
  simp only [startTimer, latencies, Labelled.find?_insert]
  split <;> rfl

/-- Labels of one fingerprint have one measurement. -/
theorem latencies_congr {kind kind' : String}
    (h : Labelled.fingerprint kind' = Labelled.fingerprint kind) (m : Metrics) :
    m.latencies kind' = m.latencies kind := by
  simp only [latencies, Labelled.find?, Labelled.member?, h]

theorem samples_startTimer (m : Metrics) (kind kind' : String) :
    (m.startTimer kind).samples kind' = m.samples kind' := by
  rw [samples, latencies_startTimer, samples]
  split
  · next h => rw [latencies_congr h]
  · rfl

theorem samples_observe (m : Metrics) (op op' : ClientOp) (seconds : Float) :
    (m.observe op.name seconds).samples op'.name =
      m.samples op'.name + if op' = op then 1 else 0 := by
  simp only [observe, samples, latencies, Labelled.find?_insert, fingerprint_name]
  by_cases h : op' = op
  · subst h
    simp only [if_true]
    rfl
  · simp only [if_neg h]
    exact (UInt64.add_zero _).symm

theorem failures_replicaFailed (m : Metrics) (op op' : ClientOp) :
    (m.replicaFailed op.name).failures op'.name =
      m.failures op'.name + if op' = op then 1 else 0 := by
  simp only [replicaFailed, failures, Labelled.find?_insert, fingerprint_name]
  by_cases h : op' = op
  · subst h
    simp only [if_true]
    rfl
  · simp only [if_neg h]
    exact (UInt64.add_zero _).symm

theorem failures_replicasFailed (m : Metrics) (op op' : ClientOp) (misses : Nat) :
    (m.replicasFailed op.name misses).failures op'.name =
      m.failures op'.name + .ofNat (if op' = op then misses else 0) := by
  induction misses generalizing m with
  | zero =>
    rw [ite_self]
    exact (UInt64.add_zero _).symm
  | succ misses ih =>
    rw [replicasFailed, ih, failures_replicaFailed, UInt64.add_assoc]
    congr 1
    split
    · rw [UInt64.ofNat_add, UInt64.add_comm]
      rfl
    · rfl

/-- Failed replicas are all that counting them changes. -/
theorem replicasFailed_rest (m : Metrics) (kind : String) (misses : Nat) :
    (∀ c, (m.replicasFailed kind misses).read c = m.read c) ∧
      (m.replicasFailed kind misses).latency = m.latency := by
  induction misses generalizing m with
  | zero => exact ⟨fun _ => rfl, rfl⟩
  | succ misses ih =>
    obtain ⟨hread, hlatency⟩ := ih (m.replicaFailed kind)
    refine ⟨fun c => (hread c).trans ?_, hlatency⟩
    cases c <;> rfl

theorem ofCalls_swept (h : m.Swept m') (op : ClientOp) (x : CallMeasure) :
    m'.ofCalls op x = m.ofCalls op x := by
  rcases h with rfl | ⟨r, rfl⟩
  · rfl
  · cases hcancelled : r.cancelled
    · simp only [recordSweep, hcancelled, Bool.false_eq_true, if_false]
      cases x <;> cases op <;> rfl
    · simp only [recordSweep, hcancelled, if_true]
      cases x <;> cases op <;> rfl

/-- Metrics that grow by what a call of one kind contributes, which is what it has contributed
afterwards past what it had before. -/
def Books (m m' : Metrics) (op : ClientOp) (before after : CallMeasure → Nat) : Prop :=
  ∀ op' x, ∃ n, m'.ofCalls op' x = m.ofCalls op' x + .ofNat n ∧
    (op' = op → after x = before x + n) ∧ (op' ≠ op → n = 0)

variable {f g h : CallMeasure → Nat}

theorem Books.of_eq (hm : ∀ op x, m'.ofCalls op x = m.ofCalls op x) (hf : f = g) :
    m.Books m' op f g := fun op' x =>
  ⟨0, by rw [hm]; exact (UInt64.add_zero _).symm, fun _ => by rw [hf]; rfl, fun _ => rfl⟩

theorem Books.trans (h₁ : m.Books m' op f g) (h₂ : m'.Books m'' op g h) :
    m.Books m'' op f h := by
  intro op' x
  obtain ⟨n₁, hm₁, hsame₁, hother₁⟩ := h₁ op' x
  obtain ⟨n₂, hm₂, hsame₂, hother₂⟩ := h₂ op' x
  refine ⟨n₁ + n₂, ?_, fun he => ?_, fun hne => ?_⟩
  · rw [hm₂, hm₁, UInt64.ofNat_add, UInt64.add_assoc]
  · rw [hsame₂ he, hsame₁ he, Nat.add_assoc]
  · rw [hother₁ hne, hother₂ hne]

end Metrics

namespace Cluster

/-- What a call has contributed that has begun and not ended yet. -/
def underway : CallMeasure → Nat
  | .begun => 1
  | _ => 0

/-- What a call has contributed that has ended and has missed some replicas. -/
def finished (misses : Nat) : CallMeasure → Nat
  | .failed => misses
  | _ => 1

/-- A call begins. -/
theorem books_beginOp (c : Cluster) (op : ClientOp) :
    c.metrics.Books (c.beginOp op).metrics op (fun _ => 0) underway := by
  intro op' x
  have hzero : ∀ a : UInt64, a = a + .ofNat 0 := fun a => (UInt64.add_zero a).symm
  cases x with
  | begun =>
    refine ⟨if op' = op then 1 else 0, ?_, fun he => ?_, fun hne => if_neg hne⟩
    · cases op <;> cases op' <;> first | rfl | exact hzero _
    · rw [if_pos he]
      rfl
  | ended =>
    refine ⟨0, ?_, fun _ => rfl, fun _ => rfl⟩
    rw [← hzero]
    exact (Metrics.samples_startTimer _ _ _).trans (by cases op <;> rfl)
  | failed =>
    refine ⟨0, ?_, fun _ => rfl, fun _ => rfl⟩
    rw [← hzero]
    cases op <;> rfl

/-- A call ends. -/
theorem books_endOp (c : Cluster) (op : ClientOp) (misses : Nat) (started : Instant) :
    c.metrics.Books (c.endOp op misses started).metrics op underway (finished misses) := by
  intro op' x
  obtain ⟨hread, hlatency⟩ := c.metrics.replicasFailed_rest op.name misses
  cases x with
  | begun =>
    refine ⟨0, ?_, fun _ => rfl, fun _ => rfl⟩
    exact (hread op'.counter).trans (UInt64.add_zero _).symm
  | ended =>
    refine ⟨if op' = op then 1 else 0, ?_, fun he => ?_, fun hne => if_neg hne⟩
    · have hsamples : (c.metrics.replicasFailed op.name misses).samples op'.name =
          c.metrics.samples op'.name := by
        rw [Metrics.samples, Metrics.latencies, hlatency, Metrics.samples, Metrics.latencies]
      refine (Metrics.samples_observe _ op op' _).trans ?_
      rw [hsamples, Metrics.ofCalls]
      split <;> rfl
    · rw [if_pos he]
      rfl
  | failed =>
    refine ⟨if op' = op then misses else 0, ?_, fun he => ?_, fun hne => if_neg hne⟩
    · exact c.metrics.failures_replicasFailed op op' misses
    · rw [if_pos he]
      exact (Nat.zero_add misses).symm

end Cluster

/-! ### Replicas of a write -/

namespace FanOut

/-- The members that have answered. -/
def answered (o : FanOut) : List NodeId := o.acked ++ o.failed.map Prod.fst

/-- One more member has answered. -/
theorem answered_record {α : Type} (o : FanOut) (id : NodeId) (answer : Except NodeError α) :
    (o.record id answer).answered.Perm (id :: o.answered) := by
  cases answer with
  | ok reply =>
    rw [answered, answered, record, List.append_assoc]
    exact List.perm_middle
  | error e =>
    rw [answered, answered, record, List.map_append, ← List.append_assoc]
    exact List.perm_append_singleton id _

theorem members_record {α : Type} (o : FanOut) (id : NodeId) (answer : Except NodeError α) :
    (o.record id answer).members = o.members := by
  cases answer <;> rfl

end FanOut

/-- A write to `size` different members, each of which has answered, is waited for or has been given
up. -/
structure Write.Fans (size : Nat) (run : Write) : Prop where
  size : run.outcome.members.length = size
  distinct : run.outcome.members.Nodup
  asked : (run.outcome.answered ++ run.flights.map (·.target.id)).Subperm run.outcome.members

/-- The requests of a write go to its members, in their order. -/
theorem Write.launchAll_targets (env : Env) (now : Instant) (r : Request) (hs : List Handle)
    (f : Fleet) : (launchAll env now r hs f).1.map Flight.target = hs := by
  induction hs generalizing f with
  | nil => rfl
  | cons h hs ih =>
    rw [launchAll, List.map_cons, ih]
    rfl

namespace Write.Fans

variable {size : Nat} {run : Write}

/-- **Every replica is counted once.** Those that have not acknowledged a write are missed. -/
theorem misses_add (h : run.Fans size) :
    run.outcome.misses + run.outcome.acked.length = size := by
  let answered := run.outcome.answered
  have hsub : answered.Subperm run.outcome.members :=
    (List.sublist_append_left _ _).subperm.trans h.asked
  have hnodup : answered.Nodup := by
    obtain ⟨l, hperm, hl⟩ := hsub
    exact hperm.nodup_iff.1 (h.distinct.sublist hl)
  have htimed : run.outcome.timedOut =
      run.outcome.members.filter fun id => !decide (id ∈ answered) := by
    refine List.filter_congr fun id _ => ?_
    rw [Bool.eq_iff_iff]
    simp only [answered, FanOut.answered, Bool.and_eq_true, Bool.not_eq_true',
      List.contains_eq_mem, decide_eq_false_iff_not, List.any_eq_false, beq_iff_eq,
      List.mem_append, not_or, List.mem_map, not_exists, not_and]
  have hanswered :
      (run.outcome.members.filter fun id => decide (id ∈ answered)).Perm answered := by
    refine (List.perm_ext_iff_of_nodup (h.distinct.filter _) hnodup).2 fun id => ?_
    rw [List.mem_filter, decide_eq_true_eq]
    exact ⟨And.right, fun hid => ⟨hsub.subset hid, hid⟩⟩
  have hsplit := (List.filter_append_perm (fun id => decide (id ∈ answered))
    run.outcome.members).length_eq
  have hlength : answered.length = run.outcome.acked.length + run.outcome.failed.length := by
    show (run.outcome.acked ++ run.outcome.failed.map Prod.fst).length = _
    rw [List.length_append, List.length_map]
  rw [List.length_append, hanswered.length_eq, h.size] at hsplit
  rw [FanOut.misses, htimed]
  omega

/-- A write starts with all of its members still to answer. -/
theorem start (env : Env) (now : Instant) (timeout : Duration) (change : Change) (key : String)
    (p : Placement) (f : Fleet) (hp : p.ids.Nodup) :
    (Write.start env now timeout change key p f).1.Fans p.size where
  size := List.length_map _
  distinct := hp
  asked := by
    have htargets := launchAll_targets env now (change.request key) p.members f
    have hsort : ((Write.start env now timeout change key p f).1.flights.map Flight.target).Perm
        p.members := htargets ▸ (List.mergeSort_perm _ _).map Flight.target
    have hids := (hsort.map Handle.id).subperm
    rwa [List.map_map] at hids

/-- **The next event of a write.** A member answers, or all that are still waited for are given
up. -/
theorem step (h : run.Fans size) (f : Fleet) : (run.step f).1.Fans size := by
  rw [Write.step]
  split
  · exact h
  · next flight flights hflights =>
    have hasked := h.asked
    rw [hflights, List.map_cons] at hasked
    split
    · let answer := (f.conclude flight.target (run.change.request run.key) flight.verdict).1
      have hmembers := run.outcome.members_record flight.target.id answer
      have hperm := (run.outcome.answered_record flight.target.id answer).append_right
        (flights.map (·.target.id))
      refine ⟨hmembers ▸ h.size, hmembers ▸ h.distinct, ?_⟩
      show ((run.outcome.record flight.target.id answer).answered ++
        flights.map (·.target.id)).Subperm (run.outcome.record flight.target.id answer).members
      rw [hmembers]
      exact (hperm.trans List.perm_middle.symm).subperm.trans hasked
    · refine ⟨h.size, h.distinct, ?_⟩
      rw [List.map_nil, List.append_nil]
      exact (List.sublist_append_left _ _).subperm.trans h.asked

end Write.Fans
namespace Scenario

/-! ### Calls -/

namespace Activity

/-- Whether the member that a client call waits for acknowledges it, if it answers in time. -/
def reply? (c : Cluster) : Activity → Option Bool
  | write run true =>
    match run.flights with
    | [] => none
    | flight :: _ =>
      if flight.due ≤ run.deadline then
        some (c.fleet.conclude flight.target (run.change.request run.key) flight.verdict).1.isOk
      else none
  | read run _ true =>
    run.inquiry.bind fun q => (c.receive q (.get run.read.key)).1.map Except.isOk
  | _ => none

/-- Only client calls are listened to. -/
theorem reply?_of_client? {a : Activity} (ha : a.client? = none) (c : Cluster) :
    a.reply? c = none := by
  cases a with
  | write run client =>
    cases client with
    | true => exact absurd ha (Option.some_ne_none _)
    | false => rfl
  | read run primary client =>
    cases client with
    | true => exact absurd ha (Option.some_ne_none _)
    | false => rfl
  | _ => rfl

/-- Whether a call has ended in a timeout. -/
def expired : Activity → Bool
  | answered _ (.ringError (.timeout _ _)) => true
  | _ => false

/-- Whether a call has broken off. -/
def broken : Activity → Bool
  | answered _ (.overflow _) => true
  | _ => false

/-- The failed replicas of a call on a ring with `size` replicas, when `acks` members have
acknowledged it and `errors` members have answered with an error. -/
def cost (op : ClientOp) (size acks errors : Nat) (a : Activity) : Nat :=
  match op with
  | .get => errors + if a.expired then 1 else 0
  | _ => if a.broken then 0 else size - acks

/-- What a call has contributed so far. -/
def contribution (op : ClientOp) (size acks errors : Nat) : Activity → CallMeasure → Nat
  | later _ _ => fun _ => 0
  | answered t x => Cluster.finished (cost op size acks errors (.answered t x))
  | _ => Cluster.underway

/-- A call of one kind on a ring with `size` replicas, when `acks` members have acknowledged it and
`errors` members have answered with an error. -/
inductive Stands (op : ClientOp) (size acks errors : Nat) : Activity → Prop
  | waits {t : Instant} {o : Op} (kind : o.client? = some op) (unheard : acks = 0 ∧ errors = 0) :
    Stands op size acks errors (.later t o)
  | writes {run : Write} (kind : run.change.op = op) (fans : run.Fans size)
    (acked : run.outcome.acked.length = acks) : Stands op size acks errors (.write run true)
  | reads {run : ReadRun} {primary : Option NodeId} (kind : op = .get)
    (failed : run.read.outcome.failed.length = errors) :
    Stands op size acks errors (.read run primary true)
  | ended {t : Instant} {x : Answer} (within : op ≠ .get → acks ≤ size) :
    Stands op size acks errors (.answered t x)

/-- A call that has been answered stands on metrics that have booked what it contributes. -/
structure Booked (op : ClientOp) (size acks errors : Nat) (m : Metrics)
    (before : CallMeasure → Nat) (p : Activity × Cluster) : Prop where
  stands : p.1.Stands op size acks errors
  books : m.Books p.2.metrics op before (p.1.contribution op size acks errors)

/-- A write that ends by itself has not broken off. -/
theorem broken_settle (f : FanOut) (options : RingOptions) (key : String) (t : Instant)
    (elapsed : Duration) :
    (answered t (match f.settle options key elapsed with
      | .ok outcome => Answer.written outcome
      | .error e => .ringError e)).broken = false := by
  cases f.settle options key elapsed <;> rfl

theorem cost_of_not_broken (change : Change) (size acks errors : Nat) {a : Activity}
    (ha : a.broken = false) : cost change.op size acks errors a = size - acks := by
  cases change <;> simp [cost, Change.op, ha]

/-- A call that breaks off has been counted, and its timer stops. -/
theorem breakOff_booked (w : World) (op : ClientOp) (size : Nat) :
    Booked op size 0 0 w.cluster.metrics (fun _ => 0)
      ((w.breakOff op).1, (w.breakOff op).2.cluster) := by
  refine ⟨.ended fun _ => Nat.zero_le _, ?_⟩
  have hnothing : cost op size 0 0 (w.breakOff op).1 = 0 := by cases op <;> rfl
  have hbooks := (Cluster.books_beginOp w.cluster op).trans
    (Cluster.books_endOp (w.cluster.beginOp op) op 0 w.cluster.now)
  exact (congrArg (fun n => Metrics.Books _ _ op _ (Cluster.finished n)) hnothing).mpr hbooks

/-- A client's write ends with what it has missed, or goes on. -/
theorem ofWrite_booked (c : Cluster) {run : Write} {size : Nat} (errors : Nat)
    (h : run.Fans size) :
    Booked run.change.op size run.outcome.acked.length errors c.metrics Cluster.underway
      (ofWrite c run true) := by
  have hmisses := h.misses_add
  rw [ofWrite]
  split
  · refine ⟨.ended fun _ => by omega, ?_⟩
    have hbooks := Cluster.books_endOp (c.report (run.outcome.events run.change.op run.key))
      run.change.op run.outcome.misses run.started
    let c' := (c.report (run.outcome.events run.change.op run.key)).endOp run.change.op
      run.outcome.misses run.started
    have hbroken := broken_settle run.outcome c'.ring.options run.key c'.now
      (.ofMillis (c'.now - run.started))
    have hcost := cost_of_not_broken run.change size run.outcome.acked.length errors hbroken
    have hmissed : size - run.outcome.acked.length = run.outcome.misses := by omega
    simp only [if_true, contribution]
    exact (congrArg (fun n => Metrics.Books _ _ _ _ (Cluster.finished n))
      (hcost.trans hmissed)).mpr hbooks
  · exact ⟨.writes rfl h rfl, .of_eq (fun _ _ => rfl) rfl⟩

/-- A client's read ends in a timeout just if it has found nothing by its deadline. -/
theorem expired_settle (o : ReadOutcome) (options : RingOptions) (key : String) (t : Instant)
    (elapsed : Duration) :
    (answered t (match o.settle options key elapsed with
      | .ok value => Answer.value value
      | .error e => .ringError e)).expired = (o.hit.isNone && o.timedOut) := by
  obtain ⟨hit, count, failed, timedOut⟩ := o
  cases hit with
  | some found => rfl
  | none =>
    cases timedOut with
    | true => rfl
    | false =>
      by_cases hfew : count < options.readQuorum
      · simp [ReadOutcome.settle, hfew, expired]
      · simp [ReadOutcome.settle, hfew, expired]

/-- A client's read ends with the failures that it counts, or goes on. -/
theorem ofRead_booked (c : Cluster) (run : ReadRun) (primary : Option NodeId) (size acks : Nat) :
    Booked .get size acks run.read.outcome.failed.length c.metrics Cluster.underway
      (ofRead c run primary true) := by
  rw [ofRead]
  split
  · refine ⟨.ended fun hne => absurd rfl hne, ?_⟩
    have hbooks := Cluster.books_endOp (c.report (run.read.outcome.events run.read.key primary))
      .get run.read.outcome.misses run.started
    have hexpired := expired_settle run.read.outcome c.ring.options run.read.key c.now
      (.ofMillis (c.now - run.started))
    have hcost := congrArg (fun expired : Bool =>
      Cluster.finished (run.read.outcome.failed.length + if expired then 1 else 0)) hexpired
    exact (congrArg (Metrics.Books _ _ .get Cluster.underway) hcost).mpr hbooks
  · exact ⟨.reads rfl rfl, .of_eq (fun _ _ => rfl) rfl⟩

/-- What a write hears in an event. -/
theorem acked_step (c : Cluster) (run : Write) :
    (run.step c.fleet).1.change = run.change ∧ (run.step c.fleet).1.outcome.acked.length =
      run.outcome.acked.length + if reply? c (.write run true) = some true then 1 else 0 := by
  rw [Write.step]
  split
  · next hflights =>
    refine ⟨rfl, ?_⟩
    rw [reply?, hflights]
    rfl
  · next flight flights hflights =>
    split
    · next hdue =>
      refine ⟨rfl, ?_⟩
      rw [reply?, hflights]
      simp only [if_pos hdue]
      cases (c.fleet.conclude flight.target (run.change.request run.key) flight.verdict).1 with
      | ok reply => exact List.length_append
      | error e => rfl
    · next hdue =>
      refine ⟨rfl, ?_⟩
      rw [reply?, hflights]
      simp only [if_neg hdue]
      rfl

/-- What a read hears in an event. -/
theorem failed_step (c : Cluster) (run : ReadRun) (primary : Option NodeId) :
    (run.step c).1.read.outcome.failed.length = run.read.outcome.failed.length +
      if reply? c (.read run primary true) = some false then 1 else 0 := by
  cases hq : run.inquiry with
  | none =>
    rw [ReadRun.step, reply?, hq]
    rfl
  | some q =>
    rw [ReadRun.step_read hq, reply?, hq, Option.bind_some]
    cases (c.receive q (.get run.read.key)).1 with
    | none => rfl
    | some answer =>
      cases answer with
      | ok found => cases found <;> rfl
      | error e => exact List.length_append

end Activity

namespace World

variable {w : World} {op : ClientOp} {size acks errors : Nat} {a : Activity}

/-- A client's write begins. -/
theorem beginWrite_booked (w : World) (hring : w.cluster.ring.Proper) (change : Change)
    (key : String) (timeout : Option Duration) :
    let p := w.beginWrite change key timeout
    Activity.Booked change.op w.cluster.ring.options.replicaCount 0 0 w.cluster.metrics
      (fun _ => 0) (p.1, p.2.cluster) := by
  simp only [beginWrite]
  split
  · let c := ((w.cluster.beginOp change.op).place key).2
    let q := Write.start c.env c.now (c.ring.options.limit timeout) change key
      (w.cluster.ring.placement key) c.fleet
    obtain ⟨hsize, hnodup, -⟩ := hring.placement key
    have hfans : q.1.Fans w.cluster.ring.options.replicaCount :=
      hsize ▸ Write.Fans.start c.env c.now _ change key _ c.fleet hnodup
    have hbooked := Activity.ofWrite_booked { c with fleet := q.2 } 0 hfans
    exact ⟨hbooked.stands, (Cluster.books_beginOp w.cluster change.op).trans hbooked.books⟩
  · exact Activity.breakOff_booked w change.op _

/-- A client's read begins. -/
theorem beginRead_booked (w : World) (key : String) (timeout : Option Duration) (size : Nat) :
    let p := w.beginRead key timeout
    Activity.Booked .get size 0 0 w.cluster.metrics (fun _ => 0) (p.1, p.2.cluster) := by
  simp only [beginRead]
  split
  · let c := ((w.cluster.beginOp .get).place key).2
    let q := ReadRun.start c key (w.cluster.ring.placement key) (c.ring.options.limit timeout)
    have hbooked := Activity.ofRead_booked q.2 q.1
      ((w.cluster.ring.placement key).primary?.map (·.id)) size 0
    have hmetrics : q.2.metrics = c.metrics := Cluster.metrics_askHead ..
    refine ⟨hbooked.stands, (Cluster.books_beginOp w.cluster .get).trans ?_⟩
    exact hmetrics ▸ hbooked.books
  · exact Activity.breakOff_booked w .get size

/-- **The next event of a client call.** It books what the call contributes, and it hears at most
one member. -/
theorem stepActivity_call (h : a.Stands op size acks errors) (hhas : w.hasRing = true)
    (hring : w.cluster.ring.Proper) (hsize : w.cluster.ring.options.replicaCount = size) :
    let p := w.stepActivity a
    let reply? := a.reply? w.cluster
    Activity.Booked op size (acks + if reply? = some true then 1 else 0)
      (errors + if reply? = some false then 1 else 0) w.cluster.metrics
      (a.contribution op size acks errors) (p.1, p.2.cluster) := by
  cases h with
  | @waits t o kind unheard =>
    obtain ⟨rfl, rfl⟩ := unheard
    subst hsize
    simp only [stepActivity, begin, hhas, Bool.true_or, if_true]
    cases o with
    | put key value timeout =>
      obtain rfl := Option.some.inj kind
      exact w.beginWrite_booked hring (.put value) key timeout
    | delete key timeout =>
      obtain rfl := Option.some.inj kind
      exact w.beginWrite_booked hring .delete key timeout
    | get key timeout =>
      obtain rfl := Option.some.inj kind
      exact w.beginRead_booked key timeout _
    | _ => exact absurd kind.symm (Option.some_ne_none op)
  | @writes run kind fans acked =>
    subst kind acked
    obtain ⟨hchange, hacked⟩ := Activity.acked_step w.cluster run
    let c := { w.cluster with fleet := (run.step w.cluster.fleet).2.1 }.report
      (run.step w.cluster.fleet).2.2
    have hbooked := Activity.ofWrite_booked c (errors + if Activity.reply? w.cluster
      (.write run true) = some false then 1 else 0) (fans.step w.cluster.fleet)
    rw [hchange, hacked] at hbooked
    exact hbooked
  | @reads run primary kind failed =>
    subst kind failed
    have hbooked := Activity.ofRead_booked (run.step w.cluster).2 (run.step w.cluster).1 primary
      size (acks + if Activity.reply? w.cluster (.read run primary true) = some true then 1 else 0)
    rw [Activity.failed_step w.cluster run primary, run.step_metrics w.cluster] at hbooked
    exact hbooked
  | ended within => exact ⟨.ended within, .of_eq (fun _ _ => rfl) rfl⟩

end World

end Scenario
end ReplicaRing
