import ReplicaRing.Proofs.PlainWorld
import ReplicaRing.Proofs.SwitchNodes
import ReplicaRing.Proofs.Turns

/-!
# Client operations in lockstep

Two fleets of nodes that are up or down, in a relation that requests of certain kinds keep and
cannot tell apart. Then a write, a read or a wipe of these requests goes through the same states
over both of them, and it takes no time.

* `Fleet.Lockstep` — such a relation;
* `lockstep_keyImage`, `lockstep_keepsColumn` — two fleets that look alike under a key, for
  requests about it, and one fleet whose column under a key stands still, for requests about others;
* `Cluster.InStep` — clusters with related fleets, one ring and one time;
* `Activity.Within` — an activity whose requests are of these kinds and due by now;
* `Activity.Agrees` — one activity over two clusters;
* `begin_agrees`, `step_agrees` — operations of clients start and go on in lockstep.
-/

namespace ReplicaRing

variable {ok : Request → Prop} {F : Fleet → Fleet → Prop}

/-! ### Relations between fleets -/

namespace Fleet

/-- Requests of certain kinds keep a relation between fleets, and the answers do not tell which of
two related fleets it is. -/
structure Lockstep (ok : Request → Prop) (F : Fleet → Fleet → Prop) : Prop where
  left : ∀ f f', F f f' → f.Switches
  right : ∀ f f', F f f' → f'.Switches
  frame : ∀ f f', F f f' → f.frame = f'.frame
  conclude : ∀ f f' h r v, F f f' → ok r →
    (f.conclude h r v).1 = (f'.conclude h r v).1 ∧
      F (f.conclude h r v).2.1 (f'.conclude h r v).2.1
  unlisted : ¬ ok .keys

/-- Two fleets look alike under a key, the second one holds nothing else, and the first one has kept
its frame. -/
structure KeyImage (k : String) (f₀ f f' : Fleet) : Prop where
  left : f.Switches
  right : f'.Switches
  frame : f.frame = f₀.frame
  alike : f.Alike k f'
  narrow : f'.Narrow k

/-- Fleets that look alike under a key are in lockstep for requests about it. -/
theorem lockstep_keyImage (k : String) (f₀ : Fleet) :
    Lockstep (Request.Concerns k) (KeyImage k f₀) where
  left _ _ h := h.left
  right _ _ h := h.right
  frame _ _ h := h.alike.frame
  conclude f f' x r v h hr := by
    obtain ⟨hanswer, halike⟩ := conclude_eq_of_alike h.alike hr x v
    exact ⟨hanswer, h.left.conclude x r v, h.right.conclude x r v,
      (f.frame_conclude x r v).trans h.frame, halike, h.narrow.conclude hr x v⟩
  unlisted h := h

/-- A fleet is what it was, but for the data under other keys. -/
structure KeepsColumn (k : String) (f₀ f f' : Fleet) : Prop where
  same : f = f'
  switches : f.Switches
  alike : f₀.Alike k f

/-- A fleet is in lockstep with itself for requests about other keys, and its column under the key
stands still. -/
theorem lockstep_keepsColumn (k : String) (f₀ : Fleet) :
    Lockstep (Request.Elsewhere k) (KeepsColumn k f₀) where
  left _ _ h := h.switches
  right _ _ h := h.same ▸ h.switches
  frame _ _ h := congrArg frame h.same
  conclude f f' x r v h hr := by
    obtain ⟨rfl, hswitches, halike⟩ := h
    refine ⟨rfl, rfl, hswitches.conclude x r v, ?_, ?_⟩
    · rw [frame_conclude, halike.frame]
    · rw [column_conclude_of_spared hr.effect, halike.column]
  unlisted h := h

/-- Writes to related fleets start with the same requests, all of them due at once. -/
theorem launchAll_switch {f : Fleet} (hf : f.Switches) (env : Env) (now : Instant) (r : Request)
    (hs : List Handle) :
    Write.launchAll env now r hs f = (hs.map fun h => ⟨h, now, (f.node h).verdict⟩, f) := by
  induction hs with
  | nil => rfl
  | cons h hs ih =>
    rw [Write.launchAll, launch_switch hf]
    simp only [ih, List.map_cons]

end Fleet

/-! ### Clusters -/

/-- Clusters with related fleets have the same ring at the same time, and their timers agree. -/
structure Cluster.InStep (F : Fleet → Fleet → Prop) (r₀ : Ring) (env₀ : Env) (t₀ : Instant)
    (c c' : Cluster) : Prop where
  ring : c.ring = r₀
  ring' : c'.ring = r₀
  now : c.now = t₀
  now' : c'.now = t₀
  env : c.env = env₀
  env' : c'.env = env₀
  fleet : F c.fleet c'.fleet

namespace Cluster.InStep

variable {r₀ : Ring} {env : Env} {now : Instant} {c c' : Cluster}

theorem report (h : InStep F r₀ env now c c') (events events' : List LogEvent) :
    InStep F r₀ env now (c.report events) (c'.report events') :=
  ⟨h.ring, h.ring', h.now, h.now', h.env, h.env', h.fleet⟩

theorem beginOp (h : InStep F r₀ env now c c') (op : ClientOp) :
    InStep F r₀ env now (c.beginOp op) (c'.beginOp op) :=
  ⟨h.ring, h.ring', h.now, h.now', h.env, h.env', h.fleet⟩

theorem endOp (h : InStep F r₀ env now c c') (op : ClientOp) (misses : Nat) (started : Instant) :
    InStep F r₀ env now (c.endOp op misses started) (c'.endOp op misses started) :=
  ⟨h.ring, h.ring', h.now, h.now', h.env, h.env', h.fleet⟩

/-- Related nodes get the same request, and it is due at once. -/
theorem ask (hF : Fleet.Lockstep ok F) (h : InStep F r₀ env now c c') (x : Handle) (r : Request)
    (expires : Option Instant) :
    ∃ q : Inquiry, q.flight.due = now ∧ c.ask x r expires = (q, c) ∧
      c'.ask x r expires = (q, c') := by
  refine ⟨⟨⟨x, now, (c.fleet.node x).verdict⟩, expires⟩, rfl, ?_, ?_⟩
  · rw [Cluster.ask, Fleet.launch_switch (hF.left _ _ h.fleet), ← h.now]
  · rw [Cluster.ask, Fleet.launch_switch (hF.right _ _ h.fleet), ← h.now',
      Fleet.verdict_of_frame (hF.frame _ _ h.fleet)]

theorem askHead (hF : Fleet.Lockstep ok F) (h : InStep F r₀ env now c c') (ahead : List Handle)
    (r : Request) (expires : Option Instant) :
    ∃ q? : Option Inquiry, (∀ q, q? = some q → q.flight.due = now) ∧
      c.askHead ahead r expires = (q?, c) ∧ c'.askHead ahead r expires = (q?, c') := by
  cases ahead with
  | nil => exact ⟨none, fun q hq => absurd hq.symm (Option.some_ne_none q), rfl, rfl⟩
  | cons x ahead =>
    obtain ⟨q, hdue, hask, hask'⟩ := h.ask hF x r expires
    refine ⟨some q, fun q' hq' => ?_, ?_, ?_⟩
    · obtain rfl := Option.some.inj hq'
      exact hdue
    · rw [Cluster.askHead, hask]
    · rw [Cluster.askHead, hask']

/-- Related nodes give the same answer. -/
theorem receive (hF : Fleet.Lockstep ok F) (h : InStep F r₀ env now c c') {r : Request} (hr : ok r)
    (q : Inquiry) :
    (c.receive q r).1 = (c'.receive q r).1 ∧
      InStep F r₀ env now (c.receive q r).2 (c'.receive q r).2 := by
  cases harr : q.arrives with
  | false =>
    rw [receive_of_not_arrives harr, receive_of_not_arrives harr]
    exact ⟨rfl, h⟩
  | true =>
    obtain ⟨hanswer, hfleet⟩ :=
      hF.conclude _ _ q.flight.target r q.flight.verdict h.fleet hr
    have harrange : ∀ (c : Cluster) (answer : r.Answer), c.arrange r answer = (answer, c) := by
      intro c answer
      cases r with
      | keys => exact absurd hr hF.unlisted
      | set key value => rfl
      | get key => rfl
      | delete key => rfl
      | clear => rfl
    rw [receive_of_arrives harr, receive_of_arrives harr]
    simp only [harrange]
    exact ⟨congrArg some hanswer, ⟨h.ring, h.ring', h.now, h.now', h.env, h.env', hfleet⟩⟩

end Cluster.InStep

/-! ### Activities -/

namespace Scenario

/-- What an operation of a client asks of the nodes. -/
def Op.asks? : Op → Option Request
  | .put key value _ => some (.set key value)
  | .delete key _ => some (.delete key)
  | .get key _ => some (.get key)
  | .clear => some .clear
  | _ => none

/-- An activity asks only requests of certain kinds, and those in flight are due by now. -/
def Activity.Within (ok : Request → Prop) (now : Instant) : Activity → Prop
  | write run _ => ok run.request ∧ run.started ≤ now ∧ ∀ q ∈ run.flights, q.due ≤ now
  | read run _ _ => ok (.get run.read.key) ∧ ∀ q, run.inquiry = some q → q.flight.due ≤ now
  | wipe run => ok .clear ∧ ∀ q, run.inquiry = some q → q.flight.due ≤ now
  | answered _ _ => True
  | _ => False

variable {r₀ : Ring} {env : Env} {now : Instant} {c c' : Cluster}

theorem wake_le_of_due {q : Inquiry} (h : q.flight.due ≤ now) : q.wake ≤ now := by
  rw [Inquiry.wake]
  split
  · exact Nat.le_trans (Nat.min_le_left _ _) h
  · exact h

/-- Such an activity takes no time. -/
theorem Activity.Within.wake_le {a : Activity} (h : a.Within ok now) {t : Instant}
    (ht : a.wake? now #[] = some t) : t ≤ now := by
  have helim : ∀ q? : Option Inquiry, (∀ q, q? = some q → q.flight.due ≤ now) →
      q?.elim now Inquiry.wake ≤ now := by
    intro q? hdue
    cases q? with
    | none => exact Nat.le_refl _
    | some q => exact wake_le_of_due (hdue q rfl)
  cases a with
  | write run client =>
    obtain rfl := Option.some.inj ht
    obtain ⟨-, hstarted, hdue⟩ := h
    rw [Write.wake]
    split
    · exact hstarted
    · next q flights hflights =>
      exact Nat.le_trans (Nat.min_le_left _ _) (hdue q (hflights ▸ List.mem_cons_self ..))
  | read run primary client =>
    obtain rfl := Option.some.inj ht
    exact helim _ h.2
  | wipe run =>
    obtain rfl := Option.some.inj ht
    exact helim _ h.2
  | answered s x => exact absurd ht.symm (Option.some_ne_none t)
  | _ => exact h.elim

/-- One activity over two clusters that are in step. -/
structure Activity.Agrees (ok : Request → Prop) (F : Fleet → Fleet → Prop) (r₀ : Ring)
    (env : Env) (now : Instant) (p p' : Activity × Cluster) : Prop where
  same : p.1 = p'.1
  within : p.1.Within ok now
  inStep : Cluster.InStep F r₀ env now p.2 p'.2

theorem ofWrite_agrees (h : Cluster.InStep F r₀ env now c c') {run : Write} (client : Bool)
    (hrun : Activity.Within ok now (.write run client)) :
    Activity.Agrees ok F r₀ env now (Activity.ofWrite c run client)
      (Activity.ofWrite c' run client) := by
  rw [Activity.ofWrite, Activity.ofWrite]
  split
  · split
    · have hended := (h.report (run.outcome.events run.change.op run.key)
        (run.outcome.events run.change.op run.key)).endOp run.change.op run.outcome.misses
        run.started
      simp only [Activity.now, hended.ring, hended.ring', hended.now, hended.now']
      exact ⟨rfl, trivial, hended⟩
    · simp only [Activity.now, h.now, h.now']
      exact ⟨rfl, trivial, h⟩
  · exact ⟨rfl, hrun, h⟩

theorem ofRead_agrees (h : Cluster.InStep F r₀ env now c c') {run : ReadRun}
    (primary : Option NodeId) (client : Bool)
    (hrun : Activity.Within ok now (.read run primary client)) :
    Activity.Agrees ok F r₀ env now (Activity.ofRead c run primary client)
      (Activity.ofRead c' run primary client) := by
  rw [Activity.ofRead, Activity.ofRead]
  split
  · split
    · have hended := (h.report (run.read.outcome.events run.read.key primary)
        (run.read.outcome.events run.read.key primary)).endOp .get run.read.outcome.misses
        run.started
      simp only [Activity.now, hended.ring, hended.ring', hended.now, hended.now']
      exact ⟨rfl, trivial, hended⟩
    · simp only [Activity.now, h.now, h.now']
      exact ⟨rfl, trivial, h⟩
  · exact ⟨rfl, hrun, h⟩

theorem ofWipe_agrees (h : Cluster.InStep F r₀ env now c c') {run : WipeRun}
    (hrun : Activity.Within ok now (.wipe run)) :
    Activity.Agrees ok F r₀ env now (Activity.ofWipe c run) (Activity.ofWipe c' run) := by
  rw [Activity.ofWipe, Activity.ofWipe]
  split
  · split
    · simp only [Activity.now, h.now, h.now']
      exact ⟨rfl, trivial, h⟩
    · simp only [Activity.now, h.now, h.now']
      exact ⟨rfl, trivial, h⟩
  · exact ⟨rfl, hrun, h⟩

/-! ### Events -/

/-- An event of a write. -/
theorem write_step_agrees (hF : Fleet.Lockstep ok F) (h : Cluster.InStep F r₀ env now c c')
    {run : Write} {client : Bool} (hrun : Activity.Within ok now (.write run client)) :
    (run.step c.fleet).1 = (run.step c'.fleet).1 ∧
      Activity.Within ok now (.write (run.step c.fleet).1 client) ∧
      F (run.step c.fleet).2.1 (run.step c'.fleet).2.1 := by
  obtain ⟨hok, hstarted, hdue⟩ := hrun
  cases hflights : run.flights with
  | nil =>
    simp only [Write.step, hflights]
    exact ⟨trivial, ⟨hok, hstarted, hdue⟩, h.fleet⟩
  | cons q flights =>
    rw [hflights] at hdue
    by_cases hlate : q.due ≤ run.deadline
    · obtain ⟨hanswer, hfleet⟩ := hF.conclude _ _ q.target run.request q.verdict h.fleet hok
      rw [Write.request] at hanswer hfleet
      simp only [Write.step, hflights, hlate, if_true, hanswer]
      exact ⟨trivial, ⟨hok, hstarted, fun q' hq' => hdue q' (List.mem_cons_of_mem _ hq')⟩, hfleet⟩
    · simp only [Write.step, hflights, hlate, if_false]
      exact ⟨trivial, ⟨hok, hstarted, fun q' hq' => absurd hq' List.not_mem_nil⟩, h.fleet⟩

/-- An event of a read. -/
theorem read_step_agrees (hF : Fleet.Lockstep ok F) (h : Cluster.InStep F r₀ env now c c')
    {run : ReadRun} {primary : Option NodeId} {client : Bool}
    (hrun : Activity.Within ok now (.read run primary client)) :
    (run.step c).1 = (run.step c').1 ∧
      Activity.Within ok now (.read (run.step c).1 primary client) ∧
      Cluster.InStep F r₀ env now (run.step c).2 (run.step c').2 := by
  obtain ⟨hok, hdue⟩ := hrun
  cases hq : run.inquiry with
  | none =>
    simp only [ReadRun.step, hq]
    exact ⟨trivial, ⟨hok, hdue⟩, h⟩
  | some q =>
    obtain ⟨hanswer, hreceived⟩ := h.receive hF hok q
    let read := run.hear q.flight.target (c.receive q (.get run.read.key)).1
    obtain ⟨q?, hdue', hask, hask'⟩ :=
      hreceived.askHead hF read.ahead (.get read.key) (some run.deadline)
    have hstep : run.step c =
        ({ run with read := read, inquiry := q? }, (c.receive q (.get run.read.key)).2) := by
      simp only [ReadRun.step, hq]
      exact congrArg (fun p : Option Inquiry × Cluster =>
        (({ run with read := read, inquiry := p.1 } : ReadRun), p.2)) hask
    have hstep' : run.step c' =
        ({ run with read := read, inquiry := q? }, (c'.receive q (.get run.read.key)).2) := by
      simp only [ReadRun.step, hq, ← hanswer]
      exact congrArg (fun p : Option Inquiry × Cluster =>
        (({ run with read := read, inquiry := p.1 } : ReadRun), p.2)) hask'
    rw [hstep, hstep']
    refine ⟨rfl, ⟨?_, fun q' hq' => Nat.le_of_eq (hdue' q' hq')⟩, hreceived⟩
    rw [ReadRun.hear_key]
    exact hok

/-- An event of a wipe. -/
theorem wipe_step_agrees (hF : Fleet.Lockstep ok F) (h : Cluster.InStep F r₀ env now c c')
    {run : WipeRun} (hrun : Activity.Within ok now (.wipe run)) :
    (run.step c).1 = (run.step c').1 ∧ Activity.Within ok now (.wipe (run.step c).1) ∧
      Cluster.InStep F r₀ env now (run.step c).2 (run.step c').2 := by
  obtain ⟨hok, hdue⟩ := hrun
  cases hq : run.inquiry with
  | none =>
    simp only [WipeRun.step, hq]
    exact ⟨trivial, ⟨hok, hdue⟩, h⟩
  | some q =>
    obtain ⟨hanswer, hreceived⟩ := h.receive hF hok q
    let heard := run.wipe.answered q.flight.target
      ((c.receive q .clear).1.getD (.error (.timeout q.flight.target.id)))
    have hreported := hreceived.report heard.2 heard.2
    obtain ⟨q?, hdue', hask, hask'⟩ := hreported.askHead hF heard.1.ahead .clear none
    have hstep : run.step c = (⟨heard.1, q?⟩, (c.receive q .clear).2.report heard.2) := by
      simp only [WipeRun.step, hq]
      exact congrArg (fun p : Option Inquiry × Cluster => ((⟨heard.1, p.1⟩ : WipeRun), p.2)) hask
    have hstep' : run.step c' = (⟨heard.1, q?⟩, (c'.receive q .clear).2.report heard.2) := by
      simp only [WipeRun.step, hq, ← hanswer]
      exact congrArg (fun p : Option Inquiry × Cluster => ((⟨heard.1, p.1⟩ : WipeRun), p.2)) hask'
    rw [hstep, hstep']
    exact ⟨rfl, ⟨hok, fun q' hq' => Nat.le_of_eq (hdue' q' hq')⟩, hreported⟩

namespace World

variable {w w' : World}

/-- **Events.** Operations of clients go on in lockstep. -/
theorem step_agrees (hF : Fleet.Lockstep ok F)
    (h : Cluster.InStep F r₀ env now w.cluster w'.cluster) {a : Activity} (ha : a.Within ok now) :
    ∃ p p', w.stepActivity a = w.started p ∧ w'.stepActivity a = w'.started p' ∧
      Activity.Agrees ok F r₀ env now p p' := by
  cases a with
  | write run client =>
    let next := fun v : World => Activity.ofWrite
      (Cluster.report { v.cluster with fleet := (run.step v.cluster.fleet).2.1 }
        (run.step v.cluster.fleet).2.2) (run.step v.cluster.fleet).1 client
    obtain ⟨hsame, hwithin, hfleet⟩ := write_step_agrees hF h ha
    have hstepped : Cluster.InStep F r₀ env now
        { w.cluster with fleet := (run.step w.cluster.fleet).2.1 }
        { w'.cluster with fleet := (run.step w'.cluster.fleet).2.1 } :=
      ⟨h.ring, h.ring', h.now, h.now', h.env, h.env', hfleet⟩
    refine ⟨next w, next w', rfl, rfl, ?_⟩
    simp only [next]
    rw [← hsame]
    exact ofWrite_agrees (hstepped.report _ _) client hwithin
  | read run primary client =>
    let next := fun v : World =>
      Activity.ofRead (run.step v.cluster).2 (run.step v.cluster).1 primary client
    obtain ⟨hsame, hwithin, hstepped⟩ := read_step_agrees hF h ha
    refine ⟨next w, next w', rfl, rfl, ?_⟩
    simp only [next]
    rw [← hsame]
    exact ofRead_agrees hstepped primary client hwithin
  | wipe run =>
    let next := fun v : World => Activity.ofWipe (run.step v.cluster).2 (run.step v.cluster).1
    obtain ⟨hsame, hwithin, hstepped⟩ := wipe_step_agrees hF h ha
    refine ⟨next w, next w', rfl, rfl, ?_⟩
    simp only [next]
    rw [← hsame]
    exact ofWipe_agrees hstepped hwithin
  | answered t x =>
    exact ⟨(.answered t x, w.cluster), (.answered t x, w'.cluster), rfl, rfl, ⟨rfl, trivial, h⟩⟩
  | _ => exact ha.elim

/-! ### Starts -/

/-- A read begins with the question to its first replica. -/
theorem begin_read (hw : w.hasRing = true) {key : String} {timeout : Option Duration}
    (hfits : (w.cluster.ring.options.limit timeout).fits = true)
    {q? : Option Inquiry} {c : Cluster}
    (hask : ((w.cluster.beginOp .get).report [w.cluster.ring.placementEvent key]).askHead
      (w.cluster.ring.placement key).members (.get key)
      (some (w.cluster.now + (w.cluster.ring.options.limit timeout).ticks)) = (q?, c)) :
    w.begin (.get key timeout) =
      w.started (Activity.ofRead c
        ⟨.start key (w.cluster.ring.placement key), c.now,
          w.cluster.now + (w.cluster.ring.options.limit timeout).ticks, q?⟩
        ((w.cluster.ring.placement key).primary?.map (·.id)) true) :=
  begin_get hw hfits (congrArg (fun p : Option Inquiry × Cluster => ((
    ⟨.start key (w.cluster.ring.placement key), p.2.now,
      w.cluster.now + (w.cluster.ring.options.limit timeout).ticks, p.1⟩ : ReadRun), p.2)) hask)

/-- A wipe begins with the question to its first node. -/
theorem begin_wipe (hw : w.hasRing = true) {q? : Option Inquiry} {c : Cluster}
    (hask : w.cluster.askHead (Wipe.start w.cluster.ring.membership).ahead .clear none = (q?, c)) :
    w.begin .clear =
      w.started (Activity.ofWipe c ⟨.start w.cluster.ring.membership, q?⟩) := by
  rw [begin_of_hasRing hw]
  exact congrArg (fun p : Option Inquiry × Cluster =>
    w.started (Activity.ofWipe p.2 ⟨.start w.cluster.ring.membership, p.1⟩)) hask

section Starts

variable (hF : Fleet.Lockstep ok F) (h : Cluster.InStep F r₀ env now w.cluster w'.cluster)
  (hw : w.hasRing = true) (hw' : w'.hasRing = true)

include h in
/-- An operation of a client breaks off in lockstep. -/
theorem breakOff_agrees (op : ClientOp) :
    ∃ p p', w.breakOff op = w.started p ∧ w'.breakOff op = w'.started p' ∧
      Activity.Agrees ok F r₀ env now p p' := by
  obtain rfl := h.now
  have hends : ∀ v : World, v.cluster.now = w.cluster.now → v.breakOff op = v.started
      (.answered w.cluster.now (.overflow .deadline),
        (v.cluster.beginOp op).endOp op 0 w.cluster.now) := by
    intro v hnow
    rw [← hnow]
    rfl
  exact ⟨_, _, hends w rfl, hends w' h.now', rfl, trivial,
    (h.beginOp op).endOp op 0 w.cluster.now⟩

include hF h hw hw'

/-- A change starts in lockstep. -/
theorem begin_change_agrees (change : Change) {key : String} (hok : ok (change.request key))
    (timeout : Option Duration) :
    ∃ p p', w.begin (changeOp key timeout change) = w.started p ∧
      w'.begin (changeOp key timeout change) = w'.started p' ∧
      Activity.Agrees ok F r₀ env now p p' := by
  by_cases hfits : (r₀.options.limit timeout).fits = true
  · let flights : List Flight := (r₀.placement key).members.map fun x =>
      ⟨x, now, (w.cluster.fleet.node x).verdict⟩
    let run : Write :=
      { change := change
        key := key
        started := now
        deadline := now + (r₀.options.limit timeout).ticks
        flights := flights.mergeSort fun a b => a.due ≤ b.due
        outcome := { members := (r₀.placement key).ids } }
    have hrun : Activity.Within ok now (.write run true) := by
      refine ⟨hok, Nat.le_refl _, fun q hq => ?_⟩
      obtain ⟨x, -, rfl⟩ := List.mem_map.1 ((List.mergeSort_perm _ _).mem_iff.1 hq)
      exact Nat.le_refl _
    have hstart : ∀ v : World, v.cluster.ring = r₀ → v.cluster.now = now →
        v.cluster.fleet.Switches → w.cluster.fleet.frame = v.cluster.fleet.frame →
        Write.start v.cluster.env v.cluster.now (v.cluster.ring.options.limit timeout)
          change key (v.cluster.ring.placement key) v.cluster.fleet = (run, v.cluster.fleet) := by
      intro v hring hnow hswitches hframe
      have hverdicts : ∀ x, (v.cluster.fleet.node x).verdict = (w.cluster.fleet.node x).verdict :=
        fun x => (Fleet.verdict_of_frame hframe x).symm
      rw [Write.start, Fleet.launchAll_switch hswitches, hring, hnow]
      simp only [hverdicts, run, flights]
    exact ⟨_, _,
      begin_change hw (h.ring ▸ hfits) (hstart w h.ring h.now (hF.left _ _ h.fleet) rfl),
      begin_change hw' (h.ring' ▸ hfits)
        (hstart w' h.ring' h.now' (hF.right _ _ h.fleet) (hF.frame _ _ h.fleet)),
      ofWrite_agrees ((h.beginOp change.op).report _ _) true hrun⟩
  · rw [breaks_change hw (h.ring ▸ hfits), breaks_change hw' (h.ring' ▸ hfits)]
    exact breakOff_agrees h change.op

/-- A read starts in lockstep. -/
theorem begin_read_agrees {key : String} (hok : ok (.get key)) (timeout : Option Duration) :
    ∃ p p', w.begin (.get key timeout) = w.started p ∧
      w'.begin (.get key timeout) = w'.started p' ∧ Activity.Agrees ok F r₀ env now p p' := by
  by_cases hfits : (r₀.options.limit timeout).fits = true
  · obtain rfl := h.ring
    obtain rfl := h.now
    have hplaced := (h.beginOp .get).report [w.cluster.ring.placementEvent key]
      [w.cluster.ring.placementEvent key]
    obtain ⟨q?, hdue, hask, hask'⟩ := hplaced.askHead hF (w.cluster.ring.placement key).members
      (.get key) (some (w.cluster.now + (w.cluster.ring.options.limit timeout).ticks))
    have hsecond : w'.begin (.get key timeout) = w'.started (Activity.ofRead
        ((w'.cluster.beginOp .get).report [w.cluster.ring.placementEvent key])
        ⟨.start key (w.cluster.ring.placement key), w.cluster.now,
          w.cluster.now + (w.cluster.ring.options.limit timeout).ticks, q?⟩
        ((w.cluster.ring.placement key).primary?.map (·.id)) true) := by
      rw [← h.ring', ← h.now'] at hask' ⊢
      exact begin_read hw' (h.ring' ▸ hfits) hask'
    exact ⟨_, _, begin_read hw hfits hask, hsecond,
      ofRead_agrees hplaced _ true ⟨hok, fun q hq => Nat.le_of_eq (hdue q hq)⟩⟩
  · rw [breaks_get hw (h.ring ▸ hfits), breaks_get hw' (h.ring' ▸ hfits)]
    exact breakOff_agrees h .get

/-- A wipe starts in lockstep. -/
theorem begin_wipe_agrees (hok : ok .clear) :
    ∃ p p', w.begin .clear = w.started p ∧ w'.begin .clear = w'.started p' ∧
      Activity.Agrees ok F r₀ env now p p' := by
  obtain rfl := h.ring
  obtain ⟨q?, hdue, hask, hask'⟩ := h.askHead hF (Wipe.start w.cluster.ring.membership).ahead
    .clear none
  have hsecond : w'.begin .clear = w'.started (Activity.ofWipe w'.cluster
      ⟨.start w.cluster.ring.membership, q?⟩) := by
    rw [← h.ring'] at hask' ⊢
    exact begin_wipe hw' hask'
  exact ⟨_, _, begin_wipe hw hask, hsecond,
    ofWipe_agrees h ⟨hok, fun q hq => Nat.le_of_eq (hdue q hq)⟩⟩

/-- **Starts.** Operations of clients start in lockstep. -/
theorem begin_agrees {op : Op} {r : Request} (hop : op.asks? = some r) (hok : ok r) :
    ∃ p p', w.begin op = w.started p ∧ w'.begin op = w'.started p' ∧
      Activity.Agrees ok F r₀ env now p p' := by
  cases op with
  | put key value timeout =>
    obtain rfl := Option.some.inj hop
    exact begin_change_agrees hF h hw hw' (.put value) hok timeout
  | delete key timeout =>
    obtain rfl := Option.some.inj hop
    exact begin_change_agrees hF h hw hw' .delete hok timeout
  | get key timeout =>
    obtain rfl := Option.some.inj hop
    exact begin_read_agrees hF h hw hw' hok timeout
  | clear =>
    obtain rfl := Option.some.inj hop
    exact begin_wipe_agrees hF h hw hw' hok
  | _ => exact absurd hop.symm (Option.some_ne_none r)

end Starts

end World

end Scenario

end ReplicaRing
