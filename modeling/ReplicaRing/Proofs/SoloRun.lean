import Mathlib.Tactic.Common
import ReplicaRing.Scenario.Run

/-!
# Operations that run alone

Without a repair loop, an operation that is performed on its own is the only one to go on: its
events follow each other until it is answered.

* `World.alone` — a world in which one activity is all that goes on;
* `begin_alone`, `stepActivity_alone` — an event does not depend on what else goes on;
* `begin_change`, `begin_change_sorted`, `begin_get` — how a client's operation starts, and
  `breaks_change`, `breaks_get` — that it breaks off if the clock cannot tell its deadline;
* `World.Performs` — an operation gives an answer and leaves a world;
* `RunsTo`, `performs_of_runsTo`, `performs_of_answered` — how that is shown.
-/

namespace ReplicaRing.Scenario.World

/-- A world in which one activity is all that goes on. -/
def alone (w : World) (a : Activity) : World := { w with activities := #[a] }

variable {w : World}

/-! ### Events of one activity -/

theorem withNode_alone (a : Activity) (id : NodeId) {f g : Handle → Activity × World}
    (h : ∀ x, f x = ((g x).1, (g x).2.alone a)) :
    (w.alone a).withNode id f = ((w.withNode id g).1, (w.withNode id g).2.alone a) := by
  rw [withNode, withNode, show (w.alone a).registry = w.registry from rfl]
  cases w.registry.find? id with
  | none => rfl
  | some x => exact h x

theorem withSelection_alone (a : Activity) (choice : Selection)
    {f g : Placement → Cluster → Activity × World}
    (h : ∀ p c, f p c = ((g p c).1, (g p c).2.alone a)) :
    (w.alone a).withSelection choice f =
      ((w.withSelection choice g).1, (w.withSelection choice g).2.alone a) := by
  rw [withSelection, withSelection, show (w.alone a).select choice = w.select choice from rfl]
  cases w.select choice with
  | error x => rfl
  | ok q => exact h q.1 q.2

theorem addKnown_alone (w : World) (a : Activity) (h : Handle) :
    (w.alone a).addKnown h = ((w.addKnown h).1, (w.addKnown h).2.alone a) := by
  rw [addKnown, addKnown, show (w.alone a).cluster = w.cluster from rfl]
  cases w.cluster.ring.add h <;> rfl

theorem dropNode_alone (w : World) (a : Activity) (id : NodeId) (x : NodeId → Answer) :
    (w.alone a).dropNode id x = ((w.dropNode id x).1, (w.dropNode id x).2.alone a) := by
  rw [dropNode, dropNode, show (w.alone a).cluster = w.cluster from rfl]
  cases w.cluster.ring.drop id <;> rfl

theorem addRandom_alone (w : World) (a : Activity) :
    (w.alone a).addRandom = (w.addRandom.1, w.addRandom.2.alone a) := by
  rw [addRandom, addRandom, show (w.alone a).cluster = w.cluster from rfl,
    show (w.alone a).drawCount = w.drawCount from rfl,
    show (w.alone a).draws w.drawCount = w.draws w.drawCount from rfl]
  cases w.cluster.ring.freeId? (w.draws w.drawCount) with
  | none => rfl
  | some id =>
    simp only
    cases w.cluster.ring.add (w.cluster.fleet.enlist { id := id }).1 <;> rfl

/-- Nor does a part of a start that depends on whether the clock can tell a time. -/
theorem ite_alone (a : Activity) {b : Bool} {p p' q q' : Activity × World}
    (hp : p = (q.1, q.2.alone a)) (hp' : p' = (q'.1, q'.2.alone a)) :
    (if b then p else p') = ((if b then q else q').1, (if b then q else q').2.alone a) := by
  cases b
  · exact hp'
  · exact hp

/-- How an operation starts does not depend on what else goes on. -/
theorem begin_alone (w : World) (a : Activity) (op : Op) :
    (w.alone a).begin op = ((w.begin op).1, (w.begin op).2.alone a) := by
  rw [begin, begin, show (w.alone a).hasRing = w.hasRing from rfl]
  split
  · cases op with
    | put key value timeout => exact ite_alone a rfl rfl
    | delete key timeout => exact ite_alone a rfl rfl
    | get key timeout => exact ite_alone a rfl rfl
    | add node =>
      let p := w.cluster.fleet.enlist node
      exact addKnown_alone { w with cluster := { w.cluster with fleet := p.2 } } a p.1
    | addAgain id => exact withNode_alone a id fun x => addKnown_alone w a x
    | drop id => exact dropNode_alone w a id _
    | addRandom => exact addRandom_alone w a
    | dropRandom =>
      rw [beginChecked, beginChecked, show (w.alone a).cluster = w.cluster from rfl,
        show (w.alone a).randoms = w.randoms from rfl]
      cases w.randoms.find? w.cluster.ring.membership.contains with
      | none => rfl
      | some id => exact dropNode_alone w a id _
    | placement choice probes => exact withSelection_alone a choice fun _ _ => rfl
    | writeTo choice change key timeout =>
      exact withSelection_alone a choice fun _ _ => ite_alone a rfl rfl
    | readFrom choice key timeout =>
      exact withSelection_alone a choice fun _ _ => ite_alone a rfl rfl
    | nodeId id => exact withNode_alone a id fun _ => rfl
    | ask id request => exact withNode_alone a id fun _ => rfl
    | serve id request => exact withNode_alone a id fun _ => rfl
    | storeSize id => exact withNode_alone a id fun _ => rfl
    | fail id => exact withNode_alone a id fun _ => rfl
    | recover id => exact withNode_alone a id fun _ => rfl
    | isDown id => exact withNode_alone a id fun _ => rfl
    | nodeDebug id => exact withNode_alone a id fun _ => rfl
    | setFailureRate id rate => exact withNode_alone a id fun _ => rfl
    | setLatency id latency => exact withNode_alone a id fun _ => rfl
    | script id rules phantoms => exact withNode_alone a id fun _ => rfl
    | stopRepair =>
      rw [beginChecked, beginChecked, stopRepair, stopRepair,
        show (w.alone a).held = w.held from rfl]
      cases w.held <;> rfl
    | _ => rfl
  · rfl

theorem begin_of_hasRing (h : w.hasRing = true) (op : Op) : w.begin op = w.beginChecked op := by
  rw [begin, h]
  rfl

/-! ### Client operations -/

/-- The operation of a client that makes a change. -/
def changeOp (key : String) (timeout : Option Duration) : Change → Op
  | .put value => .put key value timeout
  | .delete => .delete key timeout

section

variable {key : String} {timeout : Option Duration} {change : Change}

theorem begin_changeOp (hw : w.hasRing = true) :
    w.begin (changeOp key timeout change) = w.beginWrite change key timeout := by
  rw [begin_of_hasRing hw]
  cases change <;> rfl

/-- A change begins with the requests of its write. -/
theorem begin_change (hw : w.hasRing = true)
    (hfits : (w.cluster.ring.options.limit timeout).fits = true) {r : Write} {f : Fleet}
    (hstart : Write.start w.cluster.env w.cluster.now
      (w.cluster.ring.options.limit timeout) change key (w.cluster.ring.placement key)
      w.cluster.fleet = (r, f)) :
    w.begin (changeOp key timeout change) =
      w.started (Activity.ofWrite
        { (w.cluster.beginOp change.op).report [w.cluster.ring.placementEvent key] with
          fleet := f } r true) := by
  let c := (w.cluster.beginOp change.op).report [w.cluster.ring.placementEvent key]
  have hrun := congrArg (fun p => w.started (Activity.ofWrite { c with fleet := p.2 } p.1 true))
    hstart
  exact (begin_changeOp hw).trans ((if_pos hfits).trans hrun)

/-- A write of a client as it starts, if its requests are due in the order of the placement. -/
def writeStarted (w : World) (change : Change) (key : String) (timeout : Option Duration) :
    Activity × World :=
  let p := Write.launchAll w.cluster.env w.cluster.now (change.request key)
    (w.cluster.ring.placement key).members w.cluster.fleet
  (.write
    { change := change
      key := key
      started := w.cluster.now
      deadline := w.cluster.now + (w.cluster.ring.options.limit timeout).ticks
      flights := p.1
      outcome := { members := (w.cluster.ring.placement key).ids } } true,
    { w with
      cluster := { (w.cluster.beginOp change.op).report [w.cluster.ring.placementEvent key] with
        fleet := p.2 } })

theorem begin_change_sorted (change : Change) (hw : w.hasRing = true)
    (hfits : (w.cluster.ring.options.limit timeout).fits = true)
    (hsorted : (Write.launchAll w.cluster.env w.cluster.now (change.request key)
      (w.cluster.ring.placement key).members w.cluster.fleet).1.Pairwise (·.due ≤ ·.due))
    (hne : (Write.launchAll w.cluster.env w.cluster.now (change.request key)
      (w.cluster.ring.placement key).members w.cluster.fleet).1 ≠ []) :
    w.begin (changeOp key timeout change) = w.writeStarted change key timeout := by
  let flights := (Write.launchAll w.cluster.env w.cluster.now (change.request key)
    (w.cluster.ring.placement key).members w.cluster.fleet).1
  have hsort : flights.mergeSort (fun a b => a.due ≤ b.due) = flights :=
    List.mergeSort_of_pairwise (hsorted.imp fun h => decide_eq_true h)
  have hmore : flights.isEmpty = false := List.isEmpty_eq_false_iff.2 hne
  rw [begin_change hw hfits rfl, Activity.ofWrite, Write.isDone,
    show (Write.launchAll _ _ _ _ _).1.mergeSort _ = flights from hsort, hmore]
  rfl

/-- A get begins with the request to the first replica. -/
theorem begin_get (hw : w.hasRing = true)
    (hfits : (w.cluster.ring.options.limit timeout).fits = true) {q : ReadRun × Cluster}
    (hstart : ReadRun.start ((w.cluster.beginOp .get).report [w.cluster.ring.placementEvent key])
      key (w.cluster.ring.placement key) (w.cluster.ring.options.limit timeout) = q) :
    w.begin (.get key timeout) =
      w.started (Activity.ofRead q.2 q.1 ((w.cluster.ring.placement key).primary?.map (·.id))
        true) := by
  have hrun := congrArg (fun p => w.started (Activity.ofRead p.2 p.1
    ((w.cluster.ring.placement key).primary?.map (·.id)) true)) hstart
  exact (begin_of_hasRing hw _).trans ((if_pos hfits).trans hrun)

theorem breaks_change (hw : w.hasRing = true)
    (hfits : ¬ (w.cluster.ring.options.limit timeout).fits = true) :
    w.begin (changeOp key timeout change) = w.breakOff change.op :=
  (begin_changeOp hw).trans (if_neg hfits)

theorem breaks_get (hw : w.hasRing = true)
    (hfits : ¬ (w.cluster.ring.options.limit timeout).fits = true) :
    w.begin (.get key timeout) = w.breakOff .get :=
  (begin_of_hasRing hw _).trans (if_neg hfits)

end

/-- The next event of an activity does not depend on what else goes on. -/
theorem stepActivity_alone (w : World) (a b : Activity) :
    (w.alone b).stepActivity a = ((w.stepActivity a).1, (w.stepActivity a).2.alone b) := by
  cases a with
  | later start op => exact begin_alone w b op
  | write run client => rfl
  | read run primary client => rfl
  | wipe run => rfl
  | ask request q => rfl
  | sweep run cancelAt => rfl
  | pause stop => rfl
  | settle stop loop =>
    simp only [stepActivity, hold, alone, changeLoop, reply]
    split <;> rfl
  | awaitStop loop => rfl
  | answered time a => rfl

/-- The next event of all is the next event of the only activity. -/
theorem step?_alone (hl : w.loops = #[]) {a : Activity} {t : Instant}
    (ha : a.wake? w.cluster.now #[] = some t) :
    (w.alone a).step? =
      some (((w.advanceTo t).stepActivity a).2.alone ((w.advanceTo t).stepActivity a).1) := by
  have hturn : (w.alone a).nextTurn? = some (t, .activity 0) := by
    simp [nextTurn?, turns, alone, hl, ha, earlier]
  have hfirst : ((w.alone a).advanceTo t).activities[0]? = some a := rfl
  simp only [step?, hturn, Option.bind_eq_bind, Option.bind_some, hfirst]
  rw [show (w.alone a).advanceTo t = (w.advanceTo t).alone a from rfl, stepActivity_alone]
  rfl

theorem advanceTo_now (w : World) : w.advanceTo w.cluster.now = w := by
  rw [advanceTo, Nat.max_self]

/-! ### All events of one activity -/

theorem drain_alone (hl : w.loops = #[]) {a : Activity} {t : Instant}
    (ha : a.wake? w.cluster.now #[] = some t) :
    (w.alone a).drain =
      (((w.advanceTo t).stepActivity a).2.alone ((w.advanceTo t).stepActivity a).1).drain := by
  have hidle : (w.alone a).isIdle = false := by
    have hanswered : a.isAnswered = false := by
      cases a with
      | answered time x => exact absurd ha (Option.some_ne_none t).symm
      | _ => rfl
    simp [isIdle, alone, hanswered]
  have hgo : (w.alone a).proceed = .inl
      (((w.advanceTo t).stepActivity a).2.alone ((w.advanceTo t).stepActivity a).1) := by
    rw [proceed, hidle, step?_alone hl ha]
    rfl
  rw [drain_eq, hgo]

theorem drain_answered (w : World) (t : Instant) (x : Answer) :
    (w.alone (.answered t x)).drain = w.alone (.answered t x) := by
  have hidle : (w.alone (.answered t x)).isIdle = true := by
    simp [isIdle, alone, Activity.isAnswered]
  have hstop : (w.alone (.answered t x)).proceed = .inr (w.alone (.answered t x)) := by
    rw [proceed, hidle, if_pos rfl]
  rw [drain_eq, hstop]

/-! ### Operations -/

/-- A world after a step: nothing goes on, and the log has been taken. -/
def settled (w : World) : World :=
  { w with activities := #[], cluster := { w.cluster with log := #[] } }

/-- An operation that is performed on its own gives an answer and leaves a world. -/
structure Performs (w : World) (op : Op) (x : Answer) (w' : World) : Prop where
  result : (w.performStep (.single op)).1.result = .one x
  world : (w.performStep (.single op)).2 = w'

/-- An operation is performed when its activity has been answered. -/
theorem performs_of_drain (hl : w.loops = #[]) {op : Op} {a : Activity} {w₁ w₂ : World}
    {t : Instant} {x : Answer} (hbegin : w.begin op = (a, w₁))
    (hdrain : (w₁.alone a).drain = w₂.alone (.answered t x)) : w.Performs op x w₂.settled := by
  have hfirst : (w.alone (.later w.cluster.now op)).drain = w₂.alone (.answered t x) := by
    rw [drain_alone hl rfl, advanceTo_now, stepActivity, hbegin, hdrain]
  have hperform : w.perform [.later w.cluster.now op] =
      ([.answered t x], { w₂ with activities := #[] }) := by
    rw [perform, show ({ w with activities := _ } : World) = w.alone (.later w.cluster.now op)
      from rfl, hfirst]
    rfl
  constructor <;> rw [performStep, Step.activities, hperform] <;> rfl

/-- An activity that goes on alone comes to an answer by its next events. -/
inductive RunsTo (x : Answer) : Activity × World → Prop
  | answered (t : Instant) (w : World) : RunsTo x (.answered t x, w)
  | event {w : World} {a : Activity} {t : Instant} (loops : w.loops = #[])
      (wake : a.wake? w.cluster.now #[] = some t)
      (rest : RunsTo x ((w.advanceTo t).stepActivity a)) : RunsTo x (a, w)

/-- An operation is performed once its activity has run to an answer. -/
theorem performs_of_runsTo (hl : w.loops = #[]) {op : Op} {s : Activity × World} {x : Answer}
    (hbegin : w.begin op = s) (hruns : RunsTo x s) : ∃ w', w.Performs op x w' := by
  have hdrain : ∃ (t : Instant) (w₂ : World), (s.2.alone s.1).drain = w₂.alone (.answered t x) := by
    clear hbegin
    induction hruns with
    | answered t w₁ => exact ⟨t, w₁, drain_answered w₁ t x⟩
    | event loops wake rest ih => exact (drain_alone loops wake).symm ▸ ih
  obtain ⟨t, w₂, hdrain⟩ := hdrain
  exact ⟨_, performs_of_drain hl hbegin hdrain⟩

/-- An operation that is answered at once. -/
theorem performs_of_answered (hl : w.loops = #[]) {op : Op} {w' : World} {t : Instant}
    {x : Answer} (hbegin : w.begin op = (.answered t x, w')) : w.Performs op x w'.settled :=
  performs_of_drain hl hbegin (drain_answered w' t x)

end ReplicaRing.Scenario.World
