import ReplicaRing.Proofs.RingChanges

/-!
# Reachable rings

Any number of callers add and drop nodes, in any order of events and among all other operations. The
ring they share is in order at every time, each of their calls has the outcome that the membership
of that moment calls for, and what was kept of earlier memberships stays as it was.

* `Ring.Joins`, `Ring.Leaves` — the outcomes of adding and of dropping a node;
* `World.Orderly` — a world whose ring is in order, and in which every next call ends as it should;
* `Fair.orderly` — a ring in order makes a world orderly;
* `Fair.follow_still`, `Fair.follow_kept` — memberships that were answered or kept never change;
* `membership_orderly` — all of it for every ring that could be built.
-/

namespace ReplicaRing

open Scenario

/-! ### Outcomes -/

namespace Ring

/-- How a call to add a node ends: the answer, and the ring from then on. -/
inductive Joins (r : Ring) (h : Handle) : Answer → Ring → Prop
  | duplicate (taken : r.membership.contains h.id = true) :
      r.Joins h (.ringError (.duplicateNode h.id)) r
  | added {r' : Ring} (fresh : r.membership.contains h.id = false)
      (becomes : r.Becomes r' (Function.update r.membership.find? h.id (some h))) :
      r.Joins h .done r'

/-- How a call to drop a node ends: the answer, and the ring from then on. -/
inductive Leaves (r : Ring) (id : NodeId) : Answer → Ring → Prop
  | unknown (absent : r.membership.find? id = none) :
      r.Leaves id (.ringError (.unknownNode id)) r
  | tooSmall {h : Handle} (present : r.membership.find? id = some h)
      (tight : r.membership.size = r.options.replicaCount) :
      r.Leaves id (.ringError (.ringTooSmall (r.membership.size - 1) r.options.replicaCount)) r
  | dropped {h : Handle} {r' : Ring} (present : r.membership.find? id = some h)
      (spare : r.membership.size ≠ r.options.replicaCount) (returned : r.drop id = .ok (h, r'))
      (becomes : r.Becomes r' (Function.update r.membership.find? id none)) :
      r.Leaves id (.dropped h.id) r'

end Ring

namespace Scenario.World

variable {w v : World} {t : Instant} {x : Turn} {i : Nat} {turns : List (Instant × Turn)}

/-! ### Calls -/

/-- An activity is answered at once, with an outcome that tells of the ring from then on, and all
nodes that exist stay as they are. -/
structure Replies (w : World) (outcome : Answer → Ring → Prop) (p : Activity × World) : Prop where
  reply : ∃ x, p.1 = .answered w.cluster.now x ∧ outcome x p.2.cluster.ring
  nodes : ∀ h, w.cluster.fleet.Houses h → p.2.cluster.fleet.node h = w.cluster.fleet.node h

theorem addKnown_joins (hr : w.cluster.ring.Proper) (h : Handle) :
    w.Replies (w.cluster.ring.Joins h) (w.addKnown h) := by
  rw [addKnown]
  obtain ⟨htaken, he⟩ | ⟨hfresh, r, hok, hbecomes⟩ := hr.add_cases h
  · rw [he]
    exact ⟨⟨_, rfl, .duplicate htaken⟩, fun _ _ => rfl⟩
  · rw [hok]
    exact ⟨⟨_, rfl, .added hfresh hbecomes⟩, fun _ _ => rfl⟩

theorem addNew_joins (hr : w.cluster.ring.Proper) (n : Node) :
    w.Replies (w.cluster.ring.Joins (w.cluster.fleet.enlist n).1) (w.addNew n) := by
  have hjoins := addKnown_joins
    (w := { w with cluster := { w.cluster with fleet := (w.cluster.fleet.enlist n).2 } }) hr
    (w.cluster.fleet.enlist n).1
  exact ⟨hjoins.reply, fun h hh => (hjoins.nodes h (Fleet.houses_enlist n hh)).trans
    (Fleet.node_enlist n hh)⟩

theorem dropNode_leaves (hr : w.cluster.ring.Proper) (id : NodeId) :
    w.Replies (w.cluster.ring.Leaves id) (w.dropNode id .dropped) := by
  rw [dropNode]
  obtain ⟨habsent, he⟩ | ⟨h, hpresent, htight, he⟩ | ⟨h, r, hpresent, hspare, hok, hbecomes⟩ :=
    hr.drop_cases id
  · rw [he]
    exact ⟨⟨_, rfl, .unknown habsent⟩, fun _ _ => rfl⟩
  · rw [he]
    exact ⟨⟨_, rfl, .tooSmall hpresent htight⟩, fun _ _ => rfl⟩
  · rw [hok]
    exact ⟨⟨_, rfl, .dropped hpresent hspare hok hbecomes⟩, fun _ _ => rfl⟩

/-- A random identity that is not on the ring can always be added. -/
theorem addRandom_joins (hr : w.cluster.ring.Proper) {id : NodeId}
    (hfree : w.cluster.ring.freeId? (w.draws w.drawCount) = some id) :
    w.Replies (fun x r => x = .addedRandom true ∧ w.cluster.ring.Becomes r
      (Function.update w.cluster.ring.membership.find? id
        (some (w.cluster.fleet.enlist { id := id }).1))) w.addRandom := by
  have hnew : w.cluster.ring.membership.contains id = false := by
    simpa using List.find?_some hfree
  obtain ⟨htaken, -⟩ | ⟨-, r, hok, hbecomes⟩ :=
    hr.add_cases (w.cluster.fleet.enlist { id := id }).1
  · exact absurd (htaken.symm.trans hnew) (by decide)
  · have hjoined : r.membership.contains id = true := by
      have hfound := congrFun hbecomes.found id
      rw [Membership.contains, OrderedMap.contains]
      rw [Fleet.enlist, Function.update_self] at hfound
      exact Option.isSome_iff_exists.2 ⟨_, hfound⟩
    simp only [addRandom, hfree, hok]
    exact ⟨⟨_, rfl, by rw [hjoined], hbecomes⟩, fun h hh => Fleet.node_enlist _ hh⟩

/-- Whenever the activity of a call goes on, it is answered as the call ends. -/
def CallEnds (v : World) (i : Nat) (outcome : Answer → Ring → Prop) : Prop :=
  ∀ t, ∃ x, ((v.advanceTo t).go (.activity i)).activities[i]? =
      some (.answered (max v.cluster.now t) x) ∧
    outcome x ((v.advanceTo t).go (.activity i)).cluster.ring ∧
    ∀ h, v.cluster.fleet.Houses h →
      ((v.advanceTo t).go (.activity i)).cluster.fleet.node h = v.cluster.fleet.node h

/-- A call that is answered at once is answered in its turn. -/
theorem Fair.callEnds (hv : v.Fair Operation.never) (hring : v.hasRing = true) {op : Op}
    {outcome : Answer → Ring → Prop} (hi : v.activities[i]? = some (.later t op))
    (h : ∀ t, (v.advanceTo t).Replies outcome ((v.advanceTo t).beginChecked op)) :
    v.CallEnds i outcome := by
  intro t'
  obtain ⟨x, hreply, houtcome⟩ := (h t').reply
  have hlt : i < v.activities.size := (Array.getElem?_eq_some_iff.1 hi).1
  have hcandid : op.Candid Operation.never := Activity.candid_never (.later t op)
  have hbegins := begin_begins (hv.advanceTo t') hcandid
  have hbegin : (v.advanceTo t').begin op = (v.advanceTo t').beginChecked op :=
    begin_of_hasRing (w := v.advanceTo t') hring op
  have hi' : (v.advanceTo t').activities[i]? = some (.later t op) := hi
  rw [go_later hi' hbegin]
  rw [hbegin] at hbegins
  refine ⟨x, ?_, houtcome, (h t').nodes⟩
  rw [hbegins.activities]
  exact (Array.getElem?_setIfInBounds_self_of_lt hlt).trans (congrArg some hreply)

/-! ### Orderly worlds -/

/-- A world whose ring is in order: its nodes ascend by identity, each is entered under its own,
they are never fewer than a key has replicas, and the version counts the changes so far. In such a
world every next call ends as the membership of that moment says. -/
structure Orderly (v : World) (options : RingOptions) (changes : Nat) : Prop where
  ascending : v.cluster.ring.membership.ids.Pairwise (· < ·)
  own : ∀ id h, v.cluster.ring.membership.find? id = some h →
    h.id = id ∧ v.cluster.fleet.Houses h ∧ (v.cluster.fleet.node h).id = id
  options_eq : v.cluster.ring.options = options
  positive : 1 ≤ options.replicaCount
  enough : options.replicaCount ≤ v.cluster.ring.membership.size
  version : v.cluster.ring.membership.version = changes
  placement : ∀ key, (v.cluster.ring.placement key).size = options.replicaCount ∧
    (v.cluster.ring.placement key).ids.Nodup ∧
    ∀ m ∈ (v.cluster.ring.placement key).members, v.cluster.ring.membership.find? m.id = some m
  add : ∀ (i : Nat) t node, v.activities[i]? = some (.later t (.add node)) →
    v.CallEnds i (v.cluster.ring.Joins (v.cluster.fleet.enlist node).1)
  addAgain : ∀ (i : Nat) t id h, v.activities[i]? = some (.later t (.addAgain id)) →
    v.registry.find? id = some h → v.CallEnds i (v.cluster.ring.Joins h)
  addRandom : ∀ (i : Nat) t id, v.activities[i]? = some (.later t .addRandom) →
    v.cluster.ring.freeId? (v.draws v.drawCount) = some id →
    v.CallEnds i fun x r => x = .addedRandom true ∧ v.cluster.ring.Becomes r
      (Function.update v.cluster.ring.membership.find? id
        (some (v.cluster.fleet.enlist { id := id }).1))
  drop : ∀ (i : Nat) t id, v.activities[i]? = some (.later t (.drop id)) →
    v.CallEnds i (v.cluster.ring.Leaves id)
  unchanged : ∀ t x, (v.advanceTo t).change? x = none →
    ((v.advanceTo t).go x).cluster.ring = v.cluster.ring
  snapshot : ∀ (i : Nat) t, v.activities[i]? = some (.later t .snapshot) →
    v.CallEnds i fun x r => x = .members v.cluster.ring.membership ∧ r = v.cluster.ring
  save : ∀ (i : Nat) t name, v.activities[i]? = some (.later t (.save name)) →
    ∀ t', ((v.advanceTo t').go (.activity i)).kept.find? name = some v.cluster.ring.membership

/-- **Orderly worlds.** All that a ring in order needs besides is that its nodes exist. -/
theorem Fair.orderly (hv : v.Fair Operation.never) (hring : v.hasRing = true)
    (hr : v.cluster.ring.Proper) :
    v.Orderly v.cluster.ring.options v.cluster.ring.membership.version where
  ascending := hr.sound.sorted
  own id h hfind := by
    obtain ⟨hmem, rfl⟩ := Membership.mem_of_find? hr.sound hfind
    exact ⟨rfl, hv.linked.houses h hmem, (hv.linked.houses h hmem).node_id⟩
  options_eq := rfl
  positive := hr.valid.1
  enough := hr.enough
  version := rfl
  placement := hr.placement
  add i t node hi := hv.callEnds hring hi fun t' => addNew_joins (w := v.advanceTo t') hr node
  addAgain i t id h hi hfind := hv.callEnds hring hi fun t' => by
    have hfind' : (v.advanceTo t').registry.find? id = some h := hfind
    rw [beginChecked, withNode, hfind']
    exact addKnown_joins (w := v.advanceTo t') hr h
  addRandom i t id hi hfree := hv.callEnds hring hi fun t' =>
    addRandom_joins (w := v.advanceTo t') hr hfree
  drop i t id hi := hv.callEnds hring hi fun t' => dropNode_leaves (w := v.advanceTo t') hr id
  unchanged t x := ((hv.advanceTo t).go_changes x).1
  snapshot i t hi := hv.callEnds hring hi fun t' => ⟨⟨_, rfl, rfl, rfl⟩, fun _ _ => rfl⟩
  save i t name hi t' := by
    have hi' : (v.advanceTo t').activities[i]? = some (.later t (.save name)) := hi
    rw [go_later hi' (begin_of_hasRing (w := v.advanceTo t') hring _)]
    exact (OrderedMap.find?_insert ..).trans (if_pos rfl)

/-! ### Snapshots -/

/-- There is a ring or not as before, and the memberships kept are the same. -/
structure KeepsAside (w w' : World) : Prop where
  hasRing : w'.hasRing = w.hasRing
  kept : w'.kept = w.kept

theorem KeepsAside.refl (w : World) : w.KeepsAside w := ⟨rfl, rfl⟩

/-- An operation breaks off or goes on, and in either case nothing is kept. -/
theorem keepsAside_ite {b : Bool} {p p' : Activity × World} (h : w.KeepsAside p.2)
    (h' : w.KeepsAside p'.2) : w.KeepsAside (if b then p else p').2 := by
  cases b
  · exact h'
  · exact h

/-- Only keeping a membership changes those that are kept. -/
theorem keepsAside_begin (w : World) {op : Op} (hop : ∀ name, op ≠ .save name) :
    w.KeepsAside (w.begin op).2 := by
  have hreply : ∀ x, w.KeepsAside (w.reply x).2 := fun _ => .refl w
  have hnode : ∀ (id : NodeId) {f : Handle → Activity × World}, (∀ h, w.KeepsAside (f h).2) →
      w.KeepsAside (w.withNode id f).2 := fun id _ hf =>
    withNode_elim (P := fun p => w.KeepsAside p.2) hreply id fun h _ => hf h
  have hselection : ∀ (choice : Selection) {f : Placement → Cluster → Activity × World},
      (∀ p c, w.KeepsAside (f p c).2) → w.KeepsAside (w.withSelection choice f).2 :=
    fun choice _ hf =>
      withSelection_elim (P := fun p => w.KeepsAside p.2) hreply choice fun p c _ => hf p c
  cases hchange : op.isChange with
  | true =>
    have halters := w.begin_alters hchange
    exact ⟨halters.hasRing, halters.kept⟩
  | false =>
    rw [begin]
    split
    · cases op with
      | put key value timeout | delete key timeout | get key timeout =>
        exact keepsAside_ite ⟨rfl, rfl⟩ ⟨rfl, rfl⟩
      | add | addAgain | drop | addRandom | dropRandom => cases hchange
      | save name => exact absurd rfl (hop name)
      | placement choice probes => exact hselection choice fun _ _ => ⟨rfl, rfl⟩
      | writeTo choice change key timeout =>
        exact hselection choice fun _ _ => keepsAside_ite ⟨rfl, rfl⟩ ⟨rfl, rfl⟩
      | readFrom choice key timeout =>
        exact hselection choice fun _ _ => keepsAside_ite ⟨rfl, rfl⟩ ⟨rfl, rfl⟩
      | stopRepair =>
        rw [beginChecked, stopRepair]
        cases w.held <;> exact ⟨rfl, rfl⟩
      | _ => first | exact ⟨rfl, rfl⟩ | exact hnode _ fun _ => ⟨rfl, rfl⟩
    · exact .refl w

/-- An activity is not about to keep a membership under a certain name. -/
def SavesElsewhere (name : String) (a : Activity) : Prop := ∀ t, a ≠ .later t (.save name)

theorem SavesElsewhere.lasts (name : String) : Lasts (SavesElsewhere name) := by
  rintro a a' hleads ha t rfl
  exact ha t (hleads.started t _ rfl)

/-- What an activity does to the memberships kept: it keeps at most one more, under its own name. -/
theorem stepActivity_kept (w : World) (a : Activity) :
    (w.stepActivity a).2.hasRing = w.hasRing ∧ ∀ name, SavesElsewhere name a →
      (w.stepActivity a).2.kept.find? name = w.kept.find? name := by
  have haside : w.KeepsAside (w.stepActivity a).2 → (w.stepActivity a).2.hasRing = w.hasRing ∧
      ∀ name, SavesElsewhere name a →
        (w.stepActivity a).2.kept.find? name = w.kept.find? name :=
    fun h => ⟨h.hasRing, fun name _ => by rw [h.kept]⟩
  cases a with
  | later t op =>
    by_cases hsave : ∃ name, op = .save name
    · obtain ⟨name, rfl⟩ := hsave
      rw [stepActivity, begin]
      split
      · refine ⟨rfl, fun name' hname' => ?_⟩
        have hne : name' ≠ name := fun he => hname' t (by rw [he])
        exact (OrderedMap.find?_insert ..).trans (if_neg hne)
      · exact ⟨rfl, fun _ _ => rfl⟩
    · exact haside (keepsAside_begin w fun name he => hsave ⟨name, he⟩)
  | settle stop loop =>
    refine haside ?_
    rw [stepActivity, hold]
    cases w.held <;> exact ⟨rfl, rfl⟩
  | _ => exact haside ⟨rfl, rfl⟩

/-- What a turn does to the memberships kept. -/
theorem go_kept (v : World) (x : Turn) :
    (v.go x).hasRing = v.hasRing ∧ ∀ name,
      (∀ (i : Nat) a, x = .activity i → v.activities[i]? = some a → SavesElsewhere name a) →
      (v.go x).kept.find? name = v.kept.find? name := by
  cases x with
  | activity i =>
    cases hi : v.activities[i]? with
    | none =>
      rw [go_activity_none hi]
      exact ⟨rfl, fun _ _ => rfl⟩
    | some a =>
      obtain ⟨hring, hkept⟩ := v.stepActivity_kept a
      rw [go_activity_some hi]
      exact ⟨hring, fun name hname => hkept name (hname i a rfl hi)⟩
  | loop i =>
    cases hi : v.loops[i]? with
    | none =>
      rw [go_loop_none hi]
      exact ⟨rfl, fun _ _ => rfl⟩
    | some l =>
      rw [go_loop_some hi]
      exact ⟨rfl, fun _ _ => rfl⟩

theorem follow_hasRing (w : World) (turns : List (Instant × Turn)) :
    (w.follow turns).hasRing = w.hasRing := by
  induction turns generalizing w with
  | nil => rfl
  | cons turn turns ih => exact (ih _).trans ((w.advanceTo turn.1).go_kept turn.2).1

/-- **Kept memberships.** A membership stays under its name until another one is kept there. -/
theorem Fair.follow_kept (hw : w.Fair Operation.never) {name : String}
    (hcalls : w.Calls turns (SavesElsewhere name)) :
    (w.follow turns).kept.find? name = w.kept.find? name := by
  refine hw.follow_turned (SavesElsewhere.lasts name) (fun a _ => a.candid_never) hcalls
    (Q := fun past => (w.follow past).kept.find? name = w.kept.find? name) rfl ?_
  rintro past t x v - rfl hkept - hcalled -
  rw [follow_concat]
  exact ((((w.follow past).advanceTo t).go_kept x).2 name hcalled).trans hkept

/-- **Activities at rest.** An activity that has been answered stays as it is, and so does one that
is not called. -/
theorem Fair.follow_still (hw : w.Fair Operation.never) {a : Activity}
    (hi : w.activities[i]? = some a)
    (hstill : a.isAnswered = true ∨ ∀ t, (t, Turn.activity i) ∉ turns) :
    (w.follow turns).activities[i]? = some a := by
  refine hw.follow_any (Q := fun past => (w.follow past).activities[i]? = some a) hi ?_
  rintro past t x v hinit rfl hi - hturned
  have hi' : ((w.follow past).advanceTo t).activities[i]? = some a := hi
  rw [follow_concat]
  by_cases hx : x = .activity i
  · subst hx
    have hcalled : (t, Turn.activity i) ∈ turns :=
      hinit.subset (List.mem_append_right _ (List.mem_singleton_self _))
    have hanswered := hstill.resolve_right fun hnot => hnot t hcalled
    have hlt : i < ((w.follow past).advanceTo t).activities.size :=
      (Array.getElem?_eq_some_iff.1 hi').1
    rw [go_activity_some hi']
    cases a with
    | answered u answer => exact Array.getElem?_setIfInBounds_self_of_lt hlt
    | _ => cases hanswered
  · exact (hturned.activities i hx).trans hi'

/-! ### The invariant -/

/-- The ring of a scenario that could be built is in order, and all nodes that the world refers to
exist. -/
theorem initialWorld_proper {s : ReplicaRing.Scenario} {plan : RingPlan}
    (hplan : s.ring = some plan) (hw : s.initialWorld = .ok w) :
    w.hasRing = true ∧ w.loops = #[] ∧ w.Linked ∧ w.cluster.ring.Proper ∧
      w.cluster.ring.options = plan.options ∧ w.cluster.ring.membership.version = 0 := by
  rw [initialWorld, hplan] at hw
  obtain ⟨handles, hcreate, hring, hloops, hhouses, -, hknown⟩ := ringWorld_ok hw
  obtain ⟨hproper, -, hoptions, hversion⟩ := Ring.proper_of_create hcreate
  obtain ⟨-, -, -, -, -, hperm⟩ := Ring.create_ok hcreate
  exact ⟨hring, hloops, ⟨hproper.sound, fun h hh => hhouses h (hperm.mem_iff.1 hh), hknown⟩,
    hproper, hoptions, hversion⟩

/-- Operations that have not started yet make no world unfair. -/
theorem initialWorld_fair {s : ReplicaRing.Scenario} {plan : RingPlan}
    (hplan : s.ring = some plan) (hw : s.initialWorld = .ok w) {calls : Array Activity}
    (hcalls : ∀ a ∈ calls, ∃ t op, a = .later t op) :
    Fair Operation.never { w with activities := calls } := by
  obtain ⟨-, hloops, hlinked, -⟩ := initialWorld_proper hplan hw
  exact Fresh.fair (w := { w with activities := calls }) ⟨hcalls, hloops⟩
    ⟨hlinked.sound, hlinked.houses, hlinked.known⟩ fun n _ => Faults.candid_never n.faults

/-- **Reachable rings.** Whatever is called, in whatever order and by however many callers, the ring
stays in order, its version counts the calls that have changed it, every next call ends as the
membership of that moment says, and what was answered or kept of a membership never changes. -/
theorem membership_orderly {s : ReplicaRing.Scenario} {plan : RingPlan}
    (hplan : s.ring = some plan) (hw : s.initialWorld = .ok w) {calls : Array Activity}
    (hcalls : ∀ a ∈ calls, ∃ t op, a = .later t op) (past rest : List (Instant × Turn)) :
    let start : World := { w with activities := calls }
    let v := start.follow past
    v.Orderly plan.options (start.trace change? past).length ∧
      (∀ (i : Nat) u answer, v.activities[i]? = some (.answered u answer) →
        (v.follow rest).activities[i]? = some (.answered u answer)) ∧
      ∀ name, v.Calls rest (SavesElsewhere name) →
        (v.follow rest).kept.find? name = v.kept.find? name := by
  intro start v
  obtain ⟨hring, -, -, hproper, hoptions, hversion⟩ := initialWorld_proper hplan hw
  have hstart : start.Fair Operation.never := initialWorld_fair hplan hw hcalls
  obtain ⟨hfair, hproper', -, hoptions', hversion'⟩ := hstart.follow_ring_proper hproper past
  refine ⟨?_, fun i u answer hi => hfair.follow_still hi (.inl rfl),
    fun name hcalled => hfair.follow_kept hcalled⟩
  have horderly := hfair.orderly ((start.follow_hasRing past).trans hring) hproper'
  rwa [hoptions', hoptions, hversion', hversion, Nat.zero_add] at horderly

/-- A membership is kept. Then two nodes join the empty trio under one identity, two calls drop the
same node, and two more drop a node each, when only one can be spared. -/
def callers : Array Activity := #[.later 0 (.save "before"), .later 0 (.add { id := ⟨15⟩ }),
  .later 0 (.add { id := ⟨15⟩ }), .later 0 (.drop ⟨30⟩), .later 0 (.drop ⟨30⟩),
  .later 0 (.drop ⟨10⟩), .later 0 (.drop ⟨20⟩)]

/-- The activities of a list go on in order. -/
def inOrder (calls : List Nat) : List (Instant × Turn) := calls.map fun i => (0, .activity i)

/-- One of each two calls succeeds. The last one comes too late, and the membership that was kept
still has the nodes of the start. -/
theorem membership_orderly_emptyTrio : ∃ w, emptyTrio.initialWorld = .ok w ∧
    (∀ a ∈ callers, ∃ t op, a = .later t op) ∧
    let start : World := { w with activities := callers }
    let v := start.follow (inOrder [0, 1, 2, 3, 4, 5])
    (start.trace change? (inOrder [0, 1, 2, 3, 4, 5])).length = 3 ∧
    v.Orderly { replicaCount := 2 } 3 ∧ v.cluster.ring.membership.ids = [⟨15⟩, ⟨20⟩] ∧
    v.CallEnds 6 (v.cluster.ring.Leaves ⟨20⟩) ∧
    ((v.follow (inOrder [6])).kept.find? "before").map Membership.ids =
      some [⟨10⟩, ⟨20⟩, ⟨30⟩] := by
  have hlater : ∀ a ∈ callers, ∃ t op, a = .later t op := by simp [callers]
  refine ⟨_, rfl, hlater, ?_⟩
  intro start v
  obtain ⟨horderly, -, hkept⟩ := membership_orderly (s := emptyTrio) rfl rfl hlater
    (inOrder [0, 1, 2, 3, 4, 5]) (inOrder [6])
  have hcount : (start.trace change? (inOrder [0, 1, 2, 3, 4, 5])).length = 3 := by
    decide +kernel
  have hthree : v.Orderly { replicaCount := 2 } 3 := by
    rw [← hcount]
    exact horderly
  have hnext : v.activities[6]? = some (.later 0 (.drop ⟨20⟩)) :=
    (initialWorld_fair (s := emptyTrio) rfl rfl hlater).follow_still rfl (.inr (by simp [inOrder]))
  have hbefore : (v.kept.find? "before").map Membership.ids = some [⟨10⟩, ⟨20⟩, ⟨30⟩] := by
    decide +kernel
  have hsaves : v.Calls (inOrder [6]) (SavesElsewhere "before") := by
    rintro i a ⟨t, ht⟩ ha u rfl
    obtain ⟨-, rfl⟩ : t = 0 ∧ i = 6 := by simpa [inOrder] using ht
    exact nomatch Option.some.inj (hnext.symm.trans ha)
  refine ⟨hcount, hthree, by decide +kernel, hthree.drop 6 0 ⟨20⟩ hnext, ?_⟩
  exact (congrArg (Option.map Membership.ids) (hkept "before" hsaves)).trans hbefore

end Scenario.World

end ReplicaRing
