import ReplicaRing.Proofs.Lockstep
import ReplicaRing.Proofs.RingChanges

/-!
# Worlds seen through one key

A world whose stores hold one key only looks like the world it was taken from, as far as this key
goes, and so do both after an operation that changes the membership or switches a node.

* `Store.only`, `Fleet.only`, `World.only` — what remains if only one key is kept;
* `Op.only` — what remains of an operation: the gets, puts and deletes of other keys are dropped;
* `World.Alike` — worlds that look alike under a key, the second of which holds nothing else;
* `Op.OnSwitches` — the operations of such runs, on nodes that are up or down;
* `Alike.begin_instant` — what looks alike still does after an operation that is answered at once.
-/

namespace ReplicaRing

variable {k : String}

/-! ### What remains of the data -/

theorem OrderedMap.findIn?_only {α : Type} (k key : String) (es : List (String × α)) :
    findIn? key (es.filter fun e => e.1 = k) = if key = k then findIn? key es else none := by
  induction es with
  | nil => simp [findIn?]
  | cons e es ih =>
    by_cases he : e.1 = k
    · rw [List.filter_cons_of_pos (by simpa using he), findIn?, findIn?, ih]
      by_cases hkey : key = k
      · rw [if_pos hkey, if_pos hkey]
      · have hne : e.1 ≠ key := fun h => hkey (h.symm.trans he)
        rw [if_neg hkey, if_neg hkey, if_neg hne]
    · rw [List.filter_cons_of_neg (by simpa using he), ih, findIn?]
      by_cases hkey : key = k
      · have hne : e.1 ≠ key := fun h => he (h.trans hkey)
        rw [if_pos hkey, if_pos hkey, if_neg hne]
      · rw [if_neg hkey, if_neg hkey]

/-- The entry of a key alone. -/
def Store.only (k : String) (s : Store) : Store := ⟨s.entries.filter fun e => e.1 = k⟩

theorem Store.find?_only (k key : String) (s : Store) :
    (s.only k).find? key = if key = k then s.find? key else none :=
  OrderedMap.findIn?_only k key s.entries

theorem Store.sorted_only (k : String) {s : Store} (hs : s.Sorted) : (s.only k).Sorted := by
  have hsub : (s.only k).keys.Sublist s.keys := List.filter_sublist.map Prod.fst
  exact hs.sublist hsub

/-- A node with the entry of a key alone. -/
def Node.only (k : String) (n : Node) : Node := { n with store := n.store.only k }

theorem Node.IsSwitch.only {n : Node} (h : n.IsSwitch) (k : String) : (n.only k).IsSwitch :=
  h.withStore (Store.sorted_only k h.sorted)

namespace Fleet

variable {f f' : Fleet} {n n' : Node}

/-- All nodes with the entry of a key alone. -/
def only (k : String) (f : Fleet) : Fleet := ⟨f.nodes.map (Node.only k)⟩

theorem Switches.only (hf : f.Switches) (k : String) : (f.only k).Switches := by
  intro n hn
  obtain ⟨m, hm, rfl⟩ := Array.mem_map.1 hn
  exact (hf m hm).only k

theorem alike_only (k : String) (f : Fleet) : f.Alike k (f.only k) where
  frame := by
    rw [frame, frame, only, Array.map_map]
    rfl
  column := by
    rw [column, column, only, Array.map_map]
    refine congrArg (f.nodes.map ·) (funext fun n => ?_)
    exact ((Store.find?_only k k n.store).trans (if_pos rfl)).symm

theorem narrow_only (k : String) (f : Fleet) : (f.only k).Narrow k := by
  intro n hn key hkey
  obtain ⟨n, -, rfl⟩ := Array.mem_map.1 hn
  by_contra hne
  exact hkey ((Store.find?_only k key n.store).trans (if_neg hne))

/-- A node joins two fleets. -/
theorem Alike.push (h : f.Alike k f') (hid : n.id = n'.id) (hfaults : n.faults = n'.faults)
    (hheld : n.store.find? k = n'.store.find? k) :
    (f.enlist n).2.Alike k (f'.enlist n').2 where
  frame := by rw [frame_push, frame_push, h.frame, hid, hfaults]
  column := by rw [column_push, column_push, h.column, hheld]

theorem Narrow.push (hf : f.Narrow k) (hn : ∀ key, n.store.find? key ≠ none → key = k) :
    (f.enlist n).2.Narrow k := by
  intro n' hn'
  rcases Array.mem_push.1 hn' with hn' | rfl
  · exact hf n' hn'
  · exact hn

/-- The switch of a node is thrown in two fleets. -/
theorem Alike.mapInjection (h : f.Alike k f') (x : Handle) (change : Injection → Injection) :
    (f.update x (Node.mapInjection change)).Alike k
      (f'.update x (Node.mapInjection change)) := by
  have hid : ∀ n : Node, (n.mapInjection change).id = n.id :=
    fun n => (Scenario.World.mapInjection_same change n).1
  have hstore : ∀ n : Node, (n.mapInjection change).store = n.store :=
    fun n => (Scenario.World.mapInjection_same change n).2
  constructor
  · rw [update, update, frame_replace, frame_replace, h.frame, hid, hid,
      node_id_of_frame h.frame x, Node.mapInjection_faults (node_faults_of_frame h.frame x)]
  · rw [update, update, column_replace, column_replace, h.column, hstore, hstore]
    exact congrArg _ (h.held x)

theorem Narrow.mapInjection (hf : f.Narrow k) (x : Handle) (change : Injection → Injection) :
    (f.update x (Node.mapInjection change)).Narrow k := by
  intro n hn key hkey
  rcases mem_replace hn with rfl | hn
  · rw [(Scenario.World.mapInjection_same change _).2] at hkey
    exact hf.node x hkey
  · exact hf n hn key hkey

end Fleet

namespace Scenario

/-! ### Operations -/

/-- What remains of an operation if only one key is of interest. -/
def Op.only (k : String) : Op → Option Op
  | .put key value timeout => if key = k then some (.put key value timeout) else none
  | .delete key timeout => if key = k then some (.delete key timeout) else none
  | .get key timeout => if key = k then some (.get key timeout) else none
  | .add n => some (.add (n.only k))
  | op => some op

/-- An operation on a ring of nodes that are up or down. A sweep that could be cancelled is not told
to stop at once. -/
def Op.OnSwitches : Op → Prop
  | .add n => n.IsSwitch
  | .repair cancelAfter => ∀ d, cancelAfter = some d → 0 < d.nanos
  | .put _ _ _ | .get _ _ | .delete _ _ | .clear | .addAgain _ | .addRandom | .drop _ | .dropRandom
  | .fail _ | .recover _ => True
  | _ => False

/-- Whether an operation is a sweep. -/
def Op.isSweep : Op → Bool
  | .repair _ => true
  | _ => false

/-- Whether an operation is answered at once: a change of membership, or of a switch. -/
def Op.isInstant : Op → Bool
  | .add _ | .addAgain _ | .addRandom | .drop _ | .dropRandom | .fail _ | .recover _ => true
  | _ => false

/-- An operation on switches is answered at once, or it is one of a client, or a sweep. -/
theorem Op.OnSwitches.cases {op : Op} (h : op.OnSwitches) :
    op.isInstant = true ∧ op.isSweep = false ∨
      (∃ r, op.asks? = some r ∧ op.isSweep = false) ∨
      ∃ cancelAfter, op = .repair cancelAfter := by
  cases op with
  | put _ _ _ | delete _ _ | get _ _ | clear => exact .inr (.inl ⟨_, rfl, rfl⟩)
  | repair cancelAfter => exact .inr (.inr ⟨_, rfl⟩)
  | add _ | addAgain _ | addRandom | drop _ | dropRandom | fail _ | recover _ =>
    exact .inl ⟨rfl, rfl⟩
  | _ => exact h.elim

/-- What is kept of the operations of clients: those that concern the key. -/
theorem Op.only_of_asks {op op' : Op} {r : Request} (hr : op.asks? = some r)
    (hk : op.only k = some op') : op' = op ∧ r.Concerns k := by
  cases op with
  | put key value timeout =>
    obtain rfl := Option.some.inj hr
    obtain ⟨hkey, he⟩ := Option.ite_none_right_eq_some.1 hk
    exact ⟨(Option.some.inj he).symm, hkey⟩
  | delete key timeout =>
    obtain rfl := Option.some.inj hr
    obtain ⟨hkey, he⟩ := Option.ite_none_right_eq_some.1 hk
    exact ⟨(Option.some.inj he).symm, hkey⟩
  | get key timeout =>
    obtain rfl := Option.some.inj hr
    obtain ⟨hkey, he⟩ := Option.ite_none_right_eq_some.1 hk
    exact ⟨(Option.some.inj he).symm, hkey⟩
  | clear =>
    obtain rfl := Option.some.inj hr
    exact ⟨(Option.some.inj hk).symm, trivial⟩
  | _ => exact absurd hr.symm (Option.some_ne_none r)

/-- Only operations of clients are left out, and they avoid the key. -/
theorem Op.asks_of_left_out {op : Op} (hk : op.only k = none) :
    ∃ r, op.asks? = some r ∧ r.Elsewhere k := by
  have hother : ∀ {key : String} {op : Op}, (if key = k then some op else none) = none →
      key ≠ k := by
    intro key op hnone hkey
    rw [if_pos hkey] at hnone
    exact Option.some_ne_none op hnone
  cases op with
  | put key value timeout => exact ⟨_, rfl, hother hk⟩
  | delete key timeout => exact ⟨_, rfl, hother hk⟩
  | get key timeout => exact ⟨_, rfl, hother hk⟩
  | _ => exact absurd hk (Option.some_ne_none _)

namespace World

/-- What remains of a world if only one key is kept. -/
def only (k : String) (w : World) : World :=
  { w with cluster := { w.cluster with fleet := w.cluster.fleet.only k } }

/-- A world at rest with a ring of nodes that are up or down. All nodes that it knows exist. -/
structure Switched (w : World) : Prop where
  hasRing : w.hasRing = true
  loops : w.loops = #[]
  activities : w.activities = #[]
  linked : w.Linked
  switches : w.cluster.fleet.Switches

/-- Two worlds look alike under a key, and the second one holds nothing else. -/
structure Alike (k : String) (w w' : World) : Prop where
  hasRing : w.hasRing = true
  hasRing' : w'.hasRing = true
  loops : w.loops = #[]
  loops' : w'.loops = #[]
  left : w.cluster.fleet.Switches
  right : w'.cluster.fleet.Switches
  ring : w'.cluster.ring = w.cluster.ring
  now : w'.cluster.now = w.cluster.now
  env : w'.cluster.env = w.cluster.env
  fleet : w.cluster.fleet.Alike k w'.cluster.fleet
  narrow : w'.cluster.fleet.Narrow k
  registry : w'.registry = w.registry
  randoms : w'.randoms = w.randoms
  stream : w'.stream = w.stream
  drawn : w'.drawn = w.drawn

variable {w w' : World}

/-- A world looks like what remains of it. -/
theorem Switched.alike_only (hw : w.Switched) (k : String) : w.Alike k (w.only k) where
  hasRing := hw.hasRing
  hasRing' := hw.hasRing
  loops := hw.loops
  loops' := hw.loops
  left := hw.switches
  right := hw.switches.only k
  ring := rfl
  now := rfl
  env := rfl
  fleet := w.cluster.fleet.alike_only k
  narrow := w.cluster.fleet.narrow_only k
  registry := rfl
  randoms := rfl
  stream := rfl
  drawn := rfl

/-- Log and activities do not matter. -/
theorem Alike.settled (h : w.Alike k w') : w.settled.Alike k w'.settled :=
  ⟨h.hasRing, h.hasRing', h.loops, h.loops', h.left, h.right, h.ring, h.now, h.env, h.fleet,
    h.narrow, h.registry, h.randoms, h.stream, h.drawn⟩

theorem Alike.settled_left (h : w.Alike k w') : w.settled.Alike k w' :=
  ⟨h.hasRing, h.hasRing', h.loops, h.loops', h.left, h.right, h.ring, h.now, h.env, h.fleet,
    h.narrow, h.registry, h.randoms, h.stream, h.drawn⟩

/-! ### Changes that are answered at once -/

/-- Two operations are answered alike at once, and the worlds still look alike. -/
def AnswersAlike (k : String) (p p' : Activity × World) : Prop :=
  ∃ t x, p.1 = .answered t x ∧ p'.1 = .answered t x ∧ p.2.Alike k p'.2

theorem Alike.reply (h : w.Alike k w') (x : Answer) : AnswersAlike k (w.reply x) (w'.reply x) := by
  refine ⟨w.cluster.now, x, rfl, ?_, h⟩
  rw [← h.now]
  rfl

theorem Alike.withNode (h : w.Alike k w') (id : NodeId) {f f' : Handle → Activity × World}
    (hf : ∀ x, AnswersAlike k (f x) (f' x)) :
    AnswersAlike k (w.withNode id f) (w'.withNode id f') := by
  rw [World.withNode, World.withNode, h.registry]
  cases w.registry.find? id with
  | none => exact h.reply _
  | some x => exact hf x

theorem Alike.addKnown (h : w.Alike k w') (x : Handle) :
    AnswersAlike k (w.addKnown x) (w'.addKnown x) := by
  rw [World.addKnown, World.addKnown, h.ring]
  cases w.cluster.ring.add x with
  | error e => exact h.reply _
  | ok ring =>
    refine ⟨w.cluster.now, .done, rfl, ?_, ?_⟩
    · rw [← h.now]
      rfl
    · exact ⟨h.hasRing, h.hasRing', h.loops, h.loops', h.left, h.right, rfl, h.now, h.env, h.fleet,
        h.narrow, congrArg (OrderedMap.insert · x.id x) h.registry, h.randoms, h.stream, h.drawn⟩

/-- A new node joins two worlds. -/
theorem Alike.enlist (h : w.Alike k w') {n n' : Node} (hn : n.IsSwitch) (hn' : n'.IsSwitch)
    (hid : n.id = n'.id) (hfaults : n.faults = n'.faults)
    (hheld : n.store.find? k = n'.store.find? k)
    (hnarrow : ∀ key, n'.store.find? key ≠ none → key = k) :
    (w.cluster.fleet.enlist n).1 = (w'.cluster.fleet.enlist n').1 ∧
      Alike k { w with cluster := { w.cluster with fleet := (w.cluster.fleet.enlist n).2 } }
        { w' with cluster := { w'.cluster with fleet := (w'.cluster.fleet.enlist n').2 } } := by
  constructor
  · rw [Fleet.enlist, Fleet.enlist, hid, Fleet.size_of_frame h.fleet.frame]
  · exact ⟨h.hasRing, h.hasRing', h.loops, h.loops', h.left.push hn, h.right.push hn', h.ring,
      h.now, h.env, h.fleet.push hid hfaults hheld, h.narrow.push hnarrow, h.registry, h.randoms,
      h.stream, h.drawn⟩

theorem Alike.addNew (h : w.Alike k w') {n : Node} (hn : n.IsSwitch) :
    AnswersAlike k (w.addNew n) (w'.addNew (n.only k)) := by
  have hheld : n.store.find? k = (n.only k).store.find? k :=
    ((Store.find?_only k k n.store).trans (if_pos rfl)).symm
  have hnarrow : ∀ key, (n.only k).store.find? key ≠ none → key = k := by
    intro key hkey
    by_contra hne
    exact hkey ((Store.find?_only k key n.store).trans (if_neg hne))
  obtain ⟨hhandle, halike⟩ := h.enlist hn (hn.only k) rfl rfl hheld hnarrow
  show AnswersAlike k (World.addKnown _ (w.cluster.fleet.enlist n).1)
    (World.addKnown _ (w'.cluster.fleet.enlist (n.only k)).1)
  rw [← hhandle]
  exact halike.addKnown _

theorem Alike.addRandom (h : w.Alike k w') : AnswersAlike k w.addRandom w'.addRandom := by
  have hcount : w'.drawCount = w.drawCount := by rw [drawCount, drawCount, h.ring]
  have hdraws : w'.draws w.drawCount = w.draws w.drawCount := by
    rw [World.draws, World.draws, h.stream, h.drawn]
  rw [World.addRandom, World.addRandom, h.ring, h.drawn, hcount, hdraws]
  cases w.cluster.ring.freeId? (w.draws w.drawCount) with
  | none => exact h.reply _
  | some id =>
    have hn : Node.IsSwitch { id := id } := ⟨trivial, List.Pairwise.nil⟩
    obtain ⟨hhandle, halike⟩ := h.enlist hn hn rfl rfl rfl fun key hkey => absurd rfl hkey
    simp only
    rw [← hhandle]
    cases w.cluster.ring.add (w.cluster.fleet.enlist { id := id }).1 with
    | error e => exact h.reply _
    | ok ring =>
      refine ⟨w.cluster.now, .addedRandom (ring.membership.contains id), rfl, ?_, ?_⟩
      · rw [← h.now]
        rfl
      · exact ⟨h.hasRing, h.hasRing', h.loops, h.loops', halike.left, halike.right, rfl, h.now,
          h.env, halike.fleet, halike.narrow, h.registry, congrArg (· ++ [id]) h.randoms, h.stream,
          rfl⟩

theorem Alike.dropNode (h : w.Alike k w') (id : NodeId) (x : NodeId → Answer) :
    AnswersAlike k (w.dropNode id x) (w'.dropNode id x) := by
  rw [World.dropNode, World.dropNode, h.ring]
  cases w.cluster.ring.drop id with
  | error e => exact h.reply _
  | ok p =>
    refine ⟨w.cluster.now, x p.1.id, rfl, ?_, ?_⟩
    · rw [← h.now]
      rfl
    · exact ⟨h.hasRing, h.hasRing', h.loops, h.loops', h.left, h.right, rfl, h.now, h.env, h.fleet,
        h.narrow, h.registry, h.randoms, h.stream, h.drawn⟩

/-- The switch of a node is thrown in two worlds. -/
theorem Alike.changeNode (h : w.Alike k w') (id : NodeId) {change : Injection → Injection}
    (hchange : ∀ i, (change i).latency = i.latency ∧ (change i).jitter = i.jitter ∧
      (change i).odds = i.odds) :
    AnswersAlike k (w.changeNode id (Node.mapInjection change))
      (w'.changeNode id (Node.mapInjection change)) := by
  refine h.withNode id fun x => ⟨w.cluster.now, .done, rfl, ?_, ?_⟩
  · rw [← h.now]
    rfl
  · exact ⟨h.hasRing, h.hasRing', h.loops, h.loops',
      h.left.replace ((h.left.node x).mapInjection hchange),
      h.right.replace ((h.right.node x).mapInjection hchange), h.ring, h.now,
      h.env, h.fleet.mapInjection x change, h.narrow.mapInjection x change, h.registry, h.randoms,
      h.stream, h.drawn⟩

/-- **Instant operations.** A change of membership or of a switch is answered alike, and what looked
alike still does. -/
theorem Alike.begin_instant (h : w.Alike k w') {op op' : Op} (hop : op.OnSwitches)
    (hinstant : op.isInstant = true) (hk : op.only k = some op') :
    AnswersAlike k (w.begin op) (w'.begin op') := by
  rw [begin_of_hasRing h.hasRing, begin_of_hasRing h.hasRing']
  cases op with
  | add n =>
    obtain rfl := Option.some.inj hk
    exact h.addNew hop
  | addAgain id =>
    obtain rfl := Option.some.inj hk
    exact h.withNode id fun x => h.addKnown x
  | addRandom =>
    obtain rfl := Option.some.inj hk
    exact h.addRandom
  | drop id =>
    obtain rfl := Option.some.inj hk
    exact h.dropNode id _
  | dropRandom =>
    obtain rfl := Option.some.inj hk
    rw [beginChecked, beginChecked, h.randoms, h.ring]
    cases w.randoms.find? w.cluster.ring.membership.contains with
    | none => exact h.reply _
    | some id => exact h.dropNode id _
  | fail id =>
    obtain rfl := Option.some.inj hk
    exact h.changeNode id fun i => ⟨rfl, rfl, rfl⟩
  | recover id =>
    obtain rfl := Option.some.inj hk
    exact h.changeNode id fun i => ⟨rfl, rfl, rfl⟩
  | _ => exact absurd hinstant Bool.false_ne_true

end World

end Scenario

end ReplicaRing
