import ReplicaRing.Proofs.ClientEvents
import ReplicaRing.Proofs.Schedules
import ReplicaRing.Proofs.SweepEvents

/-!
# Turns of a world

What one turn can do to a world, whoever goes on and whatever faults the nodes have. Every run is a
matter of these turns, so an invariant only has to look at them.

* `Op.Requests`, `Op.Candid`, `Op.Fixed` — what an operation may ask of a node, whether its nodes
  and scripts make nothing up, and whether it leaves the membership alone;
* `World.Fair` — all nodes that the world refers to exist, and all requests under way are fair;
* `World.sweepAt` — the sweep of an activity or of a repair loop;
* `World.Begins`, `begin_begins` — what the start of an operation does;
* `World.Turned`, `Fair.turned` — what a turn does;
* `Fair.follow` — a fair world stays fair.
-/

namespace ReplicaRing.Scenario

variable {on : Operation → Prop}

/-! ### Operations and activities -/

/-- What an operation may ask of a node. What sweeps ask is left out. -/
def Op.Requests : Op → Request → Prop
  | .put key value _, r => r = .set key value
  | .delete key _, r => r = .delete key
  | .get key _, r => r = .get key
  | .clear, r => r = .clear
  | .writeTo _ change key _, r => r = change.request key
  | .readFrom _ key _, r => r = .get key
  | .ask _ request, r => r = request
  | .serve _ request, r => r = request
  | _, _ => False

/-- The nodes and scripts that an operation brings in make up no answer to certain requests. -/
def Op.Candid (on : Operation → Prop) : Op → Prop
  | .add node => node.Candid on
  | .script _ rules phantoms => (Faults.scripted rules phantoms).Candid on
  | _ => True

/-- An operation leaves the membership alone. -/
def Op.Fixed : Op → Prop
  | .add _ | .addAgain _ | .drop _ | .addRandom | .dropRandom => False
  | _ => True

namespace Activity

/-- What an activity may still ask of a node. What sweeps ask is left out. -/
def Requests : Activity → Request → Prop
  | later _ op, r => op.Requests r
  | write run _, r => r = run.change.request run.key
  | read run _ _, r => r = .get run.read.key
  | wipe _, r => r = .clear
  | ask request _, r => r = request
  | _, _ => False

/-- The nodes and scripts that an activity will bring in make up no answer to certain requests. -/
def Candid (on : Operation → Prop) : Activity → Prop
  | later _ op => op.Candid on
  | _ => True

/-- An activity will leave the membership alone. -/
def Fixed : Activity → Prop
  | later _ op => op.Fixed
  | _ => True

/-- The sweep of an activity. -/
def sweepRun? : Activity → Option SweepRun
  | sweep run _ => some run
  | _ => none

/-- The requests that an activity waits for are fair. -/
def Fair (on : Operation → Prop) (f : Fleet) : Activity → Prop
  | write run _ => ∀ q ∈ run.flights, q.Fair on f (run.change.request run.key)
  | read run _ _ => Cluster.AsksHead on f run.read.ahead (.get run.read.key) run.inquiry
  | wipe run => Cluster.AsksHead on f run.wipe.ahead .clear run.inquiry
  | ask request q => q.flight.Fair on f request
  | sweep run _ => run.Fair on f
  | _ => True

/-- An activity that waits for no node. -/
def Waits : Activity → Prop
  | pause _ => True
  | settle _ _ => True
  | awaitStop _ => True
  | answered _ _ => True
  | _ => False

/-- What an activity becomes: it asks nothing new, and it does not start again. -/
structure Leads (a a' : Activity) : Prop where
  requests : ∀ r, a'.Requests r → a.Requests r
  started : ∀ t op, a' = .later t op → a = a'

theorem Leads.refl (a : Activity) : a.Leads a := ⟨fun _ h => h, fun _ _ _ => rfl⟩

variable {a a' a'' : Activity} {f f' : Fleet}

theorem Leads.trans (h : a.Leads a') (h' : a'.Leads a'') : a.Leads a'' where
  requests r hr := h.requests r (h'.requests r hr)
  started t op he := (h.started t op ((h'.started t op he).trans he)).trans (h'.started t op he)

theorem Leads.candid (h : a.Leads a') (ha : a.Candid on) : a'.Candid on := by
  cases a' with
  | later t op =>
    obtain rfl := h.started t op rfl
    exact ha
  | _ => exact trivial

theorem Leads.fixed (h : a.Leads a') (ha : a.Fixed) : a'.Fixed := by
  cases a' with
  | later t op =>
    obtain rfl := h.started t op rfl
    exact ha
  | _ => exact trivial

theorem Fair.mono (h : a.Fair on f) (hh : ∀ x, f.Houses x → f'.Houses x) : a.Fair on f' := by
  cases a with
  | write run client => exact fun q hq => (h q hq).mono hh
  | read run primary client => exact Cluster.AsksHead.mono h hh
  | wipe run => exact Cluster.AsksHead.mono h hh
  | ask request q => exact Flight.Fair.mono h hh
  | sweep run cancelAt => exact SweepRun.Fair.mono h hh
  | _ => exact trivial

theorem Waits.fair (h : a.Waits) : a.Fair on f := by
  cases a with
  | pause _ => exact trivial
  | settle _ _ => exact trivial
  | awaitStop _ => exact trivial
  | answered _ _ => exact trivial
  | _ => exact False.elim h

theorem Waits.not_requests (h : a.Waits) (r : Request) : ¬ a.Requests r := by
  cases a with
  | pause _ => exact id
  | settle _ _ => exact id
  | awaitStop _ => exact id
  | answered _ _ => exact id
  | _ => exact False.elim h

theorem Waits.sweepRun? (h : a.Waits) : a.sweepRun? = none := by
  cases a with
  | sweep run cancelAt => exact False.elim h
  | _ => rfl

theorem Waits.not_later (h : a.Waits) (t : Instant) (op : Op) : a ≠ .later t op := by
  rintro rfl
  exact h

/-- An activity on a cluster either stays what it is or is answered, and neither nodes nor ring
change. -/
structure Settles (c : Cluster) (a : Activity) (p : Activity × Cluster) : Prop where
  fleet : p.2.fleet = c.fleet
  ring : p.2.ring = c.ring
  outcome : p.1 = a ∨ ∃ t x, p.1 = .answered t x

theorem ofWrite_settles (c : Cluster) (run : Write) (client : Bool) :
    Settles c (.write run client) (ofWrite c run client) := by
  rw [ofWrite]
  split
  · split
    · exact ⟨rfl, rfl, .inr ⟨_, _, rfl⟩⟩
    · exact ⟨rfl, rfl, .inr ⟨_, _, rfl⟩⟩
  · exact ⟨rfl, rfl, .inl rfl⟩

theorem ofRead_settles (c : Cluster) (run : ReadRun) (primary : Option NodeId) (client : Bool) :
    Settles c (.read run primary client) (ofRead c run primary client) := by
  rw [ofRead]
  split
  · split
    · exact ⟨rfl, rfl, .inr ⟨_, _, rfl⟩⟩
    · exact ⟨rfl, rfl, .inr ⟨_, _, rfl⟩⟩
  · exact ⟨rfl, rfl, .inl rfl⟩

theorem ofWipe_settles (c : Cluster) (run : WipeRun) :
    Settles c (.wipe run) (ofWipe c run) := by
  rw [ofWipe]
  split
  · split
    · exact ⟨rfl, rfl, .inr ⟨_, _, rfl⟩⟩
    · exact ⟨rfl, rfl, .inr ⟨_, _, rfl⟩⟩
  · exact ⟨rfl, rfl, .inl rfl⟩

theorem ofSweep_settles (c : Cluster) (run : SweepRun) (cancelAt : Option Instant) :
    Settles c (.sweep run cancelAt) (ofSweep c run cancelAt) := by
  rw [ofSweep]
  split
  · exact ⟨rfl, rfl, .inr ⟨_, _, rfl⟩⟩
  · exact ⟨rfl, rfl, .inl rfl⟩

theorem Settles.fair {c : Cluster} {p : Activity × Cluster} (h : Settles c a p)
    (ha : a.Fair on c.fleet) : p.1.Fair on p.2.fleet := by
  rw [h.fleet]
  rcases h.outcome with he | ⟨t, x, he⟩ <;> rw [he]
  · exact ha
  · exact trivial

theorem Settles.requests {c : Cluster} {p : Activity × Cluster} (h : Settles c a p) {r : Request}
    (hr : p.1.Requests r) : a.Requests r := by
  rcases h.outcome with he | ⟨t, x, he⟩ <;> rw [he] at hr
  · exact hr
  · exact False.elim hr

theorem Settles.started {c : Cluster} {p : Activity × Cluster} (h : Settles c a p)
    (ha : ∀ t op, a ≠ .later t op) (t : Instant) (op : Op) : p.1 ≠ .later t op := by
  rcases h.outcome with he | ⟨t', x, he⟩ <;> rw [he]
  · exact ha t op
  · exact fun h => nomatch h

theorem Settles.sweepRun? {c : Cluster} {p : Activity × Cluster} (h : Settles c a p) :
    p.1.sweepRun? = a.sweepRun? ∨ p.1.sweepRun? = none := by
  rcases h.outcome with he | ⟨t, x, he⟩ <;> rw [he]
  · exact .inl rfl
  · exact .inr rfl

end Activity

end ReplicaRing.Scenario

namespace ReplicaRing

/-! ### Worlds -/

/-- The sweep of a repair loop. -/
def LoopRun.sweepRun? (l : LoopRun) : Option SweepRun :=
  match l.loop.phase with
  | .sweeping s => some ⟨s, l.inquiry⟩
  | _ => none

/-- One node has joined or left a ring. -/
def Ring.Changes (r r' : Ring) : Prop :=
  (∃ h, r.add h = .ok r') ∨ ∃ id h, r.drop id = .ok (h, r')

namespace Scenario.World

variable {on : Operation → Prop} {w w' : World} {op : Op} {a : Activity} {h : Handle}

/-- The sweep that goes on in a turn. -/
def sweepAt (w : World) : Turn → Option SweepRun
  | .activity i => w.activities[i]?.bind Activity.sweepRun?
  | .loop i => w.loops[i]?.bind LoopRun.sweepRun?

/-- The membership is sound, and all nodes that it and the scenario refer to exist. -/
structure Linked (w : World) : Prop where
  sound : w.cluster.ring.membership.Sound
  houses : ∀ h ∈ w.cluster.ring.membership.handles, w.cluster.fleet.Houses h
  known : ∀ id h, w.registry.find? id = some h → h.id = id ∧ w.cluster.fleet.Houses h

/-- All nodes that a world refers to exist, they make up no answer to certain requests, and neither
do the requests under way. -/
structure Fair (on : Operation → Prop) (w : World) : Prop where
  linked : w.Linked
  candid : w.cluster.fleet.Candid on
  activities : ∀ (i : Nat) a, w.activities[i]? = some a → a.Fair on w.cluster.fleet
  loops : ∀ (i : Nat) run, w.sweepAt (.loop i) = some run → run.Fair on w.cluster.fleet

/-- All sweeps of a fair world are fair. -/
theorem Fair.sweep (hw : w.Fair on) {x : Turn} {run : SweepRun} (hx : w.sweepAt x = some run) :
    run.Fair on w.cluster.fleet := by
  cases x with
  | loop i => exact hw.loops i run hx
  | activity i =>
    rw [sweepAt] at hx
    cases hi : w.activities[i]? with
    | none =>
      rw [hi] at hx
      exact absurd hx.symm (Option.some_ne_none run)
    | some a =>
      rw [hi, Option.bind_some] at hx
      have ha := hw.activities i a hi
      cases a with
      | sweep run' cancelAt =>
        obtain rfl := Option.some.inj hx
        exact ha
      | _ => exact absurd hx.symm (Option.some_ne_none run)

/-- What the start of an operation does. -/
structure Begins (on : Operation → Prop) (w : World) (op : Op) (p : Activity × World) : Prop where
  activities : p.2.activities = w.activities
  loops : ∀ i, p.2.sweepAt (.loop i) = w.sweepAt (.loop i)
  linked : p.2.Linked
  ring : p.2.cluster.ring = w.cluster.ring ∨
    ¬ op.Fixed ∧ w.cluster.ring.Changes p.2.cluster.ring
  serving : ∃ served, w.cluster.fleet.ServesAtMost on p.2.cluster.fleet served ∧
    ∀ h r, served = some (h, r) → op.Requests r
  fair : p.1.Fair on p.2.cluster.fleet
  requests : ∀ r, p.1.Requests r → op.Requests r
  started : ∀ t op', p.1 ≠ .later t op'
  sweep : ∀ run, p.1.sweepRun? = some run → run = ⟨.start w.cluster.ring.membership, none⟩

theorem Linked.mono (hw : w.Linked) (hring : w'.cluster.ring = w.cluster.ring)
    (hregistry : w'.registry = w.registry)
    (hh : ∀ x, w.cluster.fleet.Houses x → w'.cluster.fleet.Houses x) : w'.Linked where
  sound := hring ▸ hw.sound
  houses x hx := hh x (hw.houses x (hring ▸ hx))
  known id x hx :=
    ⟨(hw.known id x (hregistry ▸ hx)).1, hh x (hw.known id x (hregistry ▸ hx)).2⟩

/-- A scenario that knows just the nodes of its ring. -/
theorem Linked.of_registry (hs : w.cluster.ring.membership.Sound)
    (hh : ∀ x ∈ w.cluster.ring.membership.handles, w.cluster.fleet.Houses x)
    (hregistry : w.registry = w.cluster.ring.membership.nodes) : w.Linked where
  sound := hs
  houses := hh
  known id x hx := by
    rw [hregistry] at hx
    obtain ⟨hmem, hid⟩ := Membership.mem_of_find? hs hx
    exact ⟨hid, hh x hmem⟩

theorem nothing_served (op : Op) (h : Handle) (r : Request)
    (he : (none : Option (Handle × Request)) = some (h, r)) : op.Requests r :=
  absurd he.symm (Option.some_ne_none _)

/-! ### Operations that wait for no node -/

/-- An operation that waits for no node. -/
theorem begins_waits {p : Activity × World} {served : Option (Handle × Request)}
    (hact : p.2.activities = w.activities)
    (hloops : ∀ i, p.2.sweepAt (.loop i) = w.sweepAt (.loop i)) (hlinked : p.2.Linked)
    (hring : p.2.cluster.ring = w.cluster.ring ∨
      ¬ op.Fixed ∧ w.cluster.ring.Changes p.2.cluster.ring)
    (hserving : w.cluster.fleet.ServesAtMost on p.2.cluster.fleet served)
    (hserved : ∀ h r, served = some (h, r) → op.Requests r) (ha : p.1.Waits) :
    w.Begins on op p where
  activities := hact
  loops := hloops
  linked := hlinked
  ring := hring
  serving := ⟨served, hserving, hserved⟩
  fair := ha.fair
  requests r hr := absurd hr (ha.not_requests r)
  started := ha.not_later
  sweep _ hrun := absurd (ha.sweepRun?.symm.trans hrun).symm (Option.some_ne_none _)

/-- An operation that changes neither nodes nor ring. -/
theorem begins_unchanged (hw : w.Linked) {p : Activity × World}
    (hact : p.2.activities = w.activities)
    (hloops : ∀ i, p.2.sweepAt (.loop i) = w.sweepAt (.loop i))
    (hfleet : p.2.cluster.fleet = w.cluster.fleet) (hring : p.2.cluster.ring = w.cluster.ring)
    (hregistry : p.2.registry = w.registry) (ha : p.1.Waits) : w.Begins on op p :=
  begins_waits hact hloops (hw.mono hring hregistry fun _ hx => hfleet ▸ hx) (.inl hring)
    (hfleet ▸ .refl _) (nothing_served op) ha

theorem begins_reply (hw : w.Linked) (x : Answer) : w.Begins on op (w.reply x) :=
  begins_unchanged hw rfl (fun _ => rfl) rfl rfl rfl trivial

/-- What holds after one has gone on with a known node: what holds of an answer at once, and after
going on with that node. -/
theorem withNode_elim {P : Activity × World → Prop} (hw : ∀ x, P (w.reply x)) (id : NodeId)
    {f : Handle → Activity × World} (hf : ∀ h, w.registry.find? id = some h → P (f h)) :
    P (w.withNode id f) := by
  rw [withNode]
  cases hfind : w.registry.find? id with
  | none => exact hw _
  | some h => exact hf h hfind

theorem withSelection_elim {P : Activity × World → Prop} (hw : ∀ x, P (w.reply x))
    (choice : Selection) {f : Placement → Cluster → Activity × World}
    (hf : ∀ p c, w.select choice = .ok (p, c) → P (f p c)) : P (w.withSelection choice f) := by
  rw [withSelection]
  split
  · next p c hs => exact hf p c hs
  · exact hw _

theorem begins_withNode (hw : w.Linked) (id : NodeId) {f : Handle → Activity × World}
    (hf : ∀ h, w.cluster.fleet.Houses h → w.Begins on op (f h)) :
    w.Begins on op (w.withNode id f) :=
  withNode_elim (begins_reply hw) id fun h hfind => hf h (hw.known id h hfind).2

theorem begins_viewNode (hw : w.Linked) (id : NodeId) (f : Node → Answer) :
    w.Begins on op (w.viewNode id f) :=
  begins_withNode hw id fun _ _ => begins_reply hw _

/-- An operation that changes the faults of a node. -/
theorem begins_changeNode (hw : w.Linked) (id : NodeId) {f : Node → Node}
    (hid : ∀ n, (f n).id = n.id) (hstore : ∀ n, (f n).store = n.store)
    (hcandid : ∀ n : Node, n.Candid on → (f n).Candid on) :
    w.Begins on op (w.changeNode id f) := by
  refine begins_withNode hw id fun h hh => ?_
  have hserving : w.cluster.fleet.ServesAtMost on (w.cluster.fleet.update h f) none :=
    Fleet.servesAtMost_replace hh ((hid _).trans hh.node_id) (hstore _)
      fun hf => hcandid _ (hf.node h)
  exact begins_waits rfl (fun _ => rfl) (hw.mono rfl rfl hserving.houses) (.inl rfl) hserving
    (nothing_served op) trivial

/-- Changing the injected faults of a node leaves its name and its data alone. -/
theorem mapInjection_same (f : Injection → Injection) (n : Node) :
    (n.mapInjection f).id = n.id ∧ (n.mapInjection f).store = n.store := by
  rw [Node.mapInjection]
  split
  · exact ⟨rfl, rfl⟩
  · exact ⟨rfl, rfl⟩

theorem begins_mapInjection (hw : w.Linked) (id : NodeId) (f : Injection → Injection) :
    w.Begins on op (w.changeNode id (Node.mapInjection f)) :=
  begins_changeNode hw id (fun n => (mapInjection_same f n).1) (fun n => (mapInjection_same f n).2)
    fun _ hn => hn.mapInjection f

/-! ### Changes of membership -/

/-- A node leaves the ring. -/
theorem begins_dropNode (op : Op) (hw : w.Linked) (hop : ¬ op.Fixed) (id : NodeId)
    (x : NodeId → Answer) :
    w.Begins on op (w.dropNode id x) := by
  rw [dropNode]
  obtain ⟨e, he⟩ | ⟨h, hok, hfind, -⟩ := w.cluster.ring.drop_cases id
  · rw [he]
    exact begins_reply hw _
  · rw [hok]
    refine begins_waits rfl (fun _ => rfl) ⟨hw.sound.erase id _, fun y hy => ?_, hw.known⟩
      (.inr ⟨hop, .inr ⟨id, h, hok⟩⟩) (.refl _) (nothing_served op) trivial
    have hy' := (Membership.handles_erase hw.sound id _).symm ▸ hy
    exact hw.houses y (List.mem_of_mem_filter hy')

/-- A ring stays linked when an existing node joins it. -/
theorem Linked.join (hw : w.Linked) {f : Fleet}
    (hf : ∀ x, w.cluster.fleet.Houses x → f.Houses x) (hh : f.Houses h)
    (hfresh : w.cluster.ring.membership.find? h.id = none)
    (hring : w'.cluster.ring =
      w.cluster.ring.withNodes (w.cluster.ring.membership.nodes.insert h.id h))
    (hfleet : w'.cluster.fleet = f)
    (hknown : ∀ id x, w'.registry.find? id = some x → x.id = id ∧ f.Houses x) : w'.Linked where
  sound := hring ▸ hw.sound.insert hfresh _
  houses x hx := by
    rw [hring] at hx
    rw [hfleet]
    rcases List.mem_cons.1 ((Membership.handles_insert hfresh _).mem_iff.1 hx) with rfl | hx
    · exact hh
    · exact hf x (hw.houses x hx)
  known := hfleet ▸ hknown

/-- A node joins the ring, perhaps one that has just been added to the fleet. -/
theorem begins_addKnown (op : Op) (hw : w.Linked) (hop : ¬ op.Fixed) {f : Fleet}
    (hserving : w.cluster.fleet.ServesAtMost on f none) (hh : f.Houses h) :
    w.Begins on op (addKnown { w with cluster := { w.cluster with fleet := f } } h) := by
  rw [addKnown]
  obtain ⟨e, he⟩ | ⟨hok, hfresh, -⟩ := w.cluster.ring.add_cases h
  · simp only [he]
    exact begins_waits rfl (fun _ => rfl) (hw.mono rfl rfl hserving.houses) (.inl rfl) hserving
      (nothing_served op) trivial
  · simp only [hok]
    refine begins_waits rfl (fun _ => rfl)
      (hw.join hserving.houses hh hfresh rfl rfl fun id x hx => ?_) (.inr ⟨hop, .inl ⟨h, hok⟩⟩)
      hserving (nothing_served op) trivial
    have hx' : (w.registry.insert h.id h).find? id = some x := hx
    rw [OrderedMap.find?_insert] at hx'
    split at hx'
    · next hid =>
      obtain rfl := Option.some.inj hx'
      exact ⟨hid.symm, hh⟩
    · exact ⟨(hw.known id x hx').1, hserving.houses x (hw.known id x hx').2⟩

/-- A new node joins the ring at a random place. -/
theorem begins_addRandom (hw : w.Linked) (hop : ¬ op.Fixed) : w.Begins on op w.addRandom := by
  rw [addRandom]
  cases hfree : w.cluster.ring.freeId? (w.draws w.drawCount) with
  | none => exact begins_reply hw _
  | some id =>
    let n : Node := { id := id }
    have hn : n.Candid on := trivial
    have hserving := w.cluster.fleet.servesAtMost_enlist hn
    obtain ⟨hhouse, -⟩ := Fleet.enlisted w.cluster.fleet n
    obtain ⟨e, he⟩ | ⟨hok, hfresh, -⟩ := w.cluster.ring.add_cases (w.cluster.fleet.enlist n).1
    · simp only [n] at he
      simp only [he]
      exact begins_reply hw _
    · simp only [n] at hok
      simp only [hok]
      exact begins_waits rfl (fun _ => rfl)
        (hw.join hserving.houses hhouse hfresh rfl rfl fun id x hx =>
          ⟨(hw.known id x hx).1, hserving.houses x (hw.known id x hx).2⟩)
        (.inr ⟨hop, .inl ⟨_, hok⟩⟩) hserving (nothing_served op) trivial

/-! ### Operations that wait for nodes -/

/-- An operation that starts requests to nodes and then waits for them or is answered. -/
theorem begins_started (hw : w.Linked) {c : Cluster} {p : Activity × Cluster}
    (hserving : w.cluster.fleet.ServesAtMost on c.fleet none) (hring : c.ring = w.cluster.ring)
    (hp : Activity.Settles c a p) (ha : a.Fair on c.fleet)
    (hrequests : ∀ r, a.Requests r → op.Requests r) (hstarted : ∀ t op', a ≠ .later t op')
    (hsweep : a.sweepRun? = none) : w.Begins on op (w.started p) where
  activities := rfl
  loops _ := rfl
  linked := hw.mono (hp.ring.trans hring) rfl fun x hx => hp.fleet ▸ hserving.houses x hx
  ring := .inl (hp.ring.trans hring)
  serving := ⟨none, hp.fleet ▸ hserving, nothing_served op⟩
  fair := hp.fair ha
  requests r hr := hrequests r (hp.requests hr)
  started := hp.started hstarted
  sweep run hrun := by
    rcases hp.sweepRun? with he | he
    · exact absurd (hsweep.symm.trans (he.symm.trans hrun)).symm (Option.some_ne_none run)
    · exact absurd (he.symm.trans hrun).symm (Option.some_ne_none run)

/-- A write starts. -/
theorem begins_write (hw : w.Linked) (hc : w.cluster.fleet.Candid on) {c : Cluster}
    (hfleet : c.fleet = w.cluster.fleet) (hring : c.ring = w.cluster.ring) {p : Placement}
    (hp : ∀ x ∈ p.members, w.cluster.fleet.Houses x) (timeout : Duration) (change : Change)
    (key : String) (client : Bool) (hop : op.Requests (change.request key)) :
    w.Begins on op (w.started (Activity.ofWrite
      { c with fleet := (Write.start c.env c.now timeout change key p c.fleet).2 }
      (Write.start c.env c.now timeout change key p c.fleet).1 client)) := by
  obtain ⟨-, hflights, hserving⟩ := Fleet.launchAll_servesAtMost hc c.env c.now (change.request key)
    p.members hp
  rw [← hfleet] at hflights hserving
  have hstarted : w.cluster.fleet.ServesAtMost on
      (Write.start c.env c.now timeout change key p c.fleet).2 none := by
    rw [← hfleet]
    exact hserving
  refine begins_started hw (a := .write _ client)
    (c := { c with fleet := (Write.start c.env c.now timeout change key p c.fleet).2 }) hstarted
    hring (Activity.ofWrite_settles _ _ client) (fun q hq => ?_) (fun r hr => ?_)
    (fun _ _ h => nomatch h) rfl
  · exact hflights q ((List.mergeSort_perm _ _).mem_iff.1 hq)
  · obtain rfl : r = change.request key := hr
    exact hop

/-- A read starts. -/
theorem begins_read (hw : w.Linked) (hc : w.cluster.fleet.Candid on) {c : Cluster}
    (hfleet : c.fleet = w.cluster.fleet) (hring : c.ring = w.cluster.ring) {p : Placement}
    (hp : ∀ x ∈ p.members, w.cluster.fleet.Houses x) (timeout : Duration) (key : String)
    (primary : Option NodeId) (client : Bool) (hop : op.Requests (.get key)) :
    w.Begins on op (w.started (Activity.ofRead (ReadRun.start c key p timeout).2
      (ReadRun.start c key p timeout).1 primary client)) := by
  obtain ⟨hasks, hserving, hring'⟩ := Cluster.askHead_servesAtMost (c := c) (hfleet ▸ hc)
    (fun x hx => hfleet ▸ hp x hx) (.get key) (some (c.now + timeout.ticks))
  refine begins_started hw (a := .read _ primary client) (hfleet ▸ hserving) (hring'.trans hring)
    (Activity.ofRead_settles _ _ primary client) hasks (fun r hr => ?_)
    (fun _ _ h => nomatch h) rfl
  obtain rfl : r = .get key := hr
  exact hop

theorem Linked.placement (hw : w.Linked) (key : String) :
    ∀ x ∈ (w.cluster.ring.placement key).members, w.cluster.fleet.Houses x :=
  fun x hx => hw.houses x (hw.sound.placement_subset hx)

theorem begins_beginWrite (hw : w.Linked) (hc : w.cluster.fleet.Candid on) (change : Change)
    (key : String) (timeout : Option Duration) (hop : op.Requests (change.request key)) :
    w.Begins on op (w.beginWrite change key timeout) := by
  rw [beginWrite]
  split
  · exact begins_write hw hc (c := ((w.cluster.beginOp change.op).place key).2) rfl rfl
      (hw.placement key) _ change key true hop
  · exact begins_unchanged hw rfl (fun _ => rfl) rfl rfl rfl trivial

theorem begins_beginRead (hw : w.Linked) (hc : w.cluster.fleet.Candid on) (key : String)
    (timeout : Option Duration) (hop : op.Requests (.get key)) :
    w.Begins on op (w.beginRead key timeout) := by
  rw [beginRead]
  split
  · exact begins_read hw hc (c := ((w.cluster.beginOp .get).place key).2) rfl rfl
      (hw.placement key) _ key _ true hop
  · exact begins_unchanged hw rfl (fun _ => rfl) rfl rfl rfl trivial

/-- A wipe starts. -/
theorem begins_wipe (hw : w.Linked) (hc : w.cluster.fleet.Candid on) :
    w.Begins on .clear (w.started (Activity.ofWipe (WipeRun.start w.cluster).2
      (WipeRun.start w.cluster).1)) := by
  obtain ⟨hasks, hserving, hring⟩ := Cluster.askHead_servesAtMost hc hw.houses .clear none
  exact begins_started hw (a := .wipe _) hserving hring (Activity.ofWipe_settles _ _) hasks
    (fun _ hr => hr) (fun _ _ h => nomatch h) rfl

/-- A request to one node starts. -/
theorem begins_ask (hw : w.Linked) (hc : w.cluster.fleet.Candid on) (id : NodeId)
    (request : Request) : w.Begins on (.ask id request) (w.withNode id fun h =>
      (.ask request (w.cluster.ask h request none).1,
        { w with cluster := (w.cluster.ask h request none).2 })) := by
  refine begins_withNode hw id fun h hh => ?_
  obtain ⟨-, hfair, hserving, hring⟩ := Cluster.ask_servesAtMost hc hh request none
  exact
    { activities := rfl
      loops := fun _ => rfl
      linked := hw.mono hring rfl hserving.houses
      ring := .inl hring
      serving := ⟨none, hserving, nothing_served _⟩
      fair := hfair
      requests := fun _ hr => hr
      started := fun _ _ h => nomatch h
      sweep := fun _ hrun => nomatch hrun }

/-- A request is served at once, past all faults. -/
theorem begins_serve (hw : w.Linked) (id : NodeId) (request : Request) :
    w.Begins on (.serve id request) (w.withNode id fun h =>
      w.answer ({ w.cluster with fleet := (w.cluster.fleet.serve h request).2.1 }.report
        (w.cluster.fleet.serve h request).2.2)
        (.ofReply request (w.cluster.fleet.serve h request).1)) := by
  refine begins_withNode hw id fun h hh => ?_
  have hserving : w.cluster.fleet.ServesAtMost on (w.cluster.fleet.serve h request).2.1
      (some (h, request)) :=
    Fleet.servesAtMost_serve hh request
  refine begins_waits rfl (fun _ => rfl) (hw.mono rfl rfl hserving.houses) (.inl rfl) hserving
    (fun x r he => ?_) trivial
  exact (Prod.mk.inj (Option.some.inj he)).2.symm

/-- A sweep starts. -/
theorem begins_repair (hw : w.Linked) (cancelAt : Option Instant) :
    w.Begins on op
      (.sweep { sweep := .start w.cluster.ring.membership } cancelAt, w) where
  activities := rfl
  loops _ := rfl
  linked := hw
  ring := .inl rfl
  serving := ⟨none, .refl _, nothing_served op⟩
  fair := by
    refine ⟨fun h hh => hw.houses h ?_, fun _ _ _ hq => absurd hq.symm (Option.some_ne_none _)⟩
    simpa [Sweep.handles, Sweep.start, Sweep.Stage.handles] using hh
  requests _ hr := False.elim hr
  started _ _ h := nomatch h
  sweep _ hrun := (Option.some.inj hrun).symm

/-! ### Selections -/

theorem mem_ofList {hs : List Handle} {p : Placement} {x : Handle}
    (hx : x ∈ (hs.foldl Placement.push p).members) : x ∈ p.members ∨ x ∈ hs := by
  induction hs generalizing p with
  | nil => exact .inl hx
  | cons y hs ih =>
    rcases ih hx with hx | hx
    · rw [Placement.push] at hx
      split at hx
      · exact .inl hx
      · rcases List.mem_append.1 hx with hx | hx
        · exact .inl hx
        · obtain rfl := List.mem_singleton.1 hx
          exact .inr (List.mem_cons_self ..)
    · exact .inr (List.mem_cons_of_mem _ hx)

theorem mem_of_mapM {α β : Type} {f : α → Option β} {l : List α} {l' : List β}
    (h : l.mapM f = some l') {b : β} (hb : b ∈ l') : ∃ a ∈ l, f a = some b := by
  induction l generalizing l' with
  | nil =>
    obtain rfl : [] = l' := Option.some.inj h
    exact absurd hb List.not_mem_nil
  | cons a l ih =>
    simp only [List.mapM_cons, Option.bind_eq_bind, Option.bind_eq_some_iff, Option.pure_def,
      Option.some.injEq] at h
    obtain ⟨first, hfirst, rest, hrest, rfl⟩ := h
    rcases List.mem_cons.1 hb with rfl | hb
    · exact ⟨a, List.mem_cons_self .., hfirst⟩
    · obtain ⟨a', ha', hfind⟩ := ih hrest hb
      exact ⟨a', List.mem_cons_of_mem _ ha', hfind⟩

/-- The nodes of a selection exist. -/
theorem Linked.select (hw : w.Linked) {choice : Selection} {p : Placement} {c : Cluster}
    (hs : w.select choice = .ok (p, c)) :
    (∀ x ∈ p.members, w.cluster.fleet.Houses x) ∧ c.fleet = w.cluster.fleet ∧
      c.ring = w.cluster.ring := by
  cases choice with
  | ofKey key =>
    rw [World.select] at hs
    split at hs
    · obtain ⟨rfl, rfl⟩ := Prod.mk.inj (Except.ok.inj hs)
      exact ⟨fun x hx => hw.houses x (hw.sound.placement_subset hx), rfl, rfl⟩
    · exact absurd hs (by simp)
  | atPosition position count =>
    rw [World.select, Membership.replicaSet] at hs
    split at hs
    · split at hs
      · next hplaced =>
        obtain ⟨rfl, rfl⟩ := Prod.mk.inj (Except.ok.inj hs)
        split at hplaced
        · obtain rfl := Except.ok.inj hplaced
          exact ⟨fun x hx => hw.houses x (hw.sound.placement_subset hx), rfl, rfl⟩
        · exact absurd hplaced (by simp)
      · exact absurd hs (by simp)
    · exact absurd hs (by simp)
  | nodes ids =>
    rw [World.select] at hs
    split at hs
    · next handles hmap =>
      obtain ⟨rfl, rfl⟩ := Prod.mk.inj (Except.ok.inj hs)
      refine ⟨fun x hx => ?_, rfl, rfl⟩
      have hmem : x ∈ handles := (mem_ofList hx).resolve_left List.not_mem_nil
      obtain ⟨id, -, hfind⟩ := mem_of_mapM hmap hmem
      exact (hw.known id x hfind).2
    · exact absurd hs (by simp)

theorem begins_withSelection (hw : w.Linked) (choice : Selection)
    {f : Placement → Cluster → Activity × World}
    (hf : ∀ p c, (∀ x ∈ p.members, w.cluster.fleet.Houses x) → c.fleet = w.cluster.fleet →
      c.ring = w.cluster.ring → w.Begins on op (f p c)) :
    w.Begins on op (w.withSelection choice f) := by
  refine withSelection_elim (begins_reply hw) choice fun p c hs => ?_
  obtain ⟨hp, hfleet, hring⟩ := hw.select hs
  exact hf p c hp hfleet hring

/-! ### Repair loops -/

theorem sweepAt_changeLoop (w : World) (i : Nat) {f : RepairLoop → RepairLoop}
    (hf : ∀ l, (f l).phase = l.phase) (j : Nat) :
    (w.changeLoop i f).sweepAt (.loop j) = w.sweepAt (.loop j) := by
  simp only [sweepAt, changeLoop, Array.getElem?_modify]
  split
  · cases w.loops[j]? with
    | none => rfl
    | some run => simp only [Option.map_some, Option.bind_some, LoopRun.sweepRun?, hf]
  · rfl

theorem begins_startRepair (hw : w.Linked) (interval settle : Duration) :
    w.Begins on op (w.startRepair interval settle) := by
  refine begins_unchanged hw rfl (fun i => ?_) rfl rfl rfl trivial
  simp only [sweepAt, startRepair, Array.getElem?_push]
  split
  · next he =>
    subst he
    simp [LoopRun.sweepRun?, RepairLoop.start]
  · rfl

theorem begins_stopRepair (hw : w.Linked) : w.Begins on op w.stopRepair := by
  rw [stopRepair]
  cases w.held with
  | none => exact begins_reply hw _
  | some i =>
    exact begins_unchanged hw rfl (sweepAt_changeLoop w i fun _ => rfl) rfl rfl rfl trivial

/-! ### All operations -/

/-- **The start of an operation.** Whatever it is, it serves at most one request, which is its own,
and the nodes that it refers to exist. -/
theorem begin_begins (hw : w.Fair on) (hop : op.Candid on) : w.Begins on op (w.begin op) := by
  have hl := hw.linked
  have hc := hw.candid
  rw [begin]
  split
  · cases op with
    | put key value timeout => exact begins_beginWrite hl hc (.put value) key timeout rfl
    | delete key timeout => exact begins_beginWrite hl hc .delete key timeout rfl
    | get key timeout => exact begins_beginRead hl hc key timeout rfl
    | clear => exact begins_wipe hl hc
    | add node =>
      exact begins_addKnown (.add node) hl not_false
        (w.cluster.fleet.servesAtMost_enlist hop) (Fleet.enlisted w.cluster.fleet node).1
    | addAgain id => exact begins_withNode hl id fun h hh =>
        begins_addKnown (.addAgain id) hl not_false (.refl _) hh
    | drop id => exact begins_dropNode (.drop id) hl not_false id _
    | addRandom => exact begins_addRandom hl not_false
    | dropRandom =>
      rw [beginChecked]
      cases w.randoms.find? w.cluster.ring.membership.contains with
      | none => exact begins_reply hl _
      | some id => exact begins_dropNode .dropRandom hl not_false id _
    | save name => exact begins_unchanged hl rfl (fun _ => rfl) rfl rfl rfl trivial
    | placement choice probes =>
      refine begins_withSelection hl choice fun p c _ hfleet hring => ?_
      exact begins_unchanged hl rfl (fun _ => rfl) hfleet hring rfl trivial
    | writeTo choice change key timeout =>
      refine begins_withSelection hl choice fun p c hp hfleet hring => ?_
      split
      · exact begins_write hl hc hfleet hring hp timeout change key false rfl
      · exact begins_unchanged hl rfl (fun _ => rfl) hfleet hring rfl trivial
    | readFrom choice key timeout =>
      refine begins_withSelection hl choice fun p c hp hfleet hring => ?_
      split
      · exact begins_read hl hc hfleet hring hp timeout key _ false rfl
      · exact begins_unchanged hl rfl (fun _ => rfl) hfleet hring rfl trivial
    | nodeId id => exact begins_viewNode hl id fun n => .nodeId n.id
    | ask id request => exact begins_ask hl hc id request
    | serve id request => exact begins_serve hl id request
    | storeSize id => exact begins_viewNode hl id fun n => .size n.store.size
    | fail id => exact begins_mapInjection hl id _
    | recover id => exact begins_mapInjection hl id _
    | isDown id => exact begins_viewNode hl id fun n => .flag n.isDown
    | nodeDebug id => exact begins_viewNode hl id fun n => .text n.debug
    | setFailureRate id rate => exact begins_mapInjection hl id _
    | setLatency id latency => exact begins_mapInjection hl id _
    | script id rules phantoms =>
      exact begins_changeNode hl id (fun _ => rfl) (fun _ => rfl) fun _ _ => hop
    | repair cancelAfter => exact begins_repair hl _
    | startRepair interval settle => exact begins_startRepair hl interval settle
    | stopRepair => exact begins_stopRepair hl
    | sleep time => exact begins_unchanged hl rfl (fun _ => rfl) rfl rfl rfl trivial
    | _ => exact begins_reply hl _
  · exact begins_reply hl _

/-! ### Events of activities -/

/-- What a turn does to the data and to the sweep whose turn it is. -/
inductive TurnEffect (on : Operation → Prop) (w w' : World) (asks : Request → Prop)
    (now next : Option SweepRun) : Prop
  /-- A sweep goes on. It is gone once it has ended. -/
  | sweep (run run' : SweepRun) (cancelled : Bool) (here : now = some run)
      (goes : run.Goes on w.cluster w'.cluster.fleet cancelled run')
      (ring : w'.cluster.ring = w.cluster.ring) (ends : next = some run' ∨ next = none)
  /-- Something else goes on, which may serve one of its own requests and may start a sweep. -/
  | other (served : Option (Handle × Request))
      (serving : w.cluster.fleet.ServesAtMost on w'.cluster.fleet served)
      (own : ∀ h r, served = some (h, r) → asks r)
      (fresh : ∀ run, next = some run → run = ⟨.start w.cluster.ring.membership, none⟩)

theorem TurnEffect.serving {asks : Request → Prop} {now next : Option SweepRun}
    (h : TurnEffect on w w' asks now next) :
    ∃ served, w.cluster.fleet.ServesAtMost on w'.cluster.fleet served := by
  cases h with
  | sweep run run' cancelled here goes ring ends => exact goes.serving
  | other served serving own fresh => exact ⟨served, serving⟩

/-- What the next event of an activity does. -/
structure Advances (on : Operation → Prop) (w : World) (a : Activity) (p : Activity × World) :
    Prop where
  activities : p.2.activities = w.activities
  loops : ∀ i, p.2.sweepAt (.loop i) = w.sweepAt (.loop i)
  linked : p.2.Linked
  ring : p.2.cluster.ring = w.cluster.ring ∨
    ¬ a.Fixed ∧ w.cluster.ring.Changes p.2.cluster.ring
  fair : p.1.Fair on p.2.cluster.fleet
  leads : a.Leads p.1
  effect : TurnEffect on w p.2 a.Requests a.sweepRun? p.1.sweepRun?

theorem Begins.advances {p : Activity × World} (h : w.Begins on op p) (t : Instant) :
    w.Advances on (.later t op) p where
  activities := h.activities
  loops := h.loops
  linked := h.linked
  ring := h.ring
  fair := h.fair
  leads := ⟨h.requests, fun t' op' he => absurd he (h.started t' op')⟩
  effect := by
    obtain ⟨served, hserving, hserved⟩ := h.serving
    exact .other served hserving hserved h.sweep

/-- An event of a client operation that waits for nodes. -/
theorem advances_client (hw : w.Linked) {a b : Activity} {c : Cluster} {p : Activity × Cluster}
    {served : Option (Handle × Request)} (hserving : w.cluster.fleet.ServesAtMost on c.fleet served)
    (hserved : ∀ h r, served = some (h, r) → a.Requests r) (hring : c.ring = w.cluster.ring)
    (hp : Activity.Settles c b p) (hb : b.Fair on c.fleet)
    (hrequests : ∀ r, b.Requests r → a.Requests r) (hstarted : ∀ t op, b ≠ .later t op)
    (hsweep : b.sweepRun? = none) : w.Advances on a (w.started p) where
  activities := rfl
  loops _ := rfl
  linked := hw.mono (hp.ring.trans hring) rfl fun x hx => hp.fleet ▸ hserving.houses x hx
  ring := .inl (hp.ring.trans hring)
  fair := hp.fair hb
  leads := ⟨fun r hr => hrequests r (hp.requests hr), fun t op he =>
    absurd he (hp.started hstarted t op)⟩
  effect := by
    refine .other served (hp.fleet ▸ hserving) hserved fun run hrun => ?_
    rcases hp.sweepRun? with he | he
    · exact absurd (hsweep.symm.trans (he.symm.trans hrun)).symm (Option.some_ne_none run)
    · exact absurd (he.symm.trans hrun).symm (Option.some_ne_none run)

/-- An activity that waits for no node changes nothing. -/
theorem advances_waits (hw : w.Linked) {p : Activity × World}
    (hact : p.2.activities = w.activities)
    (hloops : ∀ i, p.2.sweepAt (.loop i) = w.sweepAt (.loop i)) (hcluster : p.2.cluster = w.cluster)
    (hregistry : p.2.registry = w.registry) (ha : p.1.Waits) : w.Advances on a p where
  activities := hact
  loops := hloops
  linked := hw.mono (by rw [hcluster]) hregistry fun x hx => hcluster ▸ hx
  ring := .inl (by rw [hcluster])
  fair := ha.fair
  leads := ⟨fun r hr => absurd hr (ha.not_requests r), fun t op he =>
    absurd he (ha.not_later t op)⟩
  effect := .other none (hcluster ▸ .refl _)
    (fun _ _ he => absurd he.symm (Option.some_ne_none _))
    fun _ hrun => absurd (ha.sweepRun?.symm.trans hrun).symm (Option.some_ne_none _)

theorem advances_write (hw : w.Fair on) {run : Write} {client : Bool}
    (ha : Activity.Fair on w.cluster.fleet (.write run client)) :
    w.Advances on (.write run client) (w.stepActivity (.write run client)) := by
  have hgoes := Write.goes hw.candid ha
  obtain ⟨served, hserving, hserved⟩ := hgoes.serving
  have hrequest := hgoes.request_eq
  let c := { w.cluster with fleet := (run.step w.cluster.fleet).2.1 }.report
    (run.step w.cluster.fleet).2.2
  refine advances_client hw.linked (c := c) (b := .write (run.step w.cluster.fleet).1 client)
    hserving hserved rfl (Activity.ofWrite_settles c _ client) (fun q hq => ?_) (fun r hr => ?_)
    (fun _ _ h => nomatch h) rfl
  · have hfair := (ha q (hgoes.flights_subset q hq)).mono hserving.houses
    rwa [← Write.request, hrequest]
  · exact Eq.trans hr hrequest

theorem advances_read (hw : w.Fair on) {run : ReadRun} {primary : Option NodeId} {client : Bool}
    (ha : Activity.Fair on w.cluster.fleet (.read run primary client)) :
    w.Advances on (.read run primary client) (w.stepActivity (.read run primary client)) := by
  obtain ⟨hgoes, hring⟩ := ReadRun.goes hw.candid ha
  obtain ⟨served, hserving, hserved⟩ := hgoes.serving
  refine advances_client hw.linked (c := (run.step w.cluster).2)
    (b := .read (run.step w.cluster).1 primary client) hserving hserved hring
    (Activity.ofRead_settles _ _ primary client) (hgoes.asksHead ha) (fun r hr => ?_)
    (fun _ _ h => nomatch h) rfl
  exact Eq.trans hr (congrArg Request.get hgoes.key_eq)

theorem advances_wipe (hw : w.Fair on) {run : WipeRun}
    (ha : Activity.Fair on w.cluster.fleet (.wipe run)) :
    w.Advances on (.wipe run) (w.stepActivity (.wipe run)) := by
  obtain ⟨hgoes, hring⟩ := WipeRun.goes hw.candid ha
  obtain ⟨served, hserving, hserved⟩ := hgoes.serving
  exact advances_client hw.linked (c := (run.step w.cluster).2)
    (b := .wipe (run.step w.cluster).1) hserving hserved hring (Activity.ofWipe_settles _ _)
    (hgoes.asksHead ha) (fun r hr => hr) (fun _ _ h => nomatch h) rfl

theorem advances_ask (hw : w.Fair on) {request : Request} {q : Inquiry}
    (ha : Activity.Fair on w.cluster.fleet (.ask request q)) :
    w.Advances on (.ask request q) (w.stepActivity (.ask request q)) := by
  obtain ⟨hends, hring⟩ := Cluster.receive_ends hw.candid ha
  obtain ⟨served, hserving, hserved⟩ := hends.serving
  exact advances_client hw.linked (c := (w.cluster.receive q request).2) hserving
    (fun h r he => (hserved h r he).2) hring
    (p := (.now (w.cluster.receive q request).2 _, (w.cluster.receive q request).2))
    ⟨rfl, rfl, .inl rfl⟩ trivial (fun _ hr => False.elim hr) (fun _ _ h => nomatch h) rfl

theorem advances_sweep (hw : w.Fair on) {run : SweepRun} {cancelAt : Option Instant}
    (ha : Activity.Fair on w.cluster.fleet (.sweep run cancelAt)) :
    w.Advances on (.sweep run cancelAt) (w.stepActivity (.sweep run cancelAt)) := by
  obtain ⟨hgoes, hfair, hring⟩ := SweepRun.Fair.goes hw.candid hw.linked.sound hw.linked.houses ha
    (cancelledBy cancelAt w.cluster.now)
  obtain ⟨served, hserving⟩ := hgoes.serving
  let p := run.step (cancelledBy cancelAt w.cluster.now) w.cluster
  have hp := Activity.ofSweep_settles p.2 p.1 cancelAt
  refine ⟨rfl, fun _ => rfl, hw.linked.mono (hp.ring.trans hring) rfl fun x hx =>
    hp.fleet ▸ hserving.houses x hx, .inl (hp.ring.trans hring), hp.fair hfair,
    ⟨fun r hr => hp.requests hr, fun t op he =>
      absurd he (hp.started (fun _ _ h => nomatch h) t op)⟩, ?_⟩
  exact .sweep run p.1 (cancelledBy cancelAt w.cluster.now) rfl (hp.fleet ▸ hgoes)
    (hp.ring.trans hring) hp.sweepRun?

theorem sweepAt_hold (w : World) (i j : Nat) :
    (w.hold i).sweepAt (.loop j) = w.sweepAt (.loop j) := by
  cases hheld : w.held with
  | none => simp only [hold, hheld, sweepAt]
  | some old =>
    have hloops : (w.hold i).loops = (w.changeLoop old .abandon).loops := by
      simp only [hold, hheld]
    rw [sweepAt, hloops]
    exact sweepAt_changeLoop w old (f := .abandon) (fun _ => rfl) j

theorem hold_same (w : World) (i : Nat) :
    (w.hold i).activities = w.activities ∧ (w.hold i).cluster = w.cluster ∧
      (w.hold i).registry = w.registry := by
  rw [hold]
  cases w.held <;> exact ⟨rfl, rfl, rfl⟩

/-- **The next event of an activity.** -/
theorem stepActivity_advances (hw : w.Fair on) {a : Activity} (ha : a.Fair on w.cluster.fleet)
    (hcandid : a.Candid on) : w.Advances on a (w.stepActivity a) := by
  cases a with
  | later t op => exact (begin_begins hw hcandid).advances t
  | write run client => exact advances_write hw ha
  | read run primary client => exact advances_read hw ha
  | wipe run => exact advances_wipe hw ha
  | ask request q => exact advances_ask hw ha
  | sweep run cancelAt => exact advances_sweep hw ha
  | pause stop => exact advances_waits hw.linked rfl (fun _ => rfl) rfl rfl trivial
  | settle stop loop =>
    obtain ⟨hact, hcluster, hregistry⟩ := w.hold_same loop
    exact advances_waits hw.linked hact (w.sweepAt_hold loop) hcluster hregistry trivial
  | awaitStop loop => exact advances_waits hw.linked rfl (fun _ => rfl) rfl rfl trivial
  | answered time x => exact advances_waits hw.linked rfl (fun _ => rfl) rfl rfl trivial

/-! ### Turns -/

/-- What may be asked of a node, past sweeps, by whoever is named. -/
def Asks (w : World) : Turn → Request → Prop
  | .activity i, r => ∃ a, w.activities[i]? = some a ∧ a.Requests r
  | .loop _, _ => False

/-- Whoever is named leaves the membership alone. -/
def Spares (w : World) : Turn → Prop
  | .activity i => ∀ a, w.activities[i]? = some a → a.Fixed
  | .loop _ => True

/-- What a turn does. -/
structure Turned (on : Operation → Prop) (w : World) (x : Turn) (w' : World) : Prop where
  fair : w'.Fair on
  others : ∀ y, y ≠ x → w'.sweepAt y = w.sweepAt y
  activities : ∀ i, x ≠ .activity i → w'.activities[i]? = w.activities[i]?
  leads : ∀ (i : Nat) a', w'.activities[i]? = some a' →
    ∃ a, w.activities[i]? = some a ∧ a.Leads a'
  ring : w'.cluster.ring = w.cluster.ring ∨
    ¬ w.Spares x ∧ w.cluster.ring.Changes w'.cluster.ring
  effect : TurnEffect on w w' (w.Asks x) (w.sweepAt x) (w'.sweepAt x)

theorem Turned.idle (hw : w.Fair on) (x : Turn) (hx : w.sweepAt x = none) :
    w.Turned on x w where
  fair := hw
  others _ _ := rfl
  activities _ _ := rfl
  leads _ a' ha' := ⟨a', ha', .refl a'⟩
  ring := .inl rfl
  effect := .other none (.refl _) (fun _ _ he => absurd he.symm (Option.some_ne_none _))
    fun run hrun => absurd (hx.symm.trans hrun).symm (Option.some_ne_none run)

/-- An activity goes on. -/
theorem Fair.turned_activity (hw : w.Fair on) {i : Nat}
    (hcandid : ∀ a, w.activities[i]? = some a → a.Candid on) :
    w.Turned on (.activity i) (w.go (.activity i)) := by
  cases hi : w.activities[i]? with
  | none =>
    rw [go_activity_none hi]
    exact .idle hw _ (by rw [sweepAt, hi]; rfl)
  | some a =>
    have hadv := stepActivity_advances hw (hw.activities i a hi) (hcandid a hi)
    have hlt : i < w.activities.size := (Array.getElem?_eq_some_iff.1 hi).1
    rw [go_activity_some hi]
    generalize w.stepActivity a = p at hadv
    obtain ⟨served, hserving⟩ := hadv.effect.serving
    have hget : ∀ j, (p.2.activities.setIfInBounds i p.1)[j]? =
        if i = j then some p.1 else w.activities[j]? := by
      intro j
      rw [hadv.activities, Array.getElem?_setIfInBounds]
      split
      · rfl
      · rfl
    have hactivity : ∀ (j : Nat) a', (p.2.activities.setIfInBounds i p.1)[j]? = some a' →
        i = j ∧ a' = p.1 ∨ w.activities[j]? = some a' := by
      intro j a' ha'
      rw [hget j] at ha'
      split at ha'
      · next he => exact .inl ⟨he, (Option.some.inj ha').symm⟩
      · exact .inr ha'
    have hhere : sweepAt { p.2 with activities := p.2.activities.setIfInBounds i p.1 }
        (.activity i) = p.1.sweepRun? := by
      simp only [sweepAt, hget i, if_true, Option.bind_some]
    have hbefore : w.sweepAt (.activity i) = a.sweepRun? := by
      rw [sweepAt, hi, Option.bind_some]
    refine ⟨⟨⟨hadv.linked.sound, hadv.linked.houses, hadv.linked.known⟩, hserving.candid hw.candid,
      fun j a' ha' => ?_, fun j run hrun => ?_⟩, fun y hy => ?_, fun j hj => ?_, fun j a' ha' => ?_,
      ?_, ?_⟩
    · rcases hactivity j a' ha' with ⟨-, rfl⟩ | ha'
      · exact hadv.fair
      · exact (hw.activities j a' ha').mono hserving.houses
    · exact (hw.loops j run ((hadv.loops j).symm.trans hrun)).mono hserving.houses
    · cases y with
      | loop j => exact hadv.loops j
      | activity j =>
        have hne : i ≠ j := fun he => hy (congrArg Turn.activity he.symm)
        simp only [sweepAt, hget j, if_neg hne]
    · have hne : i ≠ j := fun he => hj (congrArg Turn.activity he)
      exact (hget j).trans (if_neg hne)
    · rcases hactivity j a' ha' with ⟨rfl, rfl⟩ | ha'
      · exact ⟨a, hi, hadv.leads⟩
      · exact ⟨a', ha', .refl a'⟩
    · exact hadv.ring.imp_right fun h => ⟨fun hspares => h.1 (hspares a hi), h.2⟩
    · rw [hhere, hbefore]
      cases hadv.effect with
      | sweep run run' cancelled here goes ring ends =>
        exact .sweep run run' cancelled here goes ring ends
      | other served serving own fresh =>
        exact .other served serving (fun h r he => ⟨a, hi, own h r he⟩) fresh

/-- What the next event of a repair loop does. -/
structure LoopTurned (on : Operation → Prop) (w : World) (l : LoopRun) (p : LoopRun × World) :
    Prop where
  serving : ∃ served, w.cluster.fleet.ServesAtMost on p.2.cluster.fleet served
  ring : p.2.cluster.ring = w.cluster.ring
  fair : ∀ run, p.1.sweepRun? = some run → run.Fair on p.2.cluster.fleet
  effect : TurnEffect on w p.2 (fun _ => False) l.sweepRun? p.1.sweepRun?

/-- A repair loop that asks nothing goes on, perhaps with a new sweep. -/
theorem loopTurned_still (hw : w.Linked) {l : LoopRun} {p : LoopRun × World}
    (hfleet : p.2.cluster.fleet = w.cluster.fleet) (hring : p.2.cluster.ring = w.cluster.ring)
    (hfresh : ∀ run, p.1.sweepRun? = some run →
      run = ⟨.start w.cluster.ring.membership, none⟩) : LoopTurned on w l p where
  serving := ⟨none, hfleet ▸ .refl _⟩
  ring := hring
  fair run hrun := by
    rw [hfresh run hrun, hfleet]
    refine ⟨fun h hh => hw.houses h ?_, fun _ _ _ hq => absurd hq.symm (Option.some_ne_none _)⟩
    simpa [Sweep.handles, Sweep.start, Sweep.Stage.handles] using hh
  effect := .other none (hfleet ▸ .refl _)
    (fun _ _ he => absurd he.symm (Option.some_ne_none _)) hfresh

/-- An idle loop that starts a sweep starts it over the nodes of the ring. -/
theorem poll_sweeping {l : RepairLoop} (hphase : l.phase = .idle) {now : Instant} {m : Membership}
    {s : Sweep} (hs : (l.poll now m).1.phase = .sweeping s) : s = .start m := by
  simp only [RepairLoop.poll, hphase] at hs
  split at hs
  · exact nomatch hs
  · split at hs
    · exact (LoopPhase.sweeping.inj hs).symm
    · exact absurd (hphase.symm.trans hs) fun h => nomatch h

/-- A loop whose sweep has ended sweeps no longer. -/
theorem sweepEnded_not_sweeping (l : RepairLoop) (r : Report) (s : Sweep) :
    (l.sweepEnded r).1.phase ≠ .sweeping s := by
  rw [RepairLoop.sweepEnded]
  split <;> exact fun h => nomatch h

/-- The next event of a repair loop. -/
theorem stepLoop_turned (hw : w.Fair on) {i : Nat} {l : LoopRun} (hi : w.loops[i]? = some l) :
    LoopTurned on w l (w.stepLoop l) := by
  cases hphase : l.loop.phase with
  | idle =>
    let p := l.loop.poll w.cluster.now w.cluster.ring.membership
    have hstep : w.stepLoop l = (⟨p.1, none⟩, { w with cluster := w.cluster.report p.2 }) := by
      simp only [stepLoop, LoopRun.step, hphase, p]
    rw [hstep]
    refine loopTurned_still hw.linked rfl rfl fun run hrun => ?_
    rw [LoopRun.sweepRun?] at hrun
    split at hrun
    · next s hs =>
      obtain rfl := Option.some.inj hrun
      rw [poll_sweeping hphase hs]
    · exact absurd hrun.symm (Option.some_ne_none run)
  | sweeping s =>
    have hsweep : l.sweepRun? = some ⟨s, l.inquiry⟩ := by rw [LoopRun.sweepRun?, hphase]
    cases hfinished : s.isFinished with
    | true =>
      let p := l.loop.sweepEnded s.report
      have hstep : w.stepLoop l = (⟨p.1, none⟩,
          { w with cluster := (SweepRun.close s.report w.cluster).report p.2 }) := by
        simp only [stepLoop, LoopRun.step, hphase, hfinished, if_true, p]
      rw [hstep]
      refine loopTurned_still hw.linked rfl rfl fun run hrun => ?_
      rw [LoopRun.sweepRun?] at hrun
      split at hrun
      · next s' hs => exact absurd hs (sweepEnded_not_sweeping l.loop s.report s')
      · exact absurd hrun.symm (Option.some_ne_none run)
    | false =>
      let p := SweepRun.step ⟨s, l.inquiry⟩ l.loop.signalled w.cluster
      have hstep : w.stepLoop l = (⟨{ l.loop with phase := .sweeping p.1.sweep }, p.1.inquiry⟩,
          { w with cluster := p.2 }) := by
        simp only [stepLoop, LoopRun.step, hphase, hfinished, Bool.false_eq_true, if_false, p]
      have hloop : w.sweepAt (.loop i) = some ⟨s, l.inquiry⟩ := by
        rw [sweepAt, hi, Option.bind_some, hsweep]
      obtain ⟨hgoes, hfair, hring⟩ := SweepRun.Fair.goes hw.candid hw.linked.sound
        hw.linked.houses (hw.loops i _ hloop) l.loop.signalled
      rw [hstep]
      refine ⟨hgoes.serving, hring, fun run hrun => ?_, ?_⟩
      · obtain rfl : p.1 = run := Option.some.inj hrun
        exact hfair
      · rw [hsweep]
        exact .sweep _ p.1 l.loop.signalled rfl hgoes hring (.inl rfl)
  | stopped =>
    have hstep : w.stepLoop l = (l, w) := by simp only [stepLoop, LoopRun.step, hphase]
    rw [hstep]
    refine loopTurned_still hw.linked rfl rfl fun run hrun => ?_
    rw [LoopRun.sweepRun?, hphase] at hrun
    exact absurd hrun.symm (Option.some_ne_none run)

/-- A repair loop goes on. -/
theorem Fair.turned_loop (hw : w.Fair on) (i : Nat) :
    w.Turned on (.loop i) (w.go (.loop i)) := by
  cases hi : w.loops[i]? with
  | none =>
    rw [go_loop_none hi]
    exact .idle hw _ (by rw [sweepAt, hi]; rfl)
  | some l =>
    obtain ⟨⟨served, hserving⟩, hring, hfair, hdoes⟩ := stepLoop_turned hw hi
    have hlt : i < w.loops.size := (Array.getElem?_eq_some_iff.1 hi).1
    rw [go_loop_some hi]
    have hsame : (w.stepLoop l).2.activities = w.activities ∧
        (w.stepLoop l).2.loops = w.loops ∧ (w.stepLoop l).2.registry = w.registry :=
      ⟨rfl, rfl, rfl⟩
    generalize w.stepLoop l = p at *
    obtain ⟨hact, hloops, hregistry⟩ := hsame
    have hget : ∀ j, sweepAt { p.2 with loops := p.2.loops.setIfInBounds i p.1 } (.loop j) =
        if i = j then p.1.sweepRun? else w.sweepAt (.loop j) := by
      intro j
      simp only [sweepAt, hloops, Array.getElem?_setIfInBounds]
      split
      · rfl
      · rfl
    have hbefore : w.sweepAt (.loop i) = l.sweepRun? := by rw [sweepAt, hi, Option.bind_some]
    refine ⟨⟨hw.linked.mono hring hregistry hserving.houses, hserving.candid hw.candid,
      fun j a ha => ?_, fun j run hrun => ?_⟩, fun y hy => ?_, fun j _ => by rw [hact],
      fun j a ha => ⟨a, hact ▸ ha, .refl a⟩, .inl hring, ?_⟩
    · exact (hw.activities j a (hact ▸ ha)).mono hserving.houses
    · rw [hget j] at hrun
      split at hrun
      · exact hfair run hrun
      · exact (hw.loops j run hrun).mono hserving.houses
    · cases y with
      | activity j => simp only [sweepAt, hact]
      | loop j =>
        have hne : i ≠ j := fun he => hy (congrArg Turn.loop he.symm)
        rw [hget j, if_neg hne]
    · rw [hget i, if_pos rfl, hbefore]
      cases hdoes with
      | sweep run run' cancelled here goes ring ends =>
        exact .sweep run run' cancelled here goes ring ends
      | other served serving own fresh => exact .other served serving own fresh

/-- **A turn.** Whoever goes on, at most one request is served: one of a client's own operation, or
one of the sweep that goes on. -/
theorem Fair.turned (hw : w.Fair on) {x : Turn}
    (hcandid : ∀ (i : Nat) a, x = .activity i → w.activities[i]? = some a → a.Candid on) :
    w.Turned on x (w.go x) := by
  cases x with
  | activity i => exact hw.turned_activity fun a => hcandid i a rfl
  | loop i => exact hw.turned_loop i

/-- What becomes of an activity in its own turn. -/
theorem Fair.go_activity (hw : w.Fair on) {i : Nat} (hi : w.activities[i]? = some a)
    (ha : a.Candid on) : (w.go (.activity i)).activities[i]? = some (w.stepActivity a).1 := by
  have hadv := stepActivity_advances hw (hw.activities i a hi) ha
  have hlt : i < w.activities.size := (Array.getElem?_eq_some_iff.1 hi).1
  rw [go_activity_some hi, hadv.activities, Array.getElem?_setIfInBounds_self_of_lt hlt]

theorem Turned.houses {x : Turn} (ht : w.Turned on x w') {y : Handle}
    (hy : w.cluster.fleet.Houses y) : w'.cluster.fleet.Houses y := by
  obtain ⟨served, hserving⟩ := ht.effect.serving
  exact hserving.houses y hy

/-- **Data.** A turn changes a value only by a request of whoever goes on, or by a copy of the sweep
that goes on. -/
theorem Turned.held {x : Turn} (ht : w.Turned on x w') {y : Handle}
    (hy : w.cluster.fleet.Houses y) (k : String) :
    w'.cluster.fleet.held y k = w.cluster.fleet.held y k ∨
      (∃ r, w.Asks x r ∧ w'.cluster.fleet.held y k = r.effect k (w.cluster.fleet.held y k)) ∨
      ∃ run job u, w.sweepAt x = some run ∧ run.sweep.stage = .waiting (.copying job y u) ∧
        job.key = k ∧ w'.cluster.fleet.held y k = some u := by
  cases ht.effect with
  | sweep run run' cancelled here goes ring ends =>
    rcases goes.held hy k with hsame | ⟨job, u, hstage, hk, hnew⟩
    · exact .inl hsame
    · exact .inr (.inr ⟨run, job, u, here, hstage, hk, hnew⟩)
  | other served serving own fresh =>
    have hheld := serving.held y hy k
    rcases served with _ | ⟨z, r⟩
    · exact .inl hheld
    · rw [Fleet.after] at hheld
      split at hheld
      · exact .inr (.inl ⟨r, own z r rfl, hheld⟩)
      · exact .inl hheld

/-- **Sweeps.** A sweep under way was under way before the turn and has gone on in it or not, or it
has just started. -/
theorem Turned.sweeps {x z : Turn} {run : SweepRun} (ht : w.Turned on x w')
    (hrun : w'.sweepAt z = some run) :
    w.sweepAt z = some run ∨ run = ⟨.start w.cluster.ring.membership, none⟩ ∨
      ∃ run₀ cancelled, w.sweepAt z = some run₀ ∧
        run₀.Goes on w.cluster w'.cluster.fleet cancelled run := by
  by_cases hz : z = x
  · subst hz
    cases ht.effect with
    | sweep run₀ run' cancelled here goes ring ends =>
      rcases ends with he | he
      · obtain rfl := Option.some.inj (he.symm.trans hrun)
        exact .inr (.inr ⟨run₀, cancelled, here, goes⟩)
      · exact absurd (he.symm.trans hrun).symm (Option.some_ne_none run)
    | other served serving own fresh => exact .inr (.inl (fresh run hrun))
  · exact .inl ((ht.others z hz).symm.trans hrun)

/-- A condition on activities that lasts while they go on. -/
def Lasts (P : Activity → Prop) : Prop := ∀ a a' : Activity, a.Leads a' → P a → P a'

theorem Fair.advanceTo (hw : w.Fair on) (t : Instant) : (w.advanceTo t).Fair on :=
  ⟨⟨hw.linked.sound, hw.linked.houses, hw.linked.known⟩, hw.candid, hw.activities, hw.loops⟩

/-- The membership stays the same unless whoever goes on changes it. -/
theorem Turned.ring_eq {x : Turn} (ht : w.Turned on x w') (hx : w.Spares x) :
    w'.cluster.ring = w.cluster.ring := ht.ring.resolve_right fun h => h.1 hx

/-! ### Runs -/

/-- A fair world stays fair along every schedule whose activities meet a condition, and they go on
to meet it. -/
theorem Fair.follow {P : Activity → Prop} (hlasts : Lasts P) (hcandid : ∀ a, P a → a.Candid on)
    {past rest : List (Instant × Turn)} (hw : w.Fair on) (hcalls : w.Calls (past ++ rest) P) :
    (w.follow past).Fair on ∧ (w.follow past).Calls rest P := by
  induction past generalizing w with
  | nil => exact ⟨hw, hcalls⟩
  | cons turn past ih =>
    obtain ⟨t, x⟩ := turn
    have hturned := (hw.advanceTo t).turned (x := x) fun i a hx ha =>
      hcandid a (hcalls i a ⟨t, hx ▸ List.mem_cons_self ..⟩ ha)
    refine ih hturned.fair fun i a' ⟨t', hi⟩ ha' => ?_
    obtain ⟨a, ha, hleads⟩ := hturned.leads i a' ha'
    exact hlasts a a' hleads (hcalls i a ⟨t', List.mem_cons_of_mem _ hi⟩ ha)

/-- **Runs.** What each turn of a fair world keeps is kept by every schedule whose activities meet a
condition. The turns so far are at hand, for what is kept may refer to them. -/
theorem Fair.follow_turned {P : Activity → Prop} (hlasts : Lasts P)
    (hcandid : ∀ a, P a → a.Candid on) {turns : List (Instant × Turn)} (hw : w.Fair on)
    (hcalls : w.Calls turns P) {Q : List (Instant × Turn) → Prop} (hstart : Q [])
    (hturn : ∀ past t x v, past ++ [(t, x)] <+: turns → v = (w.follow past).advanceTo t → Q past →
      v.Fair on → (∀ (i : Nat) a, x = .activity i → v.activities[i]? = some a → P a) →
      v.Turned on x (v.go x) → Q (past ++ [(t, x)])) : Q turns := by
  refine follow_induction turns hstart fun past t x hinit hq => ?_
  obtain ⟨rest, hrest⟩ := hinit
  rw [List.append_assoc] at hrest
  obtain ⟨hfair, hpast⟩ := hw.follow hlasts hcandid (hrest ▸ hcalls)
  have hcalled : ∀ (i : Nat) a, x = .activity i →
      ((w.follow past).advanceTo t).activities[i]? = some a → P a := fun i a hx ha =>
    hpast i a ⟨t, hx ▸ List.mem_cons_self ..⟩ ha
  exact hturn past t x _ ⟨rest, by rw [List.append_assoc, hrest]⟩ rfl hq (hfair.advanceTo t) hcalled
    ((hfair.advanceTo t).turned fun i a hi ha => hcandid a (hcalled i a hi ha))

end World

/-- An activity asks only certain requests, and the nodes and scripts that it brings in make up no
answer to requests of certain kinds. -/
structure Activity.Only (on : Operation → Prop) (ok : Request → Prop) (a : Activity) : Prop where
  candid : a.Candid on
  requests : ∀ r, a.Requests r → ok r

/-- An activity asks only certain requests, makes nothing up and leaves the membership alone. -/
structure Activity.Calm (ok : Request → Prop) (a : Activity) : Prop where
  only : a.Only Operation.every ok
  fixed : a.Fixed

theorem Activity.Only.lasts {on : Operation → Prop} {ok : Request → Prop} :
    World.Lasts (Activity.Only on ok) := fun _ _ hleads h =>
  ⟨hleads.candid h.candid, fun r hr => h.requests r (hleads.requests r hr)⟩

theorem Activity.Calm.lasts {ok : Request → Prop} : World.Lasts (Activity.Calm ok) :=
  fun _ _ hleads h => ⟨Activity.Only.lasts _ _ hleads h.only, hleads.fixed h.fixed⟩

namespace World

variable {on : Operation → Prop} {ok : Request → Prop} {w : World} {x : Turn}

/-- Whoever goes on asks only what is allowed. -/
theorem asks_only
    (hcalled : ∀ (i : Nat) a, x = .activity i → w.activities[i]? = some a → a.Only on ok)
    {r : Request} (hr : w.Asks x r) : ok r := by
  cases x with
  | loop i => exact False.elim hr
  | activity i =>
    obtain ⟨a, ha, har⟩ := hr
    exact (hcalled i a rfl ha).requests r har

/-- Whoever goes on leaves the membership alone. -/
theorem spares_of_fixed
    (hcalled : ∀ (i : Nat) a, x = .activity i → w.activities[i]? = some a → a.Fixed) :
    w.Spares x := by
  cases x with
  | loop i => exact trivial
  | activity i => exact fun a ha => hcalled i a rfl ha

theorem spares_of_calm
    (hcalled : ∀ (i : Nat) a, x = .activity i → w.activities[i]? = some a → a.Calm ok) :
    w.Spares x := spares_of_fixed fun i a hx ha => (hcalled i a hx ha).fixed

/-- Nothing has started yet. -/
structure Fresh (w : World) : Prop where
  activities : ∀ a ∈ w.activities, ∃ t op, a = .later t op
  loops : w.loops = #[]

theorem Fresh.sweepAt (h : w.Fresh) (x : Turn) : w.sweepAt x = none := by
  cases x with
  | activity i =>
    rw [World.sweepAt]
    cases hi : w.activities[i]? with
    | none => rfl
    | some a =>
      obtain ⟨t, op, rfl⟩ := h.activities a (Array.mem_of_getElem? hi)
      rfl
  | loop i => simp [World.sweepAt, h.loops]

/-- A world in which nothing has started is fair if its nodes are. -/
theorem Fresh.fair (h : w.Fresh) (hl : w.Linked) (hc : w.cluster.fleet.Candid on) :
    w.Fair on where
  linked := hl
  candid := hc
  activities i a ha := by
    obtain ⟨t, op, rfl⟩ := h.activities a (Array.mem_of_getElem? ha)
    exact trivial
  loops i run hrun := absurd ((h.sweepAt (.loop i)).symm.trans hrun).symm (Option.some_ne_none run)

end Scenario.World

end ReplicaRing
