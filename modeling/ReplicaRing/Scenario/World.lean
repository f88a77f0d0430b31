import ReplicaRing.Metrics.Exposition
import ReplicaRing.Scenario.Activity

/-!
# The world of a scenario

* `World` — a cluster with its repair loops, its activities and what the scenario keeps in mind;
* `World.draws` — random identities;
* `World.begin` — the start of an operation.
-/

namespace ReplicaRing.Scenario

/-- Identities that stand for random ones: a stream without repetition in practice. -/
def hashed (i : Nat) : NodeId := ⟨KeyHasher.sha1 (toString i)⟩

/-- Everything that a scenario works on. -/
structure World where
  cluster : Cluster
  /-- Whether there is a ring. -/
  hasRing : Bool := true
  loops : Array LoopRun := #[]
  /-- The repair loop that a request to stop is for. -/
  held : Option Nat := none
  activities : Array Activity := #[]
  /-- The nodes that the scenario knows, on the ring or not. -/
  registry : OrderedMap NodeId Handle := .empty
  /-- Memberships kept under names. -/
  kept : OrderedMap String Membership := .empty
  /-- Nodes added at random places, the oldest first. -/
  randoms : List NodeId := []
  /-- The random identities, one after the other. -/
  stream : Nat → NodeId := hashed
  /-- How many of them have been drawn. -/
  drawn : Nat := 0

namespace World

/-- The next random identities. -/
def draws (w : World) (count : Nat) : List NodeId :=
  (List.range count).map fun i => w.stream (w.drawn + i)

/-- An operation that is answered at once and changes the cluster. -/
def answer (w : World) (c : Cluster) (a : Answer) : Activity × World :=
  (.now c a, { w with cluster := c })

/-- An operation that is answered at once and changes nothing. -/
def reply (w : World) (a : Answer) : Activity × World := (.now w.cluster a, w)

/-- The outcome of starting an activity on the cluster. -/
def started (w : World) (p : Activity × Cluster) : Activity × World :=
  (p.1, { w with cluster := p.2 })

/-- Go on with a known node. -/
def withNode (w : World) (id : NodeId) (f : Handle → Activity × World) : Activity × World :=
  match w.registry.find? id with
  | some h => f h
  | none => w.reply (.rejected "unknown node")

/-- Change a known node at once. -/
def changeNode (w : World) (id : NodeId) (f : Node → Node) : Activity × World :=
  w.withNode id fun h =>
    w.answer { w.cluster with fleet := w.cluster.fleet.update h f } .done

/-- Look at a known node. -/
def viewNode (w : World) (id : NodeId) (f : Node → Answer) : Activity × World :=
  w.withNode id fun h => w.reply (f (w.cluster.fleet.node h))

/-- The nodes of a selection, or why there are none. Choosing the replicas of a key is reported. -/
def select (w : World) : Selection → Except Answer (Placement × Cluster)
  | .ofKey key =>
    if w.hasRing then .ok (w.cluster.place key) else .error (.rejected "no such nodes")
  | .atPosition position count =>
    if w.hasRing then
      match w.cluster.ring.membership.replicaSet position count with
      | .ok p => .ok (p, w.cluster)
      | .error o => .error (.overflow o)
    else .error (.rejected "no such nodes")
  | .nodes ids =>
    match ids.mapM w.registry.find? with
    | some handles => .ok (.ofList handles, w.cluster)
    | none => .error (.rejected "no such nodes")

/-- Go on with the nodes of a selection. -/
def withSelection (w : World) (choice : Selection) (f : Placement → Cluster → Activity × World) :
    Activity × World :=
  match w.select choice with
  | .ok (p, c) => f p c
  | .error a => w.reply a

/-! ### Starting operations -/

/-- A client operation breaks off at once, for the clock cannot tell its deadline. It has been
counted, and its timer stops. -/
def breakOff (w : World) (op : ClientOp) : Activity × World :=
  w.answer ((w.cluster.beginOp op).endOp op 0 w.cluster.now) (.overflow .deadline)

/-- Start a write of a client. -/
def beginWrite (w : World) (change : Change) (key : String) (timeout : Option Duration) :
    Activity × World :=
  let limit := w.cluster.ring.options.limit timeout
  if limit.fits then
    let (p, c) := (w.cluster.beginOp change.op).place key
    let (write, fleet) := Write.start c.env c.now limit change key p c.fleet
    w.started (Activity.ofWrite { c with fleet := fleet } write true)
  else w.breakOff change.op

/-- Start a read of a client. -/
def beginRead (w : World) (key : String) (timeout : Option Duration) : Activity × World :=
  let limit := w.cluster.ring.options.limit timeout
  if limit.fits then
    let (p, c) := (w.cluster.beginOp .get).place key
    let (run, c) := ReadRun.start c key p limit
    w.started (Activity.ofRead c run (p.primary?.map (·.id)) true)
  else w.breakOff .get

/-- Add a node that is known already. -/
def addKnown (w : World) (h : Handle) : Activity × World :=
  match w.cluster.ring.add h with
  | .ok ring =>
    let c := { w.cluster with ring := ring }.report [.added h.id ring.membership.size]
    ({ w with registry := w.registry.insert h.id h }).answer c .done
  | .error e => w.reply (.ringError e)

/-- Add a node that is not known yet. -/
def addNew (w : World) (n : Node) : Activity × World :=
  let (h, fleet) := w.cluster.fleet.enlist n
  { w with cluster := { w.cluster with fleet := fleet } }.addKnown h

/-- How many identities are drawn to find one that is not on the ring: one more than are on it. -/
def drawCount (w : World) : Nat := w.cluster.ring.membership.size + 1

/-- Add a node at a random place. -/
def addRandom (w : World) : Activity × World :=
  match w.cluster.ring.freeId? (w.draws w.drawCount) with
  | none => w.reply (.rejected "no free place")
  | some id =>
    let (h, fleet) := w.cluster.fleet.enlist { id := id }
    match w.cluster.ring.add h with
    | .ok ring =>
      let c := { w.cluster with fleet := fleet, ring := ring }.report
        [.added id ring.membership.size]
      { w with drawn := w.drawn + w.drawCount, randoms := w.randoms ++ [id] }.answer c
        (.addedRandom (ring.membership.contains id))
    | .error e => w.reply (.ringError e)

/-- Drop a node. -/
def dropNode (w : World) (id : NodeId) (a : NodeId → Answer) : Activity × World :=
  match w.cluster.ring.drop id with
  | .ok (h, ring) =>
    w.answer ({ w.cluster with ring := ring }.report [.dropped id ring.membership.size]) (a h.id)
  | .error e => w.reply (.ringError e)

/-- Change a repair loop. -/
def changeLoop (w : World) (i : Nat) (f : RepairLoop → RepairLoop) : World :=
  { w with loops := w.loops.modify i fun run => { run with loop := f run.loop } }

/-- Start a repair loop and let it run for a while. -/
def startRepair (w : World) (interval settle : Duration) : Activity × World :=
  let c := w.cluster.report (RepairLoop.startEvents interval)
  let run : LoopRun := { loop := .start c.now interval }
  (.settle (c.after settle) w.loops.size,
    { w with cluster := c, loops := w.loops.push run })

/-- Hold a repair loop. The one that has been held before is abandoned. -/
def hold (w : World) (i : Nat) : World :=
  let w := match w.held with
    | some old => w.changeLoop old .abandon
    | none => w
  { w with held := some i }

/-- Tell the repair loop that is held to stop, let go of it and wait for its end. -/
def stopRepair (w : World) : Activity × World :=
  match w.held with
  | some i => (.awaitStop i, { w.changeLoop i .signal with held := none })
  | none => w.reply .done

/-- Whether no repair loop is held but one that has ended. -/
def isRepairStopped (w : World) : Bool :=
  (w.held.bind fun i => w.loops[i]?).all fun run => run.loop.isStopped

/-- What a kept membership shows. -/
def showSaved (w : World) (name : String) (position : Option UInt64) (count : Option Nat) :
    Answer :=
  match w.kept.find? name with
  | some m =>
    match position with
    | none => .saved m none
    | some p =>
      match m.replicaSet p (count.getD w.cluster.ring.options.replicaCount) with
      | .ok placed => .saved m (some placed)
      | .error o => .overflow o
  | none => .rejected "nothing kept under that name"

/-- The store of every known node. -/
def contents (w : World) : List (NodeId × Bool × Store) :=
  w.registry.entries.map fun e =>
    (e.1, w.hasRing && w.cluster.ring.membership.contains e.1, (w.cluster.fleet.node e.2).store)

/-- Whether an operation can do without a ring. -/
def ringless : Op → Bool
  | .placement _ _ | .writeTo _ _ _ _ | .readFrom _ _ _ | .nodeId _ | .ask _ _ | .serve _ _
  | .storeSize _ | .fail _ | .recover _ | .isDown _ | .nodeDebug _ | .setFailureRate _ _
  | .setLatency _ _ | .script _ _ _ | .dump | .sleep _ => true
  | _ => false

/-- Start an operation whose ring, if it needs one, is there. -/
def beginChecked (w : World) (op : Op) : Activity × World :=
  let c := w.cluster
  match op with
  | .put key value timeout => w.beginWrite (.put value) key timeout
  | .delete key timeout => w.beginWrite .delete key timeout
  | .get key timeout => w.beginRead key timeout
  | .clear =>
    let (run, c) := WipeRun.start c
    w.started (Activity.ofWipe c run)
  | .add node => w.addNew node
  | .addAgain id => w.withNode id w.addKnown
  | .drop id => w.dropNode id .dropped
  | .addRandom => w.addRandom
  | .dropRandom =>
    match w.randoms.find? c.ring.membership.contains with
    | some id => w.dropNode id fun _ => .droppedRandom
    | none => w.reply (.rejected "no random node")
  | .size => w.reply (.size c.ring.membership.size)
  | .nodeIds => w.reply (.ids c.ring.membership.ids)
  | .lookup id =>
    let m := c.ring.membership
    w.reply (.found ((m.find? id).map (·.id)) (m.contains id))
  | .snapshot => w.reply (.members c.ring.membership)
  | .save name => { w with kept := w.kept.insert name c.ring.membership }.reply .done
  | .showSaved name position count => w.reply (w.showSaved name position count)
  | .options => w.reply (.options c.ring.options)
  | .debug => w.reply (.text c.ring.debug)
  | .position key => w.reply (.position (c.ring.position key))
  | .placement choice probes =>
    w.withSelection choice fun p c => w.answer c (.placement p (probes.map p.contains))
  | .writeTo choice change key timeout =>
    w.withSelection choice fun p c =>
      if timeout.fits then
        let (write, fleet) := Write.start c.env c.now timeout change key p c.fleet
        w.started (Activity.ofWrite { c with fleet := fleet } write false)
      else w.answer c (.overflow .deadline)
  | .readFrom choice key timeout =>
    w.withSelection choice fun p c =>
      if timeout.fits then
        let (run, c) := ReadRun.start c key p timeout
        w.started (Activity.ofRead c run (p.primary?.map (·.id)) false)
      else w.answer c (.overflow .deadline)
  | .nodeId id => w.viewNode id fun n => .nodeId n.id
  | .ask id request =>
    w.withNode id fun h =>
      let (q, c) := c.ask h request none
      (.ask request q, { w with cluster := c })
  | .serve id request =>
    w.withNode id fun h =>
      let (reply, fleet, events) := c.fleet.serve h request
      w.answer ({ c with fleet := fleet }.report events) (.ofReply request reply)
  | .storeSize id => w.viewNode id fun n => .size n.store.size
  | .fail id => w.changeNode id Node.fail
  | .recover id => w.changeNode id Node.recover
  | .isDown id => w.viewNode id fun n => .flag n.isDown
  | .nodeDebug id => w.viewNode id fun n => .text n.debug
  | .setFailureRate id rate => w.changeNode id (Node.setFailureRate rate)
  | .setLatency id latency => w.changeNode id (Node.setLatency latency)
  | .script id rules phantoms =>
    w.changeNode id fun n => { n with faults := .scripted rules phantoms }
  | .dump => w.reply (.contents w.contents)
  | .repair cancelAfter =>
    let cancelAt := cancelAfter.map c.after
    (.sweep { sweep := .start c.ring.membership } cancelAt, w)
  | .startRepair interval settle => w.startRepair interval settle
  | .isRepairStopped => w.reply (.flag w.isRepairStopped)
  | .stopRepair => w.stopRepair
  | .sleep time => (.pause (c.after time), w)
  | .metrics comments =>
    let shown := fun l => !Metrics.isTimingLine l && (comments || !Metrics.isComment l)
    w.reply (.lines (c.metrics.exposition.filter shown))

/-- Start an operation. -/
def begin (w : World) (op : Op) : Activity × World :=
  if w.hasRing || ringless op then w.beginChecked op else w.reply (.rejected "no ring")

end World

end ReplicaRing.Scenario
