import ReplicaRing.KeyHasher
import ReplicaRing.LogEvent
import ReplicaRing.Membership

/-!
# The ring

A ring is a key hasher, its options and the membership that is published at the moment.

* `Ring.create` — a ring over given nodes, or why there is none;
* `Ring.createRandom` — a ring over new nodes at random places;
* `Ring.add`, `Ring.drop` — the two changes of membership, each of which either succeeds as a
  whole or leaves the ring as it was;
* `Ring.placement` — the nodes responsible for a key.
-/

namespace ReplicaRing

/-- A replicated key/value ring without the data of its nodes. -/
structure Ring where
  hasher : KeyHasher
  options : RingOptions
  membership : Membership

namespace Ring

/-! ### Construction -/

/-- Enter nodes one after the other, until one has the identity of an earlier one. -/
def enter (nodes : OrderedMap NodeId Handle) :
    List Handle → Except RingError (OrderedMap NodeId Handle)
  | [] => .ok nodes
  | h :: rest =>
    if nodes.contains h.id then .error (.duplicateNode h.id)
    else enter (nodes.insert h.id h) rest

/-- Build a ring over nodes. The options are checked first, then the number of nodes, then
whether their identities differ. -/
def create (hasher : KeyHasher) (options : RingOptions) (handles : List Handle) :
    Except RingError Ring :=
  match options.validate with
  | .error e => .error e
  | .ok () =>
    if handles.length < options.replicaCount then
      .error (.ringTooSmall handles.length options.replicaCount)
    else (enter .empty handles).map fun nodes => ⟨hasher, options, ⟨nodes, 0⟩⟩

/-- What is reported when a ring is built over nodes. -/
def creationEvents (handles : List Handle) : List LogEvent := handles.map fun h => .created h.id

/-- The first `size` different identities of a list of draws, ascending. -/
def distinct (size : Nat) : List NodeId → OrderedMap NodeId Unit → OrderedMap NodeId Unit
  | [], found => found
  | id :: draws, found =>
    if size ≤ found.size then found else distinct size draws (found.insert id ())

/-- New nodes at random places: each gets the next slot from `slot` on. -/
def randomHandles (size slot : Nat) (draws : List NodeId) : List Handle :=
  (distinct size draws .empty).keys.zipIdx.map fun e => ⟨e.1, slot + e.2⟩

/-- Build a ring over `size` new nodes at random places. The size is checked before the
options. -/
def createRandom (hasher : KeyHasher) (options : RingOptions) (size slot : Nat)
    (draws : List NodeId) : Except RingError (Ring × List Handle) :=
  if size < options.replicaCount then .error (.ringTooSmall size options.replicaCount)
  else
    let handles := randomHandles size slot draws
    (create hasher options handles).map fun ring => (ring, handles)

/-! ### Changes of membership -/

/-- Publish changed nodes, unless they are fewer than a key has replicas. -/
def publish (r : Ring) (nodes : OrderedMap NodeId Handle) : Except RingError Ring :=
  if nodes.size < r.options.replicaCount then
    .error (.ringTooSmall nodes.size r.options.replicaCount)
  else .ok { r with membership := ⟨nodes, r.membership.version + 1⟩ }

/-- Add a node whose identity is not on the ring. -/
def add (r : Ring) (h : Handle) : Except RingError Ring :=
  if r.membership.contains h.id then .error (.duplicateNode h.id)
  else r.publish (r.membership.nodes.insert h.id h)

/-- The first draw that is not on the ring. -/
def freeId? (r : Ring) (draws : List NodeId) : Option NodeId :=
  draws.find? fun id => !r.membership.contains id

/-- Remove the node with that identity and return it. -/
def drop (r : Ring) (id : NodeId) : Except RingError (Handle × Ring) :=
  match r.membership.find? id with
  | none => .error (.unknownNode id)
  | some h => (r.publish (r.membership.nodes.erase id)).map fun r' => (h, r')

/-! ### Placement -/

/-- The position of a key. -/
def position (r : Ring) (key : String) : UInt64 := r.hasher key

/-- The nodes responsible for a key under the published membership. -/
def placement (r : Ring) (key : String) : Placement :=
  r.membership.placement (r.position key) r.options.replicaCount

/-- What is reported whenever the nodes responsible for a key are chosen. -/
def placementEvent (r : Ring) (key : String) : LogEvent :=
  .placed (r.placement key).ids key (r.position key)

/-- A ring as a printed value. -/
def debug (r : Ring) : String :=
  s!"Ring \x7b options: {r.options.debug}, membership: {r.membership.debug}, .. \x7d"

end Ring

end ReplicaRing
