import ReplicaRing.Error
import ReplicaRing.OrderedMap

/-!
# Stores and requests

A node keeps its data in a store, a finite map from keys to values, and answers five kinds of
requests from it.

* `Request` — the requests, with the type of their replies;
* `Store.serve` — the reply of a store and the store afterwards.
-/

namespace ReplicaRing

/-- The data of a node. -/
abbrev Store := OrderedMap String String

/-- What can be asked of a node. -/
inductive Request where
  /-- Store a value, over any earlier one. -/
  | set (key value : String)
  | get (key : String)
  /-- Remove a key; an absent one stays absent. -/
  | delete (key : String)
  /-- Remove every key. -/
  | clear
  /-- List the keys. -/
  | keys
  deriving DecidableEq, Repr

namespace Request

/-- What a successful request returns. -/
abbrev Reply : Request → Type
  | set _ _ => Unit
  | get _ => Option String
  | delete _ => Unit
  | clear => Unit
  | keys => List String

/-- What a request returns: a reply, or why there is none. -/
abbrev Answer (r : Request) : Type := Except NodeError r.Reply

/-- The reply that says nothing was found and nothing had to be done. -/
def emptyReply : (r : Request) → r.Reply
  | set _ _ => ()
  | get _ => none
  | delete _ => ()
  | clear => ()
  | keys => []

end Request

/-- The reply of a store to a request, and the store afterwards. -/
def Store.serve : (r : Request) → Store → r.Reply × Store
  | .set key value, s => ((), s.insert key value)
  | .get key, s => (s.find? key, s)
  | .delete key, s => ((), s.erase key)
  | .clear, _ => ((), .empty)
  | .keys, s => (s.keys, s)

end ReplicaRing
