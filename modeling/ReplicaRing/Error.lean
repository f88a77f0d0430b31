import ReplicaRing.NodeId
import ReplicaRing.Options
import ReplicaRing.Text.Quoted

/-!
# Errors

* `NodeError` — why one node did not carry out a request;
* `RingError` — why the ring refused a change or could not complete an operation;
* `message` of either — its wording; `debug` — it as a printed value;
* `Overflow` — why an operation breaks off without an outcome.
-/

namespace ReplicaRing

/-- Why one node did not carry out a request. -/
inductive NodeError where
  | unavailable (node : NodeId)
  | timeout (node : NodeId)
  | failed (node : NodeId) (reason : String)
  deriving DecidableEq, Repr

namespace NodeError

/-- The wording of a node's failure. -/
def message : NodeError → String
  | unavailable node => s!"node {node.display} unavailable"
  | timeout node => s!"node {node.display} timed out"
  | failed node reason => s!"node {node.display} failed: {reason}"

/-- A node's failure as a printed value. -/
def debug : NodeError → String
  | unavailable node => s!"Unavailable({node.debug})"
  | timeout node => s!"Timeout({node.debug})"
  | failed node reason => s!"Failed \x7b node: {node.debug}, reason: {Quoted.string reason} \x7d"

end NodeError

/-- Why the ring refused a change or could not complete an operation. -/
inductive RingError where
  /-- The membership would have `size` nodes, fewer than `replicas`. -/
  | ringTooSmall (size replicas : Nat)
  | duplicateNode (node : NodeId)
  | unknownNode (node : NodeId)
  | invalidOptions (reason : String)
  /-- Only `got` answers of the `needed` ones arrived, and none is outstanding. -/
  | quorumNotReached (needed got : Nat)
  /-- The deadline passed before the operation on `key` was decided. -/
  | timeout (key : String) (elapsed : Duration)
  | node (error : NodeError)
  | metrics (reason : String)
  deriving DecidableEq, Repr

namespace RingError

/-- The wording of an error. -/
def message : RingError → String
  | ringTooSmall size replicas => s!"ring size {size} is smaller than replica count {replicas}"
  | duplicateNode id => s!"duplicate node id {id.display}"
  | unknownNode id => s!"unknown node {id.display}"
  | invalidOptions reason => s!"invalid ring options: {reason}"
  | quorumNotReached needed got => s!"quorum not reached: need {needed}, got {got}"
  | timeout key elapsed => s!"operation on key '{key}' timed out after {elapsed.render}"
  | node error => s!"node error: {error.message}"
  | metrics reason => s!"metrics registry error: Error: {reason}"

/-- An error as a printed value. -/
def debug : RingError → String
  | ringTooSmall size replicas => s!"RingTooSmall \x7b size: {size}, replicas: {replicas} \x7d"
  | duplicateNode id => s!"DuplicateNode({id.debug})"
  | unknownNode id => s!"UnknownNode({id.debug})"
  | invalidOptions reason => s!"InvalidOptions({Quoted.string reason})"
  | quorumNotReached needed got => s!"QuorumNotReached \x7b needed: {needed}, got: {got} \x7d"
  | timeout key elapsed =>
    s!"Timeout \x7b key: {Quoted.string key}, elapsed: {elapsed.render} \x7d"
  | node error => s!"Node({error.debug})"
  | metrics reason => s!"Metrics(Msg({Quoted.string reason}))"

end RingError

/-- A quantity that there is no room for. An operation that meets one breaks off. -/
inductive Overflow where
  /-- A deadline that the clock cannot tell. -/
  | deadline
  /-- A number of replicas that no list has room for. -/
  | capacity
  deriving DecidableEq, Repr

/-- The options, or the error that names their first fault. -/
def RingOptions.validate (o : RingOptions) : Except RingError Unit :=
  match o.fault? with
  | some fault => .error (.invalidOptions fault.message)
  | none => .ok ()

end ReplicaRing
