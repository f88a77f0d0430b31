import ReplicaRing.Error
import ReplicaRing.Sweep.Report

/-!
# Log events

* `LogEvent` — everything that the ring, its nodes and its repair report while they work;
* `LogEvent.level`, `LogEvent.message`, `LogEvent.render` — its weight, its wording, its line.
-/

namespace ReplicaRing

/-- The kinds of client operations on a key. -/
inductive ClientOp where
  | put
  | get
  | delete
  deriving DecidableEq, Repr

/-- The name of an operation in messages and labels. -/
def ClientOp.name : ClientOp → String
  | put => "put"
  | get => "get"
  | delete => "delete"

/-- How much an event matters. -/
inductive LogLevel where
  | debug
  | info
  | warn
  deriving DecidableEq, Repr

/-- The name of a level. -/
def LogLevel.name : LogLevel → String
  | debug => "DEBUG"
  | info => "INFO"
  | warn => "WARN"

/-- Something worth reporting. -/
inductive LogEvent where
  /-- A node joined a ring under construction. -/
  | created (node : NodeId)
  /-- The replicas of a key were chosen. -/
  | placed (replicas : List NodeId) (key : String) (position : UInt64)
  | added (node : NodeId) (size : Nat)
  | dropped (node : NodeId) (size : Nat)
  /-- A replica answered an operation with an error. -/
  | replicaFailed (op : ClientOp) (key : String) (node : NodeId) (error : NodeError)
  /-- A replica did not answer a write before its deadline. -/
  | replicaTimedOut (op : ClientOp) (key : String) (node : NodeId)
  | readExpired (key : String)
  | servedByBackup (key : String) (node : NodeId)
  | clearFailed (node : NodeId) (error : NodeError)
  | cleared (node : NodeId) (keys : Nat)
  /-- A sweep came to a node that is no longer on the ring. -/
  | leftRing (node : NodeId)
  | listFailed (node : NodeId) (error : NodeError)
  | checkFailed (key : String) (node : NodeId) (error : NodeError)
  | vanished (key : String) (node : NodeId)
  | fetchFailed (key : String) (node : NodeId) (error : NodeError)
  | copied (key : String) (source target : NodeId)
  | copyFailed (key : String) (node : NodeId) (error : NodeError)
  | swept (report : Report)
  | sweepCancelled (report : Report)
  | intervalRaised (given used : Duration)
  | repairStopped
  deriving DecidableEq, Repr

namespace LogEvent

/-- How much an event matters. -/
def level : LogEvent → LogLevel
  | created _ | placed _ _ _ | servedByBackup _ _ | cleared _ _ | leftRing _ | vanished _ _
  | copied _ _ _ => .debug
  | added _ _ | dropped _ _ | swept _ | sweepCancelled _ | repairStopped => .info
  | replicaFailed _ _ _ _ | replicaTimedOut _ _ _ | readExpired _ | clearFailed _ _
  | listFailed _ _ | checkFailed _ _ _ | fetchFailed _ _ _ | copyFailed _ _ _
  | intervalRaised _ _ => .warn

/-- The wording of an event. -/
def message : LogEvent → String
  | created node => s!"created instance {node.display}"
  | placed replicas key position =>
    "use nodes " ++ Quoted.list (replicas.map NodeId.display) ++
      s!" for key {key} ({String.ofList (Hex.plain position.toNat)})"
  | added node size => s!"added node {node.display} (ring size {size})"
  | dropped node size => s!"dropped node {node.display} (ring size {size}, data not migrated)"
  | replicaFailed op key node error =>
    s!"{op.name} of key '{key}' failed on node {node.display}: {error.message}"
  | replicaTimedOut op key node => s!"{op.name} of key '{key}' timed out on node {node.display}"
  | readExpired key => s!"get of key '{key}' hit its deadline"
  | servedByBackup key node => s!"key '{key}' served by non-primary node {node.display}"
  | clearFailed node error => s!"failed to clear node {node.display}: {error.message}"
  | cleared node keys => s!"node {node.display} cleared ({keys} key(s) dropped)"
  | leftRing node => s!"node {node.display} left the ring, skipping"
  | listFailed node error => s!"failed to list keys on node {node.display}: {error.message}"
  | checkFailed key node error =>
    s!"failed to check key '{key}' on node {node.display}: {error.message}"
  | vanished key node => s!"key '{key}' vanished from node {node.display} during repair"
  | fetchFailed key node error =>
    s!"failed to read key '{key}' from node {node.display}: {error.message}"
  | copied key source target => s!"copied key '{key}' from {source.display} to {target.display}"
  | copyFailed key node error =>
    s!"failed to copy key '{key}' to node {node.display}: {error.message}"
  | swept r =>
    s!"repair sweep: {r.nodesScanned} node(s), {r.keysScanned} key(s), {r.copies} copied, " ++
      s!"{r.failures} failure(s), {r.inconsistencies} inconsistent"
  | sweepCancelled r =>
    s!"repair sweep cancelled after {r.nodesScanned} node(s), {r.copies} copy(ies)"
  | intervalRaised given used =>
    s!"repair interval {given.render} too short, using {used.render}"
  | repairStopped => "repair task stopped"

/-- An event as a log line. -/
def render (e : LogEvent) : String := e.level.name ++ " " ++ e.message

end LogEvent

end ReplicaRing
