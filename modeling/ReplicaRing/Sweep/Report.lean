/-!
# Sweep reports

* `Report` — what a repair sweep did.
-/

namespace ReplicaRing

/-- What a repair sweep did. -/
structure Report where
  /-- Nodes whose keys were listed. -/
  nodesScanned : Nat := 0
  /-- Keys whose repair began. -/
  keysScanned : Nat := 0
  /-- Values written to replicas that lacked them. -/
  copies : Nat := 0
  /-- Requests to nodes that failed or timed out. -/
  failures : Nat := 0
  /-- Keys that a node listed but no longer held when they were read. -/
  inconsistencies : Nat := 0
  /-- Whether the sweep stopped early. -/
  cancelled : Bool := false
  deriving DecidableEq, Repr, Inhabited

/-- A report as a printed value. -/
def Report.debug (r : Report) : String :=
  s!"RepairReport \x7b nodes_scanned: {r.nodesScanned}, keys_scanned: {r.keysScanned}, " ++
    s!"copies: {r.copies}, failures: {r.failures}, inconsistencies: {r.inconsistencies}, " ++
    s!"cancelled: {r.cancelled} \x7d"

/-- The printed value of whoever runs a sweep: whether it has been told to stop. -/
def Report.sweeperDebug (signalled : Bool) : String :=
  s!"Replicator \x7b cancelled: {signalled}, .. \x7d"

end ReplicaRing
