import ReplicaRing.Duration

/-!
# Ring options

How many replicas a key has, how many of them must answer, and how long an operation may take.

* `RingOptions` — the settings, with their defaults;
* `RingOptions.limit` — how long an operation may take;
* `RingOptions.fault?` — the first setting that is out of range;
* `OptionsFault.message` — the wording of a fault.
-/

namespace ReplicaRing

/-- Replication and client operation settings. -/
structure RingOptions where
  /-- Nodes responsible for each key. -/
  replicaCount : Nat := 3
  /-- Acknowledgements that make a write succeed. -/
  writeQuorum : Nat := 1
  /-- Clean answers needed before a key may be reported absent. -/
  readQuorum : Nat := 1
  /-- Deadline of an operation that names none. -/
  opTimeout : Duration := Duration.ofSeconds 5
  deriving DecidableEq, Repr, Inhabited

/-- What can be wrong with ring options. -/
inductive OptionsFault where
  | noReplicas
  | writeQuorum (quorum replicas : Nat)
  | readQuorum (quorum replicas : Nat)
  | noTimeout
  deriving DecidableEq, Repr

/-- The wording of a fault. -/
def OptionsFault.message : OptionsFault → String
  | noReplicas => "replica_count must be > 0"
  | writeQuorum w n => s!"write_quorum ({w}) must be in 1..={n}"
  | readQuorum r n => s!"read_quorum ({r}) must be in 1..={n}"
  | noTimeout => "op_timeout must be > 0"

namespace RingOptions

/-- How long an operation may take that names its own limit, or none. -/
def limit (o : RingOptions) (timeout : Option Duration) : Duration := timeout.getD o.opTimeout

/-- The first setting out of range, in the order replicas, write quorum, read quorum, timeout. -/
def fault? (o : RingOptions) : Option OptionsFault :=
  if o.replicaCount = 0 then some .noReplicas
  else if o.writeQuorum = 0 ∨ o.replicaCount < o.writeQuorum then
    some (.writeQuorum o.writeQuorum o.replicaCount)
  else if o.readQuorum = 0 ∨ o.replicaCount < o.readQuorum then
    some (.readQuorum o.readQuorum o.replicaCount)
  else if o.opTimeout.nanos = 0 then some .noTimeout
  else none

/-- Options without a fault. -/
def Valid (o : RingOptions) : Prop :=
  0 < o.replicaCount ∧ (1 ≤ o.writeQuorum ∧ o.writeQuorum ≤ o.replicaCount) ∧
    (1 ≤ o.readQuorum ∧ o.readQuorum ≤ o.replicaCount) ∧ 0 < o.opTimeout.nanos

theorem fault?_eq_none_iff (o : RingOptions) : o.fault? = none ↔ o.Valid := by
  unfold fault? Valid
  repeat' split
  all_goals simp_all
  all_goals omega

/-- The options as a printed value. -/
def debug (o : RingOptions) : String :=
  s!"RingOptions \x7b replica_count: {o.replicaCount}, write_quorum: {o.writeQuorum}, " ++
    s!"read_quorum: {o.readQuorum}, op_timeout: {o.opTimeout.render} \x7d"

end RingOptions

end ReplicaRing
