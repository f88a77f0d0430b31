import ReplicaRing.Options

/-!
# Host configuration

* `Config` — the settings of a host in three sections, with their defaults;
* `Config.fault?` — the first setting that is out of range;
* `Config.validate` — a configuration without a fault;
* `Config.ringOptions` — the options of the ring that a host builds.
-/

namespace ReplicaRing

/-- Ring membership and client operation settings. -/
structure RingSection where
  /-- Nodes responsible for each key. -/
  replicaCount : UInt64 := 3
  /-- Nodes created at startup. -/
  ringSize : UInt64 := 10
  /-- Acknowledgements that make a write succeed. -/
  writeQuorum : UInt64 := 1
  /-- Clean answers needed before a key may be reported absent. -/
  readQuorum : UInt64 := 1
  /-- Deadline of client operations, in milliseconds. -/
  opTimeoutMs : UInt64 := 5000
  deriving DecidableEq, Repr, Inhabited

/-- Repair settings. -/
structure RepairSection where
  /-- Whether sweeps run in the background. -/
  enabled : Bool := true
  /-- Time between the starts of two sweeps, in seconds. -/
  intervalSecs : UInt64 := 5
  deriving DecidableEq, Repr, Inhabited

/-- The configuration of a host. -/
structure Config where
  ring : RingSection := {}
  repair : RepairSection := {}
  /-- The port on which metrics are served, if they are. -/
  metricsPort : Option UInt16 := none
  deriving DecidableEq, Repr, Inhabited

/-- What can be wrong with a configuration. -/
inductive ConfigFault where
  | noReplicas
  | ringSize (size replicas : UInt64)
  | writeQuorum (quorum replicas : UInt64)
  | readQuorum (quorum replicas : UInt64)
  | noTimeout
  | noInterval
  deriving DecidableEq, Repr

/-- The wording of a fault. -/
def ConfigFault.message : ConfigFault → String
  | noReplicas => "ring.replica_count must be > 0"
  | ringSize s n => s!"ring.ring_size ({s.toNat}) must be >= ring.replica_count ({n.toNat})"
  | writeQuorum w n => s!"ring.write_quorum ({w.toNat}) must be in 1..={n.toNat}"
  | readQuorum r n => s!"ring.read_quorum ({r.toNat}) must be in 1..={n.toNat}"
  | noTimeout => "ring.op_timeout_ms must be > 0"
  | noInterval => "repair.interval_secs must be > 0"

/-- Why no configuration could be loaded. -/
inductive ConfigError where
  /-- The file is missing or is no text. -/
  | unreadable
  /-- The text is no configuration document. -/
  | malformed
  | invalid (fault : ConfigFault)
  deriving DecidableEq, Repr

/-- The wording of an error, with that of its cause: what the system says about a file, or a reader
about a text. -/
def ConfigError.message (cause : String) : ConfigError → String
  | unreadable => s!"failed to read config file: {cause}"
  | malformed => s!"failed to parse YAML: {cause}"
  | invalid fault => s!"invalid config: {fault.message}"

namespace Config

/-- The first setting out of range, in the order of the document. -/
def fault? (c : Config) : Option ConfigFault :=
  let r := c.ring
  if r.replicaCount = 0 then some .noReplicas
  else if r.ringSize < r.replicaCount then some (.ringSize r.ringSize r.replicaCount)
  else if r.writeQuorum = 0 ∨ r.replicaCount < r.writeQuorum then
    some (.writeQuorum r.writeQuorum r.replicaCount)
  else if r.readQuorum = 0 ∨ r.replicaCount < r.readQuorum then
    some (.readQuorum r.readQuorum r.replicaCount)
  else if r.opTimeoutMs = 0 then some .noTimeout
  else if c.repair.intervalSecs = 0 then some .noInterval
  else none

/-- The configuration, unless a setting is out of range. -/
def validate (c : Config) : Except ConfigError Config :=
  match c.fault? with
  | some fault => .error (.invalid fault)
  | none => .ok c

/-- The options of the ring that a host with this configuration builds. -/
def ringOptions (c : Config) : RingOptions where
  replicaCount := c.ring.replicaCount.toNat
  writeQuorum := c.ring.writeQuorum.toNat
  readQuorum := c.ring.readQuorum.toNat
  opTimeout := Duration.ofMillis c.ring.opTimeoutMs.toNat

end Config

end ReplicaRing
