import ReplicaRing.Clock
import ReplicaRing.Clockwise
import ReplicaRing.Cluster
import ReplicaRing.Config
import ReplicaRing.Config.Document
import ReplicaRing.Decimal.Shortest
import ReplicaRing.Digest.Fnv1a
import ReplicaRing.Digest.Sha1
import ReplicaRing.Duration
import ReplicaRing.Error
import ReplicaRing.Fleet
import ReplicaRing.Host
import ReplicaRing.KeyHasher
import ReplicaRing.LogEvent
import ReplicaRing.Main
import ReplicaRing.Membership
import ReplicaRing.Metrics
import ReplicaRing.Metrics.Exposition
import ReplicaRing.Metrics.Histogram
import ReplicaRing.Metrics.Labelled
import ReplicaRing.Node
import ReplicaRing.NodeId
import ReplicaRing.NodeId.Numeral
import ReplicaRing.Options
import ReplicaRing.OrderedMap
import ReplicaRing.Proofs.BackgroundRepair
import ReplicaRing.Proofs.BlockLines
import ReplicaRing.Proofs.BlockMappings
import ReplicaRing.Proofs.CallCounts
import ReplicaRing.Proofs.CalmRuns
import ReplicaRing.Proofs.Cancellation
import ReplicaRing.Proofs.CleanReport
import ReplicaRing.Proofs.ClearedRings
import ReplicaRing.Proofs.ClientEnds
import ReplicaRing.Proofs.ClientEvents
import ReplicaRing.Proofs.ClientRuns
import ReplicaRing.Proofs.ClockwiseOrder
import ReplicaRing.Proofs.ConfigDocuments
import ReplicaRing.Proofs.ConfigValidation
import ReplicaRing.Proofs.Durability
import ReplicaRing.Proofs.Exchanges
import ReplicaRing.Proofs.FanOuts
import ReplicaRing.Proofs.Fleet
import ReplicaRing.Proofs.GapFilling
import ReplicaRing.Proofs.Healing
import ReplicaRing.Proofs.IdentityTexts
import ReplicaRing.Proofs.KeyEvents
import ReplicaRing.Proofs.KeyIsolation
import ReplicaRing.Proofs.KeySweeps
import ReplicaRing.Proofs.KeyWorlds
import ReplicaRing.Proofs.Lockstep
import ReplicaRing.Proofs.LoopEvents
import ReplicaRing.Proofs.LoopTraces
import ReplicaRing.Proofs.MapRefinement
import ReplicaRing.Proofs.MetricsFrames
import ReplicaRing.Proofs.NodeSessions
import ReplicaRing.Proofs.OrderedMap
import ReplicaRing.Proofs.OrderedReads
import ReplicaRing.Proofs.PartialSweep
import ReplicaRing.Proofs.Placement
import ReplicaRing.Proofs.PlacementChanges
import ReplicaRing.Proofs.PlainMembership
import ReplicaRing.Proofs.PlainRuns
import ReplicaRing.Proofs.PlainStart
import ReplicaRing.Proofs.PlainWorld
import ReplicaRing.Proofs.PromptSweep
import ReplicaRing.Proofs.Provenance
import ReplicaRing.Proofs.Punctual
import ReplicaRing.Proofs.QuorumCounts
import ReplicaRing.Proofs.QuorumReads
import ReplicaRing.Proofs.RaceEvents
import ReplicaRing.Proofs.RaceHistory
import ReplicaRing.Proofs.ReachableRings
import ReplicaRing.Proofs.RingChanges
import ReplicaRing.Proofs.RingConstruction
import ReplicaRing.Proofs.Schedules
import ReplicaRing.Proofs.SettingTexts
import ReplicaRing.Proofs.SharedMetrics
import ReplicaRing.Proofs.SoloEvents
import ReplicaRing.Proofs.SoloRun
import ReplicaRing.Proofs.SweepAccounts
import ReplicaRing.Proofs.SweepCounts
import ReplicaRing.Proofs.SweepEvents
import ReplicaRing.Proofs.SweepPass
import ReplicaRing.Proofs.SweepRace
import ReplicaRing.Proofs.SweepRecords
import ReplicaRing.Proofs.SweepRepair
import ReplicaRing.Proofs.SweepResult
import ReplicaRing.Proofs.SweepSources
import ReplicaRing.Proofs.SweepSteps
import ReplicaRing.Proofs.SweepTrace
import ReplicaRing.Proofs.SwitchNodes
import ReplicaRing.Proofs.Turns
import ReplicaRing.Proofs.VacantRings
import ReplicaRing.Proofs.Wipes
import ReplicaRing.Read
import ReplicaRing.RepairLoop
import ReplicaRing.Ring
import ReplicaRing.Scenario.Activity
import ReplicaRing.Scenario.Run
import ReplicaRing.Scenario.Step
import ReplicaRing.Scenario.World
import ReplicaRing.Store
import ReplicaRing.Sweep
import ReplicaRing.Sweep.Report
import ReplicaRing.Text.Hex
import ReplicaRing.Text.Quoted
import ReplicaRing.Text.Unprintable
import ReplicaRing.Wipe
import ReplicaRing.Write
import ReplicaRing.Yaml.Character
import ReplicaRing.Yaml.Document
import ReplicaRing.Yaml.Node
import ReplicaRing.Yaml.Scalar
import ReplicaRing.Yaml.Tag
import ReplicaRing.Yaml.Token
