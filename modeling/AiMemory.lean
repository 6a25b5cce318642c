import AiMemory.Actions.Action
import AiMemory.Actions.Frontier
import AiMemory.Actions.Lease
import AiMemory.Actions.LeaseExclusion
import AiMemory.Actions.Transition
import AiMemory.Attestation.Write
import AiMemory.AuditTrail.GapInventory
import AiMemory.AuditTrail.Report
import AiMemory.AuditTrail.SinceWindow
import AiMemory.AuditTrail.Verdicts
import AiMemory.AuditTrail.WitnessedLength
import AiMemory.Capability.Attenuation
import AiMemory.Capability.Forgery
import AiMemory.Capability.Narrowing
import AiMemory.Capability.Token
import AiMemory.CborArray.Encode
import AiMemory.CborArray.ReAnchor
import AiMemory.CborArray.RecordSet
import AiMemory.CborArray.Signable
import AiMemory.Checkpoints.FirstResolution
import AiMemory.Checkpoints.Resolution
import AiMemory.Consensus.Fencing
import AiMemory.Consensus.Sequencer
import AiMemory.Consensus.SlotUniqueness
import AiMemory.Consolidation.Consolidate
import AiMemory.Consolidation.Laundering
import AiMemory.Consolidation.Trust
import AiMemory.Crdt.Associative
import AiMemory.Crdt.Causality
import AiMemory.Crdt.Commutative
import AiMemory.Crdt.Inbound
import AiMemory.Crdt.Json
import AiMemory.Crdt.Memory
import AiMemory.Crdt.Merge
import AiMemory.Crdt.MetadataRegroup
import AiMemory.Crdt.Redelivery
import AiMemory.Crdt.Settling
import AiMemory.Crdt.VectorClock
import AiMemory.DeferredAudit.ExactlyOnce
import AiMemory.DeferredAudit.Queue
import AiMemory.Encryption.Envelope
import AiMemory.Federation.AttestedRow
import AiMemory.Federation.Attribution
import AiMemory.Federation.Broadcast
import AiMemory.Federation.Catchup
import AiMemory.Federation.CatchupCoverage
import AiMemory.Federation.CertChain
import AiMemory.Federation.Confinement
import AiMemory.Federation.CountedAck
import AiMemory.Federation.Credential
import AiMemory.Federation.DrainedQueue
import AiMemory.Federation.LaneEffects
import AiMemory.Federation.NoResurrection
import AiMemory.Federation.PeerAttestation
import AiMemory.Federation.PullLane
import AiMemory.Federation.PushDlq
import AiMemory.Federation.Quarantine
import AiMemory.Federation.Replay
import AiMemory.Federation.ScopedPeer
import AiMemory.Federation.SyncPush
import AiMemory.Federation.TransitionPush
import AiMemory.Federation.Watermark
import AiMemory.ForensicLog.Directory
import AiMemory.ForensicLog.HonestRun
import AiMemory.ForensicLog.Row
import AiMemory.ForensicLog.Sink
import AiMemory.ForensicLog.Tampered
import AiMemory.Governance.Resolvers
import AiMemory.Hooks.Chain
import AiMemory.Hooks.Decision
import AiMemory.Hooks.Enforcement
import AiMemory.Hooks.Modifications
import AiMemory.Library.Acyclic
import AiMemory.Library.BoundedWalk
import AiMemory.Library.CheapestFirst
import AiMemory.Library.ChunkedDrain
import AiMemory.Library.Custody
import AiMemory.Library.FencedLog
import AiMemory.Library.FramedLog
import AiMemory.Library.GlobPattern
import AiMemory.Library.Interleaving
import AiMemory.Library.JsonText
import AiMemory.Library.KeyedTable
import AiMemory.Library.LikePattern
import AiMemory.Library.LinkedChain
import AiMemory.Library.MacChain
import AiMemory.Library.Marked
import AiMemory.Library.MarkedWords
import AiMemory.Library.MerkleTree
import AiMemory.Library.MissingRanges
import AiMemory.Library.Orders
import AiMemory.Library.PathScope
import AiMemory.Library.PrefixCode
import AiMemory.Library.Quorum
import AiMemory.Library.Register
import AiMemory.Library.Run
import AiMemory.Library.ScalarFallback
import AiMemory.Library.SlidingWindow
import AiMemory.Library.SortOn
import AiMemory.Library.SortedMap
import AiMemory.Library.Table
import AiMemory.Library.Trails
import AiMemory.Lineage.Authority
import AiMemory.Lineage.Equivocation
import AiMemory.Lineage.Handovers
import AiMemory.Lineage.Mint
import AiMemory.Lineage.Record
import AiMemory.Lineage.Registry
import AiMemory.Lineage.RegistryRuns
import AiMemory.Lineage.Verify
import AiMemory.Lineage.Walk
import AiMemory.Lineage.WitnessBinding
import AiMemory.Links.AcyclicRun
import AiMemory.Links.CycleCheck
import AiMemory.Links.CyclePath
import AiMemory.Links.Gate
import AiMemory.Links.Lineage
import AiMemory.Links.Paths
import AiMemory.Links.ReflectionGraph
import AiMemory.Machine.Base64
import AiMemory.Machine.Bytes
import AiMemory.Machine.Chrono
import AiMemory.Machine.Numbers
import AiMemory.Machine.Strings
import AiMemory.Permissions.DenyFirst
import AiMemory.Permissions.Evaluate
import AiMemory.Permissions.Glob
import AiMemory.Permissions.GlobLanguage
import AiMemory.Quotas.ReceiveCharge
import AiMemory.Quotas.Row
import AiMemory.Quotas.Spending
import AiMemory.RecordStop.Actuator
import AiMemory.Replay.NonceCache
import AiMemory.Replay.NonceHydration
import AiMemory.Replay.NonceMirror
import AiMemory.Replay.NonceRestart
import AiMemory.Replay.NonceTouches
import AiMemory.Replay.NonceWindow
import AiMemory.Rules.Cache
import AiMemory.Rules.Engine
import AiMemory.Rules.Policy
import AiMemory.Rules.PolicyRun
import AiMemory.Rules.SignedOnly
import AiMemory.SecretScreen.CutShort
import AiMemory.SecretScreen.KeptTexts
import AiMemory.SecretScreen.Screen
import AiMemory.SignedEvents.Backfill
import AiMemory.SignedEvents.Chain
import AiMemory.SignedEvents.Event
import AiMemory.SignedEvents.Identity
import AiMemory.SignedEvents.Reachable
import AiMemory.SignedEvents.Tamper
import AiMemory.Storage.ActionEffect
import AiMemory.Storage.Burial
import AiMemory.Storage.ByteCap
import AiMemory.Storage.CapturedTurns
import AiMemory.Storage.Columns
import AiMemory.Storage.ConsensusVotes
import AiMemory.Storage.Convergence
import AiMemory.Storage.Database
import AiMemory.Storage.DecisionSteps
import AiMemory.Storage.Deliveries
import AiMemory.Storage.Edits
import AiMemory.Storage.ErasedRecords
import AiMemory.Storage.Erasure
import AiMemory.Storage.ErasureAttestation
import AiMemory.Storage.ExecutedApprovals
import AiMemory.Storage.Fence
import AiMemory.Storage.FinalDecisions
import AiMemory.Storage.FinalRedaction
import AiMemory.Storage.FoldAccesses
import AiMemory.Storage.FoldedTouches
import AiMemory.Storage.Footprint
import AiMemory.Storage.Gates
import AiMemory.Storage.Insert
import AiMemory.Storage.LongTier
import AiMemory.Storage.MergeInbound
import AiMemory.Storage.PendingActions
import AiMemory.Storage.PlaintextAtRest
import AiMemory.Storage.Postdating
import AiMemory.Storage.ReadableContent
import AiMemory.Storage.Removal
import AiMemory.Storage.Replicas
import AiMemory.Storage.RoundTrip
import AiMemory.Storage.Sealing
import AiMemory.Storage.Snapshots
import AiMemory.Storage.Store
import AiMemory.Storage.Taxonomy
import AiMemory.Storage.Tenants
import AiMemory.Storage.TitleCollision
import AiMemory.Storage.UndoneEdits
import AiMemory.Storage.Update
import AiMemory.Storage.VerticalPromotion
import AiMemory.Storage.WrittenRecords
import AiMemory.Visibility.Clause
import AiMemory.Visibility.OneRule
import AiMemory.Witness.HeadAnchor
import AiMemory.Witness.RestoreSanction
import AiMemory.Witness.Rollback
