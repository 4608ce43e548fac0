import PeatMesh.Runs
import PeatMesh.Lru
import PeatMesh.Deletion
import PeatMesh.Store
import PeatMesh.DocumentOps
import PeatMesh.Resurrection
import PeatMesh.TombstoneSync
import PeatMesh.Bytes
import PeatMesh.Certificate
import PeatMesh.TrustChain
import PeatMesh.CertificateStore
import PeatMesh.Revocation
import PeatMesh.LostUpdate
import PeatMesh.StoreSteps
import PeatMesh.SyncErrors
import PeatMesh.CircuitBreaker
import PeatMesh.Admission
import PeatMesh.SyncWire
import PeatMesh.SyncChannel
import PeatMesh.FormationAuth
import PeatMesh.MutualAuth
import PeatMesh.HybridDiscovery
import PeatMesh.GarbageCollection
import PeatMesh.TransportManager
import PeatMesh.Eviction
import PeatMesh.SyncForwarding
import PeatMesh.TombstoneFlood
import PeatMesh.TombstoneRounds
import PeatMesh.OtaTransfer
import PeatMesh.SelectedPeer
import PeatMesh.PeerConnector
import PeatMesh.StreamingTransfer
import PeatMesh.BlobStore
import PeatMesh.Negentropy
import PeatMesh.Observation
import PeatMesh.Encryption
import PeatMesh.Enrollment
import PeatMesh.WireFormats
import PeatMesh.FieldMerge
import PeatMesh.BundleIndex
import PeatMesh.CertificateLoading
import PeatMesh.HierarchicalRouting
import PeatMesh.ChannelLifecycle
import PeatMesh.SyncReceiver
import PeatMesh.MeshSyncTransport
import PeatMesh.KeepLastN
import PeatMesh.TtlManager
import PeatMesh.Collections
import PeatMesh.JsonStorage
import PeatMesh.ImplicitTtl
import PeatMesh.DeltaSync
import PeatMesh.ByteAccounting
import PeatMesh.Query
import PeatMesh.OfflineTtl
import PeatMesh.TokenBucket
import PeatMesh.FlowControl
import PeatMesh.CircuitHistory
import PeatMesh.LocalFailures
import PeatMesh.OtaSessions
import PeatMesh.OtaAnyPeer
import PeatMesh.OtaProgress
import PeatMesh.ReplayWindow
import PeatMesh.Stamps
import PeatMesh.Deduplication
import PeatMesh.MeshRouter
import PeatMesh.PaceSelection
import PeatMesh.LiteOrSet
import PeatMesh.LiteCounters
import PeatMesh.LiteBroadcast
import PeatMesh.HealthMonitor
import PeatMesh.Reconnection
import PeatMesh.BeaconObserver
import PeatMesh.PartitionDetector
import PeatMesh.TopologyBuilder
import PeatMesh.TopologyTree
import PeatMesh.LateralConnections
import PeatMesh.TelemetryBuffer
import PeatMesh.Preemption
import PeatMesh.StorageAccounting
import PeatMesh.Bandwidth
import PeatMesh.DiscoveryReplay
import PeatMesh.DeviceIds
import PeatMesh.SyncPartitions
import PeatMesh.PrefixRanges
import PeatMesh.MdnsDiscovery
import PeatMesh.GeohashIndex
import PeatMesh.BlobBookkeeping
