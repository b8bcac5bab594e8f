import WhisperNet.Lib.Reader
import WhisperNet.Lib.FsPath
import WhisperNet.Lib.Run
import WhisperNet.Lib.Diffusion
import WhisperNet.Lib.Effect
import WhisperNet.Lib.Heap
import WhisperNet.Common
import WhisperNet.Messages
import WhisperNet.Lib.Format
import WhisperNet.WireFormat
import WhisperNet.Codec
import WhisperNet.Deserialize
import WhisperNet.FileHash
import WhisperNet.PeerLoop
import WhisperNet.Routing
import WhisperNet.Delivery
import WhisperNet.Paths
import WhisperNet.Sweeper
import WhisperNet.SweepDeletions
import WhisperNet.SweepEvents
import WhisperNet.FileSystem
import WhisperNet.FileHandlers
import WhisperNet.LockEnforcement
import WhisperNet.LockHandlers
import WhisperNet.MessageQueue
import WhisperNet.Node
import WhisperNet.ContentBroadcasts
import WhisperNet.Convergence
import WhisperNet.Isolation
import WhisperNet.Relocation
import WhisperNet.PeerList
import WhisperNet.FrameWrites
import WhisperNet.HandlerRuns
import WhisperNet.LockStability
import WhisperNet.LockAgreement
import WhisperNet.WriteExclusion
import WhisperNet.Propagation
import WhisperNet.Recovery
import WhisperNet.PeersLock
import WhisperNet.Callbacks
import WhisperNet.SweepReports
import WhisperNet.SweepScans
import WhisperNet.Listing
import WhisperNet.Broadcasts
import WhisperNet.Remote
import WhisperNet.Echo
import WhisperNet.Managers
import WhisperNet.InitialSync
import WhisperNet.Joining
import WhisperNet.Deferral
import WhisperNet.DispatchOrder
import WhisperNet.BadFrames
import WhisperNet.Lib.Forest
import WhisperNet.Network
import WhisperNet.Topology
import WhisperNet.Backups
import WhisperNet.Fidelity
import WhisperNet.Forgetting
import WhisperNet.Releases
import WhisperNet.LockRoundTrip
import WhisperNet.ContentWrites
import WhisperNet.AbsentFiles
import WhisperNet.Lib.Fault
import WhisperNet.FailedSteps
import WhisperNet.Handover
import WhisperNet.Failover
import WhisperNet.QueueOrder
import WhisperNet.Lib.Worklist
import WhisperNet.Shutdown
import WhisperNet.Reconnection
import WhisperNet.Metadata
import WhisperNet.Startup
import WhisperNet.Starvation
import WhisperNet.RoutingHeader
import WhisperNet.Resending
import WhisperNet.Lib.Layout
import WhisperNet.FrameParts
import WhisperNet.Corruption
import WhisperNet.Lib.BoundedDeque
import WhisperNet.CircularBuffer
import WhisperNet.OldMessages
import WhisperNet.Lib.Flooding
import WhisperNet.Circulation
import WhisperNet.ListeningThread
import WhisperNet.FrameSizes
import WhisperNet.Decoding
import WhisperNet.Settling
import WhisperNet.StopState
import WhisperNet.Cleanup
import WhisperNet.Greeting
import WhisperNet.Confinement
import WhisperNet.Containment
import WhisperNet.Untouched
