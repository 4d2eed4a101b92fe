import Fastblock.Core.Lts
import Fastblock.Core.Quorum
import Fastblock.Core.Actors
import Fastblock.Core.Ring
import Fastblock.Core.Decimal
import Fastblock.Core.Stripe
import Fastblock.Core.Words
import Fastblock.Core.Cursor
import Fastblock.Core.Search
import Fastblock.Core.Groups
import Fastblock.Core.Codec
import Fastblock.Core.Extents
import Fastblock.Core.Spread
import Fastblock.L1Blob.Buffer
import Fastblock.L1Blob.RollingBlob
import Fastblock.L1Blob.Refine
import Fastblock.L1Blob.Failure
import Fastblock.L1Blob.ListEncoder
import Fastblock.L1Blob.SpdkBuffer
import Fastblock.L1Blob.SpdkFields
import Fastblock.L1Blob.Iovec
import Fastblock.L2Store.Recovery
import Fastblock.L2Store.SnapshotPoint
import Fastblock.L2Store.ObjectStore
import Fastblock.L2Store.DiskLog
import Fastblock.L2Store.DiskRead
import Fastblock.L2Store.KvTable
import Fastblock.L2Store.KvCheckpoint
import Fastblock.L2Store.KvBatch
import Fastblock.L2Store.KvStore
import Fastblock.L2Store.KvReplay
import Fastblock.L2Store.KvStop
import Fastblock.L2Store.ObjectLifecycle
import Fastblock.L3Raft.Types
import Fastblock.L3Raft.Log
import Fastblock.L3Raft.Server
import Fastblock.L3Raft.Append
import Fastblock.L3Raft.Leader
import Fastblock.L3Raft.Snapshot
import Fastblock.L3Raft.Step
import Fastblock.L3Raft.Load
import Fastblock.L3Raft.Acts
import Fastblock.L3Raft.Handlers
import Fastblock.L3Raft.Frames
import Fastblock.L3Raft.Cache
import Fastblock.L3Raft.TermVote
import Fastblock.L3Raft.Install
import Fastblock.L3Raft.Configuration
import Fastblock.L3Raft.RaftNodes
import Fastblock.L3Raft.DiskIndex
import Fastblock.L3Raft.EntryBytes
import Fastblock.L4Cluster.Cluster
import Fastblock.L4Cluster.Election
import Fastblock.L4Cluster.Commit
import Fastblock.L4Cluster.Apply
import Fastblock.L4Cluster.Retention
import Fastblock.L4Cluster.Heartbeats
import Fastblock.L4Osd.OpTypeLock
import Fastblock.L4Osd.WriteRings
import Fastblock.L5Monitor.Image
import Fastblock.L5Monitor.Pg
import Fastblock.L5Monitor.SimpleInitial
import Fastblock.L5Monitor.Placed
import Fastblock.L5Monitor.Migration
import Fastblock.L5Monitor.CoreBalance
import Fastblock.L5Monitor.Topology
import Fastblock.L5Monitor.Redistribute
import Fastblock.L5Monitor.LeastLoaded
import Fastblock.L5Monitor.Rebalance
import Fastblock.L5Monitor.Monitor
import Fastblock.L5Monitor.Catalogue
import Fastblock.L5Monitor.Remap
import Fastblock.L5Monitor.PoolTable
import Fastblock.L5Monitor.MapVersion
import Fastblock.L5Monitor.NoReblance
import Fastblock.L5Monitor.PgTasks
import Fastblock.L5Client.ObjectName
import Fastblock.L5Client.Split
import Fastblock.L5Client.Hash
import Fastblock.L5Client.RequestSplit
import Fastblock.L5Client.Assembly
import Fastblock.L5Client.Apart
import Fastblock.L5Client.Errno
import Fastblock.L5Client.ReadObject
import Fastblock.L5Client.QueueRq
import Fastblock.L5Client.Finish
import Fastblock.L5Raw.Proto
import Fastblock.L5Raw.Codecs
import Fastblock.L5Raw.Frame
import Fastblock.L5Raw.Connection
import Fastblock.L5Raw.Listener
import Fastblock.L5Raw.Responses
import Fastblock.L5Client.Exchange
import Fastblock.L5Client.Attempts
import Fastblock.L5Client.LeaderQuery
import Fastblock.L5Client.ClusterMap
import Fastblock.L5Client.MapRoundTrip
import Fastblock.L5Client.Flush
import Fastblock.L5Client.Mux
import Fastblock.L5Client.LeaderCache
import Fastblock.L5Client.Requery
import Fastblock.L5Client.CopyData
import Fastblock.L5Client.Scheduler
