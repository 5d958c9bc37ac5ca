import ReplicatedSplinterDB.Foundation.FixedWidth
import ReplicatedSplinterDB.Foundation.ByteBuffer
import ReplicatedSplinterDB.Foundation.EventRun
import ReplicatedSplinterDB.Foundation.IndexedLog
import ReplicatedSplinterDB.Foundation.OrderedMap
import ReplicatedSplinterDB.Foundation.Interaction
import ReplicatedSplinterDB.Foundation.Interleaving
import ReplicatedSplinterDB.Foundation.Ownership
import ReplicatedSplinterDB.Foundation.Batch
import ReplicatedSplinterDB.Foundation.RoundRobin
import ReplicatedSplinterDB.Foundation.MaximalRuns
import ReplicatedSplinterDB.Common.Types
import ReplicatedSplinterDB.External.Nuraft
import ReplicatedSplinterDB.External.Storage
import ReplicatedSplinterDB.Server.Operation
import ReplicatedSplinterDB.Server.StateMachine
import ReplicatedSplinterDB.Server.Replica
import ReplicatedSplinterDB.Server.Replication
import ReplicatedSplinterDB.LogStore.Pack
import ReplicatedSplinterDB.LogStore.InMemory
import ReplicatedSplinterDB.LogStore.InMemoryRange
import ReplicatedSplinterDB.LogStore.InMemoryBatch
import ReplicatedSplinterDB.LogStore.InMemoryConcurrent
import ReplicatedSplinterDB.LogStore.Splinterdb
import ReplicatedSplinterDB.LogStore.SplinterdbRead
import ReplicatedSplinterDB.LogStore.SplinterdbTruncation
import ReplicatedSplinterDB.LogStore.SplinterdbPack
import ReplicatedSplinterDB.Client.Connection
import ReplicatedSplinterDB.Client.Mutation
import ReplicatedSplinterDB.Client.Read
import ReplicatedSplinterDB.Client.Leader
import ReplicatedSplinterDB.Client.Failover
import ReplicatedSplinterDB.Client.Delivery
import ReplicatedSplinterDB.Server.Membership
import ReplicatedSplinterDB.Client.Console
import ReplicatedSplinterDB.Client.ConsoleSession
import ReplicatedSplinterDB.Server.Startup
import ReplicatedSplinterDB.Server.LoggedReplica
import ReplicatedSplinterDB.System.Service
import ReplicatedSplinterDB.System.Reads
import ReplicatedSplinterDB.System.Acknowledgement
import ReplicatedSplinterDB.Logger.Ring
import ReplicatedSplinterDB.Logger.Format
import ReplicatedSplinterDB.Logger.RevisionNames
import ReplicatedSplinterDB.Logger.Files
import ReplicatedSplinterDB.Logger.Retention
import ReplicatedSplinterDB.Logger.Threads
import ReplicatedSplinterDB.Logger.Concurrent
import ReplicatedSplinterDB.Logger.Room
