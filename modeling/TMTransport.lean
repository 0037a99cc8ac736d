import TMTransport.Library.Prog
import TMTransport.Library.Loop
import TMTransport.Library.Linked
import TMTransport.Library.Etcd
import TMTransport.Library.EtcdRenaming
import TMTransport.Library.EtcdFilling
import TMTransport.Library.Codec
import TMTransport.Library.Machine
import TMTransport.Library.Tenants
import TMTransport.Library.Pointers
import TMTransport.Library.Registry
import TMTransport.Library.Ledger
import TMTransport.Library.RedisScript
import TMTransport.Library.Framing
import TMTransport.Library.Splitting
import TMTransport.Library.Memo
import TMTransport.Library.Base64
import TMTransport.Library.FlatJson
import TMTransport.Library.ChangeLog
import TMTransport.Library.EtcdEvents
import TMTransport.EtcdChain.Model
import TMTransport.EtcdChain.Script
import TMTransport.EtcdChain.DotNet
import TMTransport.EtcdChain.System
import TMTransport.EtcdChain.Invariant
import TMTransport.EtcdChain.Records
import TMTransport.EtcdChain.Contract
import TMTransport.EtcdChain.Reads
import TMTransport.EtcdChain.ScriptReads
import TMTransport.EtcdChain.DotNetReads
import TMTransport.EtcdChain.Appends
import TMTransport.EtcdChain.Runs
import TMTransport.EtcdChain.Walk
import TMTransport.EtcdChain.AppendOnly
import TMTransport.EtcdChain.CrossLanguage
import TMTransport.EtcdChain.Filled
import TMTransport.EtcdChain.BlindCalls
import TMTransport.EtcdChain.WatchSystem
import TMTransport.EtcdChain.WatchClients
import TMTransport.EtcdChain.WatchRuns
import TMTransport.EtcdChain.Cache
import TMTransport.EtcdChain.Objects
import TMTransport.EtcdChain.KeySets
import TMTransport.EtcdChain.Alone
import TMTransport.RPC.Wire
import TMTransport.RPC.Client
import TMTransport.RPC.Reentry
import TMTransport.RPC.SocketServer
import TMTransport.RPC.SocketFraming
import TMTransport.RPC.Server
import TMTransport.RPC.Connections
import TMTransport.RedisChain.Model
import TMTransport.RedisChain.Scripts
import TMTransport.RedisChain.System
import TMTransport.RedisChain.Invariant
import TMTransport.RedisChain.Contract
import TMTransport.RedisChain.Calls
import TMTransport.RedisChain.Appends
import TMTransport.RedisChain.Runs
import TMTransport.RedisChain.AppendList
import TMTransport.RedisChain.CrossLanguage
import TMTransport.RedisChain.Objects
import TMTransport.RedisChain.Alone
import TMTransport.Redis.Subscriptions
import TMTransport.Locator.ConnectionLocator
import TMTransport.Locator.Serialization
import TMTransport.Locator.Languages
import TMTransport.Broadcast.Topics
import TMTransport.Facility.Channel
import TMTransport.Facility.Heartbeat
import TMTransport.Facility.RemoteFacility
import TMTransport.Facility.IdentityGate
import TMTransport.Facility.Exchange
import TMTransport.DotNet.ConnectionSharing
import TMTransport.SharedMemory.SpinLock
import TMTransport.SharedMemory.LockFreeChain
import TMTransport.SharedMemory.LockFreeInvariant
import TMTransport.SharedMemory.LockFreeRuns
import TMTransport.SharedMemory.ClientList
import TMTransport.SharedMemory.ExtraData
import TMTransport.SharedMemory.ExtraDataLockFree
import TMTransport.SharedMemory.ExtraDataMutex
import TMTransport.SharedMemory.ExtraDataRuns
import TMTransport.SharedMemory.BroadcastQueue
import TMTransport.SharedMemory.BroadcastDelivery
import TMTransport.JsonREST.Tokens
import TMTransport.JsonREST.KeepAlive
import TMTransport.Library.PosixPath
import TMTransport.JsonREST.Documents
import TMTransport.JsonREST.Requests
import TMTransport.JsonREST.Access
import TMTransport.SharedChains.Creator
import TMTransport.SharedChains.Apart
import TMTransport.NamedValueStore.DataModel
import TMTransport.NamedValueStore.DataStream
import TMTransport.NamedValueStore.Convergence
import TMTransport.NamedValueStore.Consumer
import TMTransport.NamedValueStore.CompoundLock
import TMTransport.NamedValueStore.LockSafety
import TMTransport.Grpc.Client
import TMTransport.Database.Statements
import TMTransport.Database.OwnTables
import TMTransport.Database.Collection
import TMTransport.Library.SortedMap
import TMTransport.Broadcast.Listener
import TMTransport.JsonREST.Forms
import TMTransport.JsonREST.Facility
import TMTransport.WebSocket.RPCServer
import TMTransport.Library.Handover
import TMTransport.Broadcast.Clients
import TMTransport.Broadcast.FanOut
import TMTransport.WebSocket.Subscribers
import TMTransport.Library.LockOrder
import TMTransport.WebSocket.LockDiscipline
import TMTransport.WebSocket.EarlyRequests
import TMTransport.Broadcast.SubscriptionRegistry
import TMTransport.Broadcast.FetchFirst
import TMTransport.Library.Covering
import TMTransport.Broadcast.TopicWildcards
import TMTransport.Broadcast.Envelopes
import TMTransport.NamedValueStore.Updates
import TMTransport.Facility.ExitProtocols
import TMTransport.Library.FieldOrder
import TMTransport.Locator.MapKey
import TMTransport.Grpc.ServerReactor
import TMTransport.Facility.WrapperRegistries
import TMTransport.NamedValueStore.LocalImporter
import TMTransport.Database.RepeatedImporter
import TMTransport.Library.Chrono
import TMTransport.BclCompat.Duration
import TMTransport.BclCompat.TimeSpan
import TMTransport.BclCompat.Decimal
import TMTransport.Library.Utf
import TMTransport.Broadcast.BinaryEnvelope
import TMTransport.Library.CppIntegers
import TMTransport.Database.SociHelper
import TMTransport.Security.SignatureHelper
import TMTransport.Library.NamedFields
import TMTransport.Facility.HeartbeatMessage
import TMTransport.Facility.HeartbeatComponent
import TMTransport.Facility.HeartbeatLanguages
import TMTransport.Facility.DynamicFacilityProxy
import TMTransport.DotNet.Importers
import TMTransport.EtcdChain.EmptyHead
import TMTransport.EtcdChain.AppendLoop
import TMTransport.RedisChain.AppendLoop
import TMTransport.SharedChains.AppendLoop
import TMTransport.Facility.LiveServers
import TMTransport.Broadcast.HeartbeatSubscriptions
import TMTransport.Broadcast.EndToEnd
import TMTransport.RPC.EndToEnd
import TMTransport.Security.SignedTraffic
import TMTransport.RPC.OneShotCalls
import TMTransport.Grpc.EndToEnd
import TMTransport.JsonREST.EndToEnd
