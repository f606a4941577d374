import Mprpc.Buffer
import Mprpc.Library.Incremental
import Mprpc.Library.Transition
import Mprpc.BufferView
import Mprpc.FrameCodec
import Mprpc.TcpConnection
import Mprpc.TcpServer
import Mprpc.ServerFraming
import Mprpc.ServerReads
import Mprpc.ServerStream
import Mprpc.FrameAgreement
import Mprpc.EdgeTrigger
import Mprpc.SendInterleaving
import Mprpc.ServerAnswers
import Mprpc.CallTruth
import Mprpc.RequestResponse
import Mprpc.SessionNumbers
import Mprpc.SessionCalls
import Mprpc.BalancerContract
import Mprpc.SmoothWeights
import Mprpc.KeyStability
import Mprpc.StubBelief
import Mprpc.BalancedCounts
import Mprpc.InstanceTarget
import Mprpc.Library.BestOf
import Mprpc.Library.SmoothRoundRobin
import Mprpc.BufferCalls
import Mprpc.BufferQueue
import Mprpc.BufferSafety
import Mprpc.ConnectionTables
import Mprpc.MessageHandler
import Mprpc.ReceiverAgreement
import Mprpc.ClientFraming
import Mprpc.ClientSocket
import Mprpc.EventLoop
import Mprpc.ClosePath
import Mprpc.ConnectionClosing
import Mprpc.InstanceText
import Mprpc.ZooKeeper
import Mprpc.ZooKeeperRegistry
import Mprpc.Discovery
import Mprpc.Unregistering
import Mprpc.ServerIsolation
import Mprpc.TextFormat
import Mprpc.Library.WatchTable
import Mprpc.MalformedNodes
import Mprpc.Subscription
import Mprpc.LeastConnections
import Mprpc.Watching
import Mprpc.WeightedSteps
import Mprpc.CounterBounds
import Mprpc.DiscoveryOrder
import Mprpc.ThreadPool
import Mprpc.TaskExecution
import Mprpc.WakeUps
import Mprpc.BufferReserve
import Mprpc.BufferLimit
import Mprpc.Library.Rotation
import Mprpc.RoundRobinTurns
import Mprpc.ReadSchedules
import Mprpc.ReadExactly
import Mprpc.WholeFrames
import Mprpc.Library.ProtoWire
import Mprpc.EnvelopeTrip
import Mprpc.Serializer
import Mprpc.Deployment
import Mprpc.Library.Simulation
import Mprpc.SessionStream
import Mprpc.RemoteCalls
import Mprpc.LocalCalls
import Mprpc.CallProgress
import Mprpc.Library.Traces
import Mprpc.TaskOrder
import Mprpc.PoolShutdown
import Mprpc.ReadOutcomes
import Mprpc.RequestPipeline
import Mprpc.PipelineAnswers
import Mprpc.ServiceDirectory
import Mprpc.DiscoveredCalls
import Mprpc.Library.Ledger
import Mprpc.ServerLifecycle
import Mprpc.Library.SharedMutex
import Mprpc.ServiceCalls
import Mprpc.SharedStub
import Mprpc.Library.NameTable
import Mprpc.LoadBalancerFactory
import Mprpc.Library.LockedObject
import Mprpc.SerializerManager
import Mprpc.DiscoveredAnswers
import Mprpc.ConnectionWait
import Mprpc.DiscoveredProgress
import Mprpc.CallTurns
import Mprpc.BrokenCalls
import Mprpc.StickyCalls
import Mprpc.SharedServer
import Mprpc.StalledServer
import Mprpc.SharedProgress
import Mprpc.UnbrokenCalls
