import LaliRpc.Theory.Exec
import LaliRpc.Theory.Loop
import LaliRpc.Theory.Framing
import LaliRpc.Theory.Fueled
import LaliRpc.Theory.Assoc
import LaliRpc.Theory.RawRange
import LaliRpc.Theory.Memory
import LaliRpc.Theory.Blocks
import LaliRpc.Theory.Substitution
import LaliRpc.Theory.Rewriting
import LaliRpc.Net.TcpConnection
import LaliRpc.Net.ByteQueue
import LaliRpc.Net.Shrink
import LaliRpc.Net.HalfClose
import LaliRpc.Net.FlowControl
import LaliRpc.Net.EpollSet
import LaliRpc.Net.ThreadEventLoop
import LaliRpc.Net.TimerHistory
import LaliRpc.Net.TcpServer
import LaliRpc.Jackson.Reader
import LaliRpc.Jackson.Grammar
import LaliRpc.Jackson.Sax
import LaliRpc.Jackson.Document
import LaliRpc.Jackson.Accepts
import LaliRpc.Zrpc.Dispatch
import LaliRpc.Zrpc.Message
import LaliRpc.Zrpc.OnMessage
import LaliRpc.Zrpc.Batch
import LaliRpc.Zrpc.RpcClient
import LaliRpc.Jackson.Reparse
import LaliRpc.Jackson.Writer
import LaliRpc.Jackson.Itoa
import LaliRpc.Jackson.ValueMeaning
import LaliRpc.Jackson.PrettyWriter
import LaliRpc.Jackson.RoundTrip
import LaliRpc.Zrpc.Limits
import LaliRpc.Zrpc.CallBooks
import LaliRpc.Zrpc.Resync
import LaliRpc.Zrpc.NotifyAgreement
import LaliRpc.Zrpc.Responses
import LaliRpc.Zrpc.HandleResponse
import LaliRpc.Zrpc.CallIds
import LaliRpc.Zrpc.ClientStub
import LaliRpc.Zrpc.ServiceStub
import LaliRpc.Zrpc.StubAgreement
import LaliRpc.Zrpc.StubChecks
import LaliRpc.Zrpc.StubAccessors
import LaliRpc.Zrpc.StubTemplates
import LaliRpc.Zrpc.StubText
import LaliRpc.Zrpc.StubAsserts
import LaliRpc.Zrpc.StubLoops
import LaliRpc.Zrpc.ServiceStubLoops
import LaliRpc.Zrpc.ClientStubLoops
import LaliRpc.Zrpc.StubEnds
import LaliRpc.Zrpc.StubFilled
import LaliRpc.Zrpc.StubRendering
import LaliRpc.Zrpc.StubCriterion
import LaliRpc.Zrpc.StubRegistered
import LaliRpc.Zrpc.StubCompiles
import LaliRpc.Net.GracefulShutdown
import LaliRpc.Net.ConnectionOwners
import LaliRpc.Net.Connector
import LaliRpc.Net.HttpContext
import LaliRpc.Net.RequestLine
import LaliRpc.Net.HeaderBlock
import LaliRpc.Net.HttpServer
import LaliRpc.Base.AsyncLogging
import LaliRpc.Base.FixedBuffer
import LaliRpc.Base.LogFile
import LaliRpc.Base.Logstream
import LaliRpc.Base.Convert
import LaliRpc.Base.Mutex
import LaliRpc.Base.StreamMemory
import LaliRpc.Base.Logging
import LaliRpc.Base.LoggerStop
import LaliRpc.Base.Calendar
import LaliRpc.Base.BlockingQueue
import LaliRpc.Base.ThreadPool
import LaliRpc.Base.PoolStop
import LaliRpc.Base.PoolCapacity
