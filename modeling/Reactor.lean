import Reactor.Lib.Machine
import Reactor.Lib.BigEndian
import Reactor.Lib.Bisect
import Reactor.Lib.OrdSet
import Reactor.Lib.Vec
import Reactor.Lib.CircularBuffer
import Reactor.Lib.Framing
import Reactor.Lib.Tally
import Reactor.Lib.Monitor
import Reactor.Base
import Reactor.Decimal
import Reactor.Endian
import Reactor.Buffer
import Reactor.Buffer.Deque
import Reactor.Buffer.Size
import Reactor.Buffer.Integers
import Reactor.Codec
import Reactor.Channel
import Reactor.Poller
import Reactor.EPollPoller
import Reactor.EPollPoller.Interest
import Reactor.PollPoller
import Reactor.PollPoller.Entries
import Reactor.Poller.Interchange
import Reactor.Poller.Backend
import Reactor.TimerQueue
import Reactor.TimerQueue.Ownership
import Reactor.TimerQueue.Armed
import Reactor.TimerQueue.Cancel
import Reactor.TimerQueue.Tick
import Reactor.TimerQueue.Schedule
import Reactor.EventLoop
import Reactor.EventLoop.Functors
import Reactor.EventLoopThread
import Reactor.TcpConnection
import Reactor.TcpConnection.OutputStream
import Reactor.TcpConnection.Send
import Reactor.TcpConnection.HighWater
import Reactor.TcpConnection.WriteInterest
import Reactor.TcpConnection.HalfClose
import Reactor.TcpConnection.Lifecycle
import Reactor.HttpContext
import Reactor.HttpContext.Chunks
import Reactor.HttpContext.Grammar
import Reactor.HttpContext.RoundTrip
import Reactor.HttpContext.Termination
import Reactor.HttpResponse
import Reactor.HttpServer
import Reactor.HttpServer.Pipeline
import Reactor.TcpServer
import Reactor.TcpServer.Table
import Reactor.TcpServer.Teardown
import Reactor.Acceptor
import Reactor.EchoServer
import Reactor.Hub
import Reactor.Hub.Subscriptions
import Reactor.Hub.Protocol
import Reactor.Lib.Broker
import Reactor.Hub.Delivery
import Reactor.FastCgi
import Reactor.FastCgi.Params
import Reactor.FastCgi.Respond
import Reactor.Connector
import Reactor.Connector.Attempts
import Reactor.Connector.Reconnect
import Reactor.Connector.Sockets
import Reactor.Connector.Names
import Reactor.FileUtil
import Reactor.Calendar
import Reactor.Date
import Reactor.TimeZone
import Reactor.TimeZone.RoundTrip
import Reactor.TimeZone.File
import Reactor.TimeZone.Utc
import Reactor.Lib.Sharded
import Reactor.MemcacheServer
import Reactor.MemcacheServer.Store
import Reactor.MemcacheServer.Tokens
import Reactor.Session
import Reactor.Session.Commands
import Reactor.Session.Protocol
import Reactor.Session.Turns
import Reactor.Session.Safety
import Reactor.Session.Chunks
import Reactor.MemcacheClient
import Reactor.MemcacheClient.Connections
import Reactor.Resolver
import Reactor.CountDownLatch
import Reactor.Thread
import Reactor.PingPong
import Reactor.SortedList
import Reactor.MaxConnection
import Reactor.FileTransfer
import Reactor.Chat
import Reactor.Chat.Client
import Reactor.WordCount
import Reactor.WordCount.Connections
import Reactor.WordCount.Throttle
