import Tmuduo.Machine
import Tmuduo.Lookup
import Tmuduo.Segment
import Tmuduo.Search
import Tmuduo.Incremental
import Tmuduo.Grouping
import Tmuduo.Text
import Tmuduo.OrderedSet
import Tmuduo.Timestamp
import Tmuduo.Buffer
import Tmuduo.BufferQueue
import Tmuduo.BufferRead
import Tmuduo.Endian
import Tmuduo.BufferInt
import Tmuduo.BufferStorage
import Tmuduo.LengthHeaderCodec
import Tmuduo.Channel
import Tmuduo.EPollPoller
import Tmuduo.PollPoller
import Tmuduo.PollIndex
import Tmuduo.PollActive
import Tmuduo.TcpConnection
import Tmuduo.TcpOutput
import Tmuduo.TcpSendBuffer
import Tmuduo.TcpWriteComplete
import Tmuduo.TcpShutdown
import Tmuduo.TcpLifecycle
import Tmuduo.TcpDestroy
import Tmuduo.TcpState
import Tmuduo.TcpForceClose
import Tmuduo.HttpRequest
import Tmuduo.HttpContext
import Tmuduo.HttpServer
import Tmuduo.HttpFraming
import Tmuduo.HttpHead
import Tmuduo.HttpHeader
import Tmuduo.HttpRefused
import Tmuduo.HttpRequestLine
import Tmuduo.HttpResponseText
import Tmuduo.HttpSession
import Tmuduo.EventLoop
import Tmuduo.Wakeup
import Tmuduo.LoopQuit
import Tmuduo.EventLoopThread
import Tmuduo.TimerQueue
import Tmuduo.TimerEntries
import Tmuduo.TimerInvariant
import Tmuduo.TimerCancel
import Tmuduo.TimerDeadline
import Tmuduo.AsyncLogging
import Tmuduo.Numeral
import Tmuduo.LogConvert
import Tmuduo.LogStream
import Tmuduo.LogDelivery
import Tmuduo.AppendFile
import Tmuduo.Calendar
import Tmuduo.TimeFormat
import Tmuduo.FormattedTime
import Tmuduo.LogFile
import Tmuduo.LogPipeline
import Tmuduo.Logging
import Tmuduo.SleepUSec
import Tmuduo.InetAddress
import Tmuduo.TcpServer
import Tmuduo.Mailboxes
import Tmuduo.EventLoopThreadPool
import Tmuduo.TcpServerLoops
import Tmuduo.ChatServer
import Tmuduo.Connector
import Tmuduo.ConnectorSockets
import Tmuduo.ConnectorBatch
import Tmuduo.ConnectorStop
import Tmuduo.TcpClient
import Tmuduo.ClientConnections
import Tmuduo.ClientLives
import Tmuduo.CondVar
import Tmuduo.CountDownLatch
import Tmuduo.BoundedBlockingQueue
import Tmuduo.SQLConnectionPool
import Tmuduo.ThreadPool
