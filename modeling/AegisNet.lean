import AegisNet.Lib.Search
import AegisNet.Lib.Run
import AegisNet.Lib.Recording
import AegisNet.Lib.Incremental
import AegisNet.Lib.Atomic
import AegisNet.Lib.KeySorted
import AegisNet.Lib.History
import AegisNet.Lib.Packing
import AegisNet.Lib.Overtaking
import AegisNet.Lib.Hysteresis
import AegisNet.Lib.Loop
import AegisNet.Lib.ByteOrder
import AegisNet.Lib.Lines
import AegisNet.Lib.SortedMap
import AegisNet.Lib.Turns
import AegisNet.Lib.Frames
import AegisNet.Lib.Worklist
import AegisNet.Base.Bytes
import AegisNet.Base.Logger
import AegisNet.Base.LogFile
import AegisNet.Base.LogPipeline
import AegisNet.Base.AsyncLogging
import AegisNet.Base.AsyncLogging.Stop
import AegisNet.Base.AsyncLogging.Recycling
import AegisNet.Tcp.Buffer
import AegisNet.Tcp.Buffer.Raw
import AegisNet.Tcp.Buffer.Calls
import AegisNet.Tcp.Buffer.Layout
import AegisNet.Tcp.Buffer.Views
import AegisNet.Tcp.HttpContext
import AegisNet.Tcp.HttpContext.Heads
import AegisNet.Tcp.HttpContext.Grammar
import AegisNet.Tcp.HttpContext.Boundaries
import AegisNet.Tcp.HttpContext.Fragments
import AegisNet.Tcp.HttpContext.Rounds
import AegisNet.Tcp.HttpParser
import AegisNet.Tcp.HttpParser.Stream
import AegisNet.Tcp.HttpParser.Grammar
import AegisNet.Tcp.HttpParser.Drain
import AegisNet.Tcp.HttpParser.Rounds
import AegisNet.Net.Channel
import AegisNet.Net.Epoll
import AegisNet.Net.InetAddress
import AegisNet.Net.EventLoop
import AegisNet.Net.EventLoop.Threads
import AegisNet.Net.EventLoop.Wakeup
import AegisNet.Net.EventLoop.Batches
import AegisNet.Net.EventLoop.Quit
import AegisNet.Pool.EventLoopThread
import AegisNet.Net.EventLoop.Signal
import AegisNet.Pool.EventLoopThreadPool
import AegisNet.Tcp.TcpConnection
import AegisNet.Tcp.TcpConnection.Output
import AegisNet.Tcp.TcpConnection.Stream
import AegisNet.Tcp.TcpConnection.FileOrder
import AegisNet.Tcp.TcpConnection.HalfClose
import AegisNet.Tcp.TcpConnection.Lifecycle
import AegisNet.Tcp.TcpConnection.Race
import AegisNet.Tcp.TcpConnection.Closing
import AegisNet.Tcp.TcpConnection.Notices
import AegisNet.Tcp.TcpConnection.Carried
import AegisNet.Tcp.TcpConnection.CallOrder
import AegisNet.Tcp.TcpConnection.Watermarks
import AegisNet.Tcp.TcpConnection.WriteComplete
import AegisNet.Tcp.TcpConnection.Descriptors
import AegisNet.Tcp.TcpConnection.Progress
import AegisNet.Tcp.TcpConnection.BeforeLoop
import AegisNet.Tcp.TcpServer
import AegisNet.Tcp.TcpServer.Removal
import AegisNet.Tcp.TcpServer.Destructor
import AegisNet.Tcp.TcpServer.Condemned
import AegisNet.Tcp.TcpServer.Ending
import AegisNet.Tcp.TcpServer.DestroyedOnce
import AegisNet.Tcp.TcpServer.Startup
import AegisNet.Tcp.TcpServer.RoundRobin
import AegisNet.WebChatServer.Replies
import AegisNet.WebChatServer.Responses
import AegisNet.WebChatServer
import AegisNet.WebChatServer.Broadcast
import AegisNet.WebChatServer.Broadcast.Delivery
import AegisNet.Net.TimerQueue
import AegisNet.Net.TimerQueue.Invariant
import AegisNet.Net.TimerQueue.Pass
import AegisNet.Net.TimerQueue.Firing
import AegisNet.Net.TimerQueue.Calls
import AegisNet.Net.TimerQueue.OneShot
import AegisNet.Net.TimerQueue.Timerfd
import AegisNet.WebChatServer.Modes
import AegisNet.WebChatServer.Statements
import AegisNet.WebChatServer.Bookkeeping
import AegisNet.WebChatServer.Polling
import AegisNet.WebChatServer.Zombies
import AegisNet.WebChatServer.Transcript
import AegisNet.WebChatServer.Transcript.Plain
import AegisNet.WebChatServer.Wire
import AegisNet.Tcp.HttpResponse.Framing
import AegisNet.Tcp.HttpResponse.Decode
import AegisNet.WebChatServer.Reading
import AegisNet.WebChatServer.Hearing
import AegisNet.WebChatServer.Sharing
import AegisNet.WebChatServer.Returning
