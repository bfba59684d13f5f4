import Mymuduo.Framework.Machine
import Mymuduo.Framework.Progress
import Mymuduo.Framework.BatchQueue
import Mymuduo.Framework.Region
import Mymuduo.Framework.OrderedSet
import Mymuduo.Framework.CondVar
import Mymuduo.Framework.Numeral
import Mymuduo.Framework.MachineInt
import Mymuduo.Framework.DescriptorTable
import Mymuduo.Framework.MixedRadix
import Mymuduo.Base.ThreadPool
import Mymuduo.Base.ThreadPoolWaiters
import Mymuduo.Base.ThreadPoolThrows
import Mymuduo.Base.ThreadPoolStop
import Mymuduo.Net.Syscall
import Mymuduo.Net.Buffer
import Mymuduo.Net.BufferFifo
import Mymuduo.Net.BufferRetrieve
import Mymuduo.Net.BufferGrowth
import Mymuduo.Net.Channel
import Mymuduo.Net.EPollPoller
import Mymuduo.Net.PollerBookkeeping
import Mymuduo.Net.PollerDisable
import Mymuduo.Net.EventDispatch
import Mymuduo.Net.TcpConnection
import Mymuduo.Net.DefaultCallback
import Mymuduo.Net.TcpOutput
import Mymuduo.Net.OutputWatch
import Mymuduo.Net.Backpressure
import Mymuduo.Net.ConnectionState
import Mymuduo.Net.TcpServer
import Mymuduo.Net.ConnectionNames
import Mymuduo.Net.ConnectionLifetime
import Mymuduo.Net.ConnectionCalls
import Mymuduo.Net.ConnectionRuns
import Mymuduo.Net.ConnectionDescriptors
import Mymuduo.Net.ConnectionRemoval
import Mymuduo.Net.LoopDrain
import Mymuduo.Net.ConnectionCallbacks
import Mymuduo.Net.ConnectionOwners
import Mymuduo.Net.Acceptor
import Mymuduo.Net.EventLoopThreadPool
import Mymuduo.Net.ThreadPoolStart
import Mymuduo.Net.ServerSystem
import Mymuduo.Net.EventLoop
import Mymuduo.Net.EventLoopThreads
import Mymuduo.Net.EventLoopQuit
import Mymuduo.Net.EventLoopThread
import Mymuduo.Net.SendShutdown
import Mymuduo.Net.TimerQueue
import Mymuduo.Net.TimerInvariant
import Mymuduo.Net.TimerArming
import Mymuduo.Net.TimerCancel
import Mymuduo.Net.TimerSets
import Mymuduo.Net.TimerPass
import Mymuduo.Net.TimerApi
import Mymuduo.Net.TimerFrame
import Mymuduo.Net.AddTimer
import Mymuduo.Logger.FixedBuffer
import Mymuduo.Logger.LogStream
import Mymuduo.Logger.FormatInteger
import Mymuduo.Logger.LogStreamRuns
import Mymuduo.Logger.Logging
import Mymuduo.Logger.LogFile
import Mymuduo.Logger.FileAppend
import Mymuduo.Logger.LogFileRoll
import Mymuduo.Logger.LogFileDaily
import Mymuduo.Logger.LogFileName
import Mymuduo.Logger.AsyncLogging
import Mymuduo.Logger.AsyncLoggingOrder
import Mymuduo.Logger.AsyncLoggingStop
import Mymuduo.Logger.LogPipeline
import Mymuduo.Example.EchoServer
import Mymuduo.Example.EchoExchange
import Mymuduo.Example.StressArgs
import Mymuduo.Example.StressClient
