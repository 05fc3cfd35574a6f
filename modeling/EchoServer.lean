import EchoServer.Lib.Runs
import EchoServer.Lib.Overlay
import EchoServer.Lib.Trace
import EchoServer.Lib.Fifo
import EchoServer.Buffer
import EchoServer.Poller
import EchoServer.TcpConnection
import EchoServer.Frames
import EchoServer.Lifecycle
import EchoServer.World
import EchoServer.WorldInv
import EchoServer.OutputStream
import EchoServer.SendByValue
import EchoServer.ClosedInert
import EchoServer.UpDown
import EchoServer.HalfClose
import EchoServer.GracefulClose
import EchoServer.InputStream
import EchoServer.Notifications
import EchoServer.EventLoop
import EchoServer.ConnName
import EchoServer.Server
import EchoServer.Ownership
import EchoServer.Outlives
import EchoServer.ServerFrames
import EchoServer.RunningFunctors
import EchoServer.Locality
import EchoServer.ServerInv
import EchoServer.Stages
import EchoServer.ChannelLifetime
import EchoServer.ChannelOps
import EchoServer.FunctorQueue
import EchoServer.QuitDrain
import EchoServer.EventLoopThread
import EchoServer.LoopThreadTeardown
import EchoServer.FixedBuffer
import EchoServer.AsyncLogging
import EchoServer.LogOrder
import EchoServer.LogStop
import EchoServer.LogTeardown
import EchoServer.Lib.Segments
import EchoServer.LogFile
import EchoServer.Rolling
import EchoServer.DailyRoll
import EchoServer.FailedRoll
import EchoServer.EventLoopThreadPool
import EchoServer.ByteQueue
import EchoServer.WriteInterest
import EchoServer.WriteComplete
import EchoServer.StateOrder
import EchoServer.TransientErrors
import EchoServer.ConnectionTable
import EchoServer.FileAccounting
import EchoServer.HighWater
import EchoServer.Lib.Decimal
import EchoServer.LogStream
import EchoServer.Lib.Calendar
import EchoServer.Timestamp
import EchoServer.Logger
import EchoServer.TimeOrder
import EchoServer.RollNames
import EchoServer.LogDelay
import EchoServer.LogFlush
import EchoServer.FatalLog
import EchoServer.Echo
import EchoServer.EchoLoop
import EchoServer.Lib.Doubling
import EchoServer.EventList
import EchoServer.Interest
import EchoServer.AtRest
import EchoServer.EchoService
import EchoServer.Startup
import EchoServer.Lib.Directory
import EchoServer.WholeRecords
import EchoServer.LogDirectory
import EchoServer.LoopRefinement
import EchoServer.FunctorDelay
import EchoServer.BufferSpace
import EchoServer.Lib.Potential
import EchoServer.Workload
import EchoServer.Lib.Lines
import EchoServer.LogReading
import EchoServer.QuitDelay
import EchoServer.ConnRefinement
import EchoServer.LoopConfinement
