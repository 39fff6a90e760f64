import MyNet.Lib.Machine
import MyNet.Lib.CondVar
import MyNet.Lib.Mutex
import MyNet.Lib.Monitor
import MyNet.Lib.MonitorWaiters
import MyNet.Lib.MonitorSupply
import MyNet.Lib.History
import MyNet.Lib.SharedPtr
import MyNet.Lib.ListStore
import MyNet.Lib.Search
import MyNet.Lib.Delimited
import MyNet.Lib.Bisect
import MyNet.Lib.SizeT
import MyNet.Lib.CInt
import MyNet.Lib.ByteOrder
import MyNet.Lib.Numeral
import MyNet.Lib.TextOrder
import MyNet.Lib.Gregorian
import MyNet.Lib.FaultState
import MyNet.Base.Runtime
import MyNet.Base.Gmtime
import MyNet.Base.Date
import MyNet.Base.TimeZone
import MyNet.Base.TimeZoneFile
import MyNet.Base.TimeZoneSafety
import MyNet.Base.TimeZoneSearch
import MyNet.Base.FixedBuffer
import MyNet.Base.LogStream
import MyNet.Base.LogStreamText
import MyNet.Base.LogStreamInsert
import MyNet.Base.LogStreamNumeral
import MyNet.Base.LogStreamChain
import MyNet.Base.TimeText
import MyNet.Base.FieldOrder
import MyNet.Base.DateText
import MyNet.Base.Logging
import MyNet.Base.LoggingRecord
import MyNet.Base.LoggingTime
import MyNet.Base.Timestamp
import MyNet.Base.RecordText
import MyNet.Base.SourceFile
import MyNet.Base.WriteFile
import MyNet.Base.WriteAccounting
import MyNet.Base.LogFile
import MyNet.Base.LogFileLock
import MyNet.Base.LogFileName
import MyNet.Base.LogFileOrder
import MyNet.Base.LogFileRun
import MyNet.Base.LogFileRoll
import MyNet.Base.LogFileBookkeeping
import MyNet.Base.LoggedFile
import MyNet.Base.ReadSmallFile
import MyNet.Base.ReadLoop
import MyNet.Base.ReadToBuffer
import MyNet.Base.AsyncLogging
import MyNet.Base.AsyncLoggingBuffers
import MyNet.Base.AsyncLoggingRecycling
import MyNet.Base.AsyncLoggingBytes
import MyNet.Base.AsyncLoggingWrite
import MyNet.Base.AsyncLoggingShutdown
import MyNet.Base.LogPipeline
import MyNet.Base.LogPipelineFiles
import MyNet.Base.ThreadPool
import MyNet.Base.ThreadPoolQueue
import MyNet.Base.ThreadPoolAgreement
import MyNet.Base.ThreadPoolStop
import MyNet.Base.ThreadPoolUnset
import MyNet.Base.ThreadPoolThreads
import MyNet.Base.ThreadOp
import MyNet.Base.ThreadNames
import MyNet.Base.ThreadLife
import MyNet.Base.BoundedBlockingQueue
import MyNet.Base.BoundedBlockingQueueCapacity
import MyNet.Base.BlockingQueue
import MyNet.Base.MutexLock
import MyNet.Base.CountDownLatch
import MyNet.Base.CountDownLatchCount
import MyNet.Base.AsyncLoggingLife
import MyNet.Base.AsyncLoggingLifeUser
import MyNet.Base.AsyncLoggingLifeRun
import MyNet.Base.ProcessInfo
import MyNet.Base.ProcessThreads
import MyNet.Net.Buffer
import MyNet.Net.BufferInvariant
import MyNet.Net.BufferQueue
import MyNet.Net.BufferInts
import MyNet.Net.ReadFd
import MyNet.Net.BufferRequests
import MyNet.Net.BufferMoves
import MyNet.Net.BufferLayout
import MyNet.Net.BufferUsage
import MyNet.Net.BufferLines
import MyNet.Net.BufferShrink
import MyNet.Net.BufferStream
import MyNet.Net.SocketsOps
import MyNet.Net.InetAddress
import MyNet.Net.Channel
import MyNet.Net.ChannelDispatch
import MyNet.Net.Acceptor
import MyNet.Net.AcceptorOwnership
import MyNet.Net.AcceptBuilds
import MyNet.Net.AcceptPeer
import MyNet.Net.AcceptorLife
import MyNet.AcceptMutex
import MyNet.TimeSem
import MyNet.TimeSemCounter
import MyNet.TimeSemRun
