import Sitas.Executor.AbortReentry
import Sitas.Executor.LockOrder
import Sitas.Executor.Shutdown
import Sitas.Mailbox.SendFutures
import Sitas.Executor.WakeupDelivery
import Sitas.Os.UringTeardown
import Sitas.Executor.UringNesting
import Sitas.Executor.ReactorLoop
import Sitas.Mailbox.ReceiverWakeups
import Sitas.Os.UringDelivery
import Sitas.Runtime.Parker
import Sitas.Runtime.ShardOwnership
import Sitas.Tcp.StopPrecedence
import Sitas.Executor.PermitRelease
import Sitas.Executor.BackpressureWakeups
import Sitas.Kv.Linearizable
import Sitas.Kv.Drained
import Sitas.Runtime.OneShotDelivery
import Sitas.Runtime.StreamDelivery
import Sitas.Os.EpollExact
import Sitas.Runtime.ChannelWakeups
import Sitas.Runtime.ShardIntake
import Sitas.Executor.ScopeOwnership
import Sitas.Os.KqueueFailures
import Sitas.Runtime.StoppedService
import Sitas.Executor.GroupLag
import Sitas.Executor.UnixTransfers
import Sitas.Executor.UringExact
import Sitas.Os.UringWaits
import Sitas.Runtime.JoinAllResults
import Sitas.Executor.PollCounters
import Sitas.Executor.SignalWaiters
import Sitas.Runtime.ShardTurns
import Sitas.Executor.TaskList
import Sitas.Os.WaitTimeout
import Sitas.Runtime.MailboxIndex
import Sitas.Runtime.RunningStats
import Sitas.Runtime.RingRefinement
import Sitas.Executor.UdpAddress
