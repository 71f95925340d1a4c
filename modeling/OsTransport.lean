import OsTransport.Lib.Run
import OsTransport.Lib.PopFirst
import OsTransport.Lib.Holders
import OsTransport.Lib.Counter
import OsTransport.Lib.Lane
import OsTransport.Lib.LockOrder
import OsTransport.Lib.Linked
import OsTransport.Lib.Service
import OsTransport.Lib.Memory
import OsTransport.Lib.Ring
import OsTransport.ThreadPool
import OsTransport.ThreadPoolStep
import OsTransport.ThreadPoolTable
import OsTransport.ThreadPoolCases
import OsTransport.WakeUp
import OsTransport.Fifo
import OsTransport.RequestView
import OsTransport.Account
import OsTransport.Sequential
import OsTransport.Chunks
import OsTransport.RecvWait
import OsTransport.Headers
import OsTransport.SyncWait
import OsTransport.Ledger
import OsTransport.Cancel
import OsTransport.PoolLife
import OsTransport.Shutdown
import OsTransport.Destroy
import OsTransport.Locks
import OsTransport.Deadlock
import OsTransport.Reentry
import OsTransport.Submission
import OsTransport.Recover
import OsTransport.WorkerQueue
import OsTransport.RequestTable
import OsTransport.Selection
import OsTransport.OldestTask
import OsTransport.AllocFailure
import OsTransport.Callbacks
import OsTransport.BatchCallback
import OsTransport.Verdict
import OsTransport.Solo
import OsTransport.Barrier
import OsTransport.Traffic
import OsTransport.WakeLedger
import OsTransport.Paced
import OsTransport.StopAndWait
import OsTransport.KeyReuse
import OsTransport.Posts
import OsTransport.Wire
import OsTransport.Delivery
import OsTransport.Arrival
import OsTransport.EventQueue
import OsTransport.TaskIds
import OsTransport.Handle
