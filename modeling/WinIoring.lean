import WinIoring.Runtime.Slab.History
import WinIoring.Runtime.Cancel
import WinIoring.Runtime.Deferral
import WinIoring.Runtime.Files
import WinIoring.Runtime.Holds
import WinIoring.Runtime.Gate
import WinIoring.Runtime.Rejection
import WinIoring.Runtime.Sequential
import WinIoring.Runtime.Initialized
import WinIoring.Runtime.Residue
import WinIoring.Runtime.Current
import WinIoring.Runtime.Park
import WinIoring.Pipe.Failure
import WinIoring.Pipe.Teardown
import WinIoring.Pipe.Wakeup
import WinIoring.File.Error
import WinIoring.Bench.Workload
import WinIoring.Bench.Pools
import WinIoring.Bench.Matrix
import WinIoring.Runtime.Slab.Storage
import WinIoring.Rt.Oneshot
import WinIoring.Rt.Executor
import WinIoring.Runtime.Mailbox
import WinIoring.Runtime.Wakes
import WinIoring.Runtime.Borrow
import WinIoring.Runtime.Cargo
import WinIoring.Runtime.Cursor
import WinIoring.Runtime.Work
