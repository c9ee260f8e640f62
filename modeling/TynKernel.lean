import TynKernel.Crypto.Aead
import TynKernel.Crypto.Alloc
import TynKernel.Fd.DeadNumbers
import TynKernel.Fd.Distinct
import TynKernel.Fd.Fstat
import TynKernel.Fd.Paths
import TynKernel.Io.Sendmsg
import TynKernel.Io.TryAgain
import TynKernel.Mmap.Layout
import TynKernel.Mmap.Unmapped
import TynKernel.Mmap.Zeroed
import TynKernel.Net.Connect
import TynKernel.Net.Deliveries
import TynKernel.Net.Ports
import TynKernel.Net.Readiness
import TynKernel.Net.Refusals
import TynKernel.Poll.Epoll
import TynKernel.Sched.Clone
import TynKernel.Sched.Exit
import TynKernel.Sched.Futex
import TynKernel.Sched.Idle
import TynKernel.Sched.PendingWake
import TynKernel.Sched.Rescue
import TynKernel.Sched.Timeouts
import TynKernel.Smp.Returns
import TynKernel.Smp.Scan
import TynKernel.Smp.Tables
import TynKernel.Time.Calendar
import TynKernel.Time.Clock
import TynKernel.Time.Timerfd
import TynKernel.Tmpfs.Failures
import TynKernel.Tmpfs.Readdir
import TynKernel.Vfs.Views
import TynKernel.Elf.Load
import TynKernel.Time.WallClock
