import KernelModules.Lib.Run
import KernelModules.Lib.Progress
import KernelModules.Lib.Spacing
import KernelModules.Lib.Sum
import KernelModules.Lib.Word
import KernelModules.Lib.Fraction
import KernelModules.Lib.Mask
import KernelModules.Lib.CString
import KernelModules.Lib.Stdio
import KernelModules.Lib.Report
import KernelModules.Lib.Memory
import KernelModules.Lib.Handover
import KernelModules.Lib.Critical
import KernelModules.Lib.Threaded
import KernelModules.Lib.Nodes
import KernelModules.Lib.Paging
import KernelModules.MP1.Registry
import KernelModules.MP1.Order
import KernelModules.MP1.Status
import KernelModules.MP1.Interleaving
import KernelModules.MP1.Atomic
import KernelModules.MP1.Nodes
import KernelModules.MP2.Task
import KernelModules.MP2.Admission
import KernelModules.MP2.Requests
import KernelModules.MP2.Write
import KernelModules.MP2.System
import KernelModules.MP2.Schedule
import KernelModules.MP2.Malformed
import KernelModules.MP2.Wakeup
import KernelModules.MP2.Rate
import KernelModules.MP2.Accounting
import KernelModules.MP2.Faults
import KernelModules.MP2.Progress
import KernelModules.MP2.Select
import KernelModules.MP2.Pids
import KernelModules.MP2.Processes
import KernelModules.MP2.Userapp
import KernelModules.MP2.Status
import KernelModules.MP2.Reading
import KernelModules.MP2.Apps
import KernelModules.MP2.Finishing
import KernelModules.MP2.Nodes
import KernelModules.MP3.Sampler
import KernelModules.MP3.Requests
import KernelModules.MP3.Bound
import KernelModules.MP3.Lock
import KernelModules.MP3.Session
import KernelModules.MP3.Independence
import KernelModules.MP3.Counters
import KernelModules.MP3.Exited
import KernelModules.MP3.Monitor
import KernelModules.MP3.Drain
import KernelModules.MP3.Lossless
import KernelModules.MP3.Interleaving
import KernelModules.MP3.Ring
import KernelModules.MP3.Mmap
import KernelModules.MP3.Timed
import KernelModules.MP3.Live
import KernelModules.MP3.Nodes
import KernelModules.MP3.Paged
import KernelModules.MP3.Work
import KernelModules.MP3.Works
import KernelModules.MP4.Label
import KernelModules.MP4.Permission
import KernelModules.MP4.Complete
import KernelModules.MP4.Create
import KernelModules.MP4.Paths
import KernelModules.MP4.Compose
import KernelModules.MP4.Credentials
import KernelModules.MP4.Ownership
import KernelModules.MP4.Confinement
import KernelModules.Deadlock
import KernelModules.Reports
