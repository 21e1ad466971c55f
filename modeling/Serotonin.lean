import Serotonin.Heap.Safety
import Serotonin.Schedule.Conservation
import Serotonin.Schedule.Contention
import Serotonin.Schedule.Waitpid
import Serotonin.BlkCache.Transparent
import Serotonin.Vmm.SbrkRuns
import Serotonin.Buddy.Canonical
import Serotonin.Ipc.Results
import Serotonin.Ipc.Readers
import Serotonin.Files.Permission
import Serotonin.Files.Privilege
import Serotonin.Mem.Memmove
import Serotonin.Syscall.Containment
import Serotonin.Fat32.Dir
import Serotonin.Fat32.Window
import Serotonin.Fat32.Volume
import Serotonin.Fat32.Scan
import Serotonin.Fat32.Select
import Serotonin.Fat32.Listing
import Serotonin.Socket.Stream
import Serotonin.Socket.Connect
import Serotonin.Socket.Readers
import Serotonin.Buddy.Boot
import Serotonin.Tty.Readers
import Serotonin.Schedule.Spaces
import Serotonin.Handles.Calls
import Serotonin.Tmpfs.Open
import Serotonin.Poll.Readiness
import Serotonin.PtyTable.Lifetime
import Serotonin.Vbe.Vtys
import Serotonin.Vbe.Flip
import Serotonin.Ide.Requests
import Serotonin.Exec.Execve
import Serotonin.Net.Receive
import Serotonin.Layers.Compositor
import Serotonin.Buddy.Zones
import Serotonin.Exec.Stack
import Serotonin.Syscall.CopyBytes
import Serotonin.Vmm.Shm
import Serotonin.Heap.DebugSwitch
import Serotonin.Heap.Limits
import Serotonin.Fat32.WindowBounds
import Serotonin.Poll.Waiters
import Serotonin.Schedule.Signals
import Serotonin.Fat32.LongNames
import Serotonin.Lib.Rounds
import Serotonin.Fat32.Image
import Serotonin.Fat32.Create
import Serotonin.Fat32.Circles
import Serotonin.Fat32.Termination
import Serotonin.Fat32.Fragments
import Serotonin.Fat32.FullDisk
import Serotonin.Fat32.Partition
import Serotonin.Lib.Padded
import Serotonin.Tmpfs.Data
import Serotonin.Lib.Paths
import Serotonin.Vfs.Resolve
import Serotonin.Vfs.Cleanup
import Serotonin.Vfs.Lookup
import Serotonin.Vfs.Chdir
import Serotonin.Vfs.Open
import Serotonin.Fat32.Read
import Serotonin.Fat32.Growth
import Serotonin.Fat32.Write
import Serotonin.Files.Ranges
import Serotonin.Fat32.Resize
import Serotonin.Files.Agree
import Serotonin.Fat32.Lookup
import Serotonin.Vbe.Cursor
import Serotonin.Schedule.RunQueue
import Serotonin.Tty.EndOfFile
import Serotonin.Vbe.Blend
import Serotonin.Ide.Reports
import Serotonin.Files.Bounded
import Serotonin.Files.Owners
import Serotonin.Mem.Strncpy
import Serotonin.Init.Lines
import Serotonin.Init.Rounds
import Serotonin.Init.Startup
import Serotonin.Shell.Refine
import Serotonin.Fat32.ShortNames
import Serotonin.Wm.Commands
import Serotonin.Events.Queues
import Serotonin.Stdio.Snprintf
import Serotonin.Schedule.Kernel
