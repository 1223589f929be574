import WivOS.Mem.PmmFit
import WivOS.Mem.PmmCount
import WivOS.Mem.VmmRead
import WivOS.Mem.VmmUnmap
import WivOS.Mem.VmmCopy
import WivOS.Utils.Gentree
import WivOS.Utils.Kheap
import WivOS.Modules.ShmProcesses
import WivOS.Fs.VfsMounts
import WivOS.Fs.VfsOpen
import WivOS.Fs.Fat32Readdir
import WivOS.Fs.Ext2Dir
import WivOS.Fs.WalkEnds
import WivOS.Fs.MountChecks
import WivOS.Fs.PartfsBounds
import WivOS.Fs.Gpt
import WivOS.Fs.PipeBounds
import WivOS.Tasking.EventWait
import WivOS.Tasking.SchedulerCpus
import WivOS.Tasking.Handles
import WivOS.Tasking.ThreadStack
import WivOS.Fs.Lseek
import WivOS.Devices.NvmeCommand
import WivOS.Modules.XhciRing
import WivOS.Modules.VirtiogpuSelect
import WivOS.Modules.VirtioQueue
import WivOS.Modules.Packetfs
import WivOS.Loader.Symbols
import WivOS.Loader.Tables
import WivOS.Loader.Execve
import WivOS.Apps.Compositor
import WivOS.Cpu.Acpi
import WivOS.Utils.Printf
import WivOS.Utils.Strchr
