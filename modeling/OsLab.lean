import OsLab.Lib.Transition
import OsLab.Lib.Bytes
import OsLab.Lib.Splice
import OsLab.Lib.SlotTable
import OsLab.Lib.Program
import OsLab.Lib.RingBuffer
import OsLab.Lib.Radix
import OsLab.Lib.Ownership
import OsLab.Aarch64.Mmu
import OsLab.Common.Sem
import OsLab.Common.SemRun
import OsLab.Common.Memory
import OsLab.Common.Ipc
import OsLab.Common.MsgLists
import OsLab.Common.MsgWait
import OsLab.Common.IpcIds
import OsLab.Common.Format
import OsLab.Common.Queue
import OsLab.Fs.Defines
import OsLab.Fs.Log
import OsLab.Fs.LogEffect
import OsLab.Fs.LogAdmission
import OsLab.Fs.Cache
import OsLab.Fs.CacheSections
import OsLab.Fs.Alloc
import OsLab.Fs.Store
import OsLab.Fs.BlockAllocator
import OsLab.Fs.Swap
import OsLab.Fs.InodeEntry
import OsLab.Fs.Inode
import OsLab.Fs.InodeReuse
import OsLab.Fs.Directory
import OsLab.Fs.InodeRun
import OsLab.Fs.Image
import OsLab.Fs.InodeSpec
import OsLab.Fs.FileBytes
import OsLab.Fs.InodeClear
import OsLab.Fs.InodeCalls
import OsLab.Fs.ByteArrays
import OsLab.Fs.BlockOwnership
import OsLab.Fs.DirectorySpec
import OsLab.Fs.DirectoryMap
import OsLab.Fs.NameBuffers
import OsLab.Fs.File
import OsLab.Fs.PipeRun
import OsLab.Fs.PipeLock
import OsLab.Driver.Sd
import OsLab.Driver.SdBuffer
import OsLab.Kernel.Sched
import OsLab.Kernel.Wait
import OsLab.Kernel.ProcTree
import OsLab.Kernel.Pid
import OsLab.Kernel.Sysfile
import OsLab.Kernel.SysfileRun
import OsLab.Kernel.Descriptors
import OsLab.Kernel.FileWrite
import OsLab.Kernel.Console
import OsLab.Kernel.Mem
import OsLab.Kernel.PageAllocator
import OsLab.Kernel.PageRelease
import OsLab.Kernel.Kalloc
import OsLab.Kernel.KallocRun
import OsLab.Kernel.Pt
import OsLab.Kernel.FreePgdir
import OsLab.Kernel.Paging
import OsLab.Kernel.AddressSpace
import OsLab.Kernel.HeapPages
import OsLab.Kernel.CopyOnWrite
import OsLab.Kernel.FreshPages
import OsLab.Kernel.Vm
import OsLab.Kernel.Lifetime
import OsLab.Kernel.HeapRun
import OsLab.Kernel.VmCopy
import OsLab.Kernel.UserMemory
import OsLab.Kernel.UserAccess
import OsLab.Common.List
import OsLab.Kernel.SectionList
import OsLab.Kernel.PickNext
import OsLab.Kernel.Kill
import OsLab.Kernel.ConsoleInterrupt
import OsLab.Kernel.LineDiscipline
