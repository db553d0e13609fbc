import VibeKernel.Lib.Words
import VibeKernel.Lib.Span
import VibeKernel.Lib.Chain
import VibeKernel.Lib.Run
import VibeKernel.Heap.Kheap
import VibeKernel.Heap.Discipline
import VibeKernel.Heap.Safety
import VibeKernel.Heap.Bound
import VibeKernel.Drivers.DiskStream
import VibeKernel.Lib.Cursor
import VibeKernel.Fs.Fat16
import VibeKernel.Fs.FileCursor
import VibeKernel.Kernel.State
import VibeKernel.Kernel.Arena
import VibeKernel.Memory.Paging
import VibeKernel.Memory.PageTables
import VibeKernel.Fs.StreamUse
import VibeKernel.Fs.AnyImage
import VibeKernel.Fs.ReadBound
import VibeKernel.Fs.Open
import VibeKernel.Fs.PathResolution
import VibeKernel.Fs.StoredFile
import VibeKernel.Tools.RoundTrip
import VibeKernel.Task.Task
import VibeKernel.Task.UserStack
import VibeKernel.Loader.Elf
import VibeKernel.Loader.ProcessLoad
import VibeKernel.Loader.ProcessName
import VibeKernel.Fs.Seek
import VibeKernel.Drivers.StreamSlices
import VibeKernel.Drivers.FlakyDrive
import VibeKernel.Fs.PathComponents
import VibeKernel.Fs.FailedOpen
import VibeKernel.Fs.Listing
import VibeKernel.Fs.FirstLive
import VibeKernel.Fs.Walks
import VibeKernel.Fs.ReadFailures
import VibeKernel.Fs.Accesses
import VibeKernel.Fs.Containment
import VibeKernel.Lib.Ring
import VibeKernel.Drivers.Keyboard
import VibeKernel.Lib.Fields
import VibeKernel.Kernel.Command
import VibeKernel.Drivers.Screen
import VibeKernel.Kernel.LineEditor
import VibeKernel.Task.ProcessList
import VibeKernel.Task.TaskList
import VibeKernel.Task.Scheduling
import VibeKernel.Task.Agreement
import VibeKernel.Task.Identifiers
import VibeKernel.Task.UserCopy
import VibeKernel.Tools.Undisturbed
import VibeKernel.Fs.ShortNames
import VibeKernel.Tools.ClusterPositions
import VibeKernel.Drivers.Positioned
import VibeKernel.Drivers.ShiftKeys
import VibeKernel.Cpu.Interrupts
import VibeKernel.Kernel.LowHeap
import VibeKernel.Loader.FileReader
import VibeKernel.Loader.Segments
import VibeKernel.Loader.ElfLoad
import VibeKernel.Loader.ElfFile
import VibeKernel.Loader.Decoding
import VibeKernel.Loader.SegmentWrites
import VibeKernel.Loader.ValidElf
import VibeKernel.Loader.Mappings
import VibeKernel.Loader.FailedLoad
import VibeKernel.Cpu.UserMode
import VibeKernel.Task.UserTasks
import VibeKernel.Drivers.AtaPorts
import VibeKernel.Loader.Ownership
import VibeKernel.Loader.Confinement
import VibeKernel.Task.Confinement
import VibeKernel.Kernel.Shell
import VibeKernel.Lib.Protection
import VibeKernel.Cpu.DescriptorTables
import VibeKernel.Cpu.UserSegments
import VibeKernel.Lib.Pic
import VibeKernel.Kernel.Irqs
import VibeKernel.Kernel.IrqDelivery
import VibeKernel.Lib.Budget
import VibeKernel.Kernel.Room
import VibeKernel.Kernel.HeapRoom
import VibeKernel.Fs.OpenRoom
import VibeKernel.Memory.PagingRoom
import VibeKernel.Loader.ElfRoom
