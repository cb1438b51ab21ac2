import Gubos.Core.Run
import Gubos.Core.Tiling
import Gubos.Kmalloc
import Gubos.Core.Heap
import Gubos.Core.Rotation
import Gubos.Panic
import Gubos.Sched.Removal
import Gubos.Core.Bytes
import Gubos.Core.Cpu
import Gubos.Layout
import Gubos.TaskSwitch
import Gubos.Mm.Paging
import Gubos.Mm.Pmm
import Gubos.Sched.RoundRobin
import Gubos.Core.TreeHeap
import Gubos.Mm.Vmm
import Gubos.Mm.FreeList
import Gubos.Mm.AllocTree
import Gubos.Mm.Conservation
import Gubos.Mm.LookupTree
import Gubos.Mm.Unmapping
import Gubos.Mm.PageUnmap
import Gubos.Core.Loop
import Gubos.Mm.PagingInit
import Gubos.Mm.SelfMap
import Gubos.Core.Screen
import Gubos.Tty
import Gubos.Mm.FreeExact
import Gubos.Mm.PageFault
import Gubos.Elf.Loader
import Gubos.Elf.Coverage
import Gubos.Elf.UserHalf
import Gubos.Mm.Totality
import Gubos.Elf.Stores
import Gubos.Elf.Image
import Gubos.Core.IntervalTree
import Gubos.Mm.OrderedTree
import Gubos.Mm.Placement
import Gubos.Mm.Backing
import Gubos.Mm.Reserved
import Gubos.Mm.CloneTree
import Gubos.Mm.PartialUnmap
import Gubos.Mm.Isolation
import Gubos.KmallocFit
import Gubos.Mm.PageOrder
import Gubos.Sched.Termination
import Gubos.TaskStart
import Gubos.Core.Checked
import Gubos.Elf.Reads
import Gubos.Elf.NullEntries
import Gubos.Multiboot
import Gubos.Core.Buffer
import Gubos.Core.Digits
import Gubos.Text.Strings
import Gubos.Text.Itoa
import Gubos.Text.Vprintk
import Gubos.Text.Grammar
import Gubos.Text.Modifiers
import Gubos.Core.Numeral
import Gubos.Text.Canonical
import Gubos.Text.Memcmp
import Gubos.Mm.CloneList
import Gubos.Core.SearchTree
import Gubos.Mm.Deletion
import Gubos.Sched.Preemption
import Gubos.Sched.Exit
import Gubos.Sched.Interrupted
import Gubos.Syscall
import Gubos.KmallocClients
import Gubos.Mm.VmmInit
import Gubos.Core.Circular
import Gubos.Descriptors
import Gubos.Drivers.Interrupts
import Gubos.Mm.TaskSpace
import Gubos.Core.Simulation
import Gubos.Core.TreeValue
import Gubos.Mm.SpaceValue
import Gubos.Mm.Spaces
import Gubos.Text.Log

