import Kmi.SpTree.Remove
import Kmi.Pmem.Runs
import Kmi.Rpc.Overlap
import Kmi.Rpc.Bounds
import Kmi.Rpc.Identity
import Kmi.Regions.Lookup
import Kmi.Vmem.Agree
import Kmi.Vmem.Hardware
import Kmi.Nodes.Runs
import Kmi.Uvmem.Revoke
import Kmi.Dmem.AllOrNothing
import Kmi.Ipi
import Kmi.Timer.Deadline
import Kmi.Kernel.Orphanage
import Kmi.Kernel.Transparent
import Kmi.Kernel.Atomic
import Kmi.Elf.Image
import Kmi.Vmem.TablesHeld
import Kmi.Vmem.Clone
import Kmi.Pmem.Inside
import Kmi.Queue
import Kmi.Kernel.Resume
import Kmi.Timer.Interrupts
import Kmi.Uvmem.Leaks
import Kmi.Elf.Failure
import Kmi.Irq.Runs
import Kmi.Initrd
import Kmi.Pmem.Reserved
import Kmi.Library.Pieces
import Kmi.Regions.Neutral
import Kmi.Regions.Sizes
import Kmi.Pmem.Undo
import Kmi.Vmem.Owned
import Kmi.Vmem.Spaces
import Kmi.Uvmem.Supply
import Kmi.Uvmem.Page
import Kmi.Uvmem.Copy
import Kmi.Nodes.Layout
import Kmi.Strings.Compare
import Kmi.Bits
import Kmi.Kernel.Named
import Kmi.Uvmem.Loops
import Kmi.Library.Degree
import Kmi.Shared.References
import Kmi.Bkl
import Kmi.Pmem.Boot
import Kmi.Strings.Search
import Kmi.Vmem.Direct
import Kmi.Board
