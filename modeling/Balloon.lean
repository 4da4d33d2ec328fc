import Balloon.Frames.Ownership
import Balloon.Frames.Release
import Balloon.Frames.Repetition
import Balloon.Frames.SetView
import Balloon.Allocator.NoOverlap
import Balloon.Allocator.Limits
import Balloon.Allocator.EarlyBlocks
import Balloon.Allocator.TenantRuns
import Balloon.Paging.Boot
import Balloon.Paging.AddressSpace
import Balloon.Paging.PageMap
import Balloon.Paging.CloneFootprint
import Balloon.Paging.CloneFlags
import Balloon.Paging.MovingBound
import Balloon.Paging.BitmapOver
import Balloon.Process.Queue
import Balloon.Process.StackCopy
import Balloon.Process.Schedule
import Balloon.Tasking.InterruptFlag
import Balloon.Tasking.Contexts
import Balloon.Process.FirstProcess
import Balloon.Tasking.Preemption
import Balloon.Interrupts.Service
import Balloon.Timer.Wrap
import Balloon.Console.Terminal
import Balloon.Bus.Pci
import Balloon.Logging.Stacktrace
import Balloon.Printf.Positions
import Balloon.Printf.Stars
import Balloon.Libc.Decimal
import Balloon.Libc.Hex
import Balloon.Ramdisk.Bounds
import Balloon.Disc.Enumeration
import Balloon.Ramdisk.Reading
import Balloon.Ramdisk.RoundTrip
import Balloon.Elf.Symbols
import Balloon.Elf.Sections
