import KernelV.Memory.UsableMemory
import KernelV.Memory.TableFrames
import KernelV.Arch.IsrPageFault
import KernelV.Memory.FrameAccounting
import KernelV.Memory.DemandPaging
import KernelV.Arch.DoubleFault
import KernelV.Console.Vga
import KernelV.Console.Terminal
import KernelV.Console.RingBuffer
import KernelV.Console.Format
import KernelV.Console.Printk
import KernelV.Bootloader.Stage2
import KernelV.Console.FormatAccess
import KernelV.Console.Numerals
import KernelV.Console.Truncation
import KernelV.Console.Rendering
import KernelV.Memory.FreeFrames
import KernelV.Memory.Reservation
import KernelV.Memory.OutOfMemory
import KernelV.Memory.ReservationOrder
import KernelV.Memory.BitmapSlot
import KernelV.Arch.IsrReturn
import KernelV.Bootloader.MapBuffer
import KernelV.Memory.StackOverflow
import KernelV.Memory.VirtualPaging
import KernelV.Memory.AccessRights
import KernelV.Library.PagedMemory
import KernelV.Memory.PagedPrograms
import KernelV.Arch.Exceptions
import KernelV.Arch.StackExhaustion
import KernelV.Console.Panik
import KernelV.Library.SlotPool
import KernelV.Memory.AllocatorPool
import KernelV.Bootloader.DiskImage
import KernelV.Console.MapReport
import KernelV.Bootloader.PowerOn
import KernelV.Console.FaultReport
import KernelV.Memory.BootFrames
import KernelV.Memory.DemandPager
