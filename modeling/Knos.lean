import Knos.Bootloader.BootFile
import Knos.Bootloader.BootSector
import Knos.Bootloader.DirectorySearch
import Knos.Bootloader.FatEntry
import Knos.Bootloader.HandOver
import Knos.Bootloader.KernelLoader
import Knos.Bootloader.LoadKernel
import Knos.Bootloader.LoadLoader
import Knos.Bootloader.Machine
import Knos.Bootloader.MemoryMap
import Knos.Bootloader.ModeList
import Knos.Bootloader.ModeSearch
import Knos.Bootloader.Reading
import Knos.Bootloader.Retries
import Knos.Bootloader.SavedFiles
import Knos.Bootloader.ToolImage
import Knos.KernelLib.Coverage
import Knos.KernelLib.CpuInfo
import Knos.KernelLib.MemoryRoutines
import Knos.Lib.Align
import Knos.Lib.Blocks
import Knos.Lib.Bytes
import Knos.Lib.Chains
import Knos.Lib.Fat12
import Knos.Lib.Floppy
import Knos.Lib.JumpSearch
import Knos.Lib.Ledger
import Knos.Lib.Loop
import Knos.Lib.Numeral
import Knos.Lib.PageTables
import Knos.Lib.Pieces
import Knos.Lib.PyText
import Knos.Lib.Requests
import Knos.Lib.Shelf
import Knos.Lib.Spans
import Knos.Lib.Stack
import Knos.Lib.Words
import Knos.Memory.AllocPages
import Knos.Memory.Boot
import Knos.Memory.Bounds
import Knos.Memory.Charges
import Knos.Memory.Counters
import Knos.Memory.Effects
import Knos.Memory.Entries
import Knos.Memory.FreeRange
import Knos.Memory.Image
import Knos.Memory.InitMemory
import Knos.Memory.Leak
import Knos.Memory.Lockstep
import Knos.Memory.Progress
import Knos.Memory.Reserved
import Knos.Memory.Runs
import Knos.Memory.Search
import Knos.Memory.SelfTest
import Knos.Memory.Shared
import Knos.Memory.Tables
import Knos.Memory.Types
import Knos.Memory.Windows
import Knos.Memory.Zones
import Knos.Paging.Boot
import Knos.Paging.FrameBuffer
import Knos.Paging.KernelMap
import Knos.Paging.Switch
import Knos.Paging.Unmap
import Knos.Printk.Calls
import Knos.Printk.Cells
import Knos.Printk.Console
import Knos.Printk.Cursor
import Knos.Printk.Drawing
import Knos.Printk.Formats
import Knos.Printk.Grammar
import Knos.Printk.Malformed
import Knos.Printk.Messages
import Knos.Printk.Number
import Knos.Printk.Numerals
import Knos.Printk.Parsing
import Knos.Printk.Picture
import Knos.Printk.ReadBack
import Knos.Printk.Rendering
import Knos.Printk.Room
import Knos.Printk.Strings
import Knos.Printk.Vsnprintf
import Knos.Tools.Clusters
import Knos.Tools.Codec
import Knos.Tools.Commands
import Knos.Tools.Extent
import Knos.Tools.Fat12Img
import Knos.Tools.FatTable
import Knos.Tools.FileTable
import Knos.Tools.Integrity
import Knos.Tools.Lookup
import Knos.Tools.Refusals
import Knos.Tools.Space
import Knos.Tools.Volume
import Knos.Tools.WriteData
import Knos.Trap.Delivery
import Knos.Trap.Exceptions
import Knos.Trap.Frame
import Knos.Trap.Gates
import Knos.Trap.Interrupts
import Knos.Trap.Layout
import Knos.Trap.Reports
import Knos.Trap.Restore
import Knos.Trap.TaskState
