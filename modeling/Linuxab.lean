import Linuxab.Base.Bitmap
import Linuxab.Base.Chain
import Linuxab.Base.Counter
import Linuxab.Base.DigitalLine
import Linuxab.Base.DoublyLinked
import Linuxab.Base.EndAround
import Linuxab.Base.Exchange
import Linuxab.Base.FirstMatch
import Linuxab.Base.Fold
import Linuxab.Base.Integers
import Linuxab.Base.Numeral
import Linuxab.Base.Population
import Linuxab.Base.Program
import Linuxab.Base.QuotedText
import Linuxab.Base.Recursion
import Linuxab.Base.Ring
import Linuxab.Base.RoundRobin
import Linuxab.Base.Simulation
import Linuxab.Base.Slice
import Linuxab.Base.Slots
import Linuxab.Base.Splice
import Linuxab.Base.Store
import Linuxab.Base.Strips
import Linuxab.Base.Sweep
import Linuxab.Base.TextScreen
import Linuxab.Base.Walk
import Linuxab.Base.While
import Linuxab.Base.Words
import Linuxab.Net.SkbQueue
import Linuxab.Net.QueueRuns
import Linuxab.Net.QueueOrder
import Linuxab.Net.Checksum
import Linuxab.Net.Command
import Linuxab.Net.Stack
import Linuxab.Net.ChecksumField
import Linuxab.Net.Execution
import Linuxab.Net.Ownership
import Linuxab.Net.PullSafety
import Linuxab.Net.IpHeader
import Linuxab.Net.Transmit
import Linuxab.Net.Allocation
import Linuxab.Net.Reception
import Linuxab.Net.EchoReply
import Linuxab.Net.Loopback
import Linuxab.Net.Devices
import Linuxab.Net.DeviceNames
import Linuxab.Net.Netlink
import Linuxab.Net.Sockets
import Linuxab.Shell.Text
import Linuxab.Shell.FileSystem
import Linuxab.Shell.FileMap
import Linuxab.Shell.Path
import Linuxab.Shell.PathScan
import Linuxab.Shell.PathResolve
import Linuxab.Shell.PathReference
import Linuxab.Shell.PathBounds
import Linuxab.Shell.State
import Linuxab.Shell.Words
import Linuxab.Shell.Commands
import Linuxab.Shell.Execute
import Linuxab.Shell.Boot
import Linuxab.Shell.Termination
import Linuxab.Shell.WorkingDirectory
import Linuxab.Shell.Subtree
import Linuxab.Shell.Directories
import Linuxab.Shell.Listing
import Linuxab.Shell.Quoting
import Linuxab.Shell.Aliases
import Linuxab.Shell.AliasExpansion
import Linuxab.Desktop.Vga
import Linuxab.Desktop.FileSystem
import Linuxab.Desktop.Apps
import Linuxab.Desktop.Terminal
import Linuxab.Desktop.Input
import Linuxab.Desktop.KeyEffect
import Linuxab.Desktop.Safety
import Linuxab.Desktop.EditorSave
import Linuxab.Desktop.EditFile
import Linuxab.Desktop.FileManager
import Linuxab.Desktop.FileList
import Linuxab.Desktop.Picture
import Linuxab.Desktop.EditorCursor
import Linuxab.Desktop.TerminalWrite
import Linuxab.Lock.Spinlock
import Linuxab.Lock.Tickets
import Linuxab.Lock.Exclusion
import Linuxab.Lock.ReadWrite
import Linuxab.Ipc.MsgRuns
import Linuxab.Kasan.Shadow
import Linuxab.Kasan.Detection
import Linuxab.Printk.Format
import Linuxab.Printk.Bounds
import Linuxab.Console.Cursor
import Linuxab.Console.Screen
import Linuxab.Console.OnScreen
import Linuxab.Console.Vga
import Linuxab.Console.LineEdit
import Linuxab.Console.LineShift
import Linuxab.Console.Region
import Linuxab.Console.Crtc
import Linuxab.Fbcon.Font
import Linuxab.Fbcon.Console
import Linuxab.Fbcon.Frame
import Linuxab.Fbcon.Rendering
import Linuxab.Memory.FrameAllocator
import Linuxab.Memory.HeldFrames
import Linuxab.Memory.ByteBitmap
import Linuxab.Kernel.Credentials
import Linuxab.Kernel.Division
import Linuxab.Kernel.Signals
import Linuxab.Kernel.CpuNotifier
import Linuxab.Kernel.NumberText
import Linuxab.Kernel.SizeText
import Linuxab.Kernel.Bitops
import Linuxab.Kernel.CapabilitySet
import Linuxab.Kernel.CpuHotplug
import Linuxab.Kernel.SignalActions
import Linuxab.Kernel.BootTags
import Linuxab.Kernel.Edid
import Linuxab.Kernel.Alignment
import Linuxab.Kernel.FixedWidth
import Linuxab.Kernel.AddressSpaces
import Linuxab.Kernel.ListHead
import Linuxab.Kernel.StringCompare
import Linuxab.Hardening.CallTargets
import Linuxab.Hardening.IndexMask
import Linuxab.Hardening.StructLayout
import Linuxab.Hardening.CpuBugs
import Linuxab.Accel.Matmul
import Linuxab.Toolchain.KernelBuild
import Linuxab.Acpi.Bus
import Linuxab.Acpi.Resources
import Linuxab.Acpi.MapMemory
import Linuxab.Acpi.Gpe
import Linuxab.Elf.Loader
import Linuxab.Elf.Relocation
import Linuxab.Elf.SymbolTable
import Linuxab.Graphics.Framebuffer
import Linuxab.Graphics.Line
import Linuxab.Graphics.Notifications
import Linuxab.AppStore.Download
import Linuxab.AppStore.Widgets
import Linuxab.AppStore.Catalog
import Linuxab.AppStore.Events
import Linuxab.AppStore.Update
import Linuxab.AppStore.Clicks
import Linuxab.AppStore.FetchBounds
import Linuxab.AppStore.Repository
import Linuxab.Bonding.Rlb
import Linuxab.Bonding.RlbTable
import Linuxab.Bonding.RlbRuns
import Linuxab.Bonding.RlbBalance
import Linuxab.Bonding.Tlb
import Linuxab.Bonding.Alb
