import MicroKernel.Lib.Bytes
import MicroKernel.Lib.Word
import MicroKernel.Lib.BlockList
import MicroKernel.Libc.Memmove
import MicroKernel.Heap.Kmalloc
import MicroKernel.Heap.Refine
import MicroKernel.Heap.Calls
import MicroKernel.Heap.Invariant
import MicroKernel.Heap.Fallback
import MicroKernel.Fat32.Calls
import MicroKernel.Fat32.Chain
import MicroKernel.Fat32.CreateFaults
import MicroKernel.Fat32.DeleteFaults
import MicroKernel.Fat32.FreeCount
import MicroKernel.Fat32.Grow
import MicroKernel.Fat32.Mirror
import MicroKernel.Net.EchoReply
import MicroKernel.Fat32.Create
import MicroKernel.Fat32.Cycles
import MicroKernel.Fat32.DotDot
import MicroKernel.Fat32.Listing
import MicroKernel.Fat32.Scanners
import MicroKernel.Fat32.UniqueNames
import MicroKernel.Vfs.Algebra
import MicroKernel.Fat32.AbsolutePath
import MicroKernel.Fat32.Footprint
import MicroKernel.Fat32.Isolation
import MicroKernel.Heap.Coalesce
import MicroKernel.Lib.Bitmap
import MicroKernel.Lib.Slots
import MicroKernel.Net.ArpCache
import MicroKernel.Net.Checksum
import MicroKernel.Net.Dhcp
import MicroKernel.Net.Ne2000
import MicroKernel.Net.ReceiveRing
import MicroKernel.Paging.Directory
import MicroKernel.Paging.HardwareWalk
import MicroKernel.Paging.Leak
import MicroKernel.Fat32.ListedOpens
import MicroKernel.Ext2.Driver
import MicroKernel.Ext2.Read
import MicroKernel.Fat12.Driver
import MicroKernel.Fat12.Read
import MicroKernel.Fat32.FileData
import MicroKernel.Vfs.Backends
import MicroKernel.Heap.Frames
import MicroKernel.Lib.CArray
import MicroKernel.Lib.Cyclic
import MicroKernel.Lib.LineEditor
import MicroKernel.Lib.RingQueue
import MicroKernel.Libc.String
import MicroKernel.Paging.Pages
import MicroKernel.Sched.Pairing
import MicroKernel.Shell.CommandLoop
import MicroKernel.Shell.Editing
import MicroKernel.Shell.KeyCount
import MicroKernel.Shell.Recall
import MicroKernel.Shell.SpecialKeys
import MicroKernel.Ata.ReadSector
import MicroKernel.Boot.Multiboot1
import MicroKernel.Boot.Multiboot2
import MicroKernel.Fat12.SequentialReads
import MicroKernel.Fat32.ChainRead
import MicroKernel.Fat32.FreeChain
import MicroKernel.Fat32.LoadToAddress
import MicroKernel.Fat32.SequentialReads
import MicroKernel.Pci.ConfigSpace
import MicroKernel.Fat32.Allocation
import MicroKernel.Fat32.FatEntries
import MicroKernel.Fat32.Geometry
import MicroKernel.Fat32.RemoveDir
import MicroKernel.Fat32.RoundTrip
import MicroKernel.Fat32.ValidNames
import MicroKernel.Lib.Tlv
import MicroKernel.Net.DhcpOptions
import MicroKernel.Net.DhcpStale
import MicroKernel.Net.Framing
import MicroKernel.Ext2.Directory
import MicroKernel.Ext2.Inodes
import MicroKernel.Lib.Decimal
import MicroKernel.Net.Ipv4Text
import MicroKernel.Ext2.DirectorySafety
import MicroKernel.Ext2.Lookup
import MicroKernel.Ext2.Mounting
import MicroKernel.Heap.AllocFree
import MicroKernel.Heap.DoubleFree
import MicroKernel.Heap.FailedRequest
import MicroKernel.Heap.ReallocData
import MicroKernel.Libc.Division
import MicroKernel.Libc.Strtoul
import MicroKernel.Fat12.OpenFile
import MicroKernel.Shell.HistoryRing
import MicroKernel.Shell.Split
import MicroKernel.Pci.BusMaster
import MicroKernel.Elf.LoadElf
import MicroKernel.Sched.StackFrames
import MicroKernel.Libc.AlignedAlloc
import MicroKernel.Libc.Strtok
import MicroKernel.Libc.PrintfIntegers
import MicroKernel.Libc.FormatEnds
import MicroKernel.Time.Pit
import MicroKernel.Lib.Paper
import MicroKernel.Video.Layout
import MicroKernel.Libc.Numerals
import MicroKernel.Fat12.Chs
import MicroKernel.Shell.LockedQueue
import MicroKernel.Net.E1000Receive
import MicroKernel.Net.E1000Transmit
import MicroKernel.Net.Storm
import MicroKernel.Net.Ping
import MicroKernel.Sched.Threads
import MicroKernel.Video.Framebuffer
import MicroKernel.Sched.Preemption
import MicroKernel.Drives.Commands
import MicroKernel.Ata.Ports
import MicroKernel.Fdd.Reads
