import Azalea.Support.Runs
import Azalea.Support.Tiling
import Azalea.Klib.MathHacks
import Azalea.Support.Links
import Azalea.Klib.LinkedLists
import Azalea.Mem.Vmm
import Azalea.Mem.VmmInvariant
import Azalea.Mem.VmmMerge
import Azalea.Mem.VmmRuns
import Azalea.Support.Bytes
import Azalea.Fat.Structures
import Azalea.Fat.Table
import Azalea.Support.Walks
import Azalea.Fat.Chain
import Azalea.Fat.Entry
import Azalea.Fat.Sectors
import Azalea.Support.Blocks
import Azalea.Fat.Layout
import Azalea.Fat.Read
import Azalea.Fat.Write
import Azalea.Fat.WriteFile
import Azalea.Support.Maps
import Azalea.Fat.Names
import Azalea.Fat.Folder
import Azalea.Fat.Slots
import Azalea.Fat.Directory
import Azalea.Fat.Children
import Azalea.Fat.LongNames
import Azalea.Fat.FolderRuns
import Azalea.Pipe.PipeFs
import Azalea.Support.Bitmaps
import Azalea.Mem.Physical
import Azalea.Mem.Pml4
import Azalea.Mem.PageTables
import Azalea.Mem.PageMap
import Azalea.Mem.PageRuns
import Azalea.Mem.Mapping
import Azalea.Mem.Pages
import Azalea.Support.CycleRing
import Azalea.Klib.Slabs
import Azalea.Klib.Heap
import Azalea.Klib.HeapRanges
import Azalea.Klib.HeapInvariant
import Azalea.Klib.HeapSplit
import Azalea.Klib.HeapAlloc
import Azalea.Klib.HeapFree
import Azalea.Klib.HeapRuns
import Azalea.Klib.HeapBits
import Azalea.Klib.HeapRelease
import Azalea.Proc.WorkQueue
import Azalea.Proc.WorkInvariant
import Azalea.Proc.WorkRuns
import Azalea.Proc.CompletionRuns
import Azalea.Proc.Scheduler
import Azalea.Proc.Mutex
import Azalea.Proc.MutexRuns
import Azalea.Proc.Semaphore
import Azalea.Proc.WaitObject
import Azalea.Proc.WaitRuns
import Azalea.Proc.TimedWaits
import Azalea.Proc.Futex
import Azalea.Proc.IpiSignals
import Azalea.Proc.DeadProcesses
import Azalea.Usb.TrbRing
import Azalea.Usb.EventRing
import Azalea.Usb.HidReport
import Azalea.Usb.HidDescriptor
import Azalea.Usb.HidShape
import Azalea.Usb.HidNesting
import Azalea.Usb.HidTiling
import Azalea.Syscall.Validation
import Azalea.Syscall.Cursor
import Azalea.Syscall.Handles
import Azalea.Syscall.Pointers
import Azalea.Mem.Spaces
import Azalea.Mem.SpaceUses
import Azalea.Syscall.Memory
import Azalea.Syscall.ProcessEnd
import Azalea.Syscall.SharedMemory
import Azalea.Syscall.MemoryRuns
import Azalea.Support.Patches
import Azalea.Support.Spans
import Azalea.Proc.LoadElf
import Azalea.Block.Proxy
import Azalea.Block.Ramdisk
import Azalea.Block.Ata
import Azalea.Fat.Mount
import Azalea.Fat.Opening
import Azalea.Fat.ChainFailures
import Azalea.Fat.WriteRefusals
import Azalea.Fat.ShortNames
import Azalea.Fat.LongNameCodec
import Azalea.Fat.NameEntries
import Azalea.Fat.BasisNames
import Azalea.Fat.Unlink
import Azalea.Fat.SlotRuns
import Azalea.Fat.AddEntries
import Azalea.Device.Terminal
import Azalea.Device.Ps2Keyboard
import Azalea.Syscall.Messages
import Azalea.Syscall.Children
import Azalea.Mem.TableViews
import Azalea.Mem.SpaceRuns
import Azalea.Support.Rings
import Azalea.Proc.ThreadCycle
import Azalea.Proc.CycleSearch
import Azalea.Mem.EntryCodec
import Azalea.Fs.MemFs
import Azalea.Usb.HidItems
import Azalea.Usb.HidUsages
import Azalea.Usb.TrbQueue
import Azalea.Usb.CommandRing
import Azalea.Usb.ControlTransfer
import Azalea.Mem.MemoryMap
import Azalea.Device.TerminalOutput
import Azalea.Proc.HpetClock
import Azalea.Usb.Scratchpads
import Azalea.Block.AtaDma
import Azalea.Usb.ConfigDescriptor
import Azalea.Usb.ConfigReading
import Azalea.Usb.EndpointContexts
import Azalea.Usb.Enumeration
import Azalea.User.ExecFile
import Azalea.Klib.Spinlock
import Azalea.Fat.FreeCluster
import Azalea.User.CommandLine
import Azalea.User.SimpleShell
import Azalea.User.ElfLoader
import Azalea.Proc.UserStacks
import Azalea.Syscall.BackingMemory
import Azalea.Proc.LoadContents
import Azalea.Proc.NoStarvation
import Azalea.Proc.Interrupts
import Azalea.Tree.SimpleBranch
import Azalea.Tree.BranchLocks
import Azalea.Support.Paths
import Azalea.Tree.PathMap
import Azalea.Mem.TableViews
