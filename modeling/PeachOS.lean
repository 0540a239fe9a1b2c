import PeachOS.Code.Machine
import PeachOS.Code.Disk
import PeachOS.Code.FatTypes
import PeachOS.Code.Fat16
import PeachOS.Code.Directories
import PeachOS.Code.Heap
import PeachOS.Code.Task
import PeachOS.Code.Kernel
import PeachOS.Code.Paging
import PeachOS.Code.Process
import PeachOS.Code.Keyboard
import PeachOS.Code.Path
import PeachOS.Code.File
import PeachOS.Code.ProcessTable
import PeachOS.Code.Interrupt
import PeachOS.Code.Isr80h
import PeachOS.Code.Terminal
import PeachOS.Code.Gdt
import PeachOS.Code.Shell
import PeachOS.Lib.Paged
import PeachOS.Lib.Chain
import PeachOS.Lib.Run
import PeachOS.Lib.Interval
import PeachOS.Lib.Runs
import PeachOS.Lib.Linked
import PeachOS.Lib.Cycle
import PeachOS.Lib.Ring
import PeachOS.Lib.Lapped
import PeachOS.Lib.Search
import PeachOS.Lib.Erasing
import PeachOS.Lib.Asm
import PeachOS.Lib.AsmRules
import PeachOS.Spec.Streams
import PeachOS.Streamer
import PeachOS.Spec.Layout
import PeachOS.Fat.View
import PeachOS.Fat.Table
import PeachOS.Fat.WriteInternal
import PeachOS.Fat.FreeChain
import PeachOS.Fat.Grow
import PeachOS.Fat.Lookup
import PeachOS.Fat.Names
import PeachOS.Fat.Volume
import PeachOS.Fat.Invariant
import PeachOS.Spec.Runs
import PeachOS.Spec.File
import PeachOS.Fat.Sessions
import PeachOS.Fat.Crash
import PeachOS.Fat.Content
import PeachOS.Spec.System
import PeachOS.Fat.System
import PeachOS.Fat.Isolation
import PeachOS.Fat.Coherence
import PeachOS.Fat.Mount
import PeachOS.Spec.RootDirectory
import PeachOS.Fat.Count
import PeachOS.Fat.Directory
import PeachOS.Spec.Reading
import PeachOS.Fat.Reading
import PeachOS.Spec.FileReads
import PeachOS.Fat.FileReads
import PeachOS.Spec.Accounting
import PeachOS.Fat.Accounting
import PeachOS.Spec.Calls
import PeachOS.Fat.Calls
import PeachOS.Spec.Regions
import PeachOS.Fat.Regions
import PeachOS.Heap.Table
import PeachOS.Heap.Runs
import PeachOS.Heap.FirstFit
import PeachOS.Heap.Outstanding
import PeachOS.Task.List
import PeachOS.Process.Memory
import PeachOS.Process.Since
import PeachOS.Process.Paging
import PeachOS.Process.Map
import PeachOS.Process.Load
import PeachOS.Spec.UserMode
import PeachOS.Process.Fork
import PeachOS.Process.Room
import PeachOS.Process.Sharing
import PeachOS.Spec.PageMaps
import PeachOS.Process.PageMaps
import PeachOS.Spec.UserBuffers
import PeachOS.Process.CopyToTask
import PeachOS.Spec.Traces
import PeachOS.Process.FreeBlocks
import PeachOS.Process.ForkExit
import PeachOS.Spec.TaskCopies
import PeachOS.Process.TaskCopies
import PeachOS.Spec.KernelPages
import PeachOS.Process.KernelPages
import PeachOS.Process.SysWrite
import PeachOS.Spec.LineEditor
import PeachOS.Process.ReadLine
import PeachOS.Process.UserBuffers
import PeachOS.Keyboard
import PeachOS.KeyOrder
import PeachOS.Spec.Terminal
import PeachOS.Terminal
import PeachOS.Spec.Gdt
import PeachOS.Gdt
import PeachOS.Spec.Descriptors
import PeachOS.Files.Table
import PeachOS.Spec.Opening
import PeachOS.Files.Opening
import PeachOS.Spec.Children
import PeachOS.Process.Children
import PeachOS.Process.Records
import PeachOS.Process.NoTrace
import PeachOS.Task.Switch
import PeachOS.Task.RoundRobin
import PeachOS.Spec.Paths
import PeachOS.Files.Paths
import PeachOS.Spec.ShortNames
import PeachOS.Fat.ShortNames
import PeachOS.Spec.Creation
import PeachOS.Fat.Creation
import PeachOS.Fat.RootDirectory
import PeachOS.Spec.Freeing
import PeachOS.Fat.Freeing
import PeachOS.Spec.Positions
import PeachOS.Fat.Positions
import PeachOS.Spec.Targets
import PeachOS.Fat.Targets
import PeachOS.Spec.Nested
import PeachOS.Fat.Nested
import PeachOS.Spec.Entries
import PeachOS.Fat.Entries
import PeachOS.Spec.Shell
import PeachOS.Shell.Routines
import PeachOS.Shell.PrintInt
import PeachOS.Shell.Layout
import PeachOS.Shell.Calls
import PeachOS.Shell.Points
import PeachOS.Shell.Steps
import PeachOS.Shell.Child
import PeachOS.Shell.Refinement
import PeachOS.Shell.Protocol
