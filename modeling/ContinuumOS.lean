import ContinuumOS.Lib.Words
import ContinuumOS.Libc.String
import ContinuumOS.Vfs.Path
import ContinuumOS.Vfs.Termination
import ContinuumOS.Vfs.Normalize
import ContinuumOS.Lib.Slots
import ContinuumOS.Vfs.Mounts
import ContinuumOS.Vfs.Adapters
import ContinuumOS.Vfs.Files
import ContinuumOS.Vfs.Resolution
import ContinuumOS.Fat32.Lookups
import ContinuumOS.Vfs.Calls
import ContinuumOS.Vfs.Runs
import ContinuumOS.Ramfs.Soundness
import ContinuumOS.Vfs.Handles
import ContinuumOS.Vfs.Stale
import ContinuumOS.Ramfs.Nodes
import ContinuumOS.Ramfs.Tree
import ContinuumOS.Ramfs.Lookup
import ContinuumOS.Ramfs.Operations
import ContinuumOS.Ramfs.Runs
import ContinuumOS.Lib.Memory
import ContinuumOS.Libc.Moving
import ContinuumOS.Libc.Formatting
import ContinuumOS.Heap.Model
import ContinuumOS.Heap.Layout
import ContinuumOS.Heap.Invariant
import ContinuumOS.Lib.Runs
import ContinuumOS.Heap.Runs
import ContinuumOS.Heap.Stats
import ContinuumOS.Heap.Coalescing
import ContinuumOS.Lib.Stack
import ContinuumOS.Sched.Scheduler
import ContinuumOS.Sched.Stubs
import ContinuumOS.Sched.RoundTrip
import ContinuumOS.Sched.Resume
import ContinuumOS.Lib.Effect
import ContinuumOS.Fat32.Volume
import ContinuumOS.Lib.Chains
import ContinuumOS.Fat32.Device
import ContinuumOS.Fat32.Allocation
import ContinuumOS.Fat32.Names
import ContinuumOS.Fat32.Directory
import ContinuumOS.Fat32.Scan
import ContinuumOS.Fat32.Aliases
import ContinuumOS.Fat32.LongName
import ContinuumOS.Fat32.LongRuns
import ContinuumOS.Fat32.Decoder
import ContinuumOS.Fat32.RoundTrip
import ContinuumOS.Fat32.Paths
import ContinuumOS.Fat32.Files
import ContinuumOS.Fat32.Freeing
import ContinuumOS.Lib.Blocks
import ContinuumOS.Fat32.Descriptor
import ContinuumOS.Fat32.Lookup
import ContinuumOS.Fat32.Refinement
import ContinuumOS.Fat32.Reopen
import ContinuumOS.Fat32.Sharing
import ContinuumOS.Fat32.Search
import ContinuumOS.Fat32.Coherence
import ContinuumOS.Lib.Scanning
import ContinuumOS.Lib.Ring
import ContinuumOS.Sched.Events
import ContinuumOS.Sched.Delivery
import ContinuumOS.Sched.Wakeups
import ContinuumOS.Sched.WaitResult
import ContinuumOS.Sched.Foreground
import ContinuumOS.Sched.Slots
import ContinuumOS.Sched.Timers
import ContinuumOS.Lib.Bitmap
import ContinuumOS.Mem.Frames
import ContinuumOS.Mem.Regions
import ContinuumOS.Mem.Paging
import ContinuumOS.Mem.Translation
import ContinuumOS.Fat32.Insertion
import ContinuumOS.Fat32.Deletion
import ContinuumOS.Fat32.Ownership
import ContinuumOS.Fat32.Entries
import ContinuumOS.Fat32.Edits
import ContinuumOS.Fat32.ShortNames
import ContinuumOS.Vfs.OpenNodes
import ContinuumOS.Ramfs.Siblings
import ContinuumOS.Vfs.Siblings
import ContinuumOS.Vfs.Depth
import ContinuumOS.Vfs.Buffers
import ContinuumOS.Vfs.Listing
import ContinuumOS.Vfs.Remount
import ContinuumOS.Gui.Geometry
import ContinuumOS.Gui.Desktop
import ContinuumOS.Gui.Stacking
import ContinuumOS.Gui.Consistency
import ContinuumOS.Gui.Resizing
import ContinuumOS.Gui.Frames
import ContinuumOS.Fat32.Undo
import ContinuumOS.Lib.Walks
import ContinuumOS.Lib.Decimal
import ContinuumOS.Fat32.Walks
import ContinuumOS.Fat32.DataArea
import ContinuumOS.Fat32.Markers
import ContinuumOS.Fat32.Mounting
import ContinuumOS.Fat32.Numbering
import ContinuumOS.Fat32.ShortWrites
import ContinuumOS.Gui.Console
import ContinuumOS.Lib.Painting
import ContinuumOS.Gui.Framebuffer
import ContinuumOS.Gui.DoubleBuffer
import ContinuumOS.Gui.Pixels
import ContinuumOS.Gui.MouseCursor
import ContinuumOS.Lib.Terminated
import ContinuumOS.Lib.TextCursor
import ContinuumOS.TextEditor.Model
import ContinuumOS.TextEditor.View
import ContinuumOS.TextEditor.Keys
import ContinuumOS.TextEditor.Saving
import ContinuumOS.TextEditor.Opening
import ContinuumOS.TextEditor.RoundTrip
import ContinuumOS.TextEditor.Sessions
import ContinuumOS.TextEditor.AsText
import ContinuumOS.Fat32.FailedCreation
import ContinuumOS.Fat32.Removing
import ContinuumOS.Fat32.Checks
import ContinuumOS.Fat32.Answers
import ContinuumOS.Fat32.Confinement
import ContinuumOS.Fat32.Dropping
import ContinuumOS.Heap.Preserving
import ContinuumOS.Heap.Sizes
import ContinuumOS.Lib.Lottery
import ContinuumOS.Sched.Lottery
import ContinuumOS.Sched.Repair
import ContinuumOS.Ramfs.Creation
import ContinuumOS.Vfs.Visible
import ContinuumOS.Vfs.Hanging
import ContinuumOS.Vfs.OutOfMemory
import ContinuumOS.Heap.Placing
import ContinuumOS.Lib.Answering
import ContinuumOS.Lib.Cursors
import ContinuumOS.Vfs.OnHeap
import ContinuumOS.Ramfs.Holdings
import ContinuumOS.Vfs.Transfers
import ContinuumOS.Vfs.Unseen
import ContinuumOS.Vfs.Owners
import ContinuumOS.Vfs.AnyBytes
import ContinuumOS.Vfs.Quiet
import ContinuumOS.Vfs.Writing
import ContinuumOS.Vfs.Holes
import ContinuumOS.Vfs.SharedFiles
import ContinuumOS.Vfs.Sequential
import ContinuumOS.TextEditor.SaveCommand
import ContinuumOS.TextEditor.Truncating
import ContinuumOS.TextEditor.FailedSaves
import ContinuumOS.Keyboard.Model
import ContinuumOS.Keyboard.Shifts
import ContinuumOS.Shell.Model
import ContinuumOS.Shell.Line
import ContinuumOS.Shell.History
import ContinuumOS.Mouse.Model
import ContinuumOS.Mouse.Pointer
import ContinuumOS.Mouse.Accounting
import ContinuumOS.Mouse.Deltas
import ContinuumOS.Sched.Hooks
import ContinuumOS.Sched.Starting
import ContinuumOS.Fat32.Appending
import ContinuumOS.Fat32.Reserving
import ContinuumOS.Fat32.Entering
import ContinuumOS.Fat32.Escapes
import ContinuumOS.Lib.XorVector
import ContinuumOS.Sched.Starvation
import ContinuumOS.Gui.EdgeDrag
import ContinuumOS.Gui.Clicks
import ContinuumOS.Gui.Redraw
import ContinuumOS.Gui.Drawing
import ContinuumOS.Disk.Ide
import ContinuumOS.Disk.Ata
import ContinuumOS.Disk.Polling
import ContinuumOS.Disk.Transfers
import ContinuumOS.Disk.Detection
import ContinuumOS.Disk.BlockDevice
import ContinuumOS.Pci.Scan
import ContinuumOS.Pci.Display
import ContinuumOS.Shell.Redirection
import ContinuumOS.Interrupts.Delivery
import ContinuumOS.Gui.Background
