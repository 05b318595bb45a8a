import Bayos.Lib.Run
import Bayos.Lib.Entries
import Bayos.Lib.Ring
import Bayos.Lib.Span
import Bayos.Lib.Bitmap
import Bayos.Lib.Fifo
import Bayos.Lib.Rust
import Bayos.Lib.Bytes
import Bayos.Lib.Paging
import Bayos.Lib.Grants
import Bayos.Lib.X86
import Bayos.Lib.Raster
import Bayos.Lib.Utf8
import Bayos.Lib.Logged
import Bayos.Lib.Crash
import Bayos.Lib.Linked
import Bayos.Lib.Irq.Machine
import Bayos.Lib.Irq.Flow
import Bayos.Lib.Irq.Safe
import Bayos.Lib.Irq.Section
import Bayos.Model.Allocator
import Bayos.Model.FreeList
import Bayos.Model.Memory
import Bayos.Model.Sched
import Bayos.Model.Timer
import Bayos.Model.Syscall
import Bayos.Model.Libc
import Bayos.Model.Locking
import Bayos.Model.Apic
import Bayos.Model.Framebuffer
import Bayos.Model.Logging
import Bayos.Model.Pipe
import Bayos.Model.Kernel
import Bayos.Model.Anon
import Bayos.Model.Loader
import Bayos.Model.Boot
import Bayos.Model.Reads
import Bayos.Model.Handler
import Bayos.Model.Accesses
import Bayos.Model.Console
import Bayos.Model.Cross
import Bayos.Proofs.Allocator
import Bayos.Proofs.FreeList
import Bayos.Proofs.HeapSafety
import Bayos.Proofs.Conservation
import Bayos.Proofs.Failure
import Bayos.Proofs.Recovery
import Bayos.Proofs.HeapMemory
import Bayos.Proofs.Frames
import Bayos.Proofs.Handover
import Bayos.Proofs.Coverage
import Bayos.Proofs.Pool
import Bayos.Proofs.Sched
import Bayos.Proofs.RoundRobin
import Bayos.Proofs.Death
import Bayos.Proofs.Removal
import Bayos.Proofs.Timer
import Bayos.Proofs.Preempt
import Bayos.Proofs.Syscall
import Bayos.Proofs.Libc
import Bayos.Proofs.Locking
import Bayos.Proofs.Window
import Bayos.Proofs.Logging
import Bayos.Proofs.Delivery
import Bayos.Proofs.Typing
import Bayos.Proofs.Apic
import Bayos.Proofs.Framebuffer
import Bayos.Proofs.Rendering
import Bayos.Proofs.Kernel
import Bayos.Proofs.Fresh
import Bayos.Proofs.Oblivious
import Bayos.Proofs.Anon
import Bayos.Proofs.Users
import Bayos.Proofs.Ranges
import Bayos.Proofs.Refusal
import Bayos.Proofs.Loader
import Bayos.Proofs.Image
import Bayos.Proofs.Leak
import Bayos.Proofs.Segments
import Bayos.Proofs.Acceptance
import Bayos.Proofs.Reads
import Bayos.Proofs.Residue
import Bayos.Proofs.Pointers
import Bayos.Proofs.Accesses
import Bayos.Proofs.Chunks
import Bayos.Proofs.Cross
import Bayos.Proofs.HeapPages
import Bayos.Proofs.Isolation
import Bayos.Proofs.Boot
import Bayos.Lib.Irq.Parts
import Bayos.Lib.Irq.Ranked
import Bayos.Proofs.Deadlock
import Bayos.Model.Entry
import Bayos.Proofs.Entry
import Bayos.Proofs.Process
import Bayos.Proofs.Accounting
import Bayos.Proofs.Saved
import Bayos.Proofs.Wrappers
import Bayos.Lib.Interrupts
import Bayos.Model.Interrupts
import Bayos.Proofs.Interrupts
