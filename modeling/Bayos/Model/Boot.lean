/-
Booting, as far as memory goes: `init_heap` of `kernel/src/allocator.rs`
and the part of `kernel_main` in `kernel/src/main.rs` that sets up the
heap, hands the frames over and loads the first program.

# One page table, two allocators

`kernel_main` makes one `OffsetPageTable` and passes it first the boot
allocator and later the bitmap allocator: `map_to` is generic in the
allocator it takes the frames for its tables from. A mapper of the model
has its allocator in its type, so an `OffsetPageTable` is two mappers
that agree on what can be asked of the tables.

# The heap's other users

What is allocated between `init_heap` and the bitmap allocator is asked
for by other crates, and so is the memory of the bits; both are
parameters (`Requests`). Loading a program allocates nothing: the process
table has room for its second entry.

# The other parts

The screen, the segments, the ACPI tables and the interrupt controllers
move no frames. What matters of them here is that each may panic
(`Parts`), as `kernel_main` does where the bootloader leaves out what they
need. Physical memory is what they have left when the program is loaded.
The scheduler and its timer run from the middle of `kernel_main` on; with
the boot process alone in the table a tick comes back to it.
-/
import Bayos.Model.Allocator
import Bayos.Model.Framebuffer
import Bayos.Model.Loader

namespace Bayos.Boot

open Rust
open Lib (Word)
open Lib.Paging
open Bayos.Memory
open Bayos.Allocator (LinkedListAllocator heapStart heapSize)
open Bayos.Framebuffer (Slice FrameBufferInfo)
open Bayos.Kernel (Byte Image State PageMapper PhysMemory Stop
  addUserProcess)

variable {PT A α : Type}

/-- `OffsetPageTable`. -/
structure OffsetPageTable (PT : Type) where
  boot : Mapper PT PhysFrame BootInfoFrameAllocator
  later : PageMapper PT
  same_translate : later.translate = boot.translate
  same_tables : later.hasTable = boot.hasTable

-- ================================================================ the heap

/-- The page range of the heap. -/
def heapRange : Except Panic PageRangeInclusive := do
  let heapStart ← VirtAddr.new heapStart
  let heapEnd ← heapStart.add heapSize
  let heapEnd ← heapEnd.sub 1
  pure ⟨.containingAddress heapStart, .containingAddress heapEnd⟩

/-- What the loop of `init_heap` leaves: the result, the page table and
the frame allocator. -/
abbrev Mapped (PT A : Type) : Type :=
  Except (MapToError PhysFrame) Unit × PT × A

/-- The loop of `init_heap`. -/
def mapHeap (M : Mapper PT PhysFrame A)
    (allocateFrame : A → Except Panic (Option PhysFrame × A)) :
    List (Except Panic Page) → PT → A → Except Panic (Mapped PT A)
  | [], table, frames => pure (.ok (), table, frames)
  | page :: rest, table, frames => do
      let page ← page
      let (frame, frames) ← allocateFrame frames
      match frame with
      | none => pure (.error .frameAllocationFailed, table, frames)
      | some frame =>
          let flags := present ||| writable
          let (mapped, table, frames) ← M.mapTo table page frame flags frames
          match mapped with
          | .ok () => mapHeap M allocateFrame rest table frames
          | .error e => pure (.error e, table, frames)

/-- `init_heap`; `ALLOCATOR` is the last component. -/
def initHeap (M : Mapper PT PhysFrame A)
    (allocateFrame : A → Except Panic (Option PhysFrame × A))
    (table : PT) (frames : A) (allocator : LinkedListAllocator) :
    Except Panic (Except (MapToError PhysFrame) Unit
      × PT × A × LinkedListAllocator) := do
  let pageRange ← heapRange
  let (mapped, table, frames) ← mapHeap M allocateFrame pageRange.iter
    table frames
  match mapped with
  | .ok () =>
      let allocator ← Allocator.init allocator heapStart heapSize
      pure (.ok (), table, frames, allocator)
  | .error e => pure (.error e, table, frames, allocator)

-- ============================================================= kernel_main

/-- `Result::expect`. -/
def expectOk {E : Type} (r : Except E Unit) (text : String) :
    Except Panic Unit :=
  match r with
  | .ok () => .ok ()
  | .error _ => .error (.message text)

/-- What code outside the repository asks of the heap: what is asked
between `init_heap` and the bitmap allocator, the buffer of a `BitVec` of
so many bits, and the `Arc` around the bitmap allocator. -/
structure Requests where
  earlier : LinkedListAllocator → Except Panic LinkedListAllocator
  buffer : Nat → Layout
  arc : Layout

/-- An allocation by the `alloc` crate, which gives up on a null
pointer. -/
def request (allocator : LinkedListAllocator) (layout : Layout) :
    Except Panic LinkedListAllocator := do
  let (ptr, allocator) ← Allocator.alloc allocator layout
  let _ ← expect ptr
    ("memory allocation of " ++ toString layout.size ++ " bytes failed")
  pure allocator

/-- `BitmapAllocator::init`, with the memory of its bits, in an `Arc`. -/
def bitmapInArc (requests : Requests) (old : BootInfoFrameAllocator)
    (allocator : LinkedListAllocator) :
    Except Panic (BitmapAllocator × LinkedListAllocator) := do
  let bitmapLen ← old.frames
  let allocator ← request allocator (requests.buffer bitmapLen)
  let bitmap ← BitmapAllocator.init old
  let allocator ← request allocator requests.arc
  pure (bitmap, allocator)

/-- `kernel_main` up to the bitmap allocator, from the page table and the
memory map of the bootloader on. -/
def setUpMemory (O : OffsetPageTable PT) (requests : Requests)
    (memoryRegions : MemoryRegions) (table : PT) :
    Except Panic (PT × LinkedListAllocator × BitmapAllocator) := do
  let frameAllocator := BootInfoFrameAllocator.init memoryRegions
  let (mapped, table, frameAllocator, allocator) ← initHeap O.boot
    BootInfoFrameAllocator.allocateFrame table frameAllocator .new
  expectOk mapped "heap initialization failed"
  let allocator ← requests.earlier allocator
  let (frameAllocator, allocator) ←
    bitmapInArc requests frameAllocator allocator
  pure (table, allocator, frameAllocator)

/-- The kernel when everything but the first program is set up. -/
def booted (table : PT) (frames : BitmapAllocator) (phys : PhysMemory PT) :
    State PT where
  sched := Sched.init
  table := table
  frames := frames
  mapperHeld := false
  framesHeld := false
  toPhysMemory := phys

/-- `BootInfo`, the memory map apart. -/
structure BootInfo where
  framebuffer : Option (Slice × FrameBufferInfo)
  physicalMemoryOffset : Option Nat
  rsdpAddr : Option Nat
  ramdiskAddr : Option Image

/-- The parts of `kernel_main` that are left out: what is done to the
screen, by the lines logged later too, and to the segments and the
interrupt table; how `memory::init` gets from the offset to the page table
in use; and what is done with the ACPI tables, `init_apic` included.
(`syscall::init` comes later; with the selectors that `gdt::init` made it
does not panic.) -/
structure Parts where
  start : Slice × FrameBufferInfo → Except Panic Unit
  activeLevel4Table : VirtAddr → Except Panic Unit
  platform : Nat → Except Panic Unit

/-- What is done between `init_heap` and the bitmap allocator, with what
it asks of the heap. -/
def withPlatform (parts : Parts) (rsdpAddr : Option Nat)
    (requests : Requests) : Requests :=
  { requests with
    earlier := fun allocator => do
      let rsdp ← expect rsdpAddr "bootloader found no rsdp address"
      parts.platform rsdp
      requests.earlier allocator }

/-- A panic, as the end of a call. -/
def orPanic (x : Except Panic α) : Except Stop α :=
  match x with
  | .ok a => .ok a
  | .error p => .error (.panics p)

/-- `kernel_main` up to its idle loop. -/
def kernelMain (O : OffsetPageTable PT) (debug : Bool) (parts : Parts)
    (requests : Requests) (bootInfo : BootInfo)
    (memoryRegions : MemoryRegions) (mapper : Sched.MapperId)
    (rflags : Word) (phys : PhysMemory PT) (table : PT) :
    Except Stop (State PT × LinkedListAllocator) := do
  let fb ← orPanic (expect bootInfo.framebuffer Kernel.unwrapNone)
  orPanic (parts.start fb)
  let offset ← orPanic (expect bootInfo.physicalMemoryOffset
    "physical memory was not mapped")
  let offset ← orPanic (VirtAddr.new offset)
  orPanic (parts.activeLevel4Table offset)
  let (table, allocator, frames) ← orPanic (setUpMemory O
    (withPlatform parts bootInfo.rsdpAddr requests) memoryRegions table)
  match bootInfo.ramdiskAddr with
  | none => pure (booted table frames phys, allocator)
  | some addr =>
      let (loaded, kernel) ← addUserProcess O.later debug addr mapper rflags
        (booted table frames phys)
      orPanic (expectOk loaded "Could not load init process")
      pure (kernel, allocator)

end Bayos.Boot
