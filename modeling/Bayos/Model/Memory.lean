/-
The physical frame allocators: `kernel/src/memory.rs`. The boot
allocator walks the bootloader's memory map with a counter; after boot
the bitmap allocator takes over its map and its counter.

# The numbering

Both allocators number frames by position in an iterator they each
spell out in full, `usable_frames`: the Usable regions of the map in
order, each stepped through by 4096, each address wrapped into a frame.
The iterator is lazy, and `PhysAddr::new` panics on an address of more
than 52 bits, so an element of it is an `Except Panic PhysFrame` that is
looked at only when a traversal reaches it.

The bit vector is the list of its bits; `set` panics outside it.
-/
import Bayos.Lib.Rust
import Bayos.Lib.Bitmap

namespace Bayos.Memory

open Rust
open Lib.Bitmap (firstZero)

-- ========================================================== the memory map

/-- `MemoryRegionKind`. -/
inductive MemoryRegionKind
  | usable
  | bootloader
  | unknownUefi (tag : Nat)
  | unknownBios (tag : Nat)
  deriving DecidableEq, Repr

/-- `MemoryRegion`: the addresses from `start` up to but not including
`stop` (the source's `end`). -/
structure MemoryRegion where
  start : Nat
  stop : Nat
  kind : MemoryRegionKind
  deriving DecidableEq, Repr

/-- `MemoryRegions`, in the bootloader's order. -/
abbrev MemoryRegions := List MemoryRegion

-- =============================================================== addresses

/-- `PhysAddr`: physical addresses have 52 bits. -/
structure PhysAddr where
  val : Nat
  small : val < 2 ^ 52
  deriving DecidableEq, Repr

/-- `PhysAddr::new`. -/
def PhysAddr.new (addr : Nat) : Except Panic PhysAddr :=
  if h : addr < 2 ^ 52 then .ok ⟨addr, h⟩
  else .error (.message
    "physical addresses must not have any bits in the range 52 to 64 set")

/-- `PhysFrame<Size4KiB>`, by its start address. -/
structure PhysFrame where
  startAddress : Nat
  aligned : startAddress % 4096 = 0
  deriving DecidableEq, Repr

/-- `PhysFrame::containing_address`. -/
def PhysFrame.containingAddress (addr : PhysAddr) : PhysFrame :=
  ⟨addr.val - addr.val % 4096, by omega⟩

/-- The closure chain of `usable_frames`, as both allocators write
it. -/
def usableFramesOf (memoryMap : MemoryRegions) :
    List (Except Panic PhysFrame) :=
  let usableRegions := memoryMap.filter (·.kind = .usable)
  let frameAddresses := usableRegions.flatMap fun r =>
    stepBy r.start r.stop 4096
  frameAddresses.map fun addr => do
    let addr ← PhysAddr.new addr
    pure (PhysFrame.containingAddress addr)

-- ====================================================== the boot allocator

/-- `BootInfoFrameAllocator`. -/
structure BootInfoFrameAllocator where
  memoryMap : MemoryRegions
  next : Nat
  deriving DecidableEq, Repr

namespace BootInfoFrameAllocator

/-- `init`. -/
def init (memoryMap : MemoryRegions) : BootInfoFrameAllocator :=
  ⟨memoryMap, 0⟩

/-- `usable_frames`. -/
def usableFrames (self : BootInfoFrameAllocator) :
    List (Except Panic PhysFrame) := usableFramesOf self.memoryMap

/-- `frames`. -/
def frames (self : BootInfoFrameAllocator) : Except Panic Nat :=
  Iter.count self.usableFrames

/-- `allocate_frame`. -/
def allocateFrame (self : BootInfoFrameAllocator) :
    Except Panic (Option PhysFrame × BootInfoFrameAllocator) := do
  let frame ← Iter.nth self.usableFrames self.next
  let next ← Usize.add self.next 1
  pure (frame, { self with next })

/-- `deallocate_frame`: the boot allocator cannot take frames back. -/
def deallocateFrame (_self : BootInfoFrameAllocator) (_frame : PhysFrame) :
    Except Panic BootInfoFrameAllocator :=
  .error (.message "Cant deallocate frame using this allocator")

end BootInfoFrameAllocator

-- ==================================================== the bitmap allocator

/-- `BitVec::set`. -/
def setBit (bits : List Bool) (index : Nat) (value : Bool) :
    Except Panic (List Bool) :=
  if index < bits.length then .ok (bits.set index value)
  else .error .index

/-- The loop of `init`: sets the bits `i` to `i + n - 1`, upwards. -/
def setBits (bits : List Bool) (i : Nat) : Nat → Except Panic (List Bool)
  | 0 => pure bits
  | n + 1 => do
      let bits ← setBit bits i true
      setBits bits (i + 1) n

/-- `BitmapAllocator`. -/
structure BitmapAllocator where
  memoryMap : MemoryRegions
  bitmap : List Bool
  deriving DecidableEq, Repr

namespace BitmapAllocator

/-- `init`: takes over from the boot allocator. -/
def init (old : BootInfoFrameAllocator) : Except Panic BitmapAllocator := do
  let bitmapLen ← old.frames
  let bitvec := List.replicate bitmapLen false
  let bitvec ← setBits bitvec 0 old.next
  pure ⟨old.memoryMap, bitvec⟩

/-- `usable_frames`. -/
def usableFrames (self : BitmapAllocator) : List (Except Panic PhysFrame) :=
  usableFramesOf self.memoryMap

/-- `allocate_frame`. -/
def allocateFrame (self : BitmapAllocator) :
    Except Panic (Option PhysFrame × BitmapAllocator) :=
  match firstZero self.bitmap with
  | none => pure (none, self)
  | some index => do
      let bitmap ← setBit self.bitmap index true
      let self := { self with bitmap }
      let frame ← Iter.nth self.usableFrames index
      pure (frame, self)

/-- `deallocate_frame`. -/
def deallocateFrame (self : BitmapAllocator) (frame : PhysFrame) :
    Except Panic BitmapAllocator := do
  let found ← Iter.findIdx (· == frame) 0 self.usableFrames
  let index ← expect found "Frame not in memory_map"
  let bitmap ← setBit self.bitmap index false
  pure { self with bitmap }

end BitmapAllocator

end Bayos.Memory
