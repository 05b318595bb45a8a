/-
The kernel heap: `kernel/src/allocator.rs`, the linked-list allocator
behind `#[global_allocator]`.

# The free list

A `ListNode` lives at the start of the region it describes, so its
address is the region's start; the model carries that address as a
field. `next: Option<&'static mut ListNode>` owns the rest of the chain
exclusively, so the chain hanging off `head` is the list of its nodes,
and `take`, relinking a successor and inserting behind `head` are the
list operations they denote. `head` itself is never a region (its size
is zero and no function reads it), so the allocator is the chain behind
it.

The bodies of `alloc` and `dealloc` run inside `without_interrupts`
under the allocator's spin lock; here they are functions on the
allocator that lock guards. A null pointer is `none`.
-/
import Bayos.Lib.Rust
import Bayos.Lib.Span

namespace Bayos.Allocator

open Rust

/-- `HEAP_SIZE`: 2 MiB. -/
def heapSize : Nat := 2 * 1024 * 1024

/-- `HEAP_START`: the heap ends where the kernel image begins. -/
def heapStart : Nat := 0xffffffff80000000 - heapSize

/-- `align_up`. -/
def alignUp (addr align : Nat) : Except Panic Nat := do
  let sum ← Usize.add addr align
  let top ← Usize.sub sum 1
  let low ← Usize.sub align 1
  pure (top &&& Usize.not low)

/-- A node of the free list, with the address it is stored at. -/
structure ListNode where
  addr : Nat
  size : Nat
  deriving DecidableEq, Repr

/-- `mem::size_of::<ListNode>()`: a `usize` and an optional reference. -/
def nodeSize : Nat := 16

/-- `mem::align_of::<ListNode>()`. -/
def nodeAlign : Nat := 8

namespace ListNode

/-- `start_addr`. -/
def startAddr (n : ListNode) : Nat := n.addr

/-- `end_addr`. -/
def endAddr (n : ListNode) : Except Panic Nat :=
  Usize.add n.startAddr n.size

end ListNode

/-- `LinkedListAllocator`: the chain behind `head`, first node first. -/
structure LinkedListAllocator where
  chain : List ListNode
  deriving DecidableEq, Repr

/-- `LinkedListAllocator::new`. -/
def LinkedListAllocator.new : LinkedListAllocator := ⟨[]⟩

/-- `add_free_region`. -/
def addFreeRegion (self : LinkedListAllocator) (addr size : Nat) :
    Except Panic LinkedListAllocator := do
  let up ← alignUp addr nodeAlign
  assert (up == addr)
  assert (nodeSize ≤ size)
  pure ⟨⟨addr, size⟩ :: self.chain⟩

/-- `init`. -/
def init (self : LinkedListAllocator) (heapStart heapSize : Nat) :
    Except Panic LinkedListAllocator :=
  addFreeRegion self heapStart heapSize

/-- `alloc_from_region`. -/
def allocFromRegion (region : ListNode) (size align : Nat) :
    Except Panic (Option Nat) := do
  let allocStart ← alignUp region.startAddr align
  match Usize.checkedAdd allocStart size with
  | none => pure none
  | some allocEnd =>
      let stop ← region.endAddr
      if stop < allocEnd then pure none
      else
        let excessSize ← Usize.sub stop allocEnd
        if 0 < excessSize ∧ excessSize < nodeSize then pure none
        else pure (some allocStart)

/-- `find_region`: the loop walks the chain; a hit unlinks that node and
relinks its successor, a miss steps past it. Returns the node and the
allocation's start, and the chain left behind. -/
def findRegion : List ListNode → Nat → Nat →
    Except Panic (Option (ListNode × Nat) × List ListNode)
  | [], _, _ => pure (none, [])
  | region :: next, size, align => do
      match ← allocFromRegion region size align with
      | some allocStart => pure (some (region, allocStart), next)
      | none =>
          let (ret, next') ← findRegion next size align
          pure (ret, region :: next')

/-- `size_align`. -/
def sizeAlign (layout : Layout) : Except Panic (Nat × Nat) := do
  let aligned ← expect (layout.alignTo nodeAlign) "adjusting alignment failed"
  let layout := aligned.padToAlign
  pure (max layout.size nodeSize, layout.align)

/-- `GlobalAlloc::alloc`. -/
def alloc (self : LinkedListAllocator) (layout : Layout) :
    Except Panic (Option Nat × LinkedListAllocator) := do
  let (size, align) ← sizeAlign layout
  let (found, chain) ← findRegion self.chain size align
  match found with
  | some (region, allocStart) =>
      let allocEnd ← expect (Usize.checkedAdd allocStart size) "overflow"
      let stop ← region.endAddr
      let excessSize ← Usize.sub stop allocEnd
      if 0 < excessSize then
        let self ← addFreeRegion ⟨chain⟩ allocEnd excessSize
        pure (some allocStart, self)
      else pure (some allocStart, ⟨chain⟩)
  | none => pure (none, ⟨chain⟩)

/-- `GlobalAlloc::dealloc`. -/
def dealloc (self : LinkedListAllocator) (ptr : Nat) (layout : Layout) :
    Except Panic LinkedListAllocator := do
  let (size, _) ← sizeAlign layout
  addFreeRegion self ptr size

end Bayos.Allocator
