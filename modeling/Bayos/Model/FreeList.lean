/-
The free list as it lies in memory: `kernel/src/allocator.rs` once more,
with the nodes at their addresses and `next` as a link.

In `Model/Allocator.lean` the chain behind `head` is a list and `take`
and the relinking are the list operations they denote. Here they are the
writes the code makes: a node's `next` is taken out by leaving `None` in
its place, and a region is unlinked by three such writes. A
`&'static mut ListNode` is the address of a node; `current`, which may
also refer to `head`, is a place.

The search walks a chain that nothing in its type bounds, so its loop has
a number of rounds to spend, and none is left where it returns `none`.
-/
import Bayos.Lib.Linked
import Bayos.Model.Allocator

namespace Bayos.FreeList

open Rust
open Lib.Linked
open Bayos.Allocator (alignUp nodeAlign nodeSize ListNode allocFromRegion
  sizeAlign)

/-- `LinkedListAllocator`: `head`, whose size is zero, and the memory the
other nodes lie in. A node's value is its `size`. -/
abbrev LinkedListAllocator : Type := Memory Nat

/-- The node a reference refers to. -/
def nodeAt (self : LinkedListAllocator) (addr : Nat) : ListNode :=
  ⟨addr, (self.get (.cell addr)).val⟩

/-- `add_free_region`. -/
def addFreeRegion (self : LinkedListAllocator) (addr size : Nat) :
    Except Panic LinkedListAllocator := do
  let up ← alignUp addr nodeAlign
  assert (up == addr)
  assert (nodeSize ≤ size)
  let (next, self) := self.take .head
  let self := self.set (.cell addr) ⟨size, next⟩
  pure (self.setNext .head (some addr))

/-- The loop of `find_region` from `current` on: the node found and the
allocation's start, and the memory left behind. -/
def findRegionFrom (size align : Nat) :
    Nat → LinkedListAllocator → Place →
      Except Panic (Option (Option (Nat × Nat) × LinkedListAllocator))
  | 0, _, _ => pure none
  | rounds + 1, self, current =>
      match (self.get current).next with
      | none => pure (some (none, self))
      | some region => do
          match ← allocFromRegion (nodeAt self region) size align with
          | some allocStart =>
              let (next, self) := self.take (.cell region)
              let (taken, self) := self.take current
              let node ← unwrap taken
              let self := self.setNext current next
              pure (some (some (node, allocStart), self))
          | none =>
              let region ← unwrap (self.get current).next
              findRegionFrom size align rounds self (.cell region)

/-- `find_region`. -/
def findRegion (rounds : Nat) (self : LinkedListAllocator)
    (size align : Nat) :
    Except Panic (Option (Option (Nat × Nat) × LinkedListAllocator)) :=
  findRegionFrom size align rounds self .head

/-- `GlobalAlloc::alloc`. -/
def alloc (rounds : Nat) (self : LinkedListAllocator) (layout : Layout) :
    Except Panic (Option (Option Nat × LinkedListAllocator)) := do
  let (size, align) ← sizeAlign layout
  match ← findRegion rounds self size align with
  | none => pure none
  | some (none, self) => pure (some (none, self))
  | some (some (region, allocStart), self) =>
      let allocEnd ← expect (Usize.checkedAdd allocStart size) "overflow"
      let stop ← (nodeAt self region).endAddr
      let excessSize ← Usize.sub stop allocEnd
      if 0 < excessSize then
        let self ← addFreeRegion self allocEnd excessSize
        pure (some (some allocStart, self))
      else pure (some (some allocStart, self))

/-- `GlobalAlloc::dealloc`. -/
def dealloc (self : LinkedListAllocator) (ptr : Nat) (layout : Layout) :
    Except Panic LinkedListAllocator := do
  let (size, _) ← sizeAlign layout
  addFreeRegion self ptr size

end Bayos.FreeList
