/-
The kernel's state as far as user memory depends on it, and the steps its
functions are written in: the process table of `kernel/src/sched.rs`, the
one page table behind every `mapper`, the frame allocator of
`kernel/src/memory.rs`, and physical memory.

# Memory

Every access goes through the page table, byte by byte, at the privilege
of the kernel: a store needs a page that is present and writable, and
`USER_ACCESSIBLE` is not looked at. An access that fails raises an
exception, whose handler panics.

# The kernel's own data

The process table, the page tables, the bits of the frame allocator and
its locks are in the same memory. They are values here (`Data`), and
`own` says for each byte of memory what a store there makes of them: a
pointer that nobody checks may lead there, and what `phys` has there is
left open. So it may lead to the stack of the code that runs, to the code,
to the nodes of the heap, or to entries of the page tables that the
processor has kept a copy of; what happens then is left open (`astray`).

# Locks

The mapper and the frame allocator are behind spin locks that a loader
may hold while it is preempted; whoever finds them taken with interrupts
off waits for ever (`waits`).
-/
import Bayos.Lib.Bytes
import Bayos.Lib.Paging
import Bayos.Model.Memory
import Bayos.Model.Sched

namespace Bayos.Kernel

open Rust
open Lib (Word Mem)
open Lib.Paging
open Bayos.Memory (PhysFrame BitmapAllocator)

/-- `u8`. -/
abbrev Byte := BitVec 8

/-- `OffsetPageTable`, with the bitmap allocator for its tables. -/
abbrev PageMapper (PT : Type) := Mapper PT PhysFrame BitmapAllocator

/-- What the kernel keeps of processes and their memory, over page tables
`PT`. -/
structure Data (PT : Type) where
  sched : Sched.Table
  table : PT
  frames : BitmapAllocator
  mapperHeld : Bool
  framesHeld : Bool

/-- Physical memory, and what a store of a byte at an address makes of the
kernel's data: `none` where it is no longer known what runs or what the
processor has for a page table, as on the stack of the running code. -/
structure PhysMemory (PT : Type) where
  phys : Nat → Byte
  own : Nat → Byte → Data PT → Option (Data PT)

/-- The kernel. -/
structure State (PT : Type) extends Data PT, PhysMemory PT

/-- Why a call does not return. -/
inductive Stop
  | panics (p : Panic)
  | waits
  | astray
  deriving DecidableEq

/-- A call on the kernel's state. -/
def KernelM (PT α : Type) : Type :=
  State PT → Except Stop (α × State PT)

variable {PT α β : Type}

instance : Monad (KernelM PT) where
  pure a := fun k => .ok (a, k)
  bind x f := fun k =>
    match x k with
    | .ok (a, k') => f a k'
    | .error e => .error e

/-- A computation that may panic. -/
def lift (x : Except Panic α) : KernelM PT α := fun k =>
  match x with
  | .ok a => .ok (a, k)
  | .error p => .error (.panics p)

/-- The message of `Option::unwrap`. -/
def unwrapNone : String := "called `Option::unwrap()` on a `None` value"

-- =============================================================== the locks

/-- The scope of a guard on `PROCESS_LIST`. -/
def withProcessList (body : KernelM PT α) : KernelM PT α := fun k =>
  if k.sched.listHeld then .error .waits
  else
    match body { k with sched := { k.sched with listHeld := true } } with
    | .ok (a, k') =>
        .ok (a, { k' with sched := { k'.sched with listHeld := false } })
    | .error e => .error e

/-- The scope of the first read guard on `CURRENT_PROCESS`. -/
def withCurrentRead (body : KernelM PT α) : KernelM PT α := fun k =>
  match k.sched.currentHeld with
  | .free =>
      match body { k with
          sched := { k.sched with currentHeld := .readers 1 } } with
      | .ok (a, k') =>
          .ok (a, { k' with sched := { k'.sched with currentHeld := .free } })
      | .error e => .error e
  | _ => .error .waits

/-- The scope of a guard on the mapper. -/
def withMapper (body : KernelM PT α) : KernelM PT α := fun k =>
  if k.mapperHeld then .error .waits
  else
    match body { k with mapperHeld := true } with
    | .ok (a, k') => .ok (a, { k' with mapperHeld := false })
    | .error e => .error e

/-- The scope of a guard on the frame allocator. -/
def withFrames (body : KernelM PT α) : KernelM PT α := fun k =>
  if k.framesHeld then .error .waits
  else
    match body { k with framesHeld := true } with
    | .ok (a, k') => .ok (a, { k' with framesHeld := false })
    | .error e => .error e

-- =============================================================== the parts

/-- `*cur_proc`. -/
def currentProcess : KernelM PT Nat := fun k =>
  .ok (k.sched.currentProcess, k)

/-- `proc_list[i]`. -/
def processAt (i : Nat) : KernelM PT Sched.Process := fun k =>
  match k.sched.processList[i]? with
  | some p => .ok (p, k)
  | none => .error (.panics .index)

/-- `proc_list[i].pages = Some(pages)`. -/
def setPages (i : Nat) (pages : Sched.U64) : KernelM PT Unit := fun k =>
  if i < k.sched.processList.length then
    .ok ((), { k with sched := { k.sched with
      processList := k.sched.processList.modify i
        fun p => { p with pages := some pages } } })
  else .error (.panics .index)

/-- `proc_list.push(p)`. -/
def pushProcess (p : Sched.Process) : KernelM PT Unit := fun k =>
  .ok ((), { k with sched := { k.sched with
    processList := k.sched.processList ++ [p] } })

/-- `frame_allocator.allocate_frame()`. -/
def allocateFrame : KernelM PT (Option PhysFrame) := fun k =>
  match k.frames.allocateFrame with
  | .ok (f, frames) => .ok (f, { k with frames })
  | .error p => .error (.panics p)

/-- `mapper.map_to(page, frame, flags, frame_allocator)`. -/
def mapTo (M : PageMapper PT) (page : Page) (frame : PhysFrame)
    (flags : Flags) : KernelM PT (Except (MapToError PhysFrame) Unit) :=
  fun k =>
    match M.mapTo k.table page frame flags k.frames with
    | .ok (r, table, frames) => .ok (r, { k with table, frames })
    | .error p => .error (.panics p)

-- ============================================================= user memory

/-- What the page of an address is mapped to; `none` where the address
is not canonical or its page is not mapped. -/
def mappingAt (M : PageMapper PT) (table : PT) (a : Word) :
    Option (Mapping PhysFrame) :=
  match VirtAddr.tryNew a.toNat with
  | some v => M.translate table (Page.containingAddress v)
  | none => none

/-- Where a byte is in physical memory. -/
def physAddr (m : Mapping PhysFrame) (a : Word) : Nat :=
  m.frame.startAddress + a.toNat % 4096

/-- The panics of `page_fault_handler` and
`general_protection_fault_handler`. -/
def fault (a : Word) : Stop :=
  if IsCanonical a.toNat then .panics (.message "EXCEPTION: PAGE FAULT")
  else .panics (.message "EXCEPTION: GENERAL PROTECTION FAULT")

/-- A store of one byte by the kernel. -/
def storeByte (M : PageMapper PT) (a : Word) (b : Byte) : KernelM PT Unit :=
  fun k =>
    match mappingAt M k.table a with
    | some m =>
        if m.flags.contains (present ||| writable) then
          match k.own (physAddr m a) b k.toData with
          | some data =>
              .ok ((), { k with
                toData := data
                phys := Function.update k.phys (physAddr m a) b })
          | none => .error .astray
        else .error (fault a)
    | none => .error (fault a)

/-- A store of bytes from `a` on. -/
def storeBytes (M : PageMapper PT) (a : Word) : List Byte → KernelM PT Unit
  | [] => pure ()
  | b :: bs => do
      storeByte M a b
      storeBytes M (a + 1) bs

/-- The bytes of a value of `w` bits, least significant first. -/
def bytesOfValue {w : Nat} (v : BitVec w) : List Byte :=
  (List.range (Lib.bytesOf w)).map fun k => v.extractLsb' (8 * k) 8

/-- The check of the `n` bytes from `a` on, in order. -/
def checkBytes (M : PageMapper PT) (a : Word) : Nat → KernelM PT Unit
  | 0 => pure ()
  | n + 1 => fun k =>
      match mappingAt M k.table a with
      | some m =>
          if m.flags.contains (present ||| writable) then
            checkBytes M (a + 1) n k
          else .error (fault a)
      | none => .error (fault a)

/-- A store of a value; if it faults, then before it stores anything. -/
def storeValue (M : PageMapper PT) (a : Word) {w : Nat} (v : BitVec w) :
    KernelM PT Unit := do
  checkBytes M a (Lib.bytesOf w)
  storeBytes M a (bytesOfValue v)

/-- A store of one byte to a page that has just been mapped to a frame
that was free, where nothing of the kernel's is. -/
def fillByte (M : PageMapper PT) (a : Word) (b : Byte) : KernelM PT Unit :=
  fun k =>
    match mappingAt M k.table a with
    | some m =>
        if m.flags.contains (present ||| writable) then
          .ok ((), { k with phys := Function.update k.phys (physAddr m a) b })
        else .error (fault a)
    | none => .error (fault a)

/-- Such a store of bytes from `a` on. -/
def fillBytes (M : PageMapper PT) (a : Word) : List Byte → KernelM PT Unit
  | [] => pure ()
  | b :: bs => do
      fillByte M a b
      fillBytes M (a + 1) bs

/-- Such a store of a value. -/
def fillValue (M : PageMapper PT) (a : Word) {w : Nat} (v : BitVec w) :
    KernelM PT Unit := fillBytes M a (bytesOfValue v)

/-- Memory as the kernel sees it through the page table; an address that
is not mapped reads as zero. -/
def view (M : PageMapper PT) (k : State PT) : Mem := fun a =>
  match mappingAt M k.table a with
  | some m => k.phys (physAddr m a)
  | none => 0

/-- The flags of every page user processes are given. -/
def userFlags : Flags := present ||| writable ||| userAccessible

-- ======================================================= the kernel's data

/-- A byte that holds nothing of the kernel's data as it is. -/
def State.Spares (k : State PT) (y : Nat) : Prop :=
  ∀ b, k.own y b k.toData = some k.toData

/-- No byte behind the addresses `A` does. -/
def State.SparesAll (M : PageMapper PT) (k : State PT) (A : Set Word) :
    Prop :=
  ∀ a ∈ A, ∀ m, mappingAt M k.table a = some m → k.Spares (physAddr m a)

/-- A byte in a page of a process. -/
def OfProcess (M : PageMapper PT) (table : PT) (y : Nat) : Prop :=
  ∃ p m, M.translate table p = some m
    ∧ m.flags.contains userAccessible = true
    ∧ m.frame.startAddress ≤ y ∧ y < m.frame.startAddress + 4096

end Bayos.Kernel
