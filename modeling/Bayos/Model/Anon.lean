/-
`anon_allocate_syscall` of `kernel/src/syscall.rs`: fresh pages at the
end of the pages a process has been given.

# Profiles

With debug assertions Rust checks a raw pointer before it writes through
it; `debug` says whether the kernel is built so. The arithmetic on
addresses panics in either profile, since the `x86_64` crate checks it.
-/
import Bayos.Model.Kernel

namespace Bayos.Kernel

open Rust
open Lib (Word)
open Lib.Paging

variable {PT : Type}

/-- `Result::unwrap` on what `map_to` returns. -/
def unwrapMapped {E : Type} : Except E Unit → Except Panic Unit
  | .ok () => .ok ()
  | .error _ =>
      .error (.message "called `Result::unwrap()` on an `Err` value")

/-- A `for` loop over an iterator of pages. -/
def forPages (body : Page → KernelM PT Unit) :
    List (Except Panic Page) → KernelM PT Unit
  | [] => pure ()
  | page :: rest => do
      let page ← lift page
      body page
      forPages body rest

/-- The page range of a request of `size` bytes at `start`. -/
def anonRange (start size : Nat) : Except Panic PageRangeInclusive := do
  let rangeStart ← VirtAddr.new start
  let rangeEnd ← rangeStart.add size
  let rangeEnd ← rangeEnd.sub 1
  pure ⟨.containingAddress rangeStart, .containingAddress rangeEnd⟩

/-- One round of the loop: a fresh frame for a page. -/
def anonPage (M : PageMapper PT) (page : Page) : KernelM PT Unit := do
  let frame ← allocateFrame
  let frame ← lift (expect frame unwrapNone)
  let mapped ← mapTo M page frame userFlags
  lift (unwrapMapped mapped)

/-- What a build with debug assertions checks of a pointer to a `u64`. -/
def checkPointer (debug : Bool) (ptr : Word) : Except Panic Unit :=
  if debug then
    if ptr.toNat % 8 ≠ 0 then
      .error (.message ("misaligned pointer dereference: address must be "
        ++ "a multiple of 0x8 but is 0x"
        ++ String.ofList (Nat.toDigits 16 ptr.toNat)))
    else if ptr = 0 then
      .error (.message "null pointer dereference occurred")
    else .ok ()
  else .ok ()

/-- `anon_allocate_syscall` up to its store: the current process, where
its pages end, and the range that has been mapped there. -/
def anonReserve (M : PageMapper PT) (size : Word) :
    KernelM PT (Nat × Sched.U64 × PageRangeInclusive) := do
  let cur ← currentProcess
  let proc ← processAt cur
  let pages ← lift (expect proc.pages unwrapNone)
  let pageRange ← lift (anonRange pages.toNat size.toNat)
  let _ ← lift (expect proc.mapper unwrapNone)
  withMapper (withFrames (forPages (anonPage M) pageRange.iter))
  pure (cur, pages, pageRange)

/-- `anon_allocate_syscall`. -/
def anonAllocateSyscall (M : PageMapper PT) (debug : Bool)
    (size ptr : Word) : KernelM PT Unit :=
  withProcessList (withCurrentRead do
    let (cur, pages, pageRange) ← anonReserve M size
    lift (checkPointer debug ptr)
    storeValue M ptr pages
    let rangeSize ← lift pageRange.size
    let stop ← lift (Usize.add pages.toNat rangeSize)
    setPages cur (BitVec.ofNat 64 stop))

/-- The kernel with the locks held that a call holds all through. -/
def State.called (k : State PT) : State PT :=
  { k with sched := { k.sched with
      listHeld := true, currentHeld := .readers 1 } }

/-- When a call comes to its store, its pointer leads to nothing of the
kernel's. -/
def Harmless (M : PageMapper PT) (size ptr : Word) (k : State PT) : Prop :=
  ∀ r k₁, anonReserve M size k.called = .ok (r, k₁) →
    k₁.SparesAll M (Lib.region ptr 8)

end Bayos.Kernel
