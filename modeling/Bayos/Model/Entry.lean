/-
A system call on the processor and on the kernel at once: the stub of
`Model/Syscall.lean`, whose stack is the user's, over the page table and
the `syscall_handler` of `Model/Handler.lean`.

# Two memories

The processor's memory is by address, the kernel's is physical. For the
pages of processes they are one memory, seen twice (`Agrees`). The
kernel's own pages are left out: all of physical memory is mapped there
once more, so one byte has several addresses.

# The compiled handler

`Handles` is what is assumed of the code that the stub calls: what the
stub stored has reached memory without a fault, the code does what
`syscall_handler` does, and it returns to the address it finds on its
stack when it is done. The calling convention gives it the stack below
that, `depth` bytes of it, and its stack argument.
-/
import Bayos.Model.Handler
import Bayos.Model.Syscall

namespace Bayos.Entry

open Lib (Word region)
open Lib.Paging
open Lib.X86
open Kernel (State PageMapper Console Byte mappingAt physAddr view
  storeBytes syscallHandler)

variable {PT : Type}

/-- An address in a page that is for processes. -/
def UserAddr (M : PageMapper PT) (table : PT) (x : Word) : Prop :=
  ∃ m, mappingAt M table x = some m ∧ m.flags.contains userAccessible = true

/-- The processor and the kernel have one memory for processes. -/
def Agrees (M : PageMapper PT) (m : Machine) (k : State PT) : Prop :=
  ∀ x, UserAddr M k.table x → m.mem x = view M k x

/-- Memory of two kernels is the same but for the bytes behind the
addresses `A`. -/
def SameBut (M : PageMapper PT) (table : PT) (A : Set Word)
    (phys phys' : Nat → Byte) : Prop :=
  ∀ y, (∀ a ∈ A, ∀ m, mappingAt M table a = some m → physAddr m a ≠ y) →
    phys' y = phys y

/-- What the stub and its call have put on the stack: nine words. -/
def frameBytes (h : Machine) : List Byte :=
  (List.range 72).map fun i => h.mem (h.regs .rsp + BitVec.ofNat 64 i)

/-- The stack that the handler, called as `h`, may use as it likes. -/
def ownStack (depth : Nat) (h : Machine) : Set Word :=
  region (h.regs .rsp - BitVec.ofNat 64 depth) depth
    ∪ region (h.regs .rsp + 8) 8

/-- The compiled `syscall_handler` goes from the machine `h` to `h'`, and
the kernel from `k`, as it was before the stub, to `k'`. -/
structure Handles (M : PageMapper PT) (debug : Bool) (depth : Nat)
    (c : Console) (k : State PT) (h h' : Machine) (c' : Console)
    (k' : State PT) : Prop where
  runs : ∃ k₀ k₁, storeBytes M (h.regs .rsp) (frameBytes h) k = .ok ((), k₀)
    ∧ syscallHandler M debug c (h.regs .rdi) (h.regs .rsi) (h.regs .rdx)
        (h.regs .rcx) k₀ = .ok (c', k₁)
    ∧ k' = { k₁ with phys := k'.phys }
    ∧ SameBut M k.table (ownStack depth h) k₁.phys k'.phys
  saved : ∀ r ∈ calleeSaved, h'.regs r = h.regs r
  rsp : h'.regs .rsp = h.regs .rsp + 8
  rip : h'.rip = h'.mem.read (h.regs .rsp) 64
  mem : Agrees M h' k'

/-- The bytes below the user's stack pointer that a call uses. -/
def stackUsed (depth : Nat) (m : Machine) : Set Word :=
  region (m.regs .rsp - 72 - BitVec.ofNat 64 depth) (depth + 72)

end Bayos.Entry
