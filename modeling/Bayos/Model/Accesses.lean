/-
What a system call does through its pointer: `syscall_handler` once more,
as a computation that logs each load and store there, with the page table
it goes through, and each text that is printed. An access that faults is
logged too.

The functions are those of `Model/Handler.lean` and `Model/Anon.lean`,
under the same names and step for step; what does not look at the pointer
is taken from there as it is (`silent`). The one difference is how much
`from_utf8` reads.

# How much is read

`from_utf8` reads a slice from its start, and in full when it is a text.
When it is none it may stop where that is known; how far it has read by
then depends on how it was compiled, so that is a parameter (`gaveUp`).
-/
import Bayos.Lib.Logged
import Bayos.Model.Handler

namespace Bayos.Kernel

open Rust
open Lib (Logged Word)
open Lib.Paging

variable {PT α : Type}

/-- What is done through a pointer, with the page table as it is then: a
byte is loaded, or `n` bytes are stored at once. And a text is printed. -/
inductive Access (PT : Type)
  | load (table : PT) (a : Word)
  | store (table : PT) (a : Word) (n : Nat)
  | print (text : String)

/-- A call that uses a pointer. -/
abbrev Accessing (PT α : Type) : Type :=
  Logged (State PT) (Access PT) Stop α

namespace Accessing

/-- A call that does not use it. -/
def silent (x : KernelM PT α) : Accessing PT α := Logged.silent x

/-- The call without its log. -/
def plain (x : Accessing PT α) : KernelM PT α := x.run

-- ============================================================== the memory

/-- A load of one byte. -/
def loadByte (M : PageMapper PT) (a : Word) : Accessing PT Byte :=
  .noting (fun k => .load k.table a) (Kernel.loadByte M a)

/-- A store of one byte. -/
def storeByte (M : PageMapper PT) (a : Word) (b : Byte) :
    Accessing PT Unit :=
  .noting (fun k => .store k.table a 1) (Kernel.storeByte M a b)

/-- A store of a value. -/
def storeValue (M : PageMapper PT) (a : Word) {w : Nat} (v : BitVec w) :
    Accessing PT Unit :=
  .noting (fun k => .store k.table a (Lib.bytesOf w))
    (Kernel.storeValue M a v)

/-- What is read of the `n` bytes from `a` on, behind the bytes `before`;
nothing comes of it when they are given up. -/
def loadBytes (M : PageMapper PT) (gaveUp : List Byte → Bool) (a : Word)
    (before : List Byte) : Nat → Accessing PT (Option (List Byte))
  | 0 => pure (some before)
  | n + 1 =>
      if gaveUp before then pure none
      else do
        let b ← loadByte M a
        loadBytes M gaveUp (a + 1) (before ++ [b]) n

-- =============================================================== the calls

/-- The loop of `Pipe::read`. -/
def pipeRead (M : PageMapper PT) (a : Word) :
    Nat → List Byte → Accessing PT (List Byte)
  | 0, input => pure input
  | _ + 1, [] => silent wait
  | n + 1, c :: input => do
      storeByte M a c
      pipeRead M (a + 1) n input

/-- `read_syscall`. -/
def readSyscall (M : PageMapper PT) (debug : Bool) (console : Console)
    (fd buf count : Word) : Accessing PT Console :=
  if fd = 0 then do
    silent (lift (checkSlice debug "slice::from_raw_parts_mut" buf
      count.toNat))
    let input ← pipeRead M buf count.toNat console.input
    pure { console with input }
  else pure console

/-- What is a text is printed. -/
def printText (console : Console) : Option String → Accessing PT Console
  | some text =>
      .event (.print text) (pure (console.print text) : KernelM PT Console)
  | none => pure console

/-- `write_syscall`. -/
def writeSyscall (M : PageMapper PT) (gaveUp : List Byte → Bool)
    (debug : Bool) (console : Console) (fd buf count : Word) :
    Accessing PT Console :=
  if fd = 1 then do
    silent (lift (checkSlice debug "slice::from_raw_parts" buf count.toNat))
    silent (lockLogger console)
    let bytes ← loadBytes M gaveUp buf [] count.toNat
    printText console (bytes.bind fromUtf8)
  else pure console

/-- The scope of a guard on `PROCESS_LIST`. -/
def withProcessList (body : Accessing PT α) : Accessing PT α := fun k =>
  (if k.sched.listHeld then []
    else body.log { k with sched := { k.sched with listHeld := true } },
    Kernel.withProcessList body.plain k)

/-- The scope of the first read guard on `CURRENT_PROCESS`. -/
def withCurrentRead (body : Accessing PT α) : Accessing PT α := fun k =>
  (match k.sched.currentHeld with
    | .free =>
        body.log { k with
          sched := { k.sched with currentHeld := .readers 1 } }
    | _ => [],
    Kernel.withCurrentRead body.plain k)

/-- `anon_allocate_syscall`. -/
def anonAllocateSyscall (M : PageMapper PT) (debug : Bool)
    (size ptr : Word) : Accessing PT Unit :=
  withProcessList (withCurrentRead do
    let (cur, pages, pageRange) ← silent (anonReserve M size)
    silent (lift (checkPointer debug ptr))
    storeValue M ptr pages
    silent do
      let rangeSize ← lift pageRange.size
      let stop ← lift (Usize.add pages.toNat rangeSize)
      setPages cur (BitVec.ofNat 64 stop))

/-- `syscall_handler`. -/
def syscallHandler (M : PageMapper PT) (gaveUp : List Byte → Bool)
    (debug : Bool) (console : Console) (index arg0 arg1 arg2 : Word) :
    Accessing PT Console :=
  match index.toNat with
  | 0 => readSyscall M debug console arg0 arg1 arg2
  | 1 => writeSyscall M gaveUp debug console arg0 arg1 arg2
  | 2 => do
      anonAllocateSyscall M debug arg0 arg1
      pure console
  | n => do
      silent (lockLogger console)
      printText console (some (unknownSyscall n))

end Accessing

end Bayos.Kernel
