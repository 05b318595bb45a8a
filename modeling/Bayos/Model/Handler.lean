/-
`syscall_handler` of `kernel/src/syscall.rs` and the calls it dispatches
to, with `Pipe::read` of `kernel/src/vfs/pipe.rs`.

# Pointers

The arguments of a call are the process's registers as they are, and
nothing looks at a pointer among them before it is used. Built with debug
assertions, making a slice of it checks that it is not null and that the
slice is not too long.

# Slices

A slice is read in full before it is validated. `from_utf8` may stop where
it is known that there is no text, and then returns the same, unless the
rest of the slice cannot be read: what it does there is in
`Model/Accesses.lean`.
-/
import Bayos.Model.Anon

namespace Bayos.Kernel

open Rust
open Lib (Word)
open Lib.Paging

variable {PT α : Type}

/-- What a call finds of the console: the bytes the input pipe yields,
those of keys that are typed while it waits included, the characters
written to the screen so far, and the lock of the logger. -/
structure Console where
  input : List Byte
  screen : List Char
  loggerHeld : Bool

/-- `write!(writer, "{}", text)`. -/
def Console.print (c : Console) (text : String) : Console :=
  { c with screen := c.screen ++ text.toList }

/-- What is a text is printed. -/
def Console.printText (c : Console) : Option String → Console
  | some text => c.print text
  | none => c

-- ================================================================== slices

/-- What a build with debug assertions checks of the arguments of
`from_raw_parts` and `from_raw_parts_mut`, for bytes. -/
def checkSlice (debug : Bool) (name : String) (ptr : Word) (count : Nat) :
    Except Panic Unit :=
  if debug then
    if ptr = 0 ∨ 2 ^ 63 ≤ count then
      .error (.message ("unsafe precondition(s) violated: " ++ name
        ++ " requires the pointer to be aligned and non-null, and the "
        ++ "total size of the slice not to exceed `isize::MAX`"))
    else .ok ()
  else .ok ()

/-- A load of one byte by the kernel. -/
def loadByte (M : PageMapper PT) (a : Word) : KernelM PT Byte := fun k =>
  match mappingAt M k.table a with
  | some m =>
      if m.flags.contains present then .ok (k.phys (physAddr m a), k)
      else .error (fault a)
  | none => .error (fault a)

/-- A load of bytes from `a` on. -/
def loadBytes (M : PageMapper PT) (a : Word) : Nat → KernelM PT (List Byte)
  | 0 => pure []
  | n + 1 => do
      let b ← loadByte M a
      let bs ← loadBytes M (a + 1) n
      pure (b :: bs)

-- =================================================================== calls

/-- A loop that finds its lock taken, or its queue empty, for ever. -/
def wait : KernelM PT α := fun _ => .error .waits

/-- The loop of `Pipe::read`; returns what is left in the pipe. -/
def pipeRead (M : PageMapper PT) (a : Word) :
    Nat → List Byte → KernelM PT (List Byte)
  | 0, input => pure input
  | _ + 1, [] => wait
  | n + 1, c :: input => do
      storeByte M a c
      pipeRead M (a + 1) n input

/-- `read_syscall`. -/
def readSyscall (M : PageMapper PT) (debug : Bool) (console : Console)
    (fd buf count : Word) : KernelM PT Console :=
  if fd = 0 then do
    lift (checkSlice debug "slice::from_raw_parts_mut" buf count.toNat)
    let input ← pipeRead M buf count.toNat console.input
    pure { console with input }
  else pure console

/-- The lock of the logger; whoever has it keeps it while this call
waits. -/
def lockLogger (console : Console) : KernelM PT Unit :=
  if console.loggerHeld then wait else pure ()

/-- `from_utf8`. -/
def fromUtf8 (bytes : List Byte) : Option String :=
  String.fromUTF8? ⟨(bytes.map UInt8.ofBitVec).toArray⟩

/-- `write_syscall`. -/
def writeSyscall (M : PageMapper PT) (debug : Bool) (console : Console)
    (fd buf count : Word) : KernelM PT Console :=
  if fd = 1 then do
    lift (checkSlice debug "slice::from_raw_parts" buf count.toNat)
    lockLogger console
    let bytes ← loadBytes M buf count.toNat
    pure (console.printText (fromUtf8 bytes))
  else pure console

/-- The line that is logged for a number that is no system call. -/
def unknownSyscall (index : Nat) : String :=
  "INFO : unknown syscall " ++ String.ofList (Nat.toDigits 16 index) ++ "\n"

/-- `syscall_handler`, which does not look at its last three arguments. -/
def syscallHandler (M : PageMapper PT) (debug : Bool) (console : Console)
    (index arg0 arg1 arg2 : Word) : KernelM PT Console :=
  match index.toNat with
  | 0 => readSyscall M debug console arg0 arg1 arg2
  | 1 => writeSyscall M debug console arg0 arg1 arg2
  | 2 => do
      anonAllocateSyscall M debug arg0 arg1
      pure console
  | n => do
      lockLogger console
      pure (console.print (unknownSyscall n))

end Bayos.Kernel
