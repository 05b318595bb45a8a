/-
Loading a program: `add_user_process` of `kernel/src/sched.rs`, over the
ELF structures of `kernel/src/elf.rs`.

# The image

The ramdisk is memory that nothing writes while a program is loaded: an
`Image` gives the byte at each offset from its start, or none where a
read would fault. Program headers are 56 bytes each, as in every ELF64
file; the loader does not read `e_phentsize`.

# Profiles

Sums of addresses are checked for overflow, as the profile for
development has it. `debug` says whether the build has debug assertions
too, and so checks the pointers it is given: neither null, nor, for a
copy, too near to each other. With `efi` not null the pointer to the
program headers is not either; and once the copy has been made, nor is
that to the zeroes.

# The operator `?`

A call that maps pages returns a `Result`; `andThen` goes on after an
`Ok` and returns an `Err` at once, with whatever was mapped by then left
mapped.
-/
import Bayos.Model.Kernel
import Bayos.Model.Timer

namespace Bayos.Kernel

open Rust
open Lib (Word)
open Lib.Paging
open Bayos.Memory (PhysFrame)

variable {PT : Type}

-- =============================================================== the image

/-- The ramdisk, from address `efi` on. -/
structure Image where
  efi : Nat
  byte : Nat → Option Byte

namespace Image

/-- The `n` bytes at offset `off`. -/
def bytes (img : Image) (off : Nat) : Nat → Except Panic (List Byte)
  | 0 => pure []
  | n + 1 => do
      let b ← expect (img.byte off) "EXCEPTION: PAGE FAULT"
      let bs ← img.bytes (off + 1) n
      pure (b :: bs)

/-- An unsigned integer, least significant byte first. -/
def littleEndian : List Byte → Nat
  | [] => 0
  | b :: bs => b.toNat + 256 * littleEndian bs

/-- The `n`-byte field at offset `off`. -/
def field (img : Image) (off n : Nat) : Except Panic Nat := do
  let bs ← img.bytes off n
  pure (littleEndian bs)

/-- `Header::e_entry`. -/
def eEntry (img : Image) : Except Panic Nat := img.field 24 8

/-- `Header::e_phoff`. -/
def ePhoff (img : Image) : Except Panic Nat := img.field 32 8

/-- `Header::e_phnum`. -/
def ePhnum (img : Image) : Except Panic Nat := img.field 56 2

end Image

/-- What the loader reads of a `Program`, its type apart. -/
structure Program where
  pOffset : Nat
  pVaddr : Nat
  pFilesz : Nat
  pMemsz : Nat
  deriving DecidableEq

/-- `mem::size_of::<Program>()`. -/
def programSize : Nat := 56

namespace Image

/-- `Program::p_type` of the program header at `off`. -/
def pType (img : Image) (off : Nat) : Except Panic Nat := img.field off 4

/-- The other fields of the program header at `off`. -/
def program (img : Image) (off : Nat) : Except Panic Program := do
  let pOffset ← img.field (off + 8) 8
  let pVaddr ← img.field (off + 16) 8
  let pFilesz ← img.field (off + 32) 8
  let pMemsz ← img.field (off + 40) 8
  pure { pOffset, pVaddr, pFilesz, pMemsz }

end Image

-- ============================================================ the pointers

/-- What a build with debug assertions checks of a pointer it reads
through, to data of any alignment. -/
def checkNull (debug : Bool) (addr : Nat) : Except Panic Unit :=
  if debug ∧ addr = 0 then
    .error (.message "null pointer dereference occurred")
  else .ok ()

/-- What it checks of the arguments of `copy_nonoverlapping`, for
bytes. -/
def checkCopy (debug : Bool) (src dst count : Nat) : Except Panic Unit :=
  if debug ∧ count ≠ 0
      ∧ (src = 0 ∨ dst = 0 ∨ (src - dst) + (dst - src) < count) then
    .error (.message ("unsafe precondition(s) violated: "
      ++ "ptr::copy_nonoverlapping requires that both pointer arguments "
      ++ "are aligned and non-null and the specified memory ranges do not "
      ++ "overlap"))
  else .ok ()

-- ============================================================= the loading

/-- What `add_user_process` and its parts return. -/
abbrev Loaded := Except (MapToError PhysFrame) Unit

/-- `?`. -/
def andThen (x y : KernelM PT Loaded) : KernelM PT Loaded := do
  match ← x with
  | .ok () => y
  | .error e => pure (.error e)

/-- The loop that maps a range of pages to fresh frames. -/
def mapPages (M : PageMapper PT) :
    List (Except Panic Page) → KernelM PT Loaded
  | [] => pure (.ok ())
  | page :: rest => do
      let page ← lift page
      match ← allocateFrame with
      | none => pure (.error .frameAllocationFailed)
      | some frame =>
          andThen (mapTo M page frame userFlags) (mapPages M rest)

/-- The pages from the first to the last byte of a range. -/
def pagesOf (first last : Nat) : Except Panic PageRangeInclusive := do
  let start ← VirtAddr.new first
  let stop ← VirtAddr.new last
  pure ⟨.containingAddress start, .containingAddress stop⟩

/-- The pages of a segment. -/
def segmentPages (p : Program) : Except Panic PageRangeInclusive := do
  let stop ← Usize.add p.pVaddr p.pMemsz
  let last ← Usize.sub stop 1
  pagesOf p.pVaddr last

/-- The copy of a segment, and the zeroes behind its file contents. -/
def fillSegment (M : PageMapper PT) (debug : Bool) (img : Image)
    (p : Program) : KernelM PT Unit := do
  let src ← lift (Usize.add img.efi p.pOffset)
  lift (checkCopy debug src p.pVaddr p.pMemsz)
  let bytes ← lift (img.bytes p.pOffset p.pMemsz)
  fillBytes M (BitVec.ofNat 64 p.pVaddr) bytes
  if p.pFilesz < p.pMemsz then do
    let tail ← lift (Usize.add p.pVaddr p.pFilesz)
    fillBytes M (BitVec.ofNat 64 tail)
      (List.replicate (p.pMemsz - p.pFilesz) 0)
  else pure ()

/-- A segment of type `PT_LOAD`. -/
def loadSegment (M : PageMapper PT) (debug : Bool) (img : Image)
    (p : Program) : KernelM PT Loaded := do
  let pages ← lift (segmentPages p)
  andThen (mapPages M pages.iter) do
    fillSegment M debug img p
    pure (.ok ())

/-- The loop over `n` program headers from `off` on. -/
def loadPrograms (M : PageMapper PT) (debug : Bool) (img : Image)
    (off : Nat) : Nat → KernelM PT Loaded
  | 0 => pure (.ok ())
  | n + 1 => do
      let type ← lift (img.pType off)
      andThen
        (if type = 1 then do
          let p ← lift (img.program off)
          loadSegment M debug img p
        else pure (.ok ()))
        (loadPrograms M debug img (off + programSize) n)

/-- The program headers of the image. -/
def loadSegments (M : PageMapper PT) (debug : Bool) (img : Image) :
    KernelM PT Loaded := do
  lift (checkNull debug img.efi)
  let phoff ← lift img.ePhoff
  let _ ← lift (Usize.add img.efi phoff)
  let phnum ← lift img.ePhnum
  loadPrograms M debug img phoff phnum

/-- The assignments to the fields of an `InterruptStackFrameValue`. -/
def fillFrame (M : PageMapper PT) (a : Word)
    (f : Timer.InterruptStackFrameValue) : KernelM PT Unit := do
  fillValue M a f.instructionPointer
  fillValue M (a + 8) f.codeSegment
  fillValue M (a + 16) f.cpuFlags
  fillValue M (a + 24) f.stackPointer
  fillValue M (a + 32) f.stackSegment

/-- The stack of the process: its pages, and what is written there. -/
def loadStack (M : PageMapper PT) (img : Image) (rflags : Word) :
    KernelM PT Loaded := do
  let pages ← lift (pagesOf (0x200000 - 0x5000) (0x200000 - 1))
  andThen (mapPages M pages.iter) do
    let entry ← lift img.eEntry
    let entry ← lift (VirtAddr.new entry)
    fillFrame M (Sched.userStack + 120 + 8)
      (Timer.userFrame (BitVec.ofNat 64 entry.val) rflags)
    fillValue M Sched.userStack Sched.userStack
    pure (.ok ())

/-- The body of `add_user_process`, under its two guards. -/
def loadUser (M : PageMapper PT) (debug : Bool) (img : Image)
    (mapper : Sched.MapperId) (rflags : Word) : KernelM PT Loaded :=
  andThen (loadSegments M debug img) (andThen (loadStack M img rflags) do
    withProcessList (pushProcess (Sched.userProcess mapper))
    pure (.ok ()))

/-- `add_user_process`. -/
def addUserProcess (M : PageMapper PT) (debug : Bool) (img : Image)
    (mapper : Sched.MapperId) (rflags : Word) : KernelM PT Loaded :=
  withMapper (withFrames (loadUser M debug img mapper rflags))

end Bayos.Kernel
