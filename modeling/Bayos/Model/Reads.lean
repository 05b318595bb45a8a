/-
What the loader reads of the ramdisk: `add_user_process` once more, as a
computation that logs the offset of every byte it reads there. A read
that faults is logged too.

The functions are those of `Model/Loader.lean`, under the same names and
step for step; what does not look at the ramdisk is taken from there as
it is (`silent`).
-/
import Bayos.Lib.Logged
import Bayos.Model.Loader

namespace Bayos.Kernel

open Rust
open Lib (Logged Word)
open Lib.Paging
open Bayos.Memory (PhysFrame)

variable {PT α : Type}

/-- A call that reads from the ramdisk. -/
abbrev Reading (PT α : Type) : Type := Logged (State PT) Nat Stop α

namespace Reading

/-- A call that does not read from it. -/
def silent (x : KernelM PT α) : Reading PT α := Logged.silent x

/-- The call without its log. -/
def plain (x : Reading PT α) : KernelM PT α := x.run

-- =============================================================== the image

/-- The byte at offset `off`. -/
def byte (img : Image) (off : Nat) : Reading PT Byte :=
  .event off (lift (expect (img.byte off) "EXCEPTION: PAGE FAULT"))

/-- The `n` bytes at offset `off`. -/
def bytes (img : Image) (off : Nat) : Nat → Reading PT (List Byte)
  | 0 => pure []
  | n + 1 => do
      let b ← byte img off
      let bs ← bytes img (off + 1) n
      pure (b :: bs)

/-- The `n`-byte field at offset `off`. -/
def field (img : Image) (off n : Nat) : Reading PT Nat := do
  let bs ← bytes img off n
  pure (Image.littleEndian bs)

/-- `Header::e_entry`. -/
def eEntry (img : Image) : Reading PT Nat := field img 24 8

/-- `Header::e_phoff`. -/
def ePhoff (img : Image) : Reading PT Nat := field img 32 8

/-- `Header::e_phnum`. -/
def ePhnum (img : Image) : Reading PT Nat := field img 56 2

/-- `Program::p_type` of the program header at `off`. -/
def pType (img : Image) (off : Nat) : Reading PT Nat := field img off 4

/-- The other fields of the program header at `off`. -/
def program (img : Image) (off : Nat) : Reading PT Program := do
  let pOffset ← field img (off + 8) 8
  let pVaddr ← field img (off + 16) 8
  let pFilesz ← field img (off + 32) 8
  let pMemsz ← field img (off + 40) 8
  pure { pOffset, pVaddr, pFilesz, pMemsz }

-- ============================================================= the loading

/-- `?`. -/
def andThen (x y : Reading PT Loaded) : Reading PT Loaded := do
  match ← x with
  | .ok () => y
  | .error e => pure (.error e)

/-- The copy of a segment, and the zeroes behind its file contents. -/
def fillSegment (M : PageMapper PT) (debug : Bool) (img : Image)
    (p : Program) : Reading PT Unit := do
  let src ← silent (lift (Usize.add img.efi p.pOffset))
  silent (lift (checkCopy debug src p.pVaddr p.pMemsz))
  let bytes ← bytes img p.pOffset p.pMemsz
  silent do
    fillBytes M (BitVec.ofNat 64 p.pVaddr) bytes
    if p.pFilesz < p.pMemsz then do
      let tail ← lift (Usize.add p.pVaddr p.pFilesz)
      fillBytes M (BitVec.ofNat 64 tail)
        (List.replicate (p.pMemsz - p.pFilesz) 0)
    else pure ()

/-- A segment of type `PT_LOAD`. -/
def loadSegment (M : PageMapper PT) (debug : Bool) (img : Image)
    (p : Program) : Reading PT Loaded := do
  let pages ← silent (lift (segmentPages p))
  andThen (silent (mapPages M pages.iter)) do
    fillSegment M debug img p
    pure (.ok ())

/-- The loop over `n` program headers from `off` on. -/
def loadPrograms (M : PageMapper PT) (debug : Bool) (img : Image)
    (off : Nat) : Nat → Reading PT Loaded
  | 0 => pure (.ok ())
  | n + 1 => do
      let type ← pType img off
      andThen
        (if type = 1 then do
          let p ← program img off
          loadSegment M debug img p
        else pure (.ok ()))
        (loadPrograms M debug img (off + programSize) n)

/-- The program headers of the image. -/
def loadSegments (M : PageMapper PT) (debug : Bool) (img : Image) :
    Reading PT Loaded := do
  silent (lift (checkNull debug img.efi))
  let phoff ← ePhoff img
  let _ ← silent (lift (Usize.add img.efi phoff))
  let phnum ← ePhnum img
  loadPrograms M debug img phoff phnum

/-- The stack of the process: its pages, and what is written there. -/
def loadStack (M : PageMapper PT) (img : Image) (rflags : Word) :
    Reading PT Loaded := do
  let pages ← silent (lift (pagesOf (0x200000 - 0x5000) (0x200000 - 1)))
  andThen (silent (mapPages M pages.iter)) do
    let entry ← eEntry img
    silent do
      let entry ← lift (VirtAddr.new entry)
      fillFrame M (Sched.userStack + 120 + 8)
        (Timer.userFrame (BitVec.ofNat 64 entry.val) rflags)
      fillValue M Sched.userStack Sched.userStack
      pure (.ok ())

/-- The body of `add_user_process`, under its two guards. -/
def loadUser (M : PageMapper PT) (debug : Bool) (img : Image)
    (mapper : Sched.MapperId) (rflags : Word) : Reading PT Loaded :=
  andThen (loadSegments M debug img)
    (andThen (loadStack M img rflags) (silent do
      withProcessList (pushProcess (Sched.userProcess mapper))
      pure (.ok ())))

/-- The scope of a guard on the mapper. -/
def withMapper (body : Reading PT α) : Reading PT α := fun k =>
  (if k.mapperHeld then [] else body.log { k with mapperHeld := true },
    Kernel.withMapper body.plain k)

/-- The scope of a guard on the frame allocator. -/
def withFrames (body : Reading PT α) : Reading PT α := fun k =>
  (if k.framesHeld then [] else body.log { k with framesHeld := true },
    Kernel.withFrames body.plain k)

/-- `add_user_process`. -/
def addUserProcess (M : PageMapper PT) (debug : Bool) (img : Image)
    (mapper : Sched.MapperId) (rflags : Word) : Reading PT Loaded :=
  withMapper (withFrames (loadUser M debug img mapper rflags))

end Reading

end Bayos.Kernel
