/-
The timer interrupt, `timer_handler` of `kernel/src/int.rs`, and the
frames that `add_process` and `add_user_process` of
`kernel/src/sched.rs` build by hand for it to return through.

# Two calls

The handler calls `send_eoi` and `schedule`. The first only has to
return; the second returns in `rax` the stack pointer to go on with,
which is the part of it `Model/Sched.lean` models.
-/
import Bayos.Lib.X86
import Bayos.Model.Sched

namespace Bayos.Timer

open Lib (Word Mem region)
open Lib.X86

/-- The functions the handler calls. -/
inductive Callee
  | sendEoi
  | schedule
  deriving DecidableEq, Repr

-- ============================================================= the handler

/-- The pushes of the handler. -/
def timerSave : List (Instr Callee) :=
  [ .push .rax
  , .push .rcx
  , .push .rdx
  , .push .rbx
  , .push .rbp
  , .push .rsi
  , .push .rdi
  , .push .r8
  , .push .r9
  , .push .r10
  , .push .r11
  , .push .r12
  , .push .r13
  , .push .r14
  , .push .r15 ]

/-- The handler up to the call of `schedule`. -/
def timerToSchedule : List (Instr Callee) :=
  timerSave ++ [.call .sendEoi, .mov .rdi .rsp]

/-- The switch of stacks, the pops and the return. -/
def timerRestore : List (Instr Callee) :=
  [ .mov .rsp .rax
  , .pop .r15
  , .pop .r14
  , .pop .r13
  , .pop .r12
  , .pop .r11
  , .pop .r10
  , .pop .r9
  , .pop .r8
  , .pop .rdi
  , .pop .rsi
  , .pop .rbp
  , .pop .rbx
  , .pop .rdx
  , .pop .rcx
  , .pop .rax
  , .iretq ]

/-- `timer_handler`. -/
def timerHandler : List (Instr Callee) :=
  timerToSchedule ++ .call .schedule :: timerRestore

-- ======================================================= hand-built frames

/-- `SegmentSelector::new`. -/
def segmentSelector (index rpl : BitVec 16) : BitVec 16 := index <<< 3 ||| rpl

/-- `rflags::read() | RFlags::INTERRUPT_FLAG`; the read drops the bits
that have no name. -/
def withInterruptFlag (rflags : Word) : Word :=
  (rflags &&& 0x3f7fd5) ||| interruptFlag

/-- `InterruptStackFrameValue`. -/
structure InterruptStackFrameValue where
  instructionPointer : Word
  codeSegment : BitVec 16
  cpuFlags : Word
  stackPointer : Word
  stackSegment : BitVec 16
  deriving DecidableEq, Repr

/-- The assignments to the fields of an `InterruptStackFrameValue` at
`a`; the six bytes after each selector are not assigned. -/
def writeFrame (m : Mem) (a : Word) (f : InterruptStackFrameValue) : Mem :=
  let m := m.write a f.instructionPointer
  let m := m.write (a + 8) f.codeSegment
  let m := m.write (a + 16) f.cpuFlags
  let m := m.write (a + 24) f.stackPointer
  m.write (a + 32) f.stackSegment

/-- The frame `add_process` builds for a kernel stack at `stack`. -/
def kernelFrame (stack entry rflags : Word) : InterruptStackFrameValue where
  instructionPointer := entry
  codeSegment := segmentSelector 1 0
  cpuFlags := withInterruptFlag rflags
  stackPointer := stack + 0x4000
  stackSegment := segmentSelector 2 0

/-- `add_process` on memory: a zeroed stack with the frame in it. -/
def writeKernelStack (m : Mem) (stack entry rflags : Word) : Mem :=
  writeFrame (fun x => if x ∈ region stack 0x4000 then 0 else m x)
    (stack + 120) (kernelFrame stack entry rflags)

/-- The frame `add_user_process` builds. -/
def userFrame (entry rflags : Word) : InterruptStackFrameValue where
  instructionPointer := entry
  codeSegment := segmentSelector 6 3
  cpuFlags := withInterruptFlag rflags
  stackPointer := 0x200000
  stackSegment := segmentSelector 5 3

/-- `add_user_process` on memory, once the pages of the stack are mapped:
the frame, and the word libc finds its thread control block through. The
pages keep what the frames they were given held. -/
def writeUserStack (m : Mem) (entry rflags : Word) : Mem :=
  (writeFrame m (Sched.userStack + 120 + 8) (userFrame entry rflags)).write
    Sched.userStack Sched.userStack

end Bayos.Timer
