/-
What the kernel locks and when it turns interrupts off: every function
of the kernel that takes a lock, reduced to its guards, its
`without_interrupts` sections and its order of calls.

# What is kept of a function

A guard is the command inside it, so it lives as long as the source's
binding does: to the end of the block, or of the function. Loops run any
number of times; a branch on data that the locks do not depend on is a
`choice`, and so is every `unwrap`, `expect`, index and overflow check
that may panic. The one test that is kept is the status that `schedule`
reads, since it decides whether `PROCESS_LIST` is taken a second time.

# Panics

The panic handler turns interrupts off, logs and halts; guards are not
dropped. That is `panic`: interrupts off for ever.
-/
import Bayos.Lib.Irq.Machine
import Bayos.Lib.Ring

namespace Bayos.Locking

open Lib.Irq

/-- The locks of the kernel. -/
inductive Lock
  | lapic
  | keyboard
  | currentProcess
  | processList
  | allocator
  | mapper
  | frameAllocator
  | logger
  deriving DecidableEq, Repr

/-- What a new process runs. -/
inductive Program
  | kernelProcess
  | userProcess
  deriving DecidableEq, Repr

/-- What is changed besides locks: the status of the current process. -/
inductive Action
  | markDead
  deriving DecidableEq, Repr

/-- What is read besides locks. -/
inductive Test
  | currentDead
  deriving DecidableEq, Repr

/-- The interrupts that arrive. -/
inductive Interrupt
  | timer
  | keyboard
  deriving DecidableEq, Repr

/-- Which processes are DEAD, by their place in the table. -/
abbrev Dead := Nat → Bool

abbrev Code := Cmd Lock Program Action Test

/-- Commands in order. -/
def block : List Code → Code
  | [] => .skip
  | [c] => c
  | c :: cs => .seq c (block cs)

/-- One of some commands. -/
def oneOf : List Code → Code
  | [] => .skip
  | [c] => c
  | c :: cs => .choice c (oneOf cs)

/-- A check that may fail. -/
def mayPanic : Code := .choice .skip .panic

/-- The life of a guard that is taken exclusively. -/
def lock (l : Lock) (c : Code) : Code := .locked l .exclusive c

/-- The life of a guard that is taken for reading. -/
def readLock (l : Lock) (c : Code) : Code := .locked l .shared c

-- ================================================================ the heap

/-- `alloc` of the global allocator. -/
def alloc : Code := .masked (lock .allocator mayPanic)

/-- `dealloc` of the global allocator. -/
def dealloc : Code := .masked (lock .allocator mayPanic)

/-- An allocation by a collection or a box: out of memory panics. -/
def allocate : Code := block [alloc, mayPanic]

/-- A push to a vector, which may have to grow. -/
def push : Code := oneOf [.skip, block [allocate, dealloc]]

/-- Dropping a value that may own memory. -/
def drop : Code := .star dealloc

/-- `log::info!` and the like. -/
def log : Code := lock .logger mayPanic

-- =========================================================== the scheduler

/-- `add_process`. -/
def addProcess : Code :=
  .masked (block
    [ mayPanic
    , lock .processList (block
        [mayPanic, allocate, push, .spawn .kernelProcess]) ])

/-- Mapping pages: frames from the frame allocator, which may run out,
and page table entries, which may be taken. -/
def mapPages (rest : Code) : Code :=
  block [.star mayPanic, .choice rest .skip]

/-- `add_user_process`. Both guards live to the end of the function; an
error leaves it early. -/
def addUserProcess : Code :=
  block
    [ lock .mapper (lock .frameAllocator (mapPages (mapPages (block
        [ mayPanic
        , .masked (block
            [ mayPanic
            , lock .processList (block
                [push, .spawn .userProcess]) ]) ]))))
    , drop ]

/-- `delete_process`. -/
def deleteProcess : Code :=
  .masked (block
    [mayPanic, lock .processList (block [mayPanic, drop])])

/-- `mark_current_as_dead`. -/
def markCurrentAsDead : Code :=
  .masked (block
    [ mayPanic
    , lock .processList (block
        [ mayPanic
        , readLock .currentProcess (block [mayPanic, .act .markDead]) ]) ])

/-- `schedule`, to the end of its guards. -/
def schedule : Code :=
  block
    [ mayPanic
    , lock .currentProcess (block
        [ mayPanic
        , lock .processList (block
            [ mayPanic
            , .cond .currentDead deleteProcess .skip
            , .star mayPanic ]) ]) ]

-- ============================================================ system calls

/-- The inner block of `anon_allocate_syscall`. -/
def anonMapping : Code :=
  lock .mapper (block [mayPanic, lock .frameAllocator (.star mayPanic)])

/-- `anon_allocate_syscall`. -/
def anonAllocate : Code :=
  .masked (block
    [ mayPanic
    , lock .processList (block
        [ mayPanic
        , readLock .currentProcess (block
            [mayPanic, anonMapping, mayPanic]) ]) ])

/-- `read_syscall`: the pipe is lock-free. -/
def readSyscall : Code := block [mayPanic, .star .skip]

/-- `write_syscall`. -/
def writeSyscall : Code := oneOf [.skip, lock .logger mayPanic]

/-- `syscall_handler`, which runs with the caller's interrupt flag. -/
def syscallHandler : Code :=
  oneOf [readSyscall, writeSyscall, anonAllocate, log]

-- ============================================================== interrupts

/-- `send_eoi`. -/
def sendEoi : Code := block [mayPanic, lock .lapic mayPanic]

/-- `keyboard_handler`. -/
def keyboardHandler : Code := block [sendEoi, lock .keyboard mayPanic]

/-- `timer_handler`, to the switch of stacks. -/
def timerHandler : Code := block [sendEoi, schedule]

-- ==================================================================== boot

/-- `memory::get_virtual_address`. -/
def getVirtualAddress : Code := lock .mapper mayPanic

/-- `allocator::init_heap`. -/
def initHeap : Code := block [.star mayPanic, lock .allocator mayPanic]

/-- Parsing the ACPI tables: mapped through `get_virtual_address`, and
kept in boxes and vectors. -/
def acpi : Code :=
  .star (oneOf [getVirtualAddress, allocate, dealloc, mayPanic])

/-- `int::init_apic`. The guard on `LAPIC` lives to the end of the
function. -/
def initApic : Code :=
  block
    [ mayPanic
    , getVirtualAddress
    , lock .lapic (block
        [ .star (block [getVirtualAddress, getVirtualAddress, mayPanic])
        , drop
        , allocate
        , mayPanic ]) ]

/-- `kernel_main` up to `interrupts::enable`, which has interrupts
off. -/
def boot : Code :=
  block
    [ mayPanic, log, log, log, log
    , initHeap, log
    , allocate
    , acpi
    , initApic, log
    , push, log ]

/-- `memory::BitmapAllocator::init`. -/
def bitmapInit : Code := block [mayPanic, log, allocate, .star mayPanic]

/-- `kernel_main` from there. -/
def late : Code :=
  block
    [ bitmapInit
    , allocate, log
    , mayPanic, log
    , oneOf [block [addUserProcess, mayPanic], log]
    , .star .skip ]

/-- `kernel_main`: it enables interrupts once. -/
def kernelMain : Code := .seq boot (.seq .sti late)

-- ============================================================== the system

/-- The handlers; only the timer's ends in another process. -/
def handlers : Interrupt → Handler Lock Program Action Test
  | .timer => ⟨timerHandler, true⟩
  | .keyboard => ⟨keyboardHandler, false⟩

/-- The kernel, with processes that run `code`. A tick goes on with the
next process around the table. -/
def kernel (code : Program → Code) :
    Sys Lock Program Action Test Interrupt Dead where
  code := code
  handler := handlers
  effect | .markDead, cur, dead => fun i => i = cur || dead i
  test | .currentDead, cur, dead => dead cur
  pick := Lib.Ring.next

/-- The processor at the entry of `kernel_main`. -/
def start : State Lock Program Action Test Dead where
  threads := [[.run kernelMain]]
  cur := 0
  on := false
  data _ := false

/-- All that a process may do to the locks, over and over. -/
def anyProcess : Code :=
  .star (oneOf
    [ addProcess, addUserProcess, markCurrentAsDead, anonAllocate
    , readSyscall, writeSyscall, log, allocate, dealloc, mayPanic ])

/-- A user process: computation of its own, and system calls. -/
def userProcess : Code := .star (oneOf [.skip, syscallHandler])

end Bayos.Locking
