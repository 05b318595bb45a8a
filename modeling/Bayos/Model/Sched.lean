/-
The scheduler: the process table and the functions of
`kernel/src/sched.rs` that read and write it.

# Locks and waiting

`PROCESS_LIST` is behind a spin lock and `CURRENT_PROCESS` behind a
read-write spin lock; the state carries both. Every function here runs
with interrupts off, either inside `without_interrupts` or, `schedule`,
in the timer's interrupt gate, on a machine with one processor. A lock
that is found taken is therefore never released by anybody else: the
call waits for ever, which is the outcome `waits`. A guard is released
where its scope ends, so a critical section is a function around its
body.

# The search loop

The loop of `schedule` has no bound of its own; the model gives it fuel.
Running out of fuel is an outcome of its own, never taken for an answer:
a result about `schedule` says from which fuel on it holds.
-/
import Mathlib.Data.List.Basic
import Bayos.Lib.Rust

namespace Bayos.Sched

open Rust

/-- `u64`. -/
abbrev U64 := BitVec 64

/-- `Status`. -/
inductive Status
  | ready
  | running
  | dead
  deriving DecidableEq, Repr

/-- An `Arc<Spinlock<OffsetPageTable>>`, by the table it shares. -/
abbrev MapperId := Nat

/-- `Process`. The boxed kernel stack is the address of its lowest
byte. -/
structure Process where
  id : Nat
  status : Status
  rsp : U64
  kernelStack : Option U64
  mapper : Option MapperId
  pages : Option U64
  deriving DecidableEq, Repr

/-- The locks of this file. -/
inductive Lock
  | processList
  | currentProcess
  deriving DecidableEq, Repr

/-- State of a read-write spin lock. -/
inductive RwState
  | free
  | readers (n : Nat)
  | writer
  deriving DecidableEq, Repr

/-- `PROCESS_LIST` and `CURRENT_PROCESS`, with their locks. -/
structure Table where
  processList : List Process
  currentProcess : Nat
  listHeld : Bool
  currentHeld : RwState
  deriving DecidableEq, Repr

/-- How a call ends, if it does. -/
inductive Outcome (α : Type)
  | done (a : α)
  | panics (p : Panic)
  | waits (l : Lock)
  | outOfFuel
  deriving DecidableEq, Repr

/-- A call on the scheduler's state. -/
def SchedM (α : Type) : Type := Table → Outcome (α × Table)

instance : Monad SchedM where
  pure a := fun s => .done (a, s)
  bind x f := fun s =>
    match x s with
    | .done (a, s') => f a s'
    | .panics p => .panics p
    | .waits l => .waits l
    | .outOfFuel => .outOfFuel

-- =============================================================== the locks

/-- The scope of a guard on `PROCESS_LIST`. -/
def withProcessList {α : Type} (body : SchedM α) : SchedM α := fun s =>
  if s.listHeld then .waits .processList
  else
    match body { s with listHeld := true } with
    | .done (a, s') => .done (a, { s' with listHeld := false })
    | other => other

/-- The scope of a write guard on `CURRENT_PROCESS`. -/
def withCurrentWrite {α : Type} (body : SchedM α) : SchedM α := fun s =>
  match s.currentHeld with
  | .free =>
      match body { s with currentHeld := .writer } with
      | .done (a, s') => .done (a, { s' with currentHeld := .free })
      | other => other
  | _ => .waits .currentProcess

/-- The scope of the first read guard on `CURRENT_PROCESS`; no function
here takes a second. -/
def withCurrentRead {α : Type} (body : SchedM α) : SchedM α := fun s =>
  match s.currentHeld with
  | .free =>
      match body { s with currentHeld := .readers 1 } with
      | .done (a, s') => .done (a, { s' with currentHeld := .free })
      | other => other
  | _ => .waits .currentProcess

-- =============================================================== the table

/-- `*index`. -/
def getIndex : SchedM Nat := fun s => .done (s.currentProcess, s)

/-- `*index = i`. -/
def setIndex (i : Nat) : SchedM Unit := fun s =>
  .done ((), { s with currentProcess := i })

/-- `proc_list.len()`. -/
def listLen : SchedM Nat := fun s => .done (s.processList.length, s)

/-- `proc_list[i]`. -/
def getAt (i : Nat) : SchedM Process := fun s =>
  match s.processList[i]? with
  | some p => .done (p, s)
  | none => .panics .index

/-- An assignment to a field of `proc_list[i]`. -/
def modifyAt (i : Nat) (f : Process → Process) : SchedM Unit := fun s =>
  if i < s.processList.length then
    .done ((), { s with processList := s.processList.modify i f })
  else .panics .index

/-- `proc_list.push(p)`. -/
def push (p : Process) : SchedM Unit := fun s =>
  .done ((), { s with processList := s.processList ++ [p] })

/-- `proc_list.remove(i)`. -/
def remove (i : Nat) : SchedM Unit := fun s =>
  if i < s.processList.length then
    .done ((), { s with processList := s.processList.eraseIdx i })
  else .panics .index

/-- Out of fuel. -/
def starve : SchedM Unit := fun _ => .outOfFuel

-- =========================================================== the functions

/-- The boot process, entry 0 of the table. -/
def bootProcess : Process where
  id := 0
  status := .running
  rsp := 0
  kernelStack := none
  mapper := none
  pages := none

/-- `init`. -/
def init : Table where
  processList := [bootProcess]
  currentProcess := 0
  listHeld := false
  currentHeld := .free

/-- The entry `add_process` pushes, for a kernel stack at `stack`. -/
def kernelProcess (stack : U64) : Process where
  id := 1
  status := .ready
  rsp := stack
  kernelStack := some stack
  mapper := none
  pages := none

/-- `add_process`, with the address `Box::new` gave the stack. The frame
it writes on that stack is in `Model/Timer.lean`. -/
def addProcess (stack : U64) : SchedM Unit :=
  withProcessList (push (kernelProcess stack))

/-- The lowest address of the user stack that is used:
`0x200000 - 0x4000`. -/
def userStack : U64 := 0x200000 - 0x4000

/-- The entry `add_user_process` pushes. -/
def userProcess (mapper : MapperId) : Process where
  id := 2
  status := .ready
  rsp := userStack + 8
  kernelStack := none
  mapper := some mapper
  pages := some 0x100000000

/-- The last section of a successful `add_user_process`: the push. -/
def addUserProcess (mapper : MapperId) : SchedM Unit :=
  withProcessList (push (userProcess mapper))

/-- `delete_process`. -/
def deleteProcess (index : Nat) : SchedM Unit :=
  withProcessList (remove index)

/-- `mark_current_as_dead`. -/
def markCurrentAsDead : SchedM Unit :=
  withProcessList (withCurrentRead do
    let index ← getIndex
    modifyAt index fun p => { p with status := .dead })

/-- The loop of `schedule`: step the cursor until it stands on a READY
process, and make that one RUNNING. -/
def search : Nat → SchedM Unit
  | 0 => starve
  | fuel + 1 => do
      let index ← getIndex
      setIndex (index + 1)
      let len ← listLen
      let index ← getIndex
      (if len ≤ index then setIndex 0 else pure ())
      let index ← getIndex
      let p ← getAt index
      if p.status = .ready then
        modifyAt index fun p => { p with status := .running }
      else search fuel

/-- `schedule`. -/
def schedule (fuel : Nat) (rsp : U64) : SchedM U64 :=
  withCurrentWrite (withProcessList do
    let index ← getIndex
    modifyAt index fun p => { p with rsp := rsp }
    let p ← getAt index
    (if p.status ≠ .dead then
        modifyAt index fun p => { p with status := .ready }
      else deleteProcess index)
    search fuel
    let index ← getIndex
    let p ← getAt index
    pure p.rsp)

end Bayos.Sched
