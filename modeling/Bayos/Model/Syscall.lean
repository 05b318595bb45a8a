/-
The entry stub of system calls, `syscall_entry` of
`kernel/src/syscall.rs`.

# Whose stack

The stub runs on the user's stack, so the memory it saves registers in
is the user's, right below the user's stack pointer.
-/
import Bayos.Lib.X86

namespace Bayos.Syscall

open Lib (Word region)
open Lib.X86

/-- The one function the stub calls. -/
inductive Callee
  | syscallHandler
  deriving DecidableEq, Repr

/-- Preserve registers, then set up the registers for the call. -/
def syscallSetup : List (Instr Callee) :=
  [ .push .rbp
  , .push .r15
  , .push .r14
  , .push .r13
  , .push .r12
  , .push .r11
  , .push .rcx
  , .push .r9
  , .mov .r9 .r8
  , .mov .r8 .r10
  , .mov .rcx .rdx
  , .mov .rdx .rsi
  , .mov .rsi .rdi
  , .mov .rdi .rax ]

/-- Clean up the seventh argument and restore the registers. -/
def syscallCleanup : List (Instr Callee) :=
  [ .pop .rax
  , .pop .rcx
  , .pop .r11
  , .pop .r12
  , .pop .r13
  , .pop .r14
  , .pop .r15
  , .pop .rbp ]

/-- `syscall_entry`, up to the `sysretq` it ends with. -/
def syscallBody : List (Instr Callee) :=
  syscallSetup ++ .call .syscallHandler :: syscallCleanup

/-- `syscall_entry`. -/
def syscallEntry : List (Instr Callee) := syscallBody ++ [.sysretq]

/-- The caller's memory above the stack argument of a handler that has
just been called: the seven words of saved registers. -/
def callerFrame (h : Machine) : Set Word := region (h.regs .rsp + 16) 56

/-- Called by the stub from `m`, the handler follows the calling
convention and leaves its caller's frame alone. -/
def Conforming (env : Env Callee) (m : Machine) : Prop :=
  ∀ c, exec env syscallSetup m = some c →
    Returns (callerFrame (env.entry .syscallHandler c))
      (env.entry .syscallHandler c)
      (env.body .syscallHandler (env.entry .syscallHandler c))

/-- A system call, from the `syscall` instruction to the user's next
one. -/
def systemCall (env : Env Callee) (m : Machine) : Option Machine :=
  exec env syscallEntry (m.syscall env.msrs)

end Bayos.Syscall
