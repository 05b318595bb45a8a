/-
The libc side of a system call: the wrappers of `sysdeps/bayos` in
`user/cross/mlibc.patch`, down to the `syscall` instruction.

# C integers

`long`, `ssize_t` and pointers are 64-bit words, `int` is a 32-bit one;
conversions cut or sign-extend. A wrapper has no result, `none`, if the
kernel does not come back or if C leaves the computation undefined: the
one such place is the negation of the least `long`.
-/
import Bayos.Model.Syscall

namespace Bayos.Libc

open Lib (Word)
open Lib.X86
open Bayos.Syscall

/-- `int`. -/
abbrev CInt := BitVec 32

/-- The registers as the `syscall` instruction of `__do_syscall3` finds
them: four of them are given, the others hold what the compiled program
left there. -/
def loadSyscall3 (m : Machine) (sc arg1 arg2 arg3 : Word) : Machine :=
  (((m.set .rax sc).set .rdi arg1).set .rsi arg2).set .rdx arg3

/-- `__do_syscall3`. -/
def doSyscall3 (env : Env Callee) (m : Machine)
    (sc arg1 arg2 arg3 : Word) : Option Word :=
  (systemCall env (loadSyscall3 m sc arg1 arg2 arg3)).map
    fun m' => m'.regs .rax

/-- `__do_syscall_ret`: the result and what is stored in `errno`, if
anything is. -/
def doSyscallRet (ret : Word) : Word × Option CInt :=
  if (-4096 : Word) < ret then (-1, some ((-ret).setWidth 32))
  else (ret, none)

/-- `syscall` with three arguments. -/
def syscall3 (env : Env Callee) (m : Machine) (n a0 a1 a2 : Word) :
    Option (Word × Option CInt) :=
  (doSyscall3 env m n a0 a1 a2).map doSyscallRet

/-- `-result`, returned from a function of type `int`. -/
def negated (result : Word) : Option CInt :=
  if result = BitVec.intMin 64 then none
  else some ((-result).setWidth 32)

/-- What a wrapper returns, and what it leaves in its out-parameter and
in `errno`. -/
structure Result where
  ret : CInt
  out : Word
  errno : Option CInt
  deriving DecidableEq, Repr

/-- `SYS_READ`. -/
def sysReadNumber : Word := 0

/-- `SYS_WRITE`. -/
def sysWriteNumber : Word := 1

/-- What `sys_read` and `sys_write` do with the reply of the kernel:
return its negation if it is negative. `onError` and `onSuccess` are
what they leave in the out-parameter. -/
def finish (reply : Option (Word × Option CInt)) (onError : Word)
    (onSuccess : Word → Word) : Option Result := do
  let (result, errno) ← reply
  if result.slt 0 then
    let e ← negated result
    some ⟨e, onError, errno⟩
  else some ⟨0, onSuccess result, errno⟩

/-- `sys_read`; the out-parameter is `*bytes_read`. -/
def sysRead (env : Env Callee) (m : Machine) (fd : CInt)
    (buf count : Word) : Option Result :=
  finish (syscall3 env m sysReadNumber (fd.signExtend 64) buf count) 0
    fun result => result

/-- `sys_write`; the out-parameter is `*written`, which holds `written`
before the call. -/
def sysWrite (env : Env Callee) (m : Machine) (fd : CInt)
    (buffer count written : Word) : Option Result :=
  finish (syscall3 env m sysWriteNumber (fd.signExtend 64) buffer count)
    written fun _ => count

-- =========================================================== two arguments

/-- The registers as the `syscall` instruction of `__do_syscall2` finds
them. -/
def loadSyscall2 (m : Machine) (sc arg1 arg2 : Word) : Machine :=
  ((m.set .rax sc).set .rdi arg1).set .rsi arg2

/-- `__do_syscall2`, and the machine when it returns. -/
def doSyscall2 (env : Env Callee) (m : Machine) (sc arg1 arg2 : Word) :
    Option (Word × Machine) :=
  (systemCall env (loadSyscall2 m sc arg1 arg2)).map
    fun m' => (m'.regs .rax, m')

/-- `SYS_ANON_ALLOCATE`. -/
def sysAnonAllocateNumber : Word := 2

/-- `sys_anon_allocate`, which does not look at what comes back: what it
returns, what goes to `errno`, and the machine when `errno` has not been
stored yet. -/
def sysAnonAllocate (env : Env Callee) (m : Machine) (size ptr : Word) :
    Option (CInt × Option CInt × Machine) :=
  (doSyscall2 env m sysAnonAllocateNumber size ptr).map
    fun (result, m') => (0, (doSyscallRet result).2, m')

end Bayos.Libc
