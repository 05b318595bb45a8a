/-
What a libc wrapper makes of a system call. The handler returns nothing,
and the stub's first pop puts the stack slot of the seventh argument
into `rax`. The slot still holds the sixth argument register of the
call, so that is what libc takes for the result: `r9`, a register that
neither `read` nor `write` passes anything in.
-/
import Bayos.Proofs.Syscall
import Bayos.Model.Libc

namespace Bayos.Libc

open Lib (Word region)
open Lib.X86
open Bayos.Syscall

/-- The kernel path of a call completes: the handler returns by the
calling convention, and `_arg5`, which it never assigns, is as it was
passed. -/
structure Completes (env : Env Callee) (m : Machine) : Prop where
  conforming : Conforming env m
  arg5 : ∀ c, exec env syscallSetup m = some c →
    (env.body .syscallHandler (env.entry .syscallHandler c)).mem.read
        ((env.entry .syscallHandler c).regs .rsp + 8) 64
      = (env.entry .syscallHandler c).mem.read
        ((env.entry .syscallHandler c).regs .rsp + 8) 64

/-- The stub pops the seventh argument into `rax`. -/
theorem beforeSysret_rax {env : Env Callee} {m : Machine}
    (h : Completes env m) :
    (beforeSysret env m).regs .rax = m.regs .r9 := by
  have hpops := Machine.popAll_regs popOrder (handlerExit env m)
    (by decide) (by decide)
  have hrax : (beforeSysret env m).regs .rax
      = (handlerExit env m).mem.read ((handlerExit env m).regs .rsp) 64 :=
    (List.cons.inj hpops).1
  have hrsp : (handlerExit env m).regs .rsp
      = (handlerEntry env m).regs .rsp + 8 :=
    (handlerExit_returns h.conforming).rsp
  rw [hrax, hrsp]
  exact (h.arg5 _ (exec_setup env m)).trans (handlerEntry_args env m).arg5

/-- What libc sees of a system call is `r9`. -/
theorem doSyscall3_eq {env : Env Callee} {m : Machine}
    {sc arg1 arg2 arg3 : Word}
    (h : Completes env
      ((loadSyscall3 m sc arg1 arg2 arg3).syscall env.msrs)) :
    doSyscall3 env m sc arg1 arg2 arg3 = some (m.regs .r9) := by
  unfold doSyscall3
  rw [systemCall_eq h.conforming]
  exact congrArg some (beforeSysret_rax h)

theorem syscall3_eq {env : Env Callee} {m : Machine} {n a0 a1 a2 : Word}
    (h : Completes env ((loadSyscall3 m n a0 a1 a2).syscall env.msrs)) :
    syscall3 env m n a0 a1 a2 = some (doSyscallRet (m.regs .r9)) := by
  unfold syscall3
  rw [doSyscall3_eq h]
  rfl

-- ============================================================ the wrappers

/-- A wrapper returns 0 with `count` in its out-parameter. -/
def Succeeds (call : Option Result) (count : Word) : Prop :=
  ∃ errno, call = some ⟨0, count, errno⟩

/-- A negative value whose negation is cut to the `int` 0. -/
def CutToZero (r : Word) : Prop :=
  r.slt 0 ∧ r ≠ BitVec.intMin 64 ∧ r.setWidth 32 = (0 : CInt)

theorem cut_neg (r : Word) :
    (-r).setWidth 32 = (0 : CInt) ↔ r.setWidth 32 = (0 : CInt) := by
  have hr := r.isLt
  have hzero : (0 : CInt).toNat = 0 := rfl
  rw [BitVec.toNat_eq, BitVec.toNat_eq, BitVec.toNat_setWidth,
    BitVec.toNat_setWidth, BitVec.toNat_neg, hzero]
  omega

/-- The values that `__do_syscall_ret` replaces by -1 are not cut to
0. -/
theorem cut_of_errno {r : Word} (h : (-4096 : Word) < r) :
    r.setWidth 32 ≠ (0 : CInt) := by
  have hr := r.isLt
  have hlow : 2 ^ 64 - 4096 < r.toNat := h
  intro hcut
  have hnat := congrArg BitVec.toNat hcut
  rw [BitVec.toNat_setWidth] at hnat
  have hzero : r.toNat % 2 ^ 32 = 0 := hnat
  omega

theorem slt_of_errno {r : Word} (h : (-4096 : Word) < r) : r.slt 0 := by
  have hlow : 2 ^ 64 - 4096 < r.toNat := h
  show r.slt 0#64
  rw [BitVec.slt_zero_iff_msb_cond, BitVec.msb_eq_decide,
    decide_eq_true_iff]
  omega

/-- A negative value that is no `errno` succeeds if its negation is cut
to 0. -/
theorem negated_succeeds {r out count : Word} (hslt : r.slt 0) :
    Succeeds ((negated r).bind fun e => some ⟨e, out, none⟩) count
      ↔ CutToZero r ∧ out = count := by
  unfold Succeeds negated
  by_cases hmin : r = BitVec.intMin 64
  · rw [if_pos hmin]
    constructor
    · intro ⟨errno, h⟩
      cases h
    · intro ⟨h, _⟩
      exact absurd hmin h.2.1
  · rw [if_neg hmin]
    constructor
    · intro ⟨errno, h⟩
      obtain ⟨hret, hout, -⟩ := Result.mk.inj (Option.some.inj h)
      exact ⟨⟨hslt, hmin, (cut_neg r).mp hret⟩, hout⟩
    · intro hparts
      rcases hparts with ⟨⟨-, -, h⟩, rfl⟩
      refine ⟨none, ?_⟩
      rw [Option.bind_some, (cut_neg r).mpr h]

/-- When a wrapper succeeds, given the raw value `r` of its call. -/
theorem finish_succeeds (r onError count : Word) (onSuccess : Word → Word) :
    Succeeds (finish (some (doSyscallRet r)) onError onSuccess) count
      ↔ (¬ r.slt 0 ∧ onSuccess r = count)
        ∨ (CutToZero r ∧ onError = count) := by
  unfold finish doSyscallRet
  by_cases herrno : (-4096 : Word) < r
  · -- `result` is -1 and 1 is returned
    rw [if_pos herrno]
    constructor
    · intro ⟨errno, h⟩
      have hret : (1 : CInt) = 0 :=
        congrArg Result.ret (Option.some.inj h)
      exact absurd hret (by decide)
    · intro hparts
      rcases hparts with ⟨h, -⟩ | ⟨h, -⟩
      · exact absurd (slt_of_errno herrno) h
      · exact absurd h.2.2 (cut_of_errno herrno)
  · rw [if_neg herrno]
    show Succeeds (if r.slt 0 then (negated r).bind fun e =>
        some ⟨e, onError, none⟩ else some ⟨0, onSuccess r, none⟩) count ↔ _
    by_cases hslt : r.slt 0
    · rw [if_pos hslt, negated_succeeds hslt]
      constructor
      · exact Or.inr
      · intro hparts
        rcases hparts with ⟨h, -⟩ | h
        · exact absurd hslt h
        · exact h
    · rw [if_neg hslt]
      constructor
      · intro ⟨errno, h⟩
        obtain ⟨-, hout, -⟩ := Result.mk.inj (Option.some.inj h)
        exact Or.inl ⟨hslt, hout⟩
      · intro hparts
        rcases hparts with ⟨-, rfl⟩ | ⟨h, -⟩
        · exact ⟨none, rfl⟩
        · exact absurd h.1 hslt

/-- When system call results reach the caller: `sys_read` reports the
`count` bytes it read exactly when `r9` happens to hold `count`, as a
value that is not negative (or, for no bytes, a negative value whose
negation is cut to 0), and `sys_write` exactly when `r9` is not negative
(or is so cut, and `*written` was right before the call). -/
theorem syscall_results (env : Env Callee) (m : Machine)
    (buf count written : Word) :
    (Completes env ((loadSyscall3 m sysReadNumber 0 buf count).syscall
        env.msrs) →
      (Succeeds (sysRead env m 0 buf count) count
        ↔ (¬ (m.regs .r9).slt 0 ∧ m.regs .r9 = count)
          ∨ (CutToZero (m.regs .r9) ∧ 0 = count)))
    ∧ (Completes env ((loadSyscall3 m sysWriteNumber 1 buf count).syscall
        env.msrs) →
      (Succeeds (sysWrite env m 1 buf count written) count
        ↔ ¬ (m.regs .r9).slt 0
          ∨ (CutToZero (m.regs .r9) ∧ written = count))) := by
  constructor
  · intro hread
    have hfd : (0 : CInt).signExtend 64 = (0 : Word) := by decide
    unfold sysRead
    rw [hfd, syscall3_eq hread]
    exact finish_succeeds ..
  · intro hwrite
    have hfd : (1 : CInt).signExtend 64 = (1 : Word) := by decide
    unfold sysWrite
    rw [hfd, syscall3_eq hwrite, finish_succeeds]
    simp only [and_true]

-- ================================================== a handler that returns

/-- A handler that does nothing but return. -/
def quietEnv : Env Callee :=
  { clobberEnv with body := fun _ => returnValue 0 }

theorem quiet_completes (m : Machine) : Completes quietEnv m :=
  ⟨fun _ _ => returnValue_returns _ _ _, fun _ _ => rfl⟩

theorem syscall_results_quiet :
    (Succeeds (sysRead quietEnv userFile 0 0x100000 3) 3
        ↔ (¬ (userFile.regs .r9).slt 0 ∧ userFile.regs .r9 = 3)
          ∨ (CutToZero (userFile.regs .r9) ∧ (0 : Word) = 3))
    ∧ (Succeeds (sysWrite quietEnv userFile 1 0x100000 3 0) 3
        ↔ ¬ (userFile.regs .r9).slt 0
          ∨ (CutToZero (userFile.regs .r9) ∧ (0 : Word) = 3)) :=
  ⟨(syscall_results quietEnv userFile 0x100000 3 0).1 (quiet_completes _),
    (syscall_results quietEnv userFile 0x100000 3 0).2 (quiet_completes _)⟩

/-- With -1 in `r9`, a write of three bytes is reported as failed. -/
theorem write_reported_failed :
    ¬ ∀ env m buf count written,
      (Completes env ((loadSyscall3 m sysReadNumber 0 buf count).syscall
          env.msrs) →
        Succeeds (sysRead env m 0 buf count) count)
      ∧ (Completes env ((loadSyscall3 m sysWriteNumber 1 buf count).syscall
          env.msrs) →
        Succeeds (sysWrite env m 1 buf count written) count) := by
  intro h
  have hcall := (h quietEnv (userFile.set .r9 (-1)) 0x100000 3 0).2
    (quiet_completes _)
  have hfd : (1 : CInt).signExtend 64 = (1 : Word) := by decide
  unfold sysWrite at hcall
  rw [hfd, syscall3_eq (quiet_completes _), finish_succeeds] at hcall
  rcases hcall with ⟨h, -⟩ | ⟨-, h⟩
  · exact h (by decide)
  · exact absurd h (by decide)

end Bayos.Libc
