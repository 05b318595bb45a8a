/-
The entry stub of system calls: what reaches the handler, what comes
back to the user, and which registers the user finds changed.

# The stack during the call

From the lowest address up: the return address, the seventh argument,
and the seven saved registers in reverse order of their pushes. The
handler may change the first two; `savedAfter_words` says the other
seven are still there when it returns.
-/
import Bayos.Model.Syscall

namespace Bayos.Syscall

open Lib (Word region)
open Lib.X86

-- =============================================================== the setup

/-- The registers the stub saves, in the order of its pushes. -/
def saveOrder : List Reg := [.rbp, .r15, .r14, .r13, .r12, .r11, .rcx]

/-- All the registers it pushes. -/
def pushOrder : List Reg := saveOrder ++ [Reg.r9]

/-- All the registers it pops. -/
def popOrder : List Reg := Reg.rax :: saveOrder.reverse

/-- The machine after the pushes of the stub. -/
def pushed (m : Machine) : Machine := m.pushWords (pushOrder.map m.regs)

/-- The machine before the call. -/
def beforeCall (m : Machine) : Machine :=
  (((((((pushed m).set .r9 (m.regs .r8)).set .r8 (m.regs .r10)).set .rcx
    (m.regs .rdx)).set .rdx (m.regs .rsi)).set .rsi (m.regs .rdi)).set .rdi
    (m.regs .rax))

/-- The machine at the first instruction of the handler. -/
def handlerEntry (env : Env Callee) (m : Machine) : Machine :=
  env.entry .syscallHandler (beforeCall m)

/-- The machine after the handler has returned. -/
def handlerExit (env : Env Callee) (m : Machine) : Machine :=
  env.body .syscallHandler (handlerEntry env m)

theorem pushed_regs (m : Machine) {r : Reg} (h : r ≠ .rsp) :
    (pushed m).regs r = m.regs r := Machine.pushWords_regs _ m h

theorem exec_setup (env : Env Callee) (m : Machine) :
    exec env syscallSetup m = some (beforeCall m) := by
  have hpush : exec env syscallSetup m
      = exec env (syscallSetup.drop 8) (pushed m) :=
    exec_pushes env pushOrder (syscallSetup.drop 8) m (by decide)
  have hr8 := pushed_regs m (r := .r8) (by decide)
  have hr10 := pushed_regs m (r := .r10) (by decide)
  have hrdx := pushed_regs m (r := .rdx) (by decide)
  have hrsi := pushed_regs m (r := .rsi) (by decide)
  have hrdi := pushed_regs m (r := .rdi) (by decide)
  have hrax := pushed_regs m (r := .rax) (by decide)
  rw [hpush]
  unfold beforeCall
  rw [← hr8, ← hr10, ← hrdx, ← hrsi, ← hrdi, ← hrax]
  rfl

/-- A register the stub does not move. -/
theorem beforeCall_regs (m : Machine) {r : Reg}
    (hr : r ∉ [.rsp, .r9, .r8, .rcx, .rdx, .rsi, .rdi]) :
    (beforeCall m).regs r = m.regs r := by
  simp only [List.mem_cons, List.not_mem_nil, or_false, not_or] at hr
  obtain ⟨hrsp, hr9, hr8, hrcx, hrdx, hrsi, hrdi⟩ := hr
  unfold beforeCall
  rw [Machine.set_of_ne _ hrdi, Machine.set_of_ne _ hrsi,
    Machine.set_of_ne _ hrdx, Machine.set_of_ne _ hrcx,
    Machine.set_of_ne _ hr8, Machine.set_of_ne _ hr9, pushed_regs m hrsp]

theorem beforeCall_rsp (m : Machine) :
    (beforeCall m).regs .rsp = m.regs .rsp - 64 :=
  Machine.pushWords_rsp (pushOrder.map m.regs) m

/-- The stack before the call: the seventh argument, then the saved
registers. -/
theorem beforeCall_words (m : Machine) :
    (beforeCall m).mem.words ((beforeCall m).regs .rsp) 8
      = m.regs .r9 :: (saveOrder.map m.regs).reverse := by
  have h := Machine.words_pushWords (pushOrder.map m.regs) m (n := 0)
    (by rw [List.length_map]; decide)
  exact h.trans (List.append_nil _)

/-- The stack at the first instruction of the handler. -/
theorem handlerEntry_words (env : Env Callee) (m : Machine) :
    (handlerEntry env m).mem.words ((handlerEntry env m).regs .rsp) 9
      = env.returnAddress .syscallHandler :: m.regs .r9
        :: (saveOrder.map m.regs).reverse := by
  have h := (beforeCall m).words_push
    (env.returnAddress .syscallHandler) (n := 8) (by decide)
  rw [beforeCall_words] at h
  exact h

-- ================================================ arguments of the handler

/-- The seven arguments of `syscall_handler`, as the user passed them. -/
structure Transported (m h : Machine) : Prop where
  index : h.regs .rdi = m.regs .rax
  arg0 : h.regs .rsi = m.regs .rdi
  arg1 : h.regs .rdx = m.regs .rsi
  arg2 : h.regs .rcx = m.regs .rdx
  arg3 : h.regs .r8 = m.regs .r10
  arg4 : h.regs .r9 = m.regs .r8
  arg5 : h.mem.read (h.regs .rsp + 8) 64 = m.regs .r9

theorem handlerEntry_args (env : Env Callee) (m : Machine) :
    Transported m (handlerEntry env m) := by
  have hwords := handlerEntry_words env m
  have harg5 := (List.cons.inj (List.cons.inj hwords).2).1
  exact ⟨rfl, rfl, rfl, rfl, rfl, rfl, harg5⟩

-- ============================================================== the return

/-- The machine before `sysretq`. -/
def beforeSysret (env : Env Callee) (m : Machine) : Machine :=
  (handlerExit env m).popAll popOrder

section Return

variable {env : Env Callee} {m : Machine} (henv : Conforming env m)
include henv

theorem handlerExit_returns :
    Returns (callerFrame (handlerEntry env m)) (handlerEntry env m)
      (handlerExit env m) := henv _ (exec_setup env m)

theorem handlerExit_rsp :
    (handlerExit env m).regs .rsp = m.regs .rsp - 64 := by
  have h : (handlerExit env m).regs .rsp = (beforeCall m).regs .rsp :=
    (handlerExit_returns henv).rsp_eq
  rw [h, beforeCall_rsp]

/-- The saved registers are still on the stack. -/
theorem savedAfter_words :
    (handlerExit env m).mem.words (m.regs .rsp - 56) 7
      = saveOrder.reverse.map m.regs := by
  have hbase : (handlerEntry env m).regs .rsp + 16 = m.regs .rsp - 56 := by
    have h : (handlerEntry env m).regs .rsp = (beforeCall m).regs .rsp - 8 :=
      rfl
    rw [h, beforeCall_rsp]
    bv_omega
  have hentry : (handlerEntry env m).mem.words (m.regs .rsp - 56) 7
      = saveOrder.reverse.map m.regs := by
    have h := handlerEntry_words env m
    rw [Lib.words_append _ _ 2 7] at h
    have htail := congrArg (List.drop 2) h
    rw [List.drop_left' (Lib.length_words ..)] at htail
    rw [List.map_reverse, ← hbase]
    exact htail
  rw [← hentry]
  refine Lib.words_congr 7 (by decide) fun x hx => ?_
  apply (handlerExit_returns henv).frame x
  unfold callerFrame
  rw [hbase]
  exact hx

theorem exec_body :
    exec env syscallBody m = some (beforeSysret env m) := by
  unfold syscallBody
  rw [exec_append, exec_setup]
  show exec env (.call .syscallHandler :: syscallCleanup) (beforeCall m) = _
  rw [exec_call (handlerExit_returns henv)]
  have h := exec_pops env popOrder [] (handlerExit env m)
  exact h

theorem beforeSysret_rsp :
    (beforeSysret env m).regs .rsp = m.regs .rsp := by
  unfold beforeSysret
  rw [Machine.popAll_rsp _ _ (by decide), handlerExit_rsp henv]
  exact BitVec.sub_add_cancel ..

/-- Every register the stub saved comes back. -/
theorem beforeSysret_saved {r : Reg} (hr : r ∈ saveOrder) :
    (beforeSysret env m).regs r = m.regs r := by
  have hpops := Machine.popAll_regs popOrder
    (handlerExit env m) (by decide) (by decide)
  rw [handlerExit_rsp henv] at hpops
  have hstack : (handlerExit env m).mem.words (m.regs .rsp - 64 + 8) 7
      = saveOrder.reverse.map m.regs := by
    rw [← savedAfter_words henv]
    congr 1
    bv_omega
  have htail : saveOrder.reverse.map (beforeSysret env m).regs
      = saveOrder.reverse.map m.regs := by
    rw [← hstack]
    exact (List.cons.inj hpops).2
  exact List.map_inj_left.mp htail r (List.mem_reverse.mpr hr)

/-- `rbx` is the handler's to preserve. -/
theorem beforeSysret_rbx :
    (beforeSysret env m).regs .rbx = m.regs .rbx := by
  unfold beforeSysret
  rw [Machine.popAll_regs_of_notMem _ _ (by decide) (by decide)]
  have h := (handlerExit_returns henv).saved_eq (r := .rbx) (by decide)
  rw [h, beforeCall_regs m (by decide)]

end Return

/-- What the user gets back: the address and the flags to return with,
the stack pointer, and the callee-saved registers. -/
structure Restored (m m' : Machine) : Prop where
  rcx : m'.regs .rcx = m.regs .rcx
  r11 : m'.regs .r11 = m.regs .r11
  rsp : m'.regs .rsp = m.regs .rsp
  saved : ∀ r ∈ calleeSaved, m'.regs r = m.regs r

/-- Argument transport and return: from every register file and stack
pointer the stub calls the handler with the user's arguments, and
whatever a conforming handler does, the stub reaches `sysretq` with the
user's return address, flags, stack pointer and callee-saved
registers. -/
theorem syscall_transport (env : Env Callee) (m : Machine)
    (henv : Conforming env m) :
    (∃ c, exec env syscallSetup m = some c
      ∧ Transported m (env.entry .syscallHandler c))
    ∧ ∃ m', exec env syscallBody m = some m' ∧ Restored m m' := by
  refine ⟨⟨beforeCall m, exec_setup env m, handlerEntry_args env m⟩,
    beforeSysret env m, exec_body henv, ?_⟩
  refine ⟨beforeSysret_saved henv (by decide),
    beforeSysret_saved henv (by decide), beforeSysret_rsp henv, ?_⟩
  intro r hr
  by_cases hrbx : r = .rbx
  · subst hrbx
    exact beforeSysret_rbx henv
  · apply beforeSysret_saved henv
    revert hr hrbx
    revert r
    decide

-- ================================================= a handler that clobbers

/-- The least a conforming handler can do: it gives back nothing it does
not have to, and overwrites its stack argument. -/
def clobber (h : Machine) : Machine where
  regs r :=
    if r ∈ calleeSaved then h.regs r
    else if r = .rsp then h.regs .rsp + 8
    else 0xdead
  rip := h.mem.read (h.regs .rsp) 64
  cs := h.cs
  ss := h.ss
  rflags := h.rflags
  mem := h.mem.write (h.regs .rsp + 8) (0 : Word)

def clobberEnv : Env Callee where
  returnAddress _ := 0xffff800000001000
  body _ := clobber
  msrs := ⟨0x0023000800000000, 0xffff800000000f00, 0⟩

theorem clobber_conforming (m : Machine) : Conforming clobberEnv m := by
  intro c _
  refine ⟨fun r hr => if_pos hr, rfl, rfl, fun x hx => ?_⟩
  refine Lib.write_of_notMem fun hx' => ?_
  exact Lib.region_disjoint (j := 8) (k := 16) (by decide) (by decide) hx' hx

/-- A user about to write three bytes. -/
def userFile : Machine where
  regs
    | .rax => 1
    | .rdi => 1
    | .rsi => 0x100000
    | .rdx => 3
    | .rsp => 0x1fff00
    | _ => 7
  rip := 0x401000
  cs := 0x33
  ss := 0x2b
  rflags := 0x202
  mem _ := 0

theorem syscall_transport_clobbered :
    (∃ c, exec clobberEnv syscallSetup userFile = some c
      ∧ Transported userFile (clobberEnv.entry .syscallHandler c))
    ∧ ∃ m', exec clobberEnv syscallBody userFile = some m'
      ∧ Restored userFile m' :=
  syscall_transport clobberEnv userFile (clobber_conforming _)

-- ==================================================== what Linux preserves

/-- Every general register but `rax`, `rcx` and `r11` is as it was at the
`syscall` instruction. -/
def Preserved (m m' : Machine) : Prop :=
  ∀ r, r ∉ [Reg.rax, .rcx, .r11] → m'.regs r = m.regs r

/-- The registers of that list that the stub does not save. -/
def unsaved : List Reg := [.rdi, .rsi, .rdx, .r8, .r9, .r10]

theorem syscall_regs (m : Machine) (msrs : Msrs) {r : Reg}
    (hrcx : r ≠ .rcx) (hr11 : r ≠ .r11) :
    (m.syscall msrs).regs r = m.regs r :=
  (Machine.set_of_ne _ hr11 _).trans (Machine.set_of_ne _ hrcx _)

theorem systemCall_eq {env : Env Callee} {m : Machine}
    (henv : Conforming env (m.syscall env.msrs)) :
    systemCall env m
      = some ((beforeSysret env (m.syscall env.msrs)).sysretq env.msrs) := by
  unfold systemCall syscallEntry
  rw [exec_append, exec_body henv]
  rfl

/-- A register the stub does not save is the handler's. -/
theorem beforeSysret_unsaved (env : Env Callee) (m : Machine) {r : Reg}
    (hr : r ∈ unsaved) :
    (beforeSysret env m).regs r = (handlerExit env m).regs r := by
  refine Machine.popAll_regs_of_notMem popOrder _ ?_ ?_ <;>
    (revert hr; revert r; decide)

/-- The registers of a system call that the user finds unchanged: all
that Linux preserves, if and only if the handler itself returns with the
user's values in the six registers that the stub moves and does not
save. -/
theorem preserved_iff (env : Env Callee) (m : Machine)
    (henv : Conforming env (m.syscall env.msrs)) :
    ∃ m', systemCall env m = some m'
      ∧ (Preserved m m' ↔ ∀ r ∈ unsaved,
          (handlerExit env (m.syscall env.msrs)).regs r = m.regs r) := by
  refine ⟨_, systemCall_eq henv, ?_⟩
  constructor
  · intro h r hr
    rw [← beforeSysret_unsaved env _ hr]
    apply h r
    revert hr
    revert r
    decide
  · intro h r hr
    show (beforeSysret env (m.syscall env.msrs)).regs r = m.regs r
    have hne : r ≠ .rcx ∧ r ≠ .r11 := by
      simp only [List.mem_cons, List.not_mem_nil, or_false, not_or] at hr
      exact hr.2
    have hsys := syscall_regs m env.msrs hne.1 hne.2
    by_cases hunsaved : r ∈ unsaved
    · rw [beforeSysret_unsaved env _ hunsaved, h r hunsaved]
    by_cases hsaved : r ∈ saveOrder
    · rw [beforeSysret_saved henv hsaved, hsys]
    have hrest : r = .rsp ∨ r = .rbx := by
      clear hne hsys
      revert hr hunsaved hsaved
      cases r <;> decide
    rcases hrest with rfl | rfl
    · rw [beforeSysret_rsp henv, hsys]
    · rw [beforeSysret_rbx henv, hsys]

theorem preserved_iff_clobbered :
    ∃ m', systemCall clobberEnv userFile = some m'
      ∧ (Preserved userFile m' ↔ ∀ r ∈ unsaved,
          (handlerExit clobberEnv (userFile.syscall clobberEnv.msrs)).regs r
            = userFile.regs r) :=
  preserved_iff clobberEnv userFile (clobber_conforming _)

/-- The first argument of a call does not survive it. -/
theorem rdi_not_preserved :
    ¬ ∀ env m, Conforming env (m.syscall env.msrs) →
      ∀ m', systemCall env m = some m' → Preserved m m' := by
  intro h
  have hconf := clobber_conforming (userFile.syscall clobberEnv.msrs)
  have hpres := h clobberEnv userFile hconf _ (systemCall_eq hconf) .rdi
    (by decide)
  have hrdi := beforeSysret_unsaved clobberEnv
    (userFile.syscall clobberEnv.msrs) (r := .rdi) (by decide)
  have hdead : (0xdead : Word) = 1 := hrdi.symm.trans hpres
  exact absurd hdead (by decide)

end Bayos.Syscall
