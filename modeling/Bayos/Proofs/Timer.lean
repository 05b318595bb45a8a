/-
One run of the timer handler: where it saves the context it interrupts,
and which context it returns to.

# Saved contexts

`SavedAt mem a c` says that the 160 bytes from `a` on hold the context
`c`, in the layout the handler's pushes leave behind: fifteen registers,
then the frame that `iretq` takes. It is the same layout whether the
processor made the frame or the kernel built it by hand; a process that
is not running is nothing but such an `a`.
-/
import Bayos.Model.Timer
import Bayos.Proofs.Sched

namespace Bayos.Timer

open Lib (Word Mem region)
open Lib.X86

/-- The registers in the order of the handler's pushes. -/
def pushOrder : List Reg :=
  [.rax, .rcx, .rdx, .rbx, .rbp, .rsi, .rdi, .r8, .r9, .r10, .r11, .r12,
    .r13, .r14, .r15]

/-- The registers in the order of its pops. -/
def popOrder : List Reg := pushOrder.reverse

/-- The 160 bytes from `a` on hold the context `c`. -/
structure SavedAt (mem : Mem) (a : Word) (c : Context) : Prop where
  regs : mem.words a 15 = popOrder.map c.regs
  rip : mem.read (a + 120) 64 = c.rip
  cs : mem.read (a + 120 + 8) 16 = c.cs
  rflags : mem.read (a + 120 + 16) 64 = c.rflags
  rsp : mem.read (a + 120 + 24) 64 = c.regs .rsp
  ss : mem.read (a + 120 + 32) 16 = c.ss

/-- Whoever leaves the 160 bytes alone leaves the context saved. -/
theorem SavedAt.congr {m m' : Mem} {a : Word} {c : Context}
    (hsaved : SavedAt m a c) (h : ∀ x ∈ region a 160, m x = m' x) :
    SavedAt m' a c := by
  have hread : ∀ k w, k + Lib.bytesOf w ≤ 40 →
      m.read (a + 120 + BitVec.ofNat 64 k) w
        = m'.read (a + 120 + BitVec.ofNat 64 k) w := by
    intro k w hk
    refine Lib.read_congr_region (n := 40) (fun x hx => h x ?_)
      (by decide) hk
    exact Lib.region_subset (k := 120) (by decide) (by decide) hx
  have hregs : m.words a 15 = m'.words a 15 := by
    refine Lib.words_congr 15 (by decide) fun x hx => h x ?_
    rw [Lib.mem_region] at hx ⊢
    omega
  have hrip := hread 0 64 (by decide)
  rw [Lib.add_ofNat_zero] at hrip
  exact ⟨hregs ▸ hsaved.regs, hrip ▸ hsaved.rip,
    hread 8 16 (by decide) ▸ hsaved.cs,
    hread 16 64 (by decide) ▸ hsaved.rflags,
    hread 24 64 (by decide) ▸ hsaved.rsp,
    hread 32 16 (by decide) ▸ hsaved.ss⟩

-- ============================================================ the way back

/-- The pops and the return deliver the context that is saved where the
stack pointer stands. -/
theorem restore_saved {m : Machine} {c : Context}
    (h : SavedAt m.mem (m.regs .rsp) c) :
    (m.popAll popOrder).iretq.toContext = c := by
  have hrsp : (m.popAll popOrder).regs .rsp = m.regs .rsp + 120 :=
    Machine.popAll_rsp popOrder m (by decide)
  have hmem : (m.popAll popOrder).mem = m.mem := Machine.popAll_mem _ m
  have hregs : popOrder.map (m.popAll popOrder).regs
      = popOrder.map c.regs :=
    (Machine.popAll_regs popOrder m (by decide) (by decide)).trans h.regs
  refine Context.ext ?_ ?_ ?_ ?_ ?_
  · funext r
    show (if r = .rsp then (m.popAll popOrder).mem.read
      ((m.popAll popOrder).regs .rsp + 24) 64
      else (m.popAll popOrder).regs r) = c.regs r
    by_cases hr : r = .rsp
    · rw [if_pos hr, hrsp, hmem, hr]
      exact h.rsp
    · rw [if_neg hr]
      apply List.map_inj_left.mp hregs r
      clear hregs
      revert hr
      cases r <;> decide
  · show (m.popAll popOrder).mem.read ((m.popAll popOrder).regs .rsp) 64 = _
    rw [hrsp, hmem]
    exact h.rip
  · show (m.popAll popOrder).mem.read
      ((m.popAll popOrder).regs .rsp + 8) 16 = _
    rw [hrsp, hmem]
    exact h.cs
  · show (m.popAll popOrder).mem.read
      ((m.popAll popOrder).regs .rsp + 32) 16 = _
    rw [hrsp, hmem]
    exact h.ss
  · show (m.popAll popOrder).mem.read
      ((m.popAll popOrder).regs .rsp + 16) 64 = _
    rw [hrsp, hmem]
    exact h.rflags

-- ============================================================== the way in

section Handler

variable (gate : Gate) (m : Machine)

/-- The machine after the handler's pushes. -/
def afterSave : Machine :=
  (m.interrupt gate).pushWords (pushOrder.map (m.interrupt gate).regs)

/-- Where the interrupted context is saved. -/
def savedRsp : Word := m.interruptTop gate - 160

theorem length_interruptFrame : m.interruptFrame.length = 5 := rfl

theorem length_pushed (f : Reg → Word) :
    (pushOrder.map f).length = 15 := rfl

theorem interrupt_rsp :
    (m.interrupt gate).regs .rsp = m.interruptTop gate - 40 :=
  Machine.pushWords_rsp m.interruptFrame (m.set .rsp (m.interruptTop gate))

theorem interrupt_regs {r : Reg} (h : r ≠ .rsp) :
    (m.interrupt gate).regs r = m.regs r :=
  (Machine.pushWords_regs m.interruptFrame _ h).trans (m.set_of_ne h _)

theorem afterSave_rsp : (afterSave gate m).regs .rsp = savedRsp gate m := by
  unfold afterSave savedRsp
  rw [Machine.pushWords_rsp, interrupt_rsp, List.length_map]
  show m.interruptTop gate - 40 - 120 = m.interruptTop gate - 160
  bv_omega

theorem savedRsp_frame :
    savedRsp gate m + 120 = (m.interrupt gate).regs .rsp := by
  rw [interrupt_rsp]
  unfold savedRsp
  bv_omega

/-- The interrupt pushes its frame and nothing else is written. -/
theorem interrupt_mem {x : Word}
    (hx : x ∉ region (m.interruptTop gate - 40) 40) :
    (m.interrupt gate).mem x = m.mem x := by
  refine Machine.pushWords_mem m.interruptFrame
    (m.set .rsp (m.interruptTop gate))
    (by rw [length_interruptFrame]; decide) fun h => hx ?_
  have hrsp := interrupt_rsp gate m
  exact hrsp ▸ h

/-- Saving a context writes the 160 bytes it is saved in. -/
theorem afterSave_mem {x : Word} (hx : x ∉ region (savedRsp gate m) 160) :
    (afterSave gate m).mem x = m.mem x := by
  have hframe : x ∉ region (m.interruptTop gate - 40) 40 := by
    intro h
    rw [← interrupt_rsp, ← savedRsp_frame] at h
    exact hx (Lib.region_subset (k := 120) (by decide) (by decide) h)
  rw [← interrupt_mem gate m hframe]
  refine Machine.pushWords_mem _ (m.interrupt gate)
    (by rw [length_pushed]; decide) fun h => hx ?_
  have hrsp := afterSave_rsp gate m
  unfold afterSave at hrsp
  rw [hrsp, Lib.mem_region] at h
  rw [length_pushed] at h
  rw [Lib.mem_region]
  exact Nat.lt_of_lt_of_le h (by decide)

/-- The context that was interrupted is saved. -/
theorem afterSave_saved :
    SavedAt (afterSave gate m).mem (savedRsp gate m) m.toContext := by
  have hint : (m.interrupt gate).mem.words
      ((m.interrupt gate).regs .rsp) 5 = m.interruptFrame.reverse := by
    have h := Machine.words_pushWords m.interruptFrame
      (m.set .rsp (m.interruptTop gate)) (n := 0)
      (by rw [length_interruptFrame]; decide)
    exact h.trans (List.append_nil _)
  have hmap : pushOrder.map (m.interrupt gate).regs
      = pushOrder.map m.regs := by
    refine List.map_congr_left fun r hr => interrupt_regs gate m ?_
    intro h
    subst h
    revert hr
    decide
  have hall : (afterSave gate m).mem.words (savedRsp gate m) 20
      = popOrder.map m.regs ++ m.interruptFrame.reverse := by
    have h := Machine.words_pushWords
      (pushOrder.map (m.interrupt gate).regs) (m.interrupt gate) (n := 5)
      (by rw [length_pushed]; decide)
    rw [hint, hmap, ← List.map_reverse, List.length_map] at h
    rw [← afterSave_rsp]
    unfold afterSave
    rw [hmap]
    exact h
  rw [Lib.words_append _ _ 15 5] at hall
  obtain ⟨hregs, hframe⟩ := List.append_inj hall
    (by rw [Lib.length_words]; rfl)
  have hcs := Lib.read_of_words (k := 1) hframe rfl
  have hss := Lib.read_of_words (k := 4) hframe rfl
  refine ⟨hregs, ?_, ?_, Lib.read_of_words (k := 2) hframe rfl,
    Lib.read_of_words (k := 3) hframe rfl, ?_⟩
  · exact (List.cons.inj hframe).1
  · exact (Lib.setWidth_read _ _ (by decide)).symm.trans
      ((congrArg (BitVec.setWidth 16) hcs).trans
        (BitVec.setWidth_setWidth_of_le _ (by decide)))
  · exact (Lib.setWidth_read _ _ (by decide)).symm.trans
      ((congrArg (BitVec.setWidth 16) hss).trans
        (BitVec.setWidth_setWidth_of_le _ (by decide)))

end Handler

-- =========================================================== the whole run

/-- What the handler's callees do in a run that interrupts `m`: both
return, leaving `keep` and the saved context alone, and the second is
`schedule`, called on the process table `table` and leaving `table'`. -/
structure TimerCallees (env : Env Callee) (gate : Gate) (m : Machine)
    (keep : Set Word) (table table' : Sched.Table) : Prop where
  sendEoi : ∀ c, exec env timerSave (m.interrupt gate) = some c →
    Returns (keep ∪ region (c.regs .rsp) 160) (env.entry .sendEoi c)
      (env.body .sendEoi (env.entry .sendEoi c))
  schedule : ∀ c, exec env timerToSchedule (m.interrupt gate) = some c →
    Returns (keep ∪ region (c.regs .rsp) 160) (env.entry .schedule c)
        (env.body .schedule (env.entry .schedule c))
      ∧ Sched.Settles
          (Sched.schedule · ((env.entry .schedule c).regs .rdi) table)
          ((env.body .schedule (env.entry .schedule c)).regs .rax, table')

section Run

variable (env : Env Callee) (gate : Gate) (m : Machine)

/-- The machine after `send_eoi`. -/
def eoiExit : Machine :=
  env.body .sendEoi (env.entry .sendEoi (afterSave gate m))

/-- The machine before the call of `schedule`. -/
def beforeSchedule : Machine :=
  (eoiExit env gate m).set .rdi ((eoiExit env gate m).regs .rsp)

/-- The machine after `schedule`. -/
def scheduleExit : Machine :=
  env.body .schedule (env.entry .schedule (beforeSchedule env gate m))

/-- The machine after the stack is switched. -/
def switched : Machine :=
  (scheduleExit env gate m).set .rsp ((scheduleExit env gate m).regs .rax)

/-- The machine the handler returns to. -/
def resumed : Machine := ((switched env gate m).popAll popOrder).iretq

theorem exec_save :
    exec env timerSave (m.interrupt gate) = some (afterSave gate m) := by
  have h := exec_pushes env pushOrder [] (m.interrupt gate) (by decide)
  exact h

variable {env gate m} {keep : Set Word} {table table' : Sched.Table}

section Eoi

variable (heoi : Returns (keep ∪ region (savedRsp gate m) 160)
  (env.entry .sendEoi (afterSave gate m)) (eoiExit env gate m))
include heoi

theorem eoiExit_rsp :
    (eoiExit env gate m).regs .rsp = savedRsp gate m :=
  heoi.rsp_eq.trans (afterSave_rsp gate m)

theorem exec_toSchedule :
    exec env timerToSchedule (m.interrupt gate)
      = some (beforeSchedule env gate m) := by
  unfold timerToSchedule
  rw [exec_append, exec_save]
  show exec env [.call .sendEoi, .mov .rdi .rsp] (afterSave gate m) = _
  rw [exec_call heoi]
  rfl

theorem beforeSchedule_rsp :
    (beforeSchedule env gate m).regs .rsp = savedRsp gate m :=
  (Machine.set_of_ne _ (by decide) _).trans (eoiExit_rsp heoi)

/-- `schedule` is called with the address the context is saved at. -/
theorem schedule_rdi :
    (env.entry .schedule (beforeSchedule env gate m)).regs .rdi
      = savedRsp gate m := by
  rw [← eoiExit_rsp heoi]
  rfl

end Eoi

variable (hcallees : TimerCallees env gate m keep table table')
include hcallees

theorem eoiExit_returns :
    Returns (keep ∪ region (savedRsp gate m) 160)
      (env.entry .sendEoi (afterSave gate m)) (eoiExit env gate m) := by
  have h := hcallees.sendEoi _ (exec_save env gate m)
  rw [afterSave_rsp] at h
  exact h

theorem scheduleExit_returns :
    Returns (keep ∪ region (savedRsp gate m) 160)
      (env.entry .schedule (beforeSchedule env gate m))
      (scheduleExit env gate m) := by
  have heoi := eoiExit_returns hcallees
  have h := (hcallees.schedule _ (exec_toSchedule heoi)).1
  rw [beforeSchedule_rsp heoi] at h
  exact h

theorem schedule_settles :
    Sched.Settles (Sched.schedule · (savedRsp gate m) table)
      ((scheduleExit env gate m).regs .rax, table') := by
  have heoi := eoiExit_returns hcallees
  have h := (hcallees.schedule _ (exec_toSchedule heoi)).2
  rw [schedule_rdi heoi] at h
  exact h

/-- The handler comes to its end. -/
theorem exec_timer :
    exec env timerHandler (m.interrupt gate) = some (resumed env gate m) := by
  unfold timerHandler
  rw [exec_append, exec_toSchedule (eoiExit_returns hcallees)]
  show exec env (.call .schedule :: timerRestore)
    (beforeSchedule env gate m) = _
  rw [exec_call (scheduleExit_returns hcallees)]
  have h := exec_pops env popOrder [.iretq] (switched env gate m)
  exact h

/-- The handler keeps what its callees keep, but for the word above
which they return. -/
theorem switched_mem {x : Word}
    (hx : x ∈ keep ∪ region (savedRsp gate m) 160)
    (hout : x ∉ region (savedRsp gate m - 8) 8) :
    (switched env gate m).mem x = (afterSave gate m).mem x := by
  have heoi := (eoiExit_returns hcallees).frame x hx
  have hsched := (scheduleExit_returns hcallees).frame x hx
  have hcallEoi : (env.entry .sendEoi (afterSave gate m)).mem x
      = (afterSave gate m).mem x := by
    refine Lib.write_of_notMem (fun h => hout ?_)
    rw [afterSave_rsp] at h
    exact h
  have hcallSched : (env.entry .schedule (beforeSchedule env gate m)).mem x
      = (eoiExit env gate m).mem x := by
    refine Lib.write_of_notMem (fun h => hout ?_)
    rw [beforeSchedule_rsp (eoiExit_returns hcallees)] at h
    exact h
  calc (switched env gate m).mem x
      = (scheduleExit env gate m).mem x := rfl
    _ = (eoiExit env gate m).mem x := hsched.trans hcallSched
    _ = (afterSave gate m).mem x := heoi.trans hcallEoi

/-- When the stack is switched the interrupted context is still saved. -/
theorem switched_saved :
    SavedAt (switched env gate m).mem (savedRsp gate m) m.toContext := by
  refine (afterSave_saved gate m).congr fun x hx => ?_
  refine (switched_mem hcallees (Or.inr hx) fun h => ?_).symm
  refine Lib.region_disjoint (a := savedRsp gate m - 8) (j := 0) (k := 8)
    (n := 8) (l := 160) (by decide) (by decide) ?_ ?_ (x := x)
  · exact (BitVec.add_zero (savedRsp gate m - 8)).symm ▸ h
  · have hbase : savedRsp gate m - 8 + BitVec.ofNat 64 8
        = savedRsp gate m := BitVec.sub_add_cancel ..
    rw [hbase]
    exact hx

/-- Memory that the callees keep and the interrupt does not write. -/
theorem switched_kept {x : Word} (hx : x ∈ keep)
    (hout : x ∉ region (savedRsp gate m - 8) 168) :
    (switched env gate m).mem x = m.mem x := by
  have hcall : x ∉ region (savedRsp gate m - 8) 8 := by
    intro h
    rw [Lib.mem_region] at h hout
    omega
  have hsave : x ∉ region (savedRsp gate m) 160 := by
    intro h
    have hbase : savedRsp gate m - 8 + BitVec.ofNat 64 8
        = savedRsp gate m := BitVec.sub_add_cancel ..
    rw [← hbase] at h
    exact hout (Lib.region_subset (by decide) (by decide) h)
  rw [switched_mem hcallees (Or.inl hx) hcall]
  exact afterSave_mem gate m hsave

end Run

-- =========================================================== built by hand

/-- The context that returning through a frame delivers, with the given
values in the fifteen registers popped before. -/
def frameContext (f : InterruptStackFrameValue) (regs : Reg → Word) :
    Context where
  regs r := if r = .rsp then f.stackPointer else regs r
  rip := f.instructionPointer
  cs := f.codeSegment
  ss := f.stackSegment
  rflags := f.cpuFlags

/-- A frame is written in 40 bytes. -/
theorem writeFrame_mem {m : Mem} {a x : Word} (f : InterruptStackFrameValue)
    (hx : x ∉ region a 40) : writeFrame m a f x = m x := by
  have hout : ∀ k w, k + Lib.bytesOf w ≤ 40 →
      x ∉ region (a + BitVec.ofNat 64 k) (Lib.bytesOf w) := by
    intro k w hk h
    exact hx (Lib.region_subset hk (by decide) h)
  have h0 : x ∉ region a (Lib.bytesOf 64) := by
    have h := hout 0 64 (by decide)
    rw [Lib.add_ofNat_zero] at h
    exact h
  unfold writeFrame
  exact (Lib.write_of_notMem (hout 32 16 (by decide))).trans
    ((Lib.write_of_notMem (hout 24 64 (by decide))).trans
    ((Lib.write_of_notMem (hout 16 64 (by decide))).trans
    ((Lib.write_of_notMem (hout 8 16 (by decide))).trans
    (Lib.write_of_notMem h0))))

/-- A frame built by hand 120 bytes above `a` completes a saved context
there: it sits where the fifteen pops leave the stack pointer. -/
theorem writeFrame_saved {m : Mem} {a : Word} (f : InterruptStackFrameValue)
    {regs : Reg → Word} (hregs : m.words a 15 = popOrder.map regs) :
    SavedAt (writeFrame m (a + 120) f) a (frameContext f regs) := by
  have hskip : ∀ {w : Nat} (m : Mem) (v : BitVec w) (j k w' : Nat),
      k + Lib.bytesOf w' ≤ j → j + Lib.bytesOf w ≤ 40 →
      (m.write (a + 120 + BitVec.ofNat 64 j) v).read
          (a + 120 + BitVec.ofNat 64 k) w'
        = m.read (a + 120 + BitVec.ofNat 64 k) w' := by
    intro w m v j k w' h hj
    exact Lib.read_write_offset m _ v (by omega) (by omega) (Or.inr h)
  have hself : ∀ {w : Nat} (m : Mem) (b : Word) (v : BitVec w),
      w ≤ 2 ^ 64 → (m.write b v).read b w = v := by
    intro w m b v hw
    exact (Lib.read_write m b v (Nat.le_refl w) hw).trans
      (BitVec.setWidth_eq v)
  have hskip0 : ∀ {w : Nat} (m : Mem) (v : BitVec w) (j w' : Nat),
      Lib.bytesOf w' ≤ j → j + Lib.bytesOf w ≤ 40 →
      (m.write (a + 120 + BitVec.ofNat 64 j) v).read (a + 120) w'
        = m.read (a + 120) w' := by
    intro w m v j w' h hj
    have hread := hskip m v j 0 w' (by omega) hj
    rw [Lib.add_ofNat_zero] at hread
    exact hread
  have hmap : popOrder.map (frameContext f regs).regs = popOrder.map regs :=
    rfl
  refine ⟨?_, ?_, ?_, ?_, ?_, ?_⟩
  · rw [hmap, ← hregs]
    refine (Lib.words_congr 15 (by decide) fun x hx => ?_).symm
    refine (writeFrame_mem f fun hx' => ?_).symm
    refine Lib.region_disjoint (a := a) (j := 0) (k := 120) (n := 120)
      (l := 40) (by decide) (by decide) ?_ hx' (x := x)
    rw [Lib.add_ofNat_zero]
    exact hx
  · apply (hskip0 _ f.stackSegment 32 64 (by decide) (by decide)).trans
    apply (hskip0 _ f.stackPointer 24 64 (by decide) (by decide)).trans
    apply (hskip0 _ f.cpuFlags 16 64 (by decide) (by decide)).trans
    apply (hskip0 _ f.codeSegment 8 64 (by decide) (by decide)).trans
    exact hself m _ f.instructionPointer (by decide)
  · apply (hskip _ f.stackSegment 32 8 16 (by decide) (by decide)).trans
    apply (hskip _ f.stackPointer 24 8 16 (by decide) (by decide)).trans
    apply (hskip _ f.cpuFlags 16 8 16 (by decide) (by decide)).trans
    exact hself _ _ f.codeSegment (by decide)
  · apply (hskip _ f.stackSegment 32 16 64 (by decide) (by decide)).trans
    apply (hskip _ f.stackPointer 24 16 64 (by decide) (by decide)).trans
    exact hself _ _ f.cpuFlags (by decide)
  · apply (hskip _ f.stackSegment 32 24 64 (by decide) (by decide)).trans
    exact hself _ _ f.stackPointer (by decide)
  · exact hself _ _ f.stackSegment (by decide)

/-- The context a process made by `add_process` starts with. -/
def kernelContext (stack entry rflags : Word) : Context :=
  frameContext (kernelFrame stack entry rflags) fun _ => 0

/-- The context a process made by `add_user_process` starts with. -/
def userContext (entry rflags : Word) (regs : Reg → Word) : Context :=
  frameContext (userFrame entry rflags) regs

theorem withInterruptFlag_set (rflags : Word) :
    withInterruptFlag rflags &&& interruptFlag = interruptFlag := by
  unfold withInterruptFlag
  refine BitVec.eq_of_getLsbD_eq fun i _ => ?_
  rw [BitVec.getLsbD_and, BitVec.getLsbD_or]
  cases interruptFlag.getLsbD i <;> simp

theorem kernelStack_saved (m : Mem) (stack entry rflags : Word) :
    SavedAt (writeKernelStack m stack entry rflags) stack
      (kernelContext stack entry rflags) := by
  apply writeFrame_saved _
  have hzeros : popOrder.map (fun _ : Reg => (0 : Word))
      = List.replicate 15 0 := rfl
  rw [hzeros]
  refine Lib.words_zero (by decide) fun x hx => if_pos ?_
  rw [Lib.mem_region] at hx ⊢
  exact Nat.lt_trans hx (by decide)

/-- `add_process` writes nothing but the new stack. -/
theorem kernelStack_mem {m : Mem} {stack x : Word} (entry rflags : Word)
    (hx : x ∉ region stack 0x4000) :
    writeKernelStack m stack entry rflags x = m x := by
  have hframe : x ∉ region (stack + 120) 40 := fun h =>
    hx (Lib.region_subset (k := 120) (by decide) (by decide) h)
  exact (writeFrame_mem _ hframe).trans (if_neg hx)

theorem userStack_saved {m : Mem} {regs : Reg → Word} (entry rflags : Word)
    (hregs : m.words (Sched.userStack + 8) 15 = popOrder.map regs) :
    SavedAt (writeUserStack m entry rflags) (Sched.userStack + 8)
      (userContext entry rflags regs) := by
  have hframe : Sched.userStack + 120 + 8 = Sched.userStack + 8 + 120 := by
    decide
  have h := writeFrame_saved (userFrame entry rflags) hregs
  unfold writeUserStack
  rw [hframe]
  refine h.congr fun x hx => (Lib.write_of_notMem fun hx' => ?_).symm
  -- the thread control block's word is right below the saved context
  exact Lib.region_disjoint (a := Sched.userStack) (j := 0) (k := 8)
    (by decide) (by decide) hx' hx

/-- `add_user_process` writes nothing but the upper part of the new
stack. -/
theorem userStack_mem {m : Mem} {x : Word} (entry rflags : Word)
    (hx : x ∉ region Sched.userStack 0x4000) :
    writeUserStack m entry rflags x = m x := by
  have htcb : x ∉ region Sched.userStack 8 := by
    intro h
    rw [Lib.mem_region] at h hx
    omega
  have hframe : x ∉ region (Sched.userStack + 120 + 8) 40 := by
    intro h
    refine hx (Lib.region_subset (k := 128) (n := 40) (by decide)
      (by decide) ?_)
    exact h
  exact (Lib.write_of_notMem htcb).trans (writeFrame_mem _ hframe)

end Bayos.Timer
