/-
The registers that the stub of system calls saves. They lie on the
process's own stack while the handler runs, and what comes back to the
process is what is there when the handler is done.

# Below the stack pointer

Compiled code may keep values in the bytes below its stack pointer as
long as it calls nobody. A system call is not a call to the compiler, and
the stub pushes there: the seven words right below the stack pointer are
the saved registers afterwards (`red_zone_kept_iff`).

# In reach of a pointer

Nothing keeps the pointer of a call away from that stack. The word that
`anon_allocate_syscall` stores through it is the end of the pages the
process has been given, and stored over the saved flags it is the flags
the process goes on with (`flags_from_ranges_end`). It is the address of
a page, so interrupts are off; and its two lowest page bits are the I/O
privilege level.
-/
import Mathlib.Data.Nat.Bitwise
import Bayos.Proofs.Process
import Bayos.Proofs.Refusal

namespace Bayos.Entry

open Lib (Word Mem region)
open Lib.Paging
open Lib.X86
open Bayos.Boot (OffsetPageTable Requests Relies setUpMemory booted
  isolated_run)
open Bayos.Memory (MemoryRegions BitmapAllocator numbering)
open Kernel (State PageMapper PhysMemory Console CanStore place view zeroes
  syscallHandler sparingSys Alone)
open Syscall (Callee systemCall syscallEntry handlerEntry handlerExit
  beforeSysret popOrder callerFrame)

variable {PT : Type} {M : PageMapper PT} {debug : Bool} {depth : Nat}
  {env : Env Callee} {m : Machine} {c c' : Console} {k k' : State PT}

-- ======================================================= the words it pops

/-- A handler that comes back, whatever it does to its caller's frame. -/
theorem systemCall_of_returns
    (h : Returns ∅ (called env m)
      (env.body .syscallHandler (called env m))) :
    systemCall env m
      = some ((beforeSysret env (m.syscall env.msrs)).sysretq env.msrs) := by
  have hcall : exec env
      (.call .syscallHandler :: (Syscall.syscallCleanup ++ [.sysretq]))
      (Syscall.beforeCall (m.syscall env.msrs))
      = exec env (Syscall.syscallCleanup ++ [.sysretq])
        (handlerExit env (m.syscall env.msrs)) := exec_call h _
  have hpops := exec_pops env popOrder [.sysretq]
    (handlerExit env (m.syscall env.msrs))
  unfold systemCall syscallEntry Syscall.syscallBody
  rw [List.append_assoc, exec_append, Syscall.exec_setup]
  exact hcall.trans hpops

/-- A register that is popped is the word of its slot. -/
theorem popped_slot
    (h : Returns ∅ (called env m) (env.body .syscallHandler (called env m)))
    {j : Nat} {r : Reg} (hj : popOrder[j]? = some r) :
    (beforeSysret env (m.syscall env.msrs)).regs r
      = (env.body .syscallHandler (called env m)).mem.read
          ((called env m).regs .rsp + BitVec.ofNat 64 (8 * (j + 1))) 64 := by
  have hpops := Machine.popAll_regs popOrder
    (handlerExit env (m.syscall env.msrs)) (by decide) (by decide)
  have hrsp : (handlerExit env (m.syscall env.msrs)).regs .rsp
      = (called env m).regs .rsp + 8 := h.rsp
  have hget : (popOrder.map (beforeSysret env (m.syscall env.msrs)).regs)[j]?
      = some ((beforeSysret env (m.syscall env.msrs)).regs r) := by
    rw [List.getElem?_map, hj]
    rfl
  have hread := Lib.read_of_words hpops.symm hget
  have haddr : (called env m).regs .rsp + 8 + BitVec.ofNat 64 (8 * j)
      = (called env m).regs .rsp + BitVec.ofNat 64 (8 * (j + 1)) := by
    rw [BitVec.add_assoc, Nat.mul_succ, Nat.add_comm, BitVec.ofNat_add]
    rfl
  rw [hrsp, haddr] at hread
  exact hread.symm

/-- The slot of a register when the handler starts. -/
theorem pushed_slot (env : Env Callee) (m : Machine) {j : Nat} {r : Reg}
    (hj : popOrder[j + 1]? = some r) :
    (called env m).mem.read
        ((called env m).regs .rsp + BitVec.ofNat 64 (8 * (j + 2))) 64
      = (m.syscall env.msrs).regs r := by
  refine Lib.read_of_words (Syscall.handlerEntry_words env _) ?_
  have hr : Syscall.saveOrder.reverse[j]? = some r := hj
  rw [← List.map_reverse, List.getElem?_cons_succ, List.getElem?_cons_succ,
    List.getElem?_map, hr]
  rfl

-- ===================================================== a pointer into them

section Reach

variable (hlaws : M.Laws BitmapAllocator.allocateFrame)
  (hnum : (numbering k.frames.memoryMap).Nodup)
  (halone : Alone M k.table {x | UserAddr M k.table x})
  (hstack : HasStack M depth k m) (hspares : Spares M k m)
  (hagree : Agrees M m k) (hrax : m.regs .rax = 2)
  (hrsi : m.regs .rsi = m.regs .rsp - 48)
  (hrun : Handles M debug depth c k (called env m)
    (env.body .syscallHandler (called env m)) c' k')

include hrax hrsi in
/-- The pointer names the word that `r11` is saved in. -/
theorem named_flags (env : Env Callee) :
    named m = region ((called env m).regs .rsp + 24) 8 := by
  have haddr : (called env m).regs .rsp + 24 = m.regs .rsp - 48 := by
    rw [called_rsp]
    bv_omega
  unfold named Kernel.pointerRange
  rw [hrax, hrsi, haddr]
  rfl

include hlaws hnum halone hstack hspares hagree hrax hrsi hrun in
/-- What the call leaves of the nine words of the stub: all but the stack
argument and the flags. -/
theorem slot_kept {j : Nat} (hj : j < 9) (harg : j ≠ 1) (hflags : j ≠ 3) :
    (env.body .syscallHandler (called env m)).mem.read
        ((called env m).regs .rsp + BitVec.ofNat 64 (8 * j)) 64
      = (called env m).mem.read
        ((called env m).regs .rsp + BitVec.ofNat 64 (8 * j)) 64 := by
  have hdepth := depth_small hstack.stack
  have hnamed := named_flags hrax hrsi env
  have hframe : ∀ x ∈ region ((called env m).regs .rsp) 72,
      x ∈ stackUsed depth m := fun x hx => frame_used env hdepth hx
  refine Lib.read_congr fun i hi => ?_
  have hword : i < 8 := hi
  have hoff : ((called env m).regs .rsp + BitVec.ofNat 64 (8 * j)
      + BitVec.ofNat 64 i - (called env m).regs .rsp).toNat = 8 * j + i := by
    rw [BitVec.add_assoc, ← BitVec.ofNat_add, BitVec.add_comm,
      BitVec.add_sub_cancel, BitVec.toNat_ofNat]
    exact Nat.mod_eq_of_lt (by omega)
  have hin : (called env m).regs .rsp + BitVec.ofNat 64 (8 * j)
      + BitVec.ofNat 64 i ∈ region ((called env m).regs .rsp) 72 := by
    rw [Lib.mem_region, hoff]
    omega
  generalize hx : (called env m).regs .rsp + BitVec.ofNat 64 (8 * j)
    + BitVec.ofNat 64 i = x at hoff hin
  refine handler_mem hlaws hnum halone hstack hspares ?_ hagree hrun
    (hframe _ hin) (frame_kept hdepth ?_) ?_
  · intro y hy
    rw [hnamed] at hy
    exact hstack.stack y (hframe y (Lib.region_subset (k := 24) (by omega)
      (by decide) hy))
  · unfold callerFrame
    simp only [Lib.mem_region]
    by_cases hret : j = 0
    · exact .inl (by omega)
    · exact .inr (by bv_omega)
  · rw [hnamed, Lib.mem_region]
    bv_omega

include hlaws hnum halone hstack hspares hrax hrsi hrun in
/-- What the call leaves of the flags: the end of the pages that the
process has. -/
theorem flags_slot {k₀ : State PT} {es : List Kernel.Event}
    (hreach : (sparingSys M debug k₀).Run es k) :
    k.rangesEnd % 4096 = 0 ∧ k.rangesEnd < 2 ^ 64
      ∧ (env.body .syscallHandler (called env m)).mem.read
          ((called env m).regs .rsp + 24) 64
        = BitVec.ofNat 64 k.rangesEnd := by
  have hdepth := depth_small hstack.stack
  have hslot : (called env m).regs .rsp + 24 = m.regs .rsi := by
    rw [called_rsp, hrsi]
    bv_omega
  obtain ⟨ks, k₁, hstub, hcall, hk', hsame⟩ := hrun.runs
  obtain ⟨hrdi, hargs, hrdx, -⟩ := called_args env m
  have hks : ks = { k with phys := ks.phys } := by
    rw [stub_eq hstack hstub]
  have hsched : ks.sched = k.sched := by rw [hks]
  have hcallSpares := stub_spares hstack hspares hstub
  have hanon : Kernel.anonAllocateSyscall M debug (m.regs .rdi)
      (m.regs .rsi) ks = .ok ((), k₁) := by
    rcases syscall_effect hcall with ⟨-, -, h⟩ | ⟨h, -⟩
    · rw [hargs, hrdx] at h
      exact h
    · rw [hrdi] at h
      exact absurd hrax h
  rw [hrdi, hargs, hrdx] at hcallSpares
  obtain ⟨-, proc, pages, r, ps, s, n, hgrants, hk₁⟩ :=
    (Kernel.anon_ok (hcallSpares.anon hrax)).mp hanon
  have hcurrent := hgrants.current
  rw [hsched] at hcurrent
  obtain ⟨a, -, hlast, hpages, hend⟩ :=
    (Kernel.userInv_run hlaws hreach).rangesEnd hcurrent hgrants.mapper
  obtain rfl := Option.some.inj (hgrants.owned.symm.trans hpages)
  have hread : (view M k₁).read (m.regs .rsi) 64
      = BitVec.ofNat 64 (4096 * a) := by
    rw [hk₁]
    exact Kernel.read_stored hgrants.stores
  unfold PageRangeInclusive.lastUser at hlast
  refine ⟨by omega, by omega, ?_⟩
  rw [hend, ← hread, ← hslot]
  refine Lib.read_congr fun i hi => ?_
  have hin : (called env m).regs .rsp + 24 + BitVec.ofNat 64 i
      ∈ region ((called env m).regs .rsp + 24) 8 :=
    Lib.add_mem_region hi (by decide)
  generalize (called env m).regs .rsp + 24 + BitVec.ofNat 64 i = x at hin
  have hused : x ∈ stackUsed depth m :=
    frame_used env hdepth (Lib.region_subset (k := 24) (by omega)
      (by decide) hin)
  have hown : x ∉ ownStack depth (called env m) := by
    refine frame_kept hdepth (.inr ?_)
    unfold callerFrame
    rw [Lib.mem_region] at hin ⊢
    bv_omega
  obtain ⟨p, hp, -⟩ := hstack.stack x hused
  obtain ⟨hp₁, hview⟩ := exit_view hlaws hnum halone hstack hspares hstub
    hcall hk' hsame hrun.mem hused hown hp
  rw [hview]
  simp only [Kernel.view, hp₁]

include hlaws hnum halone hstack hspares hagree hrax hrsi hrun in
/-- The handler comes back, and of the registers that the stub pops only
`rax` and `r11` are not as they were pushed. -/
theorem flags_alone :
    Returns ∅ (called env m) (env.body .syscallHandler (called env m))
      ∧ ∀ j r, popOrder[j + 1]? = some r → j ≠ 1 →
        (beforeSysret env (m.syscall env.msrs)).regs r
          = (m.syscall env.msrs).regs r := by
  have hkept : ∀ {j : Nat}, j < 9 → j ≠ 1 → j ≠ 3 → _ := fun h₁ h₂ h₃ =>
    slot_kept hlaws hnum halone hstack hspares hagree hrax hrsi hrun h₁ h₂ h₃
  have hreturns : Returns ∅ (called env m)
      (env.body .syscallHandler (called env m)) := by
    refine ⟨hrun.saved, hrun.rsp, ?_, fun _ hx => absurd hx (by simp)⟩
    have hret := hkept (j := 0) (by omega) (by omega) (by omega)
    rw [Nat.mul_zero, Lib.add_ofNat_zero] at hret
    exact hrun.rip.trans hret
  refine ⟨hreturns, fun j r hj hne => ?_⟩
  have hlt : j + 1 < 8 := (List.getElem?_eq_some_iff.mp hj).1
  rw [popped_slot hreturns hj, hkept (by omega) (by omega) (by omega)]
  exact pushed_slot env m hj

end Reach

/-- The I/O privilege level. -/
def ioPrivilege (m : Machine) : Nat := (m.rflags.extractLsb' 12 2).toNat

/-- `sysretq` takes the interrupt flag as it finds it. -/
theorem sysretq_interruptFlag (msrs : Msrs) (m : Machine) :
    (m.sysretq msrs).rflags &&& interruptFlag
      = m.regs .r11 &&& interruptFlag := by
  have hkept : (0x3c7fd7 : Word) &&& interruptFlag = interruptFlag := by
    decide
  have hset : (2 : Word) &&& interruptFlag = 0 := by decide
  show ((m.regs .r11 &&& 0x3c7fd7) ||| 2) &&& interruptFlag = _
  rw [BitVec.and_comm, BitVec.and_or_distrib_left, BitVec.and_comm _ 2,
    hset, BitVec.and_comm, BitVec.and_assoc, hkept]
  exact BitVec.or_zero

/-- And the I/O privilege level. -/
theorem sysretq_ioPrivilege (msrs : Msrs) (m : Machine) :
    ioPrivilege (m.sysretq msrs)
      = (m.regs .r11).toNat / 4096 % 4 := by
  have hkept : (0x3c7fd7 : Word).extractLsb' 12 2 = BitVec.allOnes 2 := by
    decide
  have hset : (2 : Word).extractLsb' 12 2 = 0 := by decide
  have hflags : (m.sysretq msrs).rflags.extractLsb' 12 2
      = (m.regs .r11).extractLsb' 12 2 := by
    show ((m.regs .r11 &&& 0x3c7fd7) ||| 2).extractLsb' 12 2 = _
    rw [BitVec.extractLsb'_or, BitVec.extractLsb'_and, hkept, hset,
      BitVec.and_allOnes]
    exact BitVec.or_zero
  unfold ioPrivilege
  rw [hflags, BitVec.extractLsb'_toNat, Nat.shiftRight_eq_div_pow]

/-- The address of a page has the interrupt flag clear. -/
theorem page_interruptFlag {e : Nat} (h : e % 4096 = 0) :
    BitVec.ofNat 64 e &&& interruptFlag = 0 := by
  have hbit : e % 2 ^ 64 / 2 ^ 9 % 2 = 0 := by omega
  refine BitVec.eq_of_toNat_eq ?_
  rw [BitVec.toNat_and, BitVec.toNat_ofNat]
  show e % 2 ^ 64 &&& 2 ^ 9 = 0
  rw [Nat.and_two_pow, Nat.testBit_eq_decide_div_mod_eq, hbit]
  rfl

variable {O : OffsetPageTable PT} {mm : MemoryRegions}
  {requests : Requests} {table table₀ : PT}
  {heap : Bayos.Allocator.LinkedListAllocator} {frames₀ : BitmapAllocator}

/-- In every state after boot a process whose call of
`anon_allocate_syscall` completes, with its pointer at the word of the
flags on a stack of its own, goes on at its next instruction with its
stack pointer and the registers of its callers, and with the end of its
pages for flags: so with interrupts off, and with the I/O privilege that
the number of its pages makes. -/
theorem flags_from_ranges_end (h : Relies O mm table)
    (hset : setUpMemory O requests mm table = .ok (table₀, heap, frames₀))
    (phys : PhysMemory PT) (debug : Bool) (depth : Nat)
    {es : List Kernel.Event}
    (hreach : (sparingSys O.later debug (booted table₀ frames₀ phys)).Run es
      k) (hagree : Agrees O.later m k)
    (hstack : HasStack O.later depth k m) (hspares : Spares O.later k m)
    (hrax : m.regs .rax = 2) (hrsi : m.regs .rsi = m.regs .rsp - 48)
    (hrun : Handles O.later debug depth c k (called env m)
      (env.body .syscallHandler (called env m)) c' k') :
    ∃ m', systemCall env m = some m' ∧ m'.rip = m.rip
      ∧ m'.regs .rsp = m.regs .rsp
      ∧ (∀ r ∈ calleeSaved, m'.regs r = m.regs r)
      ∧ m'.rflags = (BitVec.ofNat 64 k.rangesEnd &&& 0x3c7fd7) ||| 2
      ∧ m'.rflags &&& interruptFlag = 0
      ∧ ioPrivilege m' = k.rangesEnd / 4096 % 4 := by
  have hnum := booted_numbering h hset phys hreach
  have halone := user_alone (isolated_run h hset phys hreach).single
  obtain ⟨hreturns, hsaved⟩ :=
    flags_alone h.later hnum halone hstack hspares hagree hrax hrsi hrun
  obtain ⟨hpage, hsmall, hflags⟩ :=
    flags_slot h.later hnum halone hstack hspares hrax hrsi hrun hreach
  have hr11 : (beforeSysret env (m.syscall env.msrs)).regs .r11
      = BitVec.ofNat 64 k.rangesEnd := by
    have hpop := popped_slot hreturns (j := 2) (r := .r11) rfl
    rw [hpop]
    exact hflags
  have huser : ∀ r, r ≠ .rcx → r ≠ .r11 →
      (m.syscall env.msrs).regs r = m.regs r :=
    fun r h₁ h₂ => Syscall.syscall_regs m _ h₁ h₂
  refine ⟨_, systemCall_of_returns hreturns, ?_, ?_, ?_, ?_, ?_, ?_⟩
  · exact hsaved 0 .rcx rfl (by omega)
  · have hrsp : (handlerExit env (m.syscall env.msrs)).regs .rsp
        = (called env m).regs .rsp + 8 := hreturns.rsp
    show (beforeSysret env (m.syscall env.msrs)).regs .rsp = _
    unfold beforeSysret
    rw [Machine.popAll_rsp _ _ (by decide), hrsp, called_rsp]
    exact (by bv_omega : m.regs .rsp - 72 + 8 + 64 = m.regs .rsp)
  · intro r hr
    show (beforeSysret env (m.syscall env.msrs)).regs r = _
    have hpopped : ∀ j, popOrder[j + 1]? = some r → j ≠ 1 → r ≠ .rcx →
        r ≠ .r11 → (beforeSysret env (m.syscall env.msrs)).regs r
          = m.regs r := fun j hj hne h₁ h₂ =>
      (hsaved j r hj hne).trans (huser r h₁ h₂)
    simp only [calleeSaved, List.mem_cons, List.not_mem_nil, or_false] at hr
    rcases hr with rfl | rfl | rfl | rfl | rfl | rfl
    · -- `rbx` is the handler's to preserve
      have hrbx := hrun.saved .rbx (by simp [calleeSaved])
      unfold beforeSysret
      rw [Machine.popAll_regs_of_notMem _ _ (by decide) (by decide)]
      refine hrbx.trans ?_
      refine (Machine.push_regs_of_ne _ _ (by decide)).trans ?_
      rw [Syscall.beforeCall_regs _ (by decide)]
      exact huser _ (by decide) (by decide)
    · exact hpopped 6 rfl (by omega) (by decide) (by decide)
    · exact hpopped 2 rfl (by omega) (by decide) (by decide)
    · exact hpopped 3 rfl (by omega) (by decide) (by decide)
    · exact hpopped 4 rfl (by omega) (by decide) (by decide)
    · exact hpopped 5 rfl (by omega) (by decide) (by decide)
  · show ((beforeSysret env (m.syscall env.msrs)).regs .r11 &&& 0x3c7fd7)
      ||| 2 = _
    rw [hr11]
  · rw [sysretq_interruptFlag, hr11]
    exact page_interruptFlag hpage
  · rw [sysretq_ioPrivilege, hr11, BitVec.toNat_ofNat,
      Nat.mod_eq_of_lt hsmall]

/-- A handler that stores a word where its third argument says, and
returns. -/
def storing (v : Word) (h : Machine) : Machine :=
  { returnValue 0 h with mem := h.mem.write (h.regs .rdx) v }

/-- It is the kernel's for a request of no bytes. -/
theorem storing_handles {a : Nat} {proc : Sched.Process}
    (halone : Alone M k.table {x | UserAddr M k.table x})
    (hhosts : Hosts M k) (hrsp : m.regs .rsp = 0x200000)
    (hagree : Agrees M m k) (hrax : m.regs .rax = 2)
    (hrdi : m.regs .rdi = 0) (hrsi : m.regs .rsi = m.regs .rsp - 48)
    (hfree : Kernel.LocksFree k)
    (hproc : k.sched.processList[k.sched.currentProcess]? = some proc)
    (howned : proc.pages = some (BitVec.ofNat 64 (4096 * a)))
    (hmapper : proc.mapper.isSome = true) (ha : 0 < a)
    (hlast : a < PageRangeInclusive.lastUser) (debug : Bool) :
    ∃ k', Handles M debug 0 c k (called env m)
      (storing (BitVec.ofNat 64 (4096 * a)) (called env m)) c k' := by
  have hstack : HasStack M 0 k m := caller_hasStack hhosts hrsp
  have hused : ∀ x ∈ region ((called env m).regs .rsp) 72,
      UserAddr M k.table x ∧ CanStore M k.table x := fun x hx =>
    hhosts.stack x (caller_stack hrsp
      (frame_used env (depth_small hstack.stack) hx))
  have hbytes : ∀ i < 72, CanStore M k.table
      ((called env m).regs .rsp + BitVec.ofNat 64 i) := fun i hi =>
    (hused _ (Lib.add_mem_region hi (by decide))).2
  let k₀ : State PT := { k with
    phys := place M k.table k.phys ((called env m).regs .rsp)
      (frameBytes (called env m)) }
  have hstub : Kernel.storeBytes M ((called env m).regs .rsp)
      (frameBytes (called env m)) k = .ok ((), k₀) :=
    (stub_ok hstack).mpr ⟨hbytes, rfl⟩
  obtain ⟨hindex, hsize, hptr, -⟩ := called_args env m
  have hslot : ∀ i < 8, UserAddr M k.table
        ((called env m).regs .rdx + BitVec.ofNat 64 i)
      ∧ CanStore M k.table
        ((called env m).regs .rdx + BitVec.ofNat 64 i) := by
    intro i hi
    have haddr : (called env m).regs .rdx = (called env m).regs .rsp
        + BitVec.ofNat 64 24 := by
      rw [hptr, hrsi, called_rsp]
      bv_omega
    have hin := Lib.region_subset (a := (called env m).regs .rsp) (k := 24)
      (n := 8) (l := 72) (by omega) (by decide)
      (Lib.add_mem_region hi (by decide))
    rw [haddr]
    exact hused _ hin
  have hcheck : Kernel.checkPointer debug ((called env m).regs .rdx)
      = .ok () := by
    rw [hptr, hrsi, hrsp]
    cases debug <;> decide
  have hfits : Kernel.Fits a (0 : Word).toNat :=
    Nat.mul_le_mul_left 4096 hlast.le
  let k₁ := Kernel.granted M k₀ k₀.space ((called env m).regs .rdx)
    (BitVec.ofNat 64 (4096 * a)) 0
  have hanon : Kernel.anonAllocateSyscall M debug 0
      ((called env m).regs .rdx) k₀ = .ok ((), k₁) :=
    (Kernel.anon_granted_iff (k := k₀) hproc howned hmapper ha hlast.le
      (Kernel.harmless_zeroes (k := k₀) hhosts.own _ _)).mpr
      ⟨⟨hfree.sched, hfree.mapper, hfree.frames⟩, hfits, hcheck, k₀.space,
        .nil, fun i hi => (hslot i hi).2, rfl⟩
  have hreturns := returnValue_returns ∅ 0 (called env m)
  refine ⟨k₁, ⟨k₀, k₁, hstub, ?_, rfl, fun _ _ => rfl⟩, hreturns.saved,
    hreturns.rsp, ?_, ?_⟩
  · rw [hindex, hrax, hsize, hrdi]
    exact Kernel.bind_ok.mpr ⟨(), k₁, hanon, rfl⟩
  · -- the return address is not where the word goes
    refine Lib.read_congr fun i hi => (Lib.write_of_notMem fun hin => ?_).symm
    have hword : i < 8 := hi
    rw [hptr, hrsi, called_rsp, Lib.mem_region] at hin
    unfold Lib.bytesOf at hin
    bv_omega
  · intro x hx
    have hseen : Kernel.seen M k.table (place M k.table k₀.phys
          ((called env m).regs .rdx)
          (Kernel.bytesOfValue (BitVec.ofNat 64 (4096 * a)))) x
        = (Kernel.seen M k.table k₀.phys).write ((called env m).regs .rdx)
          (BitVec.ofNat 64 (4096 * a)) x :=
      Kernel.seen_placeValue halone hx (by decide) hslot
    refine Eq.trans ?_ hseen.symm
    have hold : (called env m).mem x = view M k₀ x :=
      (stub_agrees halone hstack hagree hstub hx).symm
    show (called env m).mem.write _ _ x = Mem.write _ _ _ x
    unfold Mem.write
    rw [hold]
    rfl

/-- A process at the top of its stack that asks for no memory, with the
answer to go where its flags are saved. -/
def asker (mem : Mem) : Machine where
  regs
    | .rax => 2
    | .rsi => 0x1fffd0
    | .rsp => 0x200000
    | _ => 0
  rip := 0x400000
  cs := 0x33
  ss := 0x2b
  rflags := 0x202
  mem := mem

def askerEnv : Env Callee where
  returnAddress _ := 0xffffffff80001000
  body _ := storing (BitVec.ofNat 64 (4096 * 0x100000))
  msrs := ⟨0, 0, 0⟩

/-- Its interrupts were on, and are off. -/
theorem flags_from_ranges_end_asker : ∃ (mem : Mem) (m' : Machine),
    systemCall askerEnv (asker mem) = some m' ∧ m'.rip = (asker mem).rip
      ∧ (asker mem).rflags &&& interruptFlag = interruptFlag
      ∧ m'.rflags &&& interruptFlag = 0 := by
  obtain ⟨table₀, heap, frames₀, es, k, hset, hrun, hsched, hmapper, hframes,
    hhosts⟩ := loaded_machine
  -- a tick, and the process that was loaded is the current one
  let k₁ : State (Tables Bayos.Memory.PhysFrame) :=
    { k with sched := Sched.ticked Kernel.smallSched 0x9000 }
  have hinv : Sched.TableInv Kernel.smallSched :=
    Sched.tableInv_push (p := Sched.userProcess 0) Sched.tableInv_init rfl
  have htick : (sparingSys Boot.plainTable.later true
      (booted table₀ frames₀ zeroes)).Run
      (es ++ [.tick 0x9000 (Sched.userStack + 8)]) k₁ := by
    refine hrun.step ⟨⟨Sched.ticked Kernel.smallSched 0x9000, ?_, rfl⟩,
      trivial⟩
    rw [hsched]
    exact Sched.tick_settles (p := Sched.bootProcess)
      (q := Sched.userProcess 0) hinv 0x9000 rfl (by simp [Sched.bootProcess])
      rfl
  have halone :=
    user_alone (isolated_run Boot.plain_relies hset _ htick).single
  let m : Machine := asker (view Boot.plainTable.later k₁)
  have hhosts₁ : Hosts Boot.plainTable.later k₁ :=
    ⟨hhosts.stack, hhosts.own⟩
  have hrsi : m.regs .rsi = m.regs .rsp - 48 :=
    (by decide : (0x1fffd0 : Word) = 0x200000 - 48)
  have hproc : k₁.sched.processList[k₁.sched.currentProcess]?
      = some (Sched.userProcess 0).resumed := rfl
  obtain ⟨k', hhandles⟩ : ∃ k', Handles Boot.plainTable.later true 0
      ⟨[], [], false⟩ k₁ (called askerEnv m)
      (storing (BitVec.ofNat 64 (4096 * 0x100000)) (called askerEnv m))
      ⟨[], [], false⟩ k' :=
    storing_handles halone hhosts₁ rfl (fun _ _ => rfl) rfl rfl hrsi
      ⟨⟨rfl, rfl⟩, hmapper, hframes⟩ hproc rfl rfl (by omega)
      (by unfold PageRangeInclusive.lastUser; omega) true
  have hspares : Spares Boot.plainTable.later k₁ m :=
    ⟨hhosts₁.spares _, fun _ => Kernel.harmless_zeroes hhosts₁.own _ _⟩
  obtain ⟨m', hcall, hrip, -, -, -, hoff, -⟩ :=
    flags_from_ranges_end Boot.plain_relies hset zeroes true 0 htick
      (fun _ _ => rfl) (caller_hasStack hhosts₁ rfl) hspares rfl hrsi hhandles
  have hon : (0x202 : Word) &&& interruptFlag = interruptFlag := by decide
  exact ⟨_, m', hcall, hrip, hon, hoff⟩

-- ================================================= below the stack pointer

/-- The words that a call leaves right below the stack pointer. -/
def savedWords (m : Machine) : List Word :=
  [m.rip, m.rflags, m.regs .r12, m.regs .r13, m.regs .r14, m.regs .r15,
    m.regs .rbp]

/-- What a process keeps in the seven words right below its stack pointer
survives a system call exactly when it is what the stub saves there,
whatever the call is. -/
theorem red_zone_kept_iff (h : Relies O mm table)
    (hset : setUpMemory O requests mm table = .ok (table₀, heap, frames₀))
    (phys : PhysMemory PT) (debug : Bool) (depth : Nat)
    {es : List Kernel.Event}
    (hreach : (sparingSys O.later debug (booted table₀ frames₀ phys)).Run es
      k) (hagree : Agrees O.later m k)
    (hproper : Proper O.later depth k m)
    (hrun : Handles O.later debug depth c k (called env m)
      (env.body .syscallHandler (called env m)) c' k') :
    ∃ m', systemCall env m = some m'
      ∧ (m'.mem.words (m.regs .rsp - 56) 7 = m.mem.words (m.regs .rsp - 56) 7
        ↔ m.mem.words (m.regs .rsp - 56) 7 = savedWords m) := by
  have hnum := booted_numbering h hset phys hreach
  have halone := user_alone (isolated_run h hset phys hreach).single
  have hconf := handler_conforms h.later hnum halone hproper hagree hrun
  obtain ⟨m', hcall, -, hmem⟩ := resumes hconf
  have hwords : m'.mem.words (m.regs .rsp - 56) 7 = savedWords m := by
    rw [hmem]
    exact Syscall.savedAfter_words hconf
  refine ⟨m', hcall, ?_⟩
  rw [hwords]
  exact eq_comm

theorem red_zone_kept_iff_key : ∃ (env : Env Callee) (mem : Mem)
    (m' : Machine), systemCall env (caller mem) = some m'
      ∧ (m'.mem.words 0x1fffc8 7 = mem.words 0x1fffc8 7
        ↔ mem.words 0x1fffc8 7 = savedWords (caller mem)) := by
  obtain ⟨table₀, heap, frames₀, es, k, hset, hrun, -, -, -, hhosts⟩ :=
    loaded_machine
  let m : Machine := caller (view Boot.plainTable.later k)
  have hreads := caller_reads (view Boot.plainTable.later k)
  obtain ⟨mem, c', k', hhandles⟩ :=
    key_handles hhosts hreads true (c := ⟨[42], [], false⟩) rfl
  obtain ⟨m', hcall, hiff⟩ := red_zone_kept_iff Boot.plain_relies hset
    zeroes true 0 hrun (m := m) (fun _ _ => rfl)
    (caller_proper hhosts rfl fun _ => hreads.named) hhandles
  have hbase : m.regs .rsp - 56 = 0x1fffc8 :=
    (by decide : (0x200000 : Word) - 56 = 0x1fffc8)
  rw [hbase] at hiff
  exact ⟨_, _, m', hcall, hiff⟩

end Bayos.Entry
