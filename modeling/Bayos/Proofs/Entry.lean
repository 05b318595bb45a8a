/-
System calls end to end. `Proofs/Syscall.lean` shows what the stub does
with a handler that follows the calling convention and leaves its
caller's frame alone; here the handler is the kernel's, and that it does
so is proved.

# What the process sees to

`Proper`: the stack it calls on and what its pointer names are pages of
its own, with nothing of the kernel's in them, and the pointer does not
name the stack the call uses. Then the stub's saved registers and return
addresses survive the call, whatever the call is; and the call does what
`syscall_handler` would do, called as a function on the process's
registers and memory (`call_as_function`).
-/
import Bayos.Model.Entry
import Bayos.Proofs.Pointers
import Bayos.Proofs.Syscall

namespace Bayos.Entry

open Rust
open Lib (Word Mem region)
open Lib.Paging
open Lib.X86
open Bayos.Memory (PhysFrame BitmapAllocator numbering)
open Kernel (State PageMapper Console Byte mappingAt physAddr view
  storeBytes syscallHandler pointerRange place seen Alone Alike behind
  anonAllocateSyscall SparesCall)
open Syscall (Callee systemCall handlerEntry handlerExit Conforming
  callerFrame)

variable {PT : Type} {M : PageMapper PT} {debug : Bool} {depth : Nat}
  {env : Env Callee} {m : Machine} {c c' : Console} {k k' : State PT}
  {table : PT}

/-- The range that a process's call names through its pointer. -/
def named (m : Machine) : Set Word :=
  pointerRange (m.regs .rax) (m.regs .rdi) (m.regs .rsi) (m.regs .rdx)

/-- The stack below the process is pages of its own, and nothing of the
kernel's is in them. -/
structure HasStack (M : PageMapper PT) (depth : Nat) (k : State PT)
    (m : Machine) : Prop where
  stack : ∀ x ∈ stackUsed depth m, UserAddr M k.table x
  spared : k.SparesAll M (stackUsed depth m)

/-- Nor does the call store where anything of the kernel's is. -/
def Spares (M : PageMapper PT) (k : State PT) (m : Machine) : Prop :=
  SparesCall M (m.regs .rax) (m.regs .rdi) (m.regs .rsi) (m.regs .rdx) k

/-- What a process has to see to before a call: the stack below it and
what its pointer names are its own pages, not the same bytes, and none of
the kernel's. -/
structure Proper (M : PageMapper PT) (depth : Nat) (k : State PT)
    (m : Machine) : Prop extends HasStack M depth k m where
  pointer : ∀ x ∈ named m, UserAddr M k.table x
  apart : ∀ x ∈ named m, x ∉ stackUsed depth m
  call : Spares M k m

-- =============================================================== the stack

/-- The machine at the first instruction of the handler. -/
def called (env : Env Callee) (m : Machine) : Machine :=
  handlerEntry env (m.syscall env.msrs)

theorem called_rsp (env : Env Callee) (m : Machine) :
    (called env m).regs .rsp = m.regs .rsp - 72 := by
  have h : (called env m).regs .rsp
      = (Syscall.beforeCall (m.syscall env.msrs)).regs .rsp - 8 := rfl
  rw [h, Syscall.beforeCall_rsp, Syscall.syscall_regs m _ (by decide)
    (by decide)]
  bv_omega

/-- No process has all addresses. -/
theorem depth_small (h : ∀ x ∈ stackUsed depth m, UserAddr M table x) :
    depth + 72 ≤ 2 ^ 64 := by
  by_contra hdepth
  obtain ⟨n, hn, -⟩ := h (0x800000000000 : Word) (by
    unfold stackUsed
    rw [Lib.mem_region]
    omega)
  obtain ⟨v, hv, -⟩ := Kernel.mappingAt_some hn
  have hnone : VirtAddr.tryNew (0x800000000000 : Word).toNat = none := by
    decide
  rw [hnone] at hv
  cases hv

theorem frame_used (env : Env Callee) (hdepth : depth + 72 ≤ 2 ^ 64)
    {x : Word}
    (hx : x ∈ region ((called env m).regs .rsp) 72) :
    x ∈ stackUsed depth m := by
  have hbase : (called env m).regs .rsp
      = m.regs .rsp - 72 - BitVec.ofNat 64 depth + BitVec.ofNat 64 depth := by
    rw [called_rsp, BitVec.sub_add_cancel]
  rw [hbase] at hx
  exact Lib.region_subset (Nat.le_refl _) hdepth hx

theorem own_used (hdepth : depth + 72 ≤ 2 ^ 64) {x : Word}
    (hx : x ∈ ownStack depth (called env m)) : x ∈ stackUsed depth m := by
  rcases hx with hx | hx
  · rw [called_rsp, Lib.mem_region] at hx
    unfold stackUsed
    rw [Lib.mem_region]
    omega
  · apply frame_used env hdepth
    exact Lib.region_subset (k := 8) (by decide) (by decide) hx

/-- The return address and the saved registers are not the handler's. -/
theorem frame_kept (hdepth : depth + 72 ≤ 2 ^ 64) {x : Word}
    (hx : x ∈ region ((called env m).regs .rsp) 8
      ∨ x ∈ callerFrame (called env m)) :
    x ∉ ownStack depth (called env m) := by
  unfold callerFrame at hx
  rintro (hown | hown) <;> simp only [Lib.mem_region] at hx hown <;>
    rcases hx with hx | hx <;> bv_omega

/-- The stub stores in its frame and nowhere else. -/
theorem called_mem {x : Word}
    (hx : x ∉ region ((called env m).regs .rsp) 72) :
    (called env m).mem x = m.mem x := by
  have hrsp := called_rsp env m
  have hpushed : (Syscall.pushed (m.syscall env.msrs)).regs .rsp
      = m.regs .rsp - 64 := by
    have h := Machine.pushWords_rsp
      (Syscall.pushOrder.map (m.syscall env.msrs).regs) (m.syscall env.msrs)
    rw [Syscall.syscall_regs m _ (by decide) (by decide)] at h
    exact h
  rw [hrsp, Lib.mem_region] at hx
  -- the eight words of the stub, and the return address below them
  have hwords : (Syscall.pushed (m.syscall env.msrs)).mem x = m.mem x := by
    refine Machine.pushWords_mem _ (m.syscall env.msrs) ?_ ?_
    · rw [List.length_map]
      decide
    show x ∉ region ((Syscall.pushed (m.syscall env.msrs)).regs .rsp) 64
    rw [hpushed, Lib.mem_region]
    bv_omega
  rw [← hwords]
  refine Lib.write_of_notMem (a := (Syscall.pushed _).regs .rsp - 8) ?_
  rw [hpushed, Lib.mem_region]
  show ¬ _ < 8
  bv_omega

-- ============================================================== the memory

section Call

variable (halone : Alone M k.table {x | UserAddr M k.table x})
  (hstack : HasStack M depth k m) (hproper : Proper M depth k m)
  (hagree : Agrees M m k) {k₀ : State PT}
  (hstub : storeBytes M ((called env m).regs .rsp)
    (frameBytes (called env m)) k = .ok ((), k₀))

theorem length_frameBytes (h : Machine) : (frameBytes h).length = 72 := by
  simp [frameBytes]

/-- The stub stores where it can, which is on the process's stack. -/
theorem stub_ok (hstack : HasStack M depth k m) :
    storeBytes M ((called env m).regs .rsp) (frameBytes (called env m)) k
        = .ok ((), k₀)
      ↔ (∀ i < 72, Kernel.CanStore M k.table
          ((called env m).regs .rsp + BitVec.ofNat 64 i))
        ∧ k₀ = { k with
          phys := place M k.table k.phys ((called env m).regs .rsp)
            (frameBytes (called env m)) } := by
  have hlen := length_frameBytes (called env m)
  have hspared : k.SparesAll M (region ((called env m).regs .rsp)
      (frameBytes (called env m)).length) := by
    intro x hx n hn
    rw [hlen] at hx
    exact hstack.spared x (frame_used env (depth_small hstack.stack) hx) n hn
  rw [Kernel.storeBytes_ok (by omega) hspared, hlen]

include hstack hstub in
theorem stub_eq : k₀ = { k with
    phys := place M k.table k.phys ((called env m).regs .rsp)
      (frameBytes (called env m)) } :=
  ((stub_ok hstack).mp hstub).2

include hstack hstub in
/-- What the stub stores is behind the process's stack. -/
theorem stub_same : SameBut M k.table (stackUsed depth m) k.phys k₀.phys := by
  intro y hy
  rw [stub_eq hstack hstub]
  refine Kernel.place_frame fun i hi n hn heq => ?_
  rw [length_frameBytes] at hi
  refine hy _ (frame_used env (depth_small hstack.stack) ?_) n hn heq
  exact Lib.add_mem_region hi (by decide)

include halone hstack hagree hstub in
/-- When the handler starts, the process's memory is one again. -/
theorem stub_agrees {x : Word} (hx : UserAddr M k.table x) :
    view M k₀ x = (called env m).mem x := by
  have hdepth := depth_small hstack.stack
  obtain ⟨hcan, rfl⟩ := (stub_ok hstack).mp hstub
  have hbytes : ∀ i < (frameBytes (called env m)).length,
      (called env m).regs .rsp + BitVec.ofNat 64 i
          ∈ {x | UserAddr M k.table x}
        ∧ Kernel.CanStore M k.table
          ((called env m).regs .rsp + BitVec.ofNat 64 i) := by
    intro i hi
    rw [length_frameBytes] at hi
    refine ⟨hstack.stack _ (frame_used env hdepth ?_), hcan i hi⟩
    exact Lib.add_mem_region hi (by decide)
  have hseen : seen M k.table (place M k.table k.phys
        ((called env m).regs .rsp) (frameBytes (called env m))) x
      = ((frameBytes (called env m))[(x - (called env m).regs .rsp).toNat]?
        ).getD (seen M k.table k.phys x) := by
    refine Kernel.seen_place halone hx ?_ hbytes
    rw [length_frameBytes]
    decide
  rw [Kernel.view_eq]
  show seen M k.table _ x = _
  rw [hseen]
  by_cases hin : x ∈ region ((called env m).regs .rsp) 72
  · unfold frameBytes
    rw [List.getElem?_map, List.getElem?_range (Lib.mem_region.mp hin)]
    show (called env m).mem _ = _
    congr 1
    rw [BitVec.ofNat_toNat, BitVec.setWidth_eq]
    bv_omega
  · rw [called_mem hin, hagree x hx, List.getElem?_eq_none]
    · rfl
    · rw [length_frameBytes]
      exact Nat.le_of_not_lt (mt Lib.mem_region.mpr hin)

/-- The bytes behind what the pointer names are not behind others. -/
theorem named_apart (halone : Alone M k.table {x | UserAddr M k.table x})
    (hpointer : ∀ x ∈ named m, UserAddr M k.table x) {y : Nat}
    (hy : y ∈ behind M k.table (named m)) {a : Word}
    (ha : UserAddr M k.table a) (hout : a ∉ named m)
    {n : Mapping PhysFrame} (hn : mappingAt M k.table a = some n) :
    physAddr n a ≠ y := by
  intro heq
  obtain ⟨b, hb, n', hn', hy⟩ := hy
  obtain rfl := halone a ha b (hpointer b hb) n n' hn hn'
    (heq.trans hy.symm)
  exact hout hb

include halone hproper hstub in
/-- For the call the kernel is what it was before the stub. -/
theorem stub_alike : Alike (behind M k₀.table (named m)) k₀ k := by
  have hstub' := stub_eq hproper.toHasStack hstub
  have htable : k₀.table = k.table := by rw [hstub']
  refine ⟨by rw [hstub'], fun y hy => ?_⟩
  rw [htable] at hy
  refine (stub_same hproper.toHasStack hstub y fun a ha n hn => ?_).symm
  exact named_apart halone hproper.pointer hy (hproper.stack a ha)
    (fun hin => hproper.apart a hin ha) hn

end Call

-- =============================================================== the calls

/-- Bytes stored from `a` on, in order, all of them in `A`. -/
def Stored (M : PageMapper PT) (A : Set Word) (a : Word)
    (k k' : State PT) : Prop :=
  ∃ bs, bs.length ≤ 2 ^ 64 ∧ region a bs.length ⊆ A
    ∧ Kernel.storeBytes M a bs k = .ok ((), k')

theorem Stored.nothing {A : Set Word} {a : Word} : Stored M A a k k :=
  ⟨[], Nat.zero_le _, fun _ hx => absurd hx (Nat.not_lt_zero _), rfl⟩

theorem Stored.rest {A : Set Word} {a : Word} (h : Stored M A a k k')
    (hspared : k.SparesAll M A) : k' = { k with phys := k'.phys } := by
  obtain ⟨bs, hlen, hsub, hstores⟩ := h
  obtain ⟨-, rfl⟩ := (Kernel.storeBytes_ok hlen fun x hx =>
    hspared x (hsub hx)).mp hstores
  rfl

theorem idle_effect {call : Kernel.KernelM PT Console}
    (hcall : call = pure c) (h : call k = .ok (c', k')) : k' = k := by
  rw [hcall] at h
  exact (Kernel.pure_ok.mp h).2

theorem unknown_eq {index arg0 arg1 arg2 : Word} (h0 : index ≠ 0)
    (h1 : index ≠ 1) (h2 : index ≠ 2) :
    syscallHandler M debug c index arg0 arg1 arg2
      = (do
          Kernel.lockLogger c
          pure (c.print (Kernel.unknownSyscall index.toNat))) := by
  unfold syscallHandler
  split
  · next h => exact absurd (BitVec.eq_of_toNat_eq h) h0
  · next h => exact absurd (BitVec.eq_of_toNat_eq h) h1
  · next h => exact absurd (BitVec.eq_of_toNat_eq h) h2
  · rfl

/-- Every call but one stores bytes through its pointer at most. -/
theorem syscall_effect {index arg0 arg1 arg2 : Word}
    (h : syscallHandler M debug c index arg0 arg1 arg2 k = .ok (c', k')) :
    index = 2 ∧ c' = c
        ∧ anonAllocateSyscall M debug arg0 arg1 k = .ok ((), k')
      ∨ index ≠ 2
        ∧ Stored M (pointerRange index arg0 arg1 arg2) arg1 k k' := by
  by_cases hread : index = 0
  · subst hread
    refine .inr ⟨by decide, ?_⟩
    by_cases hfd : arg0 = 0
    · subst hfd
      obtain ⟨_, k₁, hcheck, h₁⟩ := Kernel.bind_ok.mp h
      obtain ⟨-, rfl⟩ := Kernel.lift_ok.mp hcheck
      obtain ⟨rest, k₂, hpipe, h₂⟩ := Kernel.bind_ok.mp h₁
      obtain ⟨-, rfl⟩ := Kernel.pure_ok.mp h₂
      obtain ⟨hlen, -, hstores⟩ := Kernel.pipeRead_ok.mp hpipe
      have htake : (c.input.take arg2.toNat).length = arg2.toNat :=
        List.length_take_of_le hlen
      refine ⟨_, htake.le.trans arg2.isLt.le, fun x hx => ?_, hstores⟩
      rw [htake] at hx
      exact hx
    · obtain rfl := idle_effect (if_neg hfd) h
      exact .nothing
  by_cases hwrite : index = 1
  · subst hwrite
    refine .inr ⟨by decide, ?_⟩
    by_cases hfd : arg0 = 1
    · subst hfd
      obtain ⟨_, k₁, hcheck, h₁⟩ := Kernel.bind_ok.mp h
      obtain ⟨-, rfl⟩ := Kernel.lift_ok.mp hcheck
      obtain ⟨_, k₂, hlock, h₂⟩ := Kernel.bind_ok.mp h₁
      obtain ⟨-, rfl⟩ := Kernel.lockLogger_ok.mp hlock
      obtain ⟨bytes, k₃, hload, h₃⟩ := Kernel.bind_ok.mp h₂
      obtain ⟨-, -, rfl⟩ := Kernel.loadBytes_ok.mp hload
      obtain ⟨-, rfl⟩ := Kernel.pure_ok.mp h₃
      exact .nothing
    · obtain rfl := idle_effect (if_neg hfd) h
      exact .nothing
  by_cases hanon : index = 2
  · subst hanon
    obtain ⟨_, k₁, hcall, hret⟩ := Kernel.bind_ok.mp h
    obtain ⟨rfl, rfl⟩ := Kernel.pure_ok.mp hret
    exact .inl ⟨rfl, rfl, hcall⟩
  · refine .inr ⟨hanon, ?_⟩
    rw [unknown_eq hread hwrite hanon] at h
    obtain ⟨_, k₁, hlock, hret⟩ := Kernel.bind_ok.mp h
    obtain ⟨-, rfl⟩ := Kernel.lockLogger_ok.mp hlock
    obtain ⟨-, rfl⟩ := Kernel.pure_ok.mp hret
    exact .nothing

/-- A call leaves mapped what is mapped. -/
theorem syscall_keeps (hlaws : M.Laws BitmapAllocator.allocateFrame)
    (hnum : (numbering k.frames.memoryMap).Nodup)
    {index arg0 arg1 arg2 : Word}
    (hspares : SparesCall M index arg0 arg1 arg2 k)
    (h : syscallHandler M debug c index arg0 arg1 arg2 k = .ok (c', k'))
    {x : Word} {n : Mapping PhysFrame}
    (hn : mappingAt M k.table x = some n) :
    mappingAt M k'.table x = some n := by
  rcases syscall_effect h with ⟨hindex, -, hanon⟩ | ⟨-, hstored⟩
  · obtain ⟨-, proc, pages, r, ps, s, size, hgrants, rfl⟩ :=
      (Kernel.anon_ok (hspares.anon hindex)).mp hanon
    obtain ⟨v, hv, hpage⟩ := Kernel.mappingAt_some hn
    have hgives := hgrants.fresh.gives hlaws hnum
    show mappingAt M s.1 x = some n
    rw [Kernel.mappingAt_eq hv]
    exact hgives.keeps hpage
  · rw [hstored.rest hspares.named]
    exact hn

-- ========================================================= the whole round

/-- Where a process goes on after a call, as it left: at the next
instruction, with its stack pointer, its flags and the registers of its
callers. -/
structure Resumes (m m' : Machine) : Prop where
  rip : m'.rip = m.rip
  rflags : m'.rflags = (m.rflags &&& 0x3c7fd7) ||| 2
  rsp : m'.regs .rsp = m.regs .rsp
  saved : ∀ r ∈ calleeSaved, m'.regs r = m.regs r

/-- What the handler was called for is what the process asked for. -/
theorem called_args (env : Env Callee) (m : Machine) :
    (called env m).regs .rdi = m.regs .rax
      ∧ (called env m).regs .rsi = m.regs .rdi
      ∧ (called env m).regs .rdx = m.regs .rsi
      ∧ (called env m).regs .rcx = m.regs .rdx := by
  have hargs := Syscall.handlerEntry_args env (m.syscall env.msrs)
  have hregs : ∀ r, r ≠ .rcx → r ≠ .r11 →
      (m.syscall env.msrs).regs r = m.regs r :=
    fun r h₁ h₂ => Syscall.syscall_regs m _ h₁ h₂
  unfold called
  rw [hargs.index, hargs.arg0, hargs.arg1, hargs.arg2]
  exact ⟨hregs _ (by decide) (by decide), hregs _ (by decide) (by decide),
    hregs _ (by decide) (by decide), hregs _ (by decide) (by decide)⟩

/-- The stub leaves the call's pointer as harmless as it was. -/
theorem stub_spares {k₀ : State PT} (hstack : HasStack M depth k m)
    (hspares : Spares M k m)
    (hstub : storeBytes M ((called env m).regs .rsp)
      (frameBytes (called env m)) k = .ok ((), k₀)) :
    SparesCall M ((called env m).regs .rdi) ((called env m).regs .rsi)
      ((called env m).regs .rdx) ((called env m).regs .rcx) k₀ := by
  obtain ⟨hrdi, hrsi, hrdx, hrcx⟩ := called_args env m
  rw [hrdi, hrsi, hrdx, hrcx, stub_eq hstack hstub]
  exact hspares.inMemory _

/-- After a handler that returns the stub brings the process back. -/
theorem resumes (henv : Conforming env (m.syscall env.msrs)) :
    ∃ m', systemCall env m = some m' ∧ Resumes m m'
      ∧ m'.mem = (handlerExit env (m.syscall env.msrs)).mem := by
  obtain ⟨-, m', hbody, hrest⟩ :=
    Syscall.syscall_transport env (m.syscall env.msrs) henv
  have hm' : m' = Syscall.beforeSysret env (m.syscall env.msrs) := by
    rw [Syscall.exec_body henv] at hbody
    exact (Option.some.inj hbody).symm
  refine ⟨_, Syscall.systemCall_eq henv, ?_, ?_⟩
  · rw [← hm']
    have hrip : (m.syscall env.msrs).regs .rcx = m.rip := rfl
    have hflags : (m.syscall env.msrs).regs .r11 = m.rflags := rfl
    refine ⟨?_, ?_, ?_, ?_⟩
    · show m'.regs .rcx = m.rip
      rw [hrest.rcx, hrip]
    · show (m'.regs .r11 &&& 0x3c7fd7) ||| 2 = _
      rw [hrest.r11, hflags]
    · show m'.regs .rsp = m.regs .rsp
      rw [hrest.rsp, Syscall.syscall_regs m _ (by decide) (by decide)]
    · intro r hr
      show m'.regs r = m.regs r
      have hne : r ≠ .rcx ∧ r ≠ .r11 := by
        revert hr
        revert r
        decide
      rw [hrest.saved r hr, Syscall.syscall_regs m _ hne.1 hne.2]
  · exact Machine.popAll_mem Syscall.popOrder
      (handlerExit env (m.syscall env.msrs))

section Round

variable (hlaws : M.Laws BitmapAllocator.allocateFrame)
  (hnum : (numbering k.frames.memoryMap).Nodup)
  (halone : Alone M k.table {x | UserAddr M k.table x})
  (hstack : HasStack M depth k m) (hspares : Spares M k m)
  (hpointer : ∀ x ∈ named m, UserAddr M k.table x)
  (hagree : Agrees M m k)
  {h' : Machine} (hrun : Handles M debug depth c k (called env m) h' c' k')

include hlaws hnum halone hstack hspares in
/-- A byte of the stack that is not the handler's own is after the handler
what the call has left there. -/
theorem exit_view {k₀ k₁ : State PT} {n : Mapping PhysFrame} {x : Word}
    (hstub : storeBytes M ((called env m).regs .rsp)
      (frameBytes (called env m)) k = .ok ((), k₀))
    (hcall : syscallHandler M debug c ((called env m).regs .rdi)
      ((called env m).regs .rsi) ((called env m).regs .rdx)
      ((called env m).regs .rcx) k₀ = .ok (c', k₁))
    (hk' : k' = { k₁ with phys := k'.phys })
    (hsame : SameBut M k.table (ownStack depth (called env m)) k₁.phys
      k'.phys)
    (hmem : Agrees M h' k') (hx : x ∈ stackUsed depth m)
    (hown : x ∉ ownStack depth (called env m))
    (hn : mappingAt M k.table x = some n) :
    mappingAt M k₁.table x = some n ∧ h'.mem x = k₁.phys (physAddr n x) := by
  have hdepth := depth_small hstack.stack
  have hstub' := stub_eq hstack hstub
  have htable : k₀.table = k.table := by rw [hstub']
  have hnum₀ : (numbering k₀.frames.memoryMap).Nodup := by
    rw [hstub']
    exact hnum
  have hn₁ : mappingAt M k₁.table x = some n :=
    syscall_keeps hlaws hnum₀ (stub_spares hstack hspares hstub) hcall
      (htable ▸ hn)
  have hn' : mappingAt M k'.table x = some n := by
    rw [hk']
    exact hn₁
  obtain ⟨m', hm', haccess⟩ := hstack.stack x hx
  obtain rfl : m' = n := Option.some.inj (hm'.symm.trans hn)
  have hview : h'.mem x = k'.phys (physAddr m' x) := by
    rw [hmem x ⟨m', hn', haccess⟩]
    simp only [Kernel.view, hn']
  refine ⟨hn₁, hview.trans (hsame _ fun a ha p hp heq => ?_)⟩
  have hused := own_used hdepth ha
  obtain rfl := halone a (hstack.stack a hused) x (hstack.stack x hx) p m'
    hp hn heq
  exact hown ha

include hlaws hnum halone hstack hspares hpointer hagree hrun in
/-- A byte that is neither the handler's own nor named by the pointer is
after the handler what it was before it. -/
theorem handler_mem {x : Word} (hx : x ∈ stackUsed depth m)
    (hown : x ∉ ownStack depth (called env m)) (hout : x ∉ named m) :
    h'.mem x = (called env m).mem x := by
  obtain ⟨k₀, k₁, hstub, hcall, hk', hsame⟩ := hrun.runs
  have hstub' := stub_eq hstack hstub
  have htable : k₀.table = k.table := by rw [hstub']
  have hnum₀ : (numbering k₀.frames.memoryMap).Nodup := by
    rw [hstub']
    exact hnum
  have hcallSpares := stub_spares hstack hspares hstub
  obtain ⟨n, hn, haccess⟩ := hstack.stack x hx
  have hn₀ : mappingAt M k₀.table x = some n := htable ▸ hn
  have hview₀ : (called env m).mem x = k₀.phys (physAddr n x) := by
    rw [← stub_agrees halone hstack hagree hstub ⟨n, hn, haccess⟩]
    simp only [Kernel.view, hn₀]
  have hexit := (exit_view hlaws hnum halone hstack hspares hstub hcall hk'
    hsame hrun.mem hx hown hn).2
  rw [hexit, hview₀]
  by_contra hne
  obtain ⟨b, hb, p, hp, heq⟩ :=
    (Kernel.call_confined hcallSpares hcall).stores _ hne
  obtain ⟨hrdi, hrsi, hrdx, hrcx⟩ := called_args env m
  rw [hrdi, hrsi, hrdx, hrcx] at hb
  obtain ⟨p', hp', -⟩ := hpointer b hb
  have hkept := syscall_keeps hlaws hnum₀ hcallSpares hcall (htable ▸ hp')
  obtain rfl : p' = p := Option.some.inj (hkept.symm.trans hp)
  exact named_apart halone hpointer ⟨b, hb, p', hp', heq⟩
    (hstack.stack x hx) hout hn rfl

end Round

section Proper

variable (hlaws : M.Laws BitmapAllocator.allocateFrame)
  (hnum : (numbering k.frames.memoryMap).Nodup)
  (halone : Alone M k.table {x | UserAddr M k.table x})
  (hproper : Proper M depth k m) (hagree : Agrees M m k)
  (hrun : Handles M debug depth c k (called env m)
    (env.body .syscallHandler (called env m)) c' k')
include hlaws hnum halone hproper hagree hrun

/-- The kernel's handler follows the calling convention. -/
theorem handler_conforms : Conforming env (m.syscall env.msrs) := by
  have hdepth := depth_small hproper.stack
  intro s hs
  obtain rfl : s = Syscall.beforeCall (m.syscall env.msrs) :=
    Option.some.inj (hs.symm.trans (Syscall.exec_setup env _))
  have hframe : ∀ x, x ∈ region ((called env m).regs .rsp) 8
        ∨ x ∈ callerFrame (called env m) →
      (env.body .syscallHandler (called env m)).mem x
        = (called env m).mem x := by
    intro x hx
    have hused : x ∈ stackUsed depth m := by
      apply frame_used env hdepth
      rcases hx with hx | hx
      · rw [Lib.mem_region] at hx ⊢
        omega
      · exact Lib.region_subset (k := 16) (by decide) (by decide) hx
    exact handler_mem hlaws hnum halone hproper.toHasStack hproper.call
      hproper.pointer hagree hrun hused (frame_kept hdepth hx)
      fun hin => hproper.apart x hin hused
  refine ⟨hrun.saved, hrun.rsp, ?_, fun x hx => hframe x (.inr hx)⟩
  refine hrun.rip.trans (Lib.read_congr fun i hi => hframe _ (.inl ?_))
  exact Lib.add_mem_region hi (by decide)

/-- A system call does what `syscall_handler` does, called as a function
on the registers and the memory the process has at its `syscall`
instruction; and the process goes on after it as it left, with memory as
the call has left it. On its stack below it the bytes the call used are
lost. -/
theorem call_as_function : ∃ k₁,
    syscallHandler M debug c (m.regs .rax) (m.regs .rdi) (m.regs .rsi)
        (m.regs .rdx) k = .ok (c', k₁)
      ∧ k' = { k₁ with phys := k'.phys }
      ∧ SameBut M k.table (stackUsed depth m) k₁.phys k'.phys
      ∧ ∃ m', systemCall env m = some m' ∧ Resumes m m'
        ∧ Agrees M m' k' := by
  have hdepth := depth_small hproper.stack
  obtain ⟨m', hcalled, hresumes, hmem⟩ := resumes
    (handler_conforms hlaws hnum halone hproper hagree hrun)
  have hagree' : Agrees M m' k' := by
    intro x hx
    rw [hmem]
    exact hrun.mem x hx
  obtain ⟨k₀, k₂, hstub, hcall, hk', hsame⟩ := hrun.runs
  have hcallSpares := stub_spares hproper.toHasStack hproper.call hstub
  obtain ⟨hrdi, hrsi, hrdx, hrcx⟩ := called_args env m
  rw [hrdi, hrsi, hrdx, hrcx] at hcall hcallSpares
  have hstub' := stub_eq hproper.toHasStack hstub
  have htable : k₀.table = k.table := by rw [hstub']
  have hnum₀ : (numbering k₀.frames.memoryMap).Nodup := by
    rw [hstub']
    exact hnum
  obtain ⟨k₁, hdirect, halike⟩ := (Kernel.call_confined hcallSpares
    hcall).loads k (stub_alike halone hproper hstub)
  refine ⟨k₁, hdirect, ?_, fun y hy => ?_, m', hcalled, hresumes, hagree'⟩
  · rw [hk', halike.rest]
  · rw [hsame y fun a ha => hy a (own_used hdepth ha)]
    by_cases hin : y ∈ behind M k₀.table (named m)
    · exact (halike.phys y hin).symm
    -- neither call has stored there
    have hout : ∀ {j j' : State PT}, j.table = k.table →
        (numbering j.frames.memoryMap).Nodup → Spares M j m →
        syscallHandler M debug c (m.regs .rax) (m.regs .rdi)
          (m.regs .rsi) (m.regs .rdx) j = .ok (c', j') →
        j'.phys y = j.phys y := by
      intro j j' hj hnum' hspares' hcall'
      by_contra hne
      obtain ⟨b, hb, p, hp, heq⟩ :=
        (Kernel.call_confined hspares' hcall').stores y hne
      obtain ⟨p', hp', -⟩ := hproper.pointer b hb
      have hkept := syscall_keeps hlaws hnum' hspares' hcall' (hj ▸ hp')
      obtain rfl : p' = p := Option.some.inj (hkept.symm.trans hp)
      exact hin ⟨b, hb, p', htable ▸ hp', heq⟩
    rw [hout htable hnum₀ hcallSpares hcall,
      hout rfl hnum hproper.call hdirect]
    exact stub_same hproper.toHasStack hstub y hy

end Proper

end Bayos.Entry
