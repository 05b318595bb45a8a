/-
The libc's wrappers end to end: what `sys_read`, `sys_write` and
`sys_anon_allocate` of a process do to its memory and to the console, in
any state after boot.

# What is left of the stub

Below the wrappers are the `syscall` instruction, the entry stub, the
handler, the page table and the frame allocator. Of all that a process
sees the bytes below its stack pointer (`stackUsed`), and nothing else
that it did not ask for (`Returned`). What the wrappers report is another
matter: it is what `r9` holds.
-/
import Bayos.Model.Libc
import Bayos.Proofs.Accounting
import Bayos.Proofs.Process
import Bayos.Proofs.Ranges
import Bayos.Proofs.Refusal

namespace Bayos.Entry

open Rust
open Lib (Word Mem region)
open Lib.Paging
open Lib.X86
open Bayos.Boot (OffsetPageTable Requests Relies setUpMemory booted
  isolated_run)
open Bayos.Memory
open Kernel (State PageMapper PhysMemory Console Byte mappingAt physAddr
  view zeroes syscallHandler sparingSys Alone CanStore Harmless pointerRange
  place seen)
open Libc (CInt loadSyscall2 loadSyscall3 sysReadNumber sysWriteNumber
  sysAnonAllocateNumber sysAnonAllocate)
open Syscall (Callee systemCall handlerEntry)

variable {PT : Type} {M : PageMapper PT} {debug : Bool} {depth : Nat}
  {env : Env Callee} {m : Machine} {c c' : Console} {k k' : State PT}
  {O : OffsetPageTable PT} {mm : MemoryRegions} {requests : Requests}
  {table table₀ : PT} {heap : Bayos.Allocator.LinkedListAllocator}
  {frames₀ : BitmapAllocator} {fd : CInt}

-- ================================================================ one call

/-- The process after a call that took the kernel from `k` to `k'`:
outside of what the pointer names and of the stack below it, its memory
is as it was and still its own; and no two of its addresses are one
byte. -/
structure Returned (M : PageMapper PT) (depth : Nat) (k k' : State PT)
    (m m' : Machine) : Prop where
  resumes : Resumes m m'
  agrees : Agrees M m' k'
  keeps : ∀ x, UserAddr M k.table x → UserAddr M k'.table x
  memory : ∀ x, UserAddr M k.table x → x ∉ named m → x ∉ stackUsed depth m →
    m'.mem x = m.mem x
  alone : Alone M k'.table {x | UserAddr M k'.table x}

/-- A call of the kernel's leaves alone what its pointer does not name. -/
theorem direct_memory (halone : Alone M k.table {x | UserAddr M k.table x})
    (hpointer : ∀ x ∈ named m, UserAddr M k.table x)
    (hspares : Spares M k m)
    (hkeeps : ∀ {x n}, mappingAt M k.table x = some n →
      mappingAt M k'.table x = some n)
    (hcall : syscallHandler M debug c (m.regs .rax) (m.regs .rdi)
      (m.regs .rsi) (m.regs .rdx) k = .ok (c', k'))
    {x : Word} (hx : UserAddr M k.table x) (hout : x ∉ named m) :
    view M k' x = view M k x := by
  obtain ⟨n, hn, -⟩ := id hx
  simp only [view, hkeeps hn, hn]
  by_contra hne
  obtain ⟨b, hb, p, hp, heq⟩ :=
    (Kernel.call_confined hspares hcall).stores _ hne
  obtain ⟨p', hp', -⟩ := hpointer b hb
  obtain rfl : p' = p := Option.some.inj ((hkeeps hp').symm.trans hp)
  exact named_apart halone hpointer ⟨b, hb, p', hp', heq⟩ hx hout hn rfl

/-- A call that a process makes in any state after boot. What is said of
`k₁` is `syscall_handler`'s doing, called as a function. -/
theorem booted_call (h : Relies O mm table)
    (hset : setUpMemory O requests mm table = .ok (table₀, heap, frames₀))
    {phys : PhysMemory PT} {es : List Kernel.Event}
    (hreach : (sparingSys O.later debug (booted table₀ frames₀ phys)).Run es
      k) (hagree : Agrees O.later m k)
    (hproper : Proper O.later depth k m)
    (hrun : Handles O.later debug depth c k (called env m)
      (env.body .syscallHandler (called env m)) c' k') :
    ∃ k₁ m', syscallHandler O.later debug c (m.regs .rax) (m.regs .rdi)
        (m.regs .rsi) (m.regs .rdx) k = .ok (c', k₁)
      ∧ k'.table = k₁.table ∧ systemCall env m = some m'
      ∧ Returned O.later depth k k' m m'
      ∧ ∀ x, UserAddr O.later k.table x → x ∉ stackUsed depth m →
        m'.mem x = view O.later k₁ x := by
  have hnum := booted_numbering h hset phys hreach
  have halone := user_alone (isolated_run h hset phys hreach).single
  obtain ⟨k₁, hcall, hk', hsame, m', hsystem, hresumes, hagree'⟩ :=
    call_as_function h.later hnum halone hproper hagree hrun
  have htable : k'.table = k₁.table := by rw [hk']
  have hkeeps : ∀ {x n}, mappingAt O.later k.table x = some n →
      mappingAt O.later k₁.table x = some n :=
    syscall_keeps h.later hnum hproper.call hcall
  have hmem : ∀ x, UserAddr O.later k.table x → x ∉ stackUsed depth m →
      m'.mem x = view O.later k₁ x := by
    intro x hx hout
    obtain ⟨n, hn, haccess⟩ := id hx
    have hn' : mappingAt O.later k'.table x = some n :=
      htable ▸ hkeeps hn
    rw [hagree' x ⟨n, hn', haccess⟩]
    simp only [view, hn', hkeeps hn]
    refine hsame _ fun a ha p hp heq => hout ?_
    obtain rfl := halone a (hproper.stack a ha) x hx p n hp hn heq
    exact ha
  let s : Process PT := ⟨m, c, k⟩
  have hstep : (processSys O.later debug depth s).step s .call ⟨m', c', k'⟩ :=
    ⟨env, hproper, hrun, hsystem⟩
  obtain ⟨⟨es', hreach'⟩, -⟩ :=
    process_step h.later hnum halone hagree hstep hreach
  refine ⟨k₁, m', hcall, htable, hsystem, ⟨hresumes, hagree', ?_, ?_, ?_⟩,
    hmem⟩
  · intro x hx
    obtain ⟨n, hn, haccess⟩ := hx
    exact ⟨n, htable ▸ hkeeps hn, haccess⟩
  · intro x hx hpointer hstack
    rw [hmem x hx hstack, direct_memory halone hproper.pointer hproper.call
      hkeeps hcall hx hpointer]
    exact (hagree x hx).symm
  · exact user_alone (isolated_run h hset phys hreach').single

-- ============================================================= the console

/-- The `n` bytes of memory from `a` on. -/
def bytesFrom (mem : Mem) (a : Word) (n : Nat) : List Byte :=
  (List.range n).map fun i => mem (a + BitVec.ofNat 64 i)

/-- Memory that is the bytes `bs` from `a` on. -/
theorem bytesFrom_eq {mem : Mem} {a : Word} {bs : List Byte}
    (h : ∀ i < bs.length, bs[i]? = some (mem (a + BitVec.ofNat 64 i))) :
    bytesFrom mem a bs.length = bs := by
  refine List.ext_getElem? fun i => ?_
  unfold bytesFrom
  by_cases hi : i < bs.length
  · rw [List.getElem?_map, List.getElem?_range hi, h i hi]
    rfl
  · rw [List.getElem?_eq_none (by simp; omega),
      List.getElem?_eq_none (by omega)]

/-- Bytes that were stored are there. -/
theorem bytesFrom_place {A : Set Word} {table : PT} {phys : Nat → Byte}
    {a : Word} {bs : List Byte} (halone : Alone M table A)
    (hlen : bs.length < 2 ^ 64)
    (h : ∀ i < bs.length, a + BitVec.ofNat 64 i ∈ A
      ∧ CanStore M table (a + BitVec.ofNat 64 i)) :
    bytesFrom (seen M table (place M table phys a bs)) a bs.length = bs := by
  refine bytesFrom_eq fun i hi => ?_
  have hoff : (a + BitVec.ofNat 64 i - a).toNat = i := by
    rw [BitVec.add_comm, BitVec.add_sub_cancel, BitVec.toNat_ofNat]
    exact Nat.mod_eq_of_lt (by omega)
  rw [Kernel.seen_place halone (h i hi).1 (by omega) h, hoff,
    List.getElem?_eq_getElem hi, Option.getD_some]

theorem bytesFrom_congr {mem mem' : Mem} {a : Word} {n : Nat}
    (h : ∀ x ∈ region a n, mem x = mem' x) (hn : n ≤ 2 ^ 64) :
    bytesFrom mem a n = bytesFrom mem' a n := by
  refine List.map_congr_left fun i hi => h _ ?_
  exact Lib.add_mem_region (List.mem_range.mp hi) hn

/-- A number that is read as a `long` again. -/
theorem signExtend_eq_iff {fd : CInt} {n : CInt} :
    fd.signExtend 64 = n.signExtend 64 ↔ fd = n := by
  constructor
  · intro h
    refine BitVec.eq_of_toInt_eq ?_
    rw [← BitVec.toInt_signExtend_of_le (v := 64) (x := fd) (by omega), h,
      BitVec.toInt_signExtend_of_le (by omega)]
  · rintro rfl
    rfl

/-- The `syscall` instruction of `sys_read`. -/
def readCall (m : Machine) (fd : CInt) (buf count : Word) : Machine :=
  loadSyscall3 m sysReadNumber (fd.signExtend 64) buf count

/-- The `syscall` instruction of `sys_write`. -/
def writeCall (m : Machine) (fd : CInt) (buf count : Word) : Machine :=
  loadSyscall3 m sysWriteNumber (fd.signExtend 64) buf count

theorem loadSyscall3_regs (m : Machine) (sc arg1 arg2 arg3 : Word) :
    (loadSyscall3 m sc arg1 arg2 arg3).regs .rax = sc
      ∧ (loadSyscall3 m sc arg1 arg2 arg3).regs .rdi = arg1
      ∧ (loadSyscall3 m sc arg1 arg2 arg3).regs .rsi = arg2
      ∧ (loadSyscall3 m sc arg1 arg2 arg3).regs .rdx = arg3 :=
  ⟨rfl, rfl, rfl, rfl⟩

/-- What the kernel does with the bytes that were typed. -/
theorem read_ok {buf count : Word}
    (halone : Alone M k.table {x | UserAddr M k.table x})
    (huser : fd = 0 → ∀ x ∈ region buf count.toNat, UserAddr M k.table x)
    (hspares : fd = 0 → k.SparesAll M (region buf count.toNat))
    (hcall : Kernel.readSyscall M debug c (fd.signExtend 64) buf count k
      = .ok (c', k')) :
    k'.table = k.table ∧ c'.screen = c.screen
      ∧ c.input = (if fd = 0 then bytesFrom (view M k') buf count.toNat
        else []) ++ c'.input := by
  have hzero : fd.signExtend 64 = 0 ↔ fd = 0 := signExtend_eq_iff (n := 0)
  unfold Kernel.readSyscall at hcall
  by_cases hfd : fd = 0
  · rw [if_pos (hzero.mpr hfd)] at hcall
    obtain ⟨_, k₂, hcheck, hpipe⟩ := Kernel.bind_ok.mp hcall
    obtain ⟨-, rfl⟩ := Kernel.lift_ok.mp hcheck
    obtain ⟨rest, k₃, hread, hret⟩ := Kernel.bind_ok.mp hpipe
    obtain ⟨rfl, rfl⟩ := Kernel.pure_ok.mp hret
    obtain ⟨hlen, rfl, hcan, rfl⟩ :=
      (Kernel.pipeRead_spared count.isLt.le (hspares hfd)).mp hread
    refine ⟨rfl, rfl, ?_⟩
    have htake : (c.input.take count.toNat).length = count.toNat :=
      List.length_take_of_le hlen
    have hbytes : bytesFrom (seen M k₂.table (place M k₂.table k₂.phys buf
        (c.input.take count.toNat))) buf (c.input.take count.toNat).length
        = c.input.take count.toNat := by
      refine bytesFrom_place halone (by omega) fun i hi =>
        ⟨?_, hcan i (htake ▸ hi)⟩
      exact huser hfd _ (Lib.add_mem_region (htake ▸ hi) count.isLt.le)
    rw [htake] at hbytes
    rw [if_pos hfd, Kernel.view_eq, hbytes]
    exact (List.take_append_drop ..).symm
  · rw [if_neg (mt hzero.mp hfd)] at hcall
    obtain ⟨rfl, rfl⟩ := Kernel.pure_ok.mp hcall
    rw [if_neg hfd]
    exact ⟨rfl, rfl, rfl⟩

/-- What the kernel prints. -/
theorem write_ok {buf count : Word}
    (hcall : Kernel.writeSyscall M debug c (fd.signExtend 64) buf count k
      = .ok (c', k')) :
    k' = k ∧ c' = if fd = 1 then
        c.printText (Kernel.fromUtf8 (bytesFrom (view M k) buf count.toNat))
      else c := by
  have hone : fd.signExtend 64 = 1 ↔ fd = 1 := signExtend_eq_iff (n := 1)
  unfold Kernel.writeSyscall at hcall
  by_cases hfd : fd = 1
  · rw [if_pos (hone.mpr hfd)] at hcall
    obtain ⟨_, k₁, hcheck, h₁⟩ := Kernel.bind_ok.mp hcall
    obtain ⟨-, rfl⟩ := Kernel.lift_ok.mp hcheck
    obtain ⟨_, k₂, hlock, h₂⟩ := Kernel.bind_ok.mp h₁
    obtain ⟨-, rfl⟩ := Kernel.lockLogger_ok.mp hlock
    obtain ⟨bytes, k₃, hload, h₃⟩ := Kernel.bind_ok.mp h₂
    obtain ⟨-, rfl, rfl⟩ := Kernel.loadBytes_ok.mp hload
    obtain ⟨rfl, rfl⟩ := Kernel.pure_ok.mp h₃
    rw [if_pos hfd]
    exact ⟨rfl, rfl⟩
  · rw [if_neg (mt hone.mp hfd)] at hcall
    obtain ⟨rfl, rfl⟩ := Kernel.pure_ok.mp hcall
    rw [if_neg hfd]
    exact ⟨rfl, rfl⟩

section Wrapper

variable (h : Relies O mm table)
  (hset : setUpMemory O requests mm table = .ok (table₀, heap, frames₀))
  (phys : PhysMemory PT) (debug : Bool) (depth : Nat) {es : List Kernel.Event}
  (hreach : (sparingSys O.later debug (booted table₀ frames₀ phys)).Run es k)
  (hagree : Agrees O.later m k) {fd : CInt} {buf count : Word}

include h hset hreach hagree

/-- `sys_read`, when it comes back: from file 0 the buffer holds the
bytes that were typed, in order, and they are the ones that are gone from
the pipe; from any other file nothing happened. -/
theorem sys_read_delivers
    (hproper : Proper O.later depth k (readCall m fd buf count))
    (hrun : Handles O.later debug depth c k
      (called env (readCall m fd buf count))
      (env.body .syscallHandler (called env (readCall m fd buf count))) c'
      k') :
    ∃ m', systemCall env (readCall m fd buf count) = some m'
      ∧ Returned O.later depth k k' (readCall m fd buf count) m'
      ∧ c'.screen = c.screen
      ∧ c.input = (if fd = 0 then bytesFrom m'.mem buf count.toNat else [])
        ++ c'.input := by
  have halone := user_alone (isolated_run h hset phys hreach).single
  obtain ⟨k₁, m', hcall, -, hsystem, hreturned, hmem⟩ :=
    booted_call (m := readCall m fd buf count) h hset hreach hagree hproper
      hrun
  obtain ⟨hrax, hrdi, hrsi, hrdx⟩ :=
    loadSyscall3_regs m sysReadNumber (fd.signExtend 64) buf count
  unfold readCall at hcall
  rw [hrax, hrdi, hrsi, hrdx] at hcall
  refine ⟨m', hsystem, hreturned, ?_⟩
  have hnamed : fd = 0 → ∀ x ∈ region buf count.toNat,
      x ∈ named (readCall m fd buf count) := by
    rintro rfl x hx
    exact hx
  obtain ⟨-, hscreen, hinput⟩ := read_ok halone
    (fun hfd x hx => hproper.pointer x (hnamed hfd x hx))
    (fun hfd x hx => hproper.call.named x (hnamed hfd x hx)) hcall
  refine ⟨hscreen, hinput.trans ?_⟩
  by_cases hfd : fd = 0
  · have hsame : bytesFrom m'.mem buf count.toNat
        = bytesFrom (view O.later k₁) buf count.toNat := by
      refine bytesFrom_congr (fun x hx => ?_) count.isLt.le
      have hin := hnamed hfd x hx
      exact hmem x (hproper.pointer x hin) (hproper.apart x hin)
    rw [hsame]
  · rw [if_neg hfd, if_neg hfd]

/-- `sys_write`, when it comes back: for file 1 the screen has the text
that is in the buffer, if it is one, and for any other file nothing more;
and the process's memory is as it was. -/
theorem sys_write_prints
    (hproper : Proper O.later depth k (writeCall m fd buf count))
    (hrun : Handles O.later debug depth c k
      (called env (writeCall m fd buf count))
      (env.body .syscallHandler (called env (writeCall m fd buf count))) c'
      k') :
    ∃ m', systemCall env (writeCall m fd buf count) = some m'
      ∧ Returned O.later depth k k' (writeCall m fd buf count) m'
      ∧ (∀ x, UserAddr O.later k.table x → x ∉ stackUsed depth m →
        m'.mem x = m.mem x)
      ∧ c' = if fd = 1 then
          c.printText (Kernel.fromUtf8 (bytesFrom m.mem buf count.toNat))
        else c := by
  obtain ⟨k₁, m', hcall, -, hsystem, hreturned, hmem⟩ :=
    booted_call (m := writeCall m fd buf count) h hset hreach hagree hproper
      hrun
  obtain ⟨hrax, hrdi, hrsi, hrdx⟩ :=
    loadSyscall3_regs m sysWriteNumber (fd.signExtend 64) buf count
  unfold writeCall at hcall
  rw [hrax, hrdi, hrsi, hrdx] at hcall
  have hnamed : fd = 1 → ∀ x ∈ region buf count.toNat,
      x ∈ named (writeCall m fd buf count) := by
    rintro rfl x hx
    exact hx
  obtain ⟨rfl, rfl⟩ := write_ok hcall
  refine ⟨m', hsystem, hreturned, fun x hx hout => ?_, ?_⟩
  · rw [hmem x hx hout]
    exact (hagree x hx).symm
  · by_cases hfd : fd = 1
    · have hsame : bytesFrom m.mem buf count.toNat
          = bytesFrom (view O.later k₁) buf count.toNat := by
        refine bytesFrom_congr (fun x hx => ?_) count.isLt.le
        exact hagree x (hproper.pointer x (hnamed hfd x hx))
      rw [hsame]
    · rw [if_neg hfd, if_neg hfd]

end Wrapper

-- ============================================================== the memory

/-- The `syscall` instruction of `sys_anon_allocate`. -/
def allocateCall (m : Machine) (size ptr : Word) : Machine :=
  loadSyscall2 m sysAnonAllocateNumber size ptr

/-- The range `r` of addresses was mapped to nothing in `k`, and is the
process's to read and write in `k'`. -/
structure NewRange (M : PageMapper PT) (k k' : State PT)
    (r : Kernel.Request) : Prop where
  aligned : r.start % 4096 = 0
  unmapped : ∀ x : Word, r.Covers x.toNat → mappingAt M k.table x = none
  owned : ∀ x : Word, r.Covers x.toNat →
    UserAddr M k'.table x ∧ CanStore M k'.table x

/-- A request that the kernel meets is a new range, and its first address
is stored through the pointer. -/
theorem allocate_ok {size ptr : Word} {k₀ : State PT}
    {es : List Kernel.Event} (hlaws : M.Laws BitmapAllocator.allocateFrame)
    (hnum : (numbering k.frames.memoryMap).Nodup)
    (hreach : (sparingSys M debug k₀).Run es k)
    (hharmless : Harmless M size ptr k)
    (hcall : Kernel.anonAllocateSyscall M debug size ptr k = .ok ((), k')) :
    NewRange M k k' ⟨k.rangesEnd, size.toNat⟩
      ∧ (view M k').read ptr 64 = BitVec.ofNat 64 k.rangesEnd := by
  obtain ⟨-, proc, _, _, _, _, _, hgrants, -⟩ :=
    (Kernel.anon_ok hharmless).mp hcall
  obtain ⟨a, ha, hlast, hpages, hend⟩ :=
    (Kernel.userInv_run hlaws hreach).rangesEnd hgrants.current hgrants.mapper
  obtain ⟨-, hfits, -, s, hfresh, hstores, rfl⟩ :=
    (Kernel.anon_granted_iff hgrants.current hpages hgrants.mapper ha
      hlast hharmless).mp hcall
  have hgives := hfresh.gives hlaws hnum
  have hpage : ∀ x : Word,
      Kernel.Request.Covers ⟨k.rangesEnd, size.toNat⟩ x.toNat →
      ∃ p ∈ pageRun a (Kernel.pagesFor size.toNat), ∀ t,
        mappingAt M t x = M.translate t p := by
    intro x hx
    rw [hend, Kernel.covers_iff] at hx
    have hle := hfits.le
    unfold PageRangeInclusive.lastUser at hle
    refine ⟨userPage (x.toNat / 4096), ?_, fun t => ?_⟩
    · exact mem_pageRun.mpr ⟨x.toNat / 4096, by omega, by omega, rfl⟩
    · have hlow : x.toNat < 2 ^ 47 := by omega
      have hmap : mappingAt M t (BitVec.ofNat 64 x.toNat)
          = M.translate t (userPage (x.toNat / 4096)) :=
        Kernel.mappingAt_user hlow
      rw [BitVec.ofNat_toNat, BitVec.setWidth_eq] at hmap
      exact hmap
  refine ⟨⟨?_, fun x hx => ?_, fun x hx => ?_⟩, ?_⟩
  · show k.rangesEnd % 4096 = 0
    omega
  · obtain ⟨p, hp, hmap⟩ := hpage x hx
    rw [hmap]
    exact hgives.unmapped p hp
  · obtain ⟨p, hp, hmap⟩ := hpage x hx
    obtain ⟨f, hf, -⟩ := hgives.mapped p hp
    have hm := (hmap s.1).trans hf
    exact ⟨⟨_, hm, Kernel.userFlags_user⟩, _, hm, Kernel.userFlags_writable⟩
  · rw [hend]
    exact Kernel.read_stored hstores

/-- `sys_anon_allocate`, when it comes back: it returns 0, and `*ptr` is
the first address of pages that were mapped to nothing before and are the
process's now, up to the end of the request and to the end of its last
page. -/
theorem sys_anon_allocate_new (h : Relies O mm table)
    (hset : setUpMemory O requests mm table = .ok (table₀, heap, frames₀))
    (phys : PhysMemory PT) (debug : Bool) (depth : Nat)
    {es : List Kernel.Event}
    (hreach : (sparingSys O.later debug (booted table₀ frames₀ phys)).Run es
      k)
    (hagree : Agrees O.later m k) {size ptr : Word}
    (hproper : Proper O.later depth k (allocateCall m size ptr))
    (hrun : Handles O.later debug depth c k
      (called env (allocateCall m size ptr))
      (env.body .syscallHandler (called env (allocateCall m size ptr))) c'
      k') :
    ∃ errno m', sysAnonAllocate env m size ptr = some (0, errno, m')
      ∧ Returned O.later depth k k' (allocateCall m size ptr) m'
      ∧ NewRange O.later k k' ⟨k.rangesEnd, size.toNat⟩
      ∧ m'.mem.read ptr 64 = BitVec.ofNat 64 k.rangesEnd := by
  obtain ⟨k₁, m', hcall, htable, hsystem, hreturned, hmem⟩ :=
    booted_call (m := allocateCall m size ptr) h hset hreach hagree hproper
      hrun
  have hanon : Kernel.anonAllocateSyscall O.later debug size ptr k
      = .ok ((), k₁) := by
    rcases syscall_effect hcall with ⟨-, -, hanon⟩ | ⟨hindex, -⟩
    · exact hanon
    · exact absurd rfl hindex
  obtain ⟨hnew, hread⟩ :=
    allocate_ok h.later (booted_numbering h hset phys hreach) hreach
      (hproper.call.anon rfl) hanon
  refine ⟨(Libc.doSyscallRet (m'.regs .rax)).2, m', ?_, hreturned,
    ⟨hnew.aligned, hnew.unmapped, ?_⟩, ?_⟩
  · unfold allocateCall at hsystem
    unfold sysAnonAllocate Libc.doSyscall2
    rw [hsystem]
    rfl
  · rw [htable]
    exact hnew.owned
  · rw [← hread]
    refine Lib.read_congr fun i hi => ?_
    have hin : ptr + BitVec.ofNat 64 i ∈ named (allocateCall m size ptr) :=
      Lib.add_mem_region hi (by decide)
    exact hmem _ (hproper.pointer _ hin) (hproper.apart _ hin)

-- =============================================================== a process

/-- It reads a key. -/
theorem sys_read_delivers_key : ∃ (env : Env Callee) (mem : Mem)
    (m' : Machine), systemCall env (readCall (caller mem) 0 wordAt 1)
        = some m'
      ∧ bytesFrom m'.mem wordAt 1 = [42] := by
  obtain ⟨table₀, heap, frames₀, es, k, hset, hrun, -, -, -, hhosts⟩ :=
    loaded_machine
  let m : Machine :=
    readCall (caller (view Boot.plainTable.later k)) 0 wordAt 1
  have hreads : ReadsKey m := ⟨rfl, rfl, rfl, rfl, rfl⟩
  obtain ⟨mem, c', k', hhandles⟩ :=
    key_handles hhosts hreads true (c := ⟨[42], [], false⟩) rfl
  obtain ⟨m', hcall, -, -, hinput⟩ := sys_read_delivers Boot.plain_relies hset
    zeroes true 0 hrun (m := caller (view Boot.plainTable.later k))
    (fun _ _ => rfl) (caller_proper hhosts rfl fun _ => hreads.named)
    hhandles
  refine ⟨_, _, m', hcall, ?_⟩
  exact congrArg (· :: []) (List.cons.inj hinput).1.symm

/-- What the kernel may store to it may load from. -/
theorem canLoad_of_canStore {x : Word} (h : CanStore M table x) :
    Kernel.CanLoad M table x := by
  obtain ⟨n, hn, hflags⟩ := h
  unfold Flags.contains at hflags
  have hboth : n.flags &&& (present ||| writable) = present ||| writable := by
    simpa using hflags
  have hpresent : (present ||| writable) &&& present = present := by decide
  refine ⟨n, hn, ?_⟩
  unfold Flags.contains
  rw [← hpresent, ← BitVec.and_assoc, hboth, hpresent]
  simp

/-- It prints a letter. -/
theorem sys_write_prints_letter : ∃ (env : Env Callee) (mem : Mem)
    (m' : Machine) (c' : Console),
    systemCall env (writeCall (caller mem) 1 wordAt 1) = some m'
      ∧ c'.screen = ['A'] := by
  obtain ⟨table₀, heap, frames₀, es, k, hset, hrun, -, -, -, hhosts⟩ :=
    loaded_machine
  have halone :=
    user_alone (isolated_run Boot.plain_relies hset _ hrun).single
  have hword : ∀ i < 1, UserAddr Boot.plainTable.later k.table
        (wordAt + BitVec.ofNat 64 i)
      ∧ CanStore Boot.plainTable.later k.table
        (wordAt + BitVec.ofNat 64 i) := fun i hi =>
    hhosts.stack _ (wordAt_stack (Lib.add_mem_region (by omega) (by decide)))
  -- the process has the letter in its word
  have hlen : ([65] : List Byte).length < 2 ^ 64 := by decide
  let k₁ : State (Tables PhysFrame) := { k with
    phys := place Boot.plainTable.later k.table k.phys wordAt [65] }
  have hsame : SameBut Boot.plainTable.later k.table
      {x | UserAddr Boot.plainTable.later k.table x} k.phys k₁.phys :=
    word_same hhosts (by decide)
  have hletter : (sparingSys Boot.plainTable.later true
      (booted table₀ frames₀ zeroes)).Run (es ++ [.stores k₁.phys]) k₁ := by
    refine hrun.step ⟨⟨⟨_, rfl⟩, fun y => ?_⟩, trivial⟩
    refine changed_loose (fun a ha n hn => ?_) hsame
    obtain ⟨n', hn', haccess⟩ := ha
    obtain rfl := Option.some.inj (hn'.symm.trans hn)
    exact ⟨hn, haccess⟩
  have hhosts₁ : Hosts Boot.plainTable.later k₁ :=
    ⟨hhosts.stack, hhosts.own⟩
  let m : Machine :=
    writeCall (caller (view Boot.plainTable.later k₁)) 1 wordAt 1
  have hproper : Proper Boot.plainTable.later 0 k₁ m :=
    caller_proper hhosts₁ rfl fun x hx => byte_word hx
  obtain ⟨mem, c', k', hhandles⟩ := leaving_handles true (m := m)
    (c := ⟨[], [], false⟩) (caller_hasStack hhosts₁ rfl)
    (fun x hx => (hhosts₁.stack x (caller_stack rfl hx)).2) fun phys =>
      ⟨_, _, Kernel.bind_ok.mpr ⟨(), _, rfl, Kernel.bind_ok.mpr ⟨(), _,
        Kernel.lockLogger_ok.mpr ⟨rfl, rfl⟩, Kernel.bind_ok.mpr ⟨_, _,
          Kernel.loadBytes_ok.mpr ⟨fun i hi =>
            canLoad_of_canStore (hword i hi).2, rfl, rfl⟩, rfl⟩⟩⟩⟩
  obtain ⟨m', hcall, -, -, hprinted⟩ := sys_write_prints Boot.plain_relies
    hset zeroes true 0 hletter
    (m := caller (view Boot.plainTable.later k₁)) (fun _ _ => rfl) hproper
    hhandles
  have hbyte : bytesFrom (view Boot.plainTable.later k₁) wordAt 1 = [65] :=
    bytesFrom_place halone hlen hword
  have htext : Kernel.fromUtf8 [65] = some "A" := by decide
  refine ⟨_, _, m', c', hcall, ?_⟩
  rw [hprinted, if_pos rfl]
  show (Console.printText _ (Kernel.fromUtf8
    (bytesFrom (view Boot.plainTable.later k₁) wordAt 1))).screen = _
  rw [hbyte, htext]
  rfl

/-- It is given a page. -/
theorem sys_anon_allocate_new_page : ∃ (env : Env Callee) (mem : Mem)
    (errno : Option CInt) (m' : Machine),
    sysAnonAllocate env (caller mem) 4096 wordAt = some (0, errno, m')
      ∧ m'.mem.read wordAt 64 = 0x100000000 := by
  obtain ⟨table₀, heap, frames₀, k, s, hset, hrun, hsched, hmapper, hframes,
    hown, hpages, hfresh⟩ :=
    Boot.plain_machine (pageRun 0x100000 1) (by decide) (by decide)
      (by decide)
  -- a tick, and the process is the current one
  let k₁ : State (Tables PhysFrame) :=
    { k with sched := Sched.ticked Kernel.smallSched 0x9000 }
  have hinv : Sched.TableInv Kernel.smallSched :=
    Sched.tableInv_push (p := Sched.userProcess 0) Sched.tableInv_init rfl
  have htick : (sparingSys Boot.plainTable.later true
      (booted table₀ frames₀ zeroes)).step k
      (.tick 0x9000 (Sched.userStack + 8)) k₁ := by
    refine ⟨⟨Sched.ticked Kernel.smallSched 0x9000, ?_, rfl⟩, trivial⟩
    rw [hsched]
    exact Sched.tick_settles (p := Sched.bootProcess)
      (q := Sched.userProcess 0) hinv 0x9000 rfl (by simp [Sched.bootProcess])
      rfl
  have hhosts : Hosts Boot.plainTable.later k₁ :=
    ⟨fun x hx => stack_usable hpages hx, hown⟩
  let m : Machine :=
    allocateCall (caller (view Boot.plainTable.later k₁)) 4096 wordAt
  have hproper : Proper Boot.plainTable.later 0 k₁ m :=
    caller_proper hhosts rfl fun x hx => hx
  have hproc : k₁.sched.processList[k₁.sched.currentProcess]?
      = some (Sched.userProcess 0).resumed := rfl
  have hlast : 0x100000 ≤ PageRangeInclusive.lastUser := by
    unfold PageRangeInclusive.lastUser
    omega
  have hfits : Kernel.Fits 0x100000 (4096 : Word).toNat := by decide
  have hone : Kernel.pagesFor (4096 : Word).toNat = 1 := by decide
  have hcheck : Kernel.checkPointer true wordAt = .ok () := by decide
  have hstores : ∀ i < 8, CanStore Boot.plainTable.later s.1
      (wordAt + BitVec.ofNat 64 i) := by
    intro i hi
    refine (Kernel.canStore_fresh Boot.plain_relies.later hfits.le hfresh
      _).mpr (.inl ?_)
    exact (hhosts.stack _ (wordAt_stack
      (Lib.add_mem_region hi (by decide)))).2
  have hanon : ∀ phys, Kernel.anonAllocateSyscall Boot.plainTable.later true
      4096 wordAt { k₁ with phys := phys } = .ok ((), _) := fun phys =>
    (Kernel.anon_granted_iff (k := { k₁ with phys := phys }) hproc rfl rfl
      (by omega) hlast (Kernel.harmless_zeroes (k := { k₁ with phys := phys })
        hown _ _)).mpr
        ⟨⟨⟨rfl, rfl⟩, hmapper, hframes⟩, hfits, hcheck, s, hone ▸ hfresh,
          hstores, rfl⟩
  obtain ⟨mem, c', k', hhandles⟩ := leaving_handles true (m := m)
    (c := ⟨[], [], false⟩) (caller_hasStack hhosts rfl)
    (fun x hx => (hhosts.stack x (caller_stack rfl hx)).2) fun phys =>
      ⟨_, _, Kernel.bind_ok.mpr ⟨(), _, hanon phys, rfl⟩⟩
  obtain ⟨errno, m', hcall, -, -, hread⟩ := sys_anon_allocate_new
    Boot.plain_relies hset zeroes true 0 (hrun.step htick)
    (m := caller (view Boot.plainTable.later k₁)) (fun _ _ => rfl) hproper
    hhandles
  exact ⟨_, _, errno, m', hcall, hread⟩

end Bayos.Entry
