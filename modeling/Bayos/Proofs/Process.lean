/-
A process that makes system calls, and what else goes on in the kernel
meanwhile: the processor and the kernel together, as a transition system,
and the kernel's own runs that it refines.

# A process's view

The registers are the process's while it runs; between two of its steps
anything may happen that the kernel does for others, ticks and other
processes' calls and stores included. Through all of it the processor's
memory and the kernel's stay one (`Agrees`), so at each of the process's
calls `call_as_function` applies.
-/
import Bayos.Proofs.Boot
import Bayos.Proofs.Entry

namespace Bayos.Entry

open Rust
open Lib (Word Mem TransSys region)
open Lib.Paging
open Lib.X86
open Bayos.Boot (OffsetPageTable Requests Relies Isolated IsUser
  setUpMemory booted isolated_run)
open Bayos.Memory
open Kernel (State PageMapper PhysMemory Console Byte CanStore Loose
  mappingAt physAddr place view zeroes syscallHandler Alone sparingSys)
open Syscall (Callee systemCall)

variable {PT : Type} {M : PageMapper PT} {debug : Bool} {depth : Nat}

/-- A process, the console and the kernel. -/
structure Process (PT : Type) where
  mach : Machine
  console : Console
  kernel : State PT

/-- What happens: the process computes, it makes a system call, or it
does not run and the kernel does something for others. -/
inductive Step
  | compute
  | call
  | others (e : Kernel.Event)

/-- A process from a state on. The keyboard types and others print at any
time. A process that computes stores to pages of processes only. -/
def processSys (M : PageMapper PT) (debug : Bool) (depth : Nat)
    (s₀ : Process PT) : TransSys (Process PT) Step where
  init s := s = s₀
  step s e s' :=
    match e with
    | .compute => s'.kernel = { s.kernel with phys := s'.kernel.phys }
        ∧ SameBut M s.kernel.table {x | UserAddr M s.kernel.table x}
            s.kernel.phys s'.kernel.phys
        ∧ Agrees M s'.mach s'.kernel
    | .call => ∃ env, Proper M depth s.kernel s.mach
        ∧ Handles M debug depth s.console s.kernel (called env s.mach)
            (env.body .syscallHandler (called env s.mach)) s'.console
            s'.kernel
        ∧ systemCall env s.mach = some s'.mach
    | .others e => (sparingSys M debug s.kernel).step s.kernel e s'.kernel
        ∧ s'.mach.toContext = s.mach.toContext
        ∧ Agrees M s'.mach s'.kernel

variable {O : OffsetPageTable PT} {mm : MemoryRegions}
  {requests : Requests} {table table₀ : PT}
  {heap : Allocator.LinkedListAllocator} {frames₀ : BitmapAllocator}

-- ================================================================ the runs

/-- Pages of processes with a frame each share no byte. -/
theorem user_alone {pt : PT}
    (hsingle : ∀ p q f, IsUser M pt p f → IsUser M pt q f → p = q) :
    Alone M pt {x | UserAddr M pt x} := by
  intro a ha b hb m n hma hmb heq
  obtain ⟨m', hm', hmaccess⟩ := ha
  obtain ⟨n', hn', hnaccess⟩ := hb
  obtain rfl : m' = m := Option.some.inj (hm'.symm.trans hma)
  obtain rfl : n' = n := Option.some.inj (hn'.symm.trans hmb)
  obtain ⟨v, hv, hp⟩ := Kernel.mappingAt_some hma
  obtain ⟨w, hw, hq⟩ := Kernel.mappingAt_some hmb
  have huser : ∀ p ∈ [Page.containingAddress v, .containingAddress w],
      ∀ f fl, M.translate pt p = some ⟨f, fl⟩ → IsUser M pt p f := by
    intro p hmem f fl hpf
    rcases List.mem_pair.mp hmem with rfl | rfl
    · obtain rfl := Option.some.inj (hp.symm.trans hpf)
      exact ⟨_, hp, rfl, hmaccess⟩
    · obtain rfl := Option.some.inj (hq.symm.trans hpf)
      exact ⟨_, hq, rfl, hnaccess⟩
  have halone : Alone M pt (Kernel.addrs
      [Page.containingAddress v, .containingAddress w]) := by
    refine Kernel.alone_addrs fun p hp q hq f fl fl' hpf hqf => ?_
    exact hsingle p q f (huser p hp f fl hpf) (huser q hq f fl' hqf)
  exact halone a ⟨v, hv, by simp⟩ b ⟨w, hw, by simp⟩ m' n' hma hmb heq

/-- What is stored in pages of processes is stored in none of the
kernel's. -/
theorem changed_loose {k j : State PT} {A : Set Word} {phys : Nat → Byte}
    (huser : ∀ a ∈ A, ∀ m, mappingAt M k.table a = some m →
      mappingAt M j.table a = some m ∧ m.flags.contains userAccessible = true)
    (hsame : SameBut M k.table A j.phys phys) {y : Nat}
    (hy : phys y ≠ j.phys y) : Loose M j y := by
  by_contra hnot
  refine hy (hsame y fun a ha m hm heq => hnot (.inl ?_))
  obtain ⟨hm', haccess⟩ := huser a ha m hm
  obtain ⟨v, -, hp⟩ := Kernel.mappingAt_some hm'
  refine ⟨_, m, hp, haccess, ?_⟩
  unfold physAddr at heq
  omega

/-- Stores of bytes, where nothing of the kernel's is, are stores of one
byte after the other. -/
theorem read_run {bs : List Byte} {k₀ k' : State PT} :
    ∀ {a : Word} {k : State PT} {es : List Kernel.Event},
      (∀ i < bs.length, k.SparesAll M {a + BitVec.ofNat 64 i}) →
      (sparingSys M debug k₀).Run es k →
      Kernel.storeBytes M a bs k = .ok ((), k') →
      ∃ es', (sparingSys M debug k₀).Run (es ++ es') k' := by
  induction bs with
  | nil =>
      intro a k es _ hrun h
      obtain ⟨-, rfl⟩ := Kernel.pure_ok.mp h
      refine ⟨[], ?_⟩
      rw [List.append_nil]
      exact hrun
  | cons b bs ih =>
      intro a k es hspared hrun h
      obtain ⟨hfirst, hrest⟩ := (Kernel.forall_bytes_succ
        (P := fun x => k.SparesAll M {x})).mp hspared
      obtain ⟨_, k₁, hbyte, hbytes⟩ := Kernel.bind_ok.mp h
      have hstep : (sparingSys M debug k₀).step k (.read a b) k₁ :=
        ⟨hbyte, hfirst⟩
      obtain ⟨phys, rfl⟩ := Kernel.read_memory hfirst hbyte
      obtain ⟨es', hrun'⟩ :=
        ih (k := { k with phys := phys }) hrest (hrun.step hstep) hbytes
      rw [List.append_assoc] at hrun'
      exact ⟨_, hrun'⟩

/-- What one step of the process is for the kernel, once it is known that
pages of processes share no byte. -/
theorem process_step (hlaws : M.Laws BitmapAllocator.allocateFrame)
    {s₀ s s' : Process PT} {e : Step}
    (hnum : (numbering s.kernel.frames.memoryMap).Nodup)
    (halone : Alone M s.kernel.table {x | UserAddr M s.kernel.table x})
    (hagree : Agrees M s.mach s.kernel)
    (hstep : (processSys M debug depth s₀).step s e s') {k₀ : State PT}
    {es : List Kernel.Event}
    (hrun : (sparingSys M debug k₀).Run es s.kernel) :
    (∃ es', (sparingSys M debug k₀).Run (es ++ es') s'.kernel)
      ∧ Agrees M s'.mach s'.kernel := by
  have hmapped : ∀ {A : Set Word}, (∀ a ∈ A, UserAddr M s.kernel.table a) →
      ∀ a ∈ A, ∀ m, mappingAt M s.kernel.table a = some m →
        mappingAt M s.kernel.table a = some m
          ∧ m.flags.contains userAccessible = true := by
    intro A hA a ha m hm
    obtain ⟨m', hm', haccess⟩ := hA a ha
    obtain rfl := Option.some.inj (hm'.symm.trans hm)
    exact ⟨hm, haccess⟩
  cases e with
  | compute =>
      obtain ⟨hkernel, hsame, hagree'⟩ := hstep
      refine ⟨⟨[.stores s'.kernel.phys], hrun.step ⟨⟨⟨_, hkernel⟩, ?_⟩,
        trivial⟩⟩, hagree'⟩
      exact fun y => changed_loose (hmapped fun _ ha => ha) hsame
  | others e =>
      obtain ⟨hkernel, -, hagree'⟩ := hstep
      exact ⟨⟨[e], hrun.step hkernel⟩, hagree'⟩
  | call =>
      obtain ⟨env, hproper, hhandles, hcall⟩ := hstep
      obtain ⟨k₁, hdirect, hkernel, hsame, m', hcall', -, hagree'⟩ :=
        call_as_function hlaws hnum halone hproper hagree hhandles
      obtain rfl := Option.some.inj (hcall'.symm.trans hcall)
      refine ⟨?_, hagree'⟩
      have hkept : ∀ a ∈ stackUsed depth s.mach, ∀ m,
          mappingAt M s.kernel.table a = some m →
          mappingAt M k₁.table a = some m
            ∧ m.flags.contains userAccessible = true := by
        intro a ha m hm
        exact ⟨syscall_keeps hlaws hnum hproper.call hdirect hm,
          (hmapped hproper.stack a ha m hm).2⟩
      have hstack : (sparingSys M debug k₀).step k₁
          (.stores s'.kernel.phys) s'.kernel :=
        ⟨⟨⟨_, hkernel⟩, fun y => changed_loose hkept hsame⟩, trivial⟩
      rcases syscall_effect hdirect with
        ⟨hindex, -, hanon⟩ | ⟨-, bs, hlen, hsub, hstores⟩
      · -- the pages the process was given, and then the stack
        have hgiven : (sparingSys M debug k₀).step s.kernel
            (.anon s.kernel.sched.currentProcess (s.mach.regs .rdi)
              (s.mach.regs .rsi) ((view M k₁).read (s.mach.regs .rsi) 64))
            k₁ := ⟨⟨rfl, hanon, rfl⟩, hproper.call.anon hindex⟩
        have hboth := (hrun.step hgiven).step hstack
        rw [List.append_assoc] at hboth
        exact ⟨_, hboth⟩
      · -- what the call itself stored, byte by byte, and then the stack
        have hspared : ∀ i < bs.length, s.kernel.SparesAll M
            {s.mach.regs .rsi + BitVec.ofNat 64 i} := by
          rintro i hi _ rfl
          exact hproper.call.named _ (hsub (Lib.add_mem_region hi hlen))
        obtain ⟨es', hread⟩ := read_run hspared hrun hstores
        have hboth := hread.step hstack
        rw [List.append_assoc] at hboth
        exact ⟨_, hboth⟩

theorem booted_numbering (h : Relies O mm table)
    (hset : setUpMemory O requests mm table = .ok (table₀, heap, frames₀))
    (phys : PhysMemory PT) {k : State PT} {es : List Kernel.Event}
    (hrun : (sparingSys O.later debug (booted table₀ frames₀ phys)).Run es
      k) : (numbering k.frames.memoryMap).Nodup := by
  obtain ⟨-, -, rfl⟩ := (Boot.setUpMemory_ok h.map h.boot).mp hset
  have hnum := numbering_nodup h.map.disjoint h.map.paged
  obtain ⟨ps, hgives, -⟩ := Kernel.gives_run h.later hnum hrun
  have hmap : k.frames.memoryMap = mm := hgives.map
  rw [hmap]
  exact hnum

/-- A process and its system calls, from any state after boot on. In
every run the kernel's state is one its own runs reach, and its memory is
the process's. And each call that the process makes properly does what
`syscall_handler` does, called as a function on the registers and memory
that the process has at its `syscall` instruction; the process then goes
on as it left, with memory as the call has left it, and the bytes the
call used below its stack pointer are all it has lost. -/
theorem system_calls (h : Relies O mm table)
    (hset : setUpMemory O requests mm table = .ok (table₀, heap, frames₀))
    (phys : PhysMemory PT) (debug : Bool) (depth : Nat)
    {s₀ s : Process PT} {es : List Kernel.Event}
    (hboot : (sparingSys O.later debug (booted table₀ frames₀ phys)).Run es
      s₀.kernel)
    (hagree : Agrees O.later s₀.mach s₀.kernel) {steps : List Step}
    (hrun : (processSys O.later debug depth s₀).Run steps s) :
    (∃ es', (sparingSys O.later debug (booted table₀ frames₀ phys)).Run
      (es ++ es') s.kernel)
    ∧ Agrees O.later s.mach s.kernel
    ∧ ∀ env c' k', Proper O.later depth s.kernel s.mach →
      Handles O.later debug depth s.console s.kernel (called env s.mach)
        (env.body .syscallHandler (called env s.mach)) c' k' →
      ∃ k₁, syscallHandler O.later debug s.console (s.mach.regs .rax)
          (s.mach.regs .rdi) (s.mach.regs .rsi) (s.mach.regs .rdx) s.kernel
          = .ok (c', k₁)
        ∧ k' = { k₁ with phys := k'.phys }
        ∧ SameBut O.later s.kernel.table (stackUsed depth s.mach) k₁.phys
          k'.phys
        ∧ ∃ m', systemCall env s.mach = some m' ∧ Resumes s.mach m'
          ∧ Agrees O.later m' k' := by
  have hplace : ∀ {k : State PT} {es : List Kernel.Event},
      (sparingSys O.later debug (booted table₀ frames₀ phys)).Run es k →
      (numbering k.frames.memoryMap).Nodup
        ∧ Alone O.later k.table {x | UserAddr O.later k.table x} := by
    intro k es hk
    exact ⟨booted_numbering h hset phys hk,
      user_alone (isolated_run h hset phys hk).single⟩
  have hinv : (∃ es', (sparingSys O.later debug
        (booted table₀ frames₀ phys)).Run (es ++ es') s.kernel)
      ∧ Agrees O.later s.mach s.kernel := by
    refine hrun.invariant (I := fun s => (∃ es', (sparingSys O.later debug
        (booted table₀ frames₀ phys)).Run (es ++ es') s.kernel)
      ∧ Agrees O.later s.mach s.kernel) ?_ ?_
    · intro s hs
      obtain rfl : s = s₀ := hs
      refine ⟨⟨[], ?_⟩, hagree⟩
      rw [List.append_nil]
      exact hboot
    · intro s e s' hI hstep
      obtain ⟨⟨es', hes'⟩, hagree⟩ := hI
      obtain ⟨hnum, halone⟩ := hplace hes'
      obtain ⟨⟨more, hmore⟩, hagree'⟩ :=
        process_step h.later hnum halone hagree hstep hes'
      rw [List.append_assoc] at hmore
      exact ⟨⟨_, hmore⟩, hagree'⟩
  obtain ⟨⟨es', hes'⟩, hagree'⟩ := hinv
  obtain ⟨hnum, halone⟩ := hplace hes'
  refine ⟨⟨es', hes'⟩, hagree', fun env c' k' hproper hhandles => ?_⟩
  exact call_as_function h.later hnum halone hproper hagree' hhandles

-- =============================================================== a process

/-- Where the process keeps a word. -/
def wordAt : Word := 0x1fc100

/-- A process at the top of its stack, about to read a key into its
word. -/
def caller (mem : Mem) : Machine where
  regs
    | .rsi => wordAt
    | .rdx => 1
    | .rsp => 0x200000
    | _ => 0
  rip := 0x400000
  cs := 0x33
  ss := 0x2b
  rflags := 0x202
  mem := mem

/-- A handler that leaves memory as it should be, and returns. -/
def leaving (mem : Mem) (h : Machine) : Machine :=
  { returnValue 0 h with
    rip := mem.read (h.regs .rsp) 64
    mem := mem }

/-- The environment of the stub with that handler. -/
def leavingEnv (mem : Mem) : Env Callee where
  returnAddress _ := 0xffffffff80001000
  body _ := leaving mem
  msrs := ⟨0, 0, 0⟩

theorem called_leaving (mem mem' : Mem) (m : Machine) :
    called (leavingEnv mem) m = called (leavingEnv mem') m := by
  unfold called Syscall.handlerEntry Env.entry
  rfl

/-- Whatever the kernel's call does, there is a handler that does it. -/
theorem leaving_handles {m : Machine} {c : Console} {k : State PT}
    (debug : Bool) (hstack : HasStack M 0 k m)
    (hcan : ∀ x ∈ stackUsed 0 m, CanStore M k.table x)
    (hcall : ∀ phys, ∃ c' k', syscallHandler M debug c (m.regs .rax)
      (m.regs .rdi) (m.regs .rsi) (m.regs .rdx) { k with phys := phys }
        = .ok (c', k')) :
    ∃ mem c' k', Handles M debug 0 c k (called (leavingEnv mem) m)
      ((leavingEnv mem).body .syscallHandler (called (leavingEnv mem) m)) c'
      k' := by
  have hbytes : ∀ i < 72, CanStore M k.table
      ((called (leavingEnv m.mem) m).regs .rsp + BitVec.ofNat 64 i) := by
    intro i hi
    refine hcan _
      (frame_used (leavingEnv m.mem) (depth_small hstack.stack) ?_)
    exact Lib.add_mem_region hi (by decide)
  have hstub := (stub_ok hstack).mpr ⟨hbytes, rfl⟩
  obtain ⟨c', k', hk'⟩ := hcall (place M k.table k.phys
    ((called (leavingEnv m.mem) m).regs .rsp)
    (frameBytes (called (leavingEnv m.mem) m)))
  obtain ⟨hrdi, hrsi, hrdx, hrcx⟩ := called_args (leavingEnv m.mem) m
  rw [← hrdi, ← hrsi, ← hrdx, ← hrcx] at hk'
  have hreturns := returnValue_returns ∅ 0 (called (leavingEnv m.mem) m)
  refine ⟨view M k', c', k', ?_⟩
  rw [called_leaving (view M k') m.mem]
  exact ⟨⟨_, k', hstub, hk', rfl, fun _ _ => rfl⟩, hreturns.saved,
    hreturns.rsp, rfl, fun _ _ => rfl⟩

/-- A kernel with a process whose stack is mapped, in memory that has
nothing of the kernel's in it. -/
structure Hosts (M : PageMapper PT) (k : State PT) : Prop where
  stack : ∀ x ∈ region Sched.userStack 0x4000,
    UserAddr M k.table x ∧ CanStore M k.table x
  own : k.own = (zeroes : PhysMemory PT).own

/-- No byte of that memory is the kernel's. -/
theorem Hosts.spares {k : State PT} (h : Hosts M k) (A : Set Word) :
    k.SparesAll M A := by
  intro x _ n _ b
  rw [h.own]
  rfl

/-- The pages of a stack that was mapped. -/
theorem stack_usable {table : PT}
    (h : ∀ p ∈ Kernel.stackPages,
      ∃ f, M.translate table p = some ⟨f, Kernel.userFlags⟩)
    {x : Word} (hx : x ∈ region Sched.userStack 0x4000) :
    UserAddr M table x ∧ CanStore M table x := by
  obtain ⟨v, hv, hp⟩ := Kernel.stack_mem hx
  obtain ⟨f, hf⟩ := h _ hp
  have hm : mappingAt M table x = some ⟨f, Kernel.userFlags⟩ := by
    rw [Kernel.mappingAt_eq hv]
    exact hf
  have hwrite : Kernel.userFlags.contains (present ||| writable) = true := by
    decide
  exact ⟨⟨_, hm, Kernel.userFlags_user⟩, _, hm, hwrite⟩

/-- The stack of a program that was loaded. -/
theorem loaded_stack {k k' : State PT} {img : Kernel.Image}
    {mapper : Sched.MapperId} {rflags : Word}
    (hlaws : M.Laws BitmapAllocator.allocateFrame)
    (hnum : (numbering k.frames.memoryMap).Nodup)
    (h : Kernel.addUserProcess M debug img mapper rflags k = .ok (.ok (), k'))
    {x : Word} (hx : x ∈ region Sched.userStack 0x4000) :
    UserAddr M k'.table x ∧ CanStore M k'.table x := by
  obtain ⟨ps, entry, mid, last, hloads⟩ := Kernel.loads_of_ok hlaws hnum h
  refine stack_usable (fun p hp => ?_) hx
  obtain ⟨f, hf, -⟩ := hloads.stack.gives.mapped p hp
  rw [hloads.pushed]
  exact ⟨f, hf⟩

/-- The machine of 1024 frames with its program loaded: its stack is the
process's, and the process is second in the table. -/
theorem loaded_machine : ∃ (table₀ : Tables PhysFrame)
    (heap : Allocator.LinkedListAllocator) (frames₀ : BitmapAllocator)
    (es : List Kernel.Event) (k : State (Tables PhysFrame)),
    setUpMemory Boot.plainTable Boot.plainRequests Boot.roomyMap
      Boot.noTables = .ok (table₀, heap, frames₀)
    ∧ (sparingSys Boot.plainTable.later true
        (booted table₀ frames₀ zeroes)).Run es k
    ∧ k.sched = Kernel.smallSched ∧ k.mapperHeld = false
    ∧ k.framesHeld = false ∧ Hosts Boot.plainTable.later k := by
  have hphoff : Kernel.smallImage.ePhoff = .ok 64 := by decide
  obtain ⟨table₀, heap, frames₀, hset, k, hload⟩ :=
    (Boot.bootable_iff Boot.plain_relies hphoff (by decide) (by decide) 0 0
      zeroes).mpr ⟨_, Boot.smallImage_bootable⟩
  have hlaws := Boot.plain_relies.later
  have hstart : (sparingSys Boot.plainTable.later true
      (booted table₀ frames₀ zeroes)).Run [] (booted table₀ frames₀
        zeroes) :=
    .start ⟨rfl, Boot.booted_boot Boot.plain_relies hset zeroes⟩
  have hnum := booted_numbering Boot.plain_relies hset _ hstart
  obtain ⟨ps, phys, hrun⟩ := Kernel.load_run hlaws hnum hstart hload
  obtain ⟨_, _, mid, last, hloads⟩ := Kernel.loads_of_ok hlaws hnum hload
  refine ⟨table₀, heap, frames₀, _, k, hset, hrun, ?_, ?_, ?_,
    fun x hx => loaded_stack hlaws hnum hload hx, ?_⟩
  · rw [hloads.pushed]
    rfl
  · rw [hloads.pushed]
  · rw [hloads.pushed]
  · have hrest := (hloads.segments.append hloads.stack).rest
    rw [hloads.pushed]
    exact congrArg (fun j : State (Tables PhysFrame) => j.own) hrest

/-- What a call from the top of the stack uses. -/
theorem caller_stack {m : Machine} (hrsp : m.regs .rsp = 0x200000) {x : Word}
    (hx : x ∈ stackUsed 0 m) : x ∈ region Sched.userStack 0x4000 := by
  have hbase : Sched.userStack = 0x1fc000 := rfl
  unfold stackUsed at hx
  rw [hrsp, Lib.mem_region] at hx
  rw [Lib.mem_region, hbase]
  bv_omega

theorem wordAt_stack {x : Word} (hx : x ∈ region wordAt 8) :
    x ∈ region Sched.userStack 0x4000 := by
  have hbase : Sched.userStack = 0x1fc000 := rfl
  unfold wordAt at hx
  rw [Lib.mem_region] at hx
  rw [Lib.mem_region, hbase]
  bv_omega

section Caller

variable {m : Machine} {k : State PT} (hhosts : Hosts M k)
  (hrsp : m.regs .rsp = 0x200000)

include hhosts hrsp in
theorem caller_hasStack : HasStack M 0 k m where
  stack x hx := (hhosts.stack x (caller_stack hrsp hx)).1
  spared := hhosts.spares _

include hhosts hrsp in
/-- A call that names no more than the word. -/
theorem caller_proper (hnamed : ∀ x ∈ named m, x ∈ region wordAt 8) :
    Proper M 0 k m where
  toHasStack := caller_hasStack hhosts hrsp
  pointer x hx := (hhosts.stack x (wordAt_stack (hnamed x hx))).1
  apart x hx hused := by
    have hword := hnamed x hx
    unfold wordAt at hword
    unfold stackUsed at hused
    rw [hrsp] at hused
    rw [Lib.mem_region] at hword hused
    bv_omega
  call := ⟨hhosts.spares _, fun _ => Kernel.harmless_zeroes hhosts.own _ _⟩

include hhosts in
/-- What is stored in the word is stored in pages of the process. -/
theorem word_same {bs : List Byte} (hlen : bs.length ≤ 8) :
    SameBut M k.table {x | UserAddr M k.table x} k.phys
      (place M k.table k.phys wordAt bs) := by
  refine fun y hy => Kernel.place_frame fun i hi n hn => hy _ ?_ n hn
  have hin : wordAt + BitVec.ofNat 64 i ∈ region wordAt 8 :=
    Lib.add_mem_region (hi.trans_le hlen) (by decide)
  exact (hhosts.stack _ (wordAt_stack hin)).1

theorem byte_word {x : Word} (hx : x ∈ region wordAt 1) :
    x ∈ region wordAt 8 := by
  rw [Lib.mem_region] at hx ⊢
  omega

/-- A call of `read` for one byte, into the word. -/
structure ReadsKey (m : Machine) : Prop where
  rax : m.regs .rax = 0
  rdi : m.regs .rdi = 0
  rsi : m.regs .rsi = wordAt
  rdx : m.regs .rdx = 1
  rsp : m.regs .rsp = 0x200000

theorem ReadsKey.named {x : Word} (h : ReadsKey m) (hx : x ∈ named m) :
    x ∈ region wordAt 8 := by
  unfold Entry.named at hx
  rw [h.rax, h.rdi, h.rsi, h.rdx] at hx
  exact byte_word hx

include hhosts in
/-- With a key in the pipe it can be handled. -/
theorem key_handles (h : ReadsKey m) (debug : Bool) {c : Console}
    {b : Byte} {rest : List Byte} (hinput : c.input = b :: rest) :
    ∃ mem c' k', Handles M debug 0 c k (called (leavingEnv mem) m)
      ((leavingEnv mem).body .syscallHandler (called (leavingEnv mem) m)) c'
      k' := by
  refine leaving_handles debug (caller_hasStack hhosts h.rsp)
    (fun x hx => (hhosts.stack x (caller_stack h.rsp hx)).2) fun phys => ?_
  have hword : ∀ i < 1, CanStore M k.table
      (wordAt + BitVec.ofNat 64 i) := fun i hi =>
    (hhosts.stack _ (wordAt_stack
      (Lib.add_mem_region (by omega) (by decide)))).2
  have hmemory : Hosts M { k with phys := phys } :=
    ⟨hhosts.stack, hhosts.own⟩
  have hpipe : Kernel.pipeRead M wordAt 1 c.input { k with phys := phys }
      = .ok (_, _) :=
    (Kernel.pipeRead_spared (by decide)
      (hmemory.spares (region wordAt 1))).mpr
      ⟨by rw [hinput]; exact Nat.le_add_left 1 _, rfl, hword, rfl⟩
  have hslice : Kernel.checkSlice debug "slice::from_raw_parts_mut" wordAt 1
      = .ok () := by
    cases debug <;> rfl
  rw [h.rax, h.rdi, h.rsi, h.rdx]
  exact ⟨_, _, Kernel.bind_ok.mpr ⟨(), _, Kernel.lift_ok.mpr ⟨hslice, rfl⟩,
    Kernel.bind_ok.mpr ⟨_, _, hpipe, rfl⟩⟩⟩

end Caller

theorem caller_reads (mem : Mem) : ReadsKey (caller mem) :=
  ⟨rfl, rfl, rfl, rfl, rfl⟩

/-- A process of the loaded machine computes, which fills its word, and
reads a key over it. -/
theorem system_calls_key : ∃ (env : Env Callee)
    (k : State (Tables PhysFrame)) (m' : Machine),
    systemCall env (caller (view Boot.plainTable.later k)) = some m'
      ∧ Resumes (caller (view Boot.plainTable.later k)) m' := by
  obtain ⟨table₀, heap, frames₀, es, k, hset, hrun, -, -, -, hhosts⟩ :=
    loaded_machine
  let k₁ : State (Tables PhysFrame) := { k with
    phys := place Boot.plainTable.later k.table k.phys wordAt [65] }
  have hhosts₁ : Hosts Boot.plainTable.later k₁ :=
    ⟨hhosts.stack, hhosts.own⟩
  let s₀ : Process (Tables PhysFrame) :=
    ⟨caller (view Boot.plainTable.later k), ⟨[42], [], false⟩, k⟩
  let s : Process (Tables PhysFrame) :=
    ⟨caller (view Boot.plainTable.later k₁), ⟨[42], [], false⟩, k₁⟩
  have hcompute : (processSys Boot.plainTable.later true 0 s₀).Run
      ([] ++ [.compute]) s :=
    .step (.start rfl) ⟨rfl, word_same hhosts (by decide), fun _ _ => rfl⟩
  have hreads := caller_reads (view Boot.plainTable.later k₁)
  obtain ⟨mem, c', k', hhandles⟩ :=
    key_handles hhosts₁ hreads true (c := s.console) rfl
  obtain ⟨-, -, hcalls⟩ := system_calls Boot.plain_relies hset zeroes
    true 0 hrun (fun _ _ => rfl) hcompute
  obtain ⟨_, -, -, -, m', hcall, hresumes, -⟩ :=
    hcalls (leavingEnv mem) c' k'
      (caller_proper hhosts₁ rfl fun _ => hreads.named) hhandles
  exact ⟨_, k₁, m', hcall, hresumes⟩

end Bayos.Entry
