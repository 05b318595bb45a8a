/-
What free frames hold reaches the process that is given them.

# Where

The pages of a stack are not cleared, and the timer handler pops the
first registers of a process from between the thread control block's word
and the frame, where `add_user_process` stores nothing
(`Loads.stackByte`). So the low byte of the first `r15` is byte 8 of
whatever was in the frame behind 0x1fc000, and every state in which a
process is loaded has a twin, different in that byte alone, whose process
starts with another `r15` (`twin`).
-/
import Bayos.Proofs.Image
import Bayos.Proofs.Oblivious

namespace Bayos.Kernel

open Rust
open Lib (Word Mem region)
open Lib.Paging
open Lib.X86 (Reg Machine)
open Bayos.Memory
open Bayos.Sched (MapperId userStack)
open Bayos.Timer (writeUserStack)

variable {PT : Type} {M : PageMapper PT} {debug : Bool}
  {k k' k₂ l l₂ : State PT} {img : Image} {mapper : MapperId}
  {rflags : Word}

-- ==================================================== statement vocabulary

/-- The kernels differ in what free frames hold, and in nothing else. -/
def SameButFree (k k₂ : State PT) : Prop :=
  Alike {y | ∀ f, Free k.frames f → ¬ InFrame f y} k k₂

/-- The machine when `schedule` has chosen a process: the stack pointer
is where the process's own was left. -/
def switched (M : PageMapper PT) (k : State PT) (p : Sched.Process)
    (m : Machine) : Machine :=
  { m with mem := view M k }.set .rsp p.rsp

/-- The machine after the dispatch: the pops of the timer handler, and
its return. -/
def dispatched (M : PageMapper PT) (k : State PT) (p : Sched.Process)
    (m : Machine) : Machine :=
  ((switched M k p m).popAll Timer.popOrder).iretq

/-- Calls of `anon_allocate_syscall`, each a size and a pointer. -/
def anonCalls (M : PageMapper PT) (debug : Bool) :
    List (Word × Word) → KernelM PT Unit
  | [] => pure ()
  | (size, ptr) :: calls => do
      anonAllocateSyscall M debug size ptr
      anonCalls M debug calls

/-- The registers a new process starts with do not depend on what free
frames held. -/
def RegistersHide (M : PageMapper PT) (debug : Bool) (img : Image)
    (mapper : MapperId) (rflags : Word) (k : State PT) : Prop :=
  ∀ k₂ l l₂ p p₂, SameButFree k k₂ →
    addUserProcess M debug img mapper rflags k = .ok (.ok (), l) →
    addUserProcess M debug img mapper rflags k₂ = .ok (.ok (), l₂) →
    l.sched.processList = k.sched.processList ++ [p] →
    l₂.sched.processList = k₂.sched.processList ++ [p₂] →
      ∀ m r, (dispatched M l p m).regs r = (dispatched M l₂ p₂ m).regs r

/-- Nor do the pages it is given, by the loader and by calls of
`anon_allocate_syscall` later on, when the scheduler has made any `t` of
the table of processes. -/
def PagesHide (M : PageMapper PT) (debug : Bool) (img : Image)
    (mapper : MapperId) (rflags : Word) (k : State PT) : Prop :=
  ∀ k₂ l l₂ t calls e e₂, SameButFree k k₂ →
    addUserProcess M debug img mapper rflags k = .ok (.ok (), l) →
    addUserProcess M debug img mapper rflags k₂ = .ok (.ok (), l₂) →
    anonCalls M debug calls { l with sched := t } = .ok ((), e) →
    anonCalls M debug calls { l₂ with sched := t } = .ok ((), e₂) →
      ∀ x m, mappingAt M k.table x = none →
        mappingAt M e.table x = some m →
        m.flags.contains userAccessible = true → view M e x = view M e₂ x

-- ============================================================ a stale byte

/-- Between the thread control block's word and the frame nothing is
stored. -/
theorem writeUserStack_between {m : Mem} {x : Word} (entry rflags : Word)
    (hx : x ∈ region (userStack + 8) 120) :
    writeUserStack m entry rflags x = m x := by
  have htcb : x ∉ region userStack 8 := fun h =>
    Lib.region_disjoint (a := userStack) (j := 0) (k := 8) (by decide)
      (by decide) h hx
  have hframe : x ∉ region (userStack + 120 + 8) 40 :=
    Lib.region_disjoint (a := userStack) (j := 8) (k := 128) (by decide)
      (by decide) hx
  exact (Lib.write_of_notMem htcb).trans (Timer.writeFrame_mem _ hframe)

/-- There, a new process finds what was in the frame it was given. -/
theorem Loads.stackByte {ps : List Page} {entry : Nat}
    {mid last : State PT}
    (h : Loads M img mapper rflags ps entry k mid last l) {x : Word}
    (hx : x ∈ region (userStack + 8) 120) :
    ∃ f, Free k.frames f ∧ mappingAt M k.table x = none
      ∧ mappingAt M l.table x = some ⟨f, userFlags⟩
      ∧ view M l x = k.phys (physAddr ⟨f, userFlags⟩ x) := by
  have hstack : x ∈ addrs stackPages := stack_mem
    (Lib.region_subset (k := 8) (by decide) (by decide) hx)
  obtain ⟨v, hv, hp⟩ := id hstack
  obtain ⟨f, hf, hfree, -⟩ := h.stack.gives.mapped _ hp
  have hunmapped := (h.segments.gives.append h.stack.gives).unmapped _
    (List.mem_append_right ps hp)
  have hlast : mappingAt M last.table x = some ⟨f, userFlags⟩ :=
    (mappingAt_eq hv).trans hf
  have htable : l.table = last.table := by rw [h.pushed]
  have hview : view M l = view M last := by rw [h.pushed]; rfl
  -- the frames of the segments are not free any more, this one is
  have hstale : mid.phys (physAddr ⟨f, userFlags⟩ x)
      = k.phys (physAddr ⟨f, userFlags⟩ x) :=
    h.segments.outside (physAddr_inFrame ⟨f, userFlags⟩ x) (.inr hfree)
  refine ⟨f, h.segments.gives.mono f hfree, (mappingAt_eq hv).trans hunmapped,
    htable ▸ hlast, ?_⟩
  rw [hview, h.stackSeen x hstack, writeUserStack_between _ _ hx, ← hstale]
  unfold seen
  rw [hlast]

-- =================================================================== twins

/-- The address the first popped register is read from. -/
def firstPop : Word := userStack + 8

theorem firstPop_mem : firstPop ∈ region (userStack + 8) 120 :=
  Lib.mem_region.mpr (by decide)

/-- Every load has a twin, from a state that differs in one byte of a
free frame, that leaves the process another byte on its stack. -/
theorem twin (hlaws : M.Laws BitmapAllocator.allocateFrame)
    (hnum : (numbering k.frames.memoryMap).Nodup)
    (h : addUserProcess M debug img mapper rflags k = .ok (.ok (), l)) :
    ∃ k₂ l₂ f, SameButFree k k₂
      ∧ addUserProcess M debug img mapper rflags k₂ = .ok (.ok (), l₂)
      ∧ mappingAt M k.table firstPop = none
      ∧ mappingAt M l.table firstPop = some ⟨f, userFlags⟩
      ∧ view M l firstPop ≠ view M l₂ firstPop := by
  obtain ⟨ps, entry, mid, last, hloads⟩ := loads_of_ok hlaws hnum h
  obtain ⟨f, hfree, hnone, hmap, hbyte⟩ := hloads.stackByte firstPop_mem
  have hin := physAddr_inFrame ⟨f, userFlags⟩ firstPop
  let y := physAddr ⟨f, userFlags⟩ firstPop
  let k₂ : State PT :=
    { k with phys := Function.update k.phys y (k.phys y + 1) }
  have hsame : SameButFree k k₂ := by
    refine ⟨rfl, fun z hz => Function.update_of_ne ?_ _ _⟩
    intro heq
    subst heq
    exact hz f hfree hin
  obtain ⟨l₂, h₂, halike⟩ :=
    Oblivious.addUserProcess debug img mapper rflags _ _ _ _ _ hsame h
  refine ⟨k₂, l₂, f, hsame, h₂, hnone, hmap, ?_⟩
  obtain ⟨ps₂, entry₂, mid₂, last₂, hloads₂⟩ :=
    loads_of_ok (k := k₂) hlaws hnum h₂
  obtain ⟨f₂, -, -, hmap₂, hbyte₂⟩ := hloads₂.stackByte firstPop_mem
  have htable : l₂.table = l.table := by rw [halike.rest]
  rw [htable, hmap] at hmap₂
  obtain rfl : f = f₂ := congrArg Mapping.frame (Option.some.inj hmap₂)
  have hstale : view M l₂ firstPop = k.phys y + 1 :=
    hbyte₂.trans (Function.update_self ..)
  rw [hbyte, hstale]
  generalize k.phys y = b
  bv_omega

/-- The first register popped is the word where the stack pointer
stands. -/
theorem dispatched_r15 (k : State PT) (p : Sched.Process) (m : Machine) :
    (dispatched M k p m).regs .r15 = (view M k).read p.rsp 64 := by
  have horder : Timer.popOrder = .r15 :: Timer.popOrder.tail := by decide
  have hrest := Machine.popAll_regs_of_notMem Timer.popOrder.tail
    ((switched M k p m).pop .r15) (q := .r15) (by decide) (by decide)
  have hrsp : (switched M k p m).regs .rsp = p.rsp := Machine.set_self ..
  have hmem : (switched M k p m).mem = view M k := rfl
  unfold dispatched
  rw [Machine.iretq_regs_of_ne _ (by decide), horder, Machine.popAll, hrest,
    Machine.pop_self, hrsp, hmem]

/-- Words that agree agree in their first byte. -/
theorem first_byte {m m' : Mem} {a : Word}
    (h : m.read a 64 = m'.read a 64) : m a = m' a := by
  refine BitVec.eq_of_getLsbD_eq fun i hi => ?_
  have hbit := congrArg (BitVec.getLsbD · i) h
  simp only [Lib.getLsbD_read _ _ (show i < 64 by omega),
    Nat.div_eq_of_lt hi, Nat.mod_eq_of_lt hi] at hbit
  rw [Lib.add_ofNat_zero] at hbit
  exact hbit

-- ============================================================== the result

/-- A load that returns `Ok` appends a process with this stack pointer. -/
theorem Loads.appended {ps : List Page} {entry : Nat}
    {mid last : State PT}
    (h : Loads M img mapper rflags ps entry k mid last l) :
    l.sched.processList
      = k.sched.processList ++ [Sched.userProcess mapper] := by
  rw [h.pushed]

/-- Old contents of frames reach user space, from every state in which a
process is created, whatever its image: neither its first registers nor
the pages it is given are the same whatever free frames held. No frame is
to be on the memory map twice. -/
theorem leaks_registers_and_pages
    (hlaws : M.Laws BitmapAllocator.allocateFrame)
    (hnum : (numbering k.frames.memoryMap).Nodup) (debug : Bool)
    (h : addUserProcess M debug img mapper rflags k = .ok (.ok (), l)) :
    ¬ RegistersHide M debug img mapper rflags k
      ∧ ¬ PagesHide M debug img mapper rflags k := by
  obtain ⟨k₂, l₂, f, hsame, h₂, hnone, hmap, hne⟩ := twin hlaws hnum h
  constructor
  · intro hregisters
    obtain ⟨_, _, _, _, hloads⟩ := loads_of_ok hlaws hnum h
    have hmap₂ : k₂.frames.memoryMap = k.frames.memoryMap := by
      rw [hsame.rest]
    obtain ⟨_, _, _, _, hloads₂⟩ := loads_of_ok hlaws (hmap₂ ▸ hnum) h₂
    have hr15 := hregisters k₂ l l₂ _ _ hsame h h₂ hloads.appended
      hloads₂.appended ⟨⟨fun _ => 0, 0, 0, 0, 0⟩, fun _ => 0⟩ .r15
    rw [dispatched_r15, dispatched_r15] at hr15
    exact hne (first_byte hr15)
  · intro hpages
    exact hne (hpages k₂ l l₂ l.sched [] l { l₂ with sched := l.sched } hsame
      h h₂ rfl rfl firstPop _ hnone hmap userFlags_user)

theorem leaks_registers_and_pages_small :
    ¬ RegistersHide smallMapper true smallImage 0 0 loaderBoot
      ∧ ¬ PagesHide smallMapper true smallImage 0 0 loaderBoot := by
  obtain ⟨l, h⟩ := smallImage_loads
  exact leaks_registers_and_pages smallMapper_laws
    (numbering_nodup sixteenFrames_wellFormed.disjoint
      sixteenFrames_wellFormed.paged) true h

-- ======================================================== and nothing else

theorem anonCalls_oblivious (calls : List (Word × Word)) :
    Oblivious (anonCalls M debug calls) := by
  induction calls with
  | nil => exact Oblivious.pure ()
  | cons call calls ih =>
      exact Oblivious.bind (Oblivious.anonAllocateSyscall _ _ _) fun _ => ih

/-- A byte of the process's memory can tell two states apart only where
the frame behind it did before the load. -/
theorem only_frames_leak {A : Set Nat} {t : Sched.Table}
    {calls : List (Word × Word)} {e e₂ : State PT} (halike : Alike A k k₂)
    (h : addUserProcess M debug img mapper rflags k = .ok (.ok (), l))
    (h₂ : addUserProcess M debug img mapper rflags k₂ = .ok (.ok (), l₂))
    (hcalls : anonCalls M debug calls { l with sched := t } = .ok ((), e))
    (hcalls₂ : anonCalls M debug calls { l₂ with sched := t }
      = .ok ((), e₂))
    {x : Word} {m : Mapping PhysFrame}
    (hm : mappingAt M e.table x = some m) (hx : physAddr m x ∈ A) :
    view M e x = view M e₂ x := by
  obtain ⟨j, hj, hload⟩ :=
    Oblivious.addUserProcess debug img mapper rflags _ _ _ _ _ halike h
  obtain rfl : l₂ = j := by
    rw [h₂] at hj
    cases hj
    rfl
  have hsched : Alike A { l with sched := t } { l₂ with sched := t } :=
    ⟨by rw [hload.rest], hload.phys⟩
  obtain ⟨j₂, hj₂, hend⟩ :=
    anonCalls_oblivious calls _ _ _ _ _ hsched hcalls
  obtain rfl : e₂ = j₂ := by
    rw [hcalls₂] at hj₂
    cases hj₂
    rfl
  have htable : e₂.table = e.table := by rw [hend.rest]
  unfold view
  rw [htable, hm]
  exact (hend.phys _ hx).symm

-- ============================================================ two machines

/-- The small machine, with one other byte in a frame that is free: byte
8 of the one that will be behind 0x1fc000. -/
def loaderTwin : State (Tables PhysFrame) :=
  { loaderBoot with phys := Function.update loaderBoot.phys 28680 1 }

/-- A byte as the process finds it. -/
def loadedByte (k : State (Tables PhysFrame)) (x : Word) : Option Byte :=
  match addUserProcess smallMapper true smallImage 0 0 k with
  | .ok (.ok (), l) => some (view smallMapper l x)
  | _ => none

theorem loadedByte_some {k : State (Tables PhysFrame)} {x : Word}
    {b : Byte} (h : loadedByte k x = some b) :
    ∃ l, addUserProcess smallMapper true smallImage 0 0 k = .ok (.ok (), l)
      ∧ view smallMapper l x = b := by
  unfold loadedByte at h
  split at h
  · next l heq => exact ⟨l, heq, Option.some.inj h⟩
  · cases h

theorem loaderTwin_same : SameButFree loaderBoot loaderTwin := by
  refine ⟨rfl, fun y hy => Function.update_of_ne ?_ _ _⟩
  intro h
  subst h
  refine hy (frameAt 28672) ⟨6, rfl, by decide⟩ ?_
  unfold InFrame frameAt
  decide

/-- One byte of a free frame apart, and the process starts with another
`r15`. -/
theorem loaderTwin_leaks :
    SameButFree loaderBoot loaderTwin
      ∧ ∃ l l₂, addUserProcess smallMapper true smallImage 0 0 loaderBoot
            = .ok (.ok (), l)
          ∧ addUserProcess smallMapper true smallImage 0 0 loaderTwin
            = .ok (.ok (), l₂)
          ∧ l.sched.processList
            = loaderBoot.sched.processList ++ [Sched.userProcess 0]
          ∧ l₂.sched.processList
            = loaderTwin.sched.processList ++ [Sched.userProcess 0]
          ∧ ∀ m, (dispatched smallMapper l (Sched.userProcess 0) m).regs .r15
            ≠ (dispatched smallMapper l₂ (Sched.userProcess 0) m).regs
              .r15 := by
  have hnum := numbering_nodup sixteenFrames_wellFormed.disjoint
    sixteenFrames_wellFormed.paged
  obtain ⟨l, h, hbyte⟩ :=
    loadedByte_some (show loadedByte loaderBoot firstPop = some 0 by
      decide +kernel)
  obtain ⟨l₂, h₂, hbyte₂⟩ :=
    loadedByte_some (show loadedByte loaderTwin firstPop = some 1 by
      decide +kernel)
  obtain ⟨_, _, _, _, hloads⟩ := loads_of_ok smallMapper_laws hnum h
  obtain ⟨_, _, _, _, hloads₂⟩ := loads_of_ok smallMapper_laws hnum h₂
  refine ⟨loaderTwin_same, l, l₂, h, h₂, hloads.appended, hloads₂.appended,
    fun m heq => ?_⟩
  rw [dispatched_r15, dispatched_r15] at heq
  have hsame : view smallMapper l firstPop = view smallMapper l₂ firstPop :=
    first_byte heq
  rw [hbyte, hbyte₂] at hsame
  exact absurd hsame (by decide)

end Bayos.Kernel
