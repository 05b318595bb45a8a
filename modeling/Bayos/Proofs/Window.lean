/-
The locks that `add_user_process` holds while the process it loads can
already run. The loader pushes the process to the table with interrupts
off, and turns them on again with its guards on the mapper and the frame
allocator still alive. A tick in that window hands the processor to a
process whose `anon_allocate` wants both, with interrupts off.

# When it goes well

`no_wait_for_loader` is the condition on the steps of a run: no process
turns interrupts off for a section that takes one of the two locks while
another holds one. `waits_for_loader` is the run that hangs.
-/
import Bayos.Lib.Irq.Section
import Bayos.Proofs.Locking

namespace Bayos.Locking

open Lib Lib.Irq

/-- The locks that are held with interrupts on. -/
def loaderLocks : Lock → Bool
  | .mapper | .frameAllocator => true
  | _ => false

/-- The kernel with processes that compute and make system calls. -/
def userKernel : Sys Lock Program Action Test Interrupt Dead :=
  kernel fun _ => userProcess

/-- Where a process turns interrupts off for a section that takes one of
`loaderLocks`, no other process holds one. -/
def SectionClear (s : KernelState) (_ : Label Interrupt) : Prop :=
  s.Entering loaderLocks → ¬ s.HeldByOther loaderLocks

theorem userKernel_flowOk : userKernel.FlowOk handlerLocks :=
  kernel_flowOk fun _ => by decide

theorem handlers_touch_no_loaderLocks (h : Interrupt) :
    (userKernel.handler h).body.touches loaderLocks = false := by
  cases h <;> rfl

theorem start_sectionInv : SectionInv loaderLocks start := by
  intro _ _ hheld
  obtain ⟨i, K, l, hi, hK, -, -⟩ := hheld
  obtain ⟨hlt, -⟩ := List.getElem?_eq_some_iff.mp hK
  exact hi (Nat.lt_one_iff.mp hlt)

/-- In runs that keep to `SectionClear`, nobody ever waits with
interrupts off for the mapper or the frame allocator while a process that
was preempted holds it. -/
theorem no_wait_for_loader {s : KernelState}
    (hreach :
      ((userKernel.toTransSys start).guard SectionClear).Reachable s) :
    ¬ s.Stuck loaderLocks :=
  not_stuck userKernel_flowOk handlers_touch_no_loaderLocks start_flowInv
    start_sectionInv hreach

-- ======================================================== up to the window

/-- Nobody but the first process holds one of `loaderLocks`. -/
def firstOnly (s : KernelState) : Bool :=
  s.cur = 0 && (s.threads.drop 1).all fun K =>
    !holds .mapper K && !holds .frameAllocator K

theorem sectionClear_of_firstOnly {s : KernelState} {e : Label Interrupt}
    (h : firstOnly s = true) : SectionClear s e := by
  intro _ hheld
  obtain ⟨i, K, l, hi, hK, hl, hh⟩ := hheld
  obtain ⟨hcur, hall⟩ := Bool.and_eq_true_iff.mp h
  rw [of_decide_eq_true hcur] at hi
  have hmem : K ∈ s.threads.drop 1 := by
    refine List.mem_iff_getElem?.mpr ⟨i - 1, ?_⟩
    rw [List.getElem?_drop, Nat.add_sub_cancel' (Nat.pos_of_ne_zero hi)]
    exact hK
  have hnone := List.all_eq_true.mp hall K hmem
  rw [Bool.and_eq_true, Bool.not_eq_true', Bool.not_eq_true'] at hnone
  cases l with
  | mapper => exact Bool.noConfusion (hnone.1.symm.trans hh)
  | frameAllocator => exact Bool.noConfusion (hnone.2.symm.trans hh)
  | _ => cases hl

set_option maxRecDepth 8000 in
theorem no_wait_for_loader_window :
    ¬ (window fun _ => userProcess).Stuck loaderLocks := by
  apply no_wait_for_loader
  refine proceed_guarded (fun s e => sectionClear_of_firstOnly) 163
    (TransSys.reachable_init rfl) ?_ rfl
  decide +kernel

-- ======================================================= beyond the window

/-- The loader sleeps in the window, and the process it loaded has `K`
left to do. -/
def switched (on : Bool) (K : List (Frame Lock Program Action Test)) :
    KernelState where
  threads := [.iret true :: loaded, K]
  cur := 1
  on := on
  data _ := false

/-- `anon_allocate_syscall` about to lock the mapper. -/
def anonWaiting : List (Frame Lock Program Action Test) :=
  [ .run anonMapping
  , .run mayPanic
  , .unlock .currentProcess .shared
  , .unlock .processList .exclusive
  , .unmask true
  , .run userProcess ]

theorem switched_reachable :
    (userKernel.toTransSys start).Reachable
      (switched true [.run userProcess]) := by
  have hticking := scheduling_reachable fun _ => userProcess
  have hpicked : (userKernel.toTransSys start).Reachable
      (switched false [.iret true, .run userProcess]) :=
    proceed_reachable 11 hticking rfl
  exact proceed_reachable 1 hpicked rfl

theorem anonWaiting_reachable :
    (userKernel.toTransSys start).Reachable (switched false anonWaiting) := by
  have hcall : (userKernel.toTransSys start).Reachable
      (switched true [.run anonAllocate, .run userProcess]) :=
    replay_reachable [.step true, .step false, .step false, .step false,
      .step true] switched_reachable rfl
  exact proceed_reachable 14 hcall rfl

/-- The process waits for the mapper with interrupts off, and the loader
has it. -/
theorem anonWaiting_stuck : (switched false anonWaiting).Stuck loaderLocks :=
  ⟨rfl, .mapper, .exclusive, _, _, rfl, rfl, 0, _, by decide, rfl, rfl⟩

/-- A tick between the loader's push and its return, and a call of
`anon_allocate`: the process waits for a lock that the loader holds, and
nothing ever happens again. -/
theorem waits_for_loader :
    ¬ (∀ s, (userKernel.toTransSys start).Reachable s →
      ¬ s.Stuck loaderLocks) ∧
    (userKernel.toTransSys start).Reachable (switched false anonWaiting) ∧
    ∀ e, userKernel.step (switched false anonWaiting) e = none := by
  refine ⟨fun h => ?_, anonWaiting_reachable, fun e => ?_⟩
  · exact h _ anonWaiting_reachable anonWaiting_stuck
  · cases e <;> rfl

end Bayos.Locking
