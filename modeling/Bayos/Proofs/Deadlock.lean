/-
Deadlock: no run of the kernel in which nobody calls for the mapper or
the frame allocator with interrupts off while another process holds it
ends in processes that wait for one another.

# Three kinds of locks

The locks of the interrupt handlers are free whenever they are taken
(`Proofs/Locking.lean`). The mapper and the frame allocator are held
with interrupts on, in this order, and may be waited for; so may the
logger, inside which nothing is taken and which no section with
interrupts off takes. The order of the source as a whole is no order:
`add_user_process` takes the process list inside the mapper's guard, and
`anon_allocate` the mapper inside the process list's.
-/
import Bayos.Lib.Irq.Parts
import Bayos.Lib.Irq.Ranked
import Bayos.Proofs.Window

namespace Bayos.Locking

open Lib Lib.Irq Relation

/-- The locks that are waited for. -/
def waitedLocks (l : Lock) : Bool := !handlerLocks l

/-- The order in which they are taken. -/
def lockRank : Lock → Nat
  | .frameAllocator => 1
  | .logger => 2
  | _ => 0

def loggerLock (l : Lock) : Bool := l = .logger

/-- The runs of the kernel, with any processes, that keep to
`SectionClear`. -/
def clearKernel : TransSys KernelState (Label Interrupt) :=
  (anyKernel.toTransSys start).guard SectionClear

variable {s : KernelState}

theorem lockRank_lt (l : Lock) : lockRank l < 3 := by cases l <;> decide

theorem anyKernel_orderedOk : anyKernel.OrderedOk waitedLocks lockRank where
  code _ := (by decide : anyProcess.ordered waitedLocks lockRank = true)
  handler h := by cases h <;> decide
  clear h := by cases h <;> decide

theorem start_orderedInv : OrderedInv waitedLocks lockRank start := by
  intro i K hK
  obtain ⟨hlt, rfl⟩ := List.getElem?_eq_some_iff.mp hK
  obtain rfl : i = 0 := Nat.lt_one_iff.mp hlt
  exact ⟨⟨by decide, fun _ _ hh => Bool.noConfusion hh⟩, trivial⟩

theorem anyProcess_secluded : anyProcess.secluded loggerLock = true := by
  decide

theorem start_secluded :
    PartsInv (fun c => c.secluded loggerLock = true) start := by
  intro K hK
  obtain rfl := List.mem_singleton.mp hK
  exact List.forall_mem_singleton.mpr (by decide : kernelMain.secluded _ = _)

theorem start_loggerInv : SectionInv loggerLock start := by
  intro _ _ hheld
  obtain ⟨i, K, l, hi, hK, -, -⟩ := hheld
  obtain ⟨hlt, -⟩ := List.getElem?_eq_some_iff.mp hK
  exact hi (Nat.lt_one_iff.mp hlt)

/-- What the runs of `clearKernel` keep. -/
structure Orderly (s : KernelState) : Prop where
  flow : FlowInv handlerLocks s
  ordered : OrderedInv waitedLocks lockRank s
  secluded : PartsInv (fun c => c.secluded loggerLock = true) s
  logger : SectionInv loggerLock s
  loader : SectionInv loaderLocks s

theorem orderly_run (hreach : clearKernel.Reachable s) : Orderly s := by
  refine hreach.invariant (I := Orderly) ?_ ?_
  · intro s hs
    obtain rfl : s = start := hs
    exact ⟨start_flowInv, start_orderedInv, start_secluded, start_loggerInv,
      start_sectionInv⟩
  · intro s e s' h hstep
    obtain ⟨hstep, hclear⟩ := hstep
    refine ⟨flowInv_step anyKernel_flowOk h.flow hstep,
      orderedInv_step anyKernel_orderedOk h.ordered hstep,
      partsInv_step (secluded_closed _) (fun _ => anyProcess_secluded)
        (fun i => by cases i <;> decide) h.secluded hstep, ?_, ?_⟩
    · refine sectionInv_step anyKernel_flowOk ?_ h.flow h.logger
        (fun hent => absurd hent (not_entering h.secluded)) hstep
      intro i
      cases i <;> decide
    · refine sectionInv_step anyKernel_flowOk ?_ h.flow h.loader hclear hstep
      intro i
      cases i <;> decide

/-- Nobody is stuck on a lock that is waited for. -/
theorem Orderly.not_stuck (h : Orderly s) : ¬ s.Stuck waitedLocks := by
  intro hstuck
  obtain ⟨hoff, l, m, c, K, hstack, hl, hheld⟩ := hstuck
  cases l with
  | mapper =>
      exact h.loader.not_stuck ⟨hoff, _, m, c, K, hstack, rfl, hheld⟩
  | frameAllocator =>
      exact h.loader.not_stuck ⟨hoff, _, m, c, K, hstack, rfl, hheld⟩
  | logger => exact h.logger.not_stuck ⟨hoff, _, m, c, K, hstack, rfl, hheld⟩
  | _ => cases hl

/-- Deadlock freedom. In every run that keeps to `SectionClear`, as long
as the current process is not DEAD and has not panicked: with interrupts
off it has a step; processes never wait for one another in a circle; and
behind every process that waits for a lock, along the processes that
hold what the one before waits for, there is one that can go on. -/
theorem no_deadlock (hreach : clearKernel.Reachable s)
    (hdead : s.data s.cur = false) (hlive : ∀ K, s.stack ≠ .halted :: K) :
    (s.on = false → s.stack ≠ [] →
      ∀ left, ∃ s', anyKernel.step s (.step left) = some s') ∧
    (∀ i, ¬ TransGen s.WaitsOn i i) ∧
    ∀ i l, s.WaitsFor i l →
      ∃ j, TransGen s.WaitsOn i j ∧ anyKernel.Ready s j := by
  have h := orderly_run hreach
  have hany : (anyKernel.toTransSys start).Reachable s := by
    obtain ⟨es, hrun⟩ := hreach
    exact ⟨es, hrun.unguard⟩
  have hfree : ∀ l m c K, handlerLocks l = true →
      s.stack = .run (.locked l m c) :: K → s.Free l := by
    intro l m c K hl hstack
    refine irq_free_at_lock hl h.flow
      (anyKernel_safeInv hl hany) hstack ?_
    intro hex
    exact Bool.noConfusion (hdead.symm.trans hex.2)
  have hclass : ∀ i l, s.WaitsFor i l → waitedLocks l = true := by
    intro i l hwait
    have hl := waitsFor_class h.flow hfree hwait
    simp [waitedLocks, hl]
  refine ⟨fun hoff hne left => ?_, no_circle h.ordered hclass, ?_⟩
  · obtain ⟨f, K, hstack⟩ := List.exists_cons_of_ne_nil hne
    refine step_of_available hstack ?_ ?_ left
    · rintro rfl
      exact hlive K hstack
    · rintro l m c rfl
      exact available_of_off h.ordered h.flow hoff h.not_stuck hfree
        (fun l hl => by simp [waitedLocks, hl]) hstack
  · intro i l hwait
    exact waits_resolve lockRank_lt h.flow h.ordered hclass hlive
      (3 - lockRank l) hwait (Nat.le_refl _)

-- ==================================================== a process that waits

/-- The current process is not about to turn interrupts off. -/
def calm (s : KernelState) : Bool :=
  match s.stack with
  | .enter true _ :: _ => false
  | _ => true

theorem sectionClear_of_calm {e : Label Interrupt} (h : calm s = true) :
    SectionClear s e := by
  rintro ⟨c, K, hstack, -⟩
  unfold calm at h
  rw [hstack] at h
  cases h

/-- The process that was loaded goes on to load another one. -/
def loading : List (Frame Lock Program Action Test) :=
  [ .run (lock .mapper (lock .frameAllocator (mapPages (mapPages (block
      [ mayPanic
      , .masked (block
          [ mayPanic
          , lock .processList (block
              [push, .spawn .userProcess]) ]) ])))))
  , .run drop
  , .run anyProcess ]

set_option maxRecDepth 8000 in
theorem loading_reachable :
    clearKernel.Reachable (switched true loading) := by
  have hwindow : clearKernel.Reachable (window fun _ => anyProcess) := by
    refine proceed_guarded (fun s e => sectionClear_of_firstOnly) 163
      (TransSys.reachable_init rfl) ?_ rfl
    decide +kernel
  have htick : clearKernel.Reachable
      (ticking (fun _ => anyProcess) [.run timerHandler]) :=
    hwindow.next (e := .interrupt .timer) ⟨rfl, sectionClear_of_calm rfl⟩
  have hback : clearKernel.Reachable (switched true [.run anyProcess]) :=
    proceed_guarded (fun s e => sectionClear_of_calm) 27 htick
      (by decide +kernel) rfl
  exact replay_guarded (fun s e => sectionClear_of_calm)
    [.step true, .step false, .step true, .step true] hback rfl rfl

/-- It waits for the mapper, which the loader has; and the loader can go
on. -/
theorem no_deadlock_loading :
    ∃ j, TransGen (switched true loading).WaitsOn 1 j
      ∧ anyKernel.Ready (switched true loading) j :=
  (no_deadlock loading_reachable rfl fun K h => by cases h).2.2 1 .mapper
    ⟨_, _, _, _, rfl, rfl, rfl⟩

end Bayos.Locking
