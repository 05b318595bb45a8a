/-
What a timer tick does when the outgoing process has been marked DEAD.
`schedule` holds the guard on `PROCESS_LIST` when it calls
`delete_process`, and `delete_process` begins by taking the same spin
lock. The processor that would release it is the one that waits: the
tick never completes, in no reachable state, and nothing is removed.

# The intended effect

`DeathHandled` says what the two functions are written to do together:
the dead entry goes, the others keep their order and their saved rsp,
and the process after the dead one gets the processor.
-/
import Bayos.Proofs.Sched

namespace Bayos.Sched

open Rust
open Lib (TransSys getElem?_modify_some)

-- ===================================================== the intended effect

/-- The current process is DEAD. -/
def CurrentDead (s : Table) : Prop :=
  ∃ p, s.processList[s.currentProcess]? = some p ∧ p.status = .dead

/-- The table without its current process. -/
def survivors (s : Table) : List Process :=
  s.processList.eraseIdx s.currentProcess

/-- Where the process after the current one stands among the
survivors. -/
def heir (s : Table) : Nat :=
  if s.currentProcess < (survivors s).length then s.currentProcess else 0

/-- The tick completes, the survivors are left as they were except that
the process after the dead one is RUNNING and has the processor, and its
saved rsp is returned. -/
def DeathHandled (s : Table) (rsp : U64) : Prop :=
  ∃ ret t, Settles (schedule · rsp s) (ret, t)
    ∧ t.processList = (survivors s).modify (heir s) Process.resumed
    ∧ t.currentProcess = heir s
    ∧ (survivors s)[heir s]?.map Process.rsp = some ret

-- ================================================================ the tick

/-- A bind whose first part waits for a lock waits for it. -/
theorem bind_waits {α β : Type} {x : SchedM α} {f : α → SchedM β}
    {s : Table} {l : Lock} (h : x s = .waits l) :
    (x >>= f) s = .waits l := by
  simp only [bind, h]

/-- A critical section whose body waits waits. -/
theorem withProcessList_waits {α : Type} {body : SchedM α} {s : Table}
    {l : Lock} (hfree : s.listHeld = false)
    (h : body { s with listHeld := true } = .waits l) :
    withProcessList body s = .waits l := by
  unfold withProcessList
  rw [if_neg (by simp [hfree]), h]

theorem withCurrentWrite_waits {α : Type} {body : SchedM α} {s : Table}
    {l : Lock} (hfree : s.currentHeld = .free)
    (h : body { s with currentHeld := .writer } = .waits l) :
    withCurrentWrite body s = .waits l := by
  unfold withCurrentWrite
  rw [hfree]
  simp only [h]

/-- `delete_process` waits for the lock if its caller holds it. -/
theorem deleteProcess_waits {s : Table} (hheld : s.listHeld = true)
    (index : Nat) : deleteProcess index s = .waits .processList := by
  unfold deleteProcess withProcessList
  rw [if_pos hheld]

/-- A tick that finds the outgoing process DEAD waits for the lock it
holds. -/
theorem schedule_dead_waits {s : Table} (hfree : LocksFree s)
    (hdead : CurrentDead s) (rsp : U64) (fuel : Nat) :
    schedule fuel rsp s = .waits .processList := by
  obtain ⟨p, hp, hstatus⟩ := hdead
  have hlt := (List.getElem?_eq_some_iff.mp hp).1
  have hp' := modify_get hp fun p => { p with rsp := rsp }
  have hnot : ¬ (({ p with rsp := rsp } : Process).status ≠ .dead) :=
    fun h => h hstatus
  unfold schedule
  refine withCurrentWrite_waits hfree.current ?_
  refine withProcessList_waits hfree.list ?_
  refine bind_run (a := s.currentProcess) rfl ?_
  refine bind_run (modifyAt_run _ hlt) ?_
  refine bind_run (getAt_run hp') ?_
  rw [if_neg hnot]
  exact bind_waits (deleteProcess_waits rfl _)

/-- So it never completes. -/
theorem not_settles_dead {s : Table} (hfree : LocksFree s)
    (hdead : CurrentDead s) (rsp : U64) (r : U64 × Table) :
    ¬ Settles (schedule · rsp s) r := by
  intro ⟨N, hN⟩
  have hdone := hN N (Nat.le_refl N)
  simp only [schedule_dead_waits hfree hdead] at hdone
  cases hdone

-- ================================================================ the runs

/-- Marking the current process leaves the rest of the table READY. -/
theorem tableInv_markCurrentAsDead {s t : Table} (hinv : TableInv s)
    (hmark : markCurrentAsDead s = .done ((), t)) : TableInv t := by
  rw [markCurrentAsDead_run hinv.free hinv.inside] at hmark
  obtain rfl := (Prod.mk.inj (Outcome.done.inj hmark)).2
  refine ⟨⟨rfl, rfl⟩, ?_, ?_⟩
  · simp only [List.length_modify]
    exact hinv.inside
  · intro i q hq hi
    obtain ⟨p, hp, rfl⟩ := getElem?_modify_some hq
    rw [if_neg (Ne.symm hi)]
    exact hinv.others i p hp hi

/-- A tick that completes has found the outgoing process alive. -/
theorem ticked_of_settles {s : Table} (hinv : TableInv s) {rsp : U64}
    {r : U64 × Table} (h : Settles (schedule · rsp s) r) :
    r.2 = ticked s rsp := by
  obtain ⟨q, hq⟩ := saved_next hinv rsp
  obtain ⟨p, hp⟩ : ∃ p, s.processList[s.currentProcess]? = some p :=
    ⟨_, List.getElem?_eq_getElem hinv.inside⟩
  have halive : p.status ≠ .dead := fun hdead =>
    not_settles_dead hinv.free ⟨p, hp, hdead⟩ rsp _ h
  rw [h.unique (tick_settles hinv rsp hp halive hq)]

/-- Every step of a run, deaths included, keeps the table sound: a tick
that would not is one that never completes. -/
theorem tableInv_step {s t : SchedRun} {e : Event} (hinv : TableInv s.table)
    (hstep : schedSys.step s e t) : TableInv t.table := by
  cases e with
  | tick rsp ret =>
      have hticked : t.table = ticked s.table rsp :=
        ticked_of_settles hinv hstep.1
      rw [hticked]
      exact tableInv_ticked hinv rsp
  | addProcess stack =>
      obtain ⟨hpush, -⟩ := hstep
      unfold addProcess at hpush
      rw [push_run hinv.free] at hpush
      rw [← (Prod.mk.inj (Outcome.done.inj hpush)).2]
      exact tableInv_push hinv rfl
  | addUserProcess mapper =>
      obtain ⟨hpush, -⟩ := hstep
      unfold addUserProcess at hpush
      rw [push_run hinv.free] at hpush
      rw [← (Prod.mk.inj (Outcome.done.inj hpush)).2]
      exact tableInv_push hinv rfl
  | markCurrentAsDead => exact tableInv_markCurrentAsDead hinv hstep.1

theorem tableInv_reachable {s : SchedRun} (h : schedSys.Reachable s) :
    TableInv s.table := by
  refine h.invariant (I := fun s => TableInv s.table) ?_
    fun _ _ _ => tableInv_step
  intro s hinit
  obtain rfl : s = ⟨init, [0]⟩ := hinit
  exact tableInv_init

/-- Death is never handled: in every reachable state whose current
process is DEAD, the next tick waits for ever for `PROCESS_LIST`, which
it holds itself. -/
theorem death_never_handled (s : SchedRun) (hreach : schedSys.Reachable s)
    (hdead : CurrentDead s.table) (rsp : U64) :
    (∀ fuel, schedule fuel rsp s.table = .waits .processList)
      ∧ ¬ DeathHandled s.table rsp := by
  have hfree := (tableInv_reachable hreach).free
  refine ⟨schedule_dead_waits hfree hdead rsp, ?_⟩
  intro hhandled
  obtain ⟨ret, t, hsettles, -⟩ := hhandled
  exact not_settles_dead hfree hdead rsp _ hsettles

/-- The boot process, marked, with one kernel process behind it. -/
def markedBoot : SchedRun where
  table := ⟨[{ bootProcess with status := .dead }, kernelProcess 0x9000],
    0, false, .free⟩
  stored := [0, 0x9000]

theorem markedBoot_reachable : schedSys.Reachable markedBoot := by
  have hadd : schedSys.Run [.addProcess 0x9000]
      ⟨⟨[bootProcess, kernelProcess 0x9000], 0, false, .free⟩,
        [0, 0x9000]⟩ :=
    (TransSys.Run.start rfl).step ⟨rfl, rfl⟩
  exact ⟨[.addProcess 0x9000, .markCurrentAsDead], hadd.step ⟨rfl, rfl⟩⟩

theorem death_never_handled_boot :
    (∀ fuel, schedule fuel 0x500 markedBoot.table = .waits .processList)
      ∧ ¬ DeathHandled markedBoot.table 0x500 :=
  death_never_handled markedBoot markedBoot_reachable ⟨_, rfl, rfl⟩ 0x500

/-- Two processes are enough for it. -/
theorem death_unhandled_with_two :
    ¬ ∀ s, schedSys.Reachable s → 2 ≤ s.table.processList.length →
      CurrentDead s.table → ∀ rsp, DeathHandled s.table rsp := by
  intro h
  have hdead : CurrentDead markedBoot.table := ⟨_, rfl, rfl⟩
  have hfree := (tableInv_reachable markedBoot_reachable).free
  obtain ⟨ret, t, hsettles, -⟩ :=
    h markedBoot markedBoot_reachable (by decide) hdead 0x500
  exact not_settles_dead hfree hdead 0x500 _ hsettles

end Bayos.Sched
