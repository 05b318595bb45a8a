/-
What `delete_process` does to the current process when it removes
another one. The current process is a position in `PROCESS_LIST`;
removal moves every process behind the removed one down by one place,
and `CURRENT_PROCESS` stays.

# Which side

A removal behind the current process leaves it in its place. A removal
in front of it moves it down, and `CURRENT_PROCESS` then stands on the
process after it, or past the end: the next tick saves the outgoing
context into that process, or panics. The two sides are told apart by
the status: between calls every process but the current one is READY
(`TableInv.others`), and the current one is not (`Occupied`).
-/
import Mathlib.Data.List.InsertIdx
import Bayos.Proofs.Death
import Bayos.Proofs.RoundRobin

namespace Bayos.Sched

open Rust
open Lib (TransSys getElem?_modify_some)

-- ============================================================= the removal

/-- The table after a removal. -/
def removed (i : Nat) (s : Table) : Table :=
  { s with processList := s.processList.eraseIdx i, listHeld := false }

theorem deleteProcess_run {s : Table} (hfree : LocksFree s) {i : Nat}
    (hi : i < s.processList.length) :
    deleteProcess i s = .done ((), removed i s) := by
  unfold deleteProcess
  refine withProcessList_run hfree.list (t := { s with
    processList := s.processList.eraseIdx i, listHeld := true }) ?_
  exact if_pos hi

/-- The current process is not READY: it is RUNNING or has been marked
DEAD. -/
def Occupied (s : Table) : Prop :=
  ∀ p, s.processList[s.currentProcess]? = some p → p.status ≠ .ready

/-- A process behind the removed one is found one place down, the others
where they were. -/
theorem removed_get (i : Nat) (s : Table) (j : Nat) :
    (removed i s).processList[j]?
      = s.processList[if j < i then j else j + 1]? := by
  unfold removed
  rw [List.getElem?_eraseIdx]
  split <;> rfl

/-- A removal behind the current process leaves the table sound. -/
theorem tableInv_removed {s : Table} (hinv : TableInv s) {i : Nat}
    (hi : s.currentProcess < i) : TableInv (removed i s) := by
  refine ⟨⟨rfl, hinv.free.current⟩, ?_, ?_⟩
  · have hin := hinv.inside
    have hlen := List.length_eraseIdx (l := s.processList) (i := i)
    show s.currentProcess < (s.processList.eraseIdx i).length
    rw [hlen]
    split <;> omega
  · intro j p hp hj
    rw [removed_get] at hp
    refine hinv.others _ p hp ?_
    have hcur : j ≠ s.currentProcess := hj
    split <;> omega

theorem occupied_removed {s : Table} (hocc : Occupied s) {i : Nat}
    (hi : s.currentProcess < i) : Occupied (removed i s) := by
  intro p hp
  have hcur : (removed i s).currentProcess = s.currentProcess := rfl
  rw [hcur, removed_get, if_pos hi] at hp
  exact hocc p hp

-- ================================================================ the runs

/-- What is called in a run with removals. -/
inductive Call
  | event (e : Event)
  | deleteProcess (index : Nat)

/-- The scheduler under the calls that reach it and removals of processes
other than the current one. -/
def deletingSys : TransSys SchedRun Call where
  init := schedSys.init
  step s c s' :=
    match c with
    | .event e => schedSys.step s e s'
    | .deleteProcess i => i ≠ s.table.currentProcess
        ∧ deleteProcess i s.table = .done ((), s'.table)
        ∧ s'.stored = s.stored.eraseIdx i

/-- The call removes nothing in front of the current process. -/
def Behind (s : SchedRun) (c : Call) : Prop :=
  ∀ i, c = .deleteProcess i → s.table.currentProcess < i

theorem occupied_init : Occupied init := by
  intro p hp
  obtain rfl : bootProcess = p := Option.some.inj hp
  decide

theorem occupied_ticked (s : Table) (rsp : U64) :
    Occupied (ticked s rsp) := by
  intro p hp
  obtain ⟨q, -, rfl⟩ := getElem?_modify_some hp
  rw [if_pos (show nextIndex s = (ticked s rsp).currentProcess from rfl)]
  exact Status.noConfusion

theorem occupied_push {s : Table} (hinv : TableInv s) (hocc : Occupied s)
    (p : Process) : Occupied { s with
      processList := s.processList ++ [p], listHeld := false } := by
  intro q hq
  simp only [List.getElem?_append_left hinv.inside] at hq
  exact hocc q hq

theorem occupied_event {s t : SchedRun} {e : Event}
    (hinv : TableInv s.table) (hocc : Occupied s.table)
    (hstep : schedSys.step s e t) : Occupied t.table := by
  cases e with
  | tick rsp ret =>
      have hticked : t.table = ticked s.table rsp :=
        ticked_of_settles hinv hstep.1
      rw [hticked]
      exact occupied_ticked s.table rsp
  | addProcess stack =>
      obtain ⟨hpush, -⟩ := hstep
      unfold addProcess at hpush
      rw [push_run hinv.free] at hpush
      rw [← (Prod.mk.inj (Outcome.done.inj hpush)).2]
      exact occupied_push hinv hocc _
  | addUserProcess mapper =>
      obtain ⟨hpush, -⟩ := hstep
      unfold addUserProcess at hpush
      rw [push_run hinv.free] at hpush
      rw [← (Prod.mk.inj (Outcome.done.inj hpush)).2]
      exact occupied_push hinv hocc _
  | markCurrentAsDead =>
      have hmark := hstep.1
      rw [markCurrentAsDead_run hinv.free hinv.inside] at hmark
      rw [← (Prod.mk.inj (Outcome.done.inj hmark)).2]
      intro q hq
      obtain ⟨p, -, rfl⟩ := getElem?_modify_some hq
      rw [if_pos rfl]
      exact Status.noConfusion

/-- In a run that removes nothing in front of the current process the
table stays sound. -/
theorem deleting_reachable {s : SchedRun}
    (h : (deletingSys.guard Behind).Reachable s) :
    TableInv s.table ∧ Occupied s.table := by
  refine h.invariant (I := fun s => TableInv s.table ∧ Occupied s.table)
    ?_ ?_
  · intro s hinit
    obtain rfl : s = ⟨init, [0]⟩ := hinit
    exact ⟨tableInv_init, occupied_init⟩
  · intro s c t hs hstep
    obtain ⟨hinv, hocc⟩ := hs
    obtain ⟨hstep, hbehind⟩ := hstep
    cases c with
    | event e =>
        exact ⟨tableInv_step hinv hstep, occupied_event hinv hocc hstep⟩
    | deleteProcess i =>
        obtain ⟨-, hdelete, -⟩ := hstep
        have hi := hbehind i rfl
        have htable : t.table = removed i s.table := by
          by_cases hlt : i < s.table.processList.length
          · rw [deleteProcess_run hinv.free hlt] at hdelete
            exact (Prod.mk.inj (Outcome.done.inj hdelete)).2.symm
          · unfold deleteProcess withProcessList remove at hdelete
            rw [if_neg (by simp [hinv.free.list]), if_neg hlt] at hdelete
            cases hdelete
        rw [htable]
        exact ⟨tableInv_removed hinv hi, occupied_removed hocc hi⟩

-- ============================================================= the results

/-- After the removal of process `i`, `CURRENT_PROCESS` denotes the
process that was running; a next tick completes if that process is
alive; and a next tick that completes has saved its rsp into that
process and changed no other saved rsp. -/
def KeepsCurrent (s : Table) (i : Nat) : Prop :=
  ∃ t, deleteProcess i s = .done ((), t)
    ∧ t.processList[t.currentProcess]? = s.processList[s.currentProcess]?
    ∧ ∀ rsp, (¬ CurrentDead s → ∃ r, Settles (schedule · rsp t) r)
      ∧ ∀ ret u, Settles (schedule · rsp t) (ret, u) →
          u.processList.map Process.rsp
            = ((s.processList.map Process.rsp).set s.currentProcess
                rsp).eraseIdx i

/-- A removal behind the current process keeps it current. -/
theorem keepsCurrent_behind {s : Table} (hinv : TableInv s) {i : Nat}
    (hi : s.currentProcess < i) (hlt : i < s.processList.length) :
    KeepsCurrent s i := by
  have hinv' := tableInv_removed hinv hi
  have hsame : (removed i s).processList[s.currentProcess]?
      = s.processList[s.currentProcess]? := by
    rw [removed_get, if_pos hi]
  refine ⟨removed i s, deleteProcess_run hinv.free hlt, hsame, ?_⟩
  intro rsp
  refine ⟨?_, ?_⟩
  · intro halive
    obtain ⟨q, hq⟩ := saved_next hinv' rsp
    have hp := List.getElem?_eq_getElem hinv'.inside
    refine ⟨_, tick_settles hinv' rsp hp ?_ hq⟩
    intro hdead
    refine halive ⟨_, ?_, hdead⟩
    rw [← hsame]
    exact hp
  · intro ret u h
    have hu : u = ticked (removed i s) rsp := ticked_of_settles hinv' h
    have herase : (removed i s).processList.map Process.rsp
        = (s.processList.map Process.rsp).eraseIdx i :=
      (List.eraseIdx_map ..).symm
    rw [hu, ticked_rsp, herase]
    exact List.set_eraseIdx_gt hi

/-- A removal in front of it does not. -/
theorem not_keepsCurrent_front {s : Table} (hinv : TableInv s)
    (hocc : Occupied s) {i : Nat} (hi : i < s.currentProcess) :
    ¬ KeepsCurrent s i := by
  intro hkeeps
  obtain ⟨t, hdelete, hsame, -⟩ := hkeeps
  have hin := hinv.inside
  rw [deleteProcess_run hinv.free (by omega)] at hdelete
  obtain rfl := (Prod.mk.inj (Outcome.done.inj hdelete)).2
  have hcur : (removed i s).currentProcess = s.currentProcess := rfl
  rw [hcur, removed_get, if_neg (by omega)] at hsame
  have hp := List.getElem?_eq_getElem hin
  -- a process READY and not READY
  exact hocc _ hp (hinv.others _ _ (hsame.trans hp) (by omega))

/-- In every state that a run without removals in front of the current
process reaches, the removal of another process keeps the current one
current if and only if it is behind it. -/
theorem delete_keeps_current_iff (s : SchedRun)
    (hreach : (deletingSys.guard Behind).Reachable s) (i : Nat)
    (hi : i < s.table.processList.length)
    (hne : i ≠ s.table.currentProcess) :
    KeepsCurrent s.table i ↔ s.table.currentProcess < i := by
  obtain ⟨hinv, hocc⟩ := deleting_reachable hreach
  constructor
  · intro hkeeps
    by_contra hnot
    exact not_keepsCurrent_front hinv hocc (by omega) hkeeps
  · intro hbehind
    exact keepsCurrent_behind hinv hbehind hi

/-- The boot process and two kernel processes, after the first tick. -/
def twoStarted : SchedRun where
  table := ⟨[⟨0, .ready, 0x500, none, none, none⟩,
    ⟨1, .running, 0x9000, some 0x9000, none, none⟩,
    kernelProcess 0xA000], 1, false, .free⟩
  stored := [0x500, 0x9000, 0xA000]

theorem twoStarted_run : (deletingSys.guard Behind).Reachable twoStarted := by
  have hstart : (deletingSys.guard Behind).Run [] ⟨init, [0]⟩ := .start rfl
  have hone : (deletingSys.guard Behind).Run
      [.event (.addProcess 0x9000)]
      ⟨⟨[bootProcess, kernelProcess 0x9000], 0, false, .free⟩,
        [0, 0x9000]⟩ :=
    hstart.step ⟨⟨rfl, rfl⟩, fun i hi => by cases hi⟩
  have htwo : (deletingSys.guard Behind).Run
      [.event (.addProcess 0x9000), .event (.addProcess 0xA000)]
      ⟨⟨[bootProcess, kernelProcess 0x9000, kernelProcess 0xA000], 0,
        false, .free⟩, [0, 0x9000, 0xA000]⟩ :=
    hone.step ⟨⟨rfl, rfl⟩, fun i hi => by cases hi⟩
  have htick : Settles (schedule · 0x500
      ⟨[bootProcess, kernelProcess 0x9000, kernelProcess 0xA000], 0, false,
        .free⟩) (0x9000, twoStarted.table) := by
    refine ⟨1, fun fuel hfuel => ?_⟩
    obtain ⟨f, rfl⟩ := Nat.exists_eq_add_of_le' hfuel
    rfl
  have hthree : (deletingSys.guard Behind).Run
      [.event (.addProcess 0x9000), .event (.addProcess 0xA000),
        .event (.tick 0x500 0x9000)] twoStarted :=
    htwo.step ⟨⟨htick, rfl⟩, fun i hi => by cases hi⟩
  exact ⟨_, hthree⟩

theorem delete_keeps_current_last :
    KeepsCurrent twoStarted.table 2 ↔ 1 < 2 :=
  delete_keeps_current_iff twoStarted twoStarted_run 2 (by decide)
    (by decide)

/-- With the second of three processes running and the first removed, the
next tick saves the rsp of the second into the third. -/
theorem delete_loses_current :
    ¬ ∀ s, deletingSys.Reachable s → ∀ i, i < s.table.processList.length →
      i ≠ s.table.currentProcess → KeepsCurrent s.table i := by
  intro hall
  obtain ⟨es, hes⟩ := twoStarted_run
  obtain ⟨t, hdelete, -, hticks⟩ :=
    hall twoStarted ⟨es, hes.unguard⟩ 0 (by decide) (by decide)
  obtain rfl := (Prod.mk.inj (Outcome.done.inj hdelete)).2
  have hsettles : Settles (schedule · 0x700 (removed 0 twoStarted.table))
      (0x700, ⟨[⟨1, .running, 0x9000, some 0x9000, none, none⟩,
        ⟨1, .running, 0x700, some 0xA000, none, none⟩], 1, false, .free⟩) := by
    refine ⟨2, fun fuel hfuel => ?_⟩
    obtain ⟨f, rfl⟩ := Nat.exists_eq_add_of_le' hfuel
    rfl
  have hrsps := (hticks 0x700).2 _ _ hsettles
  exact absurd hrsps (by decide)

end Bayos.Sched
