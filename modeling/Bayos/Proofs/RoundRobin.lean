/-
The scheduler invariant and round robin: along every run of ticks,
`add_process` and `add_user_process` from `sched::init` in which no
process dies, the process at the cursor is RUNNING and every other one
is READY, so every tick completes and moves the cursor one place around
the ring.

# The history variable

A run's state pairs the process table with `stored`: for each process
the rsp a tick last stored for it, or its initial rsp if none has.
`SchedInv.stored` says the table never holds anything else, so the value
a tick returns is a statement about the whole history of the run.
-/
import Bayos.Lib.Ring
import Bayos.Proofs.Sched

namespace Bayos.Sched

open Rust
open Lib (TransSys getElem?_modify_some map_modify_of_const
  map_modify_of_eq)
open Lib.Ring (next orbit)

-- =========================================================== the invariant

/-- Runs in which no process is marked DEAD. -/
def aliveSys : TransSys SchedRun Event :=
  schedSys.guard fun _ e => e ≠ .markCurrentAsDead

/-- The table is sound, the process at the cursor is RUNNING, and the
table holds for each process what was last stored for it. -/
structure SchedInv (s : SchedRun) : Prop where
  table : TableInv s.table
  running : ∀ p, s.table.processList[s.table.currentProcess]? = some p →
    p.status = .running
  stored : s.table.processList.map Process.rsp = s.stored

/-- The rsp fields after the outgoing one is stored. -/
theorem saved_rsp (s : Table) (rsp : U64) :
    (saved s rsp).map Process.rsp
      = (s.processList.map Process.rsp).set s.currentProcess rsp := by
  unfold saved
  apply map_modify_of_const
  intro p
  rfl

/-- Giving a process the processor leaves every rsp alone. -/
theorem ticked_rsp (s : Table) (rsp : U64) :
    (ticked s rsp).processList.map Process.rsp
      = (s.processList.map Process.rsp).set s.currentProcess rsp := by
  rw [← saved_rsp]
  unfold ticked
  apply map_modify_of_eq
  intro p
  rfl

/-- A tick completes and returns what is stored for the next process
around the ring. -/
theorem tick_returns {s : SchedRun} (hinv : SchedInv s) (rsp : U64) :
    ∃ ret, Settles (schedule · rsp s.table) (ret, ticked s.table rsp)
      ∧ (s.stored.set s.table.currentProcess rsp)[nextIndex s.table]?
        = some ret := by
  obtain ⟨p, hp⟩ : ∃ p, s.table.processList[s.table.currentProcess]?
      = some p := ⟨_, List.getElem?_eq_getElem hinv.table.inside⟩
  have halive : p.status ≠ .dead := by
    rw [hinv.running p hp]
    decide
  obtain ⟨q, hq⟩ := saved_next hinv.table rsp
  refine ⟨q.rsp, tick_settles hinv.table rsp hp halive hq, ?_⟩
  rw [← hinv.stored, ← saved_rsp, List.getElem?_map, hq]
  rfl

/-- A tick keeps the invariant. -/
theorem schedInv_tick {s s' : SchedRun} {rsp : U64} (hinv : SchedInv s)
    (htable : s'.table = ticked s.table rsp)
    (hstored : s'.stored = s.stored.set s.table.currentProcess rsp) :
    SchedInv s' := by
  refine ⟨?_, ?_, ?_⟩
  · rw [htable]
    exact tableInv_ticked hinv.table rsp
  · intro p hp
    rw [htable] at hp
    obtain ⟨q, -, rfl⟩ := getElem?_modify_some hp
    have heq : nextIndex s.table = (ticked s.table rsp).currentProcess := rfl
    rw [if_pos heq]
    rfl
  · rw [htable, ticked_rsp, hinv.stored, hstored]

/-- Appending a READY process keeps the invariant. -/
theorem schedInv_push {s s' : SchedRun} {p : Process} (hinv : SchedInv s)
    (hready : p.status = .ready)
    (hpush : withProcessList (push p) s.table = .done ((), s'.table))
    (hstored : s'.stored = s.stored ++ [p.rsp]) : SchedInv s' := by
  rw [push_run hinv.table.free] at hpush
  have htable := (Prod.mk.inj (Outcome.done.inj hpush)).2
  refine ⟨?_, ?_, ?_⟩
  · rw [← htable]
    exact tableInv_push hinv.table hready
  · intro q hq
    rw [← htable] at hq
    simp only at hq
    rw [List.getElem?_append_left hinv.table.inside] at hq
    exact hinv.running q hq
  · rw [← htable, hstored, ← hinv.stored, List.map_append]
    rfl

theorem schedInv_init {s : SchedRun} (hinit : aliveSys.init s) :
    SchedInv s := by
  obtain rfl : s = ⟨init, [0]⟩ := hinit
  refine ⟨tableInv_init, ?_, rfl⟩
  intro p hp
  obtain rfl : bootProcess = p := Option.some.inj hp
  rfl

/-- Every step of a run without deaths keeps the invariant. -/
theorem schedInv_step {s s' : SchedRun} {e : Event} (hinv : SchedInv s)
    (hstep : aliveSys.step s e s') : SchedInv s' := by
  obtain ⟨hstep, halive⟩ := hstep
  cases e with
  | tick rsp ret =>
      obtain ⟨hsettles, hstored⟩ := hstep
      obtain ⟨ret', hsettles', -⟩ := tick_returns hinv rsp
      exact schedInv_tick hinv
        (Prod.mk.inj (hsettles.unique hsettles')).2 hstored
  | addProcess stack => exact schedInv_push hinv rfl hstep.1 hstep.2
  | addUserProcess mapper => exact schedInv_push hinv rfl hstep.1 hstep.2
  | markCurrentAsDead => exact absurd rfl halive

theorem schedInv_run {es : List Event} {s : SchedRun}
    (hrun : aliveSys.Run es s) : SchedInv s :=
  hrun.invariant (fun _ => schedInv_init) fun _ _ _ => schedInv_step

-- ============================================================= round robin

/-- Consecutive ticks and the processes they select. -/
inductive Ticks : Table → List U64 → List Nat → Table → Prop
  | nil (s : Table) : Ticks s [] [] s
  | cons {s t u : Table} {rsp ret : U64} {rsps : List U64}
      {sel : List Nat} :
      Settles (schedule · rsp s) (ret, t) → Ticks t rsps sel u →
      Ticks s (rsp :: rsps) (t.currentProcess :: sel) u

/-- Ticks can be taken for ever, and the processes they select are the
orbit of the cursor around the ring. -/
theorem ticks_orbit (rsps : List U64) :
    ∀ {s : SchedRun}, SchedInv s →
      (∃ sel u, Ticks s.table rsps sel u)
      ∧ ∀ sel u, Ticks s.table rsps sel u →
          sel = orbit s.table.processList.length s.table.currentProcess
            rsps.length := by
  induction rsps with
  | nil =>
      intro s _
      refine ⟨⟨[], _, .nil _⟩, ?_⟩
      intro sel u h
      cases h
      rfl
  | cons rsp rsps ih =>
      intro s hinv
      obtain ⟨ret, hsettles, -⟩ := tick_returns hinv rsp
      have hinv' : SchedInv ⟨ticked s.table rsp,
          s.stored.set s.table.currentProcess rsp⟩ :=
        schedInv_tick hinv rfl rfl
      obtain ⟨⟨sel, u, hrest⟩, hall⟩ := ih hinv'
      refine ⟨⟨_, u, .cons hsettles hrest⟩, ?_⟩
      intro sel' u' h
      cases h with
      | cons hsettles' hrest' =>
          obtain ⟨-, rfl⟩ := Prod.mk.inj (hsettles'.unique hsettles)
          rw [hall _ _ hrest', ticked_length]
          rfl

/-- The scheduler invariant and round robin. Along every run without
deaths: the cursor is inside the table, the process there is RUNNING and
every other one READY; the table holds for each process the rsp last
stored for it; every tick completes, stores its argument in the outgoing
process alone and returns what is stored for the process it selects; and
any `n` consecutive ticks over the `n` processes select each exactly
once. -/
theorem round_robin (es : List Event) (s : SchedRun)
    (hrun : aliveSys.Run es s) :
    (s.table.currentProcess < s.table.processList.length
      ∧ ∀ i p, s.table.processList[i]? = some p →
          p.status = if i = s.table.currentProcess then .running
            else .ready)
    ∧ s.table.processList.map Process.rsp = s.stored
    ∧ (∀ rsp, ∃ ret t, Settles (schedule · rsp s.table) (ret, t)
        ∧ t.processList.map Process.rsp
          = (s.table.processList.map Process.rsp).set
              s.table.currentProcess rsp
        ∧ (s.stored.set s.table.currentProcess rsp)[t.currentProcess]?
          = some ret)
    ∧ (∀ rsps : List U64, rsps.length = s.table.processList.length →
        (∃ sel u, Ticks s.table rsps sel u)
        ∧ ∀ sel u, Ticks s.table rsps sel u →
            sel.Perm (List.range s.table.processList.length)) := by
  have hinv := schedInv_run hrun
  refine ⟨⟨hinv.table.inside, ?_⟩, hinv.stored, ?_, ?_⟩
  · intro i p hp
    by_cases hi : i = s.table.currentProcess
    · subst hi
      rw [if_pos rfl]
      exact hinv.running p hp
    · rw [if_neg hi]
      exact hinv.table.others i p hp hi
  · intro rsp
    obtain ⟨ret, hsettles, hret⟩ := tick_returns hinv rsp
    exact ⟨ret, _, hsettles, ticked_rsp .., hret⟩
  · intro rsps hlen
    obtain ⟨hexists, hall⟩ := ticks_orbit rsps hinv
    refine ⟨hexists, fun sel u h => ?_⟩
    rw [hall sel u h, hlen]
    exact Lib.Ring.orbit_perm hinv.table.inside

/-- Round robin over the boot process and one kernel process: the first
tick selects the newcomer and returns the base of its stack. -/
theorem round_robin_newcomer :
    ∃ ret t, Settles (schedule · 0x500 ⟨[bootProcess, kernelProcess 0x9000],
        0, false, .free⟩) (ret, t)
      ∧ t.processList.map Process.rsp = [0x500, 0x9000]
      ∧ ([0x500, 0x9000] : List U64)[t.currentProcess]? = some ret := by
  have hrun : aliveSys.Run [.addProcess 0x9000]
      ⟨⟨[bootProcess, kernelProcess 0x9000], 0, false, .free⟩,
        [0, 0x9000]⟩ :=
    (TransSys.Run.start rfl).step ⟨⟨rfl, rfl⟩, by decide⟩
  exact (round_robin _ _ hrun).2.2.1 0x500

end Bayos.Sched
