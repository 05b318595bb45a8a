/-
What the functions of the scheduler compute, one specification each, and
the runs of the scheduler those specifications are about.

# The critical sections

A call is a chain of binds inside critical sections; `bind_run` takes
one link of the chain and `withProcessList_run`, `withCurrentWrite_run`
enter a section whose lock is free. A section that ends leaves its lock
free, so between calls the locks are free in every run (`TableInv`).
-/
import Bayos.Lib.Entries
import Bayos.Lib.Run
import Bayos.Lib.Ring
import Bayos.Model.Sched

namespace Bayos.Sched

open Rust
open Lib (TransSys getElem?_concat_some getElem?_modify_some)
open Lib.Ring (next)

-- ===================================================== the monad, unfolded

/-- A bind whose first part is done goes on from its result. -/
theorem bind_run {α β : Type} {x : SchedM α} {f : α → SchedM β}
    {s t : Table} {a : α} {r : Outcome (β × Table)}
    (h : x s = .done (a, t)) (hr : f a t = r) : (x >>= f) s = r := by
  simp only [bind, h]
  exact hr

/-- A critical section on the free list lock is its body. -/
theorem withProcessList_run {α : Type} {body : SchedM α} {s t : Table}
    {a : α} (hfree : s.listHeld = false)
    (h : body { s with listHeld := true } = .done (a, t)) :
    withProcessList body s = .done (a, { t with listHeld := false }) := by
  unfold withProcessList
  rw [if_neg (by simp [hfree]), h]

/-- A critical section on the free cursor lock is its body. -/
theorem withCurrentWrite_run {α : Type} {body : SchedM α} {s t : Table}
    {a : α} (hfree : s.currentHeld = .free)
    (h : body { s with currentHeld := .writer } = .done (a, t)) :
    withCurrentWrite body s
      = .done (a, { t with currentHeld := .free }) := by
  unfold withCurrentWrite
  rw [hfree]
  simp only [h]

/-- A critical section on the free cursor lock, for reading, is its
body. -/
theorem withCurrentRead_run {α : Type} {body : SchedM α} {s t : Table}
    {a : α} (hfree : s.currentHeld = .free)
    (h : body { s with currentHeld := .readers 1 } = .done (a, t)) :
    withCurrentRead body s
      = .done (a, { t with currentHeld := .free }) := by
  unfold withCurrentRead
  rw [hfree]
  simp only [h]

theorem getAt_run {s : Table} {i : Nat} {p : Process}
    (h : s.processList[i]? = some p) : getAt i s = .done (p, s) := by
  unfold getAt
  rw [h]

theorem modifyAt_run {s : Table} {i : Nat} (f : Process → Process)
    (h : i < s.processList.length) :
    modifyAt i f s
      = .done ((), { s with processList := s.processList.modify i f }) :=
  if_pos h

-- ================================================================ one tick

/-- The entry of a process preempted at `rsp`. -/
def Process.preempted (rsp : U64) (p : Process) : Process :=
  { p with rsp := rsp, status := .ready }

/-- The entry of a process given the processor. -/
def Process.resumed (p : Process) : Process := { p with status := .running }

/-- The table once the outgoing process is saved. -/
def saved (s : Table) (rsp : U64) : List Process :=
  s.processList.modify s.currentProcess (Process.preempted rsp)

/-- The place the cursor moves to. -/
def nextIndex (s : Table) : Nat :=
  next s.processList.length s.currentProcess

/-- The table after a tick that selects the next process. -/
def ticked (s : Table) (rsp : U64) : Table where
  processList := (saved s rsp).modify (nextIndex s) Process.resumed
  currentProcess := nextIndex s
  listHeld := false
  currentHeld := .free

/-- One iteration of the search: the cursor moves to the next place, and
stays if the process there is READY. -/
theorem search_run {s : Table} {q : Process} {i : Nat} (fuel : Nat)
    (hi : i = next s.processList.length s.currentProcess)
    (hq : s.processList[i]? = some q) (hready : q.status = .ready) :
    search (fuel + 1) s
      = .done ((), { s with
          processList := s.processList.modify i Process.resumed
          currentProcess := i }) := by
  have hlt := (List.getElem?_eq_some_iff.mp hq).1
  have hwrap : (if s.processList.length ≤ s.currentProcess + 1
        then setIndex 0 else pure ())
        { s with currentProcess := s.currentProcess + 1 }
      = .done ((), { s with currentProcess := i }) := by
    rw [hi]
    unfold next
    split <;> rfl
  unfold search
  refine bind_run (a := s.currentProcess) (t := s) rfl ?_
  refine bind_run (a := ()) (t := { s with
    currentProcess := s.currentProcess + 1 }) rfl ?_
  refine bind_run (a := s.processList.length) rfl ?_
  refine bind_run (a := s.currentProcess + 1) rfl ?_
  refine bind_run hwrap ?_
  refine bind_run (a := i) rfl ?_
  refine bind_run (getAt_run hq) ?_
  rw [if_pos hready]
  exact modifyAt_run _ hlt

/-- A process that is there is there after its fields are assigned to. -/
theorem modify_get {l : List Process} {i : Nat} {p : Process}
    (h : l[i]? = some p) (f : Process → Process) :
    (l.modify i f)[i]? = some (f p) := by
  rw [List.getElem?_modify_eq, h]
  rfl

/-- What a tick does when the outgoing process is alive and the next one
is READY: save, move the cursor once, return the stored rsp of the
process there. -/
theorem schedule_run {s : Table} {rsp : U64} {p q : Process} (fuel : Nat)
    (hlist : s.listHeld = false) (hcur : s.currentHeld = .free)
    (hp : s.processList[s.currentProcess]? = some p)
    (halive : p.status ≠ .dead)
    (hq : (saved s rsp)[nextIndex s]? = some q)
    (hready : q.status = .ready) :
    schedule (fuel + 1) rsp s = .done (q.rsp, ticked s rsp) := by
  have hlt := (List.getElem?_eq_some_iff.mp hp).1
  have hp' := modify_get hp fun p => { p with rsp := rsp }
  -- the two assignments to the outgoing entry, as one
  have hsaved : (s.processList.modify s.currentProcess
        fun p => { p with rsp := rsp }).modify s.currentProcess
        (fun p => { p with status := .ready })
      = saved s rsp := by
    unfold saved
    rw [List.modify_modify_eq]
    rfl
  have hnext : nextIndex s
      = next (saved s rsp).length s.currentProcess := by
    unfold nextIndex saved
    rw [List.length_modify]
  have hget := modify_get hq Process.resumed
  unfold schedule
  refine withCurrentWrite_run hcur (t := { ticked s rsp with
    currentHeld := .writer }) ?_
  refine withProcessList_run hlist (t := { ticked s rsp with
    listHeld := true, currentHeld := .writer }) ?_
  refine bind_run (a := s.currentProcess) rfl ?_
  refine bind_run (modifyAt_run _ hlt) ?_
  refine bind_run (getAt_run hp') ?_
  rw [if_pos halive]
  refine bind_run (modifyAt_run _ (by simpa using hlt)) ?_
  rw [hsaved]
  refine bind_run (search_run fuel hnext hq hready) ?_
  refine bind_run (a := nextIndex s) rfl ?_
  exact bind_run (getAt_run hget) rfl

-- ================================================================= the run

/-- A fuelled call completes with `r`: from some fuel on, that is its
outcome. -/
def Settles {α : Type} (f : Nat → Outcome α) (r : α) : Prop :=
  ∃ N, ∀ fuel, N ≤ fuel → f fuel = .done r

/-- A call completes in one way only. -/
theorem Settles.unique {α : Type} {f : Nat → Outcome α} {r r' : α}
    (h : Settles f r) (h' : Settles f r') : r = r' := by
  obtain ⟨N, hN⟩ := h
  obtain ⟨N', hN'⟩ := h'
  have h₁ := hN (max N N') (Nat.le_max_left ..)
  have h₂ := hN' (max N N') (Nat.le_max_right ..)
  exact Outcome.done.inj (h₁.symm.trans h₂)

/-- The scheduler with its history variable: the rsp last stored for each
process. -/
structure SchedRun where
  table : Table
  stored : List U64

/-- The calls of a run; a tick carries what `schedule` returned. -/
inductive Event
  | tick (rsp ret : U64)
  | addProcess (stack : U64)
  | addUserProcess (mapper : MapperId)
  | markCurrentAsDead
  deriving DecidableEq

/-- The scheduler under the calls that reach it. -/
def schedSys : TransSys SchedRun Event where
  init s := s = ⟨init, [0]⟩
  step s e s' :=
    match e with
    | .tick rsp ret =>
        Settles (schedule · rsp s.table) (ret, s'.table)
          ∧ s'.stored = s.stored.set s.table.currentProcess rsp
    | .addProcess stack =>
        addProcess stack s.table = .done ((), s'.table)
          ∧ s'.stored = s.stored ++ [stack]
    | .addUserProcess mapper =>
        addUserProcess mapper s.table = .done ((), s'.table)
          ∧ s'.stored = s.stored ++ [userStack + 8]
    | .markCurrentAsDead =>
        Sched.markCurrentAsDead s.table = .done ((), s'.table)
          ∧ s'.stored = s.stored

/-- Between calls both locks are free. -/
structure LocksFree (s : Table) : Prop where
  list : s.listHeld = false
  current : s.currentHeld = .free

/-- A push is all `add_process` and `add_user_process` do to the
table. -/
theorem push_run {s : Table} (hfree : LocksFree s) (p : Process) :
    withProcessList (push p) s
      = .done ((), { s with
          processList := s.processList ++ [p], listHeld := false }) :=
  withProcessList_run hfree.list (t := { s with
    processList := s.processList ++ [p], listHeld := true }) rfl

/-- `mark_current_as_dead` changes one status. -/
theorem markCurrentAsDead_run {s : Table} (hfree : LocksFree s)
    (hcur : s.currentProcess < s.processList.length) :
    markCurrentAsDead s
      = .done ((), { s with
          processList := s.processList.modify s.currentProcess
            fun p => { p with status := .dead }
          listHeld := false, currentHeld := .free }) := by
  unfold markCurrentAsDead
  refine withProcessList_run hfree.list (t := { s with
    processList := s.processList.modify s.currentProcess
      fun p => { p with status := .dead }
    listHeld := true, currentHeld := .free }) ?_
  refine withCurrentRead_run hfree.current (t := { s with
    processList := s.processList.modify s.currentProcess
      fun p => { p with status := .dead }
    listHeld := true, currentHeld := .readers 1 }) ?_
  apply bind_run (a := s.currentProcess) rfl
  exact modifyAt_run _ hcur

-- ================================================= the table between calls

/-- What holds of the table between the calls of any run. -/
structure TableInv (s : Table) : Prop where
  free : LocksFree s
  inside : s.currentProcess < s.processList.length
  others : ∀ i p, s.processList[i]? = some p → i ≠ s.currentProcess →
    p.status = .ready

theorem tableInv_init : TableInv init := by
  refine ⟨⟨rfl, rfl⟩, by decide, ?_⟩
  intro i p hp hi
  obtain ⟨hlt, -⟩ := List.getElem?_eq_some_iff.mp hp
  have h1 : i < 1 := hlt
  have h0 : i ≠ 0 := hi
  omega

theorem saved_length (s : Table) (rsp : U64) :
    (saved s rsp).length = s.processList.length :=
  List.length_modify ..

theorem ticked_length (s : Table) (rsp : U64) :
    (ticked s rsp).processList.length = s.processList.length := by
  unfold ticked
  rw [List.length_modify, saved_length]

/-- Saving the outgoing process makes every process READY. -/
theorem saved_ready {s : Table} (hinv : TableInv s) (rsp : U64) {i : Nat}
    {q : Process} (hq : (saved s rsp)[i]? = some q) :
    q.status = .ready := by
  obtain ⟨p, hp, rfl⟩ := getElem?_modify_some hq
  by_cases hi : s.currentProcess = i
  · rw [if_pos hi]
    rfl
  · rw [if_neg hi]
    exact hinv.others i p hp (Ne.symm hi)

/-- The place the cursor moves to holds a process. -/
theorem saved_next {s : Table} (hinv : TableInv s) (rsp : U64) :
    ∃ q, (saved s rsp)[nextIndex s]? = some q := by
  have hnext : nextIndex s < (saved s rsp).length := by
    rw [saved_length]
    exact Lib.Ring.next_lt (by have := hinv.inside; omega)
  exact ⟨_, List.getElem?_eq_getElem hnext⟩

/-- A tick that finds the outgoing process alive completes, after one
iteration of its search loop. -/
theorem tick_settles {s : Table} (hinv : TableInv s) (rsp : U64)
    {p q : Process} (hp : s.processList[s.currentProcess]? = some p)
    (halive : p.status ≠ .dead) (hq : (saved s rsp)[nextIndex s]? = some q) :
    Settles (schedule · rsp s) (q.rsp, ticked s rsp) := by
  refine ⟨1, fun fuel hfuel => ?_⟩
  obtain ⟨f, rfl⟩ := Nat.exists_eq_add_of_le' hfuel
  exact schedule_run f hinv.free.list hinv.free.current hp halive hq
    (saved_ready hinv rsp hq)

/-- The table after such a tick. -/
theorem tableInv_ticked {s : Table} (hinv : TableInv s) (rsp : U64) :
    TableInv (ticked s rsp) := by
  refine ⟨⟨rfl, rfl⟩, ?_, ?_⟩
  · rw [ticked_length]
    exact Lib.Ring.next_lt (by have := hinv.inside; omega)
  · intro i p hp hi
    obtain ⟨q, hq, rfl⟩ := getElem?_modify_some hp
    have hne : nextIndex s ≠ i := Ne.symm hi
    rw [if_neg hne]
    exact saved_ready hinv rsp hq

/-- The table after a READY process is appended. -/
theorem tableInv_push {s : Table} {p : Process} (hinv : TableInv s)
    (hready : p.status = .ready) :
    TableInv { s with
      processList := s.processList ++ [p], listHeld := false } := by
  have hin := hinv.inside
  refine ⟨⟨rfl, hinv.free.current⟩, ?_, ?_⟩
  · simp only [List.length_append]
    omega
  · intro i q hq hi
    simp only at hq hi
    rcases getElem?_concat_some hq with hold | ⟨-, rfl⟩
    · exact hinv.others i q hold hi
    · exact hready

end Bayos.Sched
