/-
Preemption is invisible: one processor that switches stacks simulates
private register files, one for each process.

# What a process may do

Between two kernel events the current process runs; the model lets it
change every register and all memory but the memory that holds other
processes' contexts: `areas`, a stack for each process, and the stack of
a user process that is loaded but not yet in the table. That is the
assumption that no process writes into another's stack. A tick needs
room on the stack the interrupt goes to, for the same reason: the frame
the processor pushes there is the process's own.

# The private machine

`filesSys` has no memory and no stacks. A process runs by changing its
own file, and a tick only moves the cursor, so that a process gets back
the file it had when it was preempted, or the one it was created with.
-/
import Bayos.Proofs.RoundRobin
import Bayos.Proofs.Timer

namespace Bayos.Preempt

open Lib (TransSys Word Mem region getElem?_concat_some
  getElem?_modify_some)
open Lib.Ring (next)
open Lib.X86
open Bayos.Timer
open Bayos.Sched (Table Process)

-- ================================================== private register files

/-- A register file for each process, the process that runs, and the
file of a process that is loaded but not started. -/
structure Files where
  files : List Context
  cur : Nat
  pending : Option Context

inductive FileEvent
  | exec (c : Context)
  | tick
  | spawn (c : Context)
  | prepare (c : Context)
  | release

/-- The machine of private register files. -/
def filesSys : TransSys Files FileEvent where
  init t := (∃ c, t.files = [c]) ∧ t.cur = 0 ∧ t.pending = none
  step t e t' :=
    match e with
    | .exec c => t' = { t with files := t.files.set t.cur c }
    | .tick => t' = { t with cur := next t.files.length t.cur }
    | .spawn c => t' = { t with files := t.files ++ [c] }
    | .prepare c => t' = { t with pending := some c }
    | .release => ∃ c, t.pending = some c
        ∧ t' = { t with files := t.files ++ [c], pending := none }

-- =========================================================== one processor

/-- Where the linker put the handler and the stack for interrupts from
user mode. -/
structure Layout where
  handler : Word
  tssStack : Word

/-- The timer's gate, and the end of the 20 KiB stack in the TSS. -/
def Layout.gate (l : Layout) : Gate := ⟨l.handler, 8, l.tssStack + 0x5000⟩

/-- The stacks of the user process: its own, and that of its
interrupts. -/
def Layout.userArea (l : Layout) : Set Word :=
  region (0x200000 - 0x5000) 0x5000 ∪ region l.tssStack 0x5000

/-- The processor, the process table, and the stacks of the processes in
the order of the table. -/
structure State where
  mach : Machine
  table : Table
  areas : List (Set Word)
  pending : Option Context

inductive Event
  | exec (c : Context)
  | tick
  | addProcess (stack entry rflags : Word)
  | prepareUser (entry rflags : Word) (regs : Reg → Word)
  | pushUser (mapper : Sched.MapperId)

/-- The memory that the current process must not write. -/
def others (l : Layout) (s : State) : Set Word :=
  {x | (∃ i A, i ≠ s.table.currentProcess ∧ s.areas[i]? = some A ∧ x ∈ A)
    ∨ (s.pending ≠ none ∧ x ∈ l.userArea)}

/-- Memory that belongs to nobody's stack yet. -/
def Fresh (l : Layout) (s : State) (R : Set Word) : Prop :=
  ∀ x ∈ R, (∀ A ∈ s.areas, x ∉ A) ∧ (s.pending ≠ none → x ∉ l.userArea)

/-- Interrupts are on, and the stack a timer interrupt goes to has room
for its frame, the saved registers and a return address. -/
structure Interruptible (l : Layout) (s : State) : Prop where
  enabled : s.mach.rflags &&& interruptFlag ≠ 0
  room : ∃ A, s.areas[s.table.currentProcess]? = some A
    ∧ ∀ x ∈ region (savedRsp l.gate s.mach - 8) 168, x ∈ A

/-- The processor under ticks, and under the calls that create
processes. -/
def preemptSys (l : Layout) : TransSys State Event where
  init s := s.table = Sched.init ∧ (∃ A, s.areas = [A]) ∧ s.pending = none
  step s e s' :=
    match e with
    | .exec c => s'.mach.toContext = c
        ∧ (∀ x ∈ others l s, s'.mach.mem x = s.mach.mem x)
        ∧ s'.table = s.table ∧ s'.areas = s.areas ∧ s'.pending = s.pending
    | .tick => Interruptible l s
        ∧ (∃ env, TimerCallees env l.gate s.mach (others l s) s.table s'.table
          ∧ Lib.X86.exec env timerHandler (s.mach.interrupt l.gate)
            = some s'.mach)
        ∧ s'.areas = s.areas ∧ s'.pending = s.pending
    | .addProcess stack entry rflags => rflags = s.mach.rflags
        ∧ Fresh l s (region stack 0x4000)
        ∧ Sched.addProcess stack s.table = .done ((), s'.table)
        ∧ s'.mach = { s.mach with
            mem := writeKernelStack s.mach.mem stack entry rflags }
        ∧ s'.areas = s.areas ++ [region stack 0x4000]
        ∧ s'.pending = s.pending
    | .prepareUser entry rflags regs => rflags = s.mach.rflags
        ∧ s.pending = none ∧ Fresh l s l.userArea
        ∧ s.mach.mem.words (Sched.userStack + 8) 15 = popOrder.map regs
        ∧ s'.mach = { s.mach with
            mem := writeUserStack s.mach.mem entry rflags }
        ∧ s'.table = s.table ∧ s'.areas = s.areas
        ∧ s'.pending = some (userContext entry rflags regs)
    | .pushUser mapper => s.pending ≠ none
        ∧ Sched.addUserProcess mapper s.table = .done ((), s'.table)
        ∧ s'.mach = s.mach ∧ s'.areas = s.areas ++ [l.userArea]
        ∧ s'.pending = none

/-- The private machine's view of an event: a new process starts with
the frame that was built for it. -/
def Event.view : Event → FileEvent
  | .exec c => .exec c
  | .tick => .tick
  | .addProcess stack entry rflags =>
      .spawn (kernelContext stack entry rflags)
  | .prepareUser entry rflags regs =>
      .prepare (userContext entry rflags regs)
  | .pushUser _ => .release

-- ========================================================== the simulation

/-- A process that is not running: its context `c` is saved inside its
area, where the table says. -/
def Parked (mem : Mem) (p : Process) (A : Set Word) (c : Context) : Prop :=
  (∀ x ∈ region p.rsp 160, x ∈ A) ∧ SavedAt mem p.rsp c

theorem Parked.congr {m m' : Mem} {p : Process} {A : Set Word} {c : Context}
    (h : Parked m p A c) (heq : ∀ x ∈ A, m x = m' x) : Parked m' p A c :=
  ⟨h.1, h.2.congr fun x hx => heq x (h.1 x hx)⟩

/-- The private machine `t` is what processor `s` implements. -/
structure Matches (l : Layout) (s : State) (t : Files) : Prop where
  table : Sched.TableInv s.table
  running : ∀ p, s.table.processList[s.table.currentProcess]? = some p →
    p.status = .running
  areas : s.areas.length = s.table.processList.length
  files : t.files.length = s.table.processList.length
  cur : t.cur = s.table.currentProcess
  apart : ∀ (i j : Nat) (A B : Set Word), i ≠ j → s.areas[i]? = some A →
    s.areas[j]? = some B → ∀ x ∈ A, x ∉ B
  fresh : s.pending ≠ none → ∀ A ∈ s.areas, ∀ x ∈ A, x ∉ l.userArea
  now : t.files[t.cur]? = some s.mach.toContext
  parked : ∀ i p A c, i ≠ s.table.currentProcess →
    s.table.processList[i]? = some p → s.areas[i]? = some A →
    t.files[i]? = some c → Parked s.mach.mem p A c
  pending : t.pending = s.pending
  prepared : ∀ c, s.pending = some c →
    SavedAt s.mach.mem (Sched.userStack + 8) c

variable {l : Layout}

/-- The saved context of the user process lies in its stack. -/
theorem userStack_area {x : Word}
    (hx : x ∈ region (Sched.userStack + 8) 160) :
    x ∈ l.userArea := by
  have hbase : Sched.userStack + 8
      = 0x200000 - 0x5000 + BitVec.ofNat 64 0x1008 := by decide
  rw [hbase] at hx
  exact Or.inl (Lib.region_subset (by decide) (by decide) hx)

theorem matches_init {s : State} (hinit : (preemptSys l).init s) :
    ∃ t, filesSys.init t ∧ Matches l s t := by
  obtain ⟨htable, ⟨A, hareas⟩, hpending⟩ := hinit
  refine ⟨⟨[s.mach.toContext], 0, none⟩, ⟨⟨_, rfl⟩, rfl, rfl⟩, ?_⟩
  refine ⟨htable ▸ Sched.tableInv_init, ?_, by rw [hareas, htable]; rfl,
    by rw [htable]; rfl, by rw [htable]; rfl, ?_,
    fun h => absurd hpending h, rfl, ?_, hpending.symm, ?_⟩
  · intro p hp
    rw [htable] at hp
    obtain rfl : Sched.bootProcess = p := Option.some.inj hp
    rfl
  · intro i j A B hij hA hB
    rw [hareas] at hA hB
    have hi := (List.getElem?_eq_some_iff.mp hA).1
    have hj := (List.getElem?_eq_some_iff.mp hB).1
    rw [List.length_singleton] at hi hj
    omega
  · intro i p A c hi hp
    rw [htable] at hi hp
    have hlt := (List.getElem?_eq_some_iff.mp hp).1
    have hlt1 : i < 1 := hlt
    have hi0 : i ≠ 0 := hi
    omega
  · intro c hc
    rw [hpending] at hc
    cases hc

/-- Running the current process. -/
theorem matches_exec {s s' : State} {t : Files} {c : Context}
    (h : Matches l s t) (hstep : (preemptSys l).step s (.exec c) s') :
    Matches l s' { t with files := t.files.set t.cur c } := by
  obtain ⟨hctx, hmem, htable, hareas, hpending⟩ := hstep
  have hcur : t.cur < t.files.length :=
    (List.getElem?_eq_some_iff.mp h.now).1
  refine ⟨htable ▸ h.table, htable ▸ h.running, ?_, ?_, ?_, ?_, ?_, ?_, ?_,
    ?_, ?_⟩
  · rw [hareas, htable]
    exact h.areas
  · rw [htable, List.length_set]
    exact h.files
  · rw [htable]
    exact h.cur
  · rw [hareas]
    exact h.apart
  · rw [hpending, hareas]
    exact h.fresh
  · rw [hctx]
    exact List.getElem?_set_self hcur
  · intro i p A c' hi hp hA hc'
    rw [htable] at hi hp
    rw [hareas] at hA
    rw [List.getElem?_set_ne (h.cur ▸ Ne.symm hi)] at hc'
    refine (h.parked i p A c' hi hp hA hc').congr fun x hx => ?_
    exact (hmem x (Or.inl ⟨i, A, hi, hA, hx⟩)).symm
  · rw [hpending]
    exact h.pending
  · intro c' hc'
    rw [hpending] at hc'
    refine (h.prepared c' hc').congr fun x hx => ?_
    have hne : s.pending ≠ none := by
      rw [hc']
      exact Option.some_ne_none c'
    exact (hmem x (Or.inr ⟨hne, userStack_area hx⟩)).symm

-- ================================================================== a tick

section Tick

variable {s : State} {t : Files} {env : Env Callee} {table' : Table}
  (h : Matches l s t) (hint : Interruptible l s)
  (hcallees : TimerCallees env l.gate s.mach (others l s) s.table table')
include h hint hcallees

/-- Memory the current process does not own is left alone until the
stack is switched. -/
theorem switched_others {x : Word} (hx : x ∈ others l s) :
    (switched env l.gate s.mach).mem x = s.mach.mem x := by
  obtain ⟨A, hA, hroom⟩ := hint.room
  refine switched_kept hcallees hx fun hin => ?_
  have hxA := hroom x hin
  rcases hx with ⟨i, B, hi, hB, hxB⟩ | ⟨hpending, huser⟩
  · exact h.apart i _ B A hi hB hA x hxB hxA
  · exact h.fresh hpending A (List.mem_of_getElem? hA) x hxA huser

/-- When the stack is switched every process is parked, the one that was
interrupted too. -/
theorem switched_parked {i : Nat} {p : Process} {A : Set Word} {c : Context}
    (hp : (Sched.saved s.table (savedRsp l.gate s.mach))[i]? = some p)
    (hA : s.areas[i]? = some A) (hc : t.files[i]? = some c) :
    Parked (switched env l.gate s.mach).mem p A c := by
  obtain ⟨q, hq, rfl⟩ := getElem?_modify_some hp
  by_cases hi : s.table.currentProcess = i
  · subst hi
    rw [if_pos rfl]
    obtain ⟨B, hB, hroom⟩ := hint.room
    obtain rfl : A = B := Option.some.inj (hA.symm.trans hB)
    have hnow := h.now
    rw [h.cur, hc] at hnow
    refine ⟨fun x hx => hroom x ?_, ?_⟩
    · have hbase : savedRsp l.gate s.mach - 8 + BitVec.ofNat 64 8
          = savedRsp l.gate s.mach := BitVec.sub_add_cancel ..
      apply Lib.region_subset (k := 8) (n := 160) (by decide) (by decide)
      rw [hbase]
      exact hx
    · rw [Option.some.inj hnow]
      exact switched_saved hcallees
  · rw [if_neg hi]
    refine (h.parked i q A c (Ne.symm hi) hq hA hc).congr fun x hx => ?_
    exact (switched_others h hint hcallees
      (Or.inl ⟨i, A, Ne.symm hi, hA, hx⟩)).symm

/-- A tick leaves the table that `schedule` computes, and the processor
in the context of the process that the private machine goes on with. -/
theorem tick_resumes :
    table' = Sched.ticked s.table (savedRsp l.gate s.mach)
      ∧ t.files[next t.files.length t.cur]?
        = some (resumed env l.gate s.mach).toContext := by
  have hsched : Sched.SchedInv
      ⟨s.table, s.table.processList.map Process.rsp⟩ :=
    ⟨h.table, h.running, rfl⟩
  obtain ⟨ret, hsettles, hret⟩ :=
    Sched.tick_returns hsched (savedRsp l.gate s.mach)
  obtain ⟨hrax, htable⟩ :=
    Prod.mk.inj ((schedule_settles hcallees).unique hsettles)
  refine ⟨htable, ?_⟩
  obtain ⟨q, hq⟩ := Sched.saved_next h.table (savedRsp l.gate s.mach)
  have hlt := (List.getElem?_eq_some_iff.mp hq).1
  rw [Sched.saved_length] at hlt
  obtain ⟨A, hA⟩ : ∃ A, s.areas[Sched.nextIndex s.table]? = some A :=
    ⟨_, List.getElem?_eq_getElem (h.areas ▸ hlt)⟩
  obtain ⟨c, hc⟩ : ∃ c, t.files[Sched.nextIndex s.table]? = some c :=
    ⟨_, List.getElem?_eq_getElem (h.files ▸ hlt)⟩
  have hrsp : ret = q.rsp := by
    simp only at hret
    rw [← Sched.saved_rsp, List.getElem?_map, hq] at hret
    exact (Option.some.inj hret).symm
  have hpark := switched_parked h hint hcallees hq hA hc
  have hstand : (switched env l.gate s.mach).regs .rsp = q.rsp :=
    (Machine.set_self ..).trans (hrax.trans hrsp)
  have hnext : next t.files.length t.cur = Sched.nextIndex s.table := by
    rw [h.files, h.cur]
    rfl
  have hsaved := hpark.2
  rw [← hstand] at hsaved
  rw [hnext, hc]
  exact congrArg some (restore_saved hsaved).symm

end Tick

theorem matches_tick {s s' : State} {t : Files} (h : Matches l s t)
    (hstep : (preemptSys l).step s .tick s') :
    Matches l s' { t with cur := next t.files.length t.cur } := by
  obtain ⟨hint, ⟨env, hcallees, hexec⟩, hareas, hpending⟩ := hstep
  obtain ⟨htable, hresumed⟩ := tick_resumes h hint hcallees
  have hmach : s'.mach = resumed env l.gate s.mach :=
    (Option.some.inj ((exec_timer hcallees).symm.trans hexec)).symm
  have hmem : s'.mach.mem = (switched env l.gate s.mach).mem := by
    rw [hmach]
    exact Machine.popAll_mem ..
  have hlen := Sched.ticked_length s.table (savedRsp l.gate s.mach)
  refine ⟨?_, ?_, ?_, ?_, ?_, ?_, ?_, ?_, ?_, ?_, ?_⟩
  · rw [htable]
    exact Sched.tableInv_ticked h.table _
  · intro p hp
    rw [htable] at hp
    obtain ⟨q, -, rfl⟩ := getElem?_modify_some hp
    have heq : Sched.nextIndex s.table
        = (Sched.ticked s.table (savedRsp l.gate s.mach)).currentProcess :=
      rfl
    rw [if_pos heq]
    rfl
  · rw [hareas, htable, hlen]
    exact h.areas
  · rw [htable, hlen]
    exact h.files
  · rw [htable, h.files, h.cur]
    rfl
  · rw [hareas]
    exact h.apart
  · rw [hpending, hareas]
    exact h.fresh
  · rw [hmach]
    exact hresumed
  · intro i p A c hi hp hA hc
    rw [htable] at hi hp
    rw [hareas] at hA
    obtain ⟨q, hq, rfl⟩ := getElem?_modify_some hp
    have hne : Sched.nextIndex s.table ≠ i := Ne.symm hi
    rw [if_neg hne, hmem]
    exact switched_parked h hint hcallees hq hA hc
  · rw [hpending]
    exact h.pending
  · intro c hc
    rw [hpending] at hc
    rw [hmem]
    refine (h.prepared c hc).congr fun x hx => ?_
    have hsome : s.pending ≠ none := by
      rw [hc]
      exact Option.some_ne_none c
    exact (switched_others h hint hcallees
      (Or.inr ⟨hsome, userStack_area hx⟩)).symm

-- =========================================================== new processes

/-- The stack of a new process is apart from the others. -/
theorem Matches.apart_concat {s : State} {t : Files} {A : Set Word}
    (h : Matches l s t) (hA : ∀ B ∈ s.areas, ∀ x ∈ B, x ∉ A) (i j : Nat)
    (B D : Set Word) (hij : i ≠ j) (hB : (s.areas ++ [A])[i]? = some B)
    (hD : (s.areas ++ [A])[j]? = some D) : ∀ x ∈ B, x ∉ D := by
  intro x hx hxD
  rcases getElem?_concat_some hB with hB | ⟨hi, rfl⟩
  · rcases getElem?_concat_some hD with hD | ⟨-, rfl⟩
    · exact h.apart i j B D hij hB hD x hx hxD
    · exact hA B (List.mem_of_getElem? hB) x hx hxD
  · rcases getElem?_concat_some hD with hD | ⟨hj, -⟩
    · exact hA D (List.mem_of_getElem? hD) x hxD hx
    · exact hij (hi.trans hj.symm)

/-- Appending a process that is parked in an area of its own. -/
theorem matches_spawn {s s' : State} {t : Files} {p : Process}
    {A : Set Word} {c : Context} (h : Matches l s t)
    (hready : p.status = .ready)
    (hpush : Sched.withProcessList (Sched.push p) s.table
      = .done ((), s'.table))
    (hareas : s'.areas = s.areas ++ [A])
    (hctx : s'.mach.toContext = s.mach.toContext)
    (hmem : ∀ B ∈ s.areas, ∀ x ∈ B, s.mach.mem x = s'.mach.mem x)
    (hapart : ∀ B ∈ s.areas, ∀ x ∈ B, x ∉ A)
    (hpark : Parked s'.mach.mem p A c)
    (hfresh : s'.pending ≠ none →
      s.pending ≠ none ∧ ∀ x ∈ A, x ∉ l.userArea)
    (hprepared : ∀ c, s'.pending = some c →
      SavedAt s'.mach.mem (Sched.userStack + 8) c) :
    Matches l s' ⟨t.files ++ [c], t.cur, s'.pending⟩ := by
  rw [Sched.push_run h.table.free] at hpush
  have htable := (Prod.mk.inj (Sched.Outcome.done.inj hpush)).2
  have hcur : s'.table.currentProcess = s.table.currentProcess := by
    rw [← htable]
  have hlist : s'.table.processList = s.table.processList ++ [p] := by
    rw [← htable]
  have hin := h.table.inside
  refine ⟨htable ▸ Sched.tableInv_push h.table hready, ?_, ?_, ?_, ?_, ?_, ?_,
    ?_, ?_, rfl, hprepared⟩
  · intro q hq
    rw [hcur, hlist, List.getElem?_append_left hin] at hq
    exact h.running q hq
  · rw [hareas, hlist, List.length_append, List.length_append, h.areas]
    rfl
  · rw [hlist, List.length_append, List.length_append, h.files]
    rfl
  · exact h.cur.trans hcur.symm
  · rw [hareas]
    exact h.apart_concat hapart
  · intro hpending B hB x hx
    obtain ⟨hold, huser⟩ := hfresh hpending
    rw [hareas, List.mem_append, List.mem_singleton] at hB
    rcases hB with hB | rfl
    · exact h.fresh hold B hB x hx
    · exact huser x hx
  · have hlt : t.cur < t.files.length :=
      (List.getElem?_eq_some_iff.mp h.now).1
    rw [hctx]
    exact (List.getElem?_append_left hlt).trans h.now
  · intro i q B c' hi hq hB hc'
    rw [hcur] at hi
    rw [hlist] at hq
    rw [hareas] at hB
    rcases getElem?_concat_some hq with hq | ⟨hlen, rfl⟩
    · have hlt := (List.getElem?_eq_some_iff.mp hq).1
      rw [List.getElem?_append_left (h.areas ▸ hlt)] at hB
      rw [List.getElem?_append_left (h.files ▸ hlt)] at hc'
      refine (h.parked i q B c' hi hq hB hc').congr fun x hx => ?_
      exact hmem B (List.mem_of_getElem? hB) x hx
    · subst hlen
      rw [← h.areas, List.getElem?_concat_length] at hB
      rw [← h.files, List.getElem?_concat_length] at hc'
      obtain rfl := Option.some.inj hB
      obtain rfl := Option.some.inj hc'
      exact hpark

theorem matches_addProcess {s s' : State} {t : Files}
    {stack entry rflags : Word} (h : Matches l s t)
    (hstep : (preemptSys l).step s (.addProcess stack entry rflags) s') :
    Matches l s' { t with
      files := t.files ++ [kernelContext stack entry rflags] } := by
  obtain ⟨-, hfresh, hpush, hmach, hareas, hpending⟩ := hstep
  have hkeep : ∀ x, x ∉ region stack 0x4000 →
      s.mach.mem x = s'.mach.mem x := by
    intro x hx
    rw [hmach]
    exact (kernelStack_mem entry rflags hx).symm
  have hmatch := matches_spawn (c := kernelContext stack entry rflags) h rfl
    hpush hareas (by rw [hmach])
    (fun B hB x hx => hkeep x fun hin => (hfresh x hin).1 B hB hx)
    (fun B hB x hx hin => (hfresh x hin).1 B hB hx) ?_ ?_ ?_
  · rw [hpending, ← h.pending] at hmatch
    exact hmatch
  · refine ⟨fun x hx => ?_, ?_⟩
    · rw [Lib.mem_region] at hx ⊢
      exact Nat.lt_trans hx (by decide)
    · rw [hmach]
      exact kernelStack_saved ..
  · intro hsome
    rw [hpending] at hsome
    exact ⟨hsome, fun x hx => (hfresh x hx).2 hsome⟩
  · intro c hc
    rw [hpending] at hc
    refine (h.prepared c hc).congr fun x hx => hkeep x fun hin => ?_
    have hsome : s.pending ≠ none := by
      rw [hc]
      exact Option.some_ne_none c
    exact (hfresh x hin).2 hsome (userStack_area hx)

theorem matches_prepareUser {s s' : State} {t : Files}
    {entry rflags : Word} {regs : Reg → Word} (h : Matches l s t)
    (hstep : (preemptSys l).step s (.prepareUser entry rflags regs) s') :
    Matches l s' { t with
      pending := some (userContext entry rflags regs) } := by
  obtain ⟨-, -, hfresh, hregs, hmach, htable, hareas, hpending⟩ := hstep
  have hkeep : ∀ A ∈ s.areas, ∀ x ∈ A, s.mach.mem x = s'.mach.mem x := by
    intro A hA x hx
    rw [hmach]
    refine (userStack_mem entry rflags fun hin => ?_).symm
    have hbase : Sched.userStack
        = 0x200000 - 0x5000 + BitVec.ofNat 64 0x1000 := by decide
    rw [hbase] at hin
    refine (hfresh x (Or.inl ?_)).1 A hA hx
    exact Lib.region_subset (by decide) (by decide) hin
  refine ⟨htable ▸ h.table, htable ▸ h.running, ?_, ?_, ?_, ?_, ?_, ?_, ?_,
    hpending.symm, ?_⟩
  · rw [hareas, htable]
    exact h.areas
  · rw [htable]
    exact h.files
  · rw [htable]
    exact h.cur
  · rw [hareas]
    exact h.apart
  · intro _ A hA x hx hin
    rw [hareas] at hA
    exact (hfresh x hin).1 A hA hx
  · rw [hmach]
    exact h.now
  · intro i p A c hi hp hA hc
    rw [htable] at hi hp
    rw [hareas] at hA
    apply (h.parked i p A c hi hp hA hc).congr
    exact hkeep A (List.mem_of_getElem? hA)
  · intro c hc
    rw [hpending] at hc
    obtain rfl := Option.some.inj hc
    rw [hmach]
    exact userStack_saved entry rflags hregs

theorem matches_pushUser {s s' : State} {t : Files}
    {mapper : Sched.MapperId} (h : Matches l s t)
    (hstep : (preemptSys l).step s (.pushUser mapper) s') :
    ∃ c, t.pending = some c ∧ Matches l s'
      { t with files := t.files ++ [c], pending := none } := by
  obtain ⟨hsome, hpush, hmach, hareas, hpending⟩ := hstep
  obtain ⟨c, hc⟩ := Option.ne_none_iff_exists'.mp hsome
  refine ⟨c, h.pending.trans hc, ?_⟩
  have hmatch := matches_spawn (c := c) h rfl hpush hareas (by rw [hmach])
    (fun _ _ x _ => by rw [hmach]) (h.fresh hsome) ?_ ?_ ?_
  · rw [hpending] at hmatch
    exact hmatch
  · rw [hmach]
    exact ⟨fun x hx => userStack_area hx, h.prepared c hc⟩
  · intro hne
    exact absurd hpending hne
  · intro c' hc'
    rw [hpending] at hc'
    cases hc'

-- ============================================================= the theorem

/-- Every step of the processor is a step of the private machine. -/
theorem matches_step {s s' : State} {e : Event} {t : Files}
    (h : Matches l s t) (hstep : (preemptSys l).step s e s') :
    ∃ t', filesSys.step t e.view t' ∧ Matches l s' t' := by
  cases e with
  | exec c => exact ⟨_, rfl, matches_exec h hstep⟩
  | tick => exact ⟨_, rfl, matches_tick h hstep⟩
  | addProcess stack entry rflags =>
      exact ⟨_, rfl, matches_addProcess h hstep⟩
  | prepareUser entry rflags regs =>
      exact ⟨_, rfl, matches_prepareUser h hstep⟩
  | pushUser mapper =>
      obtain ⟨c, hc, hmatch⟩ := matches_pushUser h hstep
      exact ⟨_, ⟨c, hc, rfl⟩, hmatch⟩

theorem matches_run {s : State} {es : List Event}
    (hrun : (preemptSys l).Run es s) :
    ∃ t, filesSys.Run (es.map Event.view) t ∧ Matches l s t :=
  hrun.simulates (fun _ => matches_init) fun _ _ _ _ => matches_step

/-- A process starts with interrupts on. -/
theorem created_enabled {e : Event} {c : Context}
    (h : e.view = .spawn c ∨ e.view = .prepare c) :
    c.rflags &&& interruptFlag = interruptFlag := by
  cases e with
  | addProcess stack entry rflags =>
      obtain rfl : kernelContext stack entry rflags = c := by
        rcases h with h | h
        · exact FileEvent.spawn.inj h
        · cases h
      exact withInterruptFlag_set rflags
  | prepareUser entry rflags regs =>
      obtain rfl : userContext entry rflags regs = c := by
        rcases h with h | h
        · cases h
        · exact FileEvent.prepare.inj h
      exact withInterruptFlag_set rflags
  | exec c' => rcases h with h | h <;> cases h
  | tick => rcases h with h | h <;> cases h
  | pushUser mapper => rcases h with h | h <;> cases h

/-- Preemption is invisible. Every run of the processor is a run of the
private machine, with the same process running and its context in the
processor; and from every state of it a tick, whatever `send_eoi` and
the compiled `schedule` do within the calling convention, comes to its
`iretq` and delivers the private file of the next process: the context
that process had when it was preempted, or the one it was created with,
in which interrupts are on. -/
theorem preemption_invisible (l : Layout) (es : List Event) (s : State)
    (hrun : (preemptSys l).Run es s) :
    ∃ t, filesSys.Run (es.map Event.view) t
      ∧ (∀ e ∈ es, ∀ c, e.view = .spawn c ∨ e.view = .prepare c →
        c.rflags &&& interruptFlag = interruptFlag)
      ∧ t.cur = s.table.currentProcess
      ∧ t.files[t.cur]? = some s.mach.toContext
      ∧ ∀ env table', Interruptible l s →
        TimerCallees env l.gate s.mach (others l s) s.table table' →
        ∃ m', exec env timerHandler (s.mach.interrupt l.gate) = some m'
          ∧ table'.currentProcess = next t.files.length t.cur
          ∧ t.files[next t.files.length t.cur]? = some m'.toContext := by
  obtain ⟨t, htrun, h⟩ := matches_run hrun
  refine ⟨t, htrun, fun e _ c hc => created_enabled hc, h.cur, h.now, ?_⟩
  intro env table' hint hcallees
  obtain ⟨htable, hresumed⟩ := tick_resumes h hint hcallees
  refine ⟨_, exec_timer hcallees, ?_, hresumed⟩
  rw [htable, h.files, h.cur]
  rfl

-- ============================================================ one dispatch

/-- A boot process with a stack at 0x500000, and its first process. -/
def bootLayout : Layout := ⟨0xffff800000002000, 0xffff800000100000⟩

def bootMachine : Machine where
  regs r := if r = .rsp then 0x508000 else 0
  rip := 0xffff800000004000
  cs := 8
  ss := 0x10
  rflags := 0x202
  mem _ := 0

def firstProcess : State where
  mach := { bootMachine with
    mem := writeKernelStack bootMachine.mem 0x9000 0x401000 0x202 }
  table := ⟨[Sched.bootProcess, Sched.kernelProcess 0x9000], 0, false, .free⟩
  areas := [region 0x500000 0x10000, region 0x9000 0x4000]
  pending := none

theorem firstProcess_run :
    (preemptSys bootLayout).Run [.addProcess 0x9000 0x401000 0x202]
      firstProcess := by
  have hstart : (preemptSys bootLayout).Run []
      ⟨bootMachine, Sched.init, [region 0x500000 0x10000], none⟩ :=
    .start ⟨rfl, ⟨_, rfl⟩, rfl⟩
  refine hstart.step ⟨rfl, fun x hx => ⟨fun A hA hxA => ?_, fun h => ?_⟩,
    rfl, rfl, rfl, rfl⟩
  · rw [List.mem_singleton] at hA
    subst hA
    exact Lib.region_disjoint (a := 0) (j := 0x9000) (k := 0x500000)
      (by decide) (by decide) hx hxA
  · exact absurd rfl h

/-- Callees that do what `send_eoi` and, in that state, `schedule`
do. -/
def dispatchEnv : Env Callee where
  returnAddress
    | .sendEoi => 0xffff800000002020
    | .schedule => 0xffff800000002028
  body
    | .sendEoi => returnValue 0
    | .schedule => returnValue 0x9000
  msrs := ⟨0, 0, 0⟩

theorem dispatch_callees :
    TimerCallees dispatchEnv bootLayout.gate firstProcess.mach
      (others bootLayout firstProcess) firstProcess.table
      (Sched.ticked firstProcess.table
        (savedRsp bootLayout.gate firstProcess.mach)) := by
  refine ⟨fun _ _ => returnValue_returns _ _ _,
    fun c hc => ⟨returnValue_returns _ _ _, ?_⟩⟩
  have heoi : Returns
      (∅ ∪ region (savedRsp bootLayout.gate firstProcess.mach) 160)
      (dispatchEnv.entry .sendEoi
        (afterSave bootLayout.gate firstProcess.mach))
      (eoiExit dispatchEnv bootLayout.gate firstProcess.mach) :=
    returnValue_returns _ _ _
  rw [exec_toSchedule heoi] at hc
  obtain rfl := Option.some.inj hc
  rw [schedule_rdi heoi]
  have hrun : Sched.aliveSys.Run [.addProcess 0x9000]
      ⟨firstProcess.table, [0, 0x9000]⟩ :=
    (TransSys.Run.start rfl).step ⟨⟨rfl, rfl⟩, by decide⟩
  obtain ⟨ret, hsettles, hret⟩ := Sched.tick_returns
    (Sched.schedInv_run hrun) (savedRsp bootLayout.gate firstProcess.mach)
  obtain rfl : (0x9000 : Word) = ret := Option.some.inj hret
  exact hsettles

theorem dispatch_interruptible : Interruptible bootLayout firstProcess := by
  refine ⟨by decide, _, rfl, fun x hx => ?_⟩
  refine Lib.region_subset (a := 0x500000) (k := 0x7f58) (n := 168)
    (by decide) (by decide) ?_
  exact hx

/-- The first tick after `add_process` dispatches the new process in the
context that was built for it. -/
theorem preemption_invisible_dispatch :
    ∃ t, filesSys.Run [.spawn (kernelContext 0x9000 0x401000 0x202)] t
      ∧ ∃ m', exec dispatchEnv timerHandler
            (firstProcess.mach.interrupt bootLayout.gate) = some m'
          ∧ t.files[next t.files.length t.cur]? = some m'.toContext := by
  obtain ⟨t, htrun, -, -, -, htick⟩ :=
    preemption_invisible bootLayout _ firstProcess firstProcess_run
  obtain ⟨m', hexec, -, hctx⟩ :=
    htick dispatchEnv _ dispatch_interruptible dispatch_callees
  exact ⟨t, htrun, m', hexec, hctx⟩

end Bayos.Preempt
