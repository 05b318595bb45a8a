/-
Handlers that log against code that logs. The handler runs with
interrupts off on the processor it has interrupted, so nobody can give
up `LOGGER` before the handler is done: if anybody holds it when the
strike comes, the handler waits for ever (`hangs`), and if nobody does,
the handler gets it at once and runs to its end (`completes_of_free`).

`Logger::log` and `write_syscall` hold `LOGGER` with interrupts on, so
both happen.
-/
import Bayos.Model.Logging
import Bayos.Proofs.Window

namespace Bayos.Logging

open Lib Lib.Irq
open Locking

variable {code : Program → Code} {s s' : KernelState} {h : Strike}

-- ========================================================= well-formedness

/-- There is a current thread. -/
def Current (s : KernelState) : Prop := s.cur < s.threads.length

theorem Current.goto (hs : Current s) (K : List KernelFrame) :
    Current (s.goto K) := by
  show s.cur < (s.goto K).threads.length
  rw [goto_length]
  exact hs

/-- A step of a command stays on a current thread. -/
theorem current_stepCmd (hs : Current s) {left : Bool}
    {K : List KernelFrame} {c : Code}
    (hstep : (kernel code).stepCmd s left K c = some s') : Current s' := by
  cases c with
  | locked l m c =>
      simp only [Sys.stepCmd] at hstep
      split at hstep
      · obtain rfl := Option.some.inj hstep
        exact hs.goto _
      · cases hstep
  | spawn n =>
      obtain rfl := Option.some.inj hstep
      show s.cur < ((s.goto K).threads ++ [_]).length
      rw [List.length_append, goto_length]
      exact Nat.lt_add_right _ hs
  | _ =>
      obtain rfl := Option.some.inj hstep
      exact hs.goto _

theorem current_kernel (hs : Current s) {e : Label Interrupt}
    (hstep : (kernel code).step s e = some s') : Current s' := by
  cases e with
  | interrupt i =>
      simp only [Sys.step] at hstep
      split at hstep
      · obtain rfl := Option.some.inj hstep
        exact hs.goto _
      · cases hstep
  | step left =>
      have hstack : (kernel code).stepStack s left s.stack = some s' := hstep
      cases hK : s.stack with
      | nil => rw [hK] at hstack; cases hstack
      | cons f K =>
          rw [hK] at hstack
          cases f with
          | run c => exact current_stepCmd hs hstack
          | reschedule =>
              obtain rfl := Option.some.inj hstack
              show Ring.next _ _ < (s.goto K).threads.length
              rw [goto_length]
              exact Ring.next_lt (Nat.zero_lt_of_lt hs)
          | halted => cases hstack
          | _ =>
              obtain rfl := Option.some.inj hstack
              exact hs.goto _

theorem current_step (hs : Current s) {e : Event}
    (hstep : step code s e = some s') : Current s' := by
  cases e with
  | step left =>
      simp only [step] at hstep
      split at hstep
      · obtain rfl := Option.some.inj hstep
        exact hs.goto _
      · exact current_kernel hs hstep
  | interrupt i => exact current_kernel (e := .interrupt i) hs hstep
  | strike h =>
      simp only [step] at hstep
      split at hstep
      · cases hstep
      · obtain rfl := Option.some.inj hstep
        exact hs.goto _

theorem current_run {es : List Event}
    (hrun : (loggingSys code start).Run es s) : Current s := by
  refine hrun.invariant (I := Current) ?_
    fun _ _ _ hs hstep => current_step hs hstep
  intro s hs
  obtain rfl : s = start := hs
  exact Nat.zero_lt_one

-- ============================================================== completion

/-- The state in which the handler has nothing left to do: the one it
struck, or, for a panic, that one with the handler halted on top. -/
def ended (s : KernelState) : Strike → KernelState
  | .fatal _ =>
      { s.goto (.halted :: .iret s.on :: s.stack) with on := false }
  | _ => s

/-- The handler's own steps bring it to its end: it waits for nobody. -/
def Completes (code : Program → Code) (s : KernelState) (h : Strike) :
    Prop :=
  ∃ n, advance code n (struck s h) = some (ended s h)

/-- `s` with the current thread at `K` and interrupts off. -/
def masked (s : KernelState) (K : List KernelFrame) : KernelState :=
  { s.goto K with on := false }

theorem stack_masked (hs : Current s) (K : List KernelFrame) :
    (masked s K).stack = K := stack_goto hs K

theorem goto_stack (hs : Current s) : s.goto s.stack = s := by
  have hget : s.threads[s.cur]? = some s.stack := by
    unfold State.stack
    rw [List.getD_eq_getElem?_getD, List.getElem?_eq_getElem hs]
    rfl
  have hsame : s.threads.set s.cur s.stack = s.threads := by
    refine List.ext_getElem? fun i => ?_
    by_cases hi : s.cur = i
    · subst hi
      rw [List.getElem?_set_self hs, hget]
    · exact List.getElem?_set_ne hi
  unfold State.goto
  rw [hsame]

/-- A lock is free of the thread that moves on without it. -/
theorem free_goto {l : Lock} (hfree : s.Free l) {K : List KernelFrame}
    (hK : holds l K = false) : (s.goto K).Free l := by
  intro J hJ
  rcases List.mem_or_eq_of_mem_set hJ with hJ | rfl
  · exact hfree J hJ
  · exact hK

theorem masked_goto (s : KernelState) (K K' : List KernelFrame) :
    (masked s K).goto K' = masked s K' := by
  unfold masked State.goto
  simp only [List.set_set]

/-- What is not a panic is a step of the kernel. -/
theorem step_masked (hs : Current s) {f : KernelFrame}
    {K : List KernelFrame} (hpanic : f ≠ .run .panic) (left : Bool) :
    step code (masked s (f :: K)) (.step left)
      = (kernel code).stepStack (masked s (f :: K)) left (f :: K) := by
  simp only [step, stack_masked hs]
  split
  · next K' heq => exact absurd (List.cons.inj heq).1 hpanic
  · show (kernel code).stepStack _ _ (masked s (f :: K)).stack = _
    rw [stack_masked hs]

theorem step_panic (hs : Current s) (K : List KernelFrame) (left : Bool) :
    step code (masked s (.run .panic :: K)) (.step left)
      = some (masked s (panicHandler ++ K)) := by
  simp only [step, stack_masked hs, masked_goto]
  rfl

/-- The first of `n + 1` usual steps. -/
theorem advance_masked (hs : Current s) {f : KernelFrame}
    {K : List KernelFrame} {t : KernelState} (n : Nat)
    (hstar : ∀ c, f ≠ .run (.star c))
    (hstep : step code (masked s (f :: K)) (.step true) = some t) :
    advance code (n + 1) (masked s (f :: K)) = advance code n t := by
  have husual : (masked s (f :: K)).usual = true := by
    unfold State.usual
    rw [stack_masked hs]
    split
    · next c J heq => exact absurd (List.cons.inj heq).1 (hstar c)
    · rfl
  rw [advance, husual, hstep]
  rfl

/-- With `LOGGER` free, a log call gets it at once and runs to its
end. -/
theorem advance_log (hs : Current s) {K : List KernelFrame} (n : Nat)
    (hfree : s.Free .logger) (hK : holds .logger K = false) :
    advance code (n + 4) (masked s (.run log :: K))
      = advance code n (masked s K) := by
  have hfree' : (masked s (.run log :: K)).Free .logger :=
    free_goto hfree hK
  rw [advance_masked hs (n + 3) (by simp [log, lock])
      (t := masked s (.run mayPanic :: .unlock .logger .exclusive :: K)),
    advance_masked hs (n + 2) (by simp [mayPanic])
      (t := masked s (.run .skip :: .unlock .logger .exclusive :: K)),
    advance_masked hs (n + 1) (by simp)
      (t := masked s (.unlock .logger .exclusive :: K)),
    advance_masked hs n (by simp) (t := masked s K)]
  · rw [step_masked hs (by simp)]
    exact congrArg some (masked_goto ..)
  · rw [step_masked hs (by simp)]
    exact congrArg some (masked_goto ..)
  · rw [step_masked hs (by simp [mayPanic])]
    exact congrArg some (masked_goto ..)
  · rw [step_masked hs (by simp [log, lock])]
    show (if _ then some _ else none) = _
    rw [available_of_free hfree', if_pos rfl, masked_goto]

theorem stack_mem (hs : Current s) : s.stack ∈ s.threads := by
  unfold State.stack
  rw [List.getD_eq_getElem?_getD, List.getElem?_eq_getElem hs]
  exact List.getElem_mem hs

/-- A strike where nobody holds `LOGGER`: the handler completes. -/
theorem completes_of_free (hs : Current s) (hfree : s.Free .logger)
    (h : Strike) : Completes code s h := by
  have hK : holds .logger s.stack = false := hfree _ (stack_mem hs)
  have hreturn : step code (masked s (.iret s.on :: s.stack)) (.step true)
      = some s := by
    rw [step_masked hs (by simp)]
    show some { (masked s _).goto s.stack with on := s.on } = some s
    rw [masked_goto]
    show some { s.goto s.stack with on := s.on } = some s
    rw [goto_stack hs]
  have hlogging : advance code 5
      (masked s (.run log :: .iret s.on :: s.stack)) = some s := by
    refine (advance_log hs 1 hfree (K := .iret s.on :: s.stack) hK).trans ?_
    rw [advance_masked hs 0 (by simp) hreturn]
    rfl
  cases h with
  | fatal e =>
      refine ⟨5, ?_⟩
      show advance code 5 (masked s (.run .panic :: .iret s.on :: s.stack))
        = _
      rw [advance_masked hs 4 (by simp) (step_panic hs _ true)]
      exact advance_log hs 0 hfree hK
  | _ => exact ⟨5, hlogging⟩

-- ======================================================== waiting for ever

/-- The current thread is about to take `LOGGER`, or to panic and then
take it, above `base`; somebody holds it; and interrupts are off. -/
structure Hung (base : List KernelFrame) (s : KernelState) : Prop where
  current : Current s
  off : s.on = false
  top : ∃ f K, s.stack = f :: K ∧ base <:+ K
    ∧ (f = .run log ∨ f = .run .panic)
  held : ¬ s.Free .logger

/-- Moving the current thread without touching its guards. -/
theorem held_goto {l : Lock} (hs : Current s) (hheld : ¬ s.Free l)
    {K : List KernelFrame} (hK : holds l K = holds l s.stack) :
    ¬ (s.goto K).Free l := by
  intro hfree
  refine hheld fun J hJ => ?_
  have hcur : holds l K = false := by
    have hmem := stack_mem (hs.goto K)
    rw [stack_goto hs] at hmem
    exact hfree K hmem
  obtain ⟨i, hi⟩ := List.mem_iff_getElem?.mp hJ
  by_cases heq : s.cur = i
  · subst heq
    rw [stack_of_getElem? hi] at hK
    rw [← hK]
    exact hcur
  · refine hfree J (List.mem_of_getElem? (i := i) ?_)
    show (s.threads.set s.cur K)[i]? = some J
    rw [List.getElem?_set_ne heq]
    exact hi

/-- Nothing gets a hung thread going: it cannot take its lock, no
interrupt is accepted, and an exception only adds a handler that waits
too. -/
theorem hung_step {base : List KernelFrame} (hs : Hung base s) {e : Event}
    (hstep : step code s e = some s') : Hung base s' := by
  obtain ⟨hcur, hoff, ⟨f, K, hstack, hbase, hf⟩, hheld⟩ := hs
  cases e with
  | interrupt i =>
      simp only [step, Sys.step, hoff] at hstep
      cases hstep
  | strike h =>
      simp only [step] at hstep
      split at hstep
      · cases hstep
      · obtain rfl := Option.some.inj hstep
        refine ⟨hcur.goto _, rfl, ⟨_, _, stack_goto hcur _, ?_, ?_⟩, ?_⟩
        · rw [hstack]
          exact (hbase.trans (List.suffix_cons f K)).trans
            (List.suffix_cons _ _)
        · cases h with
          | fatal e => exact Or.inr rfl
          | _ => exact Or.inl rfl
        · refine held_goto hcur hheld ?_
          rfl
  | step left =>
      rcases hf with rfl | rfl
      · have htaken : s.available .logger .exclusive = false := by
          by_contra hfree
          refine hheld fun J hJ => ?_
          rw [Bool.not_eq_false] at hfree
          simpa using List.all_eq_true.mp hfree J hJ
        simp only [step, hstack, Sys.step] at hstep
        have hnone : (if s.available .logger .exclusive = true
            then some (s.goto (.run mayPanic
              :: .unlock .logger .exclusive :: K))
            else none) = some s' := hstep
        rw [htaken] at hnone
        cases hnone
      · simp only [step, hstack] at hstep
        obtain rfl := Option.some.inj hstep
        refine ⟨hcur.goto _, rfl, ⟨_, _, stack_goto hcur _, ?_, Or.inl rfl⟩,
          ?_⟩
        · exact hbase.trans (List.suffix_cons _ _)
        · refine held_goto hcur hheld ?_
          rw [hstack]
          rfl

/-- A strike where somebody holds `LOGGER` hangs its handler. -/
theorem hung_struck (hs : Current s) (hheld : ¬ s.Free .logger)
    (h : Strike) : Hung (.iret s.on :: s.stack) (struck s h) := by
  refine ⟨hs.goto _, rfl, ⟨_, _, stack_goto hs _, List.suffix_refl _, ?_⟩,
    held_goto hs hheld rfl⟩
  cases h with
  | fatal e => exact Or.inr rfl
  | _ => exact Or.inl rfl

/-- Whatever happens after such a strike, the handler does not end. -/
theorem hangs (hs : Current s) (hheld : ¬ s.Free .logger)
    {es : List Event} {t : KernelState}
    (hrun : (loggingSys code (struck s h)).Run es t) : t ≠ ended s h := by
  have hung : Hung (.iret s.on :: s.stack) t := by
    refine hrun.invariant (I := Hung (.iret s.on :: s.stack)) ?_
      fun _ _ _ hs hstep => hung_step hs hstep
    intro t ht
    obtain rfl : t = struck s h := ht
    exact hung_struck hs hheld h
  obtain ⟨f, K, hstack, hbase, hf⟩ := hung.top
  intro heq
  subst heq
  cases h with
  | fatal e =>
      rw [show (ended s (.fatal e)).stack = .halted :: .iret s.on :: s.stack
        from stack_goto hs _] at hstack
      obtain ⟨rfl, -⟩ := List.cons.inj hstack
      rcases hf with hf | hf <;> cases hf
  | _ =>
      have hlen := hbase.length_le
      have hlen' : s.stack.length = K.length + 1 :=
        congrArg List.length hstack
      simp only [List.length_cons] at hlen
      omega

theorem advance_run {first : KernelState} :
    ∀ {n : Nat} {s t : KernelState} {es : List Event},
      (loggingSys code first).Run es s → advance code n s = some t →
      ∃ es, (loggingSys code first).Run es t := by
  intro n
  induction n with
  | zero =>
      intro s t es hrun h
      exact ⟨es, Option.some.inj h ▸ hrun⟩
  | succ n ih =>
      intro s t es hrun h
      obtain ⟨u, hstep, hrest⟩ := Option.bind_eq_some_iff.mp h
      exact ih (hrun.step hstep) hrest

-- ============================================================== the result

/-- In every state the kernel can be in and for every strike that can
come there: the handler takes `LOGGER` at once and completes exactly if
nobody holds it, neither the code that was struck nor a process that was
preempted while it did; and otherwise no continuation brings the handler
to its end. -/
theorem handler_completes_iff {es : List Event}
    (hrun : (loggingSys code start).Run es s)
    (hstrike : step code s (.strike h) = some s') :
    (Completes code s h ↔ s.Free .logger)
      ∧ (¬ s.Free .logger → ∀ fs t, (loggingSys code s').Run fs t →
          t ≠ ended s h) := by
  have hcur := current_run hrun
  have hstruck : s' = struck s h := by
    simp only [step] at hstrike
    split at hstrike
    · cases hstrike
    · exact (Option.some.inj hstrike).symm
  subst hstruck
  refine ⟨⟨fun hdone => ?_, fun hfree => completes_of_free hcur hfree h⟩,
    fun hheld fs t => hangs hcur hheld⟩
  by_contra hheld
  obtain ⟨n, hn⟩ := hdone
  obtain ⟨fs, hfs⟩ := advance_run (TransSys.Run.start rfl) hn
  exact hangs hcur hheld hfs rfl

-- ====================================================== a write that hangs

/-- A kernel whose processes compute and make system calls. -/
def userSys : TransSys KernelState Event :=
  loggingSys (fun _ => userProcess) start

/-- A user process inside `write_syscall`, with the guard on `LOGGER`. -/
def writing : KernelState :=
  switched true
    [ .run mayPanic
    , .unlock .logger .exclusive
    , .run userProcess ]

-- boot and loading, a tick, and the first system call
set_option maxRecDepth 8000 in
theorem window_run :
    ∃ es, userSys.Run es (window fun _ => userProcess) :=
  advance_run (n := 163) (.start rfl) rfl

theorem writing_run : ∃ es, userSys.Run es writing := by
  obtain ⟨es, hwindow⟩ := window_run
  have htick : userSys.step (window fun _ => userProcess)
      (.interrupt .timer)
      (ticking (fun _ => userProcess) [.run timerHandler]) := rfl
  obtain ⟨_, heoi⟩ : ∃ es, userSys.Run es
      (ticking (fun _ => userProcess) [.run schedule]) :=
    advance_run (n := 8) (hwindow.step htick) rfl
  obtain ⟨_, hscheduling⟩ : ∃ es, userSys.Run es
      (ticking (fun _ => userProcess) scheduling) :=
    advance_run (n := 7) heoi rfl
  obtain ⟨_, hpicked⟩ : ∃ es, userSys.Run es
      (switched false [.iret true, .run userProcess]) :=
    advance_run (n := 11) hscheduling rfl
  obtain ⟨_, huser⟩ : ∃ es, userSys.Run es
      (switched true [.run userProcess]) :=
    advance_run (n := 1) hpicked rfl
  have hcall : userSys.step (switched true [.run userProcess]) (.step true)
      (switched true [.run (oneOf [.skip, syscallHandler]),
        .run userProcess]) := rfl
  have hsyscall : userSys.step
      (switched true [.run (oneOf [.skip, syscallHandler]),
        .run userProcess]) (.step false)
      (switched true [.run syscallHandler, .run userProcess]) := rfl
  have hindex : userSys.step
      (switched true [.run syscallHandler, .run userProcess]) (.step false)
      (switched true [.run (oneOf [writeSyscall, anonAllocate, log]),
        .run userProcess]) := rfl
  have hwrite : userSys.step
      (switched true [.run (oneOf [writeSyscall, anonAllocate, log]),
        .run userProcess]) (.step true)
      (switched true [.run writeSyscall, .run userProcess]) := rfl
  have hfd : userSys.step
      (switched true [.run writeSyscall, .run userProcess]) (.step false)
      (switched true [.run (lock .logger mayPanic), .run userProcess]) := rfl
  have hlock : userSys.step
      (switched true [.run (lock .logger mayPanic), .run userProcess])
      (.step true) writing := rfl
  exact ⟨_, (((((huser.step hcall).step hsyscall).step hindex).step
    hwrite).step hfd).step hlock⟩

theorem writing_held : ¬ writing.Free .logger := by
  intro hfree
  have hholds := hfree _ (List.mem_cons_of_mem _ (List.mem_singleton_self _))
  exact Bool.noConfusion hholds

/-- A page fault in a `write_syscall`, say on the user's buffer: its
handler never completes. -/
theorem page_fault_in_write_hangs :
    ¬ ∀ (code : Program → Code) (es : List Event) (s s' : KernelState)
      (h : Strike), (loggingSys code start).Run es s →
      step code s (.strike h) = some s' → Completes code s h := by
  intro hall
  obtain ⟨es, hrun⟩ := writing_run
  obtain ⟨n, hn⟩ := hall _ es writing _ (.fatal .pageFault) hrun rfl
  obtain ⟨fs, hfs⟩ := advance_run (TransSys.Run.start rfl) hn
  exact hangs (current_run hrun) writing_held hfs rfl

-- ======================================================= a preempted write

/-- The process has been preempted there, and the loader goes on. -/
def preempted : KernelState where
  threads := [loaded, .iret true :: writing.stack]
  cur := 0
  on := true
  data _ := false

theorem preempted_run : ∃ es, userSys.Run es preempted := by
  obtain ⟨es, hwriting⟩ := writing_run
  have htick : userSys.step writing (.interrupt .timer)
      (switched false
        ([.run timerHandler, .reschedule, .iret true]
          ++ writing.stack)) := rfl
  exact advance_run (n := 27) (hwriting.step htick) rfl

theorem preempted_held : ¬ preempted.Free .logger := by
  intro hfree
  have hholds := hfree _ (List.mem_cons_of_mem _ (List.mem_singleton_self _))
  exact Bool.noConfusion hholds

/-- Although the loader holds no `LOGGER`, a breakpoint in it does not come
to its end: the process that sleeps has the guard. -/
theorem handler_completes_iff_preempted :
    ¬ Completes (fun _ => userProcess) preempted .breakpoint
      ∧ ∀ fs t, (loggingSys (fun _ => userProcess)
          (struck preempted .breakpoint)).Run fs t →
        t ≠ ended preempted .breakpoint := by
  obtain ⟨es, hrun⟩ := preempted_run
  have hstrike : step (fun _ => userProcess) preempted (.strike .breakpoint)
      = some (struck preempted .breakpoint) := rfl
  obtain ⟨hiff, hhangs⟩ := handler_completes_iff hrun hstrike
  exact ⟨fun hdone => preempted_held (hiff.mp hdone), hhangs preempted_held⟩

end Bayos.Logging
