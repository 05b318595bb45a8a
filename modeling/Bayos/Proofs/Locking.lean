/-
The locks that the interrupt handlers take. They are `handlerLocks`;
every other lock of the kernel may be held when an interrupt arrives.

# Why they are free

Both conditions on the code are static. No lock of the class is taken
with interrupts on, down to the heap's inside a section on the process
list, so whoever is interrupted holds none (`FlowInv`). And no function
takes one twice, so a handler that starts with all of them free never
waits for itself (`SafeInv`). `schedule` breaks the second one for
`PROCESS_LIST`, behind the test for DEAD; a process that is marked DEAD
is excused from there on.
-/
import Bayos.Lib.Irq.Safe
import Bayos.Model.Locking

namespace Bayos.Locking

open Lib Lib.Irq

/-- The locks that are taken with interrupts off only. -/
def handlerLocks : Lock → Bool
  | .lapic | .keyboard | .currentProcess | .processList | .allocator => true
  | .mapper | .frameAllocator | .logger => false

abbrev KernelState := State Lock Program Action Test Dead

variable {code : Program → Code} {s s' : KernelState} {l : Lock}

-- ======================================================= static conditions

/-- The kernel turns interrupts off before it takes one of
`handlerLocks`, if the code of its processes does. -/
theorem kernel_flowOk
    (hcode : ∀ n, (code n).flow handlerLocks true = some true) :
    (kernel code).FlowOk handlerLocks where
  code := hcode
  handler h := by cases h <;> rfl
  pick _ _ h := Ring.next_lt (Nat.zero_lt_of_lt h)

theorem start_flowInv : FlowInv handlerLocks start where
  cur := Nat.zero_lt_one
  running := ⟨true, by decide, trivial⟩
  suspended i K hi hK := by
    obtain ⟨hlt, -⟩ := List.getElem?_eq_some_iff.mp hK
    exact absurd (Nat.lt_one_iff.mp hlt) hi

/-- The tests that lead to `l` on a path that has it already. -/
def excuse (l : Lock) : Test → Bool
  | .currentDead => l = .processList

/-- Such a test succeeds for process `i`. -/
def Excused (l : Lock) (i : Nat) (dead : Dead) : Prop :=
  l = .processList ∧ dead i = true

/-- No function takes a lock twice, but `schedule` for a DEAD process. -/
theorem kernel_safeOk (hcode : ∀ n, (code n).safe (excuse l) l = true) :
    (kernel code).SafeOk (excuse l) (Excused l) l where
  code := hcode
  handler h := by cases h <;> cases l <;> rfl
  test t i dead hexc ht := by
    cases t with
    | currentDead => exact ⟨of_decide_eq_true hexc, ht⟩
  effect a j i dead hex := by
    cases a with
    | markDead => exact ⟨hex.1, Bool.or_eq_true_iff.mpr (Or.inr hex.2)⟩

theorem start_safeInv : SafeInv (excuse l) (Excused l) l start := by
  intro i K hK
  obtain ⟨hlt, rfl⟩ := List.getElem?_eq_some_iff.mp hK
  obtain rfl : i = 0 := Nat.lt_one_iff.mp hlt
  refine Or.inr ⟨⟨?_, fun hh => Bool.noConfusion hh⟩, trivial⟩
  cases l <;> decide

-- ======================================================== over a whole run

/-- The kernel with processes that may do anything the kernel offers. -/
def anyKernel : Sys Lock Program Action Test Interrupt Dead :=
  kernel fun _ => anyProcess

theorem anyKernel_flowOk : anyKernel.FlowOk handlerLocks :=
  kernel_flowOk fun _ => by decide

theorem anyKernel_safeOk : anyKernel.SafeOk (excuse l) (Excused l) l :=
  kernel_safeOk fun _ => by cases l <;> decide

theorem anyKernel_flowInv
    (hreach : (anyKernel.toTransSys start).Reachable s) :
    FlowInv handlerLocks s :=
  flowInv_run anyKernel_flowOk start_flowInv hreach

theorem anyKernel_safeInv (hl : handlerLocks l = true)
    (hreach : (anyKernel.toTransSys start).Reachable s) :
    SafeInv (excuse l) (Excused l) l s :=
  safeInv_run anyKernel_safeOk hl anyKernel_flowOk start_flowInv
    start_safeInv hreach

/-- Interrupt handlers find their locks free. Whenever an interrupt is
accepted, nobody holds one of `handlerLocks`; and whoever is about to
take one of them gets it at once, the handlers included, except for
`PROCESS_LIST` while the current process is DEAD. -/
theorem handler_locks_free
    (hreach : (anyKernel.toTransSys start).Reachable s) :
    (∀ h s', anyKernel.step s (.interrupt h) = some s' →
      ∀ l, handlerLocks l = true → s.Free l) ∧
    ∀ l m c K, handlerLocks l = true →
      s.stack = .run (.locked l m c) :: K →
      (l = .processList → s.data s.cur = false) →
      s.Free l ∧ ∀ left, anyKernel.step s (.step left)
        = some (s.goto (.run c :: .unlock l m :: K)) := by
  have hflow := anyKernel_flowInv hreach
  constructor
  · intro h s' hstep l hl
    have hon : s.on = true := on_of_interrupt hstep
    exact irq_free_of_on hflow hon hl
  · intro l m c K hl hstack hdead
    have hex : ¬ Excused l s.cur s.data := by
      intro hex
      exact Bool.noConfusion ((hdead hex.1).symm.trans hex.2)
    have hfree := irq_free_at_lock hl hflow (anyKernel_safeInv hl hreach)
      hstack hex
    exact ⟨hfree, fun left => step_locked_of_free hfree hstack⟩

-- =============================================== a tick during the loading

/-- `add_user_process` after its push, with both guards, and what is
left of `kernel_main`. -/
def loaded : List (Frame Lock Program Action Test) :=
  [ .unlock .frameAllocator .exclusive
  , .unlock .mapper .exclusive
  , .run drop
  , .run mayPanic
  , .run (.star .skip) ]

/-- The new process is in the table, and interrupts are on again. -/
def window (code : Program → Code) : KernelState where
  threads := [loaded, [.iret true, .run (code .userProcess)]]
  cur := 0
  on := true
  data _ := false

-- boot and loading, step by step
set_option maxRecDepth 8000 in
theorem window_reachable (code : Program → Code) :
    ((kernel code).toTransSys start).Reachable (window code) :=
  proceed_reachable 163 (TransSys.reachable_init rfl) rfl

/-- A tick arrives there, and its handler has `K` left to do. -/
def ticking (code : Program → Code)
    (K : List (Frame Lock Program Action Test)) : KernelState where
  threads :=
    [ K ++ .reschedule :: .iret true :: loaded
    , [.iret true, .run (code .userProcess)] ]
  cur := 0
  on := false
  data _ := false

/-- `schedule` about to lock the process list. -/
def scheduling : List (Frame Lock Program Action Test) :=
  [ .run (lock .processList (block
      [ mayPanic
      , .cond .currentDead deleteProcess .skip
      , .star mayPanic ]))
  , .unlock .currentProcess .exclusive ]

theorem scheduling_reachable (code : Program → Code) :
    ((kernel code).toTransSys start).Reachable (ticking code scheduling) := by
  have hin : ((kernel code).toTransSys start).Reachable
      (ticking code [.run timerHandler]) :=
    (window_reachable code).next (e := .interrupt .timer) rfl
  have heoi : ((kernel code).toTransSys start).Reachable
      (ticking code [.run schedule]) := proceed_reachable 8 hin rfl
  exact proceed_reachable 7 heoi rfl

theorem handler_locks_free_loading :
    (window fun _ => anyProcess).Free .processList ∧
    ∃ s', anyKernel.step (ticking (fun _ => anyProcess) scheduling)
      (.step true) = some s' := by
  have hwindow := window_reachable fun _ => anyProcess
  have hticking := scheduling_reachable fun _ => anyProcess
  constructor
  · exact (handler_locks_free hwindow).1 .timer _ rfl _ rfl
  · have hget := (handler_locks_free hticking).2 .processList .exclusive _ _
      rfl rfl fun _ => rfl
    exact ⟨_, hget.2 true⟩

end Bayos.Locking
