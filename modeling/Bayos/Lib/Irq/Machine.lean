/-
Threads on one processor that take spin locks and turn interrupts off:
programs and their interleavings under preemption.

# Programs and control stacks

A program is a command with scoped locks (`locked`, the life of a guard)
and scoped interrupt masking (`masked`: read the flag, turn interrupts
off, run, turn them on again if they were on). A thread is a control
stack of what it still has to do, so a lock is held as long as some
control stack has the guard's `unlock` on it, and who waits for a taken
lock has no step.

# Preemption

Any number of interrupts may be accepted between any two steps, as long
as interrupts are on. A handler that ends in `reschedule` goes on in
another thread; every thread but the current one is therefore somewhere
inside an interrupt, and a new thread starts as if it were.
-/
import Bayos.Lib.Entries
import Bayos.Lib.Run

namespace Lib.Irq

/-- How a lock is taken. -/
inductive Mode
  | shared
  | exclusive
  deriving DecidableEq, Repr

/-- Commands, over locks `L`, names of programs `N`, data actions `D`
and tests `T`. -/
inductive Cmd (L N D T : Type)
  | skip
  | act (a : D)
  | cond (t : T) (c d : Cmd L N D T)
  | seq (c d : Cmd L N D T)
  | choice (c d : Cmd L N D T)
  | star (c : Cmd L N D T)
  | locked (l : L) (m : Mode) (c : Cmd L N D T)
  | masked (c : Cmd L N D T)
  | sti
  | spawn (n : N)
  | panic
  deriving Repr

/-- What is left to do, from the top of a control stack down. -/
inductive Frame (L N D T : Type)
  | run (c : Cmd L N D T)
  | enter (wasOn : Bool) (c : Cmd L N D T)
  | unlock (l : L) (m : Mode)
  | unmask (wasOn : Bool)
  | reschedule
  | iret (wasOn : Bool)
  | halted
  deriving Repr

/-- An interrupt handler; the timer's ends in another thread. -/
structure Handler (L N D T : Type) where
  body : Cmd L N D T
  reschedules : Bool

/-- Everything a system is made of but its initial state. -/
structure Sys (L N D T H σ : Type) where
  code : N → Cmd L N D T
  handler : H → Handler L N D T
  effect : D → Nat → σ → σ
  test : T → Nat → σ → Bool
  pick : Nat → Nat → Nat

/-- The threads' control stacks, the one that runs, and the interrupt
flag of the processor. -/
structure State (L N D T σ : Type) where
  threads : List (List (Frame L N D T))
  cur : Nat
  on : Bool
  data : σ

/-- A step of the current thread, which takes a boolean for the choices
it makes, or an interrupt. -/
inductive Label (H : Type)
  | step (left : Bool)
  | interrupt (h : H)
  deriving DecidableEq, Repr

variable {L N D T H σ : Type}

-- ============================================================= the threads

/-- The control stack of the current thread. -/
def State.stack (s : State L N D T σ) : List (Frame L N D T) :=
  s.threads.getD s.cur []

/-- `s` with the control stack of the current thread replaced. -/
def State.goto (s : State L N D T σ) (K : List (Frame L N D T)) :
    State L N D T σ :=
  { s with threads := s.threads.set s.cur K }

theorem stack_goto {s : State L N D T σ} (hcur : s.cur < s.threads.length)
    (K : List (Frame L N D T)) : (s.goto K).stack = K := by
  unfold State.stack State.goto
  rw [List.getD_eq_getElem?_getD, List.getElem?_set_self hcur]
  rfl

theorem stack_of_getElem? {s : State L N D T σ}
    {K : List (Frame L N D T)} (h : s.threads[s.cur]? = some K) :
    s.stack = K := by
  unfold State.stack
  rw [List.getD_eq_getElem?_getD, h]
  rfl

theorem goto_length (s : State L N D T σ) (K : List (Frame L N D T)) :
    (s.goto K).threads.length = s.threads.length := List.length_set

/-- A thread after the current one has moved. -/
theorem goto_some {s : State L N D T σ} {K K' : List (Frame L N D T)}
    {i : Nat} (h : (s.goto K).threads[i]? = some K') :
    i = s.cur ∧ K' = K ∨ i ≠ s.cur ∧ s.threads[i]? = some K' := by
  unfold State.goto at h
  by_cases hi : s.cur = i
  · subst hi
    have hlt := (List.getElem?_eq_some_iff.mp h).1
    rw [List.length_set] at hlt
    rw [List.getElem?_set_self hlt] at h
    exact Or.inl ⟨rfl, (Option.some.inj h).symm⟩
  · rw [List.getElem?_set_ne hi] at h
    exact Or.inr ⟨Ne.symm hi, h⟩

/-- A new thread does not disturb the current one. -/
theorem stack_append {s : State L N D T σ} (hcur : s.cur < s.threads.length)
    (K : List (Frame L N D T)) :
    State.stack { s with threads := s.threads ++ [K] } = s.stack := by
  unfold State.stack
  rw [List.getD_eq_getElem?_getD, List.getD_eq_getElem?_getD,
    List.getElem?_append_left hcur]

-- =============================================================== the locks

section Locks

variable [DecidableEq L]

/-- The guard on `l` that a frame is, if it is one. -/
def Frame.guards (l : L) : Frame L N D T → Option Mode
  | .unlock l' m => if l' = l then some m else none
  | _ => none

/-- The control stack has a guard on `l`. -/
def holds (l : L) (K : List (Frame L N D T)) : Bool :=
  K.any fun f => (f.guards l).isSome

/-- A guard on another lock. -/
theorem holds_unlock_ne {l l' : L} {m : Mode} {K : List (Frame L N D T)}
    (h : l' ≠ l) : holds l (.unlock l' m :: K) = holds l K := by
  show (((if l' = l then some m else none) : Option Mode).isSome
    || holds l K) = holds l K
  rw [if_neg h]
  rfl

/-- The control stack has an exclusive guard on `l`. -/
def writes (l : L) (K : List (Frame L N D T)) : Bool :=
  K.any fun f => f.guards l = some .exclusive

/-- Nobody holds `l`. -/
def State.Free (s : State L N D T σ) (l : L) : Prop :=
  ∀ K ∈ s.threads, holds l K = false

/-- Taking `l` succeeds at once. -/
def State.available (s : State L N D T σ) (l : L) : Mode → Bool
  | .shared => s.threads.all fun K => !writes l K
  | .exclusive => s.threads.all fun K => !holds l K

-- =============================================================== the steps

/-- The control stack an interrupt leaves. -/
def Handler.entry (h : Handler L N D T) (K : List (Frame L N D T)) :
    List (Frame L N D T) :=
  if h.reschedules then .run h.body :: .reschedule :: .iret true :: K
  else .run h.body :: .iret true :: K

/-- The control stack of a new thread, which starts as if interrupted at
its first instruction. -/
def Sys.initial (sys : Sys L N D T H σ) (n : N) : List (Frame L N D T) :=
  [.iret true, .run (sys.code n)]

/-- A step of the command `c` above `K`. -/
def Sys.stepCmd (sys : Sys L N D T H σ) (s : State L N D T σ)
    (left : Bool) (K : List (Frame L N D T)) :
    Cmd L N D T → Option (State L N D T σ)
  | .skip => some (s.goto K)
  | .act a => some { s.goto K with data := sys.effect a s.cur s.data }
  | .cond t c d =>
      some (s.goto (.run (if sys.test t s.cur s.data then c else d) :: K))
  | .seq c d => some (s.goto (.run c :: .run d :: K))
  | .choice c d => some (s.goto (.run (if left then c else d) :: K))
  | .star c =>
      some (s.goto (if left then .run c :: .run (.star c) :: K else K))
  | .locked l m c =>
      if s.available l m then some (s.goto (.run c :: .unlock l m :: K))
      else none
  | .masked c => some (s.goto (.enter s.on c :: K))
  | .sti => some { s.goto K with on := true }
  | .spawn n =>
      some { s.goto K with
        threads := (s.goto K).threads ++ [sys.initial n] }
  | .panic => some { s.goto (.halted :: K) with on := false }

/-- A step of the thread whose control stack is given. -/
def Sys.stepStack (sys : Sys L N D T H σ) (s : State L N D T σ)
    (left : Bool) : List (Frame L N D T) → Option (State L N D T σ)
  | [] => none
  | .run c :: K => sys.stepCmd s left K c
  | .enter wasOn c :: K =>
      some { s.goto (.run c :: .unmask wasOn :: K) with
        on := s.on && !wasOn }
  | .unlock _ _ :: K => some (s.goto K)
  | .unmask wasOn :: K => some { s.goto K with on := s.on || wasOn }
  | .reschedule :: K =>
      some { s.goto K with cur := sys.pick s.threads.length s.cur }
  | .iret wasOn :: K => some { s.goto K with on := wasOn }
  | .halted :: _ => none

/-- One step. An interrupt is accepted when interrupts are on. -/
def Sys.step (sys : Sys L N D T H σ) (s : State L N D T σ) :
    Label H → Option (State L N D T σ)
  | .step left => sys.stepStack s left s.stack
  | .interrupt h =>
      if s.on then
        some { s.goto ((sys.handler h).entry s.stack) with on := false }
      else none

/-- The system that starts as `start`. -/
def Sys.toTransSys (sys : Sys L N D T H σ) (start : State L N D T σ) :
    TransSys (State L N D T σ) (Label H) where
  init s := s = start
  step s e s' := sys.step s e = some s'

/-- A free lock is available. -/
theorem available_of_free {s : State L N D T σ} {l : L} (h : s.Free l)
    (m : Mode) : s.available l m = true := by
  cases m with
  | exclusive =>
      refine List.all_eq_true.mpr fun K hK => ?_
      rw [h K hK]
      rfl
  | shared =>
      refine List.all_eq_true.mpr fun K hK => ?_
      have hnone : writes l K = false := by
        refine List.any_eq_false.mpr fun f hf hw => ?_
        have hguard := List.any_eq_false.mp (h K hK) f hf
        rw [of_decide_eq_true hw] at hguard
        exact hguard rfl
      rw [hnone]
      rfl

/-- Interrupts are accepted when they are on. -/
theorem on_of_interrupt {sys : Sys L N D T H σ} {s s' : State L N D T σ}
    {h : H} (hstep : sys.step s (.interrupt h) = some s') : s.on = true := by
  simp only [Sys.step] at hstep
  split at hstep
  case isTrue hon => exact hon
  case isFalse => cases hstep

/-- Who is about to take a free lock takes it. -/
theorem step_locked_of_free {sys : Sys L N D T H σ} {s : State L N D T σ}
    {l : L} {m : Mode} {c : Cmd L N D T} {K : List (Frame L N D T)}
    {left : Bool} (hfree : s.Free l)
    (hstack : s.stack = .run (.locked l m c) :: K) :
    sys.step s (.step left) = some (s.goto (.run c :: .unlock l m :: K)) := by
  show sys.stepStack s left s.stack = _
  rw [hstack]
  exact if_pos (available_of_free hfree m)

-- ======================================================== running a system

/-- What a thread does that passes its checks and leaves its loops. -/
def State.usual (s : State L N D T σ) : Bool :=
  match s.stack with
  | .run (.star _) :: _ => false
  | _ => true

/-- Let the current thread do `n` usual steps. -/
def Sys.proceed (sys : Sys L N D T H σ) :
    Nat → State L N D T σ → Option (State L N D T σ)
  | 0, s => some s
  | n + 1, s => (sys.step s (.step s.usual)).bind (sys.proceed n)

/-- Take the labels in order. -/
def Sys.replay (sys : Sys L N D T H σ) :
    List (Label H) → State L N D T σ → Option (State L N D T σ)
  | [], s => some s
  | e :: es, s => (sys.step s e).bind (sys.replay es)

/-- `ok` holds before each of the next `n` usual steps. -/
def Sys.along (sys : Sys L N D T H σ) (ok : State L N D T σ → Bool) :
    Nat → State L N D T σ → Bool
  | 0, _ => true
  | n + 1, s => ok s && (sys.step s (.step s.usual)).all (sys.along ok n)

theorem proceed_reachable {sys : Sys L N D T H σ}
    {start : State L N D T σ} (n : Nat) :
    ∀ {s s' : State L N D T σ}, (sys.toTransSys start).Reachable s →
      sys.proceed n s = some s' → (sys.toTransSys start).Reachable s' := by
  induction n with
  | zero =>
      intro s s' hs h
      exact Option.some.inj h ▸ hs
  | succ n ih =>
      intro s s' hs h
      obtain ⟨t, hstep, hrest⟩ := Option.bind_eq_some_iff.mp h
      exact ih (hs.next hstep) hrest

theorem proceed_guarded {sys : Sys L N D T H σ} {start : State L N D T σ}
    {P : State L N D T σ → Label H → Prop} {ok : State L N D T σ → Bool}
    (hok : ∀ s e, ok s = true → P s e) (n : Nat) :
    ∀ {s s' : State L N D T σ},
      ((sys.toTransSys start).guard P).Reachable s →
      sys.along ok n s = true → sys.proceed n s = some s' →
      ((sys.toTransSys start).guard P).Reachable s' := by
  induction n with
  | zero =>
      intro s s' hs _ h
      exact Option.some.inj h ▸ hs
  | succ n ih =>
      intro s s' hs halong h
      obtain ⟨t, hstep, hrest⟩ := Option.bind_eq_some_iff.mp h
      obtain ⟨hhere, hthere⟩ := Bool.and_eq_true_iff.mp halong
      rw [hstep] at hthere
      exact ih (hs.next ⟨hstep, hok s _ hhere⟩) hthere hrest

theorem replay_reachable {sys : Sys L N D T H σ}
    {start : State L N D T σ} (es : List (Label H)) :
    ∀ {s s' : State L N D T σ}, (sys.toTransSys start).Reachable s →
      sys.replay es s = some s' → (sys.toTransSys start).Reachable s' := by
  induction es with
  | nil =>
      intro s s' hs h
      exact Option.some.inj h ▸ hs
  | cons e es ih =>
      intro s s' hs h
      obtain ⟨t, hstep, hrest⟩ := Option.bind_eq_some_iff.mp h
      exact ih (hs.next hstep) hrest

end Locks

end Lib.Irq
