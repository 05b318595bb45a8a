/-
The first static condition on programs: locks of a class are taken with
interrupts off only. Then, whenever interrupts are on, nobody holds one,
whatever runs and however it is preempted (`irq_free_of_on`).

# One flag, many threads

`Flows on K` types a control stack by the interrupt flag it goes on
with. The flag belongs to the processor, not to a thread; what makes the
typing compositional is that a thread that is not running will go on
with interrupts on, at its return from the interrupt it is in.
-/
import Bayos.Lib.Irq.Machine

namespace Lib.Irq

variable {L N D T H σ : Type}

-- ========================================= locks taken with interrupts off

/-- The interrupt flag after a command, from the flag before it, if locks
of the class are taken with interrupts off only. -/
def Cmd.flow (irq : L → Bool) : Bool → Cmd L N D T → Option Bool
  | on, .skip => some on
  | on, .act _ => some on
  | on, .cond _ c d =>
      if c.flow irq on = d.flow irq on then c.flow irq on else none
  | on, .seq c d => (c.flow irq on).bind fun on => d.flow irq on
  | on, .choice c d =>
      if c.flow irq on = d.flow irq on then c.flow irq on else none
  | on, .star c => if c.flow irq on = some on then some on else none
  | on, .locked l _ c =>
      if (irq l && on) = false ∧ c.flow irq on = some on then some on
      else none
  | on, .masked c => if c.flow irq false = some false then some on else none
  | _, .sti => some true
  | on, .spawn _ => some on
  | on, .panic => some on

/-- A control stack that keeps to the rule when it goes on with
interrupts as `on` says. -/
def Flows (irq : L → Bool) : Bool → List (Frame L N D T) → Prop
  | _, [] => True
  | on, .run c :: K => ∃ on', c.flow irq on = some on' ∧ Flows irq on' K
  | on, .enter wasOn c :: K =>
      wasOn = on ∧ c.flow irq false = some false ∧ Flows irq on K
  | on, .unlock l _ :: K => (irq l = true → on = false) ∧ Flows irq on K
  | on, .unmask wasOn :: K => on = false ∧ Flows irq wasOn K
  | on, .reschedule :: K =>
      on = false ∧ K.head? = some (.iret true) ∧ Flows irq on K
  | on, .iret wasOn :: K => on = false ∧ Flows irq wasOn K
  | on, .halted :: _ => on = false

/-- Nothing but an interrupt turns interrupts off for good. -/
theorem flow_on {irq : L → Bool} {c : Cmd L N D T} {on : Bool}
    (h : c.flow irq true = some on) : on = true := by
  induction c generalizing on with
  | skip | act | sti | spawn | panic => exact (Option.some.inj h).symm
  | cond t c d ihc ihd =>
      unfold Cmd.flow at h
      split at h
      · exact ihc h
      · cases h
  | seq c d ihc ihd =>
      unfold Cmd.flow at h
      obtain ⟨on', hc, hd⟩ := Option.bind_eq_some_iff.mp h
      obtain rfl := ihc hc
      exact ihd hd
  | choice c d ihc ihd =>
      unfold Cmd.flow at h
      split at h
      · exact ihc h
      · cases h
  | star | locked | masked =>
      unfold Cmd.flow at h
      split at h
      · exact (Option.some.inj h).symm
      · cases h

/-- A thread that goes on with interrupts on holds no lock of the
class. -/
theorem not_holds_of_on [DecidableEq L] {irq : L → Bool} {l : L}
    (hl : irq l = true) :
    ∀ {K : List (Frame L N D T)}, Flows irq true K → holds l K = false := by
  intro K
  induction K with
  | nil => intro _; rfl
  | cons f K ih =>
      intro h
      cases f with
      | run c =>
          obtain ⟨on, hc, hK⟩ := h
          obtain rfl := flow_on hc
          exact ih hK
      | enter wasOn c => exact ih h.2.2
      | unlock l' m =>
          obtain ⟨hirq, hK⟩ := h
          have hne : l' ≠ l := by
            intro heq
            subst heq
            exact Bool.noConfusion (hirq hl)
          rw [holds_unlock_ne hne]
          exact ih hK
      | unmask wasOn => exact Bool.noConfusion h.1
      | reschedule => exact Bool.noConfusion h.1
      | iret wasOn => exact Bool.noConfusion h.1
      | halted => exact Bool.noConfusion h

/-- All code of a system keeps to the rule. -/
structure Sys.FlowOk (sys : Sys L N D T H σ) (irq : L → Bool) : Prop where
  code : ∀ n, (sys.code n).flow irq true = some true
  handler : ∀ h, (sys.handler h).body.flow irq false = some false
  pick : ∀ n cur, cur < n → sys.pick n cur < n

/-- The current thread keeps to the rule, and the others will, with
interrupts on, once they return from the interrupt they are in. -/
structure FlowInv (irq : L → Bool) (s : State L N D T σ) : Prop where
  cur : s.cur < s.threads.length
  running : Flows irq s.on s.stack
  suspended : ∀ i K, i ≠ s.cur → s.threads[i]? = some K →
    ∃ K', K = .iret true :: K' ∧ Flows irq true K'

section Flow

variable {sys : Sys L N D T H σ} {irq : L → Bool} {s s' : State L N D T σ}

/-- The current thread moves on. -/
theorem FlowInv.goto (h : FlowInv irq s) {K : List (Frame L N D T)}
    {on : Bool} (hK : Flows irq on K) (d : σ) :
    FlowInv irq { s.goto K with on := on, data := d } := by
  refine ⟨?_, ?_, ?_⟩
  · show s.cur < (s.goto K).threads.length
    rw [goto_length]
    exact h.cur
  · have hstack : State.stack { s.goto K with on := on, data := d } = K :=
      stack_goto h.cur K
    rw [hstack]
    exact hK
  · intro i K' hi hK'
    rcases goto_some hK' with ⟨heq, -⟩ | ⟨-, hold⟩
    · exact absurd heq hi
    · exact h.suspended i K' hi hold

/-- A thread is created. -/
theorem FlowInv.spawn (h : FlowInv irq s) {K : List (Frame L N D T)}
    (hK : Flows irq true K) :
    FlowInv irq { s with threads := s.threads ++ [.iret true :: K] } := by
  have hcur := h.cur
  refine ⟨?_, ?_, ?_⟩
  · show s.cur < (s.threads ++ [_]).length
    rw [List.length_append]
    omega
  · rw [stack_append hcur]
    exact h.running
  · intro i K' hi hK'
    rcases getElem?_concat_some hK' with hold | ⟨-, rfl⟩
    · exact h.suspended i K' hi hold
    · exact ⟨K, rfl, hK⟩

/-- Either branch, where both leave interrupts the same. -/
theorem flows_branch {b : Bool} {on on' : Bool} {c d : Cmd L N D T}
    {K : List (Frame L N D T)} (heq : c.flow irq on = d.flow irq on)
    (hflow : c.flow irq on = some on') (hK : Flows irq on' K) :
    Flows irq on (.run (if b then c else d) :: K) := by
  refine ⟨on', ?_, hK⟩
  split
  · exact hflow
  · exact heq.symm.trans hflow

/-- A command that keeps to the rule leads to a thread that does. -/
theorem flowInv_stepCmd [DecidableEq L] (hsys : sys.FlowOk irq)
    (h : FlowInv irq s)
    {left : Bool} {c : Cmd L N D T} {K : List (Frame L N D T)}
    (hflows : Flows irq s.on (.run c :: K))
    (hstep : sys.stepCmd s left K c = some s') : FlowInv irq s' := by
  obtain ⟨on, hflow, hK⟩ := hflows
  cases c with
  | skip | act | sti =>
      obtain rfl := Option.some.inj hflow
      obtain rfl := Option.some.inj hstep
      exact h.goto hK _
  | cond t c d =>
      unfold Cmd.flow at hflow
      split at hflow
      case isFalse => cases hflow
      case isTrue heq =>
        obtain rfl := Option.some.inj hstep
        exact h.goto (flows_branch heq hflow hK) _
  | seq c d =>
      unfold Cmd.flow at hflow
      obtain ⟨on', hc, hd⟩ := Option.bind_eq_some_iff.mp hflow
      obtain rfl := Option.some.inj hstep
      refine h.goto ?_ _
      exact ⟨on', hc, on, hd, hK⟩
  | choice c d =>
      unfold Cmd.flow at hflow
      split at hflow
      case isFalse => cases hflow
      case isTrue heq =>
        obtain rfl := Option.some.inj hstep
        exact h.goto (flows_branch heq hflow hK) _
  | star c =>
      have hstar := hflow
      unfold Cmd.flow at hflow
      split at hflow
      case isFalse => cases hflow
      case isTrue hc =>
        obtain rfl := Option.some.inj hflow
        obtain rfl := Option.some.inj hstep
        refine h.goto ?_ _
        split
        · exact ⟨_, hc, _, hstar, hK⟩
        · exact hK
  | locked l m c =>
      unfold Cmd.flow at hflow
      simp only [Sys.stepCmd] at hstep
      split at hflow
      case isFalse => cases hflow
      case isTrue hc =>
        obtain rfl := Option.some.inj hflow
        split at hstep
        case isFalse => cases hstep
        case isTrue =>
          obtain rfl := Option.some.inj hstep
          refine h.goto ?_ _
          refine ⟨_, hc.2, fun hl => ?_, hK⟩
          have hoff := hc.1
          rw [hl, Bool.true_and] at hoff
          exact hoff
  | masked c =>
      unfold Cmd.flow at hflow
      split at hflow
      case isFalse => cases hflow
      case isTrue hc =>
        obtain rfl := Option.some.inj hflow
        obtain rfl := Option.some.inj hstep
        refine h.goto ?_ _
        exact ⟨rfl, hc, hK⟩
  | spawn n =>
      obtain rfl := Option.some.inj hflow
      obtain rfl := Option.some.inj hstep
      exact (h.goto hK s.data).spawn ⟨true, hsys.code n, trivial⟩
  | panic =>
      obtain rfl := Option.some.inj hstep
      exact h.goto (K := .halted :: K) rfl _

/-- When the timer's handler is about to go on in another thread, every
thread is at the return from an interrupt. -/
theorem reschedule_suspended (h : FlowInv irq s) {K : List (Frame L N D T)}
    (hhead : K.head? = some (.iret true)) (hK : Flows irq s.on K) {i : Nat}
    {J : List (Frame L N D T)} (hJ : (s.goto K).threads[i]? = some J) :
    ∃ J', J = .iret true :: J' ∧ Flows irq true J' := by
  obtain ⟨K', rfl⟩ : ∃ K', K = .iret true :: K' := by
    cases K with
    | nil => cases hhead
    | cons f K' => exact ⟨K', congrArg (· :: K') (Option.some.inj hhead)⟩
  rcases goto_some hJ with ⟨-, rfl⟩ | ⟨hi, hold⟩
  · exact ⟨K', rfl, hK.2⟩
  · exact h.suspended i J hi hold

theorem pick_lt (hsys : sys.FlowOk irq) (h : FlowInv irq s)
    (K : List (Frame L N D T)) :
    sys.pick s.threads.length s.cur < (s.goto K).threads.length := by
  rw [goto_length]
  exact hsys.pick _ _ h.cur

/-- The timer's handler goes on in another thread. -/
theorem reschedule_stack (hsys : sys.FlowOk irq) (h : FlowInv irq s)
    {K : List (Frame L N D T)} (hhead : K.head? = some (.iret true))
    (hK : Flows irq s.on K) :
    ∃ J, State.stack { s.goto K with
        cur := sys.pick s.threads.length s.cur } = .iret true :: J
      ∧ Flows irq true J := by
  have hJ := List.getElem?_eq_getElem (pick_lt hsys h K)
  obtain ⟨J, heq, hflows⟩ := reschedule_suspended h hhead hK hJ
  rw [heq] at hJ
  exact ⟨J, stack_of_getElem? hJ, hflows⟩

theorem flowInv_reschedule (hsys : sys.FlowOk irq) (h : FlowInv irq s)
    {K : List (Frame L N D T)} (hoff : s.on = false)
    (hhead : K.head? = some (.iret true)) (hK : Flows irq s.on K) :
    FlowInv irq { s.goto K with
      cur := sys.pick s.threads.length s.cur } := by
  obtain ⟨J, hstack, hJ⟩ := reschedule_stack hsys h hhead hK
  refine ⟨pick_lt hsys h K, ?_, fun i J _ hJ => ?_⟩
  · rw [hstack]
    exact ⟨hoff, hJ⟩
  · exact reschedule_suspended h hhead hK hJ

theorem flowInv_step [DecidableEq L] (hsys : sys.FlowOk irq)
    (h : FlowInv irq s)
    {e : Label H} (hstep : sys.step s e = some s') : FlowInv irq s' := by
  have hrun := h.running
  cases e with
  | interrupt i =>
      simp only [Sys.step] at hstep
      split at hstep
      case isFalse => cases hstep
      case isTrue hon =>
        obtain rfl := Option.some.inj hstep
        refine h.goto ?_ _
        rw [hon] at hrun
        unfold Handler.entry
        split
        · exact ⟨false, hsys.handler i, rfl, rfl, rfl, hrun⟩
        · exact ⟨false, hsys.handler i, rfl, hrun⟩
  | step left =>
      have hstack : sys.stepStack s left s.stack = some s' := hstep
      cases hK : s.stack with
      | nil => rw [hK] at hstack; cases hstack
      | cons f K =>
          rw [hK] at hstack hrun
          cases f with
          | run c => exact flowInv_stepCmd hsys h hrun hstack
          | enter wasOn c =>
              obtain ⟨rfl, hc, hrest⟩ := hrun
              obtain rfl := Option.some.inj hstack
              refine h.goto ?_ _
              rw [Bool.and_not_self]
              exact ⟨false, hc, rfl, hrest⟩
          | unlock l m =>
              obtain rfl := Option.some.inj hstack
              exact h.goto hrun.2 _
          | unmask wasOn =>
              obtain ⟨hoff, hrest⟩ := hrun
              obtain rfl := Option.some.inj hstack
              refine h.goto ?_ _
              rw [hoff, Bool.false_or]
              exact hrest
          | reschedule =>
              obtain ⟨hoff, hhead, hrest⟩ := hrun
              obtain rfl := Option.some.inj hstack
              exact flowInv_reschedule hsys h hoff hhead hrest
          | iret wasOn =>
              obtain rfl := Option.some.inj hstack
              exact h.goto hrun.2 _
          | halted => cases hstack

theorem flowInv_run [DecidableEq L] (hsys : sys.FlowOk irq)
    {start : State L N D T σ} (hstart : FlowInv irq start)
    (hreach : (sys.toTransSys start).Reachable s) : FlowInv irq s := by
  refine hreach.invariant (I := FlowInv irq) ?_ ?_
  · intro s hs
    obtain rfl : s = start := hs
    exact hstart
  · intro s e s' h hstep
    exact flowInv_step hsys h hstep

/-- When interrupts are on, every lock of the class is free. -/
theorem irq_free_of_on [DecidableEq L] (h : FlowInv irq s)
    (hon : s.on = true) {l : L}
    (hl : irq l = true) : s.Free l := by
  intro K hK
  obtain ⟨i, hi⟩ := List.mem_iff_getElem?.mp hK
  by_cases hcur : i = s.cur
  · subst hcur
    have hrun := h.running
    rw [stack_of_getElem? hi, hon] at hrun
    exact not_holds_of_on hl hrun
  · obtain ⟨K', rfl, hK'⟩ := h.suspended i K hcur hi
    have hrest := not_holds_of_on hl hK'
    exact hrest

end Flow

end Lib.Irq
