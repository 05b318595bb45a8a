/-
Locks that are held with interrupts on. A thread that holds one may be
preempted, and whoever then waits for it with interrupts off waits for
ever. No static condition excludes that; what does is a condition on
runs: no thread turns interrupts off for a section that takes such a
lock while another thread holds one (`not_stuck`).
-/
import Bayos.Lib.Irq.Flow

namespace Lib.Irq

variable {L N D T H σ : Type} [DecidableEq L]

-- =========================================== locks held with interrupts on

/-- The command may take a lock of the class `S`. -/
def Cmd.touches (S : L → Bool) : Cmd L N D T → Bool
  | .cond _ c d => c.touches S || d.touches S
  | .seq c d => c.touches S || d.touches S
  | .choice c d => c.touches S || d.touches S
  | .star c => c.touches S
  | .locked l _ c => S l || c.touches S
  | .masked c => c.touches S
  | _ => false

/-- The control stack may take a lock of `S` before interrupts are on
again. -/
def sectionTouches (S : L → Bool) : List (Frame L N D T) → Bool
  | [] => false
  | .run c :: K => c.touches S || sectionTouches S K
  | .enter _ c :: K => c.touches S || sectionTouches S K
  | .unlock _ _ :: K => sectionTouches S K
  | .unmask wasOn :: K => !wasOn && sectionTouches S K
  | .reschedule :: K => sectionTouches S K
  | .iret wasOn :: K => !wasOn && sectionTouches S K
  | .halted :: _ => false

/-- A thread other than the current one holds a lock of `S`. -/
def State.HeldByOther (s : State L N D T σ) (S : L → Bool) : Prop :=
  ∃ (i : Nat) (K : List (Frame L N D T)) (l : L), i ≠ s.cur
    ∧ s.threads[i]? = some K ∧ S l = true ∧ holds l K = true

/-- The current thread is about to turn interrupts off for a section
that takes a lock of `S`. -/
def State.Entering (s : State L N D T σ) (S : L → Bool) : Prop :=
  ∃ c K, s.stack = .enter true c :: K ∧ c.touches S = true

/-- The current thread waits, with interrupts off, for a lock of `S`
that another thread holds. -/
def State.Stuck (s : State L N D T σ) (S : L → Bool) : Prop :=
  s.on = false ∧ ∃ l m c K, s.stack = .run (.locked l m c) :: K
    ∧ S l = true ∧ ∃ (i : Nat) (J : List (Frame L N D T)), i ≠ s.cur
      ∧ s.threads[i]? = some J ∧ holds l J = true

/-- While a section that takes a lock of `S` runs with interrupts off,
no other thread holds one. -/
def SectionInv (S : L → Bool) (s : State L N D T σ) : Prop :=
  s.on = false → sectionTouches S s.stack = true → ¬ s.HeldByOther S

section Stuck

variable {sys : Sys L N D T H σ} {S : L → Bool} {s s' : State L N D T σ}

/-- Other threads are as they were. -/
theorem heldByOther_goto {K : List (Frame L N D T)} {on : Bool} {d : σ}
    (h : State.HeldByOther ⟨(s.goto K).threads, s.cur, on, d⟩ S) :
    s.HeldByOther S := by
  obtain ⟨i, J, l, hi, hJ, hl, hh⟩ := h
  rcases goto_some hJ with ⟨heq, -⟩ | ⟨-, hold⟩
  · exact absurd heq hi
  · exact ⟨i, J, l, hi, hold, hl, hh⟩

/-- The current thread moves on inside a section, or the section may
begin. -/
theorem SectionInv.goto (h : SectionInv S s)
    (hcur : s.cur < s.threads.length) {K : List (Frame L N D T)} {on : Bool}
    {d : σ} (hK : on = false → sectionTouches S K = true →
      s.on = false ∧ sectionTouches S s.stack = true
        ∨ ¬ s.HeldByOther S) :
    SectionInv S ⟨(s.goto K).threads, s.cur, on, d⟩ := by
  intro hoff htouch hheld
  have hstack : State.stack ⟨(s.goto K).threads, s.cur, on, d⟩ = K :=
    stack_goto hcur K
  rw [hstack] at htouch
  rcases hK hoff htouch with ⟨hoff', htouch'⟩ | hfree
  · exact h hoff' htouch' (heldByOther_goto hheld)
  · exact hfree (heldByOther_goto hheld)

/-- A new thread holds nothing. -/
theorem SectionInv.spawn (h : SectionInv S s)
    (hcur : s.cur < s.threads.length) (n : N) :
    SectionInv S { s with threads := s.threads ++ [sys.initial n] } := by
  intro hoff htouch hheld
  rw [stack_append hcur] at htouch
  apply h hoff htouch
  obtain ⟨i, J, l, hi, hJ, hl, hh⟩ := hheld
  rcases getElem?_concat_some hJ with hold | ⟨-, rfl⟩
  · exact ⟨i, J, l, hi, hold, hl, hh⟩
  · cases hh

omit [DecidableEq L] in
/-- The branch taken takes no lock that neither branch takes. -/
theorem touches_branch {b : Bool} {c d : Cmd L N D T}
    (h : (if b then c else d).touches S = true) :
    (c.touches S || d.touches S) = true := by
  apply Bool.or_eq_true_iff.mpr
  split at h
  · exact Or.inl h
  · exact Or.inr h

/-- A section takes no lock that its commands did not take before the
step. -/
theorem sectionInv_stepCmd (h : SectionInv S s)
    (hcur : s.cur < s.threads.length) {left : Bool} {c : Cmd L N D T}
    {K : List (Frame L N D T)} (hstack : s.stack = .run c :: K)
    (hstep : sys.stepCmd s left K c = some s') : SectionInv S s' := by
  have hrest : sectionTouches S K = true →
      sectionTouches S s.stack = true := by
    intro hK
    rw [hstack]
    exact Bool.or_eq_true_iff.mpr (Or.inr hK)
  have hpart : c.touches S = true → sectionTouches S s.stack = true := by
    intro hc
    rw [hstack]
    exact Bool.or_eq_true_iff.mpr (Or.inl hc)
  cases c with
  | skip | act =>
      obtain rfl := Option.some.inj hstep
      exact h.goto hcur fun hoff hK => Or.inl ⟨hoff, hrest hK⟩
  | cond t c d =>
      obtain rfl := Option.some.inj hstep
      refine h.goto hcur fun hoff hK => Or.inl ⟨hoff, ?_⟩
      rcases Bool.or_eq_true_iff.mp hK with hcd | hK
      · exact hpart (touches_branch hcd)
      · exact hrest hK
  | seq c d =>
      obtain rfl := Option.some.inj hstep
      refine h.goto hcur fun hoff hK => Or.inl ⟨hoff, ?_⟩
      rcases Bool.or_eq_true_iff.mp hK with hc | hK
      · exact hpart (Bool.or_eq_true_iff.mpr (Or.inl hc))
      rcases Bool.or_eq_true_iff.mp hK with hd | hK
      · exact hpart (Bool.or_eq_true_iff.mpr (Or.inr hd))
      · exact hrest hK
  | choice c d =>
      obtain rfl := Option.some.inj hstep
      refine h.goto hcur fun hoff hK => Or.inl ⟨hoff, ?_⟩
      rcases Bool.or_eq_true_iff.mp hK with hcd | hK
      · exact hpart (touches_branch hcd)
      · exact hrest hK
  | star c =>
      obtain rfl := Option.some.inj hstep
      refine h.goto hcur fun hoff hK => Or.inl ⟨hoff, ?_⟩
      cases left with
      | true =>
          rcases Bool.or_eq_true_iff.mp hK with hc | hK
          · exact hpart hc
          · rw [hstack]
            exact hK
      | false => exact hrest hK
  | locked l m c =>
      simp only [Sys.stepCmd] at hstep
      split at hstep
      case isFalse => cases hstep
      case isTrue =>
        obtain rfl := Option.some.inj hstep
        refine h.goto hcur fun hoff hK => Or.inl ⟨hoff, ?_⟩
        rcases Bool.or_eq_true_iff.mp hK with hc | hK
        · exact hpart (Bool.or_eq_true_iff.mpr (Or.inr hc))
        · exact hrest hK
  | masked c =>
      obtain rfl := Option.some.inj hstep
      refine h.goto hcur fun hoff hK => Or.inl ⟨hoff, ?_⟩
      rw [hstack]
      exact hK
  | sti =>
      obtain rfl := Option.some.inj hstep
      exact h.goto hcur fun hoff => Bool.noConfusion hoff
  | spawn n =>
      obtain rfl := Option.some.inj hstep
      have hgoto : SectionInv S ⟨(s.goto K).threads, s.cur, s.on, s.data⟩ :=
        h.goto hcur fun hoff hK => Or.inl ⟨hoff, hrest hK⟩
      refine hgoto.spawn ?_ n
      rw [goto_length]
      exact hcur
  | panic =>
      obtain rfl := Option.some.inj hstep
      exact h.goto hcur fun _ hK => Bool.noConfusion hK

/-- The step that may begin a section is the one that turns interrupts
off; `hguard` is about it alone. -/
theorem sectionInv_step {irq : L → Bool} (hsys : sys.FlowOk irq)
    (hhandler : ∀ h, (sys.handler h).body.touches S = false)
    (hflow : FlowInv irq s) (h : SectionInv S s) {e : Label H}
    (hguard : s.Entering S → ¬ s.HeldByOther S)
    (hstep : sys.step s e = some s') : SectionInv S s' := by
  have hcur := hflow.cur
  have hrun := hflow.running
  cases e with
  | interrupt i =>
      simp only [Sys.step] at hstep
      split at hstep
      case isFalse => cases hstep
      case isTrue =>
        obtain rfl := Option.some.inj hstep
        refine h.goto hcur fun _ hK => ?_
        have hbody := hhandler i
        unfold Handler.entry at hK
        split at hK
        · have hnone : ((sys.handler i).body.touches S || false) = true := hK
          rw [hbody] at hnone
          exact Bool.noConfusion hnone
        · have hnone : ((sys.handler i).body.touches S || false) = true := hK
          rw [hbody] at hnone
          exact Bool.noConfusion hnone
  | step left =>
      have hstack : sys.stepStack s left s.stack = some s' := hstep
      cases hK : s.stack with
      | nil => rw [hK] at hstack; cases hstack
      | cons f K =>
          rw [hK] at hstack hrun
          cases f with
          | run c => exact sectionInv_stepCmd h hcur hK hstack
          | enter wasOn c =>
              obtain rfl := Option.some.inj hstack
              refine h.goto hcur fun hoff htouch => ?_
              cases wasOn with
              | true =>
                  have hc : c.touches S = true := by
                    rcases Bool.or_eq_true_iff.mp htouch with hc | hrest
                    · exact hc
                    · exact Bool.noConfusion hrest
                  exact Or.inr (hguard ⟨c, K, hK, hc⟩)
              | false =>
                  rw [Bool.not_false, Bool.and_true] at hoff
                  refine Or.inl ⟨hoff, ?_⟩
                  rw [hK]
                  exact htouch
          | unlock l m =>
              obtain rfl := Option.some.inj hstack
              refine h.goto hcur fun hoff htouch => Or.inl ⟨hoff, ?_⟩
              rw [hK]
              exact htouch
          | unmask wasOn =>
              obtain rfl := Option.some.inj hstack
              refine h.goto hcur fun hoff htouch => ?_
              rw [Bool.or_eq_false_iff] at hoff
              refine Or.inl ⟨hoff.1, ?_⟩
              rw [hK]
              show (!wasOn && sectionTouches S K) = true
              rw [hoff.2, htouch]
              rfl
          | reschedule =>
              obtain ⟨-, hhead, hrest⟩ := hrun
              obtain rfl := Option.some.inj hstack
              intro _ htouch _
              -- the thread gone on with is at the end of its interrupt
              obtain ⟨J, heq, -⟩ := reschedule_stack hsys hflow hhead hrest
              rw [heq] at htouch
              exact Bool.noConfusion htouch
          | iret wasOn =>
              obtain ⟨hoff, -⟩ := hrun
              obtain rfl := Option.some.inj hstack
              refine h.goto hcur fun hwas htouch => Or.inl ⟨hoff, ?_⟩
              rw [hK]
              show (!wasOn && sectionTouches S K) = true
              rw [hwas, htouch]
              rfl
          | halted => cases hstack

/-- Who is stuck is inside such a section. -/
theorem SectionInv.not_stuck (h : SectionInv S s) : ¬ s.Stuck S := by
  intro hstuck
  obtain ⟨hoff, l, m, c, K, hstack, hl, i, J, hi, hJ, hh⟩ := hstuck
  refine h hoff ?_ ⟨i, J, l, hi, hJ, hl, hh⟩
  rw [hstack]
  refine Bool.or_eq_true_iff.mpr (Or.inl ?_)
  exact Bool.or_eq_true_iff.mpr (Or.inl hl)

/-- In runs in which no thread begins a section that takes a lock of `S`
while another thread holds one, no thread is ever stuck. -/
theorem not_stuck {irq : L → Bool} (hsys : sys.FlowOk irq)
    (hhandler : ∀ h, (sys.handler h).body.touches S = false)
    {start : State L N D T σ} (hflow : FlowInv irq start)
    (hstart : SectionInv S start)
    (hreach : ((sys.toTransSys start).guard fun s _ =>
      s.Entering S → ¬ s.HeldByOther S).Reachable s) : ¬ s.Stuck S := by
  have hinv : FlowInv irq s ∧ SectionInv S s := by
    refine hreach.invariant (I := fun s => FlowInv irq s ∧ SectionInv S s)
      ?_ ?_
    · intro s hs
      obtain rfl : s = start := hs
      exact ⟨hflow, hstart⟩
    · intro s e s' h hstep
      exact ⟨flowInv_step hsys h.1 hstep.1,
        sectionInv_step hsys hhandler h.1 h.2 hstep.2 hstep.1⟩
  exact hinv.2.not_stuck

end Stuck

end Lib.Irq
