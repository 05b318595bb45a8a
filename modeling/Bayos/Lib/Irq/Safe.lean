/-
The second static condition on programs: no command takes a lock again
inside its own guard on it. For a lock of the class that is taken with
interrupts off only, nobody then ever waits (`irq_free_at_lock`).

# Excuses

A test may be known to lead into a command that does take a lock twice.
The condition is relative to a set of such tests; a thread for which one
of them succeeded is excused, and says nothing about the others.
-/
import Bayos.Lib.Irq.Flow

namespace Lib.Irq

variable {L N D T H σ : Type} [DecidableEq L]

-- ================================================== no lock is taken twice

/-- The command may take `l`, if no test of `exc` succeeds. -/
def Cmd.takes (exc : T → Bool) (l : L) : Cmd L N D T → Bool
  | .cond t c d => (!exc t && c.takes exc l) || d.takes exc l
  | .seq c d => c.takes exc l || d.takes exc l
  | .choice c d => c.takes exc l || d.takes exc l
  | .star c => c.takes exc l
  | .locked l' _ c => l' = l || c.takes exc l
  | .masked c => c.takes exc l
  | _ => false

/-- The command does not take `l` inside a guard of its own on `l`, if
no test of `exc` succeeds. -/
def Cmd.safe (exc : T → Bool) (l : L) : Cmd L N D T → Bool
  | .cond t c d => (exc t || c.safe exc l) && d.safe exc l
  | .seq c d => c.safe exc l && d.safe exc l
  | .choice c d => c.safe exc l && d.safe exc l
  | .star c => c.safe exc l
  | .locked l' _ c => (l' ≠ l || !c.takes exc l) && c.safe exc l
  | .masked c => c.safe exc l
  | _ => true

/-- A command of a control stack that goes on as `K`. -/
def SafeOver (exc : T → Bool) (l : L) (c : Cmd L N D T)
    (K : List (Frame L N D T)) : Prop :=
  c.safe exc l = true ∧ (holds l K = true → c.takes exc l = false)

/-- No command of the control stack takes `l` above a guard on it. -/
def SafeStack (exc : T → Bool) (l : L) : List (Frame L N D T) → Prop
  | [] => True
  | .run c :: K => SafeOver exc l c K ∧ SafeStack exc l K
  | .enter _ c :: K => SafeOver exc l c K ∧ SafeStack exc l K
  | _ :: K => SafeStack exc l K

section Parts

variable {exc : T → Bool} {l l' : L} {c d : Cmd L N D T} {t : T} {m : Mode}
  {K : List (Frame L N D T)}

theorem SafeOver.parts (h : SafeOver exc l (.seq c d) K) :
    SafeOver exc l c K ∧ SafeOver exc l d K := by
  obtain ⟨hsafe, htakes⟩ := h
  obtain ⟨hc, hd⟩ := Bool.and_eq_true_iff.mp hsafe
  have hnone : holds l K = true →
      c.takes exc l = false ∧ d.takes exc l = false :=
    fun hh => Bool.or_eq_false_iff.mp (htakes hh)
  exact ⟨⟨hc, fun hh => (hnone hh).1⟩, hd, fun hh => (hnone hh).2⟩

theorem SafeOver.cond_left (h : SafeOver exc l (.cond t c d) K) :
    exc t = true ∨ SafeOver exc l c K := by
  cases hexc : exc t with
  | true => exact Or.inl rfl
  | false =>
      simp only [SafeOver, Cmd.safe, Cmd.takes, hexc] at h
      refine Or.inr ⟨(Bool.and_eq_true_iff.mp h.1).1, fun hh => ?_⟩
      exact (Bool.or_eq_false_iff.mp (h.2 hh)).1

theorem SafeOver.cond_right (h : SafeOver exc l (.cond t c d) K) :
    SafeOver exc l d K :=
  ⟨(Bool.and_eq_true_iff.mp h.1).2,
    fun hh => (Bool.or_eq_false_iff.mp (h.2 hh)).2⟩

/-- A command inside its guard: either the guard is on another lock, or
the command does not take this one. -/
theorem SafeOver.locked (h : SafeOver exc l (.locked l' m c) K) :
    SafeOver exc l c (.unlock l' m :: K) := by
  obtain ⟨hsafe, htakes⟩ := h
  unfold Cmd.safe at hsafe
  unfold Cmd.takes at htakes
  rw [Bool.and_eq_true, Bool.or_eq_true, decide_eq_true_iff] at hsafe
  refine ⟨hsafe.2, fun hh => ?_⟩
  by_cases hl : l' = l
  · have hno := hsafe.1.resolve_left fun hne => hne hl
    rw [Bool.not_eq_true'] at hno
    exact hno
  · rw [holds_unlock_ne hl] at hh
    exact (Bool.or_eq_false_iff.mp (htakes hh)).2

end Parts

/-- All code of a system is safe for `l`; a thread for which a test of
`exc` succeeded is excused for good. -/
structure Sys.SafeOk (sys : Sys L N D T H σ) (exc : T → Bool)
    (ex : Nat → σ → Prop) (l : L) : Prop where
  code : ∀ n, (sys.code n).safe exc l = true
  handler : ∀ h, (sys.handler h).body.safe exc l = true
  test : ∀ t i d, exc t = true → sys.test t i d = true → ex i d
  effect : ∀ a j i d, ex i d → ex i (sys.effect a j d)

/-- Every thread that is not excused is safe for `l`. -/
def SafeInv (exc : T → Bool) (ex : Nat → σ → Prop) (l : L)
    (s : State L N D T σ) : Prop :=
  ∀ (i : Nat) (K : List (Frame L N D T)), s.threads[i]? = some K →
    ex i s.data ∨ SafeStack exc l K

section Safe

variable {sys : Sys L N D T H σ} {exc : T → Bool} {ex : Nat → σ → Prop}
  {l : L} {s s' : State L N D T σ}

/-- The current thread moves on. -/
theorem SafeInv.goto (h : SafeInv exc ex l s) {K : List (Frame L N D T)}
    {on : Bool} {cur : Nat} {d : σ}
    (hK : SafeStack exc l s.stack → ex s.cur d ∨ SafeStack exc l K)
    (hd : ∀ i, ex i s.data → ex i d) :
    SafeInv exc ex l
      ⟨(s.goto K).threads, cur, on, d⟩ := by
  intro i K' hK'
  rcases goto_some hK' with ⟨rfl, rfl⟩ | ⟨-, hold⟩
  · have hlt := (List.getElem?_eq_some_iff.mp hK').1
    rw [goto_length] at hlt
    have hold := List.getElem?_eq_getElem hlt
    rcases h _ _ hold with hex | hsafe
    · exact Or.inl (hd _ hex)
    · rw [← stack_of_getElem? hold] at hsafe
      exact hK hsafe
  · rcases h i K' hold with hex | hsafe
    · exact Or.inl (hd i hex)
    · exact Or.inr hsafe

/-- The current thread takes a step of the command on top. -/
theorem SafeInv.run (h : SafeInv exc ex l s) {c : Cmd L N D T}
    {K K' : List (Frame L N D T)} {on : Bool} {cur : Nat}
    (hstack : s.stack = .run c :: K)
    (hK : SafeOver exc l c K → SafeStack exc l K →
      ex s.cur s.data ∨ SafeStack exc l K') :
    SafeInv exc ex l ⟨(s.goto K').threads, cur, on, s.data⟩ := by
  refine h.goto (fun hs => ?_) fun _ hex => hex
  rw [hstack] at hs
  exact hK hs.1 hs.2

theorem safeInv_stepCmd (hsys : sys.SafeOk exc ex l)
    (h : SafeInv exc ex l s) {left : Bool} {c : Cmd L N D T}
    {K : List (Frame L N D T)} (hstack : s.stack = .run c :: K)
    (hstep : sys.stepCmd s left K c = some s') : SafeInv exc ex l s' := by
  cases c with
  | skip | sti | panic =>
      obtain rfl := Option.some.inj hstep
      exact h.run hstack fun _ hK => Or.inr hK
  | act a =>
      obtain rfl := Option.some.inj hstep
      refine h.goto (fun hs => Or.inr ?_) (hsys.effect a s.cur · s.data)
      rw [hstack] at hs
      exact hs.2
  | cond t c d =>
      obtain rfl := Option.some.inj hstep
      refine h.run hstack fun hc hK => ?_
      cases ht : sys.test t s.cur s.data with
      | true =>
          rcases hc.cond_left with hexc | hc
          · exact Or.inl (hsys.test t _ _ hexc ht)
          · exact Or.inr ⟨hc, hK⟩
      | false => exact Or.inr ⟨hc.cond_right, hK⟩
  | seq c d =>
      obtain rfl := Option.some.inj hstep
      refine h.run hstack fun hcd hK => Or.inr ?_
      obtain ⟨hc, hd⟩ := hcd.parts
      exact ⟨hc, hd, hK⟩
  | choice c d =>
      obtain rfl := Option.some.inj hstep
      refine h.run hstack fun hcd hK => Or.inr ?_
      obtain ⟨hc, hd⟩ := SafeOver.parts hcd
      cases left with
      | true => exact ⟨hc, hK⟩
      | false => exact ⟨hd, hK⟩
  | star c =>
      obtain rfl := Option.some.inj hstep
      refine h.run hstack fun hc hK => Or.inr ?_
      cases left with
      | true => exact ⟨hc, hc, hK⟩
      | false => exact hK
  | locked l' m c =>
      simp only [Sys.stepCmd] at hstep
      split at hstep
      case isFalse => cases hstep
      case isTrue =>
        obtain rfl := Option.some.inj hstep
        exact h.run hstack fun hc hK => Or.inr ⟨hc.locked, hK⟩
  | masked c =>
      obtain rfl := Option.some.inj hstep
      exact h.run hstack fun hc hK => Or.inr ⟨hc, hK⟩
  | spawn n =>
      obtain rfl := Option.some.inj hstep
      have hgoto : SafeInv exc ex l
          ⟨(s.goto K).threads, s.cur, s.on, s.data⟩ :=
        h.run hstack fun _ hK => Or.inr hK
      intro i J hJ
      rcases getElem?_concat_some hJ with hold | ⟨-, rfl⟩
      · exact hgoto i J hold
      · exact Or.inr ⟨⟨hsys.code n, fun hh => Bool.noConfusion hh⟩, trivial⟩

theorem safeInv_step (hsys : sys.SafeOk exc ex l)
    {irq : L → Bool} (hirq : irq l = true) (hflow : FlowInv irq s)
    (h : SafeInv exc ex l s) {e : Label H} (hstep : sys.step s e = some s') :
    SafeInv exc ex l s' := by
  have hsame : ∀ i, ex i s.data → ex i s.data := fun _ h => h
  cases e with
  | interrupt i =>
      simp only [Sys.step] at hstep
      split at hstep
      case isFalse => cases hstep
      case isTrue hon =>
        obtain rfl := Option.some.inj hstep
        refine h.goto (fun hs => Or.inr ?_) hsame
        -- interrupts are on, so the interrupted thread holds nothing
        have hrun := hflow.running
        rw [hon] at hrun
        have hfree := not_holds_of_on hirq hrun
        unfold Handler.entry
        split
        · refine ⟨⟨hsys.handler i, fun hh => ?_⟩, hs⟩
          exact Bool.noConfusion (hfree.symm.trans hh)
        · refine ⟨⟨hsys.handler i, fun hh => ?_⟩, hs⟩
          exact Bool.noConfusion (hfree.symm.trans hh)
  | step left =>
      have hstack : sys.stepStack s left s.stack = some s' := hstep
      cases hK : s.stack with
      | nil => rw [hK] at hstack; cases hstack
      | cons f K =>
          rw [hK] at hstack
          cases f with
          | run c => exact safeInv_stepCmd hsys h hK hstack
          | enter | unlock | unmask | reschedule | iret =>
              obtain rfl := Option.some.inj hstack
              refine h.goto (fun hs => Or.inr ?_) hsame
              rw [hK] at hs
              exact hs
          | halted => cases hstack

theorem safeInv_run (hsys : sys.SafeOk exc ex l) {irq : L → Bool}
    (hirq : irq l = true) (hflowOk : sys.FlowOk irq)
    {start : State L N D T σ} (hflow : FlowInv irq start)
    (hsafe : SafeInv exc ex l start)
    (hreach : (sys.toTransSys start).Reachable s) : SafeInv exc ex l s := by
  have hinv : FlowInv irq s ∧ SafeInv exc ex l s := by
    refine hreach.invariant
      (I := fun s => FlowInv irq s ∧ SafeInv exc ex l s) ?_ ?_
    · intro s hs
      obtain rfl : s = start := hs
      exact ⟨hflow, hsafe⟩
    · intro s e s' h hstep
      exact ⟨flowInv_step hflowOk h.1 hstep,
        safeInv_step hsys hirq h.1 h.2 hstep⟩
  exact hinv.2

/-- A lock of the class is free whenever a thread that is not excused is
about to take it. -/
theorem irq_free_at_lock {irq : L → Bool} (hirq : irq l = true)
    (hflow : FlowInv irq s) (hsafe : SafeInv exc ex l s) {m : Mode}
    {c : Cmd L N D T} {K : List (Frame L N D T)}
    (hstack : s.stack = .run (.locked l m c) :: K) (hex : ¬ ex s.cur s.data) :
    s.Free l := by
  intro J hJ
  obtain ⟨i, hi⟩ := List.mem_iff_getElem?.mp hJ
  by_cases hcur : i = s.cur
  · subst hcur
    have hmine := (hsafe _ J hi).resolve_left hex
    rw [← stack_of_getElem? hi, hstack] at hmine ⊢
    obtain ⟨⟨-, htakes⟩, -⟩ := hmine
    show holds l K = false
    by_cases hK : holds l K = true
    · have hnone := htakes hK
      unfold Cmd.takes at hnone
      rw [decide_eq_true rfl, Bool.true_or] at hnone
      exact Bool.noConfusion hnone
    · rw [Bool.not_eq_true] at hK
      exact hK
  · obtain ⟨K', rfl, hK'⟩ := hflow.suspended i J hcur hi
    have hrest := not_holds_of_on hirq hK'
    exact hrest

end Safe

end Lib.Irq
