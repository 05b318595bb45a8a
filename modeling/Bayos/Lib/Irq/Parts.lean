/-
What holds of every command of a system holds of every command on its
control stacks, if it is passed on to the parts of a command. So a
condition on the text of the programs is one on every state of every run
(`partsInv_step`).
-/
import Bayos.Lib.Irq.Section

namespace Lib.Irq

variable {L N D T H σ : Type}

/-- `P` is passed on from a command to the commands it starts. -/
structure PartClosed (P : Cmd L N D T → Prop) : Prop where
  cond : ∀ {t c d}, P (.cond t c d) → P c ∧ P d
  seq : ∀ {c d}, P (.seq c d) → P c ∧ P d
  choice : ∀ {c d}, P (.choice c d) → P c ∧ P d
  star : ∀ {c}, P (.star c) → P c
  locked : ∀ {l m c}, P (.locked l m c) → P c
  masked : ∀ {c}, P (.masked c) → P c

/-- What is left to do satisfies `P`. A section that is about to begin
counts as the command it was. -/
def Frame.Keeps (P : Cmd L N D T → Prop) : Frame L N D T → Prop
  | .run c => P c
  | .enter _ c => P (.masked c)
  | _ => True

/-- Everything that is left to do satisfies `P`. -/
def PartsInv (P : Cmd L N D T → Prop) (s : State L N D T σ) : Prop :=
  ∀ K ∈ s.threads, ∀ f ∈ K, f.Keeps P

section Parts

variable {sys : Sys L N D T H σ} {P : Cmd L N D T → Prop}
  {s s' : State L N D T σ}

theorem PartsInv.stack (h : PartsInv P s) : ∀ f ∈ s.stack, f.Keeps P := by
  unfold State.stack
  rw [List.getD_eq_getElem?_getD]
  cases hK : s.threads[s.cur]? with
  | none => intro f hf; cases hf
  | some K => exact h K (List.mem_of_getElem? hK)

/-- The current thread moves on. -/
theorem PartsInv.goto (h : PartsInv P s) {K : List (Frame L N D T)}
    {on : Bool} {cur : Nat} {d : σ} (hK : ∀ f ∈ K, f.Keeps P) :
    PartsInv P ⟨(s.goto K).threads, cur, on, d⟩ := by
  intro J hJ
  rcases List.mem_or_eq_of_mem_set hJ with hold | rfl
  · exact h J hold
  · exact hK

theorem partsInv_stepCmd [DecidableEq L] (hP : PartClosed P)
    (hcode : ∀ n, P (sys.code n)) (h : PartsInv P s) {left : Bool}
    {c : Cmd L N D T} {K : List (Frame L N D T)} (hc : P c)
    (hK : ∀ f ∈ K, f.Keeps P)
    (hstep : sys.stepCmd s left K c = some s') : PartsInv P s' := by
  cases c with
  | skip | act | sti =>
      obtain rfl := Option.some.inj hstep
      exact h.goto hK
  | panic =>
      obtain rfl := Option.some.inj hstep
      exact h.goto (List.forall_mem_cons.mpr ⟨trivial, hK⟩)
  | cond t c d =>
      obtain rfl := Option.some.inj hstep
      refine h.goto (List.forall_mem_cons.mpr ⟨?_, hK⟩)
      cases sys.test t s.cur s.data with
      | true => exact (hP.cond hc).1
      | false => exact (hP.cond hc).2
  | seq c d =>
      obtain rfl := Option.some.inj hstep
      obtain ⟨hc, hd⟩ := hP.seq hc
      refine h.goto (List.forall_mem_cons.mpr ⟨hc, ?_⟩)
      exact List.forall_mem_cons.mpr ⟨hd, hK⟩
  | choice c d =>
      obtain rfl := Option.some.inj hstep
      refine h.goto (List.forall_mem_cons.mpr ⟨?_, hK⟩)
      cases left with
      | true => exact (hP.choice hc).1
      | false => exact (hP.choice hc).2
  | star c =>
      obtain rfl := Option.some.inj hstep
      refine h.goto ?_
      cases left with
      | true =>
          refine List.forall_mem_cons.mpr ⟨hP.star hc, ?_⟩
          exact List.forall_mem_cons.mpr ⟨hc, hK⟩
      | false => exact hK
  | locked l m c =>
      simp only [Sys.stepCmd] at hstep
      split at hstep
      case isFalse => cases hstep
      case isTrue =>
        obtain rfl := Option.some.inj hstep
        refine h.goto (List.forall_mem_cons.mpr ⟨hP.locked hc, ?_⟩)
        exact List.forall_mem_cons.mpr ⟨trivial, hK⟩
  | masked c =>
      obtain rfl := Option.some.inj hstep
      exact h.goto (List.forall_mem_cons.mpr ⟨hc, hK⟩)
  | spawn n =>
      obtain rfl := Option.some.inj hstep
      have hgoto : PartsInv P ⟨(s.goto K).threads, s.cur, s.on, s.data⟩ :=
        h.goto hK
      intro J hJ
      rcases List.mem_append.mp hJ with hold | hnew
      · exact hgoto J hold
      · obtain rfl := List.mem_singleton.mp hnew
        refine List.forall_mem_cons.mpr ⟨trivial, ?_⟩
        exact List.forall_mem_singleton.mpr (hcode n)

/-- One step starts no command that does not satisfy `P`. -/
theorem partsInv_step [DecidableEq L] (hP : PartClosed P)
    (hcode : ∀ n, P (sys.code n)) (hhandler : ∀ h, P (sys.handler h).body)
    (h : PartsInv P s) {e : Label H} (hstep : sys.step s e = some s') :
    PartsInv P s' := by
  have hmine := h.stack
  cases e with
  | interrupt i =>
      simp only [Sys.step] at hstep
      split at hstep
      case isFalse => cases hstep
      case isTrue =>
        obtain rfl := Option.some.inj hstep
        refine h.goto ?_
        unfold Handler.entry
        split
        · simpa [Frame.Keeps, hhandler i] using hmine
        · simpa [Frame.Keeps, hhandler i] using hmine
  | step left =>
      have hstack : sys.stepStack s left s.stack = some s' := hstep
      cases hK : s.stack with
      | nil => rw [hK] at hstack; cases hstack
      | cons f K =>
          rw [hK] at hstack hmine
          obtain ⟨hf, hrest⟩ := List.forall_mem_cons.mp hmine
          cases f with
          | run c => exact partsInv_stepCmd hP hcode h hf hrest hstack
          | enter wasOn c =>
              obtain rfl := Option.some.inj hstack
              refine h.goto (List.forall_mem_cons.mpr ⟨hP.masked hf, ?_⟩)
              exact List.forall_mem_cons.mpr ⟨trivial, hrest⟩
          | unlock | unmask | reschedule | iret =>
              obtain rfl := Option.some.inj hstack
              exact h.goto hrest
          | halted => cases hstack

end Parts

-- ============================================= sections that touch no lock

/-- No section with interrupts off takes a lock of `S`. -/
def Cmd.secluded (S : L → Bool) : Cmd L N D T → Bool
  | .cond _ c d => c.secluded S && d.secluded S
  | .seq c d => c.secluded S && d.secluded S
  | .choice c d => c.secluded S && d.secluded S
  | .star c => c.secluded S
  | .locked _ _ c => c.secluded S
  | .masked c => !c.touches S && c.secluded S
  | _ => true

theorem secluded_closed (S : L → Bool) :
    PartClosed fun c : Cmd L N D T => c.secluded S = true where
  cond h := Bool.and_eq_true_iff.mp h
  seq h := Bool.and_eq_true_iff.mp h
  choice h := Bool.and_eq_true_iff.mp h
  star h := h
  locked h := h
  masked h := (Bool.and_eq_true_iff.mp h).2

/-- Then no thread ever turns interrupts off for one that does. -/
theorem not_entering {S : L → Bool} {s : State L N D T σ}
    (h : PartsInv (fun c => c.secluded S = true) s) :
    ¬ s.Entering S := by
  rintro ⟨c, K, hstack, hc⟩
  have hf := h.stack (.enter true c) (by simp [hstack])
  have hnone := (Bool.and_eq_true_iff.mp hf).1
  simp [hc] at hnone

end Lib.Irq
