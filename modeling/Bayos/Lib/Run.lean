/-
Labelled transition systems and their finite runs: the one place where
induction over a run is done. A run carries the list of its labels in
the order the steps were taken, so a statement can speak of the history
as well as of the state reached.

# What a client uses

- `Run.invariant`: a state predicate that holds initially and survives
  every step holds wherever a run ends.
- `Run.history`: the same for a predicate on the labels taken so far
  and the state together.
- `Run.last`: the last step of a run, taken off it.
- `startedAt`: the system from a state on, for what holds ever after.
- `Run.simulates`: a step-by-step simulation lifts to whole runs, label
  by label.
- `guard`: the system restricted to steps that meet a side condition.
  The condition reads the state before the step and the label, never
  the outcome.
-/
import Mathlib.Data.List.Basic

namespace Lib

/-- A labelled transition system: where runs start and what one step
may do. -/
structure TransSys (σ ε : Type*) where
  init : σ → Prop
  step : σ → ε → σ → Prop

variable {σ ε τ δ : Type*}

-- ==================================================================== runs

/-- `S.Run es s`: from an initial state, the labels `es` in order lead
to `s`. -/
inductive TransSys.Run (S : TransSys σ ε) : List ε → σ → Prop
  | start {s : σ} : S.init s → S.Run [] s
  | step {es : List ε} {e : ε} {s s' : σ} :
      S.Run es s → S.step s e s' → S.Run (es ++ [e]) s'

/-- A state some run reaches. -/
def TransSys.Reachable (S : TransSys σ ε) (s : σ) : Prop :=
  ∃ es, S.Run es s

theorem TransSys.Reachable.next {S : TransSys σ ε} {s s' : σ} {e : ε}
    (h : S.Reachable s) (hstep : S.step s e s') : S.Reachable s' := by
  obtain ⟨es, hes⟩ := h
  exact ⟨es ++ [e], .step hes hstep⟩

theorem TransSys.reachable_init {S : TransSys σ ε} {s : σ}
    (h : S.init s) : S.Reachable s := ⟨[], .start h⟩

/-- The last step of a run. -/
theorem TransSys.Run.last {S : TransSys σ ε} {es : List ε} {e : ε} {s' : σ}
    (h : S.Run (es ++ [e]) s') : ∃ s, S.Run es s ∧ S.step s e s' := by
  generalize hes : es ++ [e] = labels at h
  cases h with
  | start _ => exact absurd hes (by simp)
  | step hrun hstep =>
      obtain ⟨rfl, heq⟩ := List.append_inj' hes rfl
      obtain rfl := List.singleton_inj.mp heq
      exact ⟨_, hrun, hstep⟩

/-- The system from a state it may be in. -/
def TransSys.startedAt (S : TransSys σ ε) (s : σ) : TransSys σ ε where
  init := (· = s)
  step := S.step

/-- The history rule: a predicate on labels and state that holds before
the first step and survives every step holds at the end of every run. -/
theorem TransSys.Run.history {S : TransSys σ ε} {I : List ε → σ → Prop}
    (hinit : ∀ s, S.init s → I [] s)
    (hstep : ∀ es s e s', S.Run es s → I es s → S.step s e s' →
      I (es ++ [e]) s')
    {es : List ε} {s : σ} (h : S.Run es s) : I es s := by
  induction h with
  | start h₀ => exact hinit _ h₀
  | step hrun hs ih => exact hstep _ _ _ _ hrun ih hs

/-- The invariant rule: the history rule for a predicate that reads the
state only. -/
theorem TransSys.Run.invariant {S : TransSys σ ε} {I : σ → Prop}
    (hinit : ∀ s, S.init s → I s)
    (hstep : ∀ s e s', I s → S.step s e s' → I s')
    {es : List ε} {s : σ} (h : S.Run es s) : I s :=
  h.history (I := fun _ s => I s) hinit
    fun _ _ _ _ _ hI hs => hstep _ _ _ hI hs

/-- The invariant rule, at a reachable state. -/
theorem TransSys.Reachable.invariant {S : TransSys σ ε} {I : σ → Prop}
    (hinit : ∀ s, S.init s → I s)
    (hstep : ∀ s e s', I s → S.step s e s' → I s')
    {s : σ} (h : S.Reachable s) : I s := by
  obtain ⟨es, hes⟩ := h
  exact hes.invariant hinit hstep

-- ============================================================== simulation

/-- The simulation rule: if every initial state and every step of `S`
is matched in `T` with the mapped label, every run of `S` is matched by
a run of `T` over the mapped labels. -/
theorem TransSys.Run.simulates {S : TransSys σ ε} {T : TransSys τ δ}
    {R : σ → τ → Prop} {f : ε → δ}
    (hinit : ∀ s, S.init s → ∃ t, T.init t ∧ R s t)
    (hstep : ∀ s e s' t, R s t → S.step s e s' →
      ∃ t', T.step t (f e) t' ∧ R s' t')
    {es : List ε} {s : σ} (h : S.Run es s) :
    ∃ t, T.Run (es.map f) t ∧ R s t := by
  induction h with
  | start h₀ =>
      obtain ⟨t, ht, hR⟩ := hinit _ h₀
      exact ⟨t, .start ht, hR⟩
  | step _ hs ih =>
      obtain ⟨t, ht, hR⟩ := ih
      obtain ⟨t', ht', hR'⟩ := hstep _ _ _ _ hR hs
      refine ⟨t', ?_, hR'⟩
      rw [List.map_append]
      exact .step ht ht'

-- ======================================================== conditioned runs

/-- The steps of `S` whose state before the step and label meet `P`. -/
def TransSys.guard (S : TransSys σ ε) (P : σ → ε → Prop) :
    TransSys σ ε where
  init := S.init
  step s e s' := S.step s e s' ∧ P s e

theorem TransSys.Run.unguard {S : TransSys σ ε} {P : σ → ε → Prop}
    {es : List ε} {s : σ} (h : (S.guard P).Run es s) : S.Run es s := by
  induction h with
  | start h₀ => exact .start h₀
  | step _ hs ih => exact .step ih hs.1

end Lib
