/-
Computations that log what they do.

A `Logged` computation takes a state, may fail, and comes with the events
it has gone through by the time it returns or fails. `run` is the
computation without its log; `All` says that every event of a run has a
property, and has one rule for each way a computation is made.
-/
import Mathlib.Data.List.Basic

namespace Lib

/-- A computation on states `σ` that may fail with an `ε` and logs
events `ω`. -/
def Logged (σ ω ε α : Type) : Type := σ → List ω × Except ε (α × σ)

namespace Logged

variable {σ ω ε α β : Type} {P : ω → Prop} {s : σ}

/-- The computation without its log. -/
def run (x : Logged σ ω ε α) : σ → Except ε (α × σ) := fun s => (x s).2

/-- The events of a run. -/
def log (x : Logged σ ω ε α) (s : σ) : List ω := (x s).1

/-- A computation that logs nothing. -/
def silent (x : σ → Except ε (α × σ)) : Logged σ ω ε α := fun s => ([], x s)

/-- A computation that logs one event, whether or not it fails. -/
def event (e : ω) (x : σ → Except ε (α × σ)) : Logged σ ω ε α :=
  fun s => ([e], x s)

/-- A computation that logs one event, of the state it starts in, whether
or not it fails. -/
def noting (e : σ → ω) (x : σ → Except ε (α × σ)) : Logged σ ω ε α :=
  fun s => ([e s], x s)

instance : Monad (Logged σ ω ε) where
  pure a := silent fun s => .ok (a, s)
  bind x f := fun s =>
    match x.run s with
    | .ok (a, s') => (x.log s ++ (f a).log s', (f a).run s')
    | .error e => (x.log s, .error e)

theorem run_bind (x : Logged σ ω ε α) (f : α → Logged σ ω ε β) (s : σ) :
    (x >>= f).run s = match x.run s with
      | .ok (a, s') => (f a).run s'
      | .error e => .error e := by
  simp only [bind, run]
  split
  · rfl
  · rfl

theorem log_bind (x : Logged σ ω ε α) (f : α → Logged σ ω ε β) (s : σ) :
    (x >>= f).log s = x.log s ++ match x.run s with
      | .ok (a, s') => (f a).log s'
      | .error _ => [] := by
  simp only [bind, log]
  split
  · rfl
  · rw [List.append_nil]

theorem log_of_ok {x : Logged σ ω ε α} {f : α → Logged σ ω ε β} {a : α}
    {s' : σ} (h : x.run s = .ok (a, s')) :
    (x >>= f).log s = x.log s ++ (f a).log s' := by
  rw [log_bind, h]

theorem log_of_error {x : Logged σ ω ε α} {f : α → Logged σ ω ε β} {e : ε}
    (h : x.run s = .error e) : (x >>= f).log s = x.log s := by
  rw [log_bind, h, List.append_nil]

/-- Every event of a run has the property. -/
def All (P : ω → Prop) (x : Logged σ ω ε α) (s : σ) : Prop :=
  ∀ e ∈ x.log s, P e

theorem all_silent {x : σ → Except ε (α × σ)} : (silent x).All P s := by
  intro e he
  cases he

theorem all_pure {a : α} : (pure a : Logged σ ω ε α).All P s := all_silent

theorem all_event {e : ω} {x : σ → Except ε (α × σ)} :
    (event e x).All P s ↔ P e :=
  List.forall_mem_singleton

theorem all_bind {x : Logged σ ω ε α} {f : α → Logged σ ω ε β} :
    (x >>= f).All P s
      ↔ x.All P s ∧ ∀ a s', x.run s = .ok (a, s') → (f a).All P s' := by
  unfold All log
  simp only [bind]
  cases hx : x.run s with
  | error e => simp [log]
  | ok r =>
      simp only [List.forall_mem_append, log, Except.ok.injEq]
      constructor
      · intro h
        refine ⟨h.1, fun a s' hr => ?_⟩
        subst hr
        exact h.2
      · intro h
        exact ⟨h.1, h.2 r.1 r.2 rfl⟩

-- ========================================================== up to the last

variable {F : ω → ε → Prop}

/-- Every event of a run has the property, but for one with which the run
fails, as `F` says. -/
structure Until (P : ω → Prop) (F : ω → ε → Prop) (x : Logged σ ω ε α)
    (s : σ) : Prop where
  before : ∀ e ∈ (x.log s).dropLast, P e
  fails : ∀ e ∈ x.log s, ¬ P e → ∃ err, F e err ∧ x.run s = .error err

theorem until_silent {x : σ → Except ε (α × σ)} :
    (silent x).Until P F s where
  before e he := by cases he
  fails e he := by cases he

/-- A run that returns has nothing but such events. -/
theorem Until.of_ok {x : Logged σ ω ε α} (h : x.Until P F s) {r : α × σ}
    (hr : x.run s = .ok r) : x.All P s := by
  intro e he
  by_contra hnot
  obtain ⟨err, -, herr⟩ := h.fails e he hnot
  rw [hr] at herr
  cases herr

theorem until_bind {x : Logged σ ω ε α} {f : α → Logged σ ω ε β}
    (hx : x.Until P F s)
    (hf : ∀ a s', x.run s = .ok (a, s') → (f a).Until P F s') :
    (x >>= f).Until P F s := by
  cases hr : x.run s with
  | error err =>
      have hlog : (x >>= f).log s = x.log s := log_of_error hr
      refine ⟨fun e he => hx.before e (hlog ▸ he), fun e he hnot => ?_⟩
      obtain ⟨err', hfail, herr⟩ := hx.fails e (hlog ▸ he) hnot
      rw [run_bind, herr]
      exact ⟨err', hfail, rfl⟩
  | ok r =>
      obtain ⟨a, s'⟩ := r
      have hall := hx.of_ok hr
      have hthen := hf a s' hr
      have hlog : (x >>= f).log s = x.log s ++ (f a).log s' := log_of_ok hr
      refine ⟨fun e he => ?_, fun e he hnot => ?_⟩
      · rw [hlog] at he
        by_cases hnil : (f a).log s' = []
        · rw [hnil, List.append_nil] at he
          exact hall e (List.dropLast_subset _ he)
        · rw [List.dropLast_append_of_ne_nil hnil, List.mem_append] at he
          exact he.elim (hall e) (hthen.before e)
      · rw [hlog, List.mem_append] at he
        obtain ⟨err, hfail, herr⟩ :=
          hthen.fails e (he.resolve_left fun h => hnot (hall e h)) hnot
        rw [run_bind, hr]
        exact ⟨err, hfail, herr⟩

end Logged

end Lib
