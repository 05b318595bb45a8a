/-
Computations that may be stopped at any point.

A computation on states `σ` logs every state in which it may be stopped,
with a tag that says what it was doing there. A write logs the state
behind it; a read, which changes nothing, logs none of its own.

# What a client uses

`Spec x s C Q`: begun in `s`, the computation `x` leaves a state that
satisfies `C` wherever it is stopped, and one that satisfies `Q` if it
returns. There is one rule for each way a computation is made.
-/
import Bayos.Lib.Logged

namespace Lib

/-- A computation on states `σ` that may fail with an `ε` and may be
stopped at the states it logs. -/
abbrev Crash (σ τ ε α : Type) : Type := Logged σ (τ × σ) ε α

namespace Crash

variable {σ τ ε α β : Type}

/-- A point at which the computation may be stopped. -/
def note (t : τ) : Crash σ τ ε Unit := fun s => ([(t, s)], .ok ((), s))

/-- A write, and the point behind it. -/
def write (t : τ) (f : σ → σ) : Crash σ τ ε Unit :=
  fun s => ([(t, f s)], .ok ((), f s))

/-- A read of the state. -/
def read (f : σ → α) : Crash σ τ ε α := .silent fun s => .ok (f s, s)

def fail (e : ε) : Crash σ τ ε α := .silent fun _ => .error e

/-- A `for` loop. -/
def forEach (body : β → Crash σ τ ε Unit) : List β → Crash σ τ ε Unit
  | [] => pure ()
  | x :: xs => do
      body x
      forEach body xs

/-- Wherever `x` is stopped `C` holds, and `Q` if it returns. -/
def Spec (x : Crash σ τ ε α) (s : σ) (C : τ → σ → Prop)
    (Q : α → σ → Prop) : Prop :=
  x.All (fun e => C e.1 e.2) s ∧ ∀ a s', x.run s = .ok (a, s') → Q a s'

namespace Spec

variable {x : Crash σ τ ε α} {s : σ} {C C' : τ → σ → Prop}
  {Q Q' : α → σ → Prop}

theorem mono (h : x.Spec s C Q) (hC : ∀ t s', C t s' → C' t s')
    (hQ : ∀ a s', Q a s' → Q' a s') : x.Spec s C' Q' :=
  ⟨fun e he => hC e.1 e.2 (h.1 e he), fun a s' hr => hQ a s' (h.2 a s' hr)⟩

theorem pure {a : α} (h : Q a s) :
    (Pure.pure a : Crash σ τ ε α).Spec s C Q := by
  refine ⟨Logged.all_pure, fun b s' hr => ?_⟩
  cases hr
  exact h

theorem bind {f : α → Crash σ τ ε β} {R : β → σ → Prop}
    (hx : x.Spec s C Q) (hf : ∀ a s', Q a s' → (f a).Spec s' C R) :
    (x >>= f).Spec s C R := by
  refine ⟨Logged.all_bind.mpr ⟨hx.1, fun a s' hr => ?_⟩, ?_⟩
  · exact (hf a s' (hx.2 a s' hr)).1
  · intro b s'' hr
    rw [Logged.run_bind] at hr
    split at hr
    case h_1 a s' hs' => exact (hf a s' (hx.2 a s' hs')).2 b s'' hr
    case h_2 => cases hr

theorem note {t : τ} {Q : Unit → σ → Prop} (hC : C t s) (hQ : Q () s) :
    (Crash.note t : Crash σ τ ε Unit).Spec s C Q := by
  refine ⟨?_, fun a s' hr => ?_⟩
  · intro e he
    rw [List.mem_singleton.mp he]
    exact hC
  · cases hr
    exact hQ

theorem write {t : τ} {f : σ → σ} {Q : Unit → σ → Prop} (hC : C t (f s))
    (hQ : Q () (f s)) : (Crash.write t f : Crash σ τ ε Unit).Spec s C Q := by
  refine ⟨?_, fun a s' hr => ?_⟩
  · intro e he
    rw [List.mem_singleton.mp he]
    exact hC
  · cases hr
    exact hQ

theorem read {f : σ → α} (h : Q (f s) s) :
    (Crash.read f : Crash σ τ ε α).Spec s C Q := by
  refine ⟨Logged.all_silent, fun a s' hr => ?_⟩
  cases hr
  exact h

theorem fail {e : ε} : (Crash.fail e : Crash σ τ ε α).Spec s C Q := by
  refine ⟨Logged.all_silent, fun a s' hr => ?_⟩
  cases hr

/-- A loop: `I` holds of the rounds done so far and the state they have
led to. -/
theorem forEach {body : β → Crash σ τ ε Unit} {Q : Unit → σ → Prop}
    {xs : List β} {I : List β → σ → Prop}
    (hstep : ∀ done x s, x ∈ xs → I done s →
      (body x).Spec s C fun _ s' => I (done ++ [x]) s')
    (hend : ∀ s, I xs s → Q () s) (h : I [] s) :
    (Crash.forEach body xs).Spec s C Q := by
  have hrest : ∀ rest done s, xs = done ++ rest → I done s →
      (Crash.forEach body rest).Spec s C Q := by
    intro rest
    induction rest with
    | nil =>
        intro done s hxs hI
        rw [List.append_nil] at hxs
        exact pure (hend s (hxs ▸ hI))
    | cons x rest ih =>
        intro done s hxs hI
        have hx : x ∈ xs := by
          rw [hxs]
          simp
        refine bind (hstep done x s hx hI) ?_
        intro _ s' hI'
        exact ih (done ++ [x]) s' (by rw [hxs]; simp) hI'
  exact hrest xs [] s rfl h

end Spec

end Crash

end Lib
