/-
Positions on a ring of `n` places and the cursor that steps around it:
increment, and wrap to zero at the end.

The cursor visits every place once in any `n` consecutive steps
(`orbit_perm`), from whichever place it starts.
-/
import Mathlib.Data.List.Rotate

namespace Lib.Ring

/-- One step of the cursor. -/
def next (n c : Nat) : Nat := if n ≤ c + 1 then 0 else c + 1

/-- The places of the next `k` steps from `c`. -/
def orbit (n : Nat) : Nat → Nat → List Nat
  | _, 0 => []
  | c, k + 1 => next n c :: orbit n (next n c) k

theorem next_lt {n c : Nat} (hn : 0 < n) : next n c < n := by
  unfold next
  split <;> omega

theorem next_eq_mod {n c : Nat} (hc : c < n) : next n c = (c + 1) % n := by
  unfold next
  by_cases h : n ≤ c + 1
  · rw [if_pos h, show c + 1 = n by omega, Nat.mod_self]
  · rw [if_neg h, Nat.mod_eq_of_lt (by omega)]

/-- The `j`-th place of an orbit is `j + 1` steps on, around the ring. -/
theorem orbit_eq_map {n : Nat} (k : Nat) :
    ∀ {c : Nat}, c < n →
      orbit n c k = (List.range k).map fun j => (c + 1 + j) % n := by
  induction k with
  | zero => intro c _; rfl
  | succ k ih =>
      intro c hc
      have hn : next n c < n := next_lt (by omega)
      rw [List.range_succ_eq_map, List.map_cons, List.map_map]
      show next n c :: orbit n (next n c) k = _
      rw [ih hn, next_eq_mod hc]
      refine congrArg₂ _ rfl (List.map_congr_left fun j _ => ?_)
      show ((c + 1) % n + 1 + j) % n = (c + 1 + (j + 1)) % n
      rw [Nat.add_assoc, Nat.mod_add_mod]
      congr 1
      omega

/-- A full turn is a rotation of all the places. -/
theorem orbit_eq_rotate {n c : Nat} (hc : c < n) :
    orbit n c n = (List.range n).rotate (c + 1) := by
  rw [orbit_eq_map n hc]
  refine List.ext_getElem (by simp) fun j h₁ _ => ?_
  rw [List.getElem_rotate, List.getElem_map, List.getElem_range,
    List.getElem_range, List.length_range, Nat.add_comm j]

/-- A full turn visits every place exactly once. -/
theorem orbit_perm {n c : Nat} (hc : c < n) :
    (orbit n c n).Perm (List.range n) := by
  rw [orbit_eq_rotate hc]
  exact List.rotate_perm ..

end Lib.Ring
