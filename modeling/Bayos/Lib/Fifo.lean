/-
A bounded first-in first-out queue, each operation one step.

Nothing enters a full queue and nothing leaves an empty one; the items
in between keep their order.
-/
import Mathlib.Data.List.Basic

namespace Lib

variable {α : Type}

/-- At most `capacity` items, oldest first. -/
structure Fifo (α : Type) where
  capacity : Nat
  items : List α
  fits : items.length ≤ capacity

namespace Fifo

/-- The empty queue. -/
def empty (capacity : Nat) : Fifo α := ⟨capacity, [], Nat.zero_le _⟩

/-- Adds an item at the back, unless the queue is full. -/
def push (q : Fifo α) (a : α) : Option (Fifo α) :=
  if h : q.items.length < q.capacity then
    some ⟨q.capacity, q.items ++ [a], by
      rw [List.length_append]
      exact h⟩
  else none

/-- Takes the oldest item. -/
def pop (q : Fifo α) : Option (α × Fifo α) :=
  match h : q.items with
  | [] => none
  | a :: rest =>
      some (a, ⟨q.capacity, rest, by
        have hfits := q.fits
        rw [h, List.length_cons] at hfits
        omega⟩)

theorem push_eq_some {q q' : Fifo α} {a : α} (h : q.push a = some q') :
    q'.items = q.items ++ [a] := by
  unfold push at h
  by_cases hroom : q.items.length < q.capacity
  · rw [dif_pos hroom] at h
    rw [← Option.some.inj h]
  · rw [dif_neg hroom] at h
    cases h

/-- Pushing fails on a full queue only. -/
theorem push_isSome {q : Fifo α} {a : α} :
    (q.push a).isSome ↔ q.items.length < q.capacity := by
  unfold push
  by_cases hroom : q.items.length < q.capacity <;> simp [hroom]

theorem push_eq_none {q : Fifo α} {a : α}
    (h : q.capacity ≤ q.items.length) : q.push a = none :=
  dif_neg (Nat.not_lt.mpr h)

theorem push_capacity {q q' : Fifo α} {a : α} (h : q.push a = some q') :
    q'.capacity = q.capacity := by
  unfold push at h
  by_cases hroom : q.items.length < q.capacity
  · rw [dif_pos hroom] at h
    rw [← Option.some.inj h]
  · rw [dif_neg hroom] at h
    cases h

theorem pop_eq_some {q q' : Fifo α} {a : α} (h : q.pop = some (a, q')) :
    q.items = a :: q'.items := by
  unfold pop at h
  split at h
  · cases h
  · next b rest hitems =>
      obtain ⟨rfl, rfl⟩ := Prod.mk.inj (Option.some.inj h)
      exact hitems

theorem pop_capacity {q q' : Fifo α} {a : α} (h : q.pop = some (a, q')) :
    q'.capacity = q.capacity := by
  unfold pop at h
  split at h
  · cases h
  · rw [← (Prod.mk.inj (Option.some.inj h)).2]

end Fifo

end Lib
