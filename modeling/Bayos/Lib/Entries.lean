/-
Entries of a list that grows at its end or changes in one place: what an
index finds afterwards, in terms of what it found before.
-/
import Mathlib.Data.List.Basic

namespace Lib

variable {α β : Type*}

/-- An entry of a list with one more at its end. -/
theorem getElem?_concat_some {xs : List α} {a b : α} {i : Nat}
    (h : (xs ++ [a])[i]? = some b) :
    xs[i]? = some b ∨ i = xs.length ∧ a = b := by
  rw [List.getElem?_append] at h
  split at h
  case isTrue => exact Or.inl h
  case isFalse hge =>
    obtain ⟨hlt, hb⟩ := List.getElem?_eq_some_iff.mp h
    rw [List.length_singleton] at hlt
    rw [List.getElem_singleton] at hb
    exact Or.inr ⟨by omega, hb⟩

/-- An entry of a modified list: the entry that was there, changed if it
is the one modified. -/
theorem getElem?_modify_some {l : List α} {f : α → α} {i j : Nat}
    {b : α} (h : (l.modify i f)[j]? = some b) :
    ∃ a, l[j]? = some a ∧ b = if i = j then f a else a := by
  by_cases hij : i = j
  · subst hij
    rw [List.getElem?_modify_eq, Option.map_eq_map, Option.map_eq_some_iff]
      at h
    obtain ⟨a, ha, rfl⟩ := h
    exact ⟨a, ha, (if_pos rfl).symm⟩
  · rw [List.getElem?_modify_ne _ _ hij] at h
    exact ⟨b, h, (if_neg hij).symm⟩

/-- Modifying a field of an entry, seen through a projection that reads
another one. -/
theorem map_modify_of_eq {l : List α} {f : α → α} {g : α → β}
    (h : ∀ a, g (f a) = g a) (i : Nat) :
    (l.modify i f).map g = l.map g := by
  refine List.ext_getElem? fun j => ?_
  rw [List.getElem?_map, List.getElem?_map]
  by_cases hij : i = j
  · subst hij
    rw [List.getElem?_modify_eq]
    cases l[i]? with
    | none => rfl
    | some a => exact congrArg some (h a)
  · rw [List.getElem?_modify_ne _ _ hij]

/-- Setting a field of an entry, seen through its projection. -/
theorem map_modify_of_const {l : List α} {f : α → α}
    {g : α → β} {b : β} (h : ∀ a, g (f a) = b) (i : Nat) :
    (l.modify i f).map g = (l.map g).set i b := by
  refine List.ext_getElem? fun j => ?_
  rw [List.getElem?_map]
  by_cases hij : i = j
  · subst hij
    rw [List.getElem?_modify_eq, List.getElem?_set_self', List.getElem?_map]
    cases l[i]? with
    | none => rfl
    | some a => exact congrArg some (h a)
  · rw [List.getElem?_modify_ne _ _ hij, List.getElem?_set_ne hij,
      List.getElem?_map]

end Lib
