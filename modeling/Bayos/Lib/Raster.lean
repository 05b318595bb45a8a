/-
Pictures in a buffer: rows of pixels at a stride, each pixel a few
entries wide, one row after the other.

# Addresses

Every index of the buffer belongs to one pixel: it has a column and a
line, and a lane within the pixel. `mem_pixel` says that the indices of a
pixel are those with its column and its line, which is all a client needs
to know to tell two pixels apart.
-/
import Mathlib.Data.List.Basic

namespace Lib

variable {α : Type*}

-- ================================================================= overlay

/-- A list with `src` copied over it from `start` on. -/
def overlay (l : List α) (start : Nat) (src : List α) : List α :=
  l.mapIdx fun k a => if start ≤ k then (src[k - start]?).getD a else a

@[simp] theorem length_overlay (l : List α) (start : Nat) (src : List α) :
    (overlay l start src).length = l.length := List.length_mapIdx

/-- What is copied is the source, the rest is as before. -/
theorem getElem?_overlay {l : List α} {start : Nat} {src : List α}
    (h : start + src.length ≤ l.length) (k : Nat) :
    (overlay l start src)[k]? = if start ≤ k ∧ k < start + src.length
      then src[k - start]? else l[k]? := by
  unfold overlay
  rw [List.getElem?_mapIdx]
  by_cases hk : start ≤ k ∧ k < start + src.length
  · have hlt : k < l.length := by omega
    have hsrc : k - start < src.length := by omega
    rw [if_pos hk, List.getElem?_eq_getElem hlt, Option.map_some,
      if_pos hk.1, List.getElem?_eq_getElem hsrc]
    rfl
  · rw [if_neg hk]
    cases hl : l[k]? with
    | none => rfl
    | some a =>
        rw [Option.map_some]
        by_cases hstart : start ≤ k
        · rw [if_pos hstart, List.getElem?_eq_none (by omega)]
          rfl
        · rw [if_neg hstart]

namespace Raster

variable {stride depth : Nat}

/-- The first index of the pixel `x`, `y`. -/
def offset (stride depth x y : Nat) : Nat := (y * stride + x) * depth

/-- The column an index belongs to. -/
def column (stride depth k : Nat) : Nat := k / depth % stride

/-- The line an index belongs to. -/
def line (stride depth k : Nat) : Nat := k / depth / stride

/-- The indices of a pixel. -/
theorem mem_pixel {x y k : Nat} (hx : x < stride) (hd : 0 < depth) :
    offset stride depth x y ≤ k ∧ k < offset stride depth x y + depth
      ↔ column stride depth k = x ∧ line stride depth k = y := by
  have hs : 0 < stride := by omega
  have hdiv : offset stride depth x y ≤ k
      ∧ k < offset stride depth x y + depth ↔ k / depth = y * stride + x := by
    unfold offset
    rw [Nat.div_eq_iff hd]
    constructor
    · intro h
      exact ⟨h.1, by omega⟩
    · intro h
      exact ⟨h.1, by omega⟩
  rw [hdiv]
  unfold column line
  constructor
  · intro h
    rw [h]
    constructor
    · rw [Nat.mul_comm, Nat.mul_add_mod, Nat.mod_eq_of_lt hx]
    · rw [Nat.mul_comm, Nat.mul_add_div hs, Nat.div_eq_of_lt hx]
      rfl
  · intro h
    have hsum := Nat.div_add_mod (k / depth) stride
    rw [h.1, h.2, Nat.mul_comm] at hsum
    exact hsum.symm

/-- Where in its pixel an index is. -/
theorem lane {x y k : Nat} (hle : offset stride depth x y ≤ k)
    (hlt : k < offset stride depth x y + depth) :
    k - offset stride depth x y = k % depth := by
  obtain ⟨r, rfl⟩ := Nat.exists_eq_add_of_le hle
  unfold offset at *
  rw [Nat.add_sub_cancel_left, Nat.mul_comm, Nat.mul_add_mod,
    Nat.mod_eq_of_lt (by omega)]

/-- The pixels left of the stride and above a height are in the buffer. -/
theorem offset_add_le {x y height : Nat} (hx : x < stride)
    (hy : y < height) :
    offset stride depth x y + depth ≤ stride * height * depth := by
  unfold offset
  rw [← Nat.add_one_mul]
  refine Nat.mul_le_mul_right depth ?_
  calc y * stride + x + 1 ≤ y * stride + stride := by omega
    _ = (y + 1) * stride := (Nat.add_one_mul y stride).symm
    _ ≤ height * stride := Nat.mul_le_mul_right stride hy
    _ = stride * height := Nat.mul_comm height stride

end Raster

end Lib
