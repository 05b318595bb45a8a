/-
The part of Rust's core library that the models of a Rust program rest
on: panics, `usize` arithmetic with overflow checks, `Layout`, and lazy
iterators whose elements may panic when they are produced.

# Conventions

- A `usize` or `u64` is a `Nat`; every arithmetic operator is a function
  that checks the 64-bit range and panics outside it, as the
  overflow-checked profile does. Where a result says no operator ever
  panics, the wrapping profile computes the same values.
- A function that may panic returns `Except Panic α`. `Option` and
  `Result<_, ()>` of the source are both `Option`.
- An iterator is the list of its elements, each of them an
  `Except Panic α`: the closure of a `map` runs only when its element is
  asked for, so an element that panics is harmless until then.
-/
import Mathlib.Data.Nat.Basic
import Mathlib.Data.List.Basic
import Mathlib.Algebra.Order.Group.Nat
import Mathlib.Tactic.Ring

namespace Rust

/-- Why execution stopped. `message` carries the text handed to
`expect` or `panic!`. -/
inductive Panic
  | overflow
  | assertion
  | index
  | message (text : String)
  deriving DecidableEq, Repr

@[simp] theorem ok_bind {α β : Type} (a : α) (f : α → Except Panic β) :
    (Except.ok a >>= f) = f a := rfl

@[simp] theorem pure_eq_ok {α : Type} (a : α) :
    (pure a : Except Panic α) = .ok a := rfl

/-- Lists of results that all returned. -/
theorem map_ok_inj {α : Type} {xs ys : List α}
    (h : xs.map (Except.ok (ε := Panic)) = ys.map Except.ok) : xs = ys :=
  List.map_injective_iff.mpr (fun _ _ => Except.ok.inj) h

/-- A sequence that returns has returned at both steps. -/
theorem bind_eq_ok {ε α β : Type} {x : Except ε α} {f : α → Except ε β}
    {b : β} :
    (x >>= f) = .ok b ↔ ∃ a, x = .ok a ∧ f a = .ok b := by
  cases x with
  | ok a =>
      constructor
      · intro h
        exact ⟨a, rfl, h⟩
      · intro hparts
        rcases hparts with ⟨a', h, hf⟩
        cases h
        exact hf
  | error p =>
      constructor
      · intro h
        cases h
      · intro hparts
        rcases hparts with ⟨a, h, -⟩
        cases h

/-- `y` does what `x` does: it panics where `x` panics, and what they
return is related. -/
def Refines {α β : Type} (x : Except Panic α) (y : Except Panic β)
    (R : α → β → Prop) : Prop :=
  match x with
  | .error p => y = .error p
  | .ok a => ∃ b, y = .ok b ∧ R a b

namespace Refines

variable {α β γ δ : Type} {R : α → β → Prop} {S : γ → δ → Prop}

theorem pure {a : α} {b : β} (h : R a b) :
    Refines (Pure.pure a) (Pure.pure b) R := ⟨b, rfl, h⟩

theorem bind {x : Except Panic α} {y : Except Panic β}
    {f : α → Except Panic γ} {g : β → Except Panic δ} (hx : Refines x y R)
    (hf : ∀ a b, x = .ok a → R a b → Refines (f a) (g b) S) :
    Refines (x >>= f) (y >>= g) S := by
  cases x with
  | error p =>
      obtain rfl : y = .error p := hx
      exact rfl
  | ok a =>
      obtain ⟨b, rfl, hR⟩ := hx
      exact hf a b rfl hR

/-- Both sides begin with the same computation. -/
theorem bind_same {x : Except Panic α} {f : α → Except Panic γ}
    {g : α → Except Panic δ} (hf : ∀ a, x = .ok a → Refines (f a) (g a) S) :
    Refines (x >>= f) (x >>= g) S := by
  cases x with
  | error p => exact rfl
  | ok a => exact hf a rfl

end Refines

/-- `Option::expect`, and `Result::expect` on a dataless error. -/
def expect {α : Type} (o : Option α) (text : String) : Except Panic α :=
  match o with
  | some a => .ok a
  | none => .error (.message text)

@[simp] theorem expect_some {α : Type} (a : α) (text : String) :
    expect (some a) text = .ok a := rfl

theorem expect_ok {α : Type} {o : Option α} {text : String} {a : α}
    (h : expect o text = .ok a) : o = some a := by
  cases o with
  | none => cases h
  | some b =>
      obtain rfl := Except.ok.inj h
      rfl

/-- `Option::unwrap`. -/
def unwrap {α : Type} (o : Option α) : Except Panic α :=
  expect o "called `Option::unwrap()` on a `None` value"

/-- `assert!`. -/
def assert (b : Bool) : Except Panic Unit :=
  if b then .ok () else .error .assertion

@[simp] theorem assert_true : assert true = .ok () := rfl

-- =================================================================== usize

/-- Number of values of a 64-bit word. -/
def wordSize : Nat := 2 ^ 64

/-- `isize::MAX`. -/
def isizeMax : Nat := 2 ^ 63 - 1

namespace Usize

/-- `a + b`. -/
def add (a b : Nat) : Except Panic Nat :=
  if a + b < wordSize then .ok (a + b) else .error .overflow

/-- `a - b`. -/
def sub (a b : Nat) : Except Panic Nat :=
  if b ≤ a then .ok (a - b) else .error .overflow

/-- `a * b`. -/
def mul (a b : Nat) : Except Panic Nat :=
  if a * b < wordSize then .ok (a * b) else .error .overflow

/-- `usize::checked_add`. -/
def checkedAdd (a b : Nat) : Option Nat :=
  if a + b < wordSize then some (a + b) else none

/-- `!a`. -/
def not (a : Nat) : Nat := wordSize - 1 - a

theorem add_eq {a b : Nat} (h : a + b < wordSize) : add a b = .ok (a + b) :=
  if_pos h

/-- A sum that was computed is the sum. -/
theorem add_ok {a b c : Nat} (h : add a b = .ok c) : c = a + b := by
  unfold add at h
  split at h
  · exact (Except.ok.inj h).symm
  · cases h

theorem sub_eq {a b : Nat} (h : b ≤ a) : sub a b = .ok (a - b) := if_pos h

/-- A difference that was computed is the difference. -/
theorem sub_ok {a b c : Nat} (h : sub a b = .ok c) :
    b ≤ a ∧ c = a - b := by
  unfold sub at h
  split at h
  case isTrue hle => exact ⟨hle, (Except.ok.inj h).symm⟩
  case isFalse => cases h

theorem mul_eq {a b : Nat} (h : a * b < wordSize) : mul a b = .ok (a * b) :=
  if_pos h

theorem checkedAdd_eq {a b : Nat} (h : a + b < wordSize) :
    checkedAdd a b = some (a + b) := if_pos h

theorem checkedAdd_some {a b c : Nat} (h : checkedAdd a b = some c) :
    c = a + b := by
  unfold checkedAdd at h
  split at h
  case isTrue => exact (Option.some.inj h).symm
  case isFalse => cases h

end Usize

namespace U32

/-- `a + b`. -/
def add (a b : Nat) : Except Panic Nat :=
  if a + b < 2 ^ 32 then .ok (a + b) else .error .overflow

/-- `a - b`. -/
def sub (a b : Nat) : Except Panic Nat :=
  if b ≤ a then .ok (a - b) else .error .overflow

end U32

-- ================================================================ rounding

/-- `n` rounded up to a multiple of `a`. -/
def roundUp (n a : Nat) : Nat := (n + a - 1) / a * a

theorem dvd_roundUp (n a : Nat) : a ∣ roundUp n a := Nat.dvd_mul_left a _

theorem le_roundUp {n a : Nat} (ha : 0 < a) : n ≤ roundUp n a := by
  have hdiv := Nat.div_add_mod (n + a - 1) a
  have hmod := Nat.mod_lt (n + a - 1) ha
  have hcomm : (n + a - 1) / a * a = a * ((n + a - 1) / a) := Nat.mul_comm _ _
  unfold roundUp
  omega

/-- Rounding up is the least multiple: any multiple above `n` is above
the rounded value. -/
theorem roundUp_le {n a m : Nat} (ha : 0 < a) (hm : a ∣ m) (hn : n ≤ m) :
    roundUp n a ≤ m := by
  obtain ⟨q, rfl⟩ := hm
  have hlt : (n + a - 1) / a < q + 1 := by
    rw [Nat.div_lt_iff_lt_mul ha]
    have : (q + 1) * a = a * q + a := by ring
    omega
  calc roundUp n a = a * ((n + a - 1) / a) := Nat.mul_comm _ _
    _ ≤ a * q := Nat.mul_le_mul_left a (by omega)

/-- A multiple is its own rounding. -/
theorem roundUp_of_dvd {n a : Nat} (ha : 0 < a) (h : a ∣ n) :
    roundUp n a = n :=
  Nat.le_antisymm (roundUp_le ha h (Nat.le_refl n)) (le_roundUp ha)

/-- Clearing the low bits of a word with the mask `!(2^k - 1)` rounds it
down to a multiple of `2^k`. -/
theorem land_not_low {x k : Nat} (hx : x < wordSize) (hk : k < 64) :
    x &&& Usize.not (2 ^ k - 1) = x / 2 ^ k * 2 ^ k := by
  apply Nat.eq_of_testBit_eq
  intro i
  have hlow : 2 ^ k - 1 < 2 ^ 64 := by
    have := Nat.pow_lt_pow_right (show 1 < 2 by omega) hk
    omega
  have hnot : Usize.not (2 ^ k - 1) = 2 ^ 64 - (2 ^ k - 1 + 1) := by
    unfold Usize.not wordSize
    omega
  rw [Nat.testBit_and, hnot, Nat.testBit_two_pow_sub_succ hlow,
    Nat.testBit_two_pow_sub_one, Nat.testBit_mul_two_pow,
    Nat.testBit_div_two_pow]
  by_cases hik : k ≤ i
  · rw [show i - k + k = i by omega]
    by_cases hi : i < 64
    · simp [hik, hi, Nat.not_lt.mpr hik]
    · have hbig : x < 2 ^ i :=
        Nat.lt_of_lt_of_le hx (Nat.pow_le_pow_right (by omega) (by omega))
      simp [Nat.testBit_lt_two_pow hbig]
  · simp [hik, Nat.lt_of_not_le hik]

/-- The mask form of rounding up, for a power of two. -/
theorem land_not_eq_roundUp {n a : Nat} (ha : a.isPowerOfTwo)
    (hlt : a < wordSize) (hn : n + a - 1 < wordSize) :
    (n + a - 1) &&& Usize.not (a - 1) = roundUp n a := by
  obtain ⟨k, rfl⟩ := ha
  have hk : k < 64 := (Nat.pow_lt_pow_iff_right (by omega)).mp hlt
  exact land_not_low hn hk

/-- Of two powers of two the smaller divides the larger. -/
theorem isPowerOfTwo_dvd {a b : Nat} (ha : a.isPowerOfTwo)
    (hb : b.isPowerOfTwo) (h : a ≤ b) : a ∣ b := by
  obtain ⟨k, rfl⟩ := ha
  obtain ⟨l, rfl⟩ := hb
  exact Nat.pow_dvd_pow 2 ((Nat.pow_le_pow_iff_right (by omega)).mp h)

theorem isPowerOfTwo_max {a b : Nat} (ha : a.isPowerOfTwo)
    (hb : b.isPowerOfTwo) : (max a b).isPowerOfTwo := by
  rcases Nat.le_total a b with h | h
  · rw [Nat.max_eq_right h]; exact hb
  · rw [Nat.max_eq_left h]; exact ha

-- ================================================================== Layout

/-- `core::alloc::Layout`: the alignment is a power of two and the size
rounded up to it fits in `isize`, in the form `from_size_align` checks
(`fits_iff`). -/
structure Layout where
  size : Nat
  align : Nat
  pow2 : align.isPowerOfTwo
  fits : size + align ≤ isizeMax + 1
  deriving DecidableEq

namespace Layout

theorem align_pos (l : Layout) : 0 < l.align :=
  Nat.pos_of_isPowerOfTwo l.pow2

/-- The bound `from_size_align` checks is the documented one: the
rounded size fits in `isize`. -/
theorem fits_iff {size align : Nat} (hp : align.isPowerOfTwo)
    (hle : align ≤ isizeMax + 1) :
    size + align ≤ isizeMax + 1 ↔ roundUp size align ≤ isizeMax := by
  have hpos := Nat.pos_of_isPowerOfTwo hp
  have hdvd : align ∣ isizeMax + 1 := isPowerOfTwo_dvd hp ⟨63, rfl⟩ hle
  constructor
  · intro h
    have hsub : align ∣ isizeMax + 1 - align := Nat.dvd_sub hdvd dvd_rfl
    have := roundUp_le hpos hsub (by omega : size ≤ isizeMax + 1 - align)
    omega
  · intro h
    -- both sides of the strict bound are multiples of `align`
    have hlt : roundUp size align < isizeMax + 1 := by omega
    obtain ⟨q, hq⟩ := dvd_roundUp size align
    obtain ⟨m, hm⟩ := hdvd
    rw [hq, hm] at hlt
    have hqm : q + 1 ≤ m := Nat.lt_of_mul_lt_mul_left hlt
    have hmul := Nat.mul_le_mul_left align hqm
    have hle := le_roundUp (n := size) hpos
    rw [Nat.mul_add, Nat.mul_one] at hmul
    omega

/-- `Layout::from_size_align`. -/
def fromSizeAlign (size align : Nat) : Option Layout :=
  if h : align.isPowerOfTwo ∧ size + align ≤ isizeMax + 1 then
    some ⟨size, align, h.1, h.2⟩
  else none

/-- `Layout::align_to`. -/
def alignTo (l : Layout) (align : Nat) : Option Layout :=
  fromSizeAlign l.size (max l.align align)

/-- `Layout::pad_to_align`. -/
def padToAlign (l : Layout) : Layout where
  size := roundUp l.size l.align
  align := l.align
  pow2 := l.pow2
  fits := by
    have hfits := l.fits
    have hdvd : l.align ∣ isizeMax + 1 :=
      isPowerOfTwo_dvd l.pow2 ⟨63, rfl⟩ (by omega)
    have := roundUp_le l.align_pos (Nat.dvd_sub hdvd dvd_rfl)
      (by omega : l.size ≤ isizeMax + 1 - l.align)
    omega

theorem fromSizeAlign_eq {size align : Nat} (hp : align.isPowerOfTwo)
    (hf : size + align ≤ isizeMax + 1) :
    fromSizeAlign size align = some ⟨size, align, hp, hf⟩ :=
  dif_pos ⟨hp, hf⟩

end Layout

-- =============================================================== iterators

/-- The addresses of `(start..end).step_by(step)`. -/
def stepBy (start stop step : Nat) : List Nat :=
  (List.range ((stop - start + step - 1) / step)).map (start + step * ·)

theorem mem_stepBy {start stop step a : Nat} (hs : 0 < step) :
    a ∈ stepBy start stop step
      ↔ ∃ i, a = start + step * i ∧ a < stop := by
  unfold stepBy
  rw [List.mem_map]
  constructor
  · intro h
    rcases h with ⟨i, hi, rfl⟩
    rw [List.mem_range, Nat.lt_div_iff_mul_lt hs, Nat.mul_comm] at hi
    exact ⟨i, rfl, by omega⟩
  · intro h
    rcases h with ⟨i, rfl, hlt⟩
    refine ⟨i, ?_, rfl⟩
    rw [List.mem_range, Nat.lt_div_iff_mul_lt hs, Nat.mul_comm]
    omega

namespace Iter

variable {α : Type}

/-- `Iterator::count`: produces every element. -/
def count : List (Except Panic α) → Except Panic Nat
  | [] => .ok 0
  | x :: xs => do
      let _ ← x
      let n ← count xs
      pure (n + 1)

/-- `Iterator::nth`: produces the elements up to the one asked for. -/
def nth : List (Except Panic α) → Nat → Except Panic (Option α)
  | [], _ => .ok none
  | x :: _, 0 => do
      let a ← x
      pure (some a)
  | x :: xs, n + 1 => do
      let _ ← x
      nth xs n

/-- `enumerate().find_map(|(i, x)| p(x).then_some(i))`, counting from
`i`: the index of the first element that passes. -/
def findIdx (p : α → Bool) : Nat → List (Except Panic α) →
    Except Panic (Option Nat)
  | _, [] => .ok none
  | i, x :: xs => do
      let a ← x
      if p a then pure (some i) else findIdx p (i + 1) xs

/-- Elements that never panic: counting is the length. -/
theorem count_map_ok (l : List α) : count (l.map .ok) = .ok l.length := by
  induction l with
  | nil => rfl
  | cons a l ih => simp [count, ih]

/-- Elements that never panic: `nth` is list lookup. -/
theorem nth_map_ok (l : List α) (n : Nat) :
    nth (l.map .ok) n = .ok l[n]? := by
  induction l generalizing n with
  | nil => rfl
  | cons a l ih =>
      cases n with
      | zero => rfl
      | succ n => simp [nth, ih]

/-- Whatever `nth` returns is the element of that number. -/
theorem nth_eq_some {l : List (Except Panic α)} {n : Nat} {a : α}
    (h : nth l n = .ok (some a)) : l[n]? = some (.ok a) := by
  induction l generalizing n with
  | nil =>
      cases n with
      | zero => cases h
      | succ n => cases h
  | cons x xs ih =>
      cases n with
      | zero =>
          obtain ⟨b, rfl, hb⟩ := bind_eq_ok.mp h
          rw [Option.some.inj (Except.ok.inj hb)]
          rfl
      | succ n =>
          obtain ⟨b, -, hb⟩ := bind_eq_ok.mp h
          exact ih hb

/-- Elements that never panic: the search is `List.findIdx?`, shifted by
the starting index. -/
theorem findIdx_map_ok (p : α → Bool) (i : Nat) (l : List α) :
    findIdx p i (l.map .ok) = .ok ((l.findIdx? p).map (· + i)) := by
  induction l generalizing i with
  | nil => rfl
  | cons a l ih =>
      rw [List.map_cons, findIdx, ok_bind, List.findIdx?_cons]
      cases p a with
      | true => simp
      | false =>
          simp only [Bool.false_eq_true, if_false, ih, Option.map_map]
          congr 2
          funext n
          simp only [Function.comp]
          omega

end Iter

end Rust
