/-
Byte-addressed memory over a 64-bit address space that wraps around, and
little-endian words in it.

# Regions

`region a n` is the set of the `n` bytes from `a` on. It is stated by
the offset from `a`, not by a comparison of addresses, so nothing is
assumed about a region that crosses the top of the address space.

# Stacks

`words m a n` lists the `n` words from `a` upwards. A push puts a word
in front of the list (`words_push`), and whoever leaves the region alone
leaves the list alone (`words_congr`).
-/
import Mathlib.Algebra.Group.Nat.Defs
import Mathlib.Data.Set.Basic

namespace Lib

/-- An address, or a 64-bit word. -/
abbrev Word := BitVec 64

/-- Memory, one byte an address. -/
abbrev Mem := Word → BitVec 8

theorem add_ofNat_zero (a : Word) : a + BitVec.ofNat 64 0 = a :=
  BitVec.add_zero a

-- ================================================================= regions

/-- The `n` bytes from `a` on. -/
def region (a : Word) (n : Nat) : Set Word := {x | (x - a).toNat < n}

theorem mem_region {a x : Word} {n : Nat} :
    x ∈ region a n ↔ (x - a).toNat < n := Iff.rfl

instance (a x : Word) (n : Nat) : Decidable (x ∈ region a n) :=
  inferInstanceAs (Decidable ((x - a).toNat < n))

/-- The byte at offset `k` of a region. -/
theorem add_mem_region {a : Word} {k n : Nat} (hk : k < n)
    (hn : n ≤ 2 ^ 64) : a + BitVec.ofNat 64 k ∈ region a n := by
  rw [mem_region, BitVec.add_comm, BitVec.add_sub_cancel,
    BitVec.toNat_ofNat, Nat.mod_eq_of_lt (by omega)]
  exact hk

/-- The offset from `a` of a byte whose offset from `a + k` is known. -/
theorem offset_add (a x : Word) (k : Nat) :
    (x - a).toNat = ((x - (a + BitVec.ofNat 64 k)).toNat + k) % 2 ^ 64 := by
  have h : x - a = x - (a + BitVec.ofNat 64 k) + BitVec.ofNat 64 k := by
    bv_omega
  rw [h, BitVec.toNat_add, BitVec.toNat_ofNat, Nat.add_mod_mod]

theorem region_subset {a : Word} {k n l : Nat} (h : k + n ≤ l)
    (hl : l ≤ 2 ^ 64) : region (a + BitVec.ofNat 64 k) n ⊆ region a l := by
  intro x hx
  rw [mem_region] at hx ⊢
  rw [offset_add a x k, Nat.mod_eq_of_lt (by omega)]
  omega

/-- Two parts of a region that do not overlap. -/
theorem region_disjoint {a : Word} {j k n l : Nat} (h : j + n ≤ k)
    (hl : k + l ≤ 2 ^ 64) {x : Word}
    (hx : x ∈ region (a + BitVec.ofNat 64 j) n) :
    x ∉ region (a + BitVec.ofNat 64 k) l := by
  intro hx'
  rw [mem_region] at hx hx'
  have hj := offset_add a x j
  have hk := offset_add a x k
  rw [Nat.mod_eq_of_lt (by omega)] at hj hk
  omega

-- ========================================================= words in memory

/-- Bytes a value of `w` bits takes. -/
def bytesOf (w : Nat) : Nat := (w + 7) / 8

/-- Memory with `v` stored at `a`, least significant byte first. -/
def Mem.write {w : Nat} (m : Mem) (a : Word) (v : BitVec w) : Mem := fun x =>
  if x ∈ region a (bytesOf w) then v.extractLsb' (8 * (x - a).toNat) 8
  else m x

/-- The `w` bits stored at `a`. -/
def Mem.read (m : Mem) (a : Word) (w : Nat) : BitVec w :=
  (BitVec.iunfoldr (fun i (_ : Unit) =>
    ((), (m (a + BitVec.ofNat 64 (i / 8))).getLsbD (i % 8))) ()).2

theorem getLsbD_read (m : Mem) (a : Word) {w i : Nat} (hi : i < w) :
    (m.read a w).getLsbD i
      = (m (a + BitVec.ofNat 64 (i / 8))).getLsbD (i % 8) :=
  BitVec.iunfoldr_getLsbD (fun _ => ()) ⟨i, hi⟩ fun _ => rfl

theorem write_of_notMem {w : Nat} {m : Mem} {a x : Word} {v : BitVec w}
    (h : x ∉ region a (bytesOf w)) : m.write a v x = m x := if_neg h

/-- A read depends on the bytes it covers. -/
theorem read_congr {m m' : Mem} {a : Word} {w : Nat}
    (h : ∀ k, k < bytesOf w →
      m (a + BitVec.ofNat 64 k) = m' (a + BitVec.ofNat 64 k)) :
    m.read a w = m'.read a w := by
  refine BitVec.eq_of_getLsbD_eq fun i hi => ?_
  rw [getLsbD_read m a hi, getLsbD_read m' a hi, h (i / 8) ?_]
  unfold bytesOf
  omega

/-- A read inside a region depends on the region. -/
theorem read_congr_region {m m' : Mem} {a : Word} {n : Nat}
    (h : ∀ x ∈ region a n, m x = m' x) (hn : n ≤ 2 ^ 64) {k w : Nat}
    (hk : k + bytesOf w ≤ n) :
    m.read (a + BitVec.ofNat 64 k) w = m'.read (a + BitVec.ofNat 64 k) w := by
  refine read_congr fun j hj => h _ ?_
  rw [BitVec.add_assoc, ← BitVec.ofNat_add]
  exact add_mem_region (by omega) hn

/-- A narrower read of the same place. -/
theorem setWidth_read (m : Mem) (a : Word) {w w' : Nat} (hle : w' ≤ w) :
    (m.read a w).setWidth w' = m.read a w' := by
  refine BitVec.eq_of_getLsbD_eq fun i hi => ?_
  rw [BitVec.getLsbD_setWidth, getLsbD_read m a (Nat.lt_of_lt_of_le hi hle),
    getLsbD_read m a hi, decide_eq_true hi, Bool.true_and]

/-- What was written is read back, cut to the width that is read. -/
theorem read_write {w w' : Nat} (m : Mem) (a : Word) (v : BitVec w)
    (hle : w' ≤ w) (hw : w ≤ 2 ^ 64) :
    (m.write a v).read a w' = v.setWidth w' := by
  refine BitVec.eq_of_getLsbD_eq fun i hi => ?_
  have hmem : a + BitVec.ofNat 64 (i / 8) ∈ region a (bytesOf w) := by
    refine add_mem_region ?_ ?_ <;> (unfold bytesOf; omega)
  have hoff : (a + BitVec.ofNat 64 (i / 8) - a).toNat = i / 8 := by
    rw [BitVec.add_comm, BitVec.add_sub_cancel, BitVec.toNat_ofNat]
    exact Nat.mod_eq_of_lt (by omega)
  rw [getLsbD_read _ _ hi]
  unfold Mem.write
  rw [if_pos hmem, hoff, BitVec.getLsbD_extractLsb', BitVec.getLsbD_setWidth,
    Nat.div_add_mod]
  simp [hi, Nat.mod_lt]

/-- A write at one offset is not seen at another. -/
theorem read_write_offset {w w' : Nat} (m : Mem) (a : Word) (v : BitVec w)
    {j k : Nat} (hj : j + bytesOf w ≤ 2 ^ 64) (hk : k + bytesOf w' ≤ 2 ^ 64)
    (h : j + bytesOf w ≤ k ∨ k + bytesOf w' ≤ j) :
    (m.write (a + BitVec.ofNat 64 j) v).read (a + BitVec.ofNat 64 k) w'
      = m.read (a + BitVec.ofNat 64 k) w' := by
  refine read_congr fun i hi => write_of_notMem fun hx => ?_
  have hx' : a + BitVec.ofNat 64 k + BitVec.ofNat 64 i
      ∈ region (a + BitVec.ofNat 64 k) (bytesOf w') :=
    add_mem_region hi (by omega)
  rcases h with h | h
  · exact region_disjoint h hk hx hx'
  · exact region_disjoint h hj hx' hx

-- ================================================================== stacks

/-- The `n` words from `a` upwards. -/
def Mem.words (m : Mem) (a : Word) : Nat → List Word
  | 0 => []
  | n + 1 => m.read a 64 :: m.words (a + 8) n

@[simp] theorem length_words (m : Mem) (a : Word) (n : Nat) :
    (m.words a n).length = n := by
  induction n generalizing a with
  | zero => rfl
  | succ n ih => exact congrArg (· + 1) (ih (a + 8))

/-- Words further up. -/
theorem words_append (m : Mem) (a : Word) (n k : Nat) :
    m.words a (n + k)
      = m.words a n ++ m.words (a + BitVec.ofNat 64 (8 * n)) k := by
  induction n generalizing a with
  | zero =>
      have haddr : a + BitVec.ofNat 64 (8 * 0) = a := BitVec.add_zero a
      rw [Nat.zero_add, haddr]
      rfl
  | succ n ih =>
      have haddr : a + BitVec.ofNat 64 (8 * (n + 1))
          = a + 8 + BitVec.ofNat 64 (8 * n) := by
        rw [BitVec.add_assoc, Nat.mul_succ, Nat.add_comm, BitVec.ofNat_add]
        rfl
      rw [Nat.succ_add, haddr]
      exact congrArg (m.read a 64 :: ·) (ih (a + 8))

/-- One of the words. -/
theorem read_of_words {m : Mem} {a v : Word} {vs : List Word} {n k : Nat}
    (h : m.words a n = vs) (hk : vs[k]? = some v) :
    m.read (a + BitVec.ofNat 64 (8 * k)) 64 = v := by
  subst h
  have hlt := (List.getElem?_eq_some_iff.mp hk).1
  rw [length_words] at hlt
  obtain ⟨l, rfl⟩ := Nat.exists_eq_add_of_lt hlt
  rw [Nat.add_assoc, words_append, List.getElem?_append_right (by simp),
    length_words, Nat.sub_self] at hk
  exact Option.some.inj hk

/-- Whoever leaves a region alone leaves its words alone. -/
theorem words_congr {m m' : Mem} (n : Nat) :
    ∀ {a : Word}, 8 * n ≤ 2 ^ 64 →
      (∀ x ∈ region a (8 * n), m x = m' x) → m.words a n = m'.words a n := by
  induction n with
  | zero => intro a _ _; rfl
  | succ n ih =>
      intro a hn h
      have hread : m.read a 64 = m'.read a 64 := by
        refine read_congr fun k hk => h _ (add_mem_region ?_ hn)
        unfold bytesOf at hk
        omega
      have hrest : m.words (a + 8) n = m'.words (a + 8) n := by
        refine ih (by omega) fun x hx => h x ?_
        exact region_subset (k := 8) (by omega) hn hx
      show m.read a 64 :: m.words (a + 8) n
        = m'.read a 64 :: m'.words (a + 8) n
      rw [hread, hrest]

/-- The words of zeroed memory. -/
theorem words_zero {m : Mem} {n : Nat} :
    ∀ {a : Word}, 8 * n ≤ 2 ^ 64 → (∀ x ∈ region a (8 * n), m x = 0) →
      m.words a n = List.replicate n 0 := by
  have hread : ∀ a : Word, Mem.read (fun _ => 0) a 64 = 0 := by
    intro a
    refine BitVec.eq_of_getLsbD_eq fun i hi => ?_
    rw [getLsbD_read _ a hi]
    exact (BitVec.getLsbD_zero ..).trans (BitVec.getLsbD_zero ..).symm
  have hzero : ∀ (k : Nat) (a : Word),
      Mem.words (fun _ => 0) a k = List.replicate k 0 := by
    intro k
    induction k with
    | zero => intro a; rfl
    | succ k ih =>
        intro a
        show Mem.read (fun _ => 0) a 64 :: Mem.words (fun _ => 0) (a + 8) k
          = 0 :: List.replicate k 0
        rw [hread, ih]
  intro a hn h
  have hcongr : m.words a n = Mem.words (fun _ => 0) a n :=
    words_congr n hn h
  rw [hcongr, hzero]

/-- A push puts a word in front of the words on the stack. -/
theorem words_push (m : Mem) (a v : Word) {n : Nat}
    (hn : 8 * (n + 1) ≤ 2 ^ 64) :
    (m.write (a - 8) v).words (a - 8) (n + 1) = v :: m.words a n := by
  have haddr : a - 8 + 8 = a := BitVec.sub_add_cancel ..
  have hrest : (m.write (a - 8) v).words a n = m.words a n := by
    refine words_congr n (by omega) fun x hx => write_of_notMem fun hx' => ?_
    refine region_disjoint (a := a - 8) (j := 0) (k := 8) (n := 8)
      (l := 8 * n) (by omega) (by omega) ?_ ?_ (x := x)
    · rw [add_ofNat_zero]
      exact hx'
    · have height : a - 8 + BitVec.ofNat 64 8 = a := haddr
      rw [height]
      exact hx
  show (m.write (a - 8) v).read (a - 8) 64
    :: (m.write (a - 8) v).words (a - 8 + 8) n = v :: m.words a n
  rw [haddr, hrest, read_write _ _ _ (Nat.le_refl 64) (by decide),
    BitVec.setWidth_eq]

end Lib
