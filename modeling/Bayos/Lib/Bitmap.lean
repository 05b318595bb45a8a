/-
A pool of numbered resources with one bit each: the resource of number
`i` is the `i`-th entry of a duplicate-free list, and its bit is set
exactly while the resource is held.

`Marks` is that relation between the numbering, the bitmap and the held
resources. Taking the first clear bit and clearing the bit of a held
resource keep it; everything an ownership argument needs follows from
the relation alone.
-/
import Mathlib.Data.List.Basic
import Mathlib.Data.List.Nodup

namespace Lib.Bitmap

variable {α : Type}

/-- Index of the first clear bit. -/
def firstZero (bits : List Bool) : Option Nat := bits.findIdx? (! ·)

theorem firstZero_eq_none {bits : List Bool} :
    firstZero bits = none ↔ ∀ b ∈ bits, b = true := by
  unfold firstZero
  rw [List.findIdx?_eq_none_iff]
  simp

theorem firstZero_eq_some {bits : List Bool} {i : Nat}
    (h : firstZero bits = some i) : bits[i]? = some false := by
  obtain ⟨hi, hbit, -⟩ := List.findIdx?_eq_some_iff_getElem.mp h
  rw [List.getElem?_eq_getElem hi]
  simpa using hbit

theorem firstZero_cons_true (bits : List Bool) :
    firstZero (true :: bits) = (firstZero bits).map (· + 1) :=
  List.findIdx?_cons

/-- Of `n` bits the first `k` set. -/
def filled (k n : Nat) : List Bool :=
  List.replicate k true ++ List.replicate (n - k) false

theorem length_filled {k n : Nat} (h : k ≤ n) : (filled k n).length = n := by
  simp only [filled, List.length_append, List.length_replicate]
  omega

theorem firstZero_filled {k n : Nat} (h : k < n) :
    firstZero (filled k n) = some k := by
  have hrest : List.replicate (n - k) false
      = false :: List.replicate (n - k - 1) false := by
    rw [← List.replicate_succ]
    congr 1
    omega
  unfold filled
  rw [hrest]
  generalize List.replicate (n - k - 1) false = rest
  clear h hrest
  induction k with
  | zero => rfl
  | succ k ih =>
      rw [List.replicate_succ, List.cons_append, firstZero_cons_true, ih]
      rfl

theorem firstZero_filled_full (n : Nat) : firstZero (filled n n) = none := by
  rw [firstZero_eq_none]
  intro b hb
  rw [filled, Nat.sub_self, List.replicate_zero, List.append_nil] at hb
  exact List.eq_of_mem_replicate hb

/-- Setting the first clear bit fills one more. -/
theorem set_filled {k n : Nat} (h : k < n) :
    (filled k n).set k true = filled (k + 1) n := by
  have hrest : List.replicate (n - k) false
      = false :: List.replicate (n - (k + 1)) false := by
    rw [← List.replicate_succ]
    congr 1
    omega
  unfold filled
  rw [hrest, List.set_append_right _ _ (by simp), List.length_replicate,
    Nat.sub_self, List.set_cons_zero, List.replicate_succ', List.append_assoc]
  rfl

/-- The bit of each numbered resource says whether it is held. -/
structure Marks (num : List α) (bits : List Bool) (held : List α) :
    Prop where
  length : bits.length = num.length
  bit : ∀ {i : Nat} {a : α}, num[i]? = some a →
    (bits[i]? = some true ↔ a ∈ held)
  known : ∀ a ∈ held, a ∈ num
  nodup : held.Nodup

namespace Marks

variable {num held : List α} {bits : List Bool}

/-- Setting one bit leaves the length alone. -/
theorem length_set (h : Marks num bits held) (i : Nat) (b : Bool) :
    (bits.set i b).length = num.length := by
  rw [List.length_set]
  exact h.length

/-- A clear bit belongs to a resource, and nobody holds it. -/
theorem free (h : Marks num bits held) {i : Nat}
    (hi : bits[i]? = some false) :
    ∃ a, num[i]? = some a ∧ a ∉ held := by
  obtain ⟨hlt, -⟩ := List.getElem?_eq_some_iff.mp hi
  have hlt' : i < num.length := by
    rw [← h.length]
    exact hlt
  have hn := List.getElem?_eq_getElem hlt'
  refine ⟨_, hn, fun hmem => ?_⟩
  rw [(h.bit hn).mpr hmem] at hi
  cases hi

/-- No clear bit: every resource is held. -/
theorem full_iff (h : Marks num bits held) :
    firstZero bits = none ↔ ∀ a ∈ num, a ∈ held := by
  rw [firstZero_eq_none]
  constructor
  · intro hall a ha
    obtain ⟨i, hi, rfl⟩ := List.mem_iff_getElem.mp ha
    have hb : i < bits.length := h.length ▸ hi
    refine (h.bit (List.getElem?_eq_getElem hi)).mp ?_
    rw [List.getElem?_eq_getElem hb, hall _ (List.getElem_mem hb)]
  · intro hall b hb
    obtain ⟨i, hi, rfl⟩ := List.mem_iff_getElem.mp hb
    have hn : i < num.length := h.length ▸ hi
    have := (h.bit (List.getElem?_eq_getElem hn)).mpr
      (hall _ (List.getElem_mem hn))
    rwa [List.getElem?_eq_getElem hi, Option.some.injEq] at this

/-- Taking the resource behind a clear bit. -/
theorem take (h : Marks num bits held) (hnum : num.Nodup) {i : Nat} {a : α}
    (hi : bits[i]? = some false) (ha : num[i]? = some a) :
    Marks num (bits.set i true) (a :: held) := by
  obtain ⟨hlt, -⟩ := List.getElem?_eq_some_iff.mp hi
  obtain ⟨a', ha', hfree⟩ := h.free hi
  obtain rfl : a' = a := Option.some.inj (ha'.symm.trans ha)
  refine ⟨h.length_set .., ?_, ?_, List.nodup_cons.mpr ⟨hfree, h.nodup⟩⟩
  · intro j b hb
    by_cases hij : i = j
    · subst hij
      obtain rfl : b = a' := Option.some.inj (hb.symm.trans ha)
      simp [List.getElem?_set_self hlt]
    · have hne : b ≠ a' := fun he =>
        hij ((List.getElem?_inj (List.getElem?_eq_some_iff.mp ha).1 hnum).mp
          (by rw [ha, hb, he]))
      rw [List.getElem?_set_ne hij, h.bit hb]
      simp [hne]
  · intro b hb
    rcases List.mem_cons.mp hb with rfl | hb
    · exact List.mem_of_getElem? ha
    · exact h.known b hb

/-- Giving a held resource back. -/
theorem give [DecidableEq α] (h : Marks num bits held) (hnum : num.Nodup)
    {i : Nat} {a : α} (ha : num[i]? = some a) :
    Marks num (bits.set i false) (held.erase a) := by
  refine ⟨h.length_set .., ?_, ?_, h.nodup.erase a⟩
  · intro j b hb
    by_cases hij : i = j
    · subst hij
      obtain rfl : b = a := Option.some.inj (hb.symm.trans ha)
      have hlt : i < bits.length := by
        rw [h.length]
        exact (List.getElem?_eq_some_iff.mp ha).1
      rw [List.getElem?_set_self hlt]
      simp [h.nodup.mem_erase_iff]
    · have hne : b ≠ a := fun he =>
        hij ((List.getElem?_inj (List.getElem?_eq_some_iff.mp ha).1 hnum).mp
          (by rw [ha, hb, he]))
      rw [List.getElem?_set_ne hij, h.bit hb, h.nodup.mem_erase_iff]
      simp [hne]
  · intro b hb
    exact h.known b (List.mem_of_mem_erase hb)

/-- Nothing held: every bit is clear. -/
theorem clear (num : List α) :
    Marks num (List.replicate num.length false) [] where
  length := List.length_replicate
  bit := by
    intro i a ha
    simp [List.getElem?_replicate]
  known := by simp
  nodup := List.nodup_nil

/-- The order in which resources are held does not matter. -/
theorem perm {held' : List α} (h : Marks num bits held)
    (hp : held.Perm held') : Marks num bits held' where
  length := h.length
  bit := fun ha => (h.bit ha).trans hp.mem_iff
  known := fun a ha => h.known a (hp.mem_iff.mpr ha)
  nodup := hp.nodup_iff.mp h.nodup

end Marks

end Lib.Bitmap
