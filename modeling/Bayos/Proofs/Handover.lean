/-
The bitmap allocator continues the boot allocator: both hand out the
numbering in order, one by a counter and one by its first clear bit.

The simulation relation is `Lib.Bitmap.filled`: while nothing is given
back, the bitmap of an allocator that stands where the counter shows `k`
has its first `k` bits set and no other. `init` builds that bitmap
(`init_filled`) and every call fills one bit more
(`allocateFrame_filled`). The regions may overlap and need not be
aligned; all that is asked is that `PhysAddr::new` accepts the addresses.
-/
import Bayos.Proofs.Frames

namespace Bayos.Memory

open Rust
open Lib.Bitmap (filled length_filled firstZero_filled
  firstZero_filled_full set_filled)

-- =============================================================== the calls

/-- `m` calls of the bitmap allocator's `allocate_frame`, with what they
returned. -/
def bitmapCalls : Nat → BitmapAllocator →
    Except Panic (List (Option PhysFrame) × BitmapAllocator)
  | 0, self => pure ([], self)
  | m + 1, self => do
      let (frame, self) ← self.allocateFrame
      let (frames, self) ← bitmapCalls m self
      pure (frame :: frames, self)

/-- Setting the `n` bits after the first `i`. -/
theorem setBits_filled {len : Nat} :
    ∀ (n i : Nat), i + n ≤ len →
      setBits (filled i len) i n = .ok (filled (i + n) len) := by
  intro n
  induction n with
  | zero => intro i _; rfl
  | succ n ih =>
      intro i hlen
      have hset : setBit (filled i len) i true
          = .ok (filled (i + 1) len) := by
        unfold setBit
        rw [if_pos (by rw [length_filled (by omega)]; omega),
          set_filled (by omega)]
      unfold setBits
      rw [hset, ok_bind, ih (i + 1) (by omega)]
      congr 2
      omega

/-- `init` takes over where the counter stands. -/
theorem init_filled {mm : MemoryRegions} (hfit : AddressesFit mm) {k : Nat}
    (hk : k ≤ (numbering mm).length) :
    BitmapAllocator.init ⟨mm, k⟩
      = .ok ⟨mm, filled k (numbering mm).length⟩ := by
  have hclear : List.replicate (numbering mm).length false
      = filled 0 (numbering mm).length := rfl
  unfold BitmapAllocator.init
  rw [frames_eq hfit, ok_bind]
  dsimp only
  rw [hclear, setBits_filled k 0 (by omega), ok_bind, Nat.zero_add]
  rfl

/-- One call fills one bit, and returns the frame of its number. -/
theorem allocateFrame_filled {mm : MemoryRegions} (hfit : AddressesFit mm)
    {k : Nat} (hk : k < (numbering mm).length) :
    BitmapAllocator.allocateFrame ⟨mm, filled k (numbering mm).length⟩
      = .ok ((numbering mm)[k]?,
          ⟨mm, filled (k + 1) (numbering mm).length⟩) := by
  have hset : setBit (filled k (numbering mm).length) k true
      = .ok (filled (k + 1) (numbering mm).length) := by
    unfold setBit
    rw [if_pos (by rw [length_filled (by omega)]; omega), set_filled hk]
  unfold BitmapAllocator.allocateFrame
  simp only [firstZero_filled hk, hset, ok_bind,
    BitmapAllocator.usableFrames, usableFramesOf_eq hfit, Iter.nth_map_ok,
    pure_eq_ok]

theorem bitmapCalls_filled {mm : MemoryRegions} (hfit : AddressesFit mm) :
    ∀ (m k : Nat), k + m ≤ (numbering mm).length →
      bitmapCalls m ⟨mm, filled k (numbering mm).length⟩
        = .ok ((List.range' k m).map ((numbering mm)[·]?),
            ⟨mm, filled (k + m) (numbering mm).length⟩) := by
  intro m
  induction m with
  | zero => intro k _; rfl
  | succ m ih =>
      intro k hlen
      have hone := allocateFrame_filled hfit
        (show k < (numbering mm).length by omega)
      unfold bitmapCalls
      rw [hone, ok_bind]
      simp only [ih (k + 1) (by omega), ok_bind, pure_eq_ok]
      rw [List.range'_succ, List.map_cons,
        show k + 1 + m = k + (m + 1) by omega]

/-- With every bit set, calls return nothing and change nothing. -/
theorem bitmapCalls_full {mm : MemoryRegions} (len j : Nat) :
    bitmapCalls j ⟨mm, filled len len⟩
      = .ok (List.replicate j none, ⟨mm, filled len len⟩) := by
  induction j with
  | zero => rfl
  | succ j ih =>
      have hone : BitmapAllocator.allocateFrame ⟨mm, filled len len⟩
          = .ok (none, ⟨mm, filled len len⟩) := by
        unfold BitmapAllocator.allocateFrame
        rw [firstZero_filled_full]
        rfl
      unfold bitmapCalls
      rw [hone, ok_bind]
      simp only [ih, ok_bind, pure_eq_ok, List.replicate_succ]

/-- Past the last frame, the counter finds nothing. -/
theorem bootCalls_exhausted {mm : MemoryRegions} (hfit : AddressesFit mm)
    {j : Nat} (hj : (numbering mm).length + j < wordSize) :
    bootCalls j ⟨mm, (numbering mm).length⟩
      = .ok (List.replicate j none, ⟨mm, (numbering mm).length + j⟩) := by
  rw [bootCalls_eq hfit j _ hj]
  congr 2
  refine List.ext_getElem (by simp) fun i h₁ h₂ => ?_
  simp

-- ============================================================== the result

/-- The bitmap allocator continues the boot allocator. On a map whose
addresses `PhysAddr::new` accepts and whose frames the counter can count,
`k` boot calls, the handover and `m` bitmap calls return together what
`k + m` boot calls return; and once that is all of the frames, further
calls of either return nothing, for as long as the counter does not
overflow. -/
theorem bitmap_continues_boot (mm : MemoryRegions) (hfit : AddressesFit mm)
    (hw : (numbering mm).length < wordSize) (k m : Nat)
    (hkm : k + m ≤ (numbering mm).length) :
    ∃ first second boot alloc boot' alloc',
      bootCalls k (.init mm) = .ok (first, boot)
      ∧ BitmapAllocator.init boot = .ok alloc
      ∧ bitmapCalls m alloc = .ok (second, alloc')
      ∧ bootCalls (k + m) (.init mm) = .ok (first ++ second, boot')
      ∧ (k + m = (numbering mm).length → ∀ j : Nat,
          (∃ last, bitmapCalls j alloc' = .ok (List.replicate j none, last))
          ∧ (k + m + j < wordSize →
              ∃ last,
                bootCalls j boot' = .ok (List.replicate j none, last))) := by
  have hsplit : (List.range' 0 (k + m)).map ((numbering mm)[·]?)
      = (List.range' 0 k).map ((numbering mm)[·]?)
        ++ (List.range' k m).map ((numbering mm)[·]?) := by
    rw [← List.map_append, ← List.range'_append_1, Nat.zero_add]
  have hfirst := bootCalls_eq hfit k 0 (by omega)
  have hboth := bootCalls_eq hfit (k + m) 0 (by omega)
  rw [Nat.zero_add] at hfirst hboth
  rw [hsplit] at hboth
  refine ⟨_, _, _, _, _, _, hfirst, init_filled hfit (by omega),
    bitmapCalls_filled hfit m k hkm, hboth, ?_⟩
  intro hall j
  rw [hall]
  exact ⟨⟨_, bitmapCalls_full _ j⟩,
    fun hj => ⟨_, bootCalls_exhausted hfit hj⟩⟩

/-- One boot call, the handover and one bitmap call hand out both frames
of a two-frame map. -/
theorem bitmap_continues_boot_twoFrames :
    ∃ first second boot alloc boot' alloc',
      bootCalls 1 (.init twoFrames) = .ok (first, boot)
      ∧ BitmapAllocator.init boot = .ok alloc
      ∧ bitmapCalls 1 alloc = .ok (second, alloc')
      ∧ bootCalls 2 (.init twoFrames) = .ok (first ++ second, boot')
      ∧ (2 = (numbering twoFrames).length → ∀ j : Nat,
          (∃ last, bitmapCalls j alloc' = .ok (List.replicate j none, last))
          ∧ (2 + j < wordSize →
              ∃ last,
                bootCalls j boot' = .ok (List.replicate j none, last))) :=
  bitmap_continues_boot twoFrames twoFrames_wellFormed.fit (by decide) 1 1
    (by decide)

/-- A frame at address 0 and one above the 52-bit limit. -/
def highMap : MemoryRegions :=
  [⟨0, 4096, .usable⟩, ⟨2 ^ 52, 2 ^ 52 + 4096, .usable⟩]

/-- The boot allocator hands out the low frame of `highMap`; the count in
`init` then reaches the high one and panics, so there is no handover. -/
theorem handover_panics :
    ¬ ∀ (mm : MemoryRegions) (k m : Nat), k + m ≤ (numbering mm).length →
      ∃ first second boot alloc boot' alloc',
        bootCalls k (.init mm) = .ok (first, boot)
        ∧ BitmapAllocator.init boot = .ok alloc
        ∧ bitmapCalls m alloc = .ok (second, alloc')
        ∧ bootCalls (k + m) (.init mm) = .ok (first ++ second, boot') := by
  intro hall
  obtain ⟨first, second, boot, alloc, boot', alloc', hboot, hinit, -⟩ :=
    hall highMap 1 0 (by decide)
  have hone : bootCalls 1 (.init highMap)
      = .ok ([some (frameAt 0)], ⟨highMap, 1⟩) := by decide
  rw [hone] at hboot
  obtain ⟨-, rfl⟩ := Prod.mk.inj (Except.ok.inj hboot)
  have hpanic : BitmapAllocator.init ⟨highMap, 1⟩
      = .error (.message
        "physical addresses must not have any bits in the range 52 to 64 set")
      := by decide
  rw [hpanic] at hinit
  cases hinit

end Bayos.Memory
