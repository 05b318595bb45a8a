/-
Whether the frames handed out lie in usable memory, on a map whose
regions need not start or end on frame boundaries.

# The shape of the argument

The iterators step from a region's start and round every address down to
a frame. On aligned regions (`Aligned`) each frame stays inside its own
region and no two regions share one (`sound_of_aligned`).

The converse goes by the lowest unaligned start: the frame rounded down
from it begins in front of the region, so another region must end where
this one starts. That one starts lower, hence aligned, so the iterator
has stepped on the same frame there already (`start_aligned`). Then an
unaligned end leaves the rest of its last frame to a region that starts
unaligned (`stop_aligned`).
-/
import Mathlib.Data.List.Nodup
import Mathlib.Data.List.Pairwise
import Bayos.Proofs.Frames

namespace Bayos.Memory

open Rust

-- ============================================================== vocabulary

/-- Every byte of the frame is in a Usable region. -/
def Covered (mm : MemoryRegions) (f : PhysFrame) : Prop :=
  ∀ a, f.startAddress ≤ a → a < f.startAddress + 4096 →
    ∃ r ∈ usable mm, r.start ≤ a ∧ a < r.stop

/-- `allocate_frame` of one of the allocators returns the frame: the
boot allocator's in some run from `init`, or the bitmap allocator's with
some bitmap. -/
def HandsOut (mm : MemoryRegions) (f : PhysFrame) : Prop :=
  (∃ k frames boot, bootCalls k (.init mm) = .ok (frames, boot)
    ∧ some f ∈ frames)
  ∨ ∃ bits alloc,
      BitmapAllocator.allocateFrame ⟨mm, bits⟩ = .ok (some f, alloc)

/-- The frames are usable memory, and listed once each. -/
structure Sound (mm : MemoryRegions) : Prop where
  covered : ∀ f, HandsOut mm f → Covered mm f
  distinct : ∀ (i j : Nat) (f : PhysFrame),
    (usableFramesOf mm)[i]? = some (Except.ok f) →
    (usableFramesOf mm)[j]? = some (Except.ok f) → i = j

-- =========================================================== the iterators

/-- The boot allocator returns elements of the sequence only. -/
theorem bootCalls_mem {f : PhysFrame} :
    ∀ {k : Nat} {self boot : BootInfoFrameAllocator}
      {frames : List (Option PhysFrame)},
      bootCalls k self = .ok (frames, boot) → some f ∈ frames →
      ∃ i : Nat,
        (usableFramesOf self.memoryMap)[i]? = some (Except.ok f) := by
  intro k
  induction k with
  | zero =>
      intro self boot frames h hf
      obtain ⟨rfl, -⟩ := Prod.mk.inj (Except.ok.inj h)
      cases hf
  | succ k ih =>
      intro self boot frames h hf
      unfold bootCalls at h
      obtain ⟨⟨frame, next⟩, hone, hthen⟩ := bind_eq_ok.mp h
      obtain ⟨⟨rest, last⟩, hrest, hret⟩ := bind_eq_ok.mp hthen
      obtain ⟨g, hnth, hone⟩ := bind_eq_ok.mp hone
      obtain ⟨n, -, hone⟩ := bind_eq_ok.mp hone
      obtain ⟨rfl, rfl⟩ := Prod.mk.inj (Except.ok.inj hone)
      obtain ⟨rfl, -⟩ := Prod.mk.inj (Except.ok.inj hret)
      rcases List.mem_cons.mp hf with rfl | hf
      · exact ⟨_, Iter.nth_eq_some hnth⟩
      · have hlater := ih hrest hf
        exact hlater

/-- So does the bitmap allocator. -/
theorem bitmap_mem {mm : MemoryRegions} {bits : List Bool} {f : PhysFrame}
    {alloc : BitmapAllocator}
    (h : BitmapAllocator.allocateFrame ⟨mm, bits⟩ = .ok (some f, alloc)) :
    ∃ i : Nat, (usableFramesOf mm)[i]? = some (Except.ok f) := by
  unfold BitmapAllocator.allocateFrame at h
  cases hfirst : Lib.Bitmap.firstZero bits with
  | none =>
      simp only [hfirst, pure_eq_ok] at h
      cases h
  | some index =>
      simp only [hfirst] at h
      obtain ⟨bitmap, -, h⟩ := bind_eq_ok.mp h
      obtain ⟨frame, hnth, h⟩ := bind_eq_ok.mp h
      obtain ⟨rfl, -⟩ := Prod.mk.inj (Except.ok.inj h)
      exact ⟨_, Iter.nth_eq_some hnth⟩

theorem handsOut_mem {mm : MemoryRegions} {f : PhysFrame}
    (h : HandsOut mm f) : ∃ a ∈ frameAddresses mm, f = frameAt a := by
  have hseq : ∃ i : Nat, (usableFramesOf mm)[i]? = some (Except.ok f) := by
    rcases h with ⟨k, frames, boot, hboot, hf⟩ | ⟨bits, alloc, hbitmap⟩
    · exact bootCalls_mem hboot hf
    · exact bitmap_mem hbitmap
  obtain ⟨i, hi⟩ := hseq
  obtain ⟨a, ha, hf⟩ := usableFramesOf_get hi
  exact ⟨a, List.mem_of_getElem? ha, hf⟩

/-- Every frame of the numbering is handed out in some run. -/
theorem handsOut_numbering {mm : MemoryRegions}
    (hdisj : (usable mm).Pairwise MemoryRegion.Disjoint)
    (hfit : AddressesFit mm) {f : PhysFrame} (hf : f ∈ numbering mm) :
    HandsOut mm f := by
  have hw := numbering_length_lt hdisj hfit
  refine Or.inl ⟨_, _, _, bootCalls_take hfit hw (Nat.le_refl _), ?_⟩
  rw [List.take_length]
  exact List.mem_map_of_mem hf

-- =============================================== aligned regions are sound

theorem sound_of_aligned {mm : MemoryRegions}
    (hdisj : (usable mm).Pairwise MemoryRegion.Disjoint)
    (h : Aligned mm) : Sound mm where
  covered := by
    intro f hf b hlo hhi
    obtain ⟨a, ha, rfl⟩ := handsOut_mem hf
    obtain ⟨hmod, r, hr, hstop, hra, har⟩ := h.step ha
    have hframe : (frameAt a).startAddress = a - a % 4096 := rfl
    exact ⟨r, hr, by omega, by omega⟩
  distinct := by
    intro i j f hi hj
    obtain ⟨a, ha, rfl⟩ := usableFramesOf_get hi
    obtain ⟨b, hb, hab⟩ := usableFramesOf_get hj
    have hstart : a - a % 4096 = b - b % 4096 :=
      congrArg PhysFrame.startAddress hab
    have hamod := (h.step (List.mem_of_getElem? ha)).1
    have hbmod := (h.step (List.mem_of_getElem? hb)).1
    obtain rfl : a = b := by omega
    have hlt := (List.getElem?_eq_some_iff.mp ha).1
    exact (List.getElem?_inj hlt (frameAddresses_nodup hdisj)).mp
      (ha.trans hb.symm)

-- =============================================== sound regions are aligned

/-- Two Usable regions that share a byte are the same. -/
theorem eq_of_shared {mm : MemoryRegions}
    (hdisj : (usable mm).Pairwise MemoryRegion.Disjoint)
    {r s : MemoryRegion} (hr : r ∈ usable mm) (hs : s ∈ usable mm) {a : Nat}
    (har : r.start ≤ a ∧ a < r.stop) (has : s.start ≤ a ∧ a < s.stop) :
    r = s := by
  by_contra hne
  have : Std.Symm MemoryRegion.Disjoint :=
    ⟨fun x y hxy b hb => hxy b ⟨hb.2, hb.1⟩⟩
  exact hdisj.forall hr hs hne a ⟨har, has⟩

theorem Sound.numbering_nodup {mm : MemoryRegions} (h : Sound mm)
    (hfit : AddressesFit mm) : (numbering mm).Nodup := by
  refine List.nodup_iff_injective_get.mpr fun i j hij => ?_
  have hget : ∀ k : Fin (numbering mm).length,
      (usableFramesOf mm)[k.val]? = some (Except.ok ((numbering mm).get k)) :=
    fun k => by simp [usableFramesOf_eq hfit]
  exact Fin.ext (h.distinct i j _ (hget i) (by rw [hij]; exact hget j))

/-- The frame rounded down from an address stepped on is usable
memory. -/
theorem Sound.step {mm : MemoryRegions} (h : Sound mm)
    (hdisj : (usable mm).Pairwise MemoryRegion.Disjoint)
    (hfit : AddressesFit mm) {a : Nat} (ha : a ∈ frameAddresses mm)
    {b : Nat} (hlo : a - a % 4096 ≤ b) (hhi : b < a - a % 4096 + 4096) :
    ∃ r ∈ usable mm, r.start ≤ b ∧ b < r.stop :=
  h.covered (frameAt a)
    (handsOut_numbering hdisj hfit (List.mem_map_of_mem ha)) b hlo hhi

theorem mem_frameAddresses {mm : MemoryRegions} {r : MemoryRegion}
    (hr : r ∈ usable mm) {i : Nat} (hi : r.start + 4096 * i < r.stop) :
    r.start + 4096 * i ∈ frameAddresses mm :=
  List.mem_flatMap.mpr ⟨r, hr, (mem_stepBy (by omega)).mpr ⟨i, rfl, hi⟩⟩

/-- No region starts inside a frame. The induction is on the start: what
lies in front of a start inside a frame would be the end of a lower
region, which steps on that frame too. -/
theorem start_aligned {mm : MemoryRegions} (h : Sound mm)
    (hdisj : (usable mm).Pairwise MemoryRegion.Disjoint)
    (hfit : AddressesFit mm) (start : Nat) :
    ∀ r ∈ usable mm, r.start = start → r.start < r.stop →
      r.start % 4096 = 0 := by
  induction start using Nat.strong_induction_on with
  | _ start ih =>
      intro r hr hstart hne
      by_contra hmod
      have hmem : r.start ∈ frameAddresses mm :=
        mem_frameAddresses (i := 0) hr hne
      obtain ⟨s, hs, hlo, hhi⟩ := h.step hdisj hfit hmem
        (b := r.start - 1) (by omega) (by omega)
      have hstop : s.stop = r.start := by
        by_contra hover
        have heq := eq_of_shared hdisj hs hr
          (a := r.start) (by omega) (by omega)
        rw [heq] at hlo
        omega
      have hmods := ih s.start (by omega) s hs rfl (by omega)
      -- the frame under `r.start` is a step of `s`
      have hstep : s.start + 4096 * ((r.start - s.start) / 4096)
          = r.start - r.start % 4096 := by omega
      have hmem' := mem_frameAddresses hs
        (i := (r.start - s.start) / 4096) (by omega)
      rw [hstep] at hmem'
      have hsame : frameAt (r.start - r.start % 4096)
          = frameAt r.start := by
        unfold frameAt
        congr 1
        omega
      have := List.inj_on_of_nodup_map (h.numbering_nodup hfit)
        hmem' hmem hsame
      omega

/-- No region ends inside a frame: the rest of the frame would be the
start of another. -/
theorem stop_aligned {mm : MemoryRegions} (h : Sound mm)
    (hdisj : (usable mm).Pairwise MemoryRegion.Disjoint)
    (hfit : AddressesFit mm) {r : MemoryRegion} (hr : r ∈ usable mm)
    (hne : r.start < r.stop) : r.stop % 4096 = 0 := by
  by_contra hmod
  have hstart := start_aligned h hdisj hfit _ r hr rfl hne
  have hlast : r.start + 4096 * ((r.stop - r.start) / 4096)
      = r.stop - r.stop % 4096 := by omega
  have hmem := mem_frameAddresses hr
    (i := (r.stop - r.start) / 4096) (by omega)
  rw [hlast] at hmem
  obtain ⟨s, hs, hlo, hhi⟩ := h.step hdisj hfit hmem
    (b := r.stop) (by omega) (by omega)
  have hnext : s.start = r.stop := by
    by_contra hover
    have heq := eq_of_shared hdisj hs hr
      (a := r.stop - 1) (by omega) (by omega)
    rw [heq] at hhi
    omega
  have := start_aligned h hdisj hfit _ s hs rfl (by omega)
  omega

-- ============================================================== the result

/-- On a map of disjoint regions, frames that start and end on frame
boundaries are enough for the allocators to hand out usable memory only
and every frame once; and unless `PhysAddr::new` stops the iteration on
the way, nothing less is. -/
theorem sound_iff_aligned (mm : MemoryRegions)
    (hdisj : mm.Pairwise MemoryRegion.Disjoint) :
    (Aligned mm → Sound mm)
      ∧ (AddressesFit mm → (Sound mm ↔ Aligned mm)) := by
  have husable : (usable mm).Pairwise MemoryRegion.Disjoint :=
    hdisj.filter _
  refine ⟨sound_of_aligned husable, fun hfit =>
    ⟨fun h r hr hne => ?_, sound_of_aligned husable⟩⟩
  exact ⟨start_aligned h husable hfit _ r hr rfl hne,
    stop_aligned h husable hfit hr hne⟩

/-- The two-frame map is sound. -/
theorem sound_iff_aligned_twoFrames :
    (Aligned twoFrames → Sound twoFrames)
      ∧ (AddressesFit twoFrames → (Sound twoFrames ↔ Aligned twoFrames)) :=
  sound_iff_aligned twoFrames (List.pairwise_singleton ..)

/-- A region that starts in the middle of a frame. -/
def oddMap : MemoryRegions := [⟨0x1800, 0x3000, .usable⟩]

/-- The first frame handed out on `oddMap` is the one at `0x1000`, whose
first half belongs to no Usable region. -/
theorem frame_outside_usable :
    ¬ ∀ mm : MemoryRegions, mm.Pairwise MemoryRegion.Disjoint →
      Sound mm := by
  intro hall
  have hsound := hall oddMap (List.pairwise_singleton ..)
  have hout : HandsOut oddMap (frameAt 0x1800) :=
    Or.inl ⟨1, [some (frameAt 0x1800)], ⟨oddMap, 1⟩, by decide, by decide⟩
  obtain ⟨r, hr, hlo, -⟩ := hsound.covered _ hout 0x1000
    (by decide) (by decide)
  obtain rfl : r = ⟨0x1800, 0x3000, .usable⟩ := List.mem_singleton.mp hr
  exact absurd hlo (by decide)

end Bayos.Memory
