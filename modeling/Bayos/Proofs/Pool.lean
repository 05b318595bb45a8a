/-
The bitmap allocator as a pool: which frames are still to be had, and
how many, before and after frames are taken from it.

# Free frames

A frame is free while the bit of its number is clear. An allocation that
returns a frame takes it out of the pool and leaves every other frame as
it was, whoever asks: a loop that maps pages, or the mapper for its own
tables. So much needs no assumption on the bitmap (`allocate_some`); that
the frame cannot come back needs a numbering without duplicates.
-/
import Mathlib.Data.List.Count
import Bayos.Lib.Paging
import Bayos.Proofs.Frames

namespace Bayos.Memory

open Rust
open Lib.Bitmap (firstZero firstZero_eq_none firstZero_eq_some)
open Lib.Paging (Takes Calls)

/-- The frame of a clear bit. -/
def Free (fr : BitmapAllocator) (f : PhysFrame) : Prop :=
  ∃ i : Nat, fr.bitmap[i]? = some false
    ∧ (numbering fr.memoryMap)[i]? = some f

/-- The number of clear bits. -/
def freeCount (fr : BitmapAllocator) : Nat := fr.bitmap.count false

-- ============================================================== allocation

/-- What an allocation does, whatever it returns: nothing when no bit is
clear, and else it sets a clear bit and returns the frame of its number,
if it returns one. -/
theorem allocate_spec {fr fr' : BitmapAllocator} {o : Option PhysFrame}
    (h : fr.allocateFrame = .ok (o, fr')) :
    (firstZero fr.bitmap = none ∧ o = none ∧ fr' = fr)
      ∨ ∃ i : Nat, fr.bitmap[i]? = some false
        ∧ fr' = { fr with bitmap := fr.bitmap.set i true }
        ∧ ∀ f, o = some f → (numbering fr.memoryMap)[i]? = some f := by
  unfold BitmapAllocator.allocateFrame at h
  cases hfirst : firstZero fr.bitmap with
  | none =>
      simp only [hfirst, pure_eq_ok] at h
      cases h
      exact .inl ⟨rfl, rfl, rfl⟩
  | some i =>
      simp only [hfirst] at h
      have hclear := firstZero_eq_some hfirst
      have hlt := (List.getElem?_eq_some_iff.mp hclear).1
      have hset : setBit fr.bitmap i true = .ok (fr.bitmap.set i true) :=
        if_pos hlt
      rw [hset, ok_bind] at h
      obtain ⟨frame, hnth, hret⟩ := bind_eq_ok.mp h
      obtain ⟨rfl, rfl⟩ := Prod.mk.inj (Except.ok.inj hret)
      refine .inr ⟨i, hclear, rfl, fun f hf => ?_⟩
      subst hf
      obtain ⟨a, ha, rfl⟩ := usableFramesOf_get (Iter.nth_eq_some hnth)
      unfold numbering
      rw [List.getElem?_map, ha]
      rfl

/-- An allocation that returns a frame sets a clear bit, that of the
frame. -/
theorem allocate_some {fr fr' : BitmapAllocator} {f : PhysFrame}
    (h : fr.allocateFrame = .ok (some f, fr')) :
    ∃ i : Nat, fr.bitmap[i]? = some false
      ∧ (numbering fr.memoryMap)[i]? = some f
      ∧ fr' = { fr with bitmap := fr.bitmap.set i true } := by
  rcases allocate_spec h with ⟨-, hf, -⟩ | ⟨i, hclear, rfl, hf⟩
  · cases hf
  · exact ⟨i, hclear, hf f rfl, rfl⟩

theorem allocate_map {fr fr' : BitmapAllocator} {f : PhysFrame}
    (h : fr.allocateFrame = .ok (some f, fr')) :
    fr'.memoryMap = fr.memoryMap := by
  obtain ⟨i, -, -, rfl⟩ := allocate_some h
  rfl

theorem allocate_free {fr fr' : BitmapAllocator} {f : PhysFrame}
    (h : fr.allocateFrame = .ok (some f, fr')) : Free fr f := by
  obtain ⟨i, hclear, hf, -⟩ := allocate_some h
  exact ⟨i, hclear, hf⟩

/-- Nothing becomes free. -/
theorem allocate_mono {fr fr' : BitmapAllocator} {f g : PhysFrame}
    (h : fr.allocateFrame = .ok (some f, fr')) (hg : Free fr' g) :
    Free fr g := by
  obtain ⟨i, -, -, rfl⟩ := allocate_some h
  obtain ⟨j, hj, hnum⟩ := hg
  refine ⟨j, ?_, hnum⟩
  by_cases hij : i = j
  · subst hij
    rw [List.getElem?_set_self'] at hj
    cases hbit : fr.bitmap[i]? with
    | none => rw [hbit] at hj; cases hj
    | some b => rw [hbit] at hj; cases hj
  · rw [List.getElem?_set_ne hij] at hj
    exact hj

/-- The frame returned is no longer free. -/
theorem allocate_taken {fr fr' : BitmapAllocator} {f : PhysFrame}
    (hnum : (numbering fr.memoryMap).Nodup)
    (h : fr.allocateFrame = .ok (some f, fr')) : ¬ Free fr' f := by
  obtain ⟨i, hclear, hf, rfl⟩ := allocate_some h
  intro hparts
  rcases hparts with ⟨j, hj, hg⟩
  have hlt := (List.getElem?_eq_some_iff.mp hf).1
  have hij : i = j := (List.getElem?_inj hlt hnum).mp (hf.trans hg.symm)
  subst hij
  rw [List.getElem?_set_self (List.getElem?_eq_some_iff.mp hclear).1] at hj
  cases hj

-- ========================================================= several at once

theorem takes_map {n : Nat} {fr fr' : BitmapAllocator}
    (h : Takes BitmapAllocator.allocateFrame n fr fr') :
    fr'.memoryMap = fr.memoryMap := by
  induction h with
  | zero => rfl
  | succ halloc _ ih => exact ih.trans (allocate_map halloc)

theorem takes_mono {n : Nat} {fr fr' : BitmapAllocator} {g : PhysFrame}
    (h : Takes BitmapAllocator.allocateFrame n fr fr') (hg : Free fr' g) :
    Free fr g := by
  induction h with
  | zero => exact hg
  | succ halloc _ ih => exact allocate_mono halloc (ih hg)

-- ================================================================ counting

/-- The bitmap is as long as the numbering, and no address on the map is
too large: what `BitmapAllocator::init` leaves behind. -/
structure Sized (fr : BitmapAllocator) : Prop where
  fit : AddressesFit fr.memoryMap
  length : fr.bitmap.length = (numbering fr.memoryMap).length

theorem Sized.allocate {fr fr' : BitmapAllocator} {f : PhysFrame}
    (hs : Sized fr) (h : fr.allocateFrame = .ok (some f, fr')) :
    Sized fr' := by
  obtain ⟨i, -, -, rfl⟩ := allocate_some h
  refine ⟨hs.fit, ?_⟩
  rw [List.length_set]
  exact hs.length

theorem Sized.takes {n : Nat} {fr fr' : BitmapAllocator} (hs : Sized fr)
    (h : Takes BitmapAllocator.allocateFrame n fr fr') : Sized fr' := by
  induction h with
  | zero => exact hs
  | succ halloc _ ih => exact ih (hs.allocate halloc)

/-- An allocation takes one frame from the pool. -/
theorem allocate_count {fr fr' : BitmapAllocator} {f : PhysFrame}
    (h : fr.allocateFrame = .ok (some f, fr')) :
    freeCount fr = freeCount fr' + 1 := by
  obtain ⟨i, hclear, -, rfl⟩ := allocate_some h
  obtain ⟨hlt, hbit⟩ := List.getElem?_eq_some_iff.mp hclear
  have hpos : 0 < fr.bitmap.count false :=
    List.count_pos_iff.mpr (hbit ▸ List.getElem_mem hlt)
  show fr.bitmap.count false = (fr.bitmap.set i true).count false + 1
  have hset := List.count_set (b := false) (a := true) hlt
  rw [hbit, if_pos (beq_self_eq_true _), if_neg (by decide)] at hset
  omega

theorem takes_count {n : Nat} {fr fr' : BitmapAllocator}
    (h : Takes BitmapAllocator.allocateFrame n fr fr') :
    freeCount fr = freeCount fr' + n := by
  induction h with
  | zero => rfl
  | succ halloc _ ih =>
      have := allocate_count halloc
      omega

/-- As long as a frame is free, an allocation returns one. -/
theorem Sized.allocate_exists {fr : BitmapAllocator} (hs : Sized fr)
    (hpos : 0 < freeCount fr) :
    ∃ f fr', fr.allocateFrame = .ok (some f, fr') := by
  unfold BitmapAllocator.allocateFrame
  cases hfirst : firstZero fr.bitmap with
  | none =>
      have hall := firstZero_eq_none.mp hfirst
      have hmem : false ∈ fr.bitmap := List.count_pos_iff.mp hpos
      cases hall false hmem
  | some i =>
      have hclear := firstZero_eq_some hfirst
      have hlt := (List.getElem?_eq_some_iff.mp hclear).1
      have hset : setBit fr.bitmap i true = .ok (fr.bitmap.set i true) :=
        if_pos hlt
      obtain ⟨f, hget⟩ : ∃ f, (numbering fr.memoryMap)[i]? = some f :=
        ⟨_, List.getElem?_eq_getElem (hs.length ▸ hlt)⟩
      refine ⟨f, { fr with bitmap := fr.bitmap.set i true }, ?_⟩
      simp only [hset, ok_bind, BitmapAllocator.usableFrames,
        usableFramesOf_eq hs.fit, Iter.nth_map_ok, hget, pure_eq_ok]

/-- The numbers of the frames that are marked allocated. -/
def allocated (fr : BitmapAllocator) : Set Nat :=
  {i | fr.bitmap[i]? = some true}

/-- What was marked allocated still is, and some frame more. -/
structure Spends (fr fr' : BitmapAllocator) : Prop where
  keeps : allocated fr ⊆ allocated fr'
  takes : ∃ i ∈ allocated fr', i ∉ allocated fr

theorem Spends.trans_subset {fr fr₁ fr' : BitmapAllocator}
    (h : Spends fr fr₁) (hsub : allocated fr₁ ⊆ allocated fr') :
    Spends fr fr' := by
  obtain ⟨i, hi, hnot⟩ := h.takes
  exact ⟨h.keeps.trans hsub, i, hsub hi, hnot⟩

theorem Spends.ne {fr fr' : BitmapAllocator} (h : Spends fr fr') :
    allocated fr' ≠ allocated fr := by
  obtain ⟨i, hi, hnot⟩ := h.takes
  intro heq
  exact hnot (heq ▸ hi)

/-- An allocation, whatever it returns: all frames were allocated and it
changes nothing, or it marks one more. -/
theorem allocate_cases {fr fr' : BitmapAllocator} {o : Option PhysFrame}
    (h : fr.allocateFrame = .ok (o, fr')) :
    (freeCount fr = 0 ∧ o = none ∧ fr' = fr)
      ∨ (freeCount fr ≠ 0 ∧ Spends fr fr') := by
  rcases allocate_spec h with ⟨hfirst, ho, hfr⟩ | ⟨i, hclear, rfl, -⟩
  · refine .inl ⟨?_, ho, hfr⟩
    refine List.count_eq_zero.mpr fun hmem => ?_
    cases firstZero_eq_none.mp hfirst false hmem
  · have hlt := (List.getElem?_eq_some_iff.mp hclear).1
    refine .inr ⟨?_, fun j hj => ?_, i, ?_, ?_⟩
    · exact Nat.ne_of_gt
        (List.count_pos_iff.mpr (List.mem_of_getElem? hclear))
    · by_cases hij : i = j
      · subst hij
        exact List.getElem?_set_self hlt
      · exact (List.getElem?_set_ne hij).trans hj
    · exact List.getElem?_set_self hlt
    · intro hi
      rw [show fr.bitmap[i]? = some true from hi] at hclear
      cases hclear

/-- So do any number of them. -/
theorem calls_allocated {fr fr' : BitmapAllocator}
    (h : Calls BitmapAllocator.allocateFrame fr fr') :
    allocated fr ⊆ allocated fr' := by
  induction h with
  | refl => exact subset_refl _
  | tail _ hone ih =>
      obtain ⟨o, halloc⟩ := hone
      rcases allocate_cases halloc with ⟨-, -, rfl⟩ | ⟨-, hmore⟩
      · exact ih
      · exact ih.trans hmore.keeps

theorem Sized.takes_exists {n : Nat} :
    ∀ {fr : BitmapAllocator}, Sized fr → n ≤ freeCount fr →
      ∃ fr', Takes BitmapAllocator.allocateFrame n fr fr' := by
  induction n with
  | zero => intro fr _ _; exact ⟨fr, .zero⟩
  | succ n ih =>
      intro fr hs hn
      obtain ⟨f, fr₁, halloc⟩ := hs.allocate_exists (by omega)
      have hcount := allocate_count halloc
      obtain ⟨fr', htakes⟩ := ih (hs.allocate halloc) (by omega)
      exact ⟨fr', .succ halloc htakes⟩

-- ========================================================== the first pool

theorem setBit_length {bits bits' : List Bool} {i : Nat} {b : Bool}
    (h : setBit bits i b = .ok bits') : bits'.length = bits.length := by
  unfold setBit at h
  split at h
  · rw [← Except.ok.inj h, List.length_set]
  · cases h

theorem setBits_length :
    ∀ {n i : Nat} {bits bits' : List Bool},
      setBits bits i n = .ok bits' → bits'.length = bits.length := by
  intro n
  induction n with
  | zero =>
      intro i bits bits' h
      rw [Except.ok.inj h]
  | succ n ih =>
      intro i bits bits' h
      obtain ⟨mid, hset, hrest⟩ := bind_eq_ok.mp h
      exact (ih hrest).trans (setBit_length hset)

/-- Counting the frames runs through every address of the map. -/
theorem fit_of_frames {old : BootInfoFrameAllocator} {n : Nat}
    (h : old.frames = .ok n) :
    AddressesFit old.memoryMap ∧ n = (numbering old.memoryMap).length := by
  have hcount : ∀ (as : List Nat) (n : Nat),
      Iter.count (as.map fun addr => do
        let addr ← PhysAddr.new addr
        pure (PhysFrame.containingAddress addr)) = .ok n →
      (∀ a ∈ as, a < 2 ^ 52) ∧ n = as.length := by
    intro as
    induction as with
    | nil =>
        intro n hn
        exact ⟨by simp, (Except.ok.inj hn).symm⟩
    | cons a as ih =>
        intro n hn
        obtain ⟨f, hf, hrest⟩ := bind_eq_ok.mp hn
        obtain ⟨m, hm, hret⟩ := bind_eq_ok.mp hrest
        obtain ⟨hall, rfl⟩ := ih m hm
        obtain ⟨addr, hnew, -⟩ := bind_eq_ok.mp hf
        unfold PhysAddr.new at hnew
        split at hnew
        · next hsmall =>
            refine ⟨?_, (Except.ok.inj hret).symm⟩
            intro b hb
            rcases List.mem_cons.mp hb with rfl | hb
            · exact hsmall
            · exact hall b hb
        · cases hnew
  obtain ⟨hall, hn⟩ := hcount _ _ h
  refine ⟨hall, ?_⟩
  unfold numbering
  rw [List.length_map]
  exact hn

/-- The bitmap allocator is of the right size from `init` on. -/
theorem sized_init {old : BootInfoFrameAllocator} {fr : BitmapAllocator}
    (h : BitmapAllocator.init old = .ok fr) : Sized fr := by
  obtain ⟨n, hframes, hmark⟩ := bind_eq_ok.mp h
  obtain ⟨bits, hset, hret⟩ := bind_eq_ok.mp hmark
  obtain ⟨hfit, rfl⟩ := fit_of_frames hframes
  rw [← Except.ok.inj hret]
  refine ⟨hfit, ?_⟩
  rw [setBits_length hset, List.length_replicate]

end Bayos.Memory
