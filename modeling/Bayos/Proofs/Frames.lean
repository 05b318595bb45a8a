/-
Frame ownership across the boot-to-bitmap handover: no physical frame
ever has two owners, whichever allocator handed it out.

# The shape of the argument

`numbering` is the list of frames both `usable_frames` iterators
produce, once no address on the map is too large for `PhysAddr::new`.
On a map of disjoint aligned regions it has no duplicates
(`numbering_nodup`), so a frame and its index determine each other:
`nth` and the linear search of `deallocate_frame` are inverse to one
another. The bitmap then stands in the relation `Lib.Bitmap.Marks` to
that numbering and to the frames in circulation, first through `init`
(`marks_init`) and then through every call (`frameInv_step`).
-/
import Mathlib.Data.List.Nodup
import Mathlib.Data.Finset.Card
import Mathlib.Data.Finset.Range
import Bayos.Lib.Run
import Bayos.Lib.Bitmap
import Bayos.Model.Memory

namespace Bayos.Memory

open Rust
open Lib (TransSys)
open Lib.Bitmap (Marks firstZero)

-- =========================================================== the numbering

/-- The Usable regions of the map. -/
def usable (mm : MemoryRegions) : MemoryRegions :=
  mm.filter (·.kind = .usable)

/-- The start of a frame that contains no bits above the 52nd. -/
def frameAt (addr : Nat) : PhysFrame :=
  ⟨addr - addr % 4096, by omega⟩

/-- The addresses the iterators step through. -/
def frameAddresses (mm : MemoryRegions) : List Nat :=
  (usable mm).flatMap fun r => stepBy r.start r.stop 4096

/-- The frames in iterator order. -/
def numbering (mm : MemoryRegions) : List PhysFrame :=
  (frameAddresses mm).map frameAt

/-- The addresses of two regions do not meet. -/
def MemoryRegion.Disjoint (r s : MemoryRegion) : Prop :=
  ∀ a, ¬ ((r.start ≤ a ∧ a < r.stop) ∧ (s.start ≤ a ∧ a < s.stop))

/-- Usable regions start and end on frame boundaries. -/
def Aligned (mm : MemoryRegions) : Prop :=
  ∀ r ∈ usable mm, r.start < r.stop →
    r.start % 4096 = 0 ∧ r.stop % 4096 = 0

/-- What is assumed of the bootloader: Usable regions on frame
boundaries, below the 52-bit limit, and pairwise disjoint. -/
structure WellFormed (mm : MemoryRegions) : Prop where
  aligned : ∀ r ∈ usable mm, r.start % 4096 = 0 ∧ r.stop % 4096 = 0
  below : ∀ r ∈ usable mm, r.stop ≤ 2 ^ 52
  disjoint : (usable mm).Pairwise MemoryRegion.Disjoint

/-- An address the iterators step through lies in its region. -/
theorem mem_step {r : MemoryRegion} {a : Nat}
    (ha : a ∈ stepBy r.start r.stop 4096) : r.start ≤ a ∧ a < r.stop := by
  obtain ⟨i, rfl, hlt⟩ := (mem_stepBy (by omega)).mp ha
  omega

/-- From an aligned start all steps are aligned. -/
theorem step_aligned {r : MemoryRegion} {a : Nat}
    (hr : r.start % 4096 = 0) (ha : a ∈ stepBy r.start r.stop 4096) :
    a % 4096 = 0 := by
  obtain ⟨i, rfl, -⟩ := (mem_stepBy (by omega)).mp ha
  omega

/-- Steps through aligned regions are aligned. -/
theorem Aligned.step {mm : MemoryRegions} (h : Aligned mm) {a : Nat}
    (ha : a ∈ frameAddresses mm) :
    a % 4096 = 0 ∧ ∃ r ∈ usable mm, r.stop % 4096 = 0
      ∧ r.start ≤ a ∧ a < r.stop := by
  obtain ⟨r, hr, har⟩ := List.mem_flatMap.mp ha
  have hbounds := mem_step har
  obtain ⟨hstart, hstop⟩ := h r hr (by omega)
  exact ⟨step_aligned hstart har, r, hr, hstop, hbounds⟩

theorem WellFormed.paged {mm : MemoryRegions} (hmm : WellFormed mm) :
    Aligned mm := fun r hr _ => hmm.aligned r hr

/-- `PhysAddr::new` accepts every address the iterators step through. -/
def AddressesFit (mm : MemoryRegions) : Prop :=
  ∀ a ∈ frameAddresses mm, a < 2 ^ 52

theorem WellFormed.fit {mm : MemoryRegions} (hmm : WellFormed mm) :
    AddressesFit mm := by
  intro a ha
  obtain ⟨r, hr, har⟩ := List.mem_flatMap.mp ha
  have := (mem_step har).2
  have := hmm.below r hr
  omega

/-- No element of the iterator panics. -/
theorem usableFramesOf_eq {mm : MemoryRegions} (hfit : AddressesFit mm) :
    usableFramesOf mm = (numbering mm).map .ok := by
  unfold usableFramesOf numbering
  rw [List.map_map]
  refine List.map_congr_left fun a ha => ?_
  have hnew : PhysAddr.new a = .ok ⟨a, hfit a ha⟩ := dif_pos (hfit a ha)
  rw [hnew]
  rfl

/-- What the sequence yields is the frame of the address stepped on. -/
theorem usableFramesOf_get {mm : MemoryRegions} {i : Nat} {f : PhysFrame}
    (h : (usableFramesOf mm)[i]? = some (Except.ok f)) :
    ∃ a, (frameAddresses mm)[i]? = some a ∧ f = frameAt a := by
  have hmap : ((frameAddresses mm)[i]?).map (fun addr => do
      let addr ← PhysAddr.new addr
      pure (PhysFrame.containingAddress addr)) = some (Except.ok f) := by
    rw [← List.getElem?_map]
    exact h
  obtain ⟨a, ha, hf⟩ := Option.map_eq_some_iff.mp hmap
  refine ⟨a, ha, ?_⟩
  by_cases hsmall : a < 2 ^ 52
  · have hnew : PhysAddr.new a = .ok ⟨a, hsmall⟩ := dif_pos hsmall
    rw [hnew] at hf
    exact (Except.ok.inj hf).symm
  · have hnew : PhysAddr.new a = .error _ := dif_neg hsmall
    rw [hnew] at hf
    cases hf

theorem stepBy_nodup (start stop : Nat) :
    (stepBy start stop 4096).Nodup := by
  unfold stepBy
  refine List.Nodup.map ?_ List.nodup_range
  intro i j hij
  have : start + 4096 * i = start + 4096 * j := hij
  omega

/-- Disjoint regions are stepped through without meeting. -/
theorem frameAddresses_nodup {mm : MemoryRegions}
    (hdisj : (usable mm).Pairwise MemoryRegion.Disjoint) :
    (frameAddresses mm).Nodup := by
  refine List.nodup_flatMap.mpr ⟨fun r _ => stepBy_nodup .., ?_⟩
  apply hdisj.imp
  intro r s hrs a ha hb
  exact hrs a ⟨mem_step ha, mem_step hb⟩

/-- Every frame is numbered once. -/
theorem numbering_nodup {mm : MemoryRegions}
    (hdisj : (usable mm).Pairwise MemoryRegion.Disjoint)
    (haligned : Aligned mm) : (numbering mm).Nodup := by
  refine List.Nodup.map_on ?_ (frameAddresses_nodup hdisj)
  intro a ha b hb heq
  have h1 := (haligned.step ha).1
  have h2 := (haligned.step hb).1
  have h3 : a - a % 4096 = b - b % 4096 := congrArg PhysFrame.startAddress heq
  omega

/-- There are fewer frames than addresses, so no frame counter wraps. -/
theorem numbering_length_lt {mm : MemoryRegions}
    (hdisj : (usable mm).Pairwise MemoryRegion.Disjoint)
    (hfit : AddressesFit mm) : (numbering mm).length < wordSize := by
  have hsub : (frameAddresses mm).toFinset ⊆ Finset.range (2 ^ 52) := by
    intro a ha
    exact Finset.mem_range.mpr (hfit a (List.mem_toFinset.mp ha))
  have hcard := Finset.card_le_card hsub
  rw [List.toFinset_card_of_nodup (frameAddresses_nodup hdisj),
    Finset.card_range] at hcard
  unfold numbering wordSize
  rw [List.length_map]
  omega

-- ============================================================== boot phase

/-- `k` calls of the boot allocator's `allocate_frame`, with what they
returned. -/
def bootCalls : Nat → BootInfoFrameAllocator →
    Except Panic (List (Option PhysFrame) × BootInfoFrameAllocator)
  | 0, self => pure ([], self)
  | k + 1, self => do
      let (frame, self) ← self.allocateFrame
      let (frames, self) ← bootCalls k self
      pure (frame :: frames, self)

/-- The counter walks the numbering: `k` calls from position `n` return
its next `k` entries. -/
theorem bootCalls_eq {mm : MemoryRegions} (hfit : AddressesFit mm) :
    ∀ (k n : Nat), n + k < wordSize →
      bootCalls k ⟨mm, n⟩
        = .ok ((List.range' n k).map ((numbering mm)[·]?), ⟨mm, n + k⟩) := by
  intro k
  induction k with
  | zero => intro n _; rfl
  | succ k ih =>
      intro n hw
      have hone : (⟨mm, n⟩ : BootInfoFrameAllocator).allocateFrame
          = .ok ((numbering mm)[n]?, ⟨mm, n + 1⟩) := by
        unfold BootInfoFrameAllocator.allocateFrame
          BootInfoFrameAllocator.usableFrames
        simp only [usableFramesOf_eq hfit, Iter.nth_map_ok, ok_bind,
          Usize.add_eq (show n + 1 < wordSize by omega), pure_eq_ok]
      unfold bootCalls
      rw [hone, ok_bind]
      simp only [ih (n + 1) (by omega), ok_bind, pure_eq_ok]
      rw [List.range'_succ, List.map_cons,
        show n + 1 + k = n + (k + 1) by omega]

/-- Asking for no more frames than there are returns exactly the first
`k` of the numbering. -/
theorem bootCalls_take {mm : MemoryRegions} (hfit : AddressesFit mm)
    (hw : (numbering mm).length < wordSize) {k : Nat}
    (hk : k ≤ (numbering mm).length) :
    bootCalls k (.init mm)
      = .ok (((numbering mm).take k).map some, ⟨mm, k⟩) := by
  unfold BootInfoFrameAllocator.init
  rw [bootCalls_eq hfit k 0 (by omega), Nat.zero_add]
  congr 2
  refine List.ext_getElem (by simp [hk]) fun i h₁ h₂ => ?_
  have hi : i < (numbering mm).length := by
    simp only [List.length_map, List.length_take] at h₂
    omega
  simp [List.getElem?_eq_getElem hi]

-- ================================================================ handover

/-- Setting the bits of a run of resources marks them held. -/
theorem setBits_marks {num : List PhysFrame} (hnum : num.Nodup) :
    ∀ (n i : Nat) (bits : List Bool) (held : List PhysFrame),
      Marks num bits held → i + n ≤ num.length →
      (∀ j, i ≤ j → j < num.length → bits[j]? = some false) →
      ∃ bits', setBits bits i n = .ok bits'
        ∧ Marks num bits' (((num.drop i).take n).reverse ++ held) := by
  intro n
  induction n with
  | zero => intro i bits held h _ _; exact ⟨bits, rfl, by simpa using h⟩
  | succ n ih =>
      intro i bits held h hlen hclear
      have hi : i < num.length := by omega
      have hib : i < bits.length := h.length ▸ hi
      have hget : num[i]? = some num[i] := List.getElem?_eq_getElem hi
      have hset : setBit bits i true = .ok (bits.set i true) := if_pos hib
      have hmarks := h.take hnum (hclear i (Nat.le_refl i) hi) hget
      obtain ⟨bits', hrun, hmarks'⟩ := ih (i + 1) _ _ hmarks (by omega) (by
        intro j hij hj
        rw [List.getElem?_set_ne (by omega)]
        exact hclear j (by omega) hj)
      refine ⟨bits', ?_, ?_⟩
      · unfold setBits
        rw [hset, ok_bind, hrun]
      · rw [List.drop_eq_getElem_cons hi, List.take_succ_cons,
          List.reverse_cons, List.append_assoc]
        exact hmarks'

theorem frames_eq {mm : MemoryRegions} (hfit : AddressesFit mm) (k : Nat) :
    (⟨mm, k⟩ : BootInfoFrameAllocator).frames
      = .ok (numbering mm).length := by
  unfold BootInfoFrameAllocator.frames BootInfoFrameAllocator.usableFrames
  rw [usableFramesOf_eq hfit, Iter.count_map_ok]

/-- `BitmapAllocator::init` marks exactly the boot frames. -/
theorem marks_init {mm : MemoryRegions} (hmm : WellFormed mm) {k : Nat}
    (hk : k ≤ (numbering mm).length) :
    ∃ bits, BitmapAllocator.init ⟨mm, k⟩ = .ok ⟨mm, bits⟩
      ∧ Marks (numbering mm) bits ((numbering mm).take k) := by
  have hcount := frames_eq hmm.fit k
  have hnodup := numbering_nodup hmm.disjoint hmm.paged
  obtain ⟨bits, hset, hmarks⟩ := setBits_marks hnodup k 0 _ []
    (Marks.clear (numbering mm)) (by omega) (by
      intro j _ hj
      exact List.getElem?_replicate_of_lt hj)
  refine ⟨bits, ?_, ?_⟩
  · unfold BitmapAllocator.init
    rw [hcount, ok_bind]
    simp only [hset, ok_bind, pure_eq_ok]
  · apply hmarks.perm
    rw [List.drop_zero, List.append_nil]
    exact List.reverse_perm _

-- ================================================================= the run

/-- The bitmap allocator and the frames in circulation. -/
structure Frames where
  alloc : BitmapAllocator
  handed : List PhysFrame

/-- The calls of a run; `allocate` carries what it returned. -/
inductive FrameCall
  | allocate (ret : Option PhysFrame)
  | deallocate (frame : PhysFrame)

/-- `k` boot allocations, the handover, and then any calls in which only
frames in circulation are returned. -/
def frameSys (mm : MemoryRegions) (k : Nat) : TransSys Frames FrameCall where
  init s := ∃ frames boot, bootCalls k (.init mm) = .ok (frames, boot)
    ∧ BitmapAllocator.init boot = .ok s.alloc
    ∧ s.handed = frames.filterMap id
  step s call s' :=
    match call with
    | .allocate ret => s.alloc.allocateFrame = .ok (ret, s'.alloc)
        ∧ s'.handed = ret.toList ++ s.handed
    | .deallocate frame => frame ∈ s.handed
        ∧ s.alloc.deallocateFrame frame = .ok s'.alloc
        ∧ s'.handed = s.handed.erase frame

/-- The bitmap marks exactly the frames in circulation. -/
structure FrameInv (mm : MemoryRegions) (s : Frames) : Prop where
  map : s.alloc.memoryMap = mm
  marks : Marks (numbering mm) s.alloc.bitmap s.handed

theorem frameInv_init {mm : MemoryRegions} (hmm : WellFormed mm) {k : Nat}
    (hk : k ≤ (numbering mm).length) {s : Frames}
    (hinit : (frameSys mm k).init s) : FrameInv mm s := by
  obtain ⟨frames, boot, hboot, hbm, hhanded⟩ := hinit
  have hw := numbering_length_lt hmm.disjoint hmm.fit
  rw [bootCalls_take hmm.fit hw hk] at hboot
  obtain ⟨rfl, rfl⟩ := Prod.mk.inj (Except.ok.inj hboot)
  obtain ⟨bits, hbits, hmarks⟩ := marks_init hmm hk
  rw [hbits] at hbm
  have halloc := Except.ok.inj hbm
  refine ⟨by rw [← halloc], ?_⟩
  rw [hhanded, List.filterMap_map, ← halloc]
  rw [show (id ∘ some : PhysFrame → Option PhysFrame) = some from rfl,
    List.filterMap_some]
  exact hmarks

/-- What `allocate_frame` does while the bitmap is in order: nothing when
every bit is set, and otherwise the frame of the first clear bit. -/
theorem allocateFrame_spec {mm : MemoryRegions} (hmm : WellFormed mm)
    {s : Frames} (hinv : FrameInv mm s) :
    (s.alloc.allocateFrame = .ok (none, s.alloc)
      ∧ ∀ f ∈ numbering mm, f ∈ s.handed)
    ∨ ∃ i f, s.alloc.bitmap[i]? = some false
      ∧ (numbering mm)[i]? = some f ∧ f ∉ s.handed
      ∧ s.alloc.allocateFrame
          = .ok (some f, { s.alloc with
              bitmap := s.alloc.bitmap.set i true }) := by
  unfold BitmapAllocator.allocateFrame
  cases hfirst : firstZero s.alloc.bitmap with
  | none => exact Or.inl ⟨rfl, hinv.marks.full_iff.mp hfirst⟩
  | some i =>
      have hclear := Lib.Bitmap.firstZero_eq_some hfirst
      obtain ⟨f, hf, hfree⟩ := hinv.marks.free hclear
      have hlt := (List.getElem?_eq_some_iff.mp hclear).1
      have hset : setBit s.alloc.bitmap i true
          = .ok (s.alloc.bitmap.set i true) := if_pos hlt
      refine Or.inr ⟨i, f, hclear, hf, hfree, ?_⟩
      simp only [hset, ok_bind, BitmapAllocator.usableFrames, hinv.map,
        usableFramesOf_eq hmm.fit, Iter.nth_map_ok, hf, pure_eq_ok]

/-- A frame in circulation is found by the search of `deallocate_frame`,
at its own index. -/
theorem deallocateFrame_spec {mm : MemoryRegions} (hmm : WellFormed mm)
    {s : Frames} (hinv : FrameInv mm s) {f : PhysFrame}
    (hf : f ∈ s.handed) :
    ∃ i, (numbering mm)[i]? = some f
      ∧ s.alloc.deallocateFrame f
          = .ok { s.alloc with bitmap := s.alloc.bitmap.set i false } := by
  have hmem := hinv.marks.known f hf
  cases hidx : (numbering mm).findIdx? (· == f) with
  | none =>
      have := List.findIdx?_eq_none_iff.mp hidx f hmem
      simp at this
  | some i =>
      obtain ⟨hlt, heq, -⟩ := List.findIdx?_eq_some_iff_getElem.mp hidx
      have hget : (numbering mm)[i]? = some f := by
        rw [List.getElem?_eq_getElem hlt, eq_of_beq heq]
      have hset : setBit s.alloc.bitmap i false
          = .ok (s.alloc.bitmap.set i false) :=
        if_pos (hinv.marks.length ▸ hlt)
      refine ⟨i, hget, ?_⟩
      unfold BitmapAllocator.deallocateFrame BitmapAllocator.usableFrames
      simp only [hinv.map, usableFramesOf_eq hmm.fit, Iter.findIdx_map_ok,
        hidx, Option.map_some, Nat.add_zero, ok_bind, expect_some, hset,
        pure_eq_ok]

/-- One call keeps the bitmap in order. -/
theorem frameInv_step {mm : MemoryRegions} (hmm : WellFormed mm) {k : Nat}
    {s s' : Frames} {call : FrameCall} (hinv : FrameInv mm s)
    (hstep : (frameSys mm k).step s call s') : FrameInv mm s' := by
  have hnodup := numbering_nodup hmm.disjoint hmm.paged
  cases call with
  | allocate ret =>
      obtain ⟨halloc, hhanded⟩ := hstep
      rcases allocateFrame_spec hmm hinv with
        ⟨hnone, -⟩ | ⟨i, f, hclear, hf, -, hsome⟩
      · rw [hnone] at halloc
        obtain ⟨rfl, ha⟩ := Prod.mk.inj (Except.ok.inj halloc)
        refine ⟨ha ▸ hinv.map, ?_⟩
        rw [hhanded, ← ha]
        exact hinv.marks
      · rw [hsome] at halloc
        obtain ⟨rfl, ha⟩ := Prod.mk.inj (Except.ok.inj halloc)
        refine ⟨ha ▸ hinv.map, ?_⟩
        rw [hhanded, ← ha]
        exact hinv.marks.take hnodup hclear hf
  | deallocate f =>
      obtain ⟨hf, hdealloc, hhanded⟩ := hstep
      obtain ⟨i, hget, hok⟩ := deallocateFrame_spec hmm hinv hf
      rw [hok] at hdealloc
      have ha := Except.ok.inj hdealloc
      refine ⟨ha ▸ hinv.map, ?_⟩
      rw [hhanded, ← ha]
      exact hinv.marks.give hnodup hget

theorem frameInv_run {mm : MemoryRegions} (hmm : WellFormed mm) {k : Nat}
    (hk : k ≤ (numbering mm).length)
    {es : List FrameCall} {s : Frames} (hrun : (frameSys mm k).Run es s) :
    FrameInv mm s :=
  hrun.invariant (fun _ => frameInv_init hmm hk)
    fun _ _ _ hinv hstep => frameInv_step hmm hinv hstep

-- ============================================================= the results

/-- The set bits are the indices of the frames in circulation. -/
theorem bit_iff {mm : MemoryRegions} {s : Frames} (hinv : FrameInv mm s)
    (i : Nat) :
    s.alloc.bitmap[i]? = some true
      ↔ ∃ f ∈ s.handed, (numbering mm)[i]? = some f := by
  constructor
  · intro hbit
    obtain ⟨hlt, -⟩ := List.getElem?_eq_some_iff.mp hbit
    have hget := List.getElem?_eq_getElem
      (show i < (numbering mm).length from hinv.marks.length ▸ hlt)
    exact ⟨_, (hinv.marks.bit hget).mp hbit, hget⟩
  · intro hf
    obtain ⟨f, hf, hget⟩ := hf
    exact (hinv.marks.bit hget).mpr hf

/-- One owner per frame. Both iterators number the usable frames without
duplicates; `k` boot calls return the first `k` of them and `init` takes
over without panicking; and after any further calls that return only
frames in circulation: no frame is in circulation twice, the set bits are
exactly the indices of the frames in circulation, `allocate_frame`
returns a frame out of circulation, or nothing exactly when all are in
it, and `deallocate_frame` finds every frame it may be handed. -/
theorem frame_ownership (mm : MemoryRegions) (hmm : WellFormed mm) (k : Nat)
    (hk : k ≤ (numbering mm).length) :
    (usableFramesOf mm = (numbering mm).map .ok ∧ (numbering mm).Nodup)
    ∧ (∃ boot alloc,
        bootCalls k (.init mm)
          = .ok (((numbering mm).take k).map some, boot)
        ∧ BitmapAllocator.init boot = .ok alloc)
    ∧ ∀ es s, (frameSys mm k).Run es s →
        s.handed.Nodup
        ∧ (∀ i : Nat, s.alloc.bitmap[i]? = some true
            ↔ ∃ f ∈ s.handed, (numbering mm)[i]? = some f)
        ∧ (∃ ret alloc, s.alloc.allocateFrame = .ok (ret, alloc)
            ∧ (∀ f, ret = some f → f ∉ s.handed)
            ∧ (ret = none ↔ ∀ f ∈ numbering mm, f ∈ s.handed))
        ∧ (∀ f ∈ s.handed,
            ∃ alloc, s.alloc.deallocateFrame f = .ok alloc) := by
  have hnodup := numbering_nodup hmm.disjoint hmm.paged
  refine ⟨⟨usableFramesOf_eq hmm.fit, hnodup⟩, ?_, ?_⟩
  · obtain ⟨bits, hbits, -⟩ := marks_init hmm hk
    have hw := numbering_length_lt hmm.disjoint hmm.fit
    exact ⟨_, _, bootCalls_take hmm.fit hw hk, hbits⟩
  · intro es s hrun
    have hinv := frameInv_run hmm hk hrun
    refine ⟨hinv.marks.nodup, bit_iff hinv, ?_, ?_⟩
    · rcases allocateFrame_spec hmm hinv with
        ⟨hnone, hall⟩ | ⟨i, f, -, hf, hfree, hsome⟩
      · exact ⟨none, _, hnone, by simp, by simpa using hall⟩
      · refine ⟨some f, _, hsome, ?_, ?_⟩
        · intro g hg
          rw [← Option.some.inj hg]
          exact hfree
        · constructor
          · intro h
            cases h
          · intro hall
            exact absurd (hall f (List.mem_of_getElem? hf)) hfree
    · intro f hf
      obtain ⟨i, -, hok⟩ := deallocateFrame_spec hmm hinv hf
      exact ⟨_, hok⟩

/-- A map of one two-frame region. -/
def twoFrames : MemoryRegions := [⟨4096, 12288, .usable⟩]

theorem twoFrames_wellFormed : WellFormed twoFrames where
  aligned := by decide
  below := by decide
  disjoint := List.pairwise_singleton ..

/-- Two regions of two frames, with one of the bootloader's between. -/
def fourFrames : MemoryRegions :=
  [⟨4096, 12288, .usable⟩, ⟨12288, 20480, .bootloader⟩,
    ⟨20480, 28672, .usable⟩]

theorem fourFrames_wellFormed : WellFormed fourFrames where
  aligned := by decide
  below := by decide
  disjoint := by
    have husable : usable fourFrames
        = [⟨4096, 12288, .usable⟩, ⟨20480, 28672, .usable⟩] := rfl
    rw [husable, List.pairwise_pair]
    intro a h
    dsimp only at h
    omega

/-- After the handover of one boot frame a second one is taken, and the boot
frame is returned and taken again. -/
theorem run_recycled : (frameSys fourFrames 1).Run
    ([] ++ [.allocate (some (frameAt 8192))]
      ++ [.deallocate (frameAt 4096)]
      ++ [.allocate (some (frameAt 4096))])
    ⟨⟨fourFrames, [true, true, false, false]⟩,
      [frameAt 4096, frameAt 8192]⟩ := by
  have hstart : (frameSys fourFrames 1).Run []
      ⟨⟨fourFrames, [true, false, false, false]⟩, [frameAt 4096]⟩ :=
    .start ⟨[some (frameAt 4096)], ⟨fourFrames, 1⟩, by decide, by decide,
      by decide⟩
  have hsecond : (frameSys fourFrames 1).Run
      ([] ++ [.allocate (some (frameAt 8192))])
      ⟨⟨fourFrames, [true, true, false, false]⟩,
        [frameAt 8192, frameAt 4096]⟩ :=
    hstart.step ⟨by decide, rfl⟩
  have hreturned : (frameSys fourFrames 1).step
      ⟨⟨fourFrames, [true, true, false, false]⟩,
        [frameAt 8192, frameAt 4096]⟩
      (.deallocate (frameAt 4096))
      ⟨⟨fourFrames, [false, true, false, false]⟩, [frameAt 8192]⟩ :=
    ⟨by decide, by decide, by decide⟩
  exact (hsecond.step hreturned).step ⟨by decide, rfl⟩

/-- The next frame then comes from the second region. -/
theorem frame_ownership_recycled :
    ∃ ret alloc,
      BitmapAllocator.allocateFrame
          ⟨fourFrames, [true, true, false, false]⟩ = .ok (ret, alloc)
      ∧ (∀ f, ret = some f → f ∉ [frameAt 4096, frameAt 8192])
      ∧ (ret = none
        ↔ ∀ f ∈ numbering fourFrames, f ∈ [frameAt 4096, frameAt 8192]) := by
  have hstate := (frame_ownership fourFrames fourFrames_wellFormed 1
    (by decide)).2.2 _ _ run_recycled
  exact hstate.2.2.1

end Bayos.Memory
