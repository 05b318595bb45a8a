/-
Which allocations fail cleanly. Rust admits any alignment up to `2^63`
and any size whose rounding up to it fits in `isize`; the heap gets
through two kinds of layouts only by panicking.

- `size_align` rounds the size to the node's alignment as well, and a
  size within seven bytes of `isize::MAX` has no such rounding.
- `align_up` adds the alignment to a region's address unchecked. The heap
  ends `2^31` bytes below the top of the address space, so any larger
  alignment takes the sum past the top at the first region looked at. The
  sum after it, with the size, is checked (`allocFromRegion`).
-/
import Bayos.Proofs.Conservation

namespace Bayos.Allocator

open Rust
open Lib (Span TransSys)

-- ================================================================ the runs

/-- The heap under any callers: every layout Rust admits. -/
def callerSys : TransSys Heap Call where
  init h := init .new heapStart heapSize = .ok h.allocator ∧ h.live = []
  step h call h' :=
    match call with
    | .alloc l ret => alloc h.allocator l = .ok (ret, h'.allocator)
        ∧ h'.live = takeBlock h.live l ret
    | .dealloc p l => (⟨p, l⟩ : Block) ∈ h.live
        ∧ dealloc h.allocator p l = .ok h'.allocator
        ∧ h'.live = h.live.erase ⟨p, l⟩

-- ======================================================== large alignments

/-- A power of two above `2^31` is twice that at least. -/
theorem le_of_pow2_gt {a : Nat} (hp : a.isPowerOfTwo) (h : 2 ^ 31 < a) :
    2 ^ 32 ≤ a := by
  obtain ⟨k, rfl⟩ := hp
  have hk : 31 < k := (Nat.pow_lt_pow_iff_right (by omega)).mp h
  exact Nat.pow_le_pow_right (by omega) hk

/-- Rounding the address of a region to such an alignment overflows. -/
theorem allocFromRegion_overflows {n : ListNode} (h : n.Ok) (size : Nat)
    {align : Nat} (hle : 2 ^ 32 ≤ align) :
    allocFromRegion n size align = .error .overflow := by
  have hlow : heapStart ≤ n.startAddr := h.bounds.1
  have hstart : heapStart = 0xffffffff7fe00000 := by decide
  have hsum : Usize.add n.startAddr align = .error .overflow := by
    refine if_neg ?_
    unfold wordSize
    omega
  unfold allocFromRegion alignUp
  rw [hsum]
  rfl

/-- So the search for a region gets past an empty list only. -/
theorem findRegion_overflows {chain : List ListNode}
    (hok : ∀ n ∈ chain, n.Ok) (size : Nat) {align : Nat}
    (hle : 2 ^ 32 ≤ align) (hne : chain ≠ []) :
    findRegion chain size align = .error .overflow := by
  cases chain with
  | nil => exact absurd rfl hne
  | cons n chain =>
      unfold findRegion
      rw [allocFromRegion_overflows (hok n (List.mem_cons_self ..)) size hle]
      rfl

/-- With no free region `alloc` has nothing to round. -/
theorem alloc_empty {l : Layout}
    (hsize : roundUp l.size (blockAlign l) ≤ isizeMax) :
    alloc ⟨[]⟩ l = .ok (none, ⟨[]⟩) := by
  unfold alloc
  rw [(sizeAlign_iff l).mpr hsize]
  rfl

/-- `alloc` returns only if the condition holds. -/
theorem alloc_returned {self : LinkedListAllocator}
    (hok : ∀ n ∈ self.chain, n.Ok) {l : Layout}
    {r : Option Nat × LinkedListAllocator} (h : alloc self l = .ok r) :
    roundUp l.size (blockAlign l) ≤ isizeMax
      ∧ (l.align ≤ 2 ^ 31 ∨ self.chain = []) := by
  unfold alloc at h
  obtain ⟨sa, hsize, hfind⟩ := bind_eq_ok.mp h
  obtain rfl := sizeAlign_ok hsize
  refine ⟨(sizeAlign_iff l).mp hsize, ?_⟩
  by_contra hnot
  obtain ⟨halign, hne⟩ := not_or.mp hnot
  have hlarge : 2 ^ 32 ≤ blockAlign l :=
    Nat.le_trans (le_of_pow2_gt l.pow2 (Nat.lt_of_not_le halign))
      (Nat.le_max_left ..)
  simp only [findRegion_overflows hok _ hlarge hne] at hfind
  cases hfind

-- ================================================================ the runs

/-- A call that returned either uses a supported layout or has changed
nothing. -/
theorem callerSys_step {h h' : Heap} {call : Call} (hinv : HeapInv h)
    (hstep : callerSys.step h call h') :
    heapSys.step h call h' ∨ h' = h := by
  cases call with
  | alloc l ret =>
      obtain ⟨halloc, hlive⟩ := hstep
      obtain ⟨hsize, halign | hempty⟩ := alloc_returned hinv.regions halloc
      · exact Or.inl ⟨⟨halign, hsize⟩, halloc, hlive⟩
      · refine Or.inr ?_
        obtain ⟨⟨chain⟩, live⟩ := h
        obtain rfl : chain = [] := hempty
        rw [alloc_empty hsize] at halloc
        obtain ⟨rfl, ha⟩ := Prod.mk.inj (Except.ok.inj halloc)
        cases h'
        simp only at ha hlive
        rw [← ha, hlive]
        rfl
  | dealloc p l => exact Or.inl hstep

theorem heapInv_callerRun {es : List Call} {h : Heap}
    (hrun : callerSys.Run es h) : HeapInv h := by
  refine hrun.invariant (I := HeapInv) ?_ ?_
  · intro s hinit
    exact heapInv_init (show heapSys.init s from hinit)
  · intro s call s' hinv hstep
    rcases callerSys_step hinv hstep with hheap | rfl
    · cases call with
      | alloc l ret => exact heapInv_alloc hinv hheap
      | dealloc p l => exact heapInv_dealloc hinv hheap
    · exact hinv

-- ============================================================= the results

/-- An allocation that returns: a block that is aligned and inside the
heap, at the size `size_align` computes, or null and a free list that is
exactly as before. -/
def AllocClean (self : LinkedListAllocator) (l : Layout) : Prop :=
  ∃ ret after, alloc self l = .ok (ret, after)
    ∧ (∀ p, ret = some p → l.align ∣ p
        ∧ (Span.mk p (blockSize l)).Within heap)
    ∧ (ret = none → after = self)

theorem allocClean_of_supported {self : LinkedListAllocator}
    (hok : ∀ n ∈ self.chain, n.Ok) {l : Layout} (hl : Supported l) :
    AllocClean self l := by
  rcases alloc_spec hok hl with
    ⟨hnone, -⟩ | ⟨front, n, back, hsplit, hfit, -, hsome⟩
  · refine ⟨none, self, hnone, ?_, fun _ => rfl⟩
    intro p hp
    cases hp
  · refine ⟨_, _, hsome, ?_, ?_⟩
    · intro p hp
      obtain rfl := Option.some.inj hp
      have hn : n.Ok := hok n (by rw [hsplit]; simp)
      exact ⟨dvd_trans (align_dvd_blockAlign l) (startIn_dvd n l),
        (split_within hfit).1.trans hn.inside⟩
    · intro hnone
      cases hnone

/-- In every state of every run, and for every layout Rust admits, an
allocation is clean if and only if the size can be rounded to the node's
alignment as well and the alignment is at most `2^31`, or there is no
free region to round. -/
theorem alloc_clean_iff {es : List Call} {h : Heap}
    (hrun : callerSys.Run es h) (l : Layout) :
    AllocClean h.allocator l ↔
      roundUp l.size (max l.align nodeAlign) ≤ isizeMax
        ∧ (l.align ≤ 2 ^ 31 ∨ h.allocator.chain = []) := by
  have hok := (heapInv_callerRun hrun).regions
  constructor
  · intro hclean
    obtain ⟨ret, after, halloc, -⟩ := hclean
    exact alloc_returned hok halloc
  · intro hparts
    obtain ⟨hsize, halign | hempty⟩ := hparts
    · exact allocClean_of_supported hok ⟨halign, hsize⟩
    · have hself : h.allocator = ⟨[]⟩ := by
        cases hh : h.allocator
        rw [hh] at hempty
        exact congrArg LinkedListAllocator.mk hempty
      rw [hself]
      refine ⟨none, ⟨[]⟩, alloc_empty hsize, ?_, fun _ => rfl⟩
      intro p hp
      cases hp

theorem run_fresh : callerSys.Run [] freshHeap := .start ⟨by decide, rfl⟩

/-- On the fresh heap a page-aligned layout is clean. -/
theorem alloc_clean_page : AllocClean freshHeap.allocator pageLayout :=
  (alloc_clean_iff run_fresh pageLayout).mpr ⟨by decide, Or.inl (by decide)⟩

/-- Eight bytes on a 4 GiB boundary. -/
def farLayout : Layout := ⟨8, 2 ^ 32, ⟨32, rfl⟩, by decide⟩

/-- `isize::MAX` bytes, on any address. -/
def hugeLayout : Layout := ⟨2 ^ 63 - 1, 1, ⟨0, rfl⟩, by decide⟩

/-- Both panic on the fresh heap: the one overflows in `align_up`, the
other fails the rounding in `size_align`. -/
theorem alloc_panics :
    alloc freshHeap.allocator farLayout = .error .overflow
      ∧ alloc freshHeap.allocator hugeLayout
        = .error (.message "adjusting alignment failed") := by
  constructor
  · have hsize : sizeAlign farLayout
        = .ok (blockSize farLayout, blockAlign farLayout) :=
      (sizeAlign_iff farLayout).mpr (by decide)
    have hfind : findRegion freshHeap.allocator.chain (blockSize farLayout)
        (blockAlign farLayout) = .error .overflow :=
      findRegion_overflows (heapInv_callerRun run_fresh).regions _
        (by decide) (by decide)
    unfold alloc
    rw [hsize, ok_bind]
    simp only [hfind]
    rfl
  · have hnone : hugeLayout.alignTo nodeAlign = none := by
      unfold Layout.alignTo Layout.fromSizeAlign
      exact dif_neg (by decide)
    unfold alloc sizeAlign
    rw [hnone]
    rfl

/-- An admitted layout makes the allocator panic. -/
theorem alloc_not_clean :
    ¬ ∀ es h, callerSys.Run es h → ∀ l, AllocClean h.allocator l := by
  intro hall
  obtain ⟨ret, after, halloc, -⟩ := hall _ _ run_fresh farLayout
  rw [alloc_panics.1] at halloc
  cases halloc

end Bayos.Allocator
