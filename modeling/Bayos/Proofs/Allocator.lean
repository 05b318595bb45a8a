/-
What each function of the heap allocator computes, on free lists whose
regions lie inside the heap. Nothing here speaks of runs: these are the
specifications the run invariants (`Proofs/HeapSafety.lean`) cite, so
that no later proof unfolds an allocator function.

The heap ends at `0xffff_ffff_8000_0000`, which leaves exactly `2^31`
bytes below the top of the address space: that is why the alignments
the specifications admit stop at `2^31`, and why no sum of a heap
address and such an alignment wraps.
-/
import Bayos.Model.Allocator

namespace Bayos.Allocator

open Rust
open Lib (Span)

-- ============================================================== vocabulary

/-- The heap as an interval. -/
def heap : Span := ⟨heapStart, heapSize⟩

theorem heap_stop : heap.stop = 0xffffffff80000000 := by decide

/-- The region a node describes. -/
def ListNode.span (n : ListNode) : Span := ⟨n.addr, n.size⟩

/-- What every free region satisfies: it can hold its own node and lies
inside the heap. -/
structure ListNode.Ok (n : ListNode) : Prop where
  aligned : nodeAlign ∣ n.addr
  large : nodeSize ≤ n.size
  inside : n.span.Within heap

/-- All the search asks of a region: it can hold its node and ends no
later than the heap does. -/
structure ListNode.Below (n : ListNode) : Prop where
  large : nodeSize ≤ n.size
  stop : n.span.stop ≤ heap.stop

theorem ListNode.Ok.below {n : ListNode} (h : n.Ok) : n.Below :=
  ⟨h.large, h.inside.2⟩

/-- The layouts the specifications cover: alignment at most `2^31`, and
a size whose rounding to at least the node's alignment fits in
`isize`. -/
def Supported (l : Layout) : Prop :=
  l.align ≤ 2 ^ 31 ∧ roundUp l.size (max l.align nodeAlign) ≤ isizeMax

instance (l : Layout) : Decidable (Supported l) :=
  inferInstanceAs (Decidable (_ ∧ _))

/-- The alignment `size_align` computes. -/
def blockAlign (l : Layout) : Nat := max l.align nodeAlign

/-- The size `size_align` computes. -/
def blockSize (l : Layout) : Nat :=
  max (roundUp l.size (blockAlign l)) nodeSize

/-- Where an allocation in `n` would start. -/
def startIn (n : ListNode) (align : Nat) : Nat := roundUp n.addr align

/-- The test of `alloc_from_region`: the block fits, and what is left
behind it is nothing or large enough for a node. -/
def Fits (n : ListNode) (size align : Nat) : Prop :=
  startIn n align + size ≤ n.span.stop
    ∧ (n.span.stop - (startIn n align + size) = 0
      ∨ nodeSize ≤ n.span.stop - (startIn n align + size))

instance (n : ListNode) (size align : Nat) : Decidable (Fits n size align) :=
  inferInstanceAs (Decidable (_ ∧ _))

-- ============================================================== arithmetic

theorem nodeAlign_pow2 : nodeAlign.isPowerOfTwo := ⟨3, rfl⟩

theorem blockAlign_pow2 (l : Layout) : (blockAlign l).isPowerOfTwo :=
  isPowerOfTwo_max l.pow2 nodeAlign_pow2

theorem nodeAlign_dvd_blockAlign (l : Layout) : nodeAlign ∣ blockAlign l :=
  isPowerOfTwo_dvd nodeAlign_pow2 (blockAlign_pow2 l) (Nat.le_max_right ..)

theorem align_dvd_blockAlign (l : Layout) : l.align ∣ blockAlign l :=
  isPowerOfTwo_dvd l.pow2 (blockAlign_pow2 l) (Nat.le_max_left ..)

theorem blockAlign_le {l : Layout} (h : Supported l) :
    blockAlign l ≤ 2 ^ 31 := by
  unfold blockAlign nodeAlign
  have := h.1
  omega

theorem nodeSize_le_blockSize (l : Layout) : nodeSize ≤ blockSize l :=
  Nat.le_max_right ..

theorem blockSize_pos (l : Layout) : 0 < blockSize l :=
  Nat.lt_of_lt_of_le (by decide) (nodeSize_le_blockSize l)

/-- Block sizes are multiples of the node's alignment, so a block cut
off the front of a region leaves an aligned remainder. -/
theorem nodeAlign_dvd_blockSize (l : Layout) : nodeAlign ∣ blockSize l := by
  unfold blockSize
  rcases Nat.le_total (roundUp l.size (blockAlign l)) nodeSize with h | h
  · rw [Nat.max_eq_right h]
    exact ⟨2, rfl⟩
  · rw [Nat.max_eq_left h]
    exact dvd_trans (nodeAlign_dvd_blockAlign l) (dvd_roundUp ..)

-- =========================================================== the functions

/-- `align_up` is rounding, as long as the sum does not wrap. -/
theorem alignUp_eq {addr align : Nat} (hp : align.isPowerOfTwo)
    (h : addr + align < wordSize) :
    alignUp addr align = .ok (roundUp addr align) := by
  have hpos := Nat.pos_of_isPowerOfTwo hp
  unfold alignUp
  rw [Usize.add_eq h, ok_bind, Usize.sub_eq (by omega), ok_bind,
    Usize.sub_eq (by omega), ok_bind, pure_eq_ok,
    land_not_eq_roundUp hp (by omega) (by omega)]

/-- Both assertions of `add_free_region` hold on an aligned region large
enough for a node. -/
theorem addFreeRegion_eq (self : LinkedListAllocator) {addr size : Nat}
    (ha : nodeAlign ∣ addr) (hs : nodeSize ≤ size)
    (hw : addr + nodeAlign < wordSize) :
    addFreeRegion self addr size = .ok ⟨⟨addr, size⟩ :: self.chain⟩ := by
  have hround : roundUp addr nodeAlign = addr :=
    roundUp_of_dvd (by decide) ha
  unfold addFreeRegion
  rw [alignUp_eq nodeAlign_pow2 hw, ok_bind, hround]
  simp [hs]

theorem ListNode.Ok.bounds {n : ListNode} (h : n.Ok) :
    heapStart ≤ n.addr ∧ nodeSize ≤ n.size
      ∧ n.addr + n.size ≤ 0xffffffff80000000 := by
  have hin := h.inside
  have hstop := heap_stop
  exact ⟨hin.1, h.large, hstop ▸ hin.2⟩

/-- The sums the allocator forms on a free region stay in range. -/
theorem ListNode.Below.alignUp_eq {n : ListNode} (h : n.Below)
    {align : Nat} (hp : align.isPowerOfTwo) (hle : align ≤ 2 ^ 31) :
    alignUp n.startAddr align = .ok (startIn n align) := by
  have hlarge := h.large
  have hstop : n.addr + n.size ≤ heap.stop := h.stop
  rw [heap_stop] at hstop
  apply Allocator.alignUp_eq hp
  unfold nodeSize at hlarge
  unfold ListNode.startAddr wordSize
  omega

theorem ListNode.Below.stop_lt {n : ListNode} (h : n.Below) :
    n.span.stop < wordSize := by
  have hstop := h.stop
  rw [heap_stop] at hstop
  unfold wordSize
  omega

theorem ListNode.Below.endAddr_eq {n : ListNode} (h : n.Below) :
    n.endAddr = .ok n.span.stop :=
  Usize.add_eq h.stop_lt

/-- `alloc_from_region` computes the test `Fits`. -/
theorem allocFromRegion_eq {n : ListNode} (h : n.Below) (size : Nat)
    {align : Nat} (hp : align.isPowerOfTwo) (hle : align ≤ 2 ^ 31) :
    allocFromRegion n size align
      = .ok (if Fits n size align then some (startIn n align) else none) := by
  have hend := h.stop_lt
  unfold allocFromRegion
  rw [h.alignUp_eq hp hle, ok_bind]
  unfold Usize.checkedAdd
  by_cases hw : startIn n align + size < wordSize
  · rw [if_pos hw]
    simp only [h.endAddr_eq, ok_bind]
    by_cases hfit : n.span.stop < startIn n align + size
    · have hno : ¬ Fits n size align := fun hf =>
        absurd hf.1 (Nat.not_le_of_lt hfit)
      rw [if_pos hfit, if_neg hno, pure_eq_ok]
    · rw [if_neg hfit, Usize.sub_eq (Nat.le_of_not_lt hfit), ok_bind]
      -- the two tests on the excess are each other's negation
      by_cases hex : 0 < n.span.stop - (startIn n align + size)
          ∧ n.span.stop - (startIn n align + size) < nodeSize
      · have hno : ¬ Fits n size align := by
          intro hf
          have := hf.2
          omega
        rw [if_pos hex, if_neg hno, pure_eq_ok]
      · have hyes : Fits n size align := ⟨by omega, by omega⟩
        rw [if_neg hex, if_pos hyes, pure_eq_ok]
  · -- the end of the block is not a word: it is past any region
    have hno : ¬ Fits n size align := by
      intro hf
      have := hf.1
      omega
    rw [if_neg hw, if_neg hno, pure_eq_ok]

/-- `find_region` is first fit: it fails only when no region passes, and
otherwise unlinks the first one that does. -/
theorem findRegion_spec (size : Nat) {align : Nat}
    (hp : align.isPowerOfTwo) (hle : align ≤ 2 ^ 31) :
    ∀ {chain : List ListNode}, (∀ n ∈ chain, n.Below) →
      (findRegion chain size align = .ok (none, chain)
        ∧ ∀ n ∈ chain, ¬ Fits n size align)
      ∨ ∃ front n back, chain = front ++ n :: back
        ∧ Fits n size align ∧ (∀ m ∈ front, ¬ Fits m size align)
        ∧ findRegion chain size align
            = .ok (some (n, startIn n align), front ++ back) := by
  intro chain
  induction chain with
  | nil => intro _; exact Or.inl ⟨rfl, by simp⟩
  | cons n chain ih =>
      intro hok
      have hn := allocFromRegion_eq (hok n (List.mem_cons_self ..)) size
        hp hle
      unfold findRegion
      rw [hn, ok_bind]
      by_cases hfit : Fits n size align
      · rw [if_pos hfit]
        exact Or.inr ⟨[], n, chain, rfl, hfit, by simp, rfl⟩
      · rw [if_neg hfit]
        rcases ih fun m hm => hok m (List.mem_cons_of_mem _ hm) with
          ⟨hrec, hnone⟩ | ⟨front, m, back, hsplit, hm, hfront, hrec⟩
        · refine Or.inl ⟨by simp [hrec], ?_⟩
          intro m hm
          rcases List.mem_cons.mp hm with rfl | hm
          · exact hfit
          · exact hnone m hm
        · refine Or.inr ⟨n :: front, m, back, by rw [hsplit]; rfl, hm, ?_, ?_⟩
          · intro k hk
            rcases List.mem_cons.mp hk with rfl | hk
            · exact hfit
            · exact hfront k hk
          · simp [hrec]

/-- `size_align` returns exactly on the sizes that can be rounded to the
node's alignment, too. -/
theorem sizeAlign_iff (l : Layout) :
    sizeAlign l = .ok (blockSize l, blockAlign l)
      ↔ roundUp l.size (blockAlign l) ≤ isizeMax := by
  have hbound : blockAlign l ≤ isizeMax + 1 := by
    have hfits := l.fits
    have hnode : nodeAlign ≤ isizeMax + 1 := by decide
    unfold blockAlign
    omega
  rw [← Layout.fits_iff (blockAlign_pow2 l) hbound]
  constructor
  · intro h
    by_contra hnot
    have hnone : l.alignTo nodeAlign = none := dif_neg fun hf => hnot hf.2
    unfold sizeAlign at h
    rw [hnone] at h
    cases h
  · intro hfits
    have hto : l.alignTo nodeAlign
        = some ⟨l.size, blockAlign l, blockAlign_pow2 l, hfits⟩ :=
      Layout.fromSizeAlign_eq (blockAlign_pow2 l) hfits
    unfold sizeAlign
    rw [hto, expect_some, ok_bind]
    rfl

/-- What `size_align` returns, if it returns. -/
theorem sizeAlign_ok {l : Layout} {r : Nat × Nat}
    (h : sizeAlign l = .ok r) : r = (blockSize l, blockAlign l) := by
  unfold sizeAlign at h
  obtain ⟨aligned, hto, hr⟩ := bind_eq_ok.mp h
  cases halign : l.alignTo nodeAlign with
  | none =>
      rw [halign] at hto
      cases hto
  | some a =>
      rw [halign, expect_some] at hto
      obtain rfl := Except.ok.inj hto
      unfold Layout.alignTo Layout.fromSizeAlign at halign
      split at halign
      · rw [← Option.some.inj halign] at hr
        exact (Except.ok.inj hr).symm
      · cases halign

/-- `size_align` never fails on a supported layout. -/
theorem sizeAlign_eq {l : Layout} (h : Supported l) :
    sizeAlign l = .ok (blockSize l, blockAlign l) :=
  (sizeAlign_iff l).mpr h.2

/-- What is left of a region behind a block placed in it. -/
def excess (n : ListNode) (l : Layout) : Nat :=
  n.span.stop - (startIn n (blockAlign l) + blockSize l)

/-- The free list after a block is placed in `n`, `rest` being the other
nodes: the excess, if any, goes to the front. -/
def afterSplit (n : ListNode) (l : Layout) (rest : List ListNode) :
    List ListNode :=
  if 0 < excess n l then
    ⟨startIn n (blockAlign l) + blockSize l, excess n l⟩ :: rest
  else rest

theorem startIn_dvd (n : ListNode) (l : Layout) :
    blockAlign l ∣ startIn n (blockAlign l) := dvd_roundUp ..

theorem le_startIn (n : ListNode) (l : Layout) :
    n.addr ≤ startIn n (blockAlign l) :=
  le_roundUp (Nat.pos_of_isPowerOfTwo (blockAlign_pow2 l))

/-- The remainder behind a block starts on a node boundary. -/
theorem nodeAlign_dvd_end (n : ListNode) (l : Layout) :
    nodeAlign ∣ startIn n (blockAlign l) + blockSize l :=
  Nat.dvd_add (dvd_trans (nodeAlign_dvd_blockAlign l) (startIn_dvd n l))
    (nodeAlign_dvd_blockSize l)

/-- `alloc` on a well-formed free list: null exactly when no region
passes, and otherwise a block at the start of the first that does, the
excess returned to the list. -/
theorem alloc_spec {self : LinkedListAllocator}
    (hok : ∀ n ∈ self.chain, n.Ok) {l : Layout} (hl : Supported l) :
    (alloc self l = .ok (none, self)
      ∧ ∀ n ∈ self.chain, ¬ Fits n (blockSize l) (blockAlign l))
    ∨ ∃ front n back, self.chain = front ++ n :: back
      ∧ Fits n (blockSize l) (blockAlign l)
      ∧ (∀ m ∈ front, ¬ Fits m (blockSize l) (blockAlign l))
      ∧ alloc self l = .ok (some (startIn n (blockAlign l)),
          ⟨afterSplit n l (front ++ back)⟩) := by
  have hsize := sizeAlign_eq hl
  unfold alloc
  rw [hsize, ok_bind]
  rcases findRegion_spec (blockSize l) (blockAlign_pow2 l)
    (blockAlign_le hl) (fun n hn => (hok n hn).below) with
    ⟨hfind, hnone⟩ | ⟨front, n, back, hsplit, hfit, hfront, hfind⟩
  · refine Or.inl ⟨?_, hnone⟩
    simp only [hfind, ok_bind, pure_eq_ok]
  · refine Or.inr ⟨front, n, back, hsplit, hfit, hfront, ?_⟩
    have hn : n.Ok := hok n (by rw [hsplit]; simp)
    have hb := hn.bounds
    have hstop : n.span.stop = n.addr + n.size := rfl
    have hend : startIn n (blockAlign l) + blockSize l < wordSize := by
      have := hfit.1
      unfold wordSize
      omega
    simp only [hfind, ok_bind, Usize.checkedAdd_eq hend, expect_some,
      hn.below.endAddr_eq, Usize.sub_eq hfit.1]
    unfold afterSplit excess
    by_cases hex : 0 < n.span.stop
        - (startIn n (blockAlign l) + blockSize l)
    · have hlarge : nodeSize ≤ n.span.stop
          - (startIn n (blockAlign l) + blockSize l) := by
        have := hfit.2
        omega
      have hroom : startIn n (blockAlign l) + blockSize l + nodeAlign
          < wordSize := by
        have : nodeAlign = 8 := rfl
        unfold wordSize
        omega
      rw [if_pos hex, if_pos hex,
        addFreeRegion_eq _ (nodeAlign_dvd_end n l) hlarge hroom, ok_bind,
        pure_eq_ok]
    · rw [if_neg hex, if_neg hex, pure_eq_ok]

/-- A null pointer comes with the free list as it was. -/
theorem alloc_null {self a : LinkedListAllocator}
    (hok : ∀ n ∈ self.chain, n.Ok) {l : Layout} (hl : Supported l)
    (h : alloc self l = .ok (none, a)) : a = self := by
  rcases alloc_spec hok hl with
    ⟨hnone, -⟩ | ⟨front, n, back, -, -, -, hsome⟩
  · exact (Prod.mk.inj (Except.ok.inj (hnone.symm.trans h))).2.symm
  · have hret := (Prod.mk.inj (Except.ok.inj (hsome.symm.trans h))).1
    cases hret

/-- `init` on the heap makes it one free region. -/
theorem init_eq :
    init .new heapStart heapSize = .ok ⟨[⟨heapStart, heapSize⟩]⟩ :=
  addFreeRegion_eq .new (by decide) (by decide) (by decide)

/-- `dealloc` puts the block back at the front of the list. -/
theorem dealloc_eq (self : LinkedListAllocator) {ptr : Nat} {l : Layout}
    (hl : Supported l) (hp : nodeAlign ∣ ptr)
    (hw : ptr + nodeAlign < wordSize) :
    dealloc self ptr l = .ok ⟨⟨ptr, blockSize l⟩ :: self.chain⟩ := by
  unfold dealloc
  rw [sizeAlign_eq hl, ok_bind]
  exact addFreeRegion_eq self hp (nodeSize_le_blockSize l) hw

end Bayos.Allocator
