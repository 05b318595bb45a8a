/-
What becomes of the heap's bytes: free, live, or lost.

A block is placed at the first address of its region that is a multiple
of its alignment. The bytes behind the block go back to the free list;
those in front of it go nowhere. So an allocation keeps every byte
accounted for exactly when the first region it fits in starts on a
multiple of its alignment (`GapFree`), and what is lost once never comes
back (`total_le`).
-/
import Bayos.Proofs.HeapSafety
import Mathlib.Algebra.BigOperators.Group.List.Basic

namespace Bayos.Allocator

open Rust
open Lib (TransSys)

-- ========================================================== the accounting

/-- The bytes in free regions. -/
def freeBytes (a : LinkedListAllocator) : Nat :=
  (a.chain.map ListNode.size).sum

/-- The bytes in live blocks, at the sizes `size_align` computes. -/
def liveBytes (live : List Block) : Nat :=
  (live.map fun b => blockSize b.layout).sum

/-- All bytes that have an owner. -/
def Heap.total (h : Heap) : Nat := freeBytes h.allocator + liveBytes h.live

/-- The first region in which the block of a layout fits. -/
def firstFit (h : Heap) (l : Layout) : Option ListNode :=
  h.allocator.chain.find? fun n => Fits n (blockSize l) (blockAlign l)

/-- The block, if it fits anywhere, needs no gap in front of it. -/
def GapFree (h : Heap) : Call → Prop
  | .alloc l _ => ∀ n, firstFit h l = some n → blockAlign l ∣ n.addr
  | .dealloc .. => True

/-- The heap under any callers whose alignments are at most `2^31`. -/
def layoutSys : TransSys Heap Call where
  init h := init .new heapStart heapSize = .ok h.allocator ∧ h.live = []
  step h call h' :=
    match call with
    | .alloc l ret => l.align ≤ 2 ^ 31
        ∧ alloc h.allocator l = .ok (ret, h'.allocator)
        ∧ h'.live = takeBlock h.live l ret
    | .dealloc p l => (⟨p, l⟩ : Block) ∈ h.live
        ∧ dealloc h.allocator p l = .ok h'.allocator
        ∧ h'.live = h.live.erase ⟨p, l⟩

-- ================================================================= layouts

/-- A layout that passes `size_align` has a size that can be rounded. -/
theorem supported_of_sizeAlign {l : Layout} {r : Nat × Nat}
    (hle : l.align ≤ 2 ^ 31) (h : sizeAlign l = .ok r) : Supported l := by
  obtain rfl := sizeAlign_ok h
  exact ⟨hle, (sizeAlign_iff l).mp h⟩

theorem supported_of_alloc {a : LinkedListAllocator} {l : Layout}
    {r : Option Nat × LinkedListAllocator} (hle : l.align ≤ 2 ^ 31)
    (h : alloc a l = .ok r) : Supported l := by
  cases hsize : sizeAlign l with
  | ok s => exact supported_of_sizeAlign hle hsize
  | error p =>
      unfold alloc at h
      rw [hsize] at h
      cases h

/-- Whatever layouts the callers use, those that do not panic are
supported. -/
theorem heapSys_step {h h' : Heap} {call : Call}
    (hstep : layoutSys.step h call h') : heapSys.step h call h' := by
  cases call with
  | alloc l ret =>
      obtain ⟨hle, halloc, hlive⟩ := hstep
      exact ⟨supported_of_alloc hle halloc, halloc, hlive⟩
  | dealloc p l => exact hstep

theorem heapInv_layoutRun {es : List Call} {h : Heap}
    (hrun : layoutSys.Run es h) : HeapInv h := by
  refine hrun.invariant (I := HeapInv) ?_ ?_
  · intro s hinit
    exact heapInv_init (show heapSys.init s from hinit)
  · intro s call s' hinv hstep
    cases call with
    | alloc l ret => exact heapInv_alloc hinv (heapSys_step hstep)
    | dealloc p l => exact heapInv_dealloc hinv (heapSys_step hstep)

-- =============================================================== the steps

theorem freeBytes_cons (n : ListNode) (chain : List ListNode) :
    freeBytes ⟨n :: chain⟩ = n.size + freeBytes ⟨chain⟩ := by
  simp [freeBytes]

theorem freeBytes_middle (front back : List ListNode) (n : ListNode) :
    freeBytes ⟨front ++ n :: back⟩
      = n.size + freeBytes ⟨front ++ back⟩ := by
  simp only [freeBytes, List.map_append, List.map_cons, List.sum_append,
    List.sum_cons]
  omega

theorem liveBytes_cons (b : Block) (live : List Block) :
    liveBytes (b :: live) = blockSize b.layout + liveBytes live := by
  simp [liveBytes]

theorem liveBytes_erase {b : Block} {live : List Block} (hb : b ∈ live) :
    liveBytes live = blockSize b.layout + liveBytes (live.erase b) := by
  rw [← liveBytes_cons]
  exact ((List.perm_cons_erase hb).map _).sum_eq

/-- The bytes left of a region are the block, the excess, and the gap in
front of the block. -/
theorem size_eq {n : ListNode} {l : Layout}
    (hfit : Fits n (blockSize l) (blockAlign l)) :
    n.size = (startIn n (blockAlign l) - n.addr) + blockSize l
      + excess n l := by
  have hstart := le_startIn n l
  have hend := hfit.1
  have hstop : n.span.stop = n.addr + n.size := rfl
  unfold excess
  omega

theorem afterSplit_bytes (n : ListNode) (l : Layout)
    (rest : List ListNode) :
    freeBytes ⟨afterSplit n l rest⟩ = excess n l + freeBytes ⟨rest⟩ := by
  unfold afterSplit
  by_cases hex : 0 < excess n l
  · rw [if_pos hex, freeBytes_cons]
  · rw [if_neg hex]
    omega

theorem firstFit_split {h : Heap} {l : Layout} {front back : List ListNode}
    {n : ListNode} (hsplit : h.allocator.chain = front ++ n :: back)
    (hfit : Fits n (blockSize l) (blockAlign l))
    (hfront : ∀ m ∈ front, ¬ Fits m (blockSize l) (blockAlign l)) :
    firstFit h l = some n := by
  unfold firstFit
  rw [hsplit]
  refine List.find?_eq_some_iff_append.mpr
    ⟨by simp [hfit], front, back, rfl, ?_⟩
  intro m hm
  simp [hfront m hm]

/-- A block needs no gap in a region that starts on its alignment, and
only there. -/
theorem gap_eq_zero_iff (n : ListNode) (l : Layout) :
    startIn n (blockAlign l) - n.addr = 0 ↔ blockAlign l ∣ n.addr := by
  have hpos := Nat.pos_of_isPowerOfTwo (blockAlign_pow2 l)
  constructor
  · intro hgap
    have heq : startIn n (blockAlign l) = n.addr := by
      have := le_startIn n l
      omega
    rw [← heq]
    exact startIn_dvd n l
  · intro hdvd
    have heq : startIn n (blockAlign l) = n.addr := roundUp_of_dvd hpos hdvd
    rw [heq, Nat.sub_self]

/-- One call: it creates no bytes, and loses none exactly when it leaves
no gap. -/
theorem total_step {h h' : Heap} {call : Call} (hinv : HeapInv h)
    (hstep : layoutSys.step h call h') :
    h'.total ≤ h.total ∧ (h'.total = h.total ↔ GapFree h call) := by
  have hheap := heapSys_step hstep
  cases call with
  | alloc l ret =>
      obtain ⟨hl, halloc, hlive⟩ := hheap
      rcases alloc_spec hinv.regions hl with
        ⟨hnone, hall⟩ | ⟨front, n, back, hsplit, hfit, hfront, hsome⟩
      · obtain ⟨rfl, ha⟩ :=
          Prod.mk.inj (Except.ok.inj (hnone.symm.trans halloc))
        have hsame : h'.total = h.total := by
          unfold Heap.total
          rw [hlive, ← ha]
          rfl
        have hno : firstFit h l = none := by
          refine List.find?_eq_none.mpr fun n hn => ?_
          simp [hall n hn]
        refine ⟨Nat.le_of_eq hsame, fun _ n hn => ?_, fun _ => hsame⟩
        rw [hno] at hn
        cases hn
      · obtain ⟨rfl, ha⟩ :=
          Prod.mk.inj (Except.ok.inj (hsome.symm.trans halloc))
        have hlost : h.total
            = h'.total + (startIn n (blockAlign l) - n.addr) := by
          have hn := size_eq hfit
          have hchain : freeBytes h.allocator
              = n.size + freeBytes ⟨front ++ back⟩ := by
            rw [← freeBytes_middle, ← hsplit]
          have hlive' : liveBytes h'.live
              = blockSize l + liveBytes h.live := by
            rw [hlive]
            exact liveBytes_cons ..
          unfold Heap.total
          rw [hchain, hlive', ← ha, afterSplit_bytes]
          omega
        have hgap := gap_eq_zero_iff n l
        have hfirst := firstFit_split hsplit hfit hfront
        refine ⟨by omega, fun hsame m hm => ?_, fun hfree => ?_⟩
        · obtain rfl : n = m := Option.some.inj (hfirst.symm.trans hm)
          exact hgap.mp (by omega)
        · have := hgap.mpr (hfree n hfirst)
          omega
  | dealloc p l =>
      obtain ⟨hb, hdealloc, hlive⟩ := hheap
      have ha := Except.ok.inj ((dealloc_live hinv hb).symm.trans hdealloc)
      have hsame : h'.total = h.total := by
        unfold Heap.total
        rw [hlive, ← ha, liveBytes_erase hb, freeBytes_cons]
        show blockSize l + freeBytes h.allocator
            + liveBytes (h.live.erase ⟨p, l⟩)
          = freeBytes h.allocator
            + (blockSize l + liveBytes (h.live.erase ⟨p, l⟩))
        omega
      exact ⟨Nat.le_of_eq hsame, fun _ => trivial, fun _ => hsame⟩

-- ================================================================ the runs

theorem total_init {h : Heap} (hinit : layoutSys.init h) :
    h.total = heapSize := by
  obtain ⟨ha, hl⟩ := hinit
  have hchain := Except.ok.inj (init_eq.symm.trans ha)
  unfold Heap.total
  rw [hl, ← hchain]
  rfl

/-- No run makes bytes. -/
theorem total_le {es : List Call} {h : Heap} (hrun : layoutSys.Run es h) :
    h.total ≤ heapSize := by
  induction hrun with
  | start hinit => exact Nat.le_of_eq (total_init hinit)
  | step hrun hstep ih =>
      exact Nat.le_trans (total_step (heapInv_layoutRun hrun) hstep).1 ih

/-- A run whose allocations leave no gap keeps every byte. -/
theorem total_guarded {es : List Call} {h : Heap}
    (hrun : (layoutSys.guard GapFree).Run es h) : h.total = heapSize := by
  induction hrun with
  | start hinit => exact total_init hinit
  | step hrun hstep ih =>
      have hinv := heapInv_layoutRun hrun.unguard
      rw [(total_step hinv hstep.1).2.mpr hstep.2]
      exact ih

/-- A run that has kept every byte has left no gap: what an allocation
loses, no later call brings back. -/
theorem guarded_of_total {es : List Call} {h : Heap}
    (hrun : layoutSys.Run es h) (htotal : h.total = heapSize) :
    (layoutSys.guard GapFree).Run es h := by
  induction hrun with
  | start hinit => exact .start hinit
  | step hrun hstep ih =>
      obtain ⟨hle, hiff⟩ := total_step (heapInv_layoutRun hrun) hstep
      have hbound := total_le hrun
      have hbefore := Nat.le_antisymm hbound (htotal ▸ hle)
      refine .step (ih hbefore) ⟨hstep, hiff.mp ?_⟩
      rw [htotal, hbefore]

/-- A run conserves the heap exactly if none of its allocations leaves a
gap in front of its block: the free regions and the live blocks then add
up to the heap, and after a gap they never do again. -/
theorem conserved_iff {es : List Call} {h : Heap}
    (hrun : layoutSys.Run es h) :
    freeBytes h.allocator + liveBytes h.live = heapSize
      ↔ (layoutSys.guard GapFree).Run es h :=
  ⟨guarded_of_total hrun, total_guarded⟩

/-- A 16-byte layout at page alignment. -/
def pageLayout : Layout := ⟨16, 4096, ⟨12, rfl⟩, by decide⟩

/-- The fresh heap. -/
def freshHeap : Heap := ⟨⟨[⟨heapStart, heapSize⟩]⟩, []⟩

/-- After a first block of 24 bytes. -/
def heapOne : Heap :=
  ⟨⟨[⟨heapStart + 24, heapSize - 24⟩]⟩, [⟨heapStart, smallLayout⟩]⟩

/-- After a second block, on a page boundary. -/
def heapTwo : Heap :=
  ⟨⟨[⟨heapStart + 8192, heapSize - 8192⟩]⟩,
    ⟨heapStart + 4096, pageLayout⟩ :: heapOne.live⟩

theorem run_one :
    layoutSys.Run [.alloc smallLayout (some heapStart)] heapOne := by
  have hinit : layoutSys.init freshHeap := ⟨by decide, rfl⟩
  exact .step (.start hinit) ⟨by decide, by decide, rfl⟩

theorem run_two :
    layoutSys.Run [.alloc smallLayout (some heapStart),
      .alloc pageLayout (some (heapStart + 4096))] heapTwo :=
  .step run_one ⟨by decide, by decide, rfl⟩

/-- The first block of a fresh heap leaves no gap. -/
theorem conserved_iff_one :
    freeBytes heapOne.allocator + liveBytes heapOne.live = heapSize
      ↔ (layoutSys.guard GapFree).Run
          [.alloc smallLayout (some heapStart)] heapOne :=
  conserved_iff run_one

/-- A small block, then one on a page boundary: the bytes between them
are neither free nor live, and stay so. -/
theorem gap_lost :
    ¬ ∀ es h, layoutSys.Run es h →
      freeBytes h.allocator + liveBytes h.live = heapSize := by
  intro hall
  have htotal := hall _ _ run_two
  have hless : freeBytes heapTwo.allocator + liveBytes heapTwo.live
      = heapSize - 4072 := by decide
  rw [hless] at htotal
  exact absurd htotal (by decide)

end Bayos.Allocator
