/-
Heap safety over whole runs: whatever sequence of `alloc` and `dealloc`
calls is made from the fresh heap, no byte ever has two owners and no
call panics.

# The run

A run's state is the allocator together with the blocks handed out and
not yet returned. A `dealloc` step names a live block, with the layout it
was allocated with; that is the caller's half of the `GlobalAlloc`
contract and the only thing asked of the callers.

# The invariant

`HeapInv` ties the two halves of the state together: the spans of the
live blocks and of the free regions, listed together, are pairwise
disjoint. `alloc` replaces one span of that list by at most two disjoint
pieces of it (`Lib.AllDisjoint.replace`), and `dealloc` moves a span from
one half to the other, which permutes the list.
-/
import Bayos.Lib.Run
import Bayos.Proofs.Allocator

namespace Bayos.Allocator

open Rust
open Lib (Span AllDisjoint TransSys)

-- ================================================================ the runs

/-- A block handed out and not yet returned. -/
structure Block where
  ptr : Nat
  layout : Layout
  deriving DecidableEq

/-- The bytes the allocator reserved for the block. -/
def Block.span (b : Block) : Span := ⟨b.ptr, blockSize b.layout⟩

/-- The allocator and the blocks its callers hold. -/
structure Heap where
  allocator : LinkedListAllocator
  live : List Block

/-- The calls of a run; `alloc` carries what it returned. -/
inductive Call
  | alloc (layout : Layout) (ret : Option Nat)
  | dealloc (ptr : Nat) (layout : Layout)

/-- The live blocks after `alloc` returned `ret`. -/
def takeBlock (live : List Block) (l : Layout) : Option Nat → List Block
  | some p => ⟨p, l⟩ :: live
  | none => live

/-- The heap under its callers: supported layouts, and only live blocks
returned. -/
def heapSys : TransSys Heap Call where
  init h := init .new heapStart heapSize = .ok h.allocator ∧ h.live = []
  step h call h' :=
    match call with
    | .alloc l ret => Supported l
        ∧ alloc h.allocator l = .ok (ret, h'.allocator)
        ∧ h'.live = takeBlock h.live l ret
    | .dealloc p l => (⟨p, l⟩ : Block) ∈ h.live
        ∧ dealloc h.allocator p l = .ok h'.allocator
        ∧ h'.live = h.live.erase ⟨p, l⟩

-- =========================================================== the invariant

/-- What every live block satisfies. -/
structure Block.Ok (b : Block) : Prop where
  supported : Supported b.layout
  aligned : blockAlign b.layout ∣ b.ptr
  inside : b.span.Within heap

/-- Every address with an owner: live blocks first, then free regions. -/
def Heap.spans (h : Heap) : List Span :=
  h.live.map Block.span ++ h.allocator.chain.map ListNode.span

structure HeapInv (h : Heap) : Prop where
  regions : ∀ n ∈ h.allocator.chain, n.Ok
  blocks : ∀ b ∈ h.live, b.Ok
  disjoint : AllDisjoint h.spans

theorem heapInv_init {h : Heap} (hinit : heapSys.init h) : HeapInv h := by
  obtain ⟨ha, hl⟩ := hinit
  have hchain : h.allocator = ⟨[⟨heapStart, heapSize⟩]⟩ :=
    (Except.ok.inj (init_eq.symm.trans ha)).symm
  refine ⟨?_, by simp [hl], ?_⟩
  · intro n hn
    rw [hchain, List.mem_singleton] at hn
    rw [hn]
    exact ⟨by decide, by decide, Nat.le_refl _, Nat.le_refl _⟩
  · unfold Heap.spans
    rw [hl, hchain]
    exact List.pairwise_singleton ..

/-- A passing region holds the block and the excess behind it, side by
side. -/
theorem split_within {n : ListNode} {l : Layout}
    (hfit : Fits n (blockSize l) (blockAlign l)) :
    (Block.span ⟨startIn n (blockAlign l), l⟩).Within n.span
      ∧ (Span.mk (startIn n (blockAlign l) + blockSize l)
          (excess n l)).Within n.span := by
  have hstart := le_startIn n l
  have hend := hfit.1
  refine ⟨⟨hstart, hend⟩, ?_, ?_⟩
  · show n.addr ≤ startIn n (blockAlign l) + blockSize l
    omega
  · show startIn n (blockAlign l) + blockSize l + excess n l ≤ n.span.stop
    unfold excess
    omega

/-- The excess, when there is any, is a region of its own right. -/
theorem excess_ok {n : ListNode} {l : Layout} (hn : n.Ok)
    (hfit : Fits n (blockSize l) (blockAlign l)) (hex : 0 < excess n l) :
    (ListNode.mk (startIn n (blockAlign l) + blockSize l)
      (excess n l)).Ok where
  aligned := nodeAlign_dvd_end n l
  large := by
    have h := hfit.2
    unfold excess at hex ⊢
    simp only
    omega
  inside := (split_within hfit).2.trans hn.inside

/-- Splitting the region `n` keeps every span disjoint. -/
theorem afterSplit_disjoint {n : ListNode} {l : Layout}
    {live : List Block} {rest : List ListNode}
    (hfit : Fits n (blockSize l) (blockAlign l))
    (h : AllDisjoint
      (live.map Block.span ++ (n :: rest).map ListNode.span)) :
    AllDisjoint ((⟨startIn n (blockAlign l), l⟩ :: live).map Block.span
      ++ (afterSplit n l rest).map ListNode.span) := by
  obtain ⟨hblock, hexcess⟩ := split_within hfit
  have hfront : AllDisjoint (n.span
      :: (live.map Block.span ++ rest.map ListNode.span)) :=
    h.perm List.perm_middle
  unfold afterSplit
  by_cases hex : 0 < excess n l
  · rw [if_pos hex]
    have hpieces : AllDisjoint
        [Block.span ⟨startIn n (blockAlign l), l⟩,
          ⟨startIn n (blockAlign l) + blockSize l, excess n l⟩] := by
      refine List.pairwise_pair.mpr (Lib.Span.disjoint_of_stop_le ?_)
      exact Nat.le_refl _
    have hall := hfront.replace hpieces (by
      intro p hp
      rcases List.mem_pair.mp hp with rfl | rfl
      · exact hblock
      · exact hexcess)
    have hmove : List.Perm
        (ListNode.span ⟨startIn n (blockAlign l) + blockSize l, excess n l⟩
          :: (live.map Block.span ++ rest.map ListNode.span))
        (live.map Block.span ++ ListNode.span
          ⟨startIn n (blockAlign l) + blockSize l, excess n l⟩
          :: rest.map ListNode.span) := List.perm_middle.symm
    exact hall.perm (hmove.cons _)
  · rw [if_neg hex]
    exact hfront.replace (List.pairwise_singleton ..) (by
      intro p hp
      rw [List.mem_singleton.mp hp]
      exact hblock)

/-- One allocation keeps the invariant. -/
theorem heapInv_alloc {h h' : Heap} {l : Layout} {ret : Option Nat}
    (hinv : HeapInv h) (hstep : heapSys.step h (.alloc l ret) h') :
    HeapInv h' := by
  obtain ⟨hl, halloc, hlive⟩ := hstep
  rcases alloc_spec hinv.regions hl with
    ⟨hnone, -⟩ | ⟨front, n, back, hsplit, hfit, -, hsome⟩
  · have heq := Except.ok.inj (hnone.symm.trans halloc)
    obtain ⟨rfl, ha⟩ := Prod.mk.inj heq
    have hsame : h' = h := by
      cases h
      cases h'
      simp only at ha hlive
      rw [← ha, hlive]
      rfl
    rw [hsame]
    exact hinv
  · have heq := Except.ok.inj (hsome.symm.trans halloc)
    obtain ⟨rfl, ha⟩ := Prod.mk.inj heq
    have hn : n.Ok := hinv.regions n (by rw [hsplit]; simp)
    have hrest : ∀ m ∈ front ++ back, m.Ok := by
      intro m hm
      apply hinv.regions m
      rw [hsplit]
      rcases List.mem_append.mp hm with hm | hm
      · exact List.mem_append_left _ hm
      · exact List.mem_append_right _ (List.mem_cons_of_mem _ hm)
    refine ⟨?_, ?_, ?_⟩
    · intro m hm
      rw [← ha] at hm
      simp only [afterSplit] at hm
      split at hm
      case isTrue hex =>
          rcases List.mem_cons.mp hm with rfl | hm
          · exact excess_ok hn hfit hex
          · exact hrest m hm
      case isFalse => exact hrest m hm
    · intro b hb
      rw [hlive] at hb
      rcases List.mem_cons.mp hb with rfl | hb
      · exact ⟨hl, startIn_dvd n l,
          (split_within hfit).1.trans hn.inside⟩
      · exact hinv.blocks b hb
    · unfold Heap.spans
      rw [hlive, ← ha]
      refine afterSplit_disjoint hfit (hinv.disjoint.perm ?_)
      unfold Heap.spans
      rw [hsplit]
      exact (List.perm_middle.map ListNode.span).append_left _

theorem Block.Ok.node {b : Block} (h : b.Ok) :
    (ListNode.mk b.ptr (blockSize b.layout)).Ok where
  aligned := dvd_trans (nodeAlign_dvd_blockAlign b.layout) h.aligned
  large := nodeSize_le_blockSize b.layout
  inside := h.inside

/-- Returning a live block never panics. -/
theorem dealloc_live {h : Heap} {b : Block} (hinv : HeapInv h)
    (hb : b ∈ h.live) :
    dealloc h.allocator b.ptr b.layout
      = .ok ⟨⟨b.ptr, blockSize b.layout⟩ :: h.allocator.chain⟩ := by
  have hok := hinv.blocks b hb
  have hbounds := hok.node.bounds
  have hn : nodeAlign = 8 := rfl
  refine dealloc_eq _ hok.supported hok.node.aligned ?_
  simp only at hbounds
  unfold wordSize
  omega

/-- Returning a block changes owners only. -/
theorem dealloc_spans {h h' : Heap} {p : Nat} {l : Layout}
    (hinv : HeapInv h) (hstep : heapSys.step h (.dealloc p l) h') :
    h'.spans.Perm h.spans := by
  obtain ⟨hb, hdealloc, hlive⟩ := hstep
  have ha := Except.ok.inj ((dealloc_live hinv hb).symm.trans hdealloc)
  have hmoved : (Block.span ⟨p, l⟩
      :: (h.live.erase ⟨p, l⟩).map Block.span).Perm
      (h.live.map Block.span) :=
    (List.perm_cons_erase hb).symm.map Block.span
  unfold Heap.spans
  rw [hlive, ← ha]
  exact List.perm_middle.trans (hmoved.append_right _)

/-- One deallocation keeps the invariant: the block's span changes sides
and nothing else moves. -/
theorem heapInv_dealloc {h h' : Heap} {p : Nat} {l : Layout}
    (hinv : HeapInv h) (hstep : heapSys.step h (.dealloc p l) h') :
    HeapInv h' := by
  have hspans := dealloc_spans hinv hstep
  obtain ⟨hb, hdealloc, hlive⟩ := hstep
  have ha := Except.ok.inj ((dealloc_live hinv hb).symm.trans hdealloc)
  refine ⟨?_, ?_, hinv.disjoint.perm hspans.symm⟩
  · intro n hn
    rw [← ha] at hn
    rcases List.mem_cons.mp hn with rfl | hn
    · exact (hinv.blocks _ hb).node
    · exact hinv.regions n hn
  · intro b hb'
    rw [hlive] at hb'
    exact hinv.blocks b (List.mem_of_mem_erase hb')

theorem heapInv_run {es : List Call} {h : Heap} (hrun : heapSys.Run es h) :
    HeapInv h := by
  refine hrun.invariant (fun _ => heapInv_init) ?_
  intro s call s' hinv hstep
  cases call with
  | alloc l ret => exact heapInv_alloc hinv hstep
  | dealloc p l => exact heapInv_dealloc hinv hstep

-- ============================================================= the results

/-- On a heap in good order every call a caller may make returns. -/
theorem alloc_returns {h : Heap} (hinv : HeapInv h) {l : Layout}
    (hl : Supported l) :
    ∃ ret a, alloc h.allocator l = .ok (ret, a) := by
  rcases alloc_spec hinv.regions hl with
    ⟨hnone, -⟩ | ⟨front, n, back, -, -, -, hsome⟩
  · exact ⟨_, _, hnone⟩
  · exact ⟨_, _, hsome⟩

/-- A block handed out anywhere in a run is aligned and lies inside the
heap. -/
theorem handed_out_ok {es : List Call} {h : Heap}
    (hrun : heapSys.Run es h) {l : Layout} {p : Nat}
    (hmem : Call.alloc l (some p) ∈ es) : (Block.mk p l).Ok := by
  induction hrun with
  | start _ => cases hmem
  | step hrun hstep ih =>
      rcases List.mem_append.mp hmem with hmem | hmem
      · exact ih hmem
      · rw [← List.mem_singleton.mp hmem] at hstep
        have hinv := heapInv_alloc (heapInv_run hrun) hstep
        apply hinv.blocks _
        rw [hstep.2.2]
        exact List.mem_cons_self ..

/-- Heap safety. The fresh heap is built without panicking, and after any
run of calls: every block ever handed out was aligned for its layout and
inside the heap, at the size `size_align` computes; live blocks and free
regions are pairwise disjoint; every free region can hold its node; and
no further call panics. -/
theorem heap_safety :
    (∃ a, init .new heapStart heapSize = .ok a) ∧
    ∀ es h, heapSys.Run es h →
      (∀ l p, Call.alloc l (some p) ∈ es →
        sizeAlign l = .ok (blockSize l, blockAlign l)
          ∧ l.align ∣ p ∧ (Span.mk p (blockSize l)).Within heap)
      ∧ AllDisjoint (h.live.map Block.span
          ++ h.allocator.chain.map ListNode.span)
      ∧ (∀ n ∈ h.allocator.chain,
          nodeAlign ∣ n.addr ∧ nodeSize ≤ n.size ∧ n.span.Within heap)
      ∧ (∀ l, Supported l →
          ∃ ret a, alloc h.allocator l = .ok (ret, a))
      ∧ (∀ b ∈ h.live, ∃ a, dealloc h.allocator b.ptr b.layout = .ok a) := by
  refine ⟨⟨_, init_eq⟩, ?_⟩
  intro es h hrun
  have hinv := heapInv_run hrun
  refine ⟨?_, hinv.disjoint, ?_, ?_, ?_⟩
  · intro l p hmem
    have hok := handed_out_ok hrun hmem
    exact ⟨sizeAlign_eq hok.supported,
      dvd_trans (align_dvd_blockAlign l) hok.aligned, hok.inside⟩
  · intro n hn
    have hok := hinv.regions n hn
    exact ⟨hok.aligned, hok.large, hok.inside⟩
  · intro l hl
    exact alloc_returns hinv hl
  · intro b hb
    exact ⟨_, dealloc_live hinv hb⟩

/-- A 24-byte layout at pointer alignment. -/
def smallLayout : Layout := ⟨24, 8, ⟨3, rfl⟩, by decide⟩

/-- And one of 64 bytes. -/
def largeLayout : Layout := ⟨64, 8, ⟨3, rfl⟩, by decide⟩

/-- A large block in front of a small one. -/
def heapCrowded : Heap :=
  ⟨⟨[⟨heapStart + 88, heapSize - 88⟩]⟩,
    [⟨heapStart + 64, smallLayout⟩, ⟨heapStart, largeLayout⟩]⟩

/-- The large one has been freed, and its region cut for a small one. -/
def heapReused : Heap :=
  ⟨⟨[⟨heapStart + 24, 40⟩, ⟨heapStart + 88, heapSize - 88⟩]⟩,
    [⟨heapStart, smallLayout⟩, ⟨heapStart + 64, smallLayout⟩]⟩

theorem run_reused : heapSys.Run
    ([] ++ [.alloc largeLayout (some heapStart)]
      ++ [.alloc smallLayout (some (heapStart + 64))]
      ++ [.dealloc heapStart largeLayout]
      ++ [.alloc smallLayout (some heapStart)]) heapReused := by
  have hstart : heapSys.Run [] ⟨⟨[⟨heapStart, heapSize⟩]⟩, []⟩ :=
    .start ⟨by decide, rfl⟩
  have hlarge : heapSys.Run ([] ++ [.alloc largeLayout (some heapStart)])
      ⟨⟨[⟨heapStart + 64, heapSize - 64⟩]⟩, [⟨heapStart, largeLayout⟩]⟩ :=
    hstart.step ⟨by decide, by decide, rfl⟩
  have hsmall : heapSys.step
      ⟨⟨[⟨heapStart + 64, heapSize - 64⟩]⟩, [⟨heapStart, largeLayout⟩]⟩
      (.alloc smallLayout (some (heapStart + 64))) heapCrowded :=
    ⟨by decide, by decide, rfl⟩
  have hfree : heapSys.step heapCrowded (.dealloc heapStart largeLayout)
      ⟨⟨[⟨heapStart, 64⟩, ⟨heapStart + 88, heapSize - 88⟩]⟩,
        [⟨heapStart + 64, smallLayout⟩]⟩ :=
    ⟨by decide, by decide, by decide⟩
  exact ((hlarge.step hsmall).step hfree).step ⟨by decide, by decide, rfl⟩

/-- Heap safety there: the two blocks and the two regions are apart. -/
theorem heap_safety_reused :
    AllDisjoint [⟨heapStart, 24⟩, ⟨heapStart + 64, 24⟩, ⟨heapStart + 24, 40⟩,
      ⟨heapStart + 88, heapSize - 88⟩] :=
  (heap_safety.2 _ _ run_reused).2.1

end Bayos.Allocator
