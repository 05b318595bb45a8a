/-
What freed memory is good for.

`dealloc` puts a block back at the front of the free list as a region of
its own, whatever its neighbours are. So a block freed and asked for
again comes back as it was (`dealloc_alloc`), and a region once cut stays
cut: regions that meet are never made one.

# The pieces of a run

Each block handed out cuts the region it is placed in into the block and
what is behind it; nothing else changes how the heap is divided. `pieces`
replays the cuts of a run from its calls alone, and what the heap's
owners hold is these pieces, whoever holds them (`spans_perm_pieces`).
-/
import Bayos.Proofs.Failure

namespace Bayos.Allocator

open Rust
open Lib (Span AllDisjoint TransSys)

-- ========================================================= freed and asked

/-- A free region that is a block freed a moment ago passes the test for
its layout, with nothing left over. -/
theorem Block.Ok.fits {b : Block} (h : b.Ok) :
    startIn ⟨b.ptr, blockSize b.layout⟩ (blockAlign b.layout) = b.ptr
      ∧ excess ⟨b.ptr, blockSize b.layout⟩ b.layout = 0
      ∧ Fits ⟨b.ptr, blockSize b.layout⟩ (blockSize b.layout)
          (blockAlign b.layout) := by
  have hpos := Nat.pos_of_isPowerOfTwo (blockAlign_pow2 b.layout)
  have hstart : startIn ⟨b.ptr, blockSize b.layout⟩ (blockAlign b.layout)
      = b.ptr := roundUp_of_dvd hpos h.aligned
  have hexcess : excess ⟨b.ptr, blockSize b.layout⟩ b.layout = 0 := by
    unfold excess
    rw [hstart]
    exact Nat.sub_self _
  refine ⟨hstart, hexcess, ?_, Or.inl hexcess⟩
  rw [hstart]
  exact Nat.le_refl _

/-- Free, then allocate, is the identity: in every state of every run, a
live block freed and asked for again at once is handed out at the same
place, and the free list is the one from before. -/
theorem dealloc_alloc {es : List Call} {h : Heap}
    (hrun : callerSys.Run es h) {b : Block} (hb : b ∈ h.live) :
    ∃ a, dealloc h.allocator b.ptr b.layout = .ok a
      ∧ alloc a b.layout = .ok (some b.ptr, h.allocator) := by
  have hinv := heapInv_callerRun hrun
  have hok := hinv.blocks b hb
  obtain ⟨hstart, hexcess, hfit⟩ := hok.fits
  refine ⟨_, dealloc_live hinv hb, ?_⟩
  have hregions : ∀ n ∈ (LinkedListAllocator.mk
      (⟨b.ptr, blockSize b.layout⟩ :: h.allocator.chain)).chain, n.Ok := by
    intro n hn
    rcases List.mem_cons.mp hn with rfl | hn
    · exact hok.node
    · exact hinv.regions n hn
  rcases alloc_spec hregions hok.supported with
    ⟨-, hnone⟩ | ⟨front, n, back, hsplit, -, hfront, hsome⟩
  · exact absurd hfit (hnone _ (List.mem_cons_self ..))
  · -- the search stops at the first node, which is the block
    cases front with
    | nil =>
        obtain ⟨rfl, rfl⟩ := List.cons.inj hsplit
        rw [hsome, hstart]
        unfold afterSplit
        rw [hexcess, if_neg (Nat.lt_irrefl 0)]
        rfl
    | cons m front =>
        obtain ⟨rfl, -⟩ := List.cons.inj hsplit
        exact absurd hfit (hfront _ (List.mem_cons_self ..))

theorem run_small :
    callerSys.Run [.alloc smallLayout (some heapStart)] heapOne :=
  .step run_fresh ⟨by decide, rfl⟩

/-- The first block of a fresh heap, freed and asked for again. -/
theorem dealloc_alloc_small :
    ∃ a, dealloc heapOne.allocator heapStart smallLayout = .ok a
      ∧ alloc a smallLayout = .ok (some heapStart, heapOne.allocator) :=
  dealloc_alloc (b := ⟨heapStart, smallLayout⟩) run_small
    (List.mem_singleton_self _)

-- ============================================================== the pieces

/-- What a call does to the division of the heap. -/
def cutBy (ps : List Span) : Call → List Span
  | .alloc l (some p) => ps.flatMap (Block.span ⟨p, l⟩).cut
  | .alloc _ none => ps
  | .dealloc .. => ps

/-- The pieces into which the calls of a run have cut the heap. -/
def pieces (es : List Call) : List Span := es.foldl cutBy [heap]

theorem pieces_step (es : List Call) (call : Call) :
    pieces (es ++ [call]) = cutBy (pieces es) call := by
  simp [pieces]

/-- The region a block is placed in is cut into the block and the
excess. -/
theorem cut_region {n : ListNode} {l : Layout}
    (hfit : Fits n (blockSize l) (blockAlign l)) (rest : List ListNode) :
    (Block.span ⟨startIn n (blockAlign l), l⟩).cut n.span
        ++ rest.map ListNode.span
      = Block.span ⟨startIn n (blockAlign l), l⟩
        :: (afterSplit n l rest).map ListNode.span := by
  unfold Span.cut
  rw [if_pos (split_within hfit).1]
  unfold afterSplit
  by_cases hex : 0 < excess n l
  · have hlt : (Block.span ⟨startIn n (blockAlign l), l⟩).stop
        < n.span.stop := Nat.lt_of_sub_pos hex
    rw [if_pos hex, if_pos hlt]
    rfl
  · have hle : ¬ (Block.span ⟨startIn n (blockAlign l), l⟩).stop
        < n.span.stop := fun hlt => hex (Nat.sub_pos_of_lt hlt)
    rw [if_neg hex, if_neg hle]
    rfl

/-- An allocation that hands out a block cuts the pieces by it. -/
theorem alloc_spans {h h' : Heap} {l : Layout} {p : Nat} (hinv : HeapInv h)
    (hstep : heapSys.step h (.alloc l (some p)) h') :
    h'.spans.Perm (h.spans.flatMap (Block.span ⟨p, l⟩).cut) := by
  obtain ⟨hl, halloc, hlive⟩ := hstep
  rcases alloc_spec hinv.regions hl with
    ⟨hnone, -⟩ | ⟨front, n, back, hsplit, hfit, -, hsome⟩
  · obtain ⟨hret, -⟩ := Prod.mk.inj (Except.ok.inj (hnone.symm.trans halloc))
    cases hret
  · obtain ⟨hret, ha⟩ :=
      Prod.mk.inj (Except.ok.inj (hsome.symm.trans halloc))
    obtain rfl := Option.some.inj hret
    have hfirst : h.spans.Perm (n.span :: (h.live.map Block.span
        ++ (front ++ back).map ListNode.span)) := by
      unfold Heap.spans
      rw [hsplit]
      exact ((List.perm_middle.map ListNode.span).append_left _).trans
        List.perm_middle
    have hcut := (hinv.disjoint.perm hfirst).flatMap_cut (blockSize_pos l)
      (split_within hfit).1
    calc h'.spans
        = Block.span ⟨startIn n (blockAlign l), l⟩
            :: (h.live.map Block.span
              ++ (afterSplit n l (front ++ back)).map ListNode.span) := by
          unfold Heap.spans
          rw [hlive, ← ha]
          rfl
      List.Perm _ (h.live.map Block.span
            ++ Block.span ⟨startIn n (blockAlign l), l⟩
              :: (afterSplit n l (front ++ back)).map ListNode.span) :=
          List.perm_middle.symm
      _ = h.live.map Block.span
            ++ ((Block.span ⟨startIn n (blockAlign l), l⟩).cut n.span
              ++ (front ++ back).map ListNode.span) := by
          rw [cut_region hfit]
      List.Perm _ ((Block.span ⟨startIn n (blockAlign l), l⟩).cut n.span
            ++ (h.live.map Block.span
              ++ (front ++ back).map ListNode.span)) :=
          List.perm_append_comm_assoc ..
      List.Perm _ (h.spans.flatMap
            (Block.span ⟨startIn n (blockAlign l), l⟩).cut) := by
          rw [← hcut]
          exact (hfirst.flatMap_right _).symm

/-- What the owners of a heap hold are the pieces of its run. -/
theorem spans_perm_pieces {es : List Call} {h : Heap}
    (hrun : callerSys.Run es h) : h.spans.Perm (pieces es) := by
  induction hrun with
  | @start s hinit =>
      obtain ⟨ha, hl⟩ := hinit
      have hchain := Except.ok.inj (init_eq.symm.trans ha)
      unfold Heap.spans
      rw [hl, ← hchain]
      exact List.Perm.refl _
  | @step es call s s' hrun hstep ih =>
      have hinv := heapInv_callerRun hrun
      rw [pieces_step]
      cases call with
      | dealloc p l => exact (dealloc_spans hinv hstep).trans ih
      | alloc l ret =>
          cases ret with
          | some p =>
              rcases callerSys_step hinv hstep with hheap | hsame
              · exact (alloc_spans hinv hheap).trans (ih.flatMap_right _)
              · -- a block was handed out, so something changed
                have hlive := congrArg (List.length ∘ Heap.live) hsame
                simp [hstep.2, takeBlock] at hlive
          | none =>
              have hlive : s'.live = s.live := hstep.2
              have hspans : s'.spans = s.spans := by
                rcases callerSys_step hinv hstep with hheap | hsame
                · unfold Heap.spans
                  rw [hlive, alloc_null hinv.regions hheap.1 hheap.2.1]
                · rw [hsame]
              rw [hspans]
              exact ih

/-- Every piece is a part of the heap. -/
theorem pieces_within {es : List Call} {h : Heap}
    (hrun : callerSys.Run es h) {s : Span} (hs : s ∈ pieces es) :
    s.Within heap := by
  have hinv := heapInv_callerRun hrun
  have hmem := (spans_perm_pieces hrun).mem_iff.mpr hs
  rcases List.mem_append.mp hmem with hlive | hfree
  · obtain ⟨b, hb, rfl⟩ := List.mem_map.mp hlive
    exact (hinv.blocks b hb).inside
  · obtain ⟨n, hn, rfl⟩ := List.mem_map.mp hfree
    exact (hinv.regions n hn).inside

/-- Every block of the run handed out lay inside the heap. -/
theorem block_within {es : List Call} {s s' : Heap} {l : Layout} {p : Nat}
    (hrun : callerSys.Run es s)
    (hstep : callerSys.step s (.alloc l (some p)) s') :
    (Block.span ⟨p, l⟩).Within heap := by
  have hinv := heapInv_callerRun (.step hrun hstep)
  apply Block.Ok.inside
  apply hinv.blocks
  rw [hstep.2]
  exact List.mem_cons_self ..

/-- The calls of a run hand out the whole heap or nothing. -/
def WholeOnly (es : List Call) : Prop :=
  ∀ l p, Call.alloc l (some p) ∈ es → blockSize l = heapSize

theorem wholeOnly_step {es : List Call} {call : Call} :
    WholeOnly (es ++ [call]) ↔ WholeOnly es
      ∧ ∀ l p, call = .alloc l (some p) → blockSize l = heapSize := by
  unfold WholeOnly
  simp only [List.mem_append, List.mem_singleton]
  constructor
  · intro h
    exact ⟨fun l p hmem => h l p (Or.inl hmem),
      fun l p heq => h l p (Or.inr heq.symm)⟩
  · intro h l p hmem
    rcases hmem with hmem | heq
    · exact h.1 l p hmem
    · exact h.2 l p heq.symm

/-- The heap is still one of the pieces only if it was never cut. -/
theorem wholeOnly_of_mem {es : List Call} {h : Heap}
    (hrun : callerSys.Run es h) (hmem : heap ∈ pieces es) :
    WholeOnly es := by
  induction hrun with
  | start _ =>
      intro l p hcall
      cases hcall
  | @step es call s s' hrun hstep ih =>
      rw [pieces_step] at hmem
      refine wholeOnly_step.mpr ?_
      cases call with
      | dealloc p l =>
          refine ⟨ih hmem, fun l' p' hcall => ?_⟩
          cases hcall
      | alloc l ret =>
          cases ret with
          | none =>
              refine ⟨ih hmem, fun l' p' hcall => ?_⟩
              cases hcall
          | some p =>
              obtain ⟨t, ht, hcut⟩ := List.mem_flatMap.mp hmem
              obtain ⟨hblock, rfl⟩ := Span.eq_of_mem_cut (blockSize_pos l)
                (block_within hrun hstep) (pieces_within hrun ht) hcut
              refine ⟨ih ht, fun l' p' hcall => ?_⟩
              cases hcall
              exact congrArg Span.size hblock

/-- A heap that was never cut is in one piece. -/
theorem pieces_of_wholeOnly {es : List Call} {h : Heap}
    (hrun : callerSys.Run es h) (hwhole : WholeOnly es) :
    pieces es = [heap] := by
  induction hrun with
  | start _ => rfl
  | @step es call s s' hrun hstep ih =>
      obtain ⟨hbefore, hcall⟩ := wholeOnly_step.mp hwhole
      rw [pieces_step, ih hbefore]
      cases call with
      | dealloc p l => rfl
      | alloc l ret =>
          cases ret with
          | none => rfl
          | some p =>
              have hin := block_within hrun hstep
              have hsize : blockSize l = heapSize := hcall l p rfl
              have hblock : Block.span ⟨p, l⟩ = heap :=
                hin.eq_of_size_le (Nat.le_of_eq hsize.symm)
              show [heap].flatMap (Block.span ⟨p, l⟩).cut = [heap]
              rw [hblock]
              rfl

-- ========================================================== what is served

/-- The allocator hands out a block for the layout. -/
def CanServe (a : LinkedListAllocator) (l : Layout) : Prop :=
  ∃ p a', alloc a l = .ok (some p, a')

/-- A layout that fits into a region of the heap is a supported one: no
address of the heap is a multiple of `2^32`. -/
theorem supported_of_fits {n : ListNode} (hn : n.Ok) {l : Layout}
    (hfit : Fits n (blockSize l) (blockAlign l)) : Supported l := by
  have hbounds := hn.bounds
  have hlow := le_startIn n l
  have hend : startIn n (blockAlign l) + blockSize l ≤ n.addr + n.size :=
    hfit.1
  have hheap : heapStart = 0xffffffff7fe00000 := by decide
  have hpos := blockSize_pos l
  refine ⟨?_, ?_⟩
  · by_contra hlarge
    have halign : 2 ^ 32 ≤ blockAlign l :=
      Nat.le_trans (le_of_pow2_gt l.pow2 (Nat.lt_of_not_le hlarge))
        (Nat.le_max_left ..)
    have hdvd : 2 ^ 32 ∣ startIn n (blockAlign l) :=
      dvd_trans (isPowerOfTwo_dvd ⟨32, rfl⟩ (blockAlign_pow2 l) halign)
        (startIn_dvd n l)
    obtain ⟨q, hq⟩ := hdvd
    omega
  · have hround : roundUp l.size (max l.align nodeAlign) ≤ blockSize l :=
      Nat.le_max_left ..
    unfold isizeMax
    omega

theorem canServe_of_fits {a : LinkedListAllocator}
    (hok : ∀ n ∈ a.chain, n.Ok) {n : ListNode} (hn : n ∈ a.chain)
    {l : Layout} (hfit : Fits n (blockSize l) (blockAlign l)) :
    CanServe a l := by
  rcases alloc_spec hok (supported_of_fits (hok n hn) hfit) with
    ⟨-, hnone⟩ | ⟨front, m, back, -, -, -, hsome⟩
  · exact absurd hfit (hnone n hn)
  · exact ⟨_, _, hsome⟩

/-- With no live block the free regions are the pieces. -/
theorem regions_perm_pieces {es : List Call} {h : Heap}
    (hrun : callerSys.Run es h) (hlive : h.live = []) :
    (h.allocator.chain.map ListNode.span).Perm (pieces es) := by
  have hperm := spans_perm_pieces hrun
  unfold Heap.spans at hperm
  rw [hlive] at hperm
  exact hperm

/-- The whole heap, on any address. -/
def wholeLayout : Layout :=
  ⟨heapSize, 1, Nat.isPowerOfTwo_one, by decide⟩

/-- The fresh heap can be handed out as one block. -/
theorem fresh_serves_whole : CanServe freshHeap.allocator wholeLayout :=
  canServe_of_fits (heapInv_callerRun run_fresh).regions
    (List.mem_singleton_self _) (by decide)

/-- Only a free region that is the whole heap can be handed out so. -/
theorem heap_mem_of_serves {a : LinkedListAllocator}
    (hok : ∀ n ∈ a.chain, n.Ok) (h : CanServe a wholeLayout) :
    heap ∈ a.chain.map ListNode.span := by
  obtain ⟨p, a', halloc⟩ := h
  have hsize : blockSize wholeLayout = heapSize := by decide
  rcases alloc_spec hok (l := wholeLayout) (by decide) with
    ⟨hnone, -⟩ | ⟨front, n, back, hsplit, hfit, -, -⟩
  · have hret := (Prod.mk.inj (Except.ok.inj (hnone.symm.trans halloc))).1
    cases hret
  · have hn : n ∈ a.chain := by
      rw [hsplit]
      simp
    refine List.mem_map.mpr ⟨n, hn, (hok n hn).inside.eq_of_size_le ?_⟩
    have hlow := le_startIn n wholeLayout
    have hend : startIn n (blockAlign wholeLayout) + blockSize wholeLayout
        ≤ n.addr + n.size := hfit.1
    show heapSize ≤ n.size
    omega

/-- What a heap with no live block can serve. A layout that fits into one
of the pieces into which the run has cut the heap can be served; and
every layout that the fresh heap serves can be served exactly if the heap
was never cut, every block handed out having been all of it. -/
theorem recoverable_iff {es : List Call} {h : Heap}
    (hrun : callerSys.Run es h) (hlive : h.live = []) :
    (∀ l, (∃ s ∈ pieces es,
        Fits ⟨s.start, s.size⟩ (blockSize l) (blockAlign l)) →
      CanServe h.allocator l)
    ∧ ((∀ l, CanServe freshHeap.allocator l → CanServe h.allocator l)
      ↔ ∀ l p, Call.alloc l (some p) ∈ es → blockSize l = heapSize) := by
  have hok := (heapInv_callerRun hrun).regions
  have hpieces := regions_perm_pieces hrun hlive
  refine ⟨?_, ?_, ?_⟩
  · intro l hfits
    obtain ⟨s, hs, hfit⟩ := hfits
    obtain ⟨n, hn, rfl⟩ := List.mem_map.mp (hpieces.mem_iff.mpr hs)
    exact canServe_of_fits hok hn hfit
  · intro hall
    have hwhole := heap_mem_of_serves hok (hall _ fresh_serves_whole)
    exact wholeOnly_of_mem hrun (hpieces.mem_iff.mp hwhole)
  · intro hwhole
    have hone := pieces_of_wholeOnly hrun hwhole
    rw [hone] at hpieces
    have hchain : h.allocator.chain = [⟨heapStart, heapSize⟩] := by
      obtain ⟨n, hn, hspan⟩ :=
        List.map_eq_singleton_iff.mp (List.perm_singleton.mp hpieces)
      cases n
      cases hspan
      exact hn
    have hsame : h.allocator = freshHeap.allocator :=
      congrArg LinkedListAllocator.mk hchain
    intro l hserve
    rw [hsame]
    exact hserve

/-- After the first block of a fresh heap is freed again. -/
def heapFreed : Heap :=
  ⟨⟨[⟨heapStart, 24⟩, ⟨heapStart + 24, heapSize - 24⟩]⟩, []⟩

theorem run_freed :
    callerSys.Run [.alloc smallLayout (some heapStart),
      .dealloc heapStart smallLayout] heapFreed :=
  .step run_small ⟨by decide, by decide, by decide⟩

/-- One small block, freed: it can be had again, the whole heap cannot. -/
theorem recoverable_iff_small :
    CanServe heapFreed.allocator smallLayout
      ∧ ¬ ∀ l, CanServe freshHeap.allocator l →
          CanServe heapFreed.allocator l := by
  obtain ⟨hserved, hiff⟩ := recoverable_iff run_freed rfl
  refine ⟨hserved smallLayout ⟨⟨heapStart, 24⟩, by decide, by decide⟩, ?_⟩
  intro hall
  have hsize := hiff.mp hall smallLayout heapStart (List.mem_cons_self ..)
  exact absurd hsize (by decide)

/-- After one small block the heap is never in one piece again. -/
theorem whole_lost :
    ¬ ∀ es h, callerSys.Run es h → h.live = [] →
      ∀ l, CanServe freshHeap.allocator l → CanServe h.allocator l := by
  intro hall
  have hserved := hall _ _ run_freed rfl _ fresh_serves_whole
  have hmem := heap_mem_of_serves (heapInv_callerRun run_freed).regions
    hserved
  revert hmem
  decide

end Bayos.Allocator
