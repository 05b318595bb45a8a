/-
The heap in memory: what holds of the allocator with its free list as a
list holds of it with its nodes in the memory that it hands out.

# The refinement

`alloc` and `dealloc` on memory return what they return on the list and
leave a memory that holds the list they leave. Between two calls the
callers write into their blocks, whatever they like: a node lies in a
free region, and no free region shares a byte with a live block.
-/
import Bayos.Proofs.Failure
import Bayos.Proofs.FreeList

namespace Bayos.FreeList

open Rust
open Lib (Span AllDisjoint TransSys)
open Lib.Linked
open Bayos.Allocator (ListNode Block Call Heap HeapInv alignUp nodeSize
  nodeAlign sizeAlign allocFromRegion blockSize blockAlign blockAlign_pow2
  blockSize_pos takeBlock callerSys heapStart heapSize)

-- =============================================================== the calls

/-- A new region at an address of its own. -/
theorem addFreeRegion_refines {m : LinkedListAllocator}
    {chain : List ListNode} (hholds : Holds m chain) {addr : Nat}
    (hfresh : ∀ n ∈ chain, n.addr ≠ addr) (size : Nat) :
    Refines (Allocator.addFreeRegion ⟨chain⟩ addr size)
      (addFreeRegion m addr size) fun self m' => Holds m' self.chain := by
  have hnew : addr ∉ addrs (chain.map entry) := by
    intro hmem
    obtain ⟨n, hn, haddr⟩ := mem_addrs.mp hmem
    exact hfresh n hn haddr
  refine .bind_same fun up _ => .bind_same fun _ _ => .bind_same fun _ _ => ?_
  exact .pure (Chain.push hholds hnew)

/-- Where a search on the list ends with a region. -/
theorem findRegion_hit {size align : Nat} {n : ListNode} {a : Nat}
    {chain chain' : List ListNode}
    (h : Allocator.findRegion chain size align = .ok (some (n, a), chain')) :
    ∃ front back, chain = front ++ n :: back ∧ chain' = front ++ back
      ∧ allocFromRegion n size align = .ok (some a) := by
  induction chain generalizing chain' with
  | nil => cases h
  | cons k chain ih =>
      unfold Allocator.findRegion at h
      obtain ⟨found, htest, hrest⟩ := bind_eq_ok.mp h
      cases found with
      | some b =>
          cases hrest
          exact ⟨[], chain, rfl, rfl, htest⟩
      | none =>
          obtain ⟨⟨ret, next⟩, hfind, hrest⟩ := bind_eq_ok.mp hrest
          cases hrest
          obtain ⟨front, back, rfl, rfl, hn⟩ := ih hfind
          exact ⟨k :: front, back, rfl, rfl, hn⟩

/-- A block found in a region starts in it. -/
theorem le_of_found {n : ListNode} {size align a : Nat}
    (hp : align.isPowerOfTwo)
    (h : allocFromRegion n size align = .ok (some a)) : n.addr ≤ a := by
  unfold allocFromRegion at h
  obtain ⟨start, hstart, hrest⟩ := bind_eq_ok.mp h
  have heq : start = a := by
    split at hrest
    case h_1 => cases hrest
    case h_2 =>
      obtain ⟨stop, -, hrest⟩ := bind_eq_ok.mp hrest
      split at hrest
      case isTrue => cases hrest
      case isFalse =>
        obtain ⟨excess, -, hrest⟩ := bind_eq_ok.mp hrest
        split at hrest
        case isTrue => cases hrest
        case isFalse => exact Option.some.inj (Except.ok.inj hrest)
  subst heq
  have hsum : n.startAddr + align < wordSize := by
    by_contra hover
    unfold alignUp Usize.add at hstart
    rw [if_neg hover] at hstart
    cases hstart
  have hround := (Allocator.alignUp_eq hp hsum).symm.trans hstart
  rw [← Except.ok.inj hround]
  exact le_roundUp (Nat.pos_of_isPowerOfTwo hp)

/-- Behind the block there is room for the excess only in the region it
was found in. -/
theorem excess_fresh {front back : List ListNode} {n : ListNode}
    (hok : ∀ k ∈ front ++ n :: back, k.Ok)
    (hdisjoint : AllDisjoint ((front ++ n :: back).map ListNode.span))
    {at_ : Nat} (hlow : n.addr ≤ at_) (hhigh : at_ < n.addr + n.size) :
    ∀ k ∈ front ++ back, k.addr ≠ at_ := by
  intro k hk haddr
  have hmem : k ∈ front ++ n :: back := by
    rcases List.mem_append.mp hk with hk | hk
    · exact List.mem_append_left _ hk
    · exact List.mem_append_right _ (List.mem_cons_of_mem _ hk)
  have hfirst : AllDisjoint (n.span :: (front ++ back).map ListNode.span) :=
    hdisjoint.perm (List.perm_middle.map ListNode.span)
  have hdis := (List.pairwise_cons.mp hfirst).1 k.span
    (List.mem_map.mpr ⟨k, hk, rfl⟩)
  have hlarge := (hok k hmem).large
  have hsize : nodeSize = 16 := rfl
  refine hdis at_ ⟨⟨hlow, hhigh⟩, Nat.le_of_eq haddr, ?_⟩
  show at_ < k.addr + k.size
  omega

/-- `alloc` on memory is `alloc` on the list, given a round for each node
and one more. -/
theorem alloc_refines {m : LinkedListAllocator}
    {self : Allocator.LinkedListAllocator} (hholds : Holds m self.chain)
    (hok : ∀ n ∈ self.chain, n.Ok)
    (hdisjoint : AllDisjoint (self.chain.map ListNode.span)) (l : Layout)
    {rounds : Nat} (hrounds : self.chain.length < rounds) :
    Refines (Allocator.alloc self l) (alloc rounds m l) fun r r' =>
      ∃ m', r' = some (r.1, m') ∧ Holds m' r.2.chain := by
  refine .bind_same fun r hsize => ?_
  obtain rfl := Allocator.sizeAlign_ok hsize
  have hsearch : Refines
      (Allocator.findRegion self.chain (blockSize l) (blockAlign l))
      (findRegion rounds m (blockSize l) (blockAlign l)) fun r r' =>
        ∃ m', r' = some (reference r.1, m')
          ∧ Searched m .head self.chain r.1 r.2 m' := by
    have hrefines := findRegion_refines hholds (blockSize l) (blockAlign l)
    unfold Refines
    split at hrefines
    case h_1 p hfind =>
      rw [hfind]
      exact hrefines rounds hrounds
    case h_2 ret chain' hfind =>
      obtain ⟨m', hsearched, hloop⟩ := hrefines
      rw [hfind]
      exact ⟨_, hloop rounds hrounds, m', rfl, hsearched⟩
  refine hsearch.bind fun found r' hfind h => ?_
  obtain ⟨ret, chain'⟩ := found
  obtain ⟨m', rfl, hsearched⟩ := h
  cases ret with
  | none => exact .pure ⟨m', rfl, hsearched.links⟩
  | some na =>
      obtain ⟨n, a⟩ := na
      obtain ⟨front, back, hsplit, rfl, htest⟩ := findRegion_hit hfind
      have hlow := le_of_found (blockAlign_pow2 l) htest
      have hnode : nodeAt m' n.addr = n := by
        unfold nodeAt
        rw [hsearched.found n a rfl]
      refine .bind_same fun allocEnd hend => ?_
      show Refines _ ((nodeAt m' n.addr).endAddr >>= _) _
      rw [hnode]
      refine .bind_same fun stop hstop => .bind_same fun excess hexcess => ?_
      obtain rfl := Usize.checkedAdd_some (expect_ok hend)
      obtain rfl := Usize.add_ok hstop
      obtain ⟨-, rfl⟩ := Usize.sub_ok hexcess
      split
      case isFalse => exact .pure ⟨m', rfl, hsearched.links⟩
      case isTrue hpos =>
        rw [hsplit] at hok hdisjoint
        have hfresh := excess_fresh hok hdisjoint
          (Nat.le_trans hlow (Nat.le_add_right a (blockSize l)))
          (Nat.lt_of_sub_pos hpos)
        refine (addFreeRegion_refines hsearched.links hfresh _).bind
          fun self' m'' _ hself => ?_
        exact .pure ⟨m'', rfl, hself⟩

/-- `dealloc` on memory is `dealloc` on the list, for a block at an
address that is not a node's. -/
theorem dealloc_refines {m : LinkedListAllocator}
    {self : Allocator.LinkedListAllocator} (hholds : Holds m self.chain)
    {ptr : Nat} (hfresh : ∀ n ∈ self.chain, n.addr ≠ ptr) (l : Layout) :
    Refines (Allocator.dealloc self ptr l) (dealloc m ptr l)
      fun self' m' => Holds m' self'.chain :=
  .bind_same fun _ _ => addFreeRegion_refines hholds hfresh _

-- ================================================================ the runs

/-- The allocator with its memory, and the blocks its callers hold. -/
structure MemHeap where
  memory : LinkedListAllocator
  live : List Block

/-- A call, or what callers do in between. -/
inductive Step
  | call (c : Call)
  | write

/-- The calls among the steps. -/
def Step.asCall : Step → Option Call
  | .call c => some c
  | .write => none

/-- The heap in memory under any callers. They write into their blocks: a
node's bytes are as they were where no live block has a part in them. -/
def memSys : TransSys MemHeap Step where
  init s := (∃ m : LinkedListAllocator, m.head = ⟨0, none⟩
    ∧ addFreeRegion m heapStart heapSize = .ok s.memory) ∧ s.live = []
  step s step s' :=
    match step with
    | .call (.alloc l ret) => (∃ enough, ∀ rounds, enough ≤ rounds →
          alloc rounds s.memory l = .ok (some (ret, s'.memory)))
        ∧ s'.live = takeBlock s.live l ret
    | .call (.dealloc p l) => (⟨p, l⟩ : Block) ∈ s.live
        ∧ dealloc s.memory p l = .ok s'.memory
        ∧ s'.live = s.live.erase ⟨p, l⟩
    | .write => s'.memory.head = s.memory.head
        ∧ (∀ a, (∀ b ∈ s.live, (Span.mk a nodeSize).Disjoint b.span) →
            s'.memory.cells a = s.memory.cells a)
        ∧ s'.live = s.live

/-- The memory holds the free list, and the blocks are the same. -/
structure InMemory (s : MemHeap) (h : Heap) : Prop where
  holds : Holds s.memory h.allocator.chain
  live : s.live = h.live

/-- A live block and a free region share no byte. -/
theorem block_disjoint {h : Heap} (hinv : HeapInv h) {b : Block}
    (hb : b ∈ h.live) {n : ListNode} (hn : n ∈ h.allocator.chain) :
    b.span.Disjoint n.span :=
  (List.pairwise_append.mp hinv.disjoint).2.2 _
    (List.mem_map.mpr ⟨b, hb, rfl⟩) _ (List.mem_map.mpr ⟨n, hn, rfl⟩)

/-- Nor does a node with a live block. -/
theorem node_disjoint {h : Heap} (hinv : HeapInv h) {b : Block}
    (hb : b ∈ h.live) {n : ListNode} (hn : n ∈ h.allocator.chain) :
    (Span.mk n.addr nodeSize).Disjoint b.span := by
  refine (block_disjoint hinv hb hn).symm.of_within ⟨Nat.le_refl _, ?_⟩
  exact Nat.add_le_add_left (hinv.regions n hn).large n.addr

theorem inMemory_init {s : MemHeap} (hinit : memSys.init s) :
    InMemory s Allocator.freshHeap := by
  obtain ⟨⟨m, hhead, hadd⟩, hlive⟩ := hinit
  have hempty : Holds m [] := congrArg Cell.next hhead
  have hfresh : ∀ n ∈ ([] : List ListNode), n.addr ≠ heapStart := nofun
  have hrefines := addFreeRegion_refines hempty hfresh heapSize
  have hinit : Allocator.addFreeRegion ⟨[]⟩ heapStart heapSize
      = .ok Allocator.freshHeap.allocator := Allocator.init_eq
  rw [hinit] at hrefines
  obtain ⟨m', hadd', hholds⟩ := hrefines
  obtain rfl := Except.ok.inj (hadd'.symm.trans hadd)
  exact ⟨hholds, hlive⟩

theorem inMemory_alloc {s s' : MemHeap} {h : Heap} {l : Layout}
    {ret : Option Nat} (hinv : HeapInv h) (hsim : InMemory s h)
    (hstep : memSys.step s (.call (.alloc l ret)) s') :
    ∃ h', callerSys.step h (.alloc l ret) h' ∧ InMemory s' h' := by
  obtain ⟨⟨enough, hloop⟩, hlive⟩ := hstep
  have hregions : AllDisjoint (h.allocator.chain.map ListNode.span) :=
    (List.pairwise_append.mp hinv.disjoint).2.1
  have hrounds : h.allocator.chain.length
      < max enough (h.allocator.chain.length + 1) :=
    Nat.le_max_right ..
  have hrefines := alloc_refines hsim.holds hinv.regions hregions l hrounds
  have hresult := hloop (max enough (h.allocator.chain.length + 1))
    (Nat.le_max_left ..)
  cases halloc : Allocator.alloc h.allocator l with
  | error p =>
      rw [halloc] at hrefines
      cases hrefines.symm.trans hresult
  | ok r =>
      rw [halloc] at hrefines
      obtain ⟨r', hr', m', rfl, hholds⟩ := hrefines
      obtain ⟨rfl, rfl⟩ := Prod.mk.inj
        (Option.some.inj (Except.ok.inj (hr'.symm.trans hresult)))
      refine ⟨⟨r.2, takeBlock h.live l r.1⟩, ⟨halloc, rfl⟩, hholds, ?_⟩
      rw [hlive, hsim.live]

theorem inMemory_dealloc {s s' : MemHeap} {h : Heap} {p : Nat} {l : Layout}
    (hinv : HeapInv h) (hsim : InMemory s h)
    (hstep : memSys.step s (.call (.dealloc p l)) s') :
    ∃ h', callerSys.step h (.dealloc p l) h' ∧ InMemory s' h' := by
  obtain ⟨hb, hdealloc, hlive⟩ := hstep
  rw [hsim.live] at hb hlive
  have hfresh : ∀ n ∈ h.allocator.chain, n.addr ≠ p := by
    intro n hn haddr
    have hlarge := (hinv.regions n hn).large
    refine block_disjoint hinv hb hn p
      ⟨⟨Nat.le_refl p, Nat.lt_add_of_pos_right (blockSize_pos l)⟩,
        Nat.le_of_eq haddr, ?_⟩
    rw [← haddr]
    exact Nat.lt_add_of_pos_right (Nat.lt_of_lt_of_le (by decide) hlarge)
  have hlist := Allocator.dealloc_live hinv hb
  have hrefines := dealloc_refines hsim.holds hfresh l
  rw [hlist] at hrefines
  obtain ⟨m', hm', hholds⟩ := hrefines
  obtain rfl := Except.ok.inj (hm'.symm.trans hdealloc)
  exact ⟨⟨_, h.live.erase ⟨p, l⟩⟩, ⟨hb, hlist, rfl⟩, hholds, hlive⟩

/-- What callers write changes no node. -/
theorem inMemory_write {s s' : MemHeap} {h : Heap} (hinv : HeapInv h)
    (hsim : InMemory s h) (hstep : memSys.step s .write s') :
    InMemory s' h := by
  obtain ⟨hhead, hcells, hlive⟩ := hstep
  refine ⟨?_, hlive.trans hsim.live⟩
  have hnext : (s'.memory.get .head).next = (s.memory.get .head).next :=
    congrArg Cell.next hhead
  unfold Holds
  rw [hnext]
  refine Chain.congr hsim.holds fun a ha => ?_
  obtain ⟨n, hn, rfl⟩ := mem_addrs.mp ha
  refine hcells n.addr fun b hb => ?_
  rw [hsim.live] at hb
  exact node_disjoint hinv hb hn

/-- Every run on memory is a run on the list, whatever the callers write
into their blocks: the calls return the same, and the nodes in memory are
the free list. -/
theorem memory_simulates {steps : List Step} {s : MemHeap}
    (hrun : memSys.Run steps s) :
    ∃ h, callerSys.Run (steps.filterMap Step.asCall) h ∧ InMemory s h := by
  induction hrun with
  | start hinit =>
      exact ⟨_, Allocator.run_fresh, inMemory_init hinit⟩
  | @step steps step s s' hrun hstep ih =>
      obtain ⟨h, hlist, hsim⟩ := ih
      have hinv := Allocator.heapInv_callerRun hlist
      rw [List.filterMap_append]
      cases step with
      | write =>
          refine ⟨h, ?_, inMemory_write hinv hsim hstep⟩
          rw [show [Step.write].filterMap Step.asCall = [] from rfl,
            List.append_nil]
          exact hlist
      | call c =>
          have hnext : ∃ h', callerSys.step h c h' ∧ InMemory s' h' := by
            cases c with
            | alloc l ret => exact inMemory_alloc hinv hsim hstep
            | dealloc p l => exact inMemory_dealloc hinv hsim hstep
          obtain ⟨h', hcall, hsim'⟩ := hnext
          exact ⟨h', .step hlist hcall, hsim'⟩

end Bayos.FreeList
