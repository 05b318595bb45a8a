/-
The free list in memory is the free list of the model: `find_region`
walks and relinks the nodes of a chain as `Model/Allocator.lean` searches
a list and drops an entry.

The simulation has no side condition on the regions: where the search on
the list panics, so does the loop on memory. What bounds its rounds is
that a chain which ends is finite and passes no node twice.
-/
import Bayos.Model.FreeList
import Bayos.Proofs.Allocator

namespace Bayos.FreeList

open Rust
open Lib.Linked
open Bayos.Allocator (alignUp nodeSize ListNode allocFromRegion Fits startIn
  heapStart)

-- ============================================================== vocabulary

/-- A node as a cell of a chain. -/
def entry (n : ListNode) : Nat × Nat := (n.addr, n.size)

/-- The free list in memory: the nodes behind `head`, in order. -/
def Holds (self : LinkedListAllocator) (chain : List ListNode) : Prop :=
  Chain self (self.get .head).next (chain.map entry)

/-- A reference and a start, as `find_region` returns them. -/
def reference (ret : Option (ListNode × Nat)) : Option (Nat × Nat) :=
  ret.map fun r => (r.1.addr, r.2)

theorem mem_addrs {chain : List ListNode} {b : Nat} :
    b ∈ addrs (chain.map entry) ↔ ∃ n ∈ chain, n.addr = b := by
  simp [addrs, entry]

theorem nodeAt_eq {m : LinkedListAllocator} {next : Option Nat}
    {n : ListNode} {chain : List ListNode}
    (h : Chain m next ((n :: chain).map entry)) : nodeAt m n.addr = n := by
  have hval : (m.get (.cell n.addr)).val = n.size := h.2.1
  unfold nodeAt
  rw [hval]

-- ================================================================ the loop

/-- What the loop, begun at `current` in the memory `m` with the nodes
`chain` to come, leaves of it where the search on the list returns `ret`
and `chain'`. -/
structure Searched (m : LinkedListAllocator) (current : Place)
    (chain : List ListNode) (ret : Option (ListNode × Nat))
    (chain' : List ListNode) (m' : LinkedListAllocator) : Prop where
  links : Chain m' (m'.get current).next (chain'.map entry)
  missed : ret = none → m' = m
  found : ∀ n a, ret = some (n, a) → m'.get (.cell n.addr) = ⟨n.size, none⟩
  others : ∀ p, p ≠ current → (∀ n ∈ chain, p ≠ .cell n.addr) →
    m'.get p = m.get p
  values : ∀ p, (m'.get p).val = (m.get p).val

/-- A hit: the three writes unlink the node behind `current`. -/
theorem searched_hit {m : LinkedListAllocator} {current : Place}
    {n : ListNode} {chain : List ListNode} (a : Nat)
    (hlinks : Chain m (m.get current).next ((n :: chain).map entry))
    (hcurrent : ∀ k ∈ n :: chain, current ≠ .cell k.addr) :
    Searched m current (n :: chain) (some (n, a)) chain
      ((m.setNext (.cell n.addr) none).setNext current
        (m.get (.cell n.addr)).next) := by
  have hn : Place.cell n.addr ≠ current :=
    (hcurrent n (List.mem_cons_self ..)).symm
  have hfresh : ∀ b ∈ addrs ((n :: chain).map entry), current ≠ .cell b := by
    intro b hb
    obtain ⟨k, hk, rfl⟩ := mem_addrs.mp hb
    exact hcurrent k hk
  refine ⟨?_, nofun, ?_, ?_, ?_⟩
  · rw [Memory.get_setNext_self]
    exact Chain.unlink hlinks hfresh
  · intro k b hret
    obtain ⟨rfl, -⟩ := Prod.mk.inj (Option.some.inj hret)
    have hval : (m.get (.cell n.addr)).val = n.size := hlinks.2.1
    rw [Memory.get_setNext_of_ne hn, Memory.get_setNext_self, hval]
  · intro p hp hothers
    have hpn := hothers n (List.mem_cons_self ..)
    rw [Memory.get_setNext_of_ne hp, Memory.get_setNext_of_ne hpn]
  · intro p
    rw [Memory.val_setNext, Memory.val_setNext]

/-- A miss: the rest of the loop runs from the node passed, which keeps
its place. -/
theorem searched_miss {m m' : LinkedListAllocator} {current : Place}
    {n : ListNode} {chain chain' : List ListNode}
    {ret : Option (ListNode × Nat)}
    (hlinks : Chain m (m.get current).next ((n :: chain).map entry))
    (hcurrent : ∀ k ∈ n :: chain, current ≠ .cell k.addr)
    (h : Searched m (.cell n.addr) chain ret chain' m') :
    Searched m current (n :: chain) ret (n :: chain') m' := by
  have hsame : m'.get current = m.get current :=
    h.others current (hcurrent n (List.mem_cons_self ..))
      fun k hk => hcurrent k (List.mem_cons_of_mem _ hk)
  refine ⟨?_, h.missed, h.found, ?_, h.values⟩
  · rw [hsame]
    exact ⟨hlinks.1, (h.values _).trans hlinks.2.1, h.links⟩
  · intro p hp hothers
    exact h.others p (hothers n (List.mem_cons_self ..))
      fun k hk => hothers k (List.mem_cons_of_mem _ hk)

/-- One round: the test on the node that `current` leads to. -/
theorem findRegionFrom_succ (size align : Nat) {m : LinkedListAllocator}
    {current : Place} {n : ListNode} {chain : List ListNode}
    (hlinks : Chain m (m.get current).next ((n :: chain).map entry))
    (hcurrent : current ≠ .cell n.addr) (rounds : Nat) :
    findRegionFrom size align (rounds + 1) m current
      = match allocFromRegion n size align with
        | .error p => .error p
        | .ok (some a) => .ok (some (some (n.addr, a),
            (m.setNext (.cell n.addr) none).setNext current
              (m.get (.cell n.addr)).next))
        | .ok none => findRegionFrom size align rounds m (.cell n.addr) := by
  have hnext : (m.get current).next = some n.addr := hlinks.1
  have hbehind : ((m.setNext (.cell n.addr) none).get current).next
      = some n.addr := by
    rw [Memory.get_setNext_of_ne hcurrent, hnext]
  rw [findRegionFrom]
  simp only [hnext, nodeAt_eq hlinks]
  cases allocFromRegion n size align with
  | error p => rfl
  | ok found =>
      cases found with
      | some a =>
          simp only [ok_bind, Memory.take, hbehind, unwrap, expect_some,
            Memory.setNext_setNext]
          rfl
      | none => rfl

/-- The loop computes the search on the list, given a round for each node
and one more. -/
theorem findRegionFrom_refines (size align : Nat) {chain : List ListNode} :
    ∀ {m : LinkedListAllocator} {current : Place},
      Chain m (m.get current).next (chain.map entry) →
      (∀ n ∈ chain, current ≠ .cell n.addr) →
      match Allocator.findRegion chain size align with
      | .error p => ∀ rounds, chain.length ≤ rounds →
          findRegionFrom size align (rounds + 1) m current = .error p
      | .ok (ret, chain') => ∃ m', Searched m current chain ret chain' m'
          ∧ ∀ rounds, chain.length ≤ rounds →
            findRegionFrom size align (rounds + 1) m current
              = .ok (some (reference ret, m')) := by
  induction chain with
  | nil =>
      intro m current hlinks _
      have hend : (m.get current).next = none := hlinks
      refine ⟨m, ⟨hlinks, fun _ => rfl, nofun, fun _ _ _ => rfl,
        fun _ => rfl⟩, fun rounds _ => ?_⟩
      rw [findRegionFrom, hend]
      rfl
  | cons n chain ih =>
      intro m current hlinks hcurrent
      have hpassed : ∀ k ∈ chain, Place.cell n.addr ≠ .cell k.addr := by
        intro k hk hsame
        have hmem : n.addr ∈ addrs (chain.map entry) :=
          mem_addrs.mpr ⟨k, hk, (Place.cell.inj hsame).symm⟩
        exact (List.nodup_cons.mp hlinks.nodup).1 hmem
      have hrest := ih hlinks.2.2 hpassed
      have hround := findRegionFrom_succ size align hlinks
        (hcurrent n (List.mem_cons_self ..))
      unfold Allocator.findRegion
      cases htest : allocFromRegion n size align with
      | error p =>
          intro rounds _
          rw [hround, htest]
      | ok found =>
          cases found with
          | some a =>
              refine ⟨_, searched_hit a hlinks hcurrent, fun rounds _ => ?_⟩
              rw [hround, htest]
              rfl
          | none =>
              -- the rounds left are those of the rest of the chain
              cases hfind : Allocator.findRegion chain size align with
              | error p =>
                  rw [hfind] at hrest
                  intro rounds hrounds
                  obtain ⟨rounds, rfl⟩ := Nat.exists_eq_add_one.mpr
                    (Nat.zero_lt_of_lt hrounds)
                  rw [hround, htest]
                  exact hrest rounds (Nat.le_of_succ_le_succ hrounds)
              | ok r =>
                  rw [hfind] at hrest
                  obtain ⟨m', hsearched, hloop⟩ := hrest
                  refine ⟨m', searched_miss hlinks hcurrent hsearched, ?_⟩
                  intro rounds hrounds
                  obtain ⟨rounds, rfl⟩ := Nat.exists_eq_add_one.mpr
                    (Nat.zero_lt_of_lt hrounds)
                  rw [hround, htest]
                  exact hloop rounds (Nat.le_of_succ_le_succ hrounds)

/-- `find_region` computes the search on the list. -/
theorem findRegion_refines {m : LinkedListAllocator} {chain : List ListNode}
    (hholds : Holds m chain) (size align : Nat) :
    match Allocator.findRegion chain size align with
    | .error p => ∀ rounds, chain.length < rounds →
        findRegion rounds m size align = .error p
    | .ok (ret, chain') => ∃ m', Searched m .head chain ret chain' m'
        ∧ ∀ rounds, chain.length < rounds →
          findRegion rounds m size align
            = .ok (some (reference ret, m')) := by
  have hfrom := findRegionFrom_refines size align hholds
    fun n _ => (cell_ne_head n.addr).symm
  have hrounds : ∀ rounds, chain.length < rounds →
      ∃ k, rounds = k + 1 ∧ chain.length ≤ k := by
    intro rounds hlt
    obtain ⟨k, rfl⟩ := Nat.exists_eq_add_one.mpr (Nat.zero_lt_of_lt hlt)
    exact ⟨k, rfl, Nat.le_of_lt_succ hlt⟩
  cases hfind : Allocator.findRegion chain size align with
  | error p =>
      rw [hfind] at hfrom
      intro rounds hlt
      obtain ⟨k, rfl, hk⟩ := hrounds rounds hlt
      exact hfrom k hk
  | ok r =>
      rw [hfind] at hfrom
      obtain ⟨m', hsearched, hloop⟩ := hfrom
      refine ⟨m', hsearched, fun rounds hlt => ?_⟩
      obtain ⟨k, rfl, hk⟩ := hrounds rounds hlt
      exact hloop k hk

-- =============================================================== first fit

/-- The block of a request would start at `a` in the region `n`: `a` is
the region's start rounded up, the block ends inside the region, and what
is behind it is nothing or large enough for a node. -/
def PlacedAt (n : ListNode) (size align a : Nat) : Prop :=
  alignUp n.startAddr align = .ok a ∧ a + size ≤ n.span.stop
    ∧ (n.span.stop - a - size = 0 ∨ nodeSize ≤ n.span.stop - a - size)

theorem placedAt_iff {n : ListNode} (h : n.Below) {size align a : Nat}
    (hp : align.isPowerOfTwo) (hle : align ≤ 2 ^ 31) :
    PlacedAt n size align a ↔ Fits n size align ∧ a = startIn n align := by
  unfold PlacedAt Fits
  rw [h.alignUp_eq hp hle, Except.ok.injEq, Nat.sub_sub]
  constructor
  · intro hparts
    obtain ⟨rfl, hfits⟩ := hparts
    exact ⟨hfits, rfl⟩
  · intro hparts
    obtain ⟨hfits, rfl⟩ := hparts
    exact ⟨rfl, hfits⟩

/-- `find_region` is exact first fit. On every free list in memory, for
every size and every alignment up to `2^31`, the search ends; it returns
`None`, and has written nothing, exactly when no region passes; and what
it returns otherwise is the first region that passes, with the start of
the block in it, unlinked from a list whose other nodes are as they
were. -/
theorem findRegion_first_fit {m : LinkedListAllocator}
    {chain : List ListNode} (hholds : Holds m chain)
    (hbelow : ∀ n ∈ chain, n.Below) (size : Nat) {align : Nat}
    (hp : align.isPowerOfTwo) (hle : align ≤ 2 ^ 31) :
    ∃ ret m', (∀ rounds, chain.length < rounds →
        findRegion rounds m size align = .ok (some (ret, m')))
      ∧ (ret = none ↔ ∀ n ∈ chain, ∀ a, ¬ PlacedAt n size align a)
      ∧ (ret = none → m' = m)
      ∧ ∀ addr a, ret = some (addr, a) → ∃ front n back,
          chain = front ++ n :: back ∧ n.addr = addr
          ∧ PlacedAt n size align a
          ∧ (∀ k ∈ front, ∀ b, ¬ PlacedAt k size align b)
          ∧ Holds m' (front ++ back)
          ∧ m'.get (.cell addr) = ⟨n.size, none⟩ := by
  have hfails : ∀ n ∈ chain, ¬ Fits n size align →
      ∀ a, ¬ PlacedAt n size align a :=
    fun n hn hnot a ha => hnot ((placedAt_iff (hbelow n hn) hp hle).mp ha).1
  have hrefines := findRegion_refines hholds size align
  rcases Allocator.findRegion_spec size hp hle hbelow with
    ⟨hfind, hnone⟩ | ⟨front, n, back, hsplit, hfit, hfront, hfind⟩
  · rw [hfind] at hrefines
    obtain ⟨m', hsearched, hloop⟩ := hrefines
    exact ⟨none, m', hloop,
      iff_of_true rfl fun n hn => hfails n hn (hnone n hn),
      fun _ => hsearched.missed rfl, nofun⟩
  · rw [hfind] at hrefines
    obtain ⟨m', hsearched, hloop⟩ := hrefines
    have hn : n ∈ chain := by
      rw [hsplit]
      simp
    have hplaced : PlacedAt n size align (startIn n align) :=
      (placedAt_iff (hbelow n hn) hp hle).mpr ⟨hfit, rfl⟩
    refine ⟨some (n.addr, startIn n align), m', hloop,
      iff_of_false nofun fun hnone => hnone n hn _ hplaced, nofun, ?_⟩
    intro addr a hret
    obtain ⟨rfl, rfl⟩ := Prod.mk.inj (Option.some.inj hret)
    refine ⟨front, n, back, hsplit, rfl, hplaced, ?_, hsearched.links,
      hsearched.found n _ rfl⟩
    intro k hk
    have hmem : k ∈ chain := by
      rw [hsplit]
      exact List.mem_append_left _ hk
    exact hfails k hmem (hfront k hk)

/-- Three free regions, the second one large. -/
def scatteredChain : List ListNode :=
  [⟨heapStart, 16⟩, ⟨heapStart + 64, 64⟩, ⟨heapStart + 256, 32⟩]

/-- The same in memory. -/
def scattered : LinkedListAllocator where
  head := ⟨0, some heapStart⟩
  cells a :=
    if a = heapStart then ⟨16, some (heapStart + 64)⟩
    else if a = heapStart + 64 then ⟨64, some (heapStart + 256)⟩
    else ⟨32, none⟩

/-- A request for 64 bytes is served from the middle of the list. -/
theorem findRegion_first_fit_middle :
    ∃ a m' front n back,
      findRegion 4 scattered 64 8 = .ok (some (some (n.addr, a), m'))
      ∧ scatteredChain = front ++ n :: back ∧ PlacedAt n 64 8 a
      ∧ Holds m' (front ++ back) := by
  have hholds : Holds scattered scatteredChain := by
    unfold Holds
    exact ⟨rfl, rfl, rfl, rfl, rfl, rfl, rfl⟩
  have hbelow : ∀ n ∈ scatteredChain, n.Below := by
    intro n hn
    rcases List.mem_cons.mp hn with rfl | hn
    · exact ⟨by decide, by decide⟩
    rcases List.mem_pair.mp hn with rfl | rfl
    · exact ⟨by decide, by decide⟩
    · exact ⟨by decide, by decide⟩
  have hpow : (8 : Nat).isPowerOfTwo := ⟨3, rfl⟩
  obtain ⟨ret, m', hloop, hnone, -, hfound⟩ :=
    findRegion_first_fit hholds hbelow 64 hpow (by decide)
  have hsome : ret ≠ none := by
    intro hret
    exact hnone.mp hret ⟨heapStart + 64, 64⟩ (by decide) (heapStart + 64)
      ⟨rfl, by decide, by decide⟩
  obtain ⟨⟨addr, a⟩, rfl⟩ := Option.ne_none_iff_exists'.mp hsome
  obtain ⟨front, n, back, hsplit, rfl, hplaced, -, hrest, -⟩ :=
    hfound addr a rfl
  exact ⟨a, m', front, n, back, hloop 4 (by decide), hsplit, hplaced, hrest⟩

end Bayos.FreeList
