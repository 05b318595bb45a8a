/-
One call of `anon_allocate_syscall`: when it returns, and what the kernel
is then.

# The range

A process's `pages` is a page boundary of the lower half. A request that
ends at or below the last page of that half is a run of whole pages
(`anonRange_eq`, `iter_eq`); one that goes further makes the iterator
panic, however many pages were handed out before (`iter_unfit`), since the
page after the last one is not canonical. That covers requests whose end
is canonical again, in the upper half.
-/
import Mathlib.Tactic.Ring
import Bayos.Proofs.Fresh
import Bayos.Proofs.Sched

namespace Bayos.Kernel

open Rust
open Lib (Word)
open Lib.Paging
open Lib.Paging.PageRangeInclusive (lastUser iter_user iter_hole len_user)
open Bayos.Memory

variable {PT : Type} {M : PageMapper PT} {k k' : State PT}

-- =============================================================== the range

/-- How many pages a request of `size` bytes takes. -/
def pagesFor (size : Nat) : Nat := (size + 4095) / 4096

theorem roundUp_size (size : Nat) :
    roundUp size 4096 = 4096 * pagesFor size := by
  unfold roundUp pagesFor
  rw [Nat.mul_comm]
  rfl

/-- The request ends below the last page of the lower half. -/
def Fits (a size : Nat) : Prop := 4096 * a + size ≤ 4096 * lastUser

instance (a size : Nat) : Decidable (Fits a size) :=
  inferInstanceAs (Decidable (_ ≤ _))

theorem Fits.le {a size : Nat} (h : Fits a size) :
    a + pagesFor size ≤ lastUser := by
  unfold Fits at h
  unfold pagesFor
  omega

/-- The range of a request that fits. -/
def fitting (a size : Nat) : PageRangeInclusive :=
  ⟨userPage a, userPage (a + pagesFor size - 1)⟩

/-- What the range of a request is, if it is one. -/
theorem anonRange_ok {start size : Nat} {r : PageRangeInclusive} :
    anonRange start size = .ok r
      ↔ ∃ v w u : VirtAddr, v.val = start ∧ w.val = start + size
        ∧ 1 ≤ start + size ∧ u.val = start + size - 1
        ∧ r = ⟨.containingAddress v, .containingAddress u⟩ := by
  unfold anonRange
  constructor
  · intro h
    obtain ⟨v, hv, h₁⟩ := bind_eq_ok.mp h
    obtain ⟨w, hw, h₂⟩ := bind_eq_ok.mp h₁
    obtain ⟨u, hu, h₃⟩ := bind_eq_ok.mp h₂
    have hv' := VirtAddr.new_eq.mp hv
    have hw' := VirtAddr.add_eq.mp hw
    obtain ⟨hle, hu'⟩ := VirtAddr.sub_eq.mp hu
    exact ⟨v, w, u, hv', by omega, by omega, by omega,
      (Except.ok.inj h₃).symm⟩
  · intro hparts
    rcases hparts with ⟨v, w, u, hv, hw, hle, hu, rfl⟩
    refine bind_eq_ok.mpr ⟨v, VirtAddr.new_eq.mpr hv, ?_⟩
    refine bind_eq_ok.mpr ⟨w, VirtAddr.add_eq.mpr (by omega), ?_⟩
    exact bind_eq_ok.mpr ⟨u, VirtAddr.sub_eq.mpr ⟨by omega, by omega⟩, rfl⟩

theorem anonRange_eq {a size : Nat} (ha : 0 < a) (hfits : Fits a size) :
    anonRange (4096 * a) size = .ok (fitting a size) := by
  unfold Fits lastUser at hfits
  have hlow : ∀ b, b < 2 ^ 47 → IsCanonical b := fun b hb => Or.inl hb
  refine anonRange_ok.mpr ⟨⟨4096 * a, hlow _ (by omega)⟩,
    ⟨4096 * a + size, hlow _ (by omega)⟩,
    ⟨4096 * a + size - 1, hlow _ (by omega)⟩, rfl, rfl, by omega, rfl, ?_⟩
  rw [containingAddress_user (show 4096 * a < 2 ^ 47 by omega),
    containingAddress_user (show 4096 * a + size - 1 < 2 ^ 47 by omega)]
  have h1 : 4096 * a / 4096 = a := by omega
  have h2 : (4096 * a + size - 1) / 4096 = a + pagesFor size - 1 := by
    unfold pagesFor
    omega
  show fitting a size = ⟨userPage (4096 * a / 4096),
    userPage ((4096 * a + size - 1) / 4096)⟩
  rw [h1, h2]
  rfl

theorem iter_eq {a size : Nat} (ha : 0 < a) (hfits : Fits a size) :
    (fitting a size).iter = (pageRun a (pagesFor size)).map .ok := by
  have hle := hfits.le
  unfold fitting
  rw [iter_user (by omega) (by omega)]
  congr 2
  omega

theorem size_eq {a size : Nat} (ha : 0 < a) (hfits : Fits a size) :
    (fitting a size).size = .ok (roundUp size 4096) := by
  have hle := hfits.le
  unfold lastUser at hle
  unfold fitting PageRangeInclusive.size
  rw [len_user (by omega) (by omega), roundUp_size,
    show a + pagesFor size - 1 + 1 - a = pagesFor size by omega, if_pos]
  unfold wordSize
  omega

/-- A request that does not fit: the loop never sees the end of its
range. -/
theorem iter_unfit {a size : Nat} {r : PageRangeInclusive}
    (ha : a ≤ lastUser) (hfits : ¬ Fits a size)
    (h : anonRange (4096 * a) size = .ok r) (ps : List Page) :
    r.iter ≠ ps.map .ok := by
  obtain ⟨v, w, u, hv, -, hle, hu, rfl⟩ := anonRange_ok.mp h
  unfold Fits at hfits
  have hstart : Page.containingAddress v = userPage a := by
    rw [containingAddress_user (by unfold lastUser at ha; omega), hv,
      Nat.mul_div_cancel_left a (by decide)]
  rw [hstart]
  refine iter_hole ha ?_ ps
  show 4096 * lastUser ≤ u.val - u.val % 4096
  unfold lastUser at hfits ⊢
  omega

-- ================================================================ the call

/-- The kernel after a call that was granted `n` bytes of new pages at
`pages`. -/
def granted (M : PageMapper PT) (k : State PT) (s : Space PT) (ptr : Word)
    (pages : Sched.U64) (n : Nat) : State PT where
  sched := { k.sched with
    processList := k.sched.processList.modify k.sched.currentProcess
      fun p => { p with pages := some (BitVec.ofNat 64 (pages.toNat + n)) } }
  table := s.1
  frames := s.2
  mapperHeld := k.mapperHeld
  framesHeld := k.framesHeld
  phys := place M s.1 k.phys ptr (bytesOfValue pages)
  own := k.own

/-- Nobody holds a lock the call takes. -/
structure LocksFree (k : State PT) : Prop where
  sched : Sched.LocksFree k.sched
  mapper : k.mapperHeld = false
  frames : k.framesHeld = false

/-- The part of the call under its guards on the table. -/
def anonBody (M : PageMapper PT) (debug : Bool) (size ptr : Word) :
    KernelM PT Unit := do
  let (cur, pages, pageRange) ← anonReserve M size
  lift (checkPointer debug ptr)
  storeValue M ptr pages
  let rangeSize ← lift pageRange.size
  let stop ← lift (Usize.add pages.toNat rangeSize)
  setPages cur (BitVec.ofNat 64 stop)

/-- What the call finds and does on its way to its store: the process and
its range, and fresh frames for all pages of the range. -/
structure Reserves (M : PageMapper PT) (size : Word) (k : State PT)
    (proc : Sched.Process) (pages : Sched.U64) (r : PageRangeInclusive)
    (ps : List Page) (s : Space PT) : Prop where
  current : k.sched.processList[k.sched.currentProcess]? = some proc
  owned : proc.pages = some pages
  mapper : proc.mapper.isSome = true
  range : anonRange pages.toNat size.toNat = .ok r
  iter : r.iter = ps.map .ok
  fresh : FreshPages M ps k.space s

/-- What it finds and does when it returns: a pointer, besides, that it
may write through. -/
structure Grants (M : PageMapper PT) (debug : Bool) (size ptr : Word)
    (k : State PT) (proc : Sched.Process) (pages : Sched.U64)
    (r : PageRangeInclusive) (ps : List Page) (s : Space PT) (n : Nat) :
    Prop extends Reserves M size k proc pages r ps s where
  pointer : checkPointer debug ptr = .ok ()
  stores : ∀ i < 8, CanStore M s.1 (ptr + BitVec.ofNat 64 i)
  size : r.size = .ok n
  small : pages.toNat + n < wordSize

theorem add_ok {a b c : Nat} :
    Usize.add a b = .ok c ↔ a + b < wordSize ∧ c = a + b := by
  unfold Usize.add
  split
  · next h =>
      simp only [Except.ok.injEq, h, true_and]
      exact eq_comm
  · next h => simp [h]

/-- The loop, under its two locks. -/
theorem locked_ok {es : List (Except Panic Page)} :
    withMapper (withFrames (forPages (anonPage M) es)) k = .ok ((), k')
      ↔ k.mapperHeld = false ∧ k.framesHeld = false
        ∧ ∃ ps s, es = ps.map .ok ∧ FreshPages M ps k.space s
          ∧ k' = k.inSpace s := by
  rw [withMapper_ok]
  constructor
  · intro h
    rcases h with ⟨hm, k₁, h₁, rfl⟩
    obtain ⟨hf, k₂, h₂, rfl⟩ := withFrames_ok.mp h₁
    obtain ⟨ps, s, hes, hfresh, rfl⟩ := forPages_ok.mp h₂
    refine ⟨hm, hf, ps, s, hes, hfresh, ?_⟩
    obtain ⟨⟨sched, table, frames, mh, fh⟩, phys, own⟩ := k
    cases hm
    cases hf
    rfl
  · intro h
    rcases h with ⟨hm, hf, ps, s, hes, hfresh, rfl⟩
    refine ⟨hm, ({ k with mapperHeld := true } : State PT).inSpace s, ?_, ?_⟩
    · refine withFrames_ok.mpr ⟨hf,
        ({ k with mapperHeld := true, framesHeld := true } :
          State PT).inSpace s, ?_, ?_⟩
      · exact forPages_ok.mpr ⟨ps, s, hes, hfresh, rfl⟩
      · obtain ⟨⟨sched, table, frames, mh, fh⟩, phys, own⟩ := k
        cases hm
        cases hf
        rfl
    · obtain ⟨⟨sched, table, frames, mh, fh⟩, phys, own⟩ := k
      cases hm
      cases hf
      rfl

theorem storeValue_ok {ptr : Word} {v : Sched.U64}
    (hspared : k.SparesAll M (Lib.region ptr 8)) :
    storeValue M ptr v k = .ok ((), k')
      ↔ (∀ i < 8, CanStore M k.table (ptr + BitVec.ofNat 64 i))
        ∧ k' = { k with
          phys := place M k.table k.phys ptr (bytesOfValue v) } := by
  have hlen : (bytesOfValue v).length = 8 := length_bytesOfValue v
  have hstore : storeBytes M ptr (bytesOfValue v) k = .ok ((), k') ↔ _ :=
    storeBytes_ok (by omega) (hlen ▸ hspared)
  rw [hlen] at hstore
  unfold storeValue
  rw [bind_ok]
  constructor
  · intro h
    obtain ⟨_, k₁, hcheck, hbytes⟩ := h
    obtain ⟨-, rfl⟩ := checkBytes_ok.mp hcheck
    exact hstore.mp hbytes
  · intro h
    exact ⟨(), k, checkBytes_ok.mpr ⟨h.1, rfl⟩, hstore.mpr h⟩

/-- The call comes to its store when the locks of its loop are free and it
is granted its range. -/
theorem anonReserve_ok {size : Word}
    {r : Nat × Sched.U64 × PageRangeInclusive} :
    anonReserve M size k = .ok (r, k')
      ↔ k.mapperHeld = false ∧ k.framesHeld = false
        ∧ ∃ proc pages range ps s,
          Reserves M size k proc pages range ps s
          ∧ r = (k.sched.currentProcess, pages, range)
          ∧ k' = k.inSpace s := by
  unfold anonReserve
  constructor
  · intro h
    obtain ⟨cur, k₁, h₁, h⟩ := bind_ok.mp h
    cases h₁
    obtain ⟨proc, k₂, h₂, h⟩ := bind_ok.mp h
    obtain ⟨hproc, rfl⟩ := processAt_ok.mp h₂
    obtain ⟨pages, k₃, h₃, h⟩ := bind_ok.mp h
    obtain ⟨hpages, rfl⟩ := lift_ok.mp h₃
    obtain ⟨range, k₄, h₄, h⟩ := bind_ok.mp h
    obtain ⟨hr, rfl⟩ := lift_ok.mp h₄
    obtain ⟨mapper, k₅, h₅, h⟩ := bind_ok.mp h
    obtain ⟨hmapper, rfl⟩ := lift_ok.mp h₅
    obtain ⟨_, k₆, h₆, h⟩ := bind_ok.mp h
    obtain ⟨hm, hf, ps, s, hes, hfresh, rfl⟩ := locked_ok.mp h₆
    obtain ⟨rfl, rfl⟩ := pure_ok.mp h
    have hsome := expect_ok.mp hmapper
    refine ⟨hm, hf, proc, pages, range, ps, s, ?_, rfl, rfl⟩
    exact ⟨hproc, expect_ok.mp hpages, by rw [hsome]; rfl, hr, hes, hfresh⟩
  · intro hparts
    rcases hparts with ⟨hm, hf, proc, pages, range, ps, s, h, rfl, rfl⟩
    obtain ⟨mapper, hmapper⟩ := Option.isSome_iff_exists.mp h.mapper
    refine bind_ok.mpr ⟨k.sched.currentProcess, k, rfl, ?_⟩
    refine bind_ok.mpr ⟨proc, k, processAt_ok.mpr ⟨h.current, rfl⟩, ?_⟩
    refine bind_ok.mpr ⟨pages, k,
      lift_ok.mpr ⟨expect_ok.mpr h.owned, rfl⟩, ?_⟩
    refine bind_ok.mpr ⟨range, k, lift_ok.mpr ⟨h.range, rfl⟩, ?_⟩
    refine bind_ok.mpr ⟨mapper, k,
      lift_ok.mpr ⟨expect_ok.mpr hmapper, rfl⟩, ?_⟩
    exact bind_ok.mpr ⟨(), k.inSpace s,
      locked_ok.mpr ⟨hm, hf, ps, s, h.iter, h.fresh, rfl⟩, rfl⟩

theorem anonBody_ok {debug : Bool} {size ptr : Word}
    (hspared : ∀ r k₁, anonReserve M size k = .ok (r, k₁) →
      k₁.SparesAll M (Lib.region ptr 8)) :
    anonBody M debug size ptr k = .ok ((), k')
      ↔ k.mapperHeld = false ∧ k.framesHeld = false
        ∧ ∃ proc pages r ps s n, Grants M debug size ptr k proc pages r ps s n
          ∧ k' = granted M k s ptr pages n := by
  unfold anonBody
  constructor
  · intro h
    obtain ⟨_, k₁, h₁, h⟩ := bind_ok.mp h
    have hspares := hspared _ _ h₁
    obtain ⟨hm, hf, proc, pages, r, ps, s, hreserves, rfl, rfl⟩ :=
      anonReserve_ok.mp h₁
    obtain ⟨_, k₂, h₂, h⟩ := bind_ok.mp h
    obtain ⟨hptr, rfl⟩ := lift_ok.mp h₂
    obtain ⟨_, k₃, h₃, h⟩ := bind_ok.mp h
    obtain ⟨hstores, rfl⟩ := (storeValue_ok hspares).mp h₃
    obtain ⟨n, k₄, h₄, h⟩ := bind_ok.mp h
    obtain ⟨hn, rfl⟩ := lift_ok.mp h₄
    obtain ⟨stop, k₅, h₅, h⟩ := bind_ok.mp h
    obtain ⟨hadd, rfl⟩ := lift_ok.mp h₅
    obtain ⟨hsmall, rfl⟩ := add_ok.mp hadd
    obtain ⟨-, rfl⟩ := setPages_ok.mp h
    exact ⟨hm, hf, proc, pages, r, ps, s, n,
      ⟨hreserves, hptr, hstores, hn, hsmall⟩, rfl⟩
  · intro hparts
    rcases hparts with ⟨hm, hf, proc, pages, r, ps, s, n, h, rfl⟩
    have hcur := (List.getElem?_eq_some_iff.mp h.current).1
    have hreserve : anonReserve M size k
        = .ok ((k.sched.currentProcess, pages, r), k.inSpace s) :=
      anonReserve_ok.mpr ⟨hm, hf, proc, pages, r, ps, s, h.toReserves, rfl,
        rfl⟩
    refine bind_ok.mpr ⟨_, k.inSpace s, hreserve, ?_⟩
    refine bind_ok.mpr ⟨(), k.inSpace s,
      lift_ok.mpr ⟨h.pointer, rfl⟩, ?_⟩
    refine bind_ok.mpr ⟨(), { k.inSpace s with
      phys := place M s.1 k.phys ptr (bytesOfValue pages) },
      (storeValue_ok (hspared _ _ hreserve)).mpr ⟨h.stores, rfl⟩, ?_⟩
    refine bind_ok.mpr ⟨n, _, lift_ok.mpr ⟨h.size, rfl⟩, ?_⟩
    refine bind_ok.mpr ⟨pages.toNat + n, _,
      lift_ok.mpr ⟨add_ok.mpr ⟨h.small, rfl⟩, rfl⟩, ?_⟩
    exact setPages_ok.mpr ⟨hcur, rfl⟩

/-- A call whose pointer is harmless returns exactly when all locks are
free and it is granted its range. -/
theorem anon_ok {debug : Bool} {size ptr : Word}
    (hharmless : Harmless M size ptr k) :
    anonAllocateSyscall M debug size ptr k = .ok ((), k')
      ↔ LocksFree k
        ∧ ∃ proc pages r ps s n, Grants M debug size ptr k proc pages r ps s n
          ∧ k' = granted M k s ptr pages n := by
  have hbody : anonAllocateSyscall M debug size ptr
      = withProcessList (withCurrentRead (anonBody M debug size ptr)) := rfl
  rw [hbody, withProcessList_ok]
  constructor
  · intro hparts
    rcases hparts with ⟨hlist, k₁, h₁, rfl⟩
    obtain ⟨hcur, k₂, h₂, rfl⟩ := withCurrentRead_ok.mp h₁
    obtain ⟨hm, hf, proc, pages, r, ps, s, n, h, rfl⟩ :=
      (anonBody_ok hharmless).mp h₂
    refine ⟨⟨⟨hlist, hcur⟩, hm, hf⟩, proc, pages, r, ps, s, n, ?_, ?_⟩
    · exact ⟨⟨h.current, h.owned, h.mapper, h.range, h.iter, h.fresh⟩,
        h.pointer, h.stores, h.size, h.small⟩
    · obtain ⟨⟨⟨list, cur, lh, ch⟩, table, frames, mh, fh⟩, phys, own⟩ := k
      cases hlist
      cases hcur
      rfl
  · intro hparts
    rcases hparts with ⟨hfree, proc, pages, r, ps, s, n, h, rfl⟩
    obtain ⟨⟨⟨list, cur, lh, ch⟩, table, frames, mh, fh⟩, phys, own⟩ := k
    obtain ⟨⟨hlist, hcur⟩, hm, hf⟩ := hfree
    cases hlist
    cases hcur
    refine ⟨rfl, granted M ⟨⟨⟨list, cur, true, .free⟩, table, frames, mh,
      fh⟩, phys, own⟩ s ptr pages n, ?_, rfl⟩
    refine withCurrentRead_ok.mpr ⟨rfl, granted M ⟨⟨⟨list, cur, true,
      .readers 1⟩, table, frames, mh, fh⟩, phys, own⟩ s ptr pages n, ?_, rfl⟩
    refine (anonBody_ok hharmless).mpr ⟨hm, hf, proc, pages, r, ps, s, n, ?_,
      rfl⟩
    exact ⟨⟨h.current, h.owned, h.mapper, h.range, h.iter, h.fresh⟩,
      h.pointer, h.stores, h.size, h.small⟩

/-- Wherever its pointer leads, a call that returns has found the locks
free and come to its store, and might store there. -/
theorem anon_reserves {debug : Bool} {size ptr : Word}
    (h : anonAllocateSyscall M debug size ptr k = .ok ((), k')) :
    LocksFree k ∧ checkPointer debug ptr = .ok ()
      ∧ ∃ proc pages r ps s, Reserves M size k proc pages r ps s
        ∧ ∀ i < 8, CanStore M s.1 (ptr + BitVec.ofNat 64 i) := by
  obtain ⟨hlist, k₁, h₁, -⟩ := withProcessList_ok.mp h
  obtain ⟨hcur, k₂, h₂, -⟩ := withCurrentRead_ok.mp h₁
  obtain ⟨_, k₃, h₃, h⟩ := bind_ok.mp h₂
  obtain ⟨hm, hf, proc, pages, r, ps, s, hreserves, rfl, rfl⟩ :=
    anonReserve_ok.mp h₃
  obtain ⟨_, k₄, h₄, h⟩ := bind_ok.mp h
  obtain ⟨hptr, rfl⟩ := lift_ok.mp h₄
  obtain ⟨_, k₅, h₅, -⟩ := bind_ok.mp h
  obtain ⟨_, k₆, h₆, -⟩ := bind_ok.mp h₅
  obtain ⟨hcan, -⟩ := checkBytes_ok.mp h₆
  refine ⟨⟨⟨hlist, hcur⟩, hm, hf⟩, hptr, proc, pages, r, ps, s, ?_, hcan⟩
  exact ⟨hreserves.current, hreserves.owned, hreserves.mapper,
    hreserves.range, hreserves.iter, hreserves.fresh⟩

/-- A pointer that leads to nothing of the kernel's, whatever pages are
mapped on the way to the store. -/
theorem Harmless.of {size ptr : Word}
    (h : ∀ ps s, FreshPages M ps k.space s →
      (k.called.inSpace s).SparesAll M (Lib.region ptr 8)) :
    Harmless M size ptr k := by
  intro r k₁ hreserve
  obtain ⟨-, -, proc, pages, range, ps, s, hreserves, -, rfl⟩ :=
    anonReserve_ok.mp hreserve
  exact h ps s hreserves.fresh

/-- The call of a process whose ranges end at page `a` of the lower half,
with a harmless pointer: it returns exactly when the locks are free, the
range ends below the last page of that half, fresh frames are there for
all of it, and the pointer may be written through. -/
theorem anon_granted_iff {debug : Bool} {size ptr : Word} {a : Nat}
    {proc : Sched.Process}
    (hproc : k.sched.processList[k.sched.currentProcess]? = some proc)
    (howned : proc.pages = some (BitVec.ofNat 64 (4096 * a)))
    (hmapper : proc.mapper.isSome = true) (ha : 0 < a)
    (hlast : a ≤ lastUser) (hharmless : Harmless M size ptr k) :
    anonAllocateSyscall M debug size ptr k = .ok ((), k')
      ↔ LocksFree k ∧ Fits a size.toNat ∧ checkPointer debug ptr = .ok ()
        ∧ ∃ s, FreshPages M (pageRun a (pagesFor size.toNat)) k.space s
          ∧ (∀ i < 8, CanStore M s.1 (ptr + BitVec.ofNat 64 i))
          ∧ k' = granted M k s ptr (BitVec.ofNat 64 (4096 * a))
              (roundUp size.toNat 4096) := by
  have hnat : (BitVec.ofNat 64 (4096 * a)).toNat = 4096 * a := by
    rw [BitVec.toNat_ofNat, Nat.mod_eq_of_lt]
    unfold lastUser at hlast
    omega
  rw [anon_ok hharmless]
  constructor
  · intro hparts
    rcases hparts with ⟨hfree, proc', pages, r, ps, s, n, h, rfl⟩
    obtain rfl := Option.some.inj (hproc.symm.trans h.current)
    obtain rfl := Option.some.inj (howned.symm.trans h.owned)
    have hrange := h.range
    rw [hnat] at hrange
    by_cases hfits : Fits a size.toNat
    · obtain rfl := Except.ok.inj ((anonRange_eq ha hfits).symm.trans hrange)
      obtain rfl := map_ok_inj ((iter_eq ha hfits).symm.trans h.iter)
      obtain rfl := Except.ok.inj ((size_eq ha hfits).symm.trans h.size)
      exact ⟨hfree, hfits, h.pointer, s, h.fresh, h.stores, rfl⟩
    · exact absurd h.iter (iter_unfit hlast hfits hrange ps)
  · intro hparts
    rcases hparts with ⟨hfree, hfits, hptr, s, hfresh, hstores, rfl⟩
    refine ⟨hfree, proc, _, fitting a size.toNat,
      pageRun a (pagesFor size.toNat), s, _, ?_, rfl⟩
    refine ⟨⟨hproc, howned, hmapper, ?_, iter_eq ha hfits, hfresh⟩, hptr,
      hstores, size_eq ha hfits, ?_⟩
    · rw [hnat]
      exact anonRange_eq ha hfits
    · rw [hnat, roundUp_size]
      unfold Fits lastUser at hfits
      unfold pagesFor wordSize
      omega

end Bayos.Kernel
