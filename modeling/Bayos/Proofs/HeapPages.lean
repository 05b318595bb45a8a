/-
The heap's memory: when `init_heap` succeeds, what it leaves, and the
frames it hands over.

# The frames

The boot allocator hands out the numbering of the map in order, so what
it has left is what lies behind its counter (`bootPool`). The heap's 512
pages lie below one last-level table: the first of them takes the frames
for the tables that are missing.
-/
import Bayos.Lib.Grants
import Bayos.Model.Boot
import Bayos.Proofs.Allocator
import Bayos.Proofs.Handover
import Bayos.Proofs.Pool

namespace Bayos.Boot

open Rust
open Lib.Paging
open Lib.Bitmap (filled)
open Bayos.Memory
open Bayos.Allocator (LinkedListAllocator heapStart heapSize)

variable {PT A : Type}

-- ====================================================== the boot allocator

theorem allocateFrame_ok {mm : MemoryRegions} (hmm : WellFormed mm)
    {a b : BootInfoFrameAllocator} (ha : a.memoryMap = mm) {f : PhysFrame} :
    a.allocateFrame = .ok (some f, b)
      ↔ (numbering mm)[a.next]? = some f ∧ b = ⟨mm, a.next + 1⟩ := by
  obtain ⟨map, next⟩ := a
  obtain rfl : map = mm := ha
  unfold BootInfoFrameAllocator.allocateFrame
    BootInfoFrameAllocator.usableFrames
  simp only [usableFramesOf_eq hmm.fit, Iter.nth_map_ok, ok_bind]
  constructor
  · intro h
    obtain ⟨n, hn, hret⟩ := bind_eq_ok.mp h
    obtain rfl := Usize.add_ok hn
    obtain ⟨hf, rfl⟩ := Prod.mk.inj (Except.ok.inj hret)
    exact ⟨hf, rfl⟩
  · intro h
    obtain ⟨hf, rfl⟩ := h
    have hlt := (List.getElem?_eq_some_iff.mp hf).1
    have hw := numbering_length_lt hmm.disjoint hmm.fit
    rw [Usize.add_eq (by omega), ok_bind, hf]
    rfl

/-- The frames behind the counter. -/
def bootPool (mm : MemoryRegions) (hmm : WellFormed mm) :
    Pool PhysFrame BootInfoFrameAllocator where
  alloc := BootInfoFrameAllocator.allocateFrame
  Good a := a.memoryMap = mm ∧ a.next ≤ (numbering mm).length
  Free a f := ∃ i, a.next ≤ i ∧ (numbering mm)[i]? = some f
  left a := (numbering mm).length - a.next
  good := by
    intro a b f ha h
    obtain ⟨hf, rfl⟩ := (allocateFrame_ok hmm ha.1).mp h
    exact ⟨rfl, (List.getElem?_eq_some_iff.mp hf).1⟩
  free := by
    intro a b f ha h
    exact ⟨_, Nat.le_refl _, ((allocateFrame_ok hmm ha.1).mp h).1⟩
  taken := by
    intro a b f ha h hfree
    obtain ⟨hf, rfl⟩ := (allocateFrame_ok hmm ha.1).mp h
    obtain ⟨i, hi, hnum⟩ := hfree
    have hlt := (List.getElem?_eq_some_iff.mp hf).1
    have hnodup := numbering_nodup hmm.disjoint hmm.paged
    have heq := (List.getElem?_inj hlt hnodup).mp (hf.trans hnum.symm)
    simp only at hi
    omega
  mono := by
    intro a b f g ha h hg
    obtain ⟨-, rfl⟩ := (allocateFrame_ok hmm ha.1).mp h
    obtain ⟨i, hi, hnum⟩ := hg
    exact ⟨i, Nat.le_of_succ_le hi, hnum⟩
  spends := by
    intro a b f ha h
    obtain ⟨hf, rfl⟩ := (allocateFrame_ok hmm ha.1).mp h
    have hlt := (List.getElem?_eq_some_iff.mp hf).1
    simp only
    omega
  serves := by
    intro a ha hleft
    have hlt : a.next < (numbering mm).length := by omega
    exact ⟨_, _, (allocateFrame_ok hmm ha.1).mpr
      ⟨List.getElem?_eq_getElem hlt, rfl⟩⟩

-- ================================================================ the heap

/-- A page of the heap. -/
def InHeap (p : Page) : Prop :=
  heapStart ≤ p.start ∧ p.start < heapStart + heapSize

instance (p : Page) : Decidable (InHeap p) :=
  inferInstanceAs (Decidable (_ ∧ _))

/-- The first page of the heap. -/
def heapPage : Page :=
  ⟨heapStart, by decide, .inr (by decide)⟩

/-- How many there are. -/
def heapPages : Nat := heapSize / 4096

/-- The last byte of the heap. -/
def heapLast : VirtAddr :=
  ⟨heapStart + heapSize - 1, .inr (by decide)⟩

theorem heapRange_eq :
    heapRange = .ok ⟨heapPage, .containingAddress heapLast⟩ := by
  have hstart : VirtAddr.new heapStart = .ok heapPage.startAddress :=
    VirtAddr.new_eq.mpr rfl
  have hadd : heapPage.startAddress.add heapSize
      = .ok ⟨heapStart + heapSize, .inr (by decide)⟩ :=
    VirtAddr.add_eq.mpr rfl
  have hsub : VirtAddr.sub ⟨heapStart + heapSize, .inr (by decide)⟩ 1
      = .ok heapLast :=
    VirtAddr.sub_eq.mpr ⟨Nat.le_add_left 1 (heapStart + heapSize - 1), rfl⟩
  unfold heapRange
  rw [hstart, ok_bind, hadd, ok_bind, hsub, ok_bind, pure_eq_ok]
  exact congrArg (fun p => Except.ok (PageRangeInclusive.mk p _))
    (Page.ext rfl)

/-- The pages the loop of `init_heap` goes through: all of the heap's,
once each, and one last-level table is above them all. -/
theorem heap_pages : ∃ r ps, heapRange = .ok r
      ∧ r.iter = (heapPage :: ps).map .ok
      ∧ (heapPage :: ps).length = heapPages ∧ (heapPage :: ps).Nodup
      ∧ (∀ p, p ∈ heapPage :: ps ↔ InHeap p)
      ∧ ∀ p ∈ ps, p.tables = heapPage.tables := by
  have hr := heapRange_eq
  generalize hrange : PageRangeInclusive.mk heapPage
    (.containingAddress heapLast) = r at hr
  have hstart : r.start = heapPage := by rw [← hrange]
  have hstop : r.stop.start = heapStart + heapSize - 4096 := by
    rw [← hrange]
    rfl
  have hsteps : r.Steps := by
    intro a hlow hhigh
    rw [hstart] at hlow
    rw [hstop] at hhigh
    unfold heapPage heapStart heapSize at hlow
    unfold heapStart heapSize at hhigh
    unfold IsCanonical
    simp only at hlow
    omega
  obtain ⟨ps, hiter, hlength, hnodup, hmem⟩ :=
    PageRangeInclusive.iter_spec hsteps
  have hin : ∀ p, p ∈ ps ↔ InHeap p := by
    intro p
    have haligned := p.aligned
    rw [hmem, hstart, hstop]
    unfold InHeap heapPage heapStart heapSize
    simp only
    omega
  have hcount : ps.length = heapPages := by
    rw [hlength]
    unfold PageRangeInclusive.len
    rw [hstart, hstop]
    rfl
  -- the first page comes first
  have hle : r.start.start ≤ r.stop.start := by
    rw [hstart, hstop]
    decide
  obtain ⟨rest, rfl, -⟩ := PageRangeInclusive.elements_cons hiter hle
  rw [hstart] at hiter hcount hnodup hin
  refine ⟨r, rest, hr, hiter, hcount, hnodup, hin, fun p hp => ?_⟩
  have hp' := (hin p).mp (List.mem_cons_of_mem _ hp)
  unfold InHeap heapStart heapSize at hp'
  unfold Page.tables heapPage heapStart heapSize
  simp only [List.cons.injEq, Prod.mk.injEq, true_and, and_true]
  omega

-- ================================================================ the loop

/-- The flags of the heap's pages: not for user processes. -/
def heapFlags : Flags := present ||| writable

theorem mapHeap_ok {M : Mapper PT PhysFrame A}
    {alloc : A → Except Panic (Option PhysFrame × A)} {ps : List Page} :
    ∀ {table table' : PT} {frames frames' : A},
      mapHeap M alloc (ps.map .ok) table frames
          = .ok (.ok (), table', frames')
        ↔ Grants M alloc heapFlags ps (table, frames) (table', frames') := by
  induction ps with
  | nil =>
      intro table table' frames frames'
      rw [grants_nil, List.map_nil, mapHeap, pure_eq_ok]
      simp [eq_comm]
  | cons p ps ih =>
      intro table table' frames frames'
      rw [grants_cons, List.map_cons, mapHeap, ok_bind]
      constructor
      · intro h
        obtain ⟨⟨o, frames₁⟩, halloc, h₁⟩ := bind_eq_ok.mp h
        cases o with
        | none => cases h₁
        | some f =>
            obtain ⟨⟨r, table₂, frames₂⟩, hmap, h₂⟩ := bind_eq_ok.mp h₁
            cases r with
            | error e => cases h₂
            | ok u =>
                exact ⟨(table₂, frames₂), ⟨f, frames₁, halloc, hmap⟩,
                  ih.mp h₂⟩
      · intro h
        obtain ⟨⟨table₂, frames₂⟩, ⟨f, frames₁, halloc, hmap⟩, hrest⟩ := h
        refine bind_eq_ok.mpr ⟨(some f, frames₁), halloc, ?_⟩
        exact bind_eq_ok.mpr ⟨(.ok (), table₂, frames₂), hmap, ih.mpr hrest⟩

theorem initHeap_ok {M : Mapper PT PhysFrame A}
    {alloc : A → Except Panic (Option PhysFrame × A)} {table table' : PT}
    {frames frames' : A} {heap : LinkedListAllocator} {ps : List Page}
    {r : PageRangeInclusive} (hr : heapRange = .ok r)
    (hps : r.iter = ps.map .ok) :
    initHeap M alloc table frames .new
        = .ok (.ok (), table', frames', heap)
      ↔ Grants M alloc heapFlags ps (table, frames) (table', frames')
        ∧ heap = ⟨[⟨heapStart, heapSize⟩]⟩ := by
  unfold initHeap
  rw [hr, ok_bind, hps]
  constructor
  · intro h
    obtain ⟨⟨m, table₁, frames₁⟩, hmap, h₁⟩ := bind_eq_ok.mp h
    cases m with
    | error e => cases h₁
    | ok u =>
        simp only [Allocator.init_eq, ok_bind, pure_eq_ok] at h₁
        cases h₁
        exact ⟨mapHeap_ok.mp hmap, rfl⟩
  · intro h
    obtain ⟨hgrants, rfl⟩ := h
    refine bind_eq_ok.mpr ⟨(.ok (), table', frames'),
      mapHeap_ok.mpr hgrants, ?_⟩
    simp only [Allocator.init_eq, ok_bind, pure_eq_ok]

-- ========================================================== what it leaves

/-- The frames that the heap takes, those for its tables included. -/
def heapFrames (M : Mapper PT PhysFrame A) (table : PT) : Nat :=
  heapPages + M.missing table heapPage

/-- The heap is set up: each of its pages has a frame of its own among
those that were handed out, writable and not for user processes; nothing
else is mapped otherwise than before; and the allocator has one region,
the whole heap. -/
structure HeapReady (M : Mapper PT PhysFrame A) (mm : MemoryRegions)
    (table table' : PT) (frames : BootInfoFrameAllocator)
    (heap : LinkedListAllocator) : Prop where
  unmapped : ∀ p, InHeap p → M.translate table p = none
  mapped : ∀ p, InHeap p →
    ∃ f ∈ (numbering mm).take (heapFrames M table),
      M.translate table' p = some ⟨f, heapFlags⟩
  own : ∀ p q f, InHeap p → InHeap q →
    M.translate table' p = some ⟨f, heapFlags⟩ →
    M.translate table' q = some ⟨f, heapFlags⟩ → p = q
  others : ∀ p, ¬ InHeap p → M.translate table' p = M.translate table p
  tables : ∀ t, M.hasTable table' t
    = (M.hasTable table t || decide (t ∈ heapPage.tables))
  frames : frames = ⟨mm, heapFrames M table⟩
  heap : heap = ⟨[⟨heapStart, heapSize⟩]⟩

section SetUp

variable {M : Mapper PT PhysFrame BootInfoFrameAllocator}
  {mm : MemoryRegions} {table table' : PT}
  {frames : BootInfoFrameAllocator} {heap : LinkedListAllocator}

/-- What is not mapped once the heap is. -/
theorem HeapReady.none_iff
    (h : HeapReady M mm table table' frames heap) {p : Page} :
    M.translate table' p = none
      ↔ ¬ InHeap p ∧ M.translate table p = none := by
  constructor
  · intro hnone
    have hp : ¬ InHeap p := by
      intro hp
      obtain ⟨f, -, hf⟩ := h.mapped p hp
      rw [hnone] at hf
      cases hf
    exact ⟨hp, by rw [← h.others p hp, hnone]⟩
  · intro hparts
    rw [h.others p hparts.1, hparts.2]

theorem heapReady
    (hlaws : M.Laws BootInfoFrameAllocator.allocateFrame)
    (hmm : WellFormed mm)
    (h : initHeap M BootInfoFrameAllocator.allocateFrame table (.init mm)
      .new = .ok (.ok (), table', frames, heap)) :
    HeapReady M mm table table' frames heap := by
  obtain ⟨r, ps, hr, hiter, hcount, -, hin, hsame⟩ := heap_pages
  obtain ⟨hgrants, hheap⟩ := (initHeap_ok hr hiter).mp h
  have hgood : (bootPool mm hmm).Good (.init mm) := ⟨rfl, Nat.zero_le _⟩
  have hgranted := Grants.granted (P := bootPool mm hmm) hlaws hgood hgrants
  obtain ⟨hleft, htables⟩ :=
    Grants.spent (P := bootPool mm hmm) hlaws hgood hsame hgrants
  -- the counter, from what is left
  obtain ⟨map, next⟩ := frames
  obtain ⟨hmap, hnext⟩ := hgranted.good
  obtain rfl : map = mm := hmap
  have hspent : next = heapFrames M table := by
    have heq : (numbering map).length - 0
        = (numbering map).length - next + (heapPage :: ps).length
          + M.missing table heapPage := hleft
    rw [hcount] at heq
    unfold heapFrames
    simp only at hnext
    omega
  refine ⟨?_, ?_, ?_, ?_, htables, by rw [hspent], hheap⟩
  · intro p hp
    exact hgranted.unmapped p ((hin p).mpr hp)
  · intro p hp
    obtain ⟨f, hf, ⟨i, -, hi⟩, htaken⟩ := hgranted.mapped p ((hin p).mpr hp)
    refine ⟨f, ?_, hf⟩
    have hlt : i < next := by
      by_contra hle
      exact htaken ⟨i, Nat.not_lt.mp hle, hi⟩
    refine List.mem_of_getElem? (i := i) ?_
    rw [List.getElem?_take_of_lt (hspent ▸ hlt), hi]
  · intro p q f hp hq hpf hqf
    exact hgranted.distinct p ((hin p).mpr hp) q ((hin q).mpr hq) f hpf hqf
  · intro p hp
    exact hgranted.others p (mt (hin p).mp hp)

/-- A heap that was set up had the frames it takes. -/
theorem heapFrames_le
    (hlaws : M.Laws BootInfoFrameAllocator.allocateFrame)
    (hmm : WellFormed mm)
    (h : initHeap M BootInfoFrameAllocator.allocateFrame table (.init mm)
      .new = .ok (.ok (), table', frames, heap)) :
    heapFrames M table ≤ (numbering mm).length := by
  obtain ⟨r, ps, hr, hiter, hcount, -, -, hsame⟩ := heap_pages
  have hexists := grants_exists_iff heapFlags (P := bootPool mm hmm)
    (s := (table, .init mm)) hlaws ⟨rfl, Nat.zero_le _⟩ hsame
  rw [hcount] at hexists
  exact (hexists.mp ⟨_, ((initHeap_ok hr hiter).mp h).1⟩).2.2

theorem initHeap_exists_iff
    (hlaws : M.Laws BootInfoFrameAllocator.allocateFrame)
    (hmm : WellFormed mm) (table : PT) :
    (∃ table' frames heap,
        initHeap M BootInfoFrameAllocator.allocateFrame table (.init mm)
          .new = .ok (.ok (), table', frames, heap))
      ↔ (∀ p, InHeap p → M.translate table p = none)
        ∧ heapFrames M table ≤ (numbering mm).length := by
  obtain ⟨r, ps, hr, hiter, hcount, hnodup, hin, hsame⟩ := heap_pages
  have hgood : (bootPool mm hmm).Good (.init mm) := ⟨rfl, Nat.zero_le _⟩
  have hexists := grants_exists_iff heapFlags (P := bootPool mm hmm)
    (s := (table, .init mm)) hlaws hgood hsame
  rw [hcount] at hexists
  constructor
  · intro h
    obtain ⟨table', frames, heap, hinit⟩ := h
    exact ⟨(heapReady hlaws hmm hinit).unmapped,
      heapFrames_le hlaws hmm hinit⟩
  · intro h
    obtain ⟨hnone, hle⟩ := h
    obtain ⟨s, hgrants⟩ := hexists.mpr
      ⟨hnodup, fun p hp => hnone p ((hin p).mp hp), hle⟩
    exact ⟨s.1, s.2, _, (initHeap_ok hr hiter).mpr ⟨hgrants, rfl⟩⟩

/-- `init_heap` succeeds exactly when none of the heap's pages is mapped
and the map has frames for all of them and for the tables that are
missing on the way to them; and then the heap is set up. -/
theorem init_heap_ok_iff
    (hlaws : M.Laws BootInfoFrameAllocator.allocateFrame)
    (hmm : WellFormed mm) (table : PT) :
    ((∃ table' frames heap,
        initHeap M BootInfoFrameAllocator.allocateFrame table (.init mm)
          .new = .ok (.ok (), table', frames, heap))
      ↔ (∀ p, InHeap p → M.translate table p = none)
        ∧ heapFrames M table ≤ (numbering mm).length)
    ∧ ∀ table' frames heap,
        initHeap M BootInfoFrameAllocator.allocateFrame table (.init mm)
            .new = .ok (.ok (), table', frames, heap) →
          HeapReady M mm table table' frames heap :=
  ⟨initHeap_exists_iff hlaws hmm table, fun _ _ _ => heapReady hlaws hmm⟩

end SetUp

-- =============================================================== a machine

/-- A map of one region of 1024 frames. -/
def roomyMap : MemoryRegions := [⟨0, 0x400000, .usable⟩]

theorem roomyMap_wellFormed : WellFormed roomyMap where
  aligned := by decide
  below := by decide
  disjoint := List.pairwise_singleton ..

theorem roomyMap_frames : (numbering roomyMap).length = 1024 := by
  simp [numbering, frameAddresses, usable, roomyMap, stepBy]

/-- Page tables through plain mappers. -/
def plainTable : OffsetPageTable (Tables PhysFrame) where
  boot := plainMapper BootInfoFrameAllocator.allocateFrame
  later := plainMapper BitmapAllocator.allocateFrame
  same_translate := rfl
  same_tables := rfl

/-- Nothing mapped, and no tables. -/
def noTables : Tables PhysFrame := ⟨fun _ => none, fun _ => false⟩

theorem noTables_heapFrames :
    heapFrames plainTable.boot noTables ≤ (numbering roomyMap).length := by
  rw [roomyMap_frames]
  decide

theorem init_heap_ok_iff_roomy : ∃ table' frames heap,
    initHeap plainTable.boot BootInfoFrameAllocator.allocateFrame noTables
      (.init roomyMap) .new = .ok (.ok (), table', frames, heap) :=
  (init_heap_ok_iff (plainMapper_laws _) roomyMap_wellFormed noTables).1.mpr
    ⟨fun _ _ => rfl, noTables_heapFrames⟩

end Bayos.Boot
