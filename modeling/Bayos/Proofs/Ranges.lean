/-
What user processes have been given by `anon_allocate_syscall`, at any
point of any run.

# The statement

`RangesKept` is about a run from boot and the state it leads to: the
ranges of one process follow one another, no two ranges overlap, every
byte of them is mapped for the user, and the frame behind a page was free
at boot, is not free any more, and backs no other page, unless the
bootloader's own mappings (the one of all physical memory, for one) have
it. `EntryMoved` is about the process table before and after one call.

# Pointers

A call stores its answer wherever its pointer says, and nothing looks at
that. Where the pointer leads to the kernel's own data, the call may have
changed any of this (`entries_spoiled`), so the runs are those in which no
pointer does.
-/
import Bayos.Proofs.Users

namespace Bayos.Kernel

open Rust
open Lib (Word TransSys)
open Lib.Paging
open Lib.Paging.PageRangeInclusive (lastUser)
open Bayos.Memory
open Bayos.Sched (U64 MapperId)

variable {PT : Type} {M : PageMapper PT} {debug : Bool}
  {k₀ k k' : State PT}

-- ============================================================== vocabulary

/-- An address in the range. -/
def Request.Covers (r : Request) (a : Nat) : Prop := r.start ≤ a ∧ a < r.stop

/-- No address is in both ranges. -/
def Request.Disjoint (r s : Request) : Prop :=
  ∀ a, ¬ (r.Covers a ∧ s.Covers a)

/-- The page of an address was given a frame of its own: free at boot,
taken now, and behind no other page except as the bootloader left it. -/
structure Backed (M : PageMapper PT) (k₀ k : State PT) (a : Nat)
    (f : PhysFrame) : Prop where
  mapped : mappingAt M k.table (BitVec.ofNat 64 a) = some ⟨f, userFlags⟩
  wasFree : Free k₀.frames f
  isTaken : ¬ Free k.frames f
  only : ∀ q m, M.translate k.table q = some m → m.frame = f →
    q = userPage (a / 4096) ∨ M.translate k₀.table q = some m

/-- What a run from `k₀` to `k` has given to user processes. -/
structure RangesKept (M : PageMapper PT) (k₀ : State PT) (es : List Event)
    (k : State PT) : Prop where
  entries : ∀ i p, k.sched.processList[i]? = some p → Owns es i (holding p)
  aligned : ∀ r ∈ requests es, r.start % 4096 = 0
  disjoint : (requests es).Pairwise Request.Disjoint
  backed : ∀ r ∈ requests es, ∀ a, r.Covers a → ∃ f, Backed M k₀ k a f
  distinct : ∀ r ∈ requests es, ∀ s ∈ requests es, ∀ a b f,
    r.Covers a → s.Covers b → Backed M k₀ k a f → Backed M k₀ k b f →
      a / 4096 = b / 4096

/-- Of the table, a call of process `i` changes its own `pages`, to the
end of the range it was given. -/
structure EntryMoved (i : Nat) (size start : Word) (k k' : State PT) :
    Prop where
  others : ∀ j, j ≠ i →
    k'.sched.processList[j]? = k.sched.processList[j]?
  own : k'.sched.processList[i]? = (k.sched.processList[i]?).map fun p =>
    let stop := start.toNat + roundUp size.toNat 4096
    { p with pages := some (BitVec.ofNat 64 stop) }

-- ================================================================== ranges

/-- The requests of a run are those of its processes. -/
theorem mem_requests {es : List Event} {r : Request} :
    r ∈ requests es ↔ ∃ i, r ∈ requestsOf i es := by
  unfold requests requestsOf
  simp only [List.mem_map, List.mem_filter, decide_eq_true_eq]
  constructor
  · intro h
    rcases h with ⟨⟨i, r⟩, hmem, rfl⟩
    exact ⟨i, ⟨i, r⟩, ⟨hmem, rfl⟩, rfl⟩
  · intro h
    rcases h with ⟨i, ⟨j, r⟩, ⟨hmem, -⟩, rfl⟩
    exact ⟨⟨j, r⟩, hmem, rfl⟩

/-- Every range of a run starts on a page boundary and lies below the
last page of the lower half. -/
theorem UserInv.range {es : List Event} (hinv : UserInv es k) {r : Request}
    (hr : r ∈ requests es) :
    r.start % 4096 = 0 ∧ r.stop ≤ 4096 * lastUser := by
  obtain ⟨i, hi⟩ := mem_requests.mp hr
  by_cases hlt : i < (holdings k.sched).length
  · obtain ⟨h, hentry⟩ : ∃ h, (holdings k.sched)[i]? = some h :=
      ⟨_, List.getElem?_eq_getElem hlt⟩
    have howns := hinv.entries i h hentry
    rcases h with ⟨_ | m, pages⟩
    · rw [howns.2] at hi
      cases hi
    · obtain ⟨stop, hle, hcons, -⟩ := howns
      exact ⟨(hcons.aligned rfl).2 r hi,
        Nat.le_trans (hcons.between hi).2 hle⟩
  · rw [hinv.fresh i (by omega)] at hi
    cases hi

/-- The page of an address of a range is one of its pages. -/
theorem Request.page_mem {r : Request} {a : Nat} (hstart : r.start % 4096 = 0)
    (ha : r.Covers a) : userPage (a / 4096) ∈ r.pages := by
  obtain ⟨hle, hlt⟩ := ha
  unfold Request.stop at hlt
  rw [roundUp_size] at hlt
  exact mem_pageRun.mpr ⟨a / 4096, by omega, by omega, rfl⟩

/-- What an address of the lower half is mapped to. -/
theorem mappingAt_user {table : PT} {a : Nat} (ha : a < 2 ^ 47) :
    mappingAt M table (BitVec.ofNat 64 a)
      = M.translate table (userPage (a / 4096)) := by
  have hnat : (BitVec.ofNat 64 a).toNat = a := by
    rw [BitVec.toNat_ofNat, Nat.mod_eq_of_lt (by omega)]
  have hv : VirtAddr.tryNew (BitVec.ofNat 64 a).toNat
      = some ⟨a, Or.inl ha⟩ := VirtAddr.tryNew_eq_some.mpr hnat.symm
  unfold mappingAt
  rw [hv]
  exact congrArg (M.translate table) (containingAddress_user ha)

-- ================================================================= results

section Ranges

variable {es : List Event} {ps : List Page} (hinv : UserInv es k)
  (hgives : Gives M ps k₀.space k.space)
  (hsub : List.Sublist ((requests es).flatMap Request.pages) ps)
include hinv hgives hsub

omit hgives in
/-- The page of an address of a range was given in the run. -/
theorem page_given {r : Request} (hr : r ∈ requests es) {a : Nat}
    (ha : r.Covers a) : a < 2 ^ 47 ∧ userPage (a / 4096) ∈ ps := by
  obtain ⟨hstart, hstop⟩ := hinv.range hr
  refine ⟨?_, hsub.subset (List.mem_flatMap.mpr
    ⟨r, hr, Request.page_mem hstart ha⟩)⟩
  have := ha.2
  unfold lastUser at hstop
  omega

theorem ranges_backed {r : Request} (hr : r ∈ requests es) {a : Nat}
    (ha : r.Covers a) : ∃ f, Backed M k₀ k a f := by
  obtain ⟨hlow, hmem⟩ := page_given hinv hsub hr ha
  obtain ⟨f, hf, hfree, htaken⟩ := hgives.mapped _ hmem
  refine ⟨f, (mappingAt_user hlow).trans hf, hfree, htaken, ?_⟩
  intro q h hq heq
  rcases h with ⟨g, fl⟩
  subst heq
  by_cases hgiven : q ∈ ps
  · exact Or.inl (hgives.distinct q hgiven _ hmem _ _ _ hq hf)
  · refine Or.inr ?_
    rw [← hq]
    exact (hgives.others q hgiven).symm

theorem ranges_distinct {r s : Request} (hr : r ∈ requests es)
    (hs : s ∈ requests es) {a b : Nat} {f : PhysFrame} (ha : r.Covers a)
    (hb : s.Covers b) (hfa : Backed M k₀ k a f) (hfb : Backed M k₀ k b f) :
    a / 4096 = b / 4096 := by
  obtain ⟨hlowa, hmema⟩ := page_given hinv hsub hr ha
  obtain ⟨hlowb, hmemb⟩ := page_given hinv hsub hs hb
  have hma := (mappingAt_user hlowa).symm.trans hfa.mapped
  have hmb := (mappingAt_user hlowb).symm.trans hfb.mapped
  have hpage := hgives.distinct _ hmema _ hmemb _ _ _ hma hmb
  exact userPage_inj (by omega) (by omega) hpage

theorem ranges_disjoint : (requests es).Pairwise Request.Disjoint := by
  have hnodup := hsub.nodup hgives.nodup
  have hpages := (List.nodup_flatMap.mp hnodup).2
  refine hpages.imp_of_mem fun {r s} hr hs hdisj a ⟨ha, hb⟩ => ?_
  exact hdisj (Request.page_mem (hinv.range hr).1 ha)
    (Request.page_mem (hinv.range hs).1 hb)

end Ranges

/-- A call moves the caller's entry. -/
theorem entry_moved {es : List Event} {i : Nat} {size ptr start : Word}
    (hinv : UserInv es k)
    (hstep : (sparingSys M debug k₀).step k (.anon i size ptr start) k') :
    EntryMoved i size start k k' := by
  obtain ⟨hstep, hharmless⟩ := hstep
  have hi : i = k.sched.currentProcess := hstep.1
  obtain ⟨m, a, s, -, -, -, -, -, -, rfl⟩ := anon_step hinv hharmless hstep
  refine ⟨fun j hj => ?_, ?_⟩
  · exact List.getElem?_modify_ne _ _ (fun h => hj (h.symm.trans hi.symm))
  · subst hi
    exact List.getElem?_modify_eq ..

/-- Anonymous ranges never overlap, as long as no pointer leads to the
kernel's data. In every such run from boot, in which loaders, ticks,
stores and calls of any size by any process come in any order: the ranges
of a user process follow one another from 0x1_0000_0000 to its `pages`;
ranges start on page boundaries, are mapped in full for the user, and do
not overlap; the frames behind them are distinct, and back nothing else
but what the bootloader had mapped. One more call changes the caller's
`pages` and no other entry. -/
theorem anon_ranges (hlaws : M.Laws BitmapAllocator.allocateFrame)
    (hdisj : (usable k₀.frames.memoryMap).Pairwise MemoryRegion.Disjoint)
    (haligned : Aligned k₀.frames.memoryMap) (es : List Event)
    (hrun : (sparingSys M debug k₀).Run es k) :
    RangesKept M k₀ es k
    ∧ ∀ i size ptr start k',
        (sparingSys M debug k₀).step k (.anon i size ptr start) k' →
          EntryMoved i size start k k' := by
  have hinv := userInv_run hlaws hrun
  obtain ⟨ps, hgives, hsub⟩ :=
    gives_run hlaws (numbering_nodup hdisj haligned) hrun
  refine ⟨⟨?_, fun r hr => (hinv.range hr).1,
    ranges_disjoint hinv hgives hsub,
    fun r hr a => ranges_backed hinv hgives hsub hr,
    fun r hr s hs a b f => ranges_distinct hinv hgives hsub hr hs⟩,
    fun i size ptr start k' => entry_moved hinv⟩
  intro i p hp
  apply hinv.entries i
  unfold holdings
  rw [List.getElem?_map, hp]
  rfl

/-- The small machine's page table after one page of its process. -/
def rangeTable : Tables PhysFrame :=
  withPage smallTable (userPage 0x100000) (frameAt 20480)

/-- The first page of its ranges takes a frame, and two for the tables. -/
theorem rangeTable_fresh : FreshPage smallMapper (userPage 0x100000)
    smallUser.space (rangeTable, taken 7) := by
  refine ⟨frameAt 20480, taken 5, taken_allocates 4 (by decide),
    plainMapper_ok.mpr ⟨rfl, ?_, rfl⟩⟩
  exact .succ (taken_allocates 5 (by decide))
    (.succ (taken_allocates 6 (by decide)) .zero)

theorem rangeTable_stores : ∀ i < 8,
    CanStore smallMapper rangeTable (0x1fc000 + BitVec.ofNat 64 i) := by
  have hmap : ∀ i < 8, mappingAt smallMapper rangeTable
      (0x1fc000 + BitVec.ofNat 64 i) = some ⟨frameAt 4096, userFlags⟩ := by
    decide
  exact fun i hi => ⟨_, hmap i hi, by decide⟩

/-- The small machine after a request for one byte. -/
def smallGranted : State (Tables PhysFrame) :=
  granted smallMapper smallUser (rangeTable, taken 7) 0x1fc000 0x100000000
    4096

theorem smallGranted_run :
    (sparingSys smallMapper false smallBoot).Run
      (smallEvents ++ [.anon 1 1 0x1fc000 0x100000000]) smallGranted := by
  have hcurrent : smallUser.sched.processList[
      smallUser.sched.currentProcess]?
      = some (Sched.userProcess 0).resumed := rfl
  have hharmless : Harmless smallMapper 1 0x1fc000 smallUser :=
    harmless_zeroes rfl 1 0x1fc000
  refine smallUser_run.step ⟨⟨rfl, ?_, ?_⟩, hharmless⟩
  · exact (anon_granted_iff (a := 0x100000) hcurrent rfl rfl (by decide)
      (by decide) hharmless).mpr ⟨⟨⟨rfl, rfl⟩, rfl, rfl⟩, by decide, rfl,
        (rangeTable, taken 7), .cons rangeTable_fresh .nil,
        rangeTable_stores, rfl⟩
  · rw [view_eq]
    exact (read_stored rangeTable_stores).symm

theorem anon_ranges_small :
    requests (smallEvents ++ [.anon 1 1 0x1fc000 0x100000000])
        = [⟨0x100000000, 1⟩]
    ∧ RangesKept smallMapper smallBoot
        (smallEvents ++ [.anon 1 1 0x1fc000 0x100000000]) smallGranted :=
  ⟨rfl, (anon_ranges smallMapper_laws eightFrames_wellFormed.disjoint
    eightFrames_wellFormed.paged _ smallGranted_run).1⟩

-- ========================================================= a kernel's page

/-- An address of the kernel's half. -/
def kernelAddr : Word := 0xffff800000000000

/-- A page table with a page of the kernel's in it, besides, which is not
for the user. -/
def withKernelPage (pt : Tables PhysFrame) : Tables PhysFrame :=
  { pt with
    leaf := fun q =>
      if q.start = kernelAddr.toNat then
        some ⟨frameAt 0x100000, present ||| writable⟩
      else pt.leaf q }

/-- A store to the frame behind it is one to the saved stack pointer of
the first process. -/
def listBytes : PhysMemory (Tables PhysFrame) where
  phys _ := 0
  own y b data :=
    if 0x100000 ≤ y ∧ y < 0x100008 then
      let bit := 8 * (y - 0x100000)
      some { data with sched := { data.sched with
        processList := data.sched.processList.modify 0 fun p =>
          { p with rsp := p.rsp &&& ~~~((0xff : U64) <<< bit)
            ||| b.setWidth 64 <<< bit } } }
    else some data

/-- The small machine with that page, at boot. -/
def sharedBoot : State (Tables PhysFrame) :=
  { smallBoot with
    table := withKernelPage smallBoot.table
    toPhysMemory := listBytes }

/-- And while its user process runs. -/
def sharedUser : State (Tables PhysFrame) :=
  { sharedBoot with
    sched := Sched.ticked smallSched 0x9000
    table := withPage sharedBoot.table stackPage (frameAt 4096)
    frames := taken 4 }

theorem sharedUser_run :
    (sparingSys smallMapper false sharedBoot).Run smallEvents sharedUser := by
  refine user_run ⟨rfl, rfl, rfl, .init eightFrames, by decide⟩ ?_
  refine ⟨frameAt 4096, taken 1, taken_allocates 0 (by decide),
    plainMapper_ok.mpr ⟨rfl, ?_, rfl⟩⟩
  exact .succ (taken_allocates 1 (by decide))
    (.succ (taken_allocates 2 (by decide))
      (.succ (taken_allocates 3 (by decide)) .zero))

/-- The stack pointer of the first process after a call with its pointer
there. -/
def spoiledRsp : Option U64 :=
  match anonAllocateSyscall smallMapper false 1 kernelAddr sharedUser with
  | .ok ((), k') => k'.sched.processList[0]?.map (·.rsp)
  | .error _ => none

/-- A call with its pointer at the entry of another process changes that
entry. -/
theorem entries_spoiled :
    ¬ ∀ (k₀ k : State (Tables PhysFrame)) es,
      (usable k₀.frames.memoryMap).Pairwise MemoryRegion.Disjoint →
      Aligned k₀.frames.memoryMap →
      (kernelSys smallMapper false k₀).Run es k →
      ∀ i size ptr start k',
        (kernelSys smallMapper false k₀).step k (.anon i size ptr start) k' →
          EntryMoved i size start k k' := by
  intro h
  have hspoiled : spoiledRsp = some 0x100000000 := by decide +kernel
  unfold spoiledRsp at hspoiled
  split at hspoiled
  · next k' hcall =>
      have hmoved := h sharedBoot sharedUser smallEvents
        eightFrames_wellFormed.disjoint eightFrames_wellFormed.paged
        sharedUser_run.unguard 1 1 kernelAddr _ k' ⟨rfl, hcall, rfl⟩
      rw [hmoved.others 0 (by decide)] at hspoiled
      exact absurd hspoiled (by decide)
  · cases hspoiled

end Bayos.Kernel
