/-
Which executables the loader accepts.

# Rounding out

The pages of a segment are those from the page of its first byte to the
page of the byte before its end (`eachPage_user`). Two segments that meet
inside a page both have that page among theirs, and an empty segment has
one where it does not start on a page boundary; the mapper takes each
page once. So a file is accepted only when the pages of all its segments
are distinct (`accepts_iff`), which valid files need not be: without
empty segments, no two of them may share a page (`acceptable_iff`).
-/
import Bayos.Proofs.Segments

namespace Bayos.Kernel

open Rust
open Lib (Word)
open Lib.Paging
open Lib.Paging.PageRangeInclusive (lastUser)
open Bayos.Memory
open Bayos.Sched (MapperId)

variable {PT : Type} {M : PageMapper PT} {debug : Bool} {k : State PT}
  {img : Image} {L : Nat} {p : Program} {ps : List Program}
  {pages : List Page}

-- ==================================================== statement vocabulary

/-- The segment has a byte at `a`. -/
def Program.Covers (p : Program) (a : Nat) : Prop :=
  p.pVaddr ≤ a ∧ a < p.pVaddr + p.pMemsz

/-- The pages from that of the first byte of a segment to that of the
byte before its end. -/
def segmentRun (p : Program) : List Page :=
  pageRun (p.pVaddr / 4096)
    ((p.pVaddr + p.pMemsz - 1) / 4096 + 1 - p.pVaddr / 4096)

/-- The pages of the segments and of the stack, as the loader goes
through them. -/
def loadedPages (ps : List Program) : List Page :=
  ps.flatMap segmentRun ++ stackPages

/-- The pages that have a byte of a segment, and those of the stack. -/
def touchedPages (ps : List Program) : List Page :=
  (loadedPages (ps.filter fun p => 0 < p.pMemsz)).dedup

/-- A valid executable: segments in the lower half that share no byte,
touch neither the stack nor what is mapped already, and frames enough for
all of it. -/
structure Valid (M : PageMapper PT) (img : Image) (L : Nat)
    (ps : List Program) (k : State PT) : Prop where
  holds : img.Holds L ps
  user : ∀ p ∈ ps, p.pVaddr + p.pMemsz ≤ 2 ^ 47
  disjoint : ps.Pairwise fun p q => ∀ a, ¬ (p.Covers a ∧ q.Covers a)
  stack : ∀ p ∈ ps, ∀ a, p.Covers a → userPage (a / 4096) ∉ stackPages
  unmapped : ∀ p ∈ ps, ∀ a, p.Covers a →
    M.translate k.table (userPage (a / 4096)) = none
  frames : framesFor M k.table (touchedPages ps) ≤ freeCount k.frames

/-- What the loader asks of an executable, and of the kernel. -/
structure Acceptable (M : PageMapper PT) (debug : Bool) (img : Image)
    (ps : List Program) (k : State PT) : Prop where
  unlocked : Unlocked k
  header : debug = true → img.efi ≠ 0
  above : ∀ p ∈ ps, 0 < p.pVaddr + p.pMemsz
  below : ∀ p ∈ ps, p.pVaddr + p.pMemsz ≤ 2 ^ 47 - 4096
  readable : ∀ p ∈ ps, Readable debug img p
  apart : (loadedPages ps).Nodup
  unmapped : ∀ q ∈ loadedPages ps, M.translate k.table q = none
  frames : framesFor M k.table (loadedPages ps) ≤ freeCount k.frames
  entry : ∃ entry, img.eEntry = .ok entry ∧ IsCanonical entry

-- ============================================================ rounding out

/-- The pages of a segment of the lower half. -/
theorem eachPage_user (huser : p.pVaddr + p.pMemsz ≤ 2 ^ 47) :
    eachPage p = .ok pages
      ↔ 0 < p.pVaddr + p.pMemsz ∧ p.pVaddr + p.pMemsz ≤ 2 ^ 47 - 4096
        ∧ pages = segmentRun p := by
  have hstop : Usize.add p.pVaddr p.pMemsz = .ok (p.pVaddr + p.pMemsz) :=
    Usize.add_eq (by unfold wordSize; omega)
  unfold eachPage segmentPages
  rw [hstop, ok_bind]
  by_cases hpos : 0 < p.pVaddr + p.pMemsz
  · rw [Usize.sub_eq hpos, ok_bind, pagesIn_ok,
      pagesOf_iter_iff (by omega) (by omega)]
    unfold segmentRun lastUser
    constructor
    · intro h
      exact ⟨hpos, by omega, h.2⟩
    · intro h
      exact ⟨by omega, h.2.2⟩
  · -- `p_vaddr + p_memsz - 1` underflows
    constructor
    · intro h
      obtain ⟨r, hr, -⟩ := pagesIn_ok.mp h
      obtain ⟨last, hlast, -⟩ := bind_eq_ok.mp hr
      unfold Usize.sub at hlast
      rw [if_neg (by omega)] at hlast
      cases hlast
    · intro h
      exact absurd h.1 hpos

/-- The pages of segments of the lower half. -/
theorem allPages_user : ∀ {pages : List Page},
    (∀ p ∈ ps, p.pVaddr + p.pMemsz ≤ 2 ^ 47) →
    (allPages ps = .ok pages
      ↔ (∀ p ∈ ps, 0 < p.pVaddr + p.pMemsz)
        ∧ (∀ p ∈ ps, p.pVaddr + p.pMemsz ≤ 2 ^ 47 - 4096)
        ∧ pages = ps.flatMap segmentRun) := by
  induction ps with
  | nil =>
      intro pages _
      constructor
      · intro h
        obtain rfl := Except.ok.inj h
        simp
      · intro h
        rw [h.2.2]
        rfl
  | cons p ps ih =>
      intro pages huser
      obtain ⟨hp, hps⟩ := List.forall_mem_cons.mp huser
      simp only [List.forall_mem_cons, List.flatMap_cons]
      constructor
      · intro h
        obtain ⟨run, hrun, h₁⟩ := bind_eq_ok.mp h
        obtain ⟨rest, hrest, h₂⟩ := bind_eq_ok.mp h₁
        obtain rfl := Except.ok.inj h₂
        obtain ⟨habove, hbelow, rfl⟩ := (eachPage_user hp).mp hrun
        obtain ⟨haboves, hbelows, rfl⟩ := (ih hps).mp hrest
        exact ⟨⟨habove, haboves⟩, ⟨hbelow, hbelows⟩, rfl⟩
      · intro h
        obtain ⟨⟨habove, haboves⟩, ⟨hbelow, hbelows⟩, rfl⟩ := h
        refine bind_eq_ok.mpr
          ⟨_, (eachPage_user hp).mpr ⟨habove, hbelow, rfl⟩, ?_⟩
        exact bind_eq_ok.mpr
          ⟨_, (ih hps).mpr ⟨haboves, hbelows, rfl⟩, rfl⟩

-- ============================================================== the result

/-- The loader returns `Ok` for a valid executable exactly when the
executable is one it accepts. -/
theorem accepts_iff (hlaws : M.Laws BitmapAllocator.allocateFrame)
    (hsized : Sized k.frames) (h : Valid M img L ps k) (mapper : MapperId)
    (rflags : Word) :
    (∃ k', addUserProcess M debug img mapper rflags k = .ok (.ok (), k'))
      ↔ Acceptable M debug img ps k := by
  obtain ⟨phoff, phnum, hphoff, -, hin⟩ := h.holds.table
  have hsum : img.efi + phoff < wordSize := by
    have hfits := h.holds.fits
    omega
  rw [addUserProcess_exists_iff hlaws hphoff hsum h.holds.segments]
  constructor
  · intro hload
    obtain ⟨hunlocked, hnull, hreadable, ⟨pages, s, hpages, hfresh⟩,
      hentry⟩ := hload
    obtain ⟨habove, hbelow, rfl⟩ := (allPages_user h.user).mp hpages
    obtain ⟨hnodup, hunmapped, hcount⟩ :=
      (freshPages_exists_iff (s := k.space) hlaws hsized).mp ⟨s, hfresh⟩
    exact ⟨hunlocked, hnull, habove, hbelow, hreadable, hnodup, hunmapped,
      hcount, hentry⟩
  · intro hok
    obtain ⟨s, hfresh⟩ := (freshPages_exists_iff (s := k.space) hlaws
      hsized).mpr ⟨hok.apart, hok.unmapped, hok.frames⟩
    exact ⟨hok.unlocked, hok.header, hok.readable,
      ⟨_, s, (allPages_user h.user).mpr ⟨hok.above, hok.below, rfl⟩, hfresh⟩,
      hok.entry⟩

-- ========================================================= a page for each

/-- No byte of one segment is in the page of a byte of the other. -/
def Program.Apart (p q : Program) : Prop :=
  ∀ a b, p.Covers a → q.Covers b → a / 4096 ≠ b / 4096

/-- The pages of a segment that is not empty are those of its bytes. -/
theorem mem_segmentRun (hpos : 0 < p.pMemsz) {q : Page} :
    q ∈ segmentRun p ↔ ∃ a, p.Covers a ∧ q = userPage (a / 4096) := by
  unfold segmentRun Program.Covers
  rw [mem_pageRun]
  constructor
  · intro h
    obtain ⟨i, hlow, hhigh, rfl⟩ := h
    refine ⟨max p.pVaddr (4096 * i), ⟨by omega, by omega⟩, ?_⟩
    congr 1
    omega
  · intro h
    obtain ⟨a, ha, rfl⟩ := h
    exact ⟨a / 4096, by omega, by omega, rfl⟩

/-- Segments share no page exactly when their bytes share none. -/
theorem disjoint_iff_apart {q : Program} (hp : 0 < p.pMemsz)
    (hq : 0 < q.pMemsz) (hpuser : p.pVaddr + p.pMemsz ≤ 2 ^ 47)
    (hquser : q.pVaddr + q.pMemsz ≤ 2 ^ 47) :
    List.Disjoint (segmentRun p) (segmentRun q) ↔ p.Apart q := by
  constructor
  · intro h a b ha hb heq
    refine h ((mem_segmentRun hp).mpr ⟨a, ha, rfl⟩) ?_
    exact (mem_segmentRun hq).mpr ⟨b, hb, by rw [heq]⟩
  · intro h page hpage hpage'
    obtain ⟨a, ha, rfl⟩ := (mem_segmentRun hp).mp hpage
    obtain ⟨b, hb, heq⟩ := (mem_segmentRun hq).mp hpage'
    have ha' := ha.2
    have hb' := hb.2
    exact h a b ha hb (userPage_inj (by omega) (by omega) heq)

/-- A page of a segment of a valid executable is neither the stack's nor
mapped. -/
theorem Valid.segmentPage (h : Valid M img L ps k)
    (hpos : ∀ p ∈ ps, 0 < p.pMemsz) {q : Page}
    (hq : q ∈ ps.flatMap segmentRun) :
    q ∉ stackPages ∧ M.translate k.table q = none := by
  obtain ⟨p, hp, hrun⟩ := List.mem_flatMap.mp hq
  obtain ⟨a, ha, rfl⟩ := (mem_segmentRun (hpos p hp)).mp hrun
  exact ⟨h.stack p hp a ha, h.unmapped p hp a ha⟩

theorem stackPages_nodup : stackPages.Nodup := pageRun_nodup (by decide)

/-- The pages of a valid executable without empty segments are distinct
exactly when no two segments share one. -/
theorem loadedPages_nodup_iff (h : Valid M img L ps k)
    (hpos : ∀ p ∈ ps, 0 < p.pMemsz) :
    (loadedPages ps).Nodup ↔ ps.Pairwise Program.Apart := by
  have hruns : ∀ p ∈ ps, (segmentRun p).Nodup := by
    intro p hp
    have huser := h.user p hp
    refine pageRun_nodup ?_
    omega
  have hapart : ps.Pairwise (Function.onFun List.Disjoint segmentRun)
      ↔ ps.Pairwise Program.Apart :=
    List.Pairwise.iff_of_mem fun hp hq => disjoint_iff_apart (hpos _ hp)
      (hpos _ hq) (h.user _ hp) (h.user _ hq)
  unfold loadedPages
  rw [List.nodup_append, List.nodup_flatMap, hapart]
  constructor
  · intro hnodup
    exact hnodup.1.2
  · intro hpairs
    refine ⟨⟨hruns, hpairs⟩, stackPages_nodup, ?_⟩
    intro q hq q' hq' heq
    subst heq
    exact (h.segmentPage hpos hq).1 hq'

/-- A valid executable without empty segments is accepted when no two of
its segments share a page, given what does not depend on them. -/
theorem acceptable_iff (h : Valid M img L ps k)
    (hpos : ∀ p ∈ ps, 0 < p.pMemsz) :
    Acceptable M debug img ps k ↔ ps.Pairwise Program.Apart ∧ Unlocked k
      ∧ (∀ p ∈ ps, p.pVaddr + p.pMemsz ≤ 2 ^ 47 - 4096)
      ∧ (debug = true → img.efi ≠ 0)
      ∧ (∀ p ∈ ps, Readable debug img p)
      ∧ (∀ q ∈ stackPages, M.translate k.table q = none)
      ∧ ∃ entry, img.eEntry = .ok entry ∧ IsCanonical entry := by
  constructor
  · intro hok
    refine ⟨(loadedPages_nodup_iff h hpos).mp hok.apart, hok.unlocked,
      hok.below, hok.header, hok.readable, fun q hq => ?_, hok.entry⟩
    exact hok.unmapped q (List.mem_append_right _ hq)
  · intro hparts
    obtain ⟨hpairs, hunlocked, hbelow, hnull, hreadable, hstack, hentry⟩ :=
      hparts
    have hnodup := (loadedPages_nodup_iff h hpos).mpr hpairs
    refine ⟨hunlocked, hnull, ?_, hbelow, hreadable, hnodup, ?_, ?_, hentry⟩
    · intro p hp
      have := hpos p hp
      omega
    · intro q hq
      rcases List.mem_append.mp hq with hq | hq
      · exact (h.segmentPage hpos hq).2
      · exact hstack q hq
    · -- every page is touched, and counted once
      have hall : ps.filter (fun p => 0 < p.pMemsz) = ps :=
        List.filter_eq_self.mpr fun p hp => decide_eq_true (hpos p hp)
      have hframes := h.frames
      unfold touchedPages at hframes
      rw [hall, hnodup.dedup] at hframes
      exact hframes

-- =========================================================== a shared page

/-- Two segments that meet inside the page at 0x400000. -/
def sharedFile : List Byte :=
  elfFile [loadHeader 24 0x400000 3 3, loadHeader 27 0x400003 3 3]

def sharedSegments : List Program :=
  [⟨24, 0x400000, 3, 3⟩, ⟨27, 0x400003, 3, 3⟩]

theorem sharedFile_holds :
    (inMemory sharedFile).Holds 176 sharedSegments where
  fits := by decide
  bytes o ho := inMemory_byte ho
  header := by decide
  table := ⟨64, 2, by decide +kernel, by decide +kernel, by decide⟩
  segments := by decide +kernel
  contents := by decide
  filled := by decide

/-- Segments inside one page that is neither the stack's nor mapped. -/
theorem valid_onePage {n : Nat} (hholds : img.Holds L ps)
    (huser : ∀ p ∈ ps, p.pVaddr + p.pMemsz ≤ 2 ^ 47)
    (hdisjoint : ps.Pairwise fun p q => p.pVaddr + p.pMemsz ≤ q.pVaddr)
    (hpage : ∀ p ∈ ps, 4096 * n ≤ p.pVaddr
      ∧ p.pVaddr + p.pMemsz ≤ 4096 * (n + 1))
    (hstack : userPage n ∉ stackPages)
    (hunmapped : M.translate k.table (userPage n) = none)
    (hframes : framesFor M k.table (touchedPages ps) ≤ freeCount k.frames) :
    Valid M img L ps k := by
  have hin : ∀ p ∈ ps, ∀ a, p.Covers a → a / 4096 = n := by
    intro p hp a ha
    have hbounds := hpage p hp
    unfold Program.Covers at ha
    omega
  refine ⟨hholds, huser, hdisjoint.imp ?_, ?_, ?_, hframes⟩
  · intro p q hpq a hboth
    unfold Program.Covers at hboth
    omega
  · intro p hp a ha
    rw [hin p hp a ha]
    exact hstack
  · intro p hp a ha
    rw [hin p hp a ha]
    exact hunmapped

theorem sharedFile_valid :
    Valid smallMapper (inMemory sharedFile) 176 sharedSegments
      loaderBoot :=
  valid_onePage (n := 0x400) sharedFile_holds (by decide) (by decide)
    (by decide) (by decide +kernel) rfl (by decide +kernel)

theorem accepts_iff_shared :
    (∃ k', addUserProcess smallMapper true (inMemory sharedFile) 0 0
        loaderBoot = .ok (.ok (), k'))
      ↔ Acceptable smallMapper true (inMemory sharedFile) sharedSegments
        loaderBoot :=
  accepts_iff smallMapper_laws sixteenFrames_sized sharedFile_valid 0 0

/-- A valid executable is refused: its segments meet inside a page. -/
theorem refuses_valid :
    Valid smallMapper (inMemory sharedFile) 176 sharedSegments loaderBoot
      ∧ ¬ ∃ k', addUserProcess smallMapper true (inMemory sharedFile) 0 0
          loaderBoot = .ok (.ok (), k') := by
  refine ⟨sharedFile_valid, fun h => ?_⟩
  have hok : returnsOk (addUserProcess smallMapper true
      (inMemory sharedFile) 0 0) loaderBoot = true := returnsOk_iff.mpr h
  exact absurd hok (by decide +kernel)

end Bayos.Kernel
