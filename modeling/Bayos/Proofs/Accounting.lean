/-
Where the frames of a machine are. The kernel never takes a frame back,
so what is free is what nothing has taken, and each taken frame has one
of two uses: it is behind a page, or it is a page table.

# The balance

A page table is counted when the first page below it is mapped, whoever
maps it: so the tables are those that the bootloader's table is missing
on the way to any page mapped since, each of them once
(`frames_accounted`).
-/
import Bayos.Proofs.Boot

namespace Bayos.Boot

open Lib.Paging
open Lib.Bitmap (filled)
open Bayos.Memory
open Bayos.Allocator (LinkedListAllocator)
open Bayos.Kernel

variable {PT : Type} {M : PageMapper PT} {debug : Bool}
  {k₀ k k' : State PT} {O : OffsetPageTable PT} {mm : MemoryRegions}
  {requests : Requests} {table table₀ : PT} {heap : LinkedListAllocator}
  {frames₀ : BitmapAllocator}

/-- The pages a step maps. -/
def pagesOf : Event → List Page
  | .map page => [page]
  | .anon _ size _ start => Request.pages ⟨start.toNat, size.toNat⟩
  | _ => []

/-- The pages that were mapped in a run. -/
def pagesMapped (es : List Event) : List Page := es.flatMap pagesOf

/-- What a loop takes from the frame allocator. -/
theorem freshPages_count (hlaws : M.Laws BitmapAllocator.allocateFrame)
    {ps : List Page} {s s' : Space PT} (h : FreshPages M ps s s') :
    freeCount s.2
      = freeCount s'.2 + ps.length + (missingTables M s.1 ps).card := by
  induction h with
  | nil => simp [missingTables]
  | @cons p ps s s₁ s₂ hone _ ih =>
      obtain ⟨-, -, htables⟩ := hone.spec hlaws
      rw [hone.count hlaws, ih, missingTables_cons ps htables,
        List.length_cons]
      omega

/-- A step maps its pages, each to a fresh frame. -/
theorem pages_step {es : List Event} {e : Event} (hinv : UserInv es k)
    (hstep : (sparingSys M debug k₀).step k e k') :
    FreshPages M (pagesOf e) k.space k'.space := by
  obtain ⟨hstep, hsparing⟩ := hstep
  cases e with
  | tick rsp ret =>
      obtain ⟨t, -, rfl⟩ := hstep
      exact .nil
  | addProcess stack =>
      obtain ⟨t, -, rfl⟩ := hstep
      exact .nil
  | markCurrentAsDead =>
      obtain ⟨t, -, rfl⟩ := hstep
      exact .nil
  | lock =>
      obtain ⟨-, -, rfl⟩ := hstep
      exact .nil
  | map page =>
      obtain ⟨-, -, hmap⟩ := hstep
      obtain ⟨qs, s, hqs, hfresh, rfl⟩ := mapPages_ok.mp hmap
      have hone : [page] = qs := Rust.map_ok_inj hqs
      rw [← hone] at hfresh
      exact hfresh
  | push mapper =>
      obtain ⟨-, -, t, -, rfl⟩ := hstep
      exact .nil
  | stores phys =>
      obtain ⟨⟨own, rfl⟩, -⟩ := hstep
      exact .nil
  | read a b =>
      obtain ⟨phys, rfl⟩ := read_memory hsparing hstep
      exact .nil
  | anon i size ptr start =>
      obtain ⟨m, a, s, -, -, hfits, -, hstart, hfresh, rfl⟩ :=
        anon_step hinv hsparing hstep
      unfold Fits PageRangeInclusive.lastUser at hfits
      have hnat : start.toNat / 4096 = a := by
        rw [hstart, BitVec.toNat_ofNat, Nat.mod_eq_of_lt (by omega)]
        omega
      have hpages : Request.pages ⟨start.toNat, size.toNat⟩
          = pageRun a (pagesFor size.toNat) :=
        congrArg (pageRun · (pagesFor size.toNat)) hnat
      show FreshPages M (Request.pages ⟨start.toNat, size.toNat⟩) _ _
      rw [hpages]
      exact hfresh

/-- And so does a run. -/
theorem pages_run (hlaws : M.Laws BitmapAllocator.allocateFrame)
    {es : List Event} (hrun : (sparingSys M debug k₀).Run es k) :
    FreshPages M (pagesMapped es) k₀.space k.space := by
  refine hrun.history (I := fun es k =>
    FreshPages M (pagesMapped es) k₀.space k.space) ?_ ?_
  · intro k h
    obtain ⟨rfl, -⟩ := h
    exact .nil
  · intro es k e k' hrun hpages hstep
    have hmore := pages_step (userInv_run hlaws hrun) hstep
    have heq : pagesMapped (es ++ [e]) = pagesMapped es ++ pagesOf e := by
      simp [pagesMapped]
    rw [heq]
    exact hpages.append hmore

/-- In every state after boot each of the machine's usable frames is
free, or behind a page of the heap or a page that was mapped since, or one
of the page tables that were missing for them at boot; and the pages that
are mapped are these and the bootloader's. -/
theorem frames_accounted (h : Relies O mm table)
    (hset : setUpMemory O requests mm table = .ok (table₀, heap, frames₀))
    (phys : PhysMemory PT) (debug : Bool) {es : List Event}
    (hrun : (sparingSys O.later debug (booted table₀ frames₀ phys)).Run es
      k) :
    (numbering mm).length = freeCount k.frames
        + (heapPages + (pagesMapped es).length)
        + (missingTables O.later table (heapPage :: pagesMapped es)).card
    ∧ (pagesMapped es).Nodup
    ∧ ∀ p, O.later.translate k.table p = none
        ↔ O.later.translate table p = none ∧ ¬ InHeap p
          ∧ p ∉ pagesMapped es := by
  obtain ⟨⟨frames, heap₀, hinit⟩, -, rfl⟩ :=
    (setUpMemory_ok h.map h.boot).mp hset
  have hready := heapReady h.boot h.map hinit
  have hle := heapFrames_le h.boot h.map hinit
  have hnum := numbering_nodup h.map.disjoint h.map.paged
  have hfresh := pages_run h.later hrun
  have hgives := hfresh.gives h.later hnum
  refine ⟨?_, hgives.nodup, fun p => ?_⟩
  · have hcount : freeCount ⟨mm, filled (heapFrames O.boot table)
          (numbering mm).length⟩ = freeCount k.frames
        + (pagesMapped es).length
        + (missingTables O.later table₀ (pagesMapped es)).card :=
      freshPages_count h.later hfresh
    have htables : ∀ t, O.later.hasTable table₀ t
        = (O.later.hasTable table t || decide (t ∈ heapPage.tables)) := by
      rw [O.same_tables]
      exact hready.tables
    have hmissing : O.boot.missing table heapPage
        = O.later.missing table heapPage := by
      unfold Mapper.missing
      rw [O.same_tables]
    rw [freeCount_filled] at hcount
    rw [missingTables_cons _ htables, ← hmissing]
    unfold heapFrames at hle hcount
    omega
  · have hboot : O.later.translate table₀ p = none
        ↔ ¬ InHeap p ∧ O.later.translate table p = none := by
      rw [O.same_translate]
      exact hready.none_iff
    constructor
    · intro hnone
      have hp : p ∉ pagesMapped es := by
        intro hmem
        obtain ⟨f, hf, -⟩ := hgives.mapped p hmem
        rw [show O.later.translate k.table p = some _ from hf] at hnone
        cases hnone
      have hthen : O.later.translate table₀ p = none :=
        (hgives.others p hp).symm.trans hnone
      exact ⟨(hboot.mp hthen).2, (hboot.mp hthen).1, hp⟩
    · intro hparts
      obtain ⟨hnone, hin, hp⟩ := hparts
      exact (hgives.others p hp).trans (hboot.mpr ⟨hin, hnone⟩)

theorem frames_accounted_stack : ∃ k : State (Tables PhysFrame),
    1024 = freeCount k.frames + (512 + 5)
      + (missingTables plainTable.later noTables
        (heapPage :: stackPages)).card := by
  obtain ⟨table₀, heap, frames₀, k, s, hset, hrun, -⟩ :=
    plain_machine [] (by decide) (by decide) (by decide)
  obtain ⟨hframes, -⟩ :=
    frames_accounted plain_relies hset zeroes true hrun
  have hpages : pagesMapped
      ([] ++ [.lock] ++ stackPages.map .map ++ [.push 0]) = stackPages := rfl
  rw [hpages, roomyMap_frames] at hframes
  exact ⟨k, hframes⟩

end Bayos.Boot
