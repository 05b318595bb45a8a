/-
`kernel_main`: when it gets to its idle loop, on which machines it never
does, and why there is only ever one user process.

# What booting takes

The heap takes 512 frames and the program one for each of its pages; the
tables that are missing are counted once, those above the heap with those
above the program (`kernel_main_ok_iff`). The bits of the bitmap
allocator lie on the heap, which bounds the memory a machine may have
(`boots_below`).
-/
import Bayos.Proofs.Failure
import Bayos.Proofs.HeapMemory
import Bayos.Proofs.Isolation
import Bayos.Proofs.Segments

namespace Bayos.Boot

open Rust
open Lib (TransSys Word)
open Lib.Paging
open Lib.Bitmap (filled length_filled)
open Bayos.Memory
open Bayos.Allocator (LinkedListAllocator heapStart heapSize heapSys)
open Bayos.Kernel
open Bayos.Sched (MapperId)

variable {PT α : Type} {O : OffsetPageTable PT} {debug : Bool}
  {parts : Parts} {requests : Requests} {bootInfo : BootInfo}
  {mm : MemoryRegions} {table : PT} {img : Image} {ps : List Program}
  {mapper : MapperId} {rflags : Word}

-- =============================================================== the parts

theorem orPanic_ok {x : Except Panic α} {a : α} :
    orPanic x = .ok a ↔ x = .ok a := by
  cases x with
  | ok b => simp [orPanic]
  | error p => simp [orPanic]

/-- The parts of `kernel_main` that are left out find what they need of the
bootloader, and return. -/
structure PartsReturn (parts : Parts) (bootInfo : BootInfo) : Prop where
  start : ∃ fb, bootInfo.framebuffer = some fb ∧ parts.start fb = .ok ()
  offset : ∃ offset : VirtAddr,
    bootInfo.physicalMemoryOffset = some offset.val
      ∧ parts.activeLevel4Table offset = .ok ()
  platform : ∃ rsdp, bootInfo.rsdpAddr = some rsdp
    ∧ parts.platform rsdp = .ok ()

/-- Memory is set up when it is without the platform, and the platform is
set up. -/
theorem setUpMemory_withPlatform {rsdpAddr : Option Nat}
    {r : PT × LinkedListAllocator × BitmapAllocator} :
    setUpMemory O (withPlatform parts rsdpAddr requests) mm table = .ok r
      ↔ (∃ rsdp, rsdpAddr = some rsdp ∧ parts.platform rsdp = .ok ())
        ∧ setUpMemory O requests mm table = .ok r := by
  unfold setUpMemory
  simp only [bind_eq_ok]
  constructor
  · intro h
    obtain ⟨⟨mapped, t, frames, heap⟩, hinit, _, hok, heap₁, hearlier, h⟩ := h
    obtain ⟨rsdp, hrsdp, hrest⟩ := bind_eq_ok.mp hearlier
    obtain ⟨_, hplatform, hearlier⟩ := bind_eq_ok.mp hrest
    exact ⟨⟨rsdp, expect_ok.mp hrsdp, hplatform⟩, _, hinit, (), hok, heap₁,
      hearlier, h⟩
  · intro h
    obtain ⟨⟨rsdp, hrsdp, hplatform⟩, s, hinit, _, hok, heap₁, hearlier,
      h⟩ := h
    refine ⟨s, hinit, (), hok, heap₁, ?_, h⟩
    refine bind_eq_ok.mpr ⟨rsdp, expect_ok.mpr hrsdp, ?_⟩
    exact bind_eq_ok.mpr ⟨(), hplatform, hearlier⟩

/-- `kernel_main` gets to its idle loop when its other parts return,
memory is set up, and the program, if there is one, is loaded. -/
theorem kernelMain_ok (phys : PhysMemory PT) :
    (∃ r, kernelMain O debug parts requests bootInfo mm mapper rflags phys
        table = .ok r)
      ↔ PartsReturn parts bootInfo ∧ ∃ table₀ heap frames₀,
        setUpMemory O requests mm table = .ok (table₀, heap, frames₀)
        ∧ ∀ img, bootInfo.ramdiskAddr = some img →
          ∃ k, addUserProcess O.later debug img mapper rflags
            (booted table₀ frames₀ phys) = .ok (.ok (), k) := by
  unfold kernelMain
  simp only [bind_eq_ok, orPanic_ok, Kernel.expect_ok,
    setUpMemory_withPlatform]
  constructor
  · intro h
    obtain ⟨r, fb, hfb, _, hstart, a, ha, offset, hoffset, _, hactive,
      ⟨table₀, heap, frames₀⟩, ⟨hplatform, hset⟩, h⟩ := h
    refine ⟨⟨⟨fb, hfb, hstart⟩, ⟨offset, ?_, hactive⟩, hplatform⟩, table₀,
      heap, frames₀, hset, fun img himg => ?_⟩
    · rw [ha, VirtAddr.new_eq.mp hoffset]
    · simp only [himg, bind_eq_ok, orPanic_ok] at h
      obtain ⟨⟨loaded, k⟩, hload, _, hok, -⟩ := h
      cases loaded with
      | ok u => exact ⟨k, hload⟩
      | error e => cases hok
  · intro h
    obtain ⟨⟨⟨fb, hfb, hstart⟩, ⟨offset, hoffset, hactive⟩, hplatform⟩,
      table₀, heap, frames₀, hset, hload⟩ := h
    have hnew : VirtAddr.new offset.val = .ok offset :=
      VirtAddr.new_eq.mpr rfl
    cases hdisk : bootInfo.ramdiskAddr with
    | none =>
        exact ⟨(booted table₀ frames₀ phys, heap), fb, hfb, (), hstart, _,
          hoffset, offset, hnew, (), hactive, (table₀, heap, frames₀),
          ⟨hplatform, hset⟩, rfl⟩
    | some img =>
        obtain ⟨k, hk⟩ := hload img hdisk
        refine ⟨(k, heap), fb, hfb, (), hstart, _, hoffset, offset, hnew, (),
          hactive, (table₀, heap, frames₀), ⟨hplatform, hset⟩, ?_⟩
        exact bind_eq_ok.mpr ⟨_, hk, bind_eq_ok.mpr ⟨(), rfl, rfl⟩⟩

-- ====================================================== what booting takes

/-- The pages of a program and its stack, and the heap before them. -/
def bootPages (pages : List Page) : List Page :=
  heapPage :: (pages ++ stackPages)

/-- What `kernel_main` needs of the machine and of the program: a heap
that serves what is asked of it, segments that can be copied, pages that
are distinct and not mapped, and frames for all of them and for the tables
that are missing. -/
structure Bootable (O : OffsetPageTable PT) (debug : Bool)
    (requests : Requests) (mm : MemoryRegions) (table : PT) (img : Image)
    (ps : List Program) (pages : List Page) : Prop where
  serves : ∃ heap, Serves requests (numbering mm).length heap
  heap : ∀ p, InHeap p → O.later.translate table p = none
  header : debug = true → img.efi ≠ 0
  readable : ∀ p ∈ ps, Readable debug img p
  run : allPages ps = .ok pages
  apart : (pages ++ stackPages).Nodup
  outside : ∀ p ∈ pages ++ stackPages, ¬ InHeap p
  unmapped : ∀ p ∈ pages ++ stackPages, O.later.translate table p = none
  frames : heapPages + (pages ++ stackPages).length
      + (missingTables O.later table (bootPages pages)).card
    ≤ (numbering mm).length
  entry : ∃ entry, img.eEntry = .ok entry ∧ IsCanonical entry

/-- The frames left after the heap are enough for some pages when all
frames are for the heap and them. -/
theorem frames_iff {table₀ : PT} {qs : List Page} {left : Nat}
    (htables : ∀ t, O.later.hasTable table₀ t
      = (O.later.hasTable table t || decide (t ∈ heapPage.tables)))
    (hleft : left = (numbering mm).length - heapFrames O.boot table)
    (hle : heapFrames O.boot table ≤ (numbering mm).length) :
    qs.length + (missingTables O.later table₀ qs).card ≤ left
      ↔ heapPages + qs.length
          + (missingTables O.later table (heapPage :: qs)).card
        ≤ (numbering mm).length := by
  have hmissing : O.boot.missing table heapPage
      = O.later.missing table heapPage := by
    unfold Mapper.missing
    rw [O.same_tables]
  rw [missingTables_cons qs htables, ← hmissing, hleft]
  unfold heapFrames at hle ⊢
  omega

/-- When the program is loaded, once memory is set up. -/
theorem loads_iff (h : Relies O mm table) {table₀ : PT}
    {frames : BootInfoFrameAllocator} {heap₀ : LinkedListAllocator}
    (hinit : initHeap O.boot BootInfoFrameAllocator.allocateFrame table
      (.init mm) .new = .ok (.ok (), table₀, frames, heap₀)) {phoff : Nat}
    (hphoff : img.ePhoff = .ok phoff) (hsum : img.efi + phoff < wordSize)
    (hps : img.segments = .ok ps) (phys : PhysMemory PT)
    {heap : LinkedListAllocator}
    (hserves : Serves requests (numbering mm).length heap) :
    (∃ k, addUserProcess O.later debug img mapper rflags (booted table₀
        ⟨mm, filled (heapFrames O.boot table) (numbering mm).length⟩ phys)
          = .ok (.ok (), k))
      ↔ ∃ pages, Bootable O debug requests mm table img ps pages := by
  have hready := heapReady h.boot h.map hinit
  have hle := heapFrames_le h.boot h.map hinit
  have hsized : Sized ⟨mm, filled (heapFrames O.boot table)
      (numbering mm).length⟩ := ⟨h.map.fit, length_filled hle⟩
  have hnone : ∀ p, O.later.translate table₀ p = none
      ↔ ¬ InHeap p ∧ O.later.translate table p = none := by
    intro p
    rw [O.same_translate]
    exact hready.none_iff
  have htables : ∀ t, O.later.hasTable table₀ t
      = (O.later.hasTable table t || decide (t ∈ heapPage.tables)) := by
    rw [O.same_tables]
    exact hready.tables
  have hexists : ∀ qs, (∃ s, FreshPages O.later qs
      (table₀, ⟨mm, filled (heapFrames O.boot table)
        (numbering mm).length⟩) s)
      ↔ qs.Nodup
        ∧ (∀ p ∈ qs, ¬ InHeap p ∧ O.later.translate table p = none)
        ∧ heapPages + qs.length
          + (missingTables O.later table (heapPage :: qs)).card
            ≤ (numbering mm).length := by
    intro qs
    rw [freshPages_exists_iff h.later hsized,
      frames_iff htables (freeCount_filled mm) hle]
    simp only [hnone]
  rw [addUserProcess_exists_iff h.later hphoff hsum hps]
  constructor
  · intro hload
    obtain ⟨-, hnull, hreadable, ⟨pages, s, hrun, hfresh⟩, hentry⟩ := hload
    obtain ⟨hapart, hfree, hframes⟩ := (hexists _).mp ⟨s, hfresh⟩
    refine ⟨pages, ⟨heap, hserves⟩, ?_, hnull, hreadable, hrun, hapart,
      fun p hp => (hfree p hp).1, fun p hp => (hfree p hp).2, hframes,
      hentry⟩
    rw [O.same_translate]
    exact hready.unmapped
  · intro hboot
    obtain ⟨pages, hb⟩ := hboot
    obtain ⟨s, hfresh⟩ := (hexists (pages ++ stackPages)).mpr ⟨hb.apart,
      fun p hp => ⟨hb.outside p hp, hb.unmapped p hp⟩, hb.frames⟩
    exact ⟨⟨rfl, rfl, rfl⟩, hb.header, hb.readable,
      ⟨pages, s, hb.run, hfresh⟩, hb.entry⟩

/-- A program that can be booted leaves the heap's frames. -/
theorem Bootable.heapFrames_le {pages : List Page}
    (hb : Bootable O debug requests mm table img ps pages) :
    heapFrames O.boot table ≤ (numbering mm).length := by
  have hmissing := missing_le (M := O.later) table heapPage
    (pages ++ stackPages)
  have hframes := hb.frames
  have hsame : O.boot.missing table heapPage
      = O.later.missing table heapPage := by
    unfold Mapper.missing
    rw [O.same_tables]
  unfold heapFrames
  unfold bootPages at hframes
  omega

/-- The heap can be set up where it should be. -/
theorem init_exists (h : Relies O mm table)
    (hnone : ∀ p, InHeap p → O.later.translate table p = none)
    (hle : heapFrames O.boot table ≤ (numbering mm).length) :
    ∃ table₀ frames heap₀, initHeap O.boot
      BootInfoFrameAllocator.allocateFrame table (.init mm) .new
        = .ok (.ok (), table₀, frames, heap₀) := by
  rw [O.same_translate] at hnone
  exact (initHeap_exists_iff h.boot h.map table).mpr ⟨hnone, hle⟩

/-- Memory can be set up and the program then be loaded. -/
theorem bootable_iff (h : Relies O mm table) {phoff : Nat}
    (hphoff : img.ePhoff = .ok phoff) (hsum : img.efi + phoff < wordSize)
    (hps : img.segments = .ok ps) (mapper : MapperId) (rflags : Word)
    (phys : PhysMemory PT) :
    (∃ table₀ heap frames₀,
      setUpMemory O requests mm table = .ok (table₀, heap, frames₀)
      ∧ ∃ k, addUserProcess O.later debug img mapper rflags
          (booted table₀ frames₀ phys) = .ok (.ok (), k))
      ↔ ∃ pages, Bootable O debug requests mm table img ps pages := by
  constructor
  · intro hboot
    obtain ⟨table₀, heap, frames₀, hset, hload⟩ := hboot
    obtain ⟨⟨frames, heap₀, hinit⟩, hserves, rfl⟩ :=
      (setUpMemory_ok h.map h.boot).mp hset
    exact (loads_iff h hinit hphoff hsum hps phys hserves).mp hload
  · intro hboot
    obtain ⟨pages, hb⟩ := hboot
    obtain ⟨heap, hserves⟩ := hb.serves
    obtain ⟨table₀, frames, heap₀, hinit⟩ :=
      init_exists h hb.heap hb.heapFrames_le
    exact ⟨table₀, heap, _, (setUpMemory_ok h.map h.boot).mpr
      ⟨⟨frames, heap₀, hinit⟩, hserves, rfl⟩,
      (loads_iff h hinit hphoff hsum hps phys hserves).mpr ⟨pages, hb⟩⟩

/-- The segment of the small image. -/
def smallSegments : List Program := [⟨24, 0x400000, 3, 5⟩]

theorem smallImage_bootable : Bootable plainTable true plainRequests
    roomyMap noTables smallImage smallSegments (pageRun 0x400 1) where
  serves := ⟨_, plain_serves⟩
  heap _ _ := rfl
  header := by decide
  readable := by
    refine List.forall_mem_singleton.mpr ⟨by decide, ?_, by decide⟩
    unfold MayCopy
    decide
  run := by decide +kernel
  apart := by decide +kernel
  outside := by decide +kernel
  unmapped _ _ := rfl
  frames := by
    rw [roomyMap_frames]
    decide +kernel
  entry := ⟨0x400000, by decide, by decide⟩

/-- A machine whose other parts find nothing to panic about, with its page
table in the second frame. -/
def plainParts : Parts where
  start _ := .ok ()
  activeLevel4Table offset := do
    let _ ← offset.add 0x1000
    pure ()
  platform _ := .ok ()

/-- What its bootloader hands on. -/
def plainInfo : BootInfo where
  framebuffer := some (⟨[], Nat.zero_le _⟩, ⟨0, 0, .rgb, 4, 0⟩)
  physicalMemoryOffset := some 0xffff800000000000
  rsdpAddr := some 0xe0000
  ramdiskAddr := none

theorem plainParts_return : PartsReturn plainParts plainInfo where
  start := ⟨_, rfl, rfl⟩
  offset := ⟨⟨0xffff800000000000, by decide⟩, rfl, bind_eq_ok.mpr
    ⟨⟨0xffff800000001000, by decide⟩, VirtAddr.add_eq.mpr (by decide), rfl⟩⟩
  platform := ⟨_, rfl, rfl⟩

/-- A block found in a region ends in it. -/
theorem found_inside {n : Allocator.ListNode} {size align a : Nat}
    (h : Allocator.allocFromRegion n size align = .ok (some a)) :
    a + size ≤ n.addr + n.size := by
  unfold Allocator.allocFromRegion Usize.checkedAdd at h
  obtain ⟨start, -, hrest⟩ := bind_eq_ok.mp h
  by_cases hsum : start + size < wordSize
  · rw [if_pos hsum] at hrest
    obtain ⟨stop, hstop, hrest⟩ := bind_eq_ok.mp hrest
    have hend : stop = n.addr + n.size := Usize.add_ok hstop
    by_cases hlt : stop < start + size
    · rw [if_pos hlt] at hrest
      cases hrest
    · rw [if_neg hlt] at hrest
      obtain ⟨excess, -, hrest⟩ := bind_eq_ok.mp hrest
      by_cases hex : 0 < excess ∧ excess < Allocator.nodeSize
      · rw [if_pos hex] at hrest
        cases hrest
      · rw [if_neg hex] at hrest
        have ha : start = a := Option.some.inj (Except.ok.inj hrest)
        omega
  · rw [if_neg hsum] at hrest
    cases hrest

/-- What a heap in good order serves is no larger than the heap. -/
theorem request_fits {s : Allocator.Heap} (hinv : Allocator.HeapInv s)
    {l : Layout} {heap : LinkedListAllocator}
    (h : request s.allocator l = .ok heap) : l.size ≤ heapSize := by
  obtain ⟨⟨ret, heap₁⟩, halloc, h₁⟩ := bind_eq_ok.mp h
  obtain ⟨p, hp, -⟩ := bind_eq_ok.mp h₁
  obtain rfl : ret = some p := expect_ok.mp hp
  unfold Allocator.alloc at halloc
  obtain ⟨⟨size, align⟩, hsize, h₂⟩ := bind_eq_ok.mp halloc
  have hlayout := Allocator.sizeAlign_ok hsize
  obtain ⟨rfl, rfl⟩ := Prod.mk.inj hlayout
  obtain ⟨⟨found, chain⟩, hfind, h₃⟩ := bind_eq_ok.mp h₂
  cases found with
  | none => cases h₃
  | some r =>
      obtain ⟨n, a⟩ := r
      obtain ⟨front, back, hchain, -, hfound⟩ :=
        FreeList.findRegion_hit hfind
      have hn : n ∈ s.allocator.chain := by rw [hchain]; simp
      have hlow := FreeList.le_of_found (Allocator.blockAlign_pow2 l) hfound
      have hhigh := found_inside hfound
      obtain ⟨hstart, -, hstop⟩ := (hinv.regions n hn).bounds
      have hround : l.size ≤ roundUp l.size (Allocator.blockAlign l) :=
        le_roundUp (Nat.pos_of_isPowerOfTwo (Allocator.blockAlign_pow2 l))
      unfold Allocator.blockSize at hhigh
      unfold heapStart heapSize at hstart
      unfold heapSize
      omega

/-- A machine with more than 64 GiB of Usable memory never gets to the
idle loop, whatever else is asked of the heap: the buffer for the bits of
its frames is larger than the heap. -/
theorem boots_below (h : Relies O mm table)
    (hbits : (numbering mm).length
      ≤ 8 * (requests.buffer (numbering mm).length).size)
    (hearlier : ∀ heap,
      requests.earlier ⟨[⟨heapStart, heapSize⟩]⟩ = .ok heap →
      ∃ calls s, heapSys.Run calls s ∧ s.allocator = heap)
    (debug : Bool) (parts : Parts) (bootInfo : BootInfo) (mapper : MapperId)
    (rflags : Word) (phys : PhysMemory PT)
    (hboot : ∃ r, kernelMain O debug parts requests bootInfo mm mapper rflags
      phys table = .ok r) :
    4096 * (numbering mm).length ≤ 64 * 2 ^ 30 := by
  obtain ⟨-, table₀, heap, frames₀, hset, -⟩ := (kernelMain_ok phys).mp hboot
  obtain ⟨-, ⟨heap₁, heap₂, hheap, hbuffer, -⟩, -⟩ :=
    (setUpMemory_ok h.map h.boot).mp hset
  obtain ⟨calls, s, hrun, rfl⟩ := hearlier heap₁ hheap
  have hfits := request_fits (Allocator.heapInv_run hrun) hbuffer
  unfold heapSize at hfits
  omega

theorem boots_below_roomy : 4096 * (numbering roomyMap).length
    ≤ 64 * 2 ^ 30 := by
  obtain ⟨table₀, heap, frames₀, hset⟩ := plain_setUp
  refine boots_below plain_relies ?_ ?_ true plainParts plainInfo 0 0 zeroes
    ((kernelMain_ok zeroes).mpr ⟨plainParts_return, table₀, heap, frames₀,
      hset, fun img himg => by cases himg⟩)
  · rw [roomyMap_frames]
    decide
  · intro heap hheap
    obtain rfl := Except.ok.inj hheap
    exact ⟨[], ⟨_, []⟩, .start ⟨Allocator.init_eq, rfl⟩, rfl⟩

-- ======================================================== only one program

section Once

variable {M : PageMapper PT} {k₀ k k' : State PT}

/-- A step maps pages to fresh frames, if it changes the page table or the
frame allocator at all. -/
theorem step_fresh {e : Event} (hstep : (sparingSys M debug k₀).step k e k') :
    ∃ qs, FreshPages M qs k.space k'.space := by
  obtain ⟨hstep, hsparing⟩ := hstep
  cases e with
  | tick rsp ret =>
      obtain ⟨t, -, rfl⟩ := hstep
      exact ⟨[], .nil⟩
  | addProcess stack =>
      obtain ⟨t, -, rfl⟩ := hstep
      exact ⟨[], .nil⟩
  | markCurrentAsDead =>
      obtain ⟨t, -, rfl⟩ := hstep
      exact ⟨[], .nil⟩
  | lock =>
      obtain ⟨-, -, rfl⟩ := hstep
      exact ⟨[], .nil⟩
  | map page =>
      obtain ⟨-, -, hmap⟩ := hstep
      obtain ⟨qs, s, -, hfresh, rfl⟩ := mapPages_ok.mp hmap
      exact ⟨qs, hfresh⟩
  | push mapper =>
      obtain ⟨-, -, t, -, rfl⟩ := hstep
      exact ⟨[], .nil⟩
  | stores phys =>
      obtain ⟨⟨own, rfl⟩, -⟩ := hstep
      exact ⟨[], .nil⟩
  | read a b =>
      obtain ⟨phys, rfl⟩ := read_memory hsparing hstep
      exact ⟨[], .nil⟩
  | anon i size ptr start =>
      obtain ⟨-, hcall, -⟩ := hstep
      obtain ⟨-, _, _, _, ps, s, _, hgrants, rfl⟩ :=
        (anon_ok hsparing).mp hcall
      exact ⟨ps, hgrants.fresh⟩

/-- The lowest page of the stack is one of those a load maps. -/
theorem stackPages_mem : userPage 0x1fb ∈ stackPages :=
  mem_pageRun.mpr ⟨0x1fb, Nat.le_refl _, by decide, rfl⟩

/-- A load that returns `Ok` finds the pages of the stack unmapped and
leaves them mapped. -/
theorem load_stack (hlaws : M.Laws BitmapAllocator.allocateFrame)
    (hnum : (numbering k.frames.memoryMap).Nodup)
    (h : addUserProcess M debug img mapper rflags k = .ok (.ok (), k')) :
    M.translate k.table (userPage 0x1fb) = none
      ∧ (numbering k'.frames.memoryMap).Nodup
      ∧ ∃ m, M.translate k'.table (userPage 0x1fb) = some m := by
  obtain ⟨ps, entry, mid, last, hloads⟩ := loads_of_ok hlaws hnum h
  have hgives := (hloads.segments.append hloads.stack).gives
  have hmem : userPage 0x1fb ∈ ps ++ stackPages :=
    List.mem_append_right _ stackPages_mem
  have hmap : last.frames.memoryMap = k.frames.memoryMap := hgives.map
  obtain ⟨f, hf, -⟩ := hgives.mapped _ hmem
  rw [hloads.pushed]
  exact ⟨hgives.unmapped _ hmem, hmap ▸ hnum, _, hf⟩

/-- Only one program is ever loaded. After a load that returned `Ok`,
whatever happens then, unless a pointer leads to the kernel's data, no load
of any program does. -/
theorem load_once (hlaws : M.Laws BitmapAllocator.allocateFrame)
    (hnum : (numbering k.frames.memoryMap).Nodup)
    (h : addUserProcess M debug img mapper rflags k = .ok (.ok (), k'))
    {es : List Event} {k'' : State PT}
    (hrun : ((sparingSys M debug k').startedAt k').Run es k'')
    (img₂ : Image) (mapper₂ : MapperId) (rflags₂ : Word) (l : State PT) :
    addUserProcess M debug img₂ mapper₂ rflags₂ k'' ≠ .ok (.ok (), l) := by
  have hlater : (numbering k''.frames.memoryMap).Nodup
      ∧ ∃ m, M.translate k''.table (userPage 0x1fb) = some m := by
    refine hrun.invariant (I := fun k => (numbering k.frames.memoryMap).Nodup
      ∧ ∃ m, M.translate k.table (userPage 0x1fb) = some m) ?_ ?_
    · intro j hj
      obtain rfl : j = k' := hj
      exact (load_stack hlaws hnum h).2
    · intro j e j' hj hstep
      obtain ⟨hnum, m, hm⟩ := hj
      have hkernel : (sparingSys M debug k').step j e j' := hstep
      obtain ⟨qs, hfresh⟩ := step_fresh hkernel
      have hgives := hfresh.gives hlaws hnum
      have hmap : j'.frames.memoryMap = j.frames.memoryMap := hgives.map
      exact ⟨hmap ▸ hnum, m, hgives.keeps hm⟩
  intro hagain
  obtain ⟨hnum', m, hm⟩ := hlater
  have hnone := (load_stack hlaws hnum' hagain).1
  rw [hm] at hnone
  cases hnone

end Once

theorem load_once_small : ∃ k',
    addUserProcess smallMapper true smallImage 0 0 loaderBoot
        = .ok (.ok (), k')
      ∧ ∀ l, addUserProcess smallMapper true smallImage 0 0 k'
        ≠ .ok (.ok (), l) := by
  obtain ⟨k', h⟩ := smallImage_loads
  refine ⟨k', h, fun l => ?_⟩
  exact load_once smallMapper_laws
    (numbering_nodup sixteenFrames_wellFormed.disjoint
      sixteenFrames_wellFormed.paged) h (.start rfl) smallImage 0 0 l

end Bayos.Boot
