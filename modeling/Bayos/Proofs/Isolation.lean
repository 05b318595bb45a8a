/-
The kernel's memory and that of its processes, over whole runs from boot.

# Who may map what

After the handover the bitmap allocator hands out what lies behind the
boot allocator's counter, and every page that is mapped from then on is
given a frame of that (`gives_run`). So the pages that were mapped at
boot, the heap's among them, stay as they were, and no page of a process
shares a frame with them, as long as none did at boot.

# Blocks of the heap

A live block is memory that nothing else is: the heap's pages are mapped,
writable, with a frame each, and `heap_safety` keeps the blocks apart by
their addresses (`block_store`).
-/
import Bayos.Model.Entry
import Bayos.Proofs.HeapPages
import Bayos.Proofs.HeapSafety
import Bayos.Proofs.Image
import Bayos.Proofs.Users

namespace Bayos.Boot

open Rust
open Lib (Span TransSys Word region)
open Lib.Paging
open Lib.Bitmap (filled)
open Bayos.Memory
open Bayos.Allocator (Block Heap HeapInv heapSys heapStart heapSize
  blockSize LinkedListAllocator)
open Bayos.Entry (UserAddr)
open Bayos.Kernel

variable {PT : Type} {O : OffsetPageTable PT} {mm : MemoryRegions}
  {requests : Requests} {table table₀ : PT} {heap : LinkedListAllocator}
  {frames₀ : BitmapAllocator}

-- ============================================================ the handover

/-- What is free when of the numbering the first `n` frames are taken. -/
theorem free_filled {n : Nat} {f : PhysFrame} :
    Free ⟨mm, filled n (numbering mm).length⟩ f
      ↔ f ∈ (numbering mm).drop n := by
  have hbit : ∀ i : Nat, (filled n (numbering mm).length)[i]? = some false
      ↔ n ≤ i ∧ i < (numbering mm).length := by
    intro i
    unfold filled
    rw [List.getElem?_append, List.length_replicate]
    by_cases hi : i < n
    · simp [hi]
    · rw [if_neg hi, List.getElem?_replicate]
      simp
      omega
  unfold Free
  rw [List.mem_iff_getElem?]
  simp only [hbit, List.getElem?_drop]
  constructor
  · intro h
    obtain ⟨i, ⟨hle, -⟩, hf⟩ := h
    exact ⟨i - n, by rw [show n + (i - n) = i by omega, hf]⟩
  · intro h
    obtain ⟨i, hf⟩ := h
    exact ⟨n + i, ⟨by omega, (List.getElem?_eq_some_iff.mp hf).1⟩, hf⟩

theorem freeCount_filled {n len : Nat} (fr : MemoryRegions) :
    freeCount ⟨fr, filled n len⟩ = len - n := by
  unfold freeCount filled
  simp [List.count_replicate]

/-- The heap serves what is asked of it until memory is set up for `n`
frames, and `heap` is what is left. -/
def Serves (requests : Requests) (n : Nat) (heap : LinkedListAllocator) :
    Prop :=
  ∃ heap₁ heap₂, requests.earlier ⟨[⟨heapStart, heapSize⟩]⟩ = .ok heap₁
    ∧ request heap₁ (requests.buffer n) = .ok heap₂
    ∧ request heap₂ requests.arc = .ok heap

/-- Memory is set up exactly when the heap's pages are mapped and the heap
serves what is asked of it; and then the frames that the heap did not take
are free. -/
theorem setUpMemory_ok (hmm : WellFormed mm)
    (hlaws : O.boot.Laws BootInfoFrameAllocator.allocateFrame) :
    setUpMemory O requests mm table = .ok (table₀, heap, frames₀)
      ↔ (∃ frames heap₀,
          initHeap O.boot BootInfoFrameAllocator.allocateFrame table
            (.init mm) .new = .ok (.ok (), table₀, frames, heap₀))
        ∧ Serves requests (numbering mm).length heap
        ∧ frames₀
          = ⟨mm, filled (heapFrames O.boot table) (numbering mm).length⟩ := by
  have hhandover : ∀ {frames table₀ heap₀},
      initHeap O.boot BootInfoFrameAllocator.allocateFrame table (.init mm)
        .new = .ok (.ok (), table₀, frames, heap₀) →
      heap₀ = ⟨[⟨heapStart, heapSize⟩]⟩
        ∧ frames.frames = .ok (numbering mm).length
        ∧ BitmapAllocator.init frames
          = .ok ⟨mm, filled (heapFrames O.boot table)
              (numbering mm).length⟩ := by
    intro frames table₀ heap₀ h
    have hready := heapReady hlaws hmm h
    rw [hready.frames]
    exact ⟨hready.heap, frames_eq hmm.fit _,
      init_filled hmm.fit (heapFrames_le hlaws hmm h)⟩
  unfold setUpMemory
  constructor
  · intro h
    obtain ⟨⟨r, t, frames, a⟩, hinit, h₁⟩ := bind_eq_ok.mp h
    cases r with
    | error e => cases h₁
    | ok u =>
        obtain ⟨_, -, h₂⟩ := bind_eq_ok.mp h₁
        obtain ⟨heap₁, hearlier, h₃⟩ := bind_eq_ok.mp h₂
        obtain ⟨⟨fr, heap₃⟩, hbitmap, hret⟩ := bind_eq_ok.mp h₃
        cases hret
        obtain ⟨rfl, hframes, hfilled⟩ := hhandover hinit
        obtain ⟨n, hn, h₄⟩ := bind_eq_ok.mp hbitmap
        obtain rfl := Except.ok.inj (hframes.symm.trans hn)
        obtain ⟨heap₂, hbuffer, h₅⟩ := bind_eq_ok.mp h₄
        obtain ⟨fr', hfr, h₆⟩ := bind_eq_ok.mp h₅
        obtain ⟨heap₃, harc, hret⟩ := bind_eq_ok.mp h₆
        cases hret
        exact ⟨⟨frames, _, hinit⟩, ⟨heap₁, heap₂, hearlier, hbuffer, harc⟩,
          Except.ok.inj (hfr.symm.trans hfilled)⟩
  · intro h
    obtain ⟨⟨frames, heap₀, hinit⟩, ⟨heap₁, heap₂, hearlier, hbuffer, harc⟩,
      rfl⟩ := h
    obtain ⟨rfl, hframes, hfilled⟩ := hhandover hinit
    refine bind_eq_ok.mpr ⟨(.ok (), table₀, frames, _), hinit, ?_⟩
    refine bind_eq_ok.mpr ⟨(), rfl, ?_⟩
    refine bind_eq_ok.mpr ⟨heap₁, hearlier, ?_⟩
    refine bind_eq_ok.mpr ⟨(_, heap), ?_, rfl⟩
    refine bind_eq_ok.mpr ⟨_, hframes, ?_⟩
    refine bind_eq_ok.mpr ⟨heap₂, hbuffer, ?_⟩
    exact bind_eq_ok.mpr ⟨_, hfilled, bind_eq_ok.mpr ⟨heap, harc, rfl⟩⟩

-- =============================================================== isolation

/-- What is relied on: mappers that do what they are documented to do, a
map in good order, and no page for user processes among the pages of the
bootloader. -/
structure Relies (O : OffsetPageTable PT) (mm : MemoryRegions)
    (table : PT) : Prop where
  boot : O.boot.Laws BootInfoFrameAllocator.allocateFrame
  later : O.later.Laws BitmapAllocator.allocateFrame
  map : WellFormed mm
  kernel : ∀ p m, O.later.translate table p = some m →
    m.flags.contains userAccessible = false

/-- The frames nobody had when the kernel was set up: Usable memory that
neither the heap nor its tables took. -/
def laterFrames (O : OffsetPageTable PT) (mm : MemoryRegions)
    (table : PT) : List PhysFrame :=
  (numbering mm).drop (heapFrames O.boot table)

/-- A page of a user process. -/
def IsUser (M : PageMapper PT) (pt : PT) (p : Page) (f : PhysFrame) :
    Prop :=
  ∃ m, M.translate pt p = some m ∧ m.frame = f
    ∧ m.flags.contains userAccessible = true

/-- What holds of the page tables ever after. -/
structure Isolated (O : OffsetPageTable PT) (mm : MemoryRegions)
    (table table₀ pt : PT) : Prop where
  kept : ∀ p m, O.later.translate table p = some m →
    O.later.translate pt p = some m
  heap : ∀ p, InHeap p →
    ∃ f ∈ (numbering mm).take (heapFrames O.boot table),
      O.later.translate table₀ p = some ⟨f, heapFlags⟩
        ∧ O.later.translate pt p = some ⟨f, heapFlags⟩
  own : ∀ p q f, InHeap p → InHeap q →
    O.later.translate pt p = some ⟨f, heapFlags⟩ →
    O.later.translate pt q = some ⟨f, heapFlags⟩ → p = q
  user : ∀ p f, IsUser O.later pt p f → f ∈ laterFrames O mm table
  single : ∀ p q f, IsUser O.later pt p f → IsUser O.later pt q f → p = q
  origin : ∀ p m, O.later.translate pt p = some m →
    O.later.translate table p = some m ∨ InHeap p
      ∨ IsUser O.later pt p m.frame

theorem heapFlags_kernel : ¬ heapFlags.contains userAccessible = true := by
  decide

theorem heapFlags_writable :
    heapFlags.contains (present ||| writable) = true := by decide

/-- The kernel when memory has been set up is at boot. -/
theorem booted_boot (h : Relies O mm table)
    (hset : setUpMemory O requests mm table = .ok (table₀, heap, frames₀))
    (phys : PhysMemory PT) : Kernel.Boot (booted table₀ frames₀ phys) := by
  obtain ⟨⟨frames, heap₀, hinit⟩, -, rfl⟩ :=
    (setUpMemory_ok h.map h.boot).mp hset
  refine ⟨rfl, rfl, rfl, ⟨mm, heapFrames O.boot table⟩, ?_⟩
  exact init_filled h.map.fit (heapFrames_le h.boot h.map hinit)

theorem isolated_run (h : Relies O mm table)
    (hset : setUpMemory O requests mm table = .ok (table₀, heap, frames₀))
    (phys : PhysMemory PT) {debug : Bool} {es : List Event} {k : State PT}
    (hrun : (sparingSys O.later debug (booted table₀ frames₀ phys)).Run es
      k) :
    Isolated O mm table table₀ k.table := by
  obtain ⟨⟨frames, heap₀, hinit⟩, -, rfl⟩ :=
    (setUpMemory_ok h.map h.boot).mp hset
  have hready := heapReady h.boot h.map hinit
  have hle := heapFrames_le h.boot h.map hinit
  have hnum := numbering_nodup h.map.disjoint h.map.paged
  obtain ⟨ps, hgives, -⟩ := gives_run h.later hnum hrun
  -- what is not mapped since boot is mapped as it was set up
  have hsetup : ∀ p, p ∉ ps →
      O.later.translate k.table p = O.boot.translate table₀ p := by
    intro p hp
    rw [← O.same_translate]
    exact hgives.others p hp
  have hheap : ∀ p, InHeap p → p ∉ ps := by
    intro p hp hmem
    obtain ⟨f, -, hf⟩ := hready.mapped p hp
    have hnone := hgives.unmapped p hmem
    rw [O.same_translate] at hnone
    rw [show O.boot.translate table₀ p = none from hnone] at hf
    cases hf
  have huser : ∀ p f, IsUser O.later k.table p f → p ∈ ps := by
    intro p f hp
    obtain ⟨m, hm, -, haccess⟩ := hp
    by_contra hmem
    rw [hsetup p hmem] at hm
    by_cases hin : InHeap p
    · obtain ⟨g, -, hg⟩ := hready.mapped p hin
      rw [hg] at hm
      rw [← Option.some.inj hm] at haccess
      exact absurd haccess heapFlags_kernel
    · rw [hready.others p hin, ← O.same_translate] at hm
      rw [h.kernel p m hm] at haccess
      cases haccess
  refine ⟨?_, ?_, ?_, ?_, ?_, ?_⟩
  · intro p m hm
    rw [O.same_translate] at hm
    have hin : ¬ InHeap p := by
      intro hin
      rw [hready.unmapped p hin] at hm
      cases hm
    -- it was mapped when memory was set up, so it was not given since
    have hset : O.later.translate table₀ p = some m := by
      rw [O.same_translate, hready.others p hin, hm]
    exact hgives.keeps hset
  · intro p hp
    obtain ⟨f, hf, hpf⟩ := hready.mapped p hp
    refine ⟨f, hf, ?_, ?_⟩
    · rw [O.same_translate, hpf]
    · rw [hsetup p (hheap p hp), hpf]
  · intro p q f hp hq
    rw [hsetup p (hheap p hp), hsetup q (hheap q hq)]
    exact hready.own p q f hp hq
  · intro p f hp
    obtain ⟨g, hg, hgfree, -⟩ := hgives.mapped p (huser p f hp)
    obtain ⟨m, hm, rfl, -⟩ := hp
    obtain rfl := Option.some.inj (hm.symm.trans hg)
    exact free_filled.mp hgfree
  · intro p q f hp hq
    have hpmem := huser p f hp
    have hqmem := huser q f hq
    obtain ⟨⟨f, fl⟩, hm, rfl, -⟩ := hp
    obtain ⟨⟨g, fl'⟩, hn, hfg, -⟩ := hq
    obtain rfl : g = f := hfg
    exact hgives.distinct p hpmem q hqmem g fl fl' hm hn
  · intro p m hm
    by_cases hmem : p ∈ ps
    · obtain ⟨f, hf, -⟩ := hgives.mapped p hmem
      obtain rfl := Option.some.inj (hm.symm.trans hf)
      exact .inr (.inr ⟨_, hm, rfl, userFlags_user⟩)
    · rw [hsetup p hmem] at hm
      by_cases hin : InHeap p
      · exact .inr (.inl hin)
      · rw [hready.others p hin, ← O.same_translate] at hm
        exact .inl hm

/-- A frame of the heap is no frame of a process. -/
theorem Isolated.apart {pt : PT} (h : Isolated O mm table table₀ pt)
    (hmm : WellFormed mm) {p q : Page} {f : PhysFrame} (hp : InHeap p)
    (hpf : O.later.translate pt p = some ⟨f, heapFlags⟩) :
    ¬ IsUser O.later pt q f := by
  intro hq
  obtain ⟨g, hg, -, hgp⟩ := h.heap p hp
  obtain rfl : g = f := by
    have := hgp.symm.trans hpf
    cases this
    rfl
  have hnodup := numbering_nodup hmm.disjoint hmm.paged
  rw [← List.take_append_drop (heapFrames O.boot table) (numbering mm)]
    at hnodup
  exact (List.nodup_append.mp hnodup).2.2 g hg g (h.user q g hq) rfl

/-- After boot, whatever happens: what the bootloader mapped stays mapped
as it was, and so do the heap's pages; the frame of a process's page is
Usable memory, and no other page is mapped to it but those of the
bootloader, which are not for processes. -/
theorem user_memory_isolated (h : Relies O mm table)
    (hset : setUpMemory O requests mm table = .ok (table₀, heap, frames₀))
    (phys : PhysMemory PT) (debug : Bool) {es : List Event} {k : State PT}
    (hrun : (sparingSys O.later debug (booted table₀ frames₀ phys)).Run es
      k) :
    (∀ p m, O.later.translate table p = some m →
      O.later.translate k.table p = some m)
    ∧ (∀ p, InHeap p →
      O.later.translate k.table p = O.later.translate table₀ p)
    ∧ ∀ p f, IsUser O.later k.table p f →
      (∃ r ∈ usable mm, r.start ≤ f.startAddress
        ∧ f.startAddress + 4096 ≤ r.stop)
      ∧ ∀ q m, O.later.translate k.table q = some m → m.frame = f →
          q = p ∨ O.later.translate table q = some m
            ∧ m.flags.contains userAccessible = false := by
  have hisolated := isolated_run h hset phys hrun
  refine ⟨hisolated.kept, ?_, fun p f hp => ⟨?_, ?_⟩⟩
  · intro p hp
    obtain ⟨f, -, hthen, hnow⟩ := hisolated.heap p hp
    rw [hthen, hnow]
  · obtain ⟨a, ha, rfl⟩ := List.mem_map.mp
      (List.mem_of_mem_drop (hisolated.user p f hp))
    obtain ⟨hmod, r, hr, hstop, hlow, hhigh⟩ := h.map.paged.step ha
    have hframe : (frameAt a).startAddress = a - a % 4096 := rfl
    exact ⟨r, hr, by omega, by omega⟩
  · intro q m hm hmf
    rcases hisolated.origin q m hm with hold | hheap | huser
    · exact .inr ⟨hold, h.kernel q m hold⟩
    · obtain ⟨g, -, -, hg⟩ := hisolated.heap q hheap
      obtain rfl := Option.some.inj (hm.symm.trans hg)
      subst hmf
      exact absurd hp (hisolated.apart h.map hheap hm)
    · subst hmf
      exact .inl (hisolated.single q p _ huser hp)

-- ======================================================= the small machine

/-- Bytes without alignment. -/
def bytesLayout (size : Nat) (h : size + 1 ≤ isizeMax + 1) : Layout where
  size := size
  align := 1
  pow2 := Nat.isPowerOfTwo_one
  fits := h

/-- A buffer of the bytes of so many bits. -/
def plainBuffer (n : Nat) : Layout :=
  if h : (n + 7) / 8 ≤ isizeMax then
    bytesLayout ((n + 7) / 8) (Nat.succ_le_succ h)
  else bytesLayout 0 (Nat.succ_le_succ (Nat.zero_le _))

/-- Nothing asked of the heap but what `kernel_main` asks itself. -/
def plainRequests : Requests where
  earlier := .ok
  buffer := plainBuffer
  arc := ⟨64, 8, Allocator.nodeAlign_pow2, Nat.le_of_ble_eq_true rfl⟩

theorem plain_relies : Relies plainTable roomyMap noTables where
  boot := plainMapper_laws _
  later := plainMapper_laws _
  map := roomyMap_wellFormed
  kernel := nofun

/-- Its heap serves the bits of 1024 frames, and the `Arc`. -/
theorem plain_serves : Serves plainRequests (numbering roomyMap).length
    ⟨[⟨heapStart + 192, heapSize - 192⟩]⟩ := by
  rw [roomyMap_frames]
  exact ⟨⟨[⟨heapStart, heapSize⟩]⟩, ⟨[⟨heapStart + 128, heapSize - 128⟩]⟩,
    rfl, by decide, by decide⟩

theorem plain_setUp : ∃ table₀ heap frames₀,
    setUpMemory plainTable plainRequests roomyMap noTables
      = .ok (table₀, heap, frames₀) := by
  obtain ⟨table', frames, heap, hinit⟩ := (initHeap_exists_iff
    plain_relies.boot plain_relies.map noTables).mpr
    ⟨fun _ _ => rfl, noTables_heapFrames⟩
  exact ⟨_, _, _, (setUpMemory_ok plain_relies.map plain_relies.boot).mpr
    ⟨⟨_, _, hinit⟩, plain_serves, rfl⟩⟩

/-- The machine of 1024 frames, set up, has frames for some pages and
their tables. -/
theorem plain_fresh {qs : List Page} (hnodup : qs.Nodup)
    (hout : ∀ p ∈ qs, ¬ InHeap p) (hfew : 4 * qs.length ≤ 500) :
    ∃ table₀ heap frames₀ s,
      setUpMemory plainTable plainRequests roomyMap noTables
        = .ok (table₀, heap, frames₀)
      ∧ FreshPages plainTable.later qs (table₀, frames₀) s := by
  obtain ⟨table₀, heap, frames₀, hset⟩ := plain_setUp
  obtain ⟨⟨frames, heap₀, hinit⟩, -, hframes⟩ :=
    (setUpMemory_ok roomyMap_wellFormed plain_relies.boot).mp hset
  have hready := heapReady plain_relies.boot roomyMap_wellFormed hinit
  have hle := heapFrames_le plain_relies.boot roomyMap_wellFormed hinit
  have hsized : Sized frames₀ := by
    rw [hframes]
    exact ⟨roomyMap_wellFormed.fit, Lib.Bitmap.length_filled hle⟩
  have hfree : freeCount frames₀ = 509 := by
    have htaken : heapFrames plainTable.boot noTables = 515 := by decide
    rw [hframes, freeCount_filled, roomyMap_frames, htaken]
  have hmissing := missingTables_le plainTable.later table₀ qs
  have hnone : ∀ p ∈ qs, plainTable.later.translate table₀ p = none :=
    fun p hp => hready.none_iff.mpr ⟨hout p hp, rfl⟩
  obtain ⟨s, hs⟩ := (freshPages_exists_iff (s := (table₀, frames₀))
    plain_relies.later hsized).mpr ⟨hnodup, hnone, by
      show qs.length + (missingTables plainTable.later table₀ qs).card
        ≤ freeCount frames₀
      omega⟩
  exact ⟨table₀, heap, frames₀, s, hset, hs⟩

/-- A process has its stack there, and there are frames for more pages. -/
theorem plain_machine (qs : List Page) (hnodup : (stackPages ++ qs).Nodup)
    (hout : ∀ p ∈ stackPages ++ qs, ¬ InHeap p) (hfew : qs.length ≤ 100) :
    ∃ table₀ heap frames₀ k s,
      setUpMemory plainTable plainRequests roomyMap noTables
        = .ok (table₀, heap, frames₀)
      ∧ (sparingSys plainTable.later true
          (booted table₀ frames₀ zeroes)).Run
        ([] ++ [.lock] ++ stackPages.map .map ++ [.push 0]) k
      ∧ k.sched = smallSched ∧ k.mapperHeld = false ∧ k.framesHeld = false
      ∧ k.own = (zeroes : PhysMemory (Tables PhysFrame)).own
      ∧ (∀ p ∈ stackPages,
        ∃ f, plainTable.later.translate k.table p = some ⟨f, userFlags⟩)
      ∧ FreshPages plainTable.later qs k.space s := by
  obtain ⟨table₀, heap, frames₀, s, hset, hall⟩ :=
    plain_fresh hnodup hout (by
      have hstack : stackPages.length = 5 := rfl
      rw [List.length_append, hstack]
      omega)
  obtain ⟨s₁, hfresh, hrest⟩ := freshPages_append.mp hall
  have hstart : (sparingSys plainTable.later true
      (booted table₀ frames₀ zeroes)).Run [] (booted table₀ frames₀
        zeroes) :=
    .start ⟨rfl, booted_boot plain_relies hset zeroes⟩
  have hlock : (sparingSys plainTable.later true
      (booted table₀ frames₀ zeroes)).step
      (booted table₀ frames₀ zeroes) .lock
      (booted table₀ frames₀ zeroes).guarded :=
    ⟨⟨rfl, rfl, rfl⟩, trivial⟩
  have hmap := map_run rfl rfl (hstart.step hlock) hfresh
  have hpush : (sparingSys plainTable.later true
      (booted table₀ frames₀ zeroes)).step
      ((booted table₀ frames₀ zeroes).guarded.inSpace s₁) (.push 0)
      { (booted table₀ frames₀ zeroes).inSpace s₁ with
        sched := smallSched } :=
    ⟨⟨rfl, rfl, smallSched, rfl, rfl⟩, trivial⟩
  exact ⟨table₀, heap, frames₀, _, s, hset, hmap.step hpush, rfl, rfl, rfl,
    rfl, (hfresh.translate plain_relies.later).1, hrest⟩

/-- A page of the process's stack has its frame of Usable memory alone. -/
theorem user_memory_isolated_stack :
    ∃ (k : State (Tables PhysFrame)) (f : PhysFrame),
      IsUser plainTable.later k.table stackPage f
      ∧ (∃ r ∈ usable roomyMap, r.start ≤ f.startAddress
        ∧ f.startAddress + 4096 ≤ r.stop)
      ∧ ∀ q m, plainTable.later.translate k.table q = some m → m.frame = f →
        q = stackPage := by
  obtain ⟨table₀, heap, frames₀, k, s, hset, hrun, -, -, -, -, hstack, -⟩ :=
    plain_machine [] (by decide) (by decide) (by decide)
  obtain ⟨-, -, hpages⟩ :=
    user_memory_isolated plain_relies hset zeroes true hrun
  obtain ⟨f, hf⟩ := hstack stackPage (by decide)
  have huser : IsUser plainTable.later k.table stackPage f :=
    ⟨_, hf, rfl, userFlags_user⟩
  obtain ⟨husable, halone⟩ := hpages _ _ huser
  refine ⟨k, f, huser, husable, fun q m hm hmf => ?_⟩
  rcases halone q m hm hmf with hq | ⟨hold, -⟩
  · exact hq
  · cases hold

-- ========================================================= a block's bytes

/-- An address of the heap. -/
def heapAddr (x : Word) : Prop :=
  heapStart ≤ x.toNat ∧ x.toNat < heapStart + heapSize

/-- Its page is a page of the heap. -/
theorem heapAddr_page {x : Word} (hx : heapAddr x) :
    ∃ v, VirtAddr.tryNew x.toNat = some v
      ∧ InHeap (.containingAddress v) := by
  unfold heapAddr heapStart heapSize at hx
  have hcanonical : IsCanonical x.toNat := by
    unfold IsCanonical
    omega
  refine ⟨⟨x.toNat, hcanonical⟩, VirtAddr.tryNew_eq_some.mpr rfl, ?_⟩
  unfold InHeap heapStart heapSize Page.containingAddress
  simp only
  omega

/-- The kernel may write there. -/
theorem Isolated.canStore {pt : PT} (h : Isolated O mm table table₀ pt)
    {x : Word} (hx : heapAddr x) : CanStore O.later pt x := by
  obtain ⟨v, hv, hpage⟩ := heapAddr_page hx
  obtain ⟨f, -, -, hf⟩ := h.heap _ hpage
  exact ⟨_, (mappingAt_eq hv).trans hf, by simp only [heapFlags_writable]⟩

/-- No two addresses of the heap share a byte. -/
theorem Isolated.alone {pt : PT} (h : Isolated O mm table table₀ pt)
    {ps : List Page} (hps : ∀ p, p ∈ ps ↔ InHeap p) :
    Alone O.later pt (addrs ps) := by
  refine alone_addrs fun p hp q hq f fl fl' hpf hqf => ?_
  obtain ⟨g, -, -, hg⟩ := h.heap p ((hps p).mp hp)
  obtain ⟨g', -, -, hg'⟩ := h.heap q ((hps q).mp hq)
  cases hg.symm.trans hpf
  cases hg'.symm.trans hqf
  exact h.own p q f ((hps p).mp hp) ((hps q).mp hq) hpf hqf

/-- A store to the heap succeeds, where it meets nothing of the kernel's;
it is read back, and changes no other byte of the heap and none of a
process. -/
theorem Isolated.store {k : State PT} (hmm : WellFormed mm)
    (h : Isolated O mm table table₀ k.table) {a : Word} {bs : List Byte}
    (hlow : heapStart ≤ a.toNat)
    (hhigh : a.toNat + bs.length ≤ heapStart + heapSize)
    (hspared : k.SparesAll O.later (region a bs.length)) :
    ∃ k', storeBytes O.later a bs k = .ok ((), k')
      ∧ (∀ x, heapAddr x → view O.later k' x
        = (bs[(x - a).toNat]?).getD (view O.later k x))
      ∧ ∀ x, UserAddr O.later k.table x →
        view O.later k' x = view O.later k x := by
  obtain ⟨-, ps, -, -, -, -, hps, -⟩ := heap_pages
  have haddr : ∀ i < bs.length, heapAddr (a + BitVec.ofNat 64 i) := by
    intro i hi
    unfold heapStart heapSize at hhigh
    have hsum : (a + BitVec.ofNat 64 i).toNat = a.toNat + i := by
      rw [BitVec.toNat_add, BitVec.toNat_ofNat]
      omega
    unfold heapAddr
    rw [hsum]
    unfold heapStart heapSize at hlow ⊢
    omega
  have hmem : ∀ x, heapAddr x → x ∈ addrs (heapPage :: ps) := by
    intro x hx
    obtain ⟨v, hv, hpage⟩ := heapAddr_page hx
    exact ⟨v, hv, (hps _).mpr hpage⟩
  have hcan : ∀ i < bs.length,
      CanStore O.later k.table (a + BitVec.ofNat 64 i) :=
    fun i hi => h.canStore (haddr i hi)
  have hlen : bs.length ≤ 2 ^ 64 := by
    unfold heapStart heapSize at hhigh
    omega
  have hfill := fillBytes_ok.mpr ⟨hcan, rfl⟩
  refine ⟨_, (storeBytes_ok hlen hspared).mpr ⟨hcan, rfl⟩, ?_, ?_⟩
  · intro x hx
    exact seen_place (h.alone hps) (hmem x hx) hlen
      fun i hi => ⟨hmem _ (haddr i hi), hcan i hi⟩
  · intro x hx
    obtain ⟨m, hm, huser⟩ := hx
    have hwrites := fillBytes_writes hfill fun i hi =>
      hmem _ (haddr i hi)
    rw [view_eq, view_eq]
    unfold seen
    simp only [hm]
    refine hwrites.phys _ fun p hp n hn hframe => ?_
    -- the heap's page and the process's would have one frame
    have hsame : n.frame = m.frame :=
      eq_of_inFrame hframe (physAddr_inFrame m x)
    obtain ⟨f, -, -, hf⟩ := h.heap p ((hps p).mp hp)
    obtain rfl := Option.some.inj (hn.symm.trans hf)
    obtain ⟨v, -, hv⟩ := mappingAt_some hm
    exact h.apart hmm ((hps p).mp hp) hf ⟨m, hv, hsame.symm, huser⟩

/-- What a block's owner stores in it: at any state of the kernel and of
its heap, a store inside a live block, where it meets none of the kernel's
data, does not fault, is read back, and changes no byte of another live
block, of a free region with its node in it, or of a process. -/
theorem block_store (h : Relies O mm table)
    (hset : setUpMemory O requests mm table = .ok (table₀, heap, frames₀))
    (phys : PhysMemory PT) (debug : Bool) {es : List Event} {k : State PT}
    (hrun : (sparingSys O.later debug (booted table₀ frames₀ phys)).Run es
      k)
    {calls : List Allocator.Call} {s : Heap}
    (hcalls : heapSys.Run calls s) {b : Block} (hb : b ∈ s.live)
    {a : Word} {bs : List Byte}
    (hin : (Span.mk a.toNat bs.length).Within b.span)
    (hspared : k.SparesAll O.later (region a bs.length)) :
    ∃ k', storeBytes O.later a bs k = .ok ((), k')
      ∧ (∀ i (hi : i < bs.length),
        view O.later k' (a + BitVec.ofNat 64 i) = bs[i])
      ∧ (∀ c ∈ s.live, c ≠ b → ∀ x : Word, c.span.Contains x.toNat →
        view O.later k' x = view O.later k x)
      ∧ (∀ n ∈ s.allocator.chain, ∀ x : Word, n.span.Contains x.toNat →
        view O.later k' x = view O.later k x)
      ∧ ∀ x, UserAddr O.later k.table x →
        view O.later k' x = view O.later k x := by
  have hinv := Allocator.heapInv_run hcalls
  have hisolated := isolated_run h hset phys hrun
  obtain ⟨hblocks, hregions, hcross⟩ :=
    List.pairwise_append.mp hinv.disjoint
  have hinside := (hinv.blocks b hb).inside
  have hlow : heapStart ≤ a.toNat := Nat.le_trans hinside.1 hin.1
  have hhigh : a.toNat + bs.length ≤ heapStart + heapSize :=
    Nat.le_trans hin.2 hinside.2
  obtain ⟨k', hstore, hheap, huser⟩ := hisolated.store h.map hlow hhigh
    hspared
  -- an address of the heap outside the block
  have hout : ∀ {t : Span} {x : Word}, t.Within Allocator.heap →
      b.span.Disjoint t → t.Contains x.toNat →
      view O.later k' x = view O.later k x := by
    intro t x ht hdisjoint hx
    have hxheap : heapAddr x := ht.contains hx
    have hnot : ¬ b.span.Contains x.toNat := fun hxb =>
      hdisjoint x.toNat ⟨hxb, hx⟩
    rw [hheap x hxheap, List.getElem?_eq_none, Option.getD_none]
    by_contra hlt
    refine hnot (hin.contains ⟨?_, ?_⟩)
    · show a.toNat ≤ x.toNat
      unfold heapStart heapSize at hlow hhigh
      unfold heapAddr heapStart heapSize at hxheap
      bv_omega
    · show x.toNat < a.toNat + bs.length
      unfold heapStart heapSize at hlow hhigh
      unfold heapAddr heapStart heapSize at hxheap
      bv_omega
  refine ⟨k', hstore, ?_, ?_, ?_, huser⟩
  · intro i hi
    unfold heapStart heapSize at hlow hhigh
    have hxheap : heapAddr (a + BitVec.ofNat 64 i) := by
      unfold heapAddr heapStart heapSize
      bv_omega
    have hoff : (a + BitVec.ofNat 64 i - a).toNat = i := by bv_omega
    rw [hheap _ hxheap, hoff, List.getElem?_eq_getElem hi, Option.getD_some]
  · intro c hc hne x hx
    have hsymm : Std.Symm fun a b : Block => a.span.Disjoint b.span :=
      ⟨fun _ _ hd => hd.symm⟩
    refine hout (hinv.blocks c hc).inside ?_ hx
    exact (List.pairwise_map.mp hblocks).forall hb hc (Ne.symm hne)
  · intro n hn x hx
    refine hout (hinv.regions n hn).inside ?_ hx
    exact hcross _ (List.mem_map.mpr ⟨b, hb, rfl⟩) _
      (List.mem_map.mpr ⟨n, hn, rfl⟩)

/-- While a process has its stack, a byte is stored into the first block of
24 bytes. -/
theorem block_store_loaded : ∃ k k' : State (Tables PhysFrame),
    storeBytes plainTable.later (BitVec.ofNat 64 heapStart) [7] k
      = .ok ((), k')
    ∧ view plainTable.later k' (BitVec.ofNat 64 heapStart) = 7
    ∧ ∀ x, UserAddr plainTable.later k.table x →
      view plainTable.later k' x = view plainTable.later k x := by
  obtain ⟨table₀, heap, frames₀, k, s, hset, hrun, -, -, -, hown, -⟩ :=
    plain_machine [] (by decide) (by decide) (by decide)
  have hinit : heapSys.init ⟨⟨[⟨heapStart, heapSize⟩]⟩, []⟩ :=
    ⟨Allocator.init_eq, rfl⟩
  have hstep : heapSys.step ⟨⟨[⟨heapStart, heapSize⟩]⟩, []⟩
      (.alloc Allocator.smallLayout (some heapStart))
      ⟨⟨[⟨heapStart + 24, heapSize - 24⟩]⟩,
        [⟨heapStart, Allocator.smallLayout⟩]⟩ :=
    ⟨by decide, by decide, rfl⟩
  have hin : (Span.mk (BitVec.ofNat 64 heapStart).toNat
      [(7 : Byte)].length).Within
      (Block.span ⟨heapStart, Allocator.smallLayout⟩) := by decide
  have hspared : k.SparesAll plainTable.later
      (region (BitVec.ofNat 64 heapStart) [(7 : Byte)].length) := by
    intro x _ m _ b
    show k.own _ b _ = _
    rw [hown]
    rfl
  obtain ⟨k', hstore, hread, -, -, huser⟩ := block_store plain_relies hset
    zeroes true hrun ((TransSys.Run.start hinit).step hstep)
    (List.mem_singleton_self _) hin hspared
  exact ⟨k, k', hstore, hread 0 (by decide), huser⟩

end Bayos.Boot
