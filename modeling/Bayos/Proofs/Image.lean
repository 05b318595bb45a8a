/-
A process that `add_user_process` has loaded: its memory is the image's,
and it enters at the image's entry point.

# The stack

The stack is five pages of its own, mapped after all segments; an image
that has a segment there is not loaded. What is written to it is what
`Model/Timer.lean` calls `writeUserStack`, on memory as the pages were
found (`loadStack_seen`).
-/
import Bayos.Proofs.Loader
import Bayos.Proofs.Timer
import Bayos.Proofs.Users

namespace Bayos.Kernel

open Rust
open Lib (Word Mem region TransSys)
open Lib.Paging
open Lib.X86 (Reg Machine)
open Bayos.Memory
open Bayos.Sched (MapperId userStack)
open Bayos.Timer (SavedAt writeFrame writeUserStack userContext userFrame)

variable {PT : Type} {M : PageMapper PT} {debug : Bool}
  {k₀ k k' k₁ : State PT}

-- =============================================================== the stack

/-- The pages of a process's stack. -/
def stackPages : List Page := pageRun 0x1fb 5

theorem stack_mem {x : Word} (hx : x ∈ region userStack 0x4000) :
    x ∈ addrs stackPages := by
  have hstack : userStack = 0x1fc000 := rfl
  rw [Lib.mem_region, hstack] at hx
  have hlow : 0x1fc000 ≤ x.toNat ∧ x.toNat < 0x200000 := by
    constructor
    · bv_omega
    · bv_omega
  have hx' : BitVec.ofNat 64 x.toNat = x := by
    rw [BitVec.ofNat_toNat, BitVec.setWidth_eq]
  rw [← hx']
  refine (mem_addrs (by omega)).mpr (mem_pageRun.mpr ⟨_, ?_, ?_, rfl⟩)
  · omega
  · omega

/-- What a write leaves at an address depends on what was there. -/
theorem write_congr {w : Nat} {m m' : Mem} {a x : Word} {v : BitVec w}
    (h : m x = m' x) : m.write a v x = m'.write a v x := by
  unfold Mem.write
  split
  · rfl
  · exact h

/-- After stores to the pages their memory is `m`. -/
structure Stored (M : PageMapper PT) (ps : List Page) (k k' : State PT)
    (m : Mem) : Prop where
  writes : Writes M ps k k'
  seen : ∀ x ∈ addrs ps, view M k' x = m x

/-- One more store. -/
theorem Stored.value {ps : List Page} {m : Mem} {a : Word} {w : Nat}
    {v : BitVec w} (hs : Stored M ps k k₁ m)
    (halone : Alone M k.table (addrs ps))
    (h : fillValue M a v k₁ = .ok ((), k')) (hw : Lib.bytesOf w ≤ 2 ^ 64)
    (hmem : ∀ i < Lib.bytesOf w, a + BitVec.ofNat 64 i ∈ addrs ps) :
    Stored M ps k k' (m.write a v) := by
  have htable : k₁.table = k.table := by rw [hs.writes.rest]
  have hlen := length_bytesOfValue v
  refine ⟨hs.writes.trans (fillBytes_writes h (hlen ▸ hmem)), ?_⟩
  obtain ⟨hcan, rfl⟩ := fillBytes_ok.mp h
  rw [hlen] at hcan
  intro x hx
  rw [← write_congr (hs.seen x hx)]
  exact seen_placeValue (htable ▸ halone) hx hw
    fun i hi => ⟨hmem i hi, hcan i hi⟩

/-- The words on the stack that a new process's memory is made of. -/
theorem storeStack_stored {entry rflags : Word}
    (halone : Alone M k.table (addrs stackPages))
    (hframe : fillFrame M (userStack + 120 + 8) (userFrame entry rflags) k
      = .ok ((), k₁))
    (htcb : fillValue M userStack userStack k₁ = .ok ((), k')) :
    Stored M stackPages k k'
      (writeUserStack (view M k) entry rflags) := by
  have hmem : ∀ {a : Word} (j : Nat) {w : Nat},
      a = userStack + BitVec.ofNat 64 j → j + Lib.bytesOf w ≤ 0x4000 →
      ∀ i < Lib.bytesOf w, a + BitVec.ofNat 64 i ∈ addrs stackPages := by
    intro a j w h hj i hi
    subst h
    rw [BitVec.add_assoc, ← BitVec.ofNat_add]
    exact stack_mem (Lib.add_mem_region (by omega) (by decide))
  obtain ⟨_, k₂, h₁, hthen₁⟩ := bind_ok.mp hframe
  obtain ⟨_, k₃, h₂, hthen₂⟩ := bind_ok.mp hthen₁
  obtain ⟨_, k₄, h₃, hthen₃⟩ := bind_ok.mp hthen₂
  obtain ⟨_, k₅, h₄, h₅⟩ := bind_ok.mp hthen₃
  have hs₀ : Stored M stackPages k k (view M k) :=
    ⟨Writes.refl _ _, fun _ _ => rfl⟩
  have hs₁ := hs₀.value halone h₁ (by decide) (hmem 128 rfl (by decide))
  have hs₂ := hs₁.value halone h₂ (by decide) (hmem 136 rfl (by decide))
  have hs₃ := hs₂.value halone h₃ (by decide) (hmem 144 rfl (by decide))
  have hs₄ := hs₃.value halone h₄ (by decide) (hmem 152 rfl (by decide))
  have hs₅ := hs₄.value halone h₅ (by decide) (hmem 160 rfl (by decide))
  exact hs₅.value halone htcb (by decide) (hmem 0 rfl (by decide))

/-- The stack after loading: fresh pages, with the frame and the thread
control block's word written on what they held. -/
theorem loadStack_seen (hlaws : M.Laws BitmapAllocator.allocateFrame)
    (hnum : (numbering k.frames.memoryMap).Nodup) {img : Image}
    {rflags : Word} (h : loadStack M img rflags k = .ok (.ok (), k')) :
    ∃ entry, img.eEntry = .ok entry ∧ Effect M stackPages k k'
      ∧ ∀ x ∈ addrs stackPages,
        view M k' x = writeUserStack (seen M k'.table k.phys)
          (BitVec.ofNat 64 entry) rflags x := by
  obtain ⟨r, k₁, hpages, h₁⟩ := bind_ok.mp h
  obtain ⟨hr, rfl⟩ := lift_ok.mp hpages
  obtain ⟨k₂, hmap, h₂⟩ := andThen_ok.mp h₁
  obtain ⟨ps, s, hiter, hfresh, rfl⟩ := mapPages_ok.mp hmap
  obtain rfl : ps = stackPages :=
    (pagesOf_iter hr (by decide) (by decide) hiter).1
  obtain ⟨entry, k₃, hread, h₃⟩ := bind_ok.mp h₂
  obtain ⟨hentry, rfl⟩ := lift_ok.mp hread
  obtain ⟨v, k₄, hvirt, h₄⟩ := bind_ok.mp h₃
  obtain ⟨hv, rfl⟩ := lift_ok.mp hvirt
  have hval := VirtAddr.new_eq.mp hv
  obtain ⟨_, k₅, hframe, h₅⟩ := bind_ok.mp h₄
  obtain ⟨_, k₆, htcb, h₆⟩ := bind_ok.mp h₅
  obtain ⟨-, rfl⟩ := pure_ok.mp h₆
  have hgives := hfresh.gives hlaws hnum
  have hstored :=
    storeStack_stored (alone_addrs hgives.distinct) hframe htcb
  refine ⟨entry, hentry, Effect.ofWrites hfresh hgives hstored.writes, ?_⟩
  intro x hx
  have htable : k'.table = s.1 := by
    rw [hstored.writes.rest]
    rfl
  rw [hstored.seen x hx, hval, htable]
  rfl

-- ========================================================== the whole call

/-- A segment of type `PT_LOAD` of an image. -/
def Segment (img : Image) (p : Program) : Prop :=
  ∃ phoff phnum i, img.ePhoff = .ok phoff ∧ img.ePhnum = .ok phnum
    ∧ i < phnum ∧ img.pType (phoff + programSize * i) = .ok 1
    ∧ img.program (phoff + programSize * i) = .ok p

/-- The kernel while a loader holds its two guards. -/
def State.guarded (k : State PT) : State PT :=
  { k with mapperHeld := true, framesHeld := true }

/-- What a loader has done when it returns `Ok`: pages for the segments,
up to `mid`, pages for the stack, up to `last`, and a new entry in the
table of processes. -/
structure Loads (M : PageMapper PT) (img : Image) (mapper : MapperId)
    (rflags : Word) (ps : List Page) (entry : Nat)
    (k mid last k' : State PT) : Prop where
  unlocked : k.mapperHeld = false ∧ k.framesHeld = false
    ∧ k.sched.listHeld = false
  segments : Effect M ps k.guarded mid
  shows : ∀ p, Segment img p → Loadable p → Shows M img p mid
  stack : Effect M stackPages mid last
  stackSeen : ∀ x ∈ addrs stackPages,
    view M last x = writeUserStack (seen M last.table mid.phys)
      (BitVec.ofNat 64 entry) rflags x
  entry : img.eEntry = .ok entry
  pushed : k' = { last with
    sched := { k.sched with
      processList := k.sched.processList ++ [Sched.userProcess mapper] }
    mapperHeld := false
    framesHeld := false }

theorem pushProcess_ok {p : Sched.Process} :
    withProcessList (pushProcess p) k = .ok ((), k')
      ↔ k.sched.listHeld = false
        ∧ k' = { k with sched := { k.sched with
          processList := k.sched.processList ++ [p] } } := by
  rw [withProcessList_ok]
  constructor
  · intro hparts
    rcases hparts with ⟨hfree, k₁, h, rfl⟩
    cases h
    refine ⟨hfree, ?_⟩
    obtain ⟨⟨⟨list, cur, lh, ch⟩, table, frames, mh, fh⟩, phys, own⟩ := k
    cases hfree
    rfl
  · intro hparts
    rcases hparts with ⟨hfree, rfl⟩
    obtain ⟨⟨⟨list, cur, lh, ch⟩, table, frames, mh, fh⟩, phys, own⟩ := k
    cases hfree
    exact ⟨rfl, _, rfl, rfl⟩

/-- What comes of a load that returns `Ok`. -/
theorem loads_of_ok (hlaws : M.Laws BitmapAllocator.allocateFrame)
    (hnum : (numbering k.frames.memoryMap).Nodup) {img : Image}
    {mapper : MapperId} {rflags : Word}
    (h : addUserProcess M debug img mapper rflags k = .ok (.ok (), k')) :
    ∃ ps entry mid last,
      Loads M img mapper rflags ps entry k mid last k' := by
  obtain ⟨hm, k₁, h₁, rfl⟩ := withMapper_ok.mp h
  obtain ⟨hf, k₂, h₂, rfl⟩ := withFrames_ok.mp h₁
  obtain ⟨mid, hsegs, h₃⟩ := andThen_ok.mp h₂
  obtain ⟨last, hstack, h₄⟩ := andThen_ok.mp h₃
  obtain ⟨_, k₅, hpush, h₅⟩ := bind_ok.mp h₄
  obtain ⟨-, rfl⟩ := pure_ok.mp h₅
  obtain ⟨hlist, rfl⟩ := pushProcess_ok.mp hpush
  -- the program headers
  obtain ⟨_, k₆, hcheck, hheader⟩ := bind_ok.mp hsegs
  obtain ⟨-, rfl⟩ := lift_ok.mp hcheck
  obtain ⟨phoff, k₆, hread₁, h₆⟩ := bind_ok.mp hheader
  obtain ⟨hphoff, rfl⟩ := lift_ok.mp hread₁
  obtain ⟨_, k₇, hsum, h₇⟩ := bind_ok.mp h₆
  obtain ⟨-, rfl⟩ := lift_ok.mp hsum
  obtain ⟨phnum, k₈, hread₂, h₈⟩ := bind_ok.mp h₇
  obtain ⟨hphnum, rfl⟩ := lift_ok.mp hread₂
  obtain ⟨ps, heffect, hshows⟩ :=
    loadPrograms_effect (k := k.guarded) hlaws hnum h₈
  have hmap : mid.frames.memoryMap = k.frames.memoryMap := heffect.gives.map
  obtain ⟨entry, hentry, hstackEffect, hseen⟩ :=
    loadStack_seen hlaws (hmap ▸ hnum) hstack
  have hsched : last.sched = k.sched :=
    hstackEffect.sched.trans heffect.sched
  refine ⟨ps, entry, mid, last, ⟨hm, hf, hsched ▸ hlist⟩, heffect, ?_,
    hstackEffect, hseen, hentry, ?_⟩
  · intro p hparts hp
    rcases hparts with ⟨phoff', phnum', i, hoff, hnum', hi, htype, hprog⟩
    obtain rfl := Except.ok.inj (hphoff.symm.trans hoff)
    obtain rfl := Except.ok.inj (hphnum.symm.trans hnum')
    exact hshows i hi p htype hprog hp
  · rw [hsched]

-- =========================================================== the registers

/-- Fifteen words are the values of the fifteen registers popped. -/
theorem exists_regs {ws : List Word} (h : ws.length = 15) :
    ∃ regs : Reg → Word, ws = Timer.popOrder.map regs := by
  refine ⟨fun r => ws.getD (Timer.popOrder.idxOf r) 0, ?_⟩
  refine List.ext_getElem (h.trans rfl) fun i hi hi' => ?_
  have hlen : i < Timer.popOrder.length := by
    rw [List.length_map] at hi'
    exact hi'
  have hnodup : Timer.popOrder.Nodup := by decide
  rw [List.getElem_map, hnodup.idxOf_getElem i hlen,
    List.getD_eq_getElem?_getD, List.getElem?_eq_getElem hi]
  rfl

/-- A new process is a context saved on its stack: entry point, stack
pointer and flags from the loader, and in the registers what the frame
behind its stack held. -/
theorem Loads.saved {img : Image} {mapper : MapperId} {rflags : Word}
    {ps : List Page} {entry : Nat} {mid last : State PT} {regs : Reg → Word}
    (h : Loads M img mapper rflags ps entry k mid last k')
    (hregs : (seen M last.table mid.phys).words (userStack + 8) 15
      = Timer.popOrder.map regs) :
    SavedAt (view M k') (userStack + 8)
      (userContext (BitVec.ofNat 64 entry) rflags regs) := by
  have hview : view M k' = view M last := by
    rw [h.pushed]
    rfl
  rw [hview]
  refine (Timer.userStack_saved _ rflags hregs).congr fun x hx => ?_
  refine (h.stackSeen x (stack_mem ?_)).symm
  exact Lib.region_subset (k := 8) (by decide) (by decide) hx

-- ============================================================== the result

/-- Returning through the frame saved at `rsp` enters at `entry`, with the
stack pointer `stack`. -/
def EntersAt (mem : Mem) (rsp entry stack : Word) : Prop :=
  ∀ m : Machine, m.mem = mem → m.regs .rsp = rsp →
    (m.popAll Timer.popOrder).iretq.rip = entry
      ∧ (m.popAll Timer.popOrder).iretq.regs .rsp = stack

theorem entersAt_of_saved {mem : Mem} {rsp entry rflags : Word}
    {regs : Reg → Word}
    (h : SavedAt mem rsp (userContext entry rflags regs)) :
    EntersAt mem rsp entry 0x200000 := by
  intro m heq heq₂
  subst heq
  subst heq₂
  have hctx := Timer.restore_saved h
  constructor
  · exact congrArg Lib.X86.Context.rip hctx
  · exact congrFun (congrArg Lib.X86.Context.regs hctx) .rsp

/-- The loaded image is the image. Whenever `add_user_process` returns
`Ok`: every byte of every segment of type `PT_LOAD` in the lower half is
the byte of the file, or zero behind its file contents, in a page mapped
for the user; and the process that was appended is READY, with a frame
that enters at the entry point of the image with stack pointer
0x200000. -/
theorem loaded_image (hlaws : M.Laws BitmapAllocator.allocateFrame)
    (hdisj : (usable k.frames.memoryMap).Pairwise MemoryRegion.Disjoint)
    (haligned : Aligned k.frames.memoryMap) (img : Image)
    (mapper : MapperId) (rflags : Word)
    (h : addUserProcess M debug img mapper rflags k = .ok (.ok (), k')) :
    (∀ p, Segment img p → Loadable p → ∀ i < p.pMemsz,
      some (view M k' (BitVec.ofNat 64 (p.pVaddr + i)))
          = (if i < p.pFilesz then img.byte (p.pOffset + i) else some 0)
        ∧ ∃ f, mappingAt M k'.table (BitVec.ofNat 64 (p.pVaddr + i))
            = some ⟨f, present ||| writable ||| userAccessible⟩)
    ∧ ∃ p entry, k'.sched.processList = k.sched.processList ++ [p]
        ∧ p.status = .ready ∧ img.eEntry = .ok entry
        ∧ EntersAt (view M k') p.rsp (BitVec.ofNat 64 entry) 0x200000 := by
  obtain ⟨ps, entry, mid, last, hloads⟩ :=
    loads_of_ok hlaws (numbering_nodup hdisj haligned) h
  constructor
  · intro p hsegment hp i hi
    have hshown : Shows M img p last :=
      (hloads.shows p hsegment hp).kept hloads.stack
    obtain ⟨hbyte, f, hmap, -⟩ := hshown i hi
    rw [hloads.pushed]
    exact ⟨hbyte, f, hmap⟩
  · obtain ⟨regs, hregs⟩ :=
      exists_regs (Lib.length_words (seen M last.table mid.phys)
        (userStack + 8) 15)
    refine ⟨Sched.userProcess mapper, entry, ?_, rfl, hloads.entry,
      entersAt_of_saved (hloads.saved hregs)⟩
    rw [hloads.pushed]

-- ========================================================= a load in a run

/-- A loop over pages, as steps of a run. -/
theorem map_run {ps : List Page} :
    ∀ {es : List Event} {k : State PT} {s : Space PT},
      k.mapperHeld = true → k.framesHeld = true →
      (sparingSys M debug k₀).Run es k → FreshPages M ps k.space s →
      (sparingSys M debug k₀).Run (es ++ ps.map .map) (k.inSpace s) := by
  induction ps with
  | nil =>
      intro es k s _ _ hrun hfresh
      cases hfresh
      rw [List.map_nil, List.append_nil]
      exact hrun
  | cons p ps ih =>
      intro es k s hm hf hrun hfresh
      cases hfresh with
      | @cons _ _ _ s₁ _ hone hrest =>
          have hstep : (sparingSys M debug k₀).step k (.map p)
              (k.inSpace s₁) :=
            ⟨⟨hm, hf, mapPages_ok.mpr ⟨[p], s₁, rfl, .cons hone .nil, rfl⟩⟩,
              trivial⟩
          have hrun' := ih (k := k.inSpace s₁) hm hf (hrun.step hstep) hrest
          rw [List.append_assoc] at hrun'
          exact hrun'

/-- A load that returns `Ok` is steps of a run: its guards taken, pages
mapped, memory stored to, and the process appended. -/
theorem load_run (hlaws : M.Laws BitmapAllocator.allocateFrame)
    (hnum : (numbering k.frames.memoryMap).Nodup) {es : List Event}
    (hrun : (sparingSys M debug k₀).Run es k) {img : Image}
    {mapper : MapperId} {rflags : Word}
    (h : addUserProcess M debug img mapper rflags k = .ok (.ok (), k')) :
    ∃ (ps : List Page) (phys : Nat → Byte), (sparingSys M debug k₀).Run
      (es ++ [.lock] ++ ps.map .map ++ [.stores phys] ++ [.push mapper])
      k' := by
  obtain ⟨ps, entry, mid, last, hloads⟩ := loads_of_ok hlaws hnum h
  obtain ⟨hm, hf, hlist⟩ := hloads.unlocked
  have heffect := hloads.segments.append hloads.stack
  have hlock : (sparingSys M debug k₀).step k .lock k.guarded :=
    ⟨⟨hm, hf, rfl⟩, trivial⟩
  have hmapped :=
    map_run (k := k.guarded) rfl rfl (hrun.step hlock) heffect.fresh
  have hstores : (sparingSys M debug k₀).step
      (k.guarded.inSpace last.space) (.stores last.phys) last :=
    ⟨⟨⟨k.own, heffect.rest⟩, fun y hy => .inl (heffect.ofProcess hy)⟩,
      trivial⟩
  have hinv := userInv_run hlaws hrun
  have hsched : last.sched = k.sched := heffect.sched
  have hpush : Sched.addUserProcess mapper last.sched
      = .done ((), { k.sched with
          processList := k.sched.processList ++ [Sched.userProcess mapper]
          listHeld := false }) := by
    rw [hsched]
    exact Sched.push_run hinv.table.free (Sched.userProcess mapper)
  refine ⟨ps ++ stackPages, last.phys,
    (hmapped.step hstores).step ⟨⟨?_, ?_, _, hpush, ?_⟩, trivial⟩⟩
  · rw [heffect.rest]
    rfl
  · rw [heffect.rest]
    rfl
  · rw [hloads.pushed]
    obtain ⟨⟨⟨list, cur, lh, ch⟩, table, frames, mh, fh⟩, phys, own⟩ := k
    cases hlist
    rfl

-- =========================================================== a small image

/-- An ELF file without anything the loader does not read: a header, one
program header, and a segment of three bytes of the header itself with
two zeroes behind them, at 0x400000. -/
def smallFile : List Byte :=
  List.replicate 24 0
    ++ [0, 0, 0x40, 0, 0, 0, 0, 0]            -- e_entry
    ++ [64, 0, 0, 0, 0, 0, 0, 0]              -- e_phoff
    ++ List.replicate 16 0
    ++ [1, 0]                                 -- e_phnum
    ++ List.replicate 6 0
    ++ [1, 0, 0, 0, 0, 0, 0, 0]               -- p_type, p_flags
    ++ [24, 0, 0, 0, 0, 0, 0, 0]              -- p_offset
    ++ [0, 0, 0x40, 0, 0, 0, 0, 0]            -- p_vaddr
    ++ List.replicate 8 0
    ++ [3, 0, 0, 0, 0, 0, 0, 0]               -- p_filesz
    ++ [5, 0, 0, 0, 0, 0, 0, 0]               -- p_memsz
    ++ List.replicate 8 0

/-- It in memory. -/
def smallImage : Image where
  efi := 0x10000
  byte i := smallFile[i]?

/-- A map of one region of sixteen frames. -/
def sixteenFrames : MemoryRegions := [⟨4096, 69632, .usable⟩]

theorem sixteenFrames_wellFormed : WellFormed sixteenFrames where
  aligned := by decide
  below := by decide
  disjoint := List.pairwise_singleton ..

/-- The small machine at boot, with more memory. -/
def loaderBoot : State (Tables PhysFrame) :=
  { smallBoot with frames := ⟨sixteenFrames, List.replicate 16 false⟩ }

/-- The call returns `Ok`. -/
def returnsOk (x : KernelM PT Loaded) (k : State PT) : Bool :=
  match x k with
  | .ok (.ok (), _) => true
  | _ => false

theorem returnsOk_iff {x : KernelM PT Loaded} :
    returnsOk x k = true ↔ ∃ k', x k = .ok (.ok (), k') := by
  unfold returnsOk
  constructor
  · intro h
    split at h
    · next k' heq => exact ⟨k', heq⟩
    · cases h
  · intro hparts
    rcases hparts with ⟨k', h⟩
    rw [h]

/-- Ten frames are enough for it: six for pages, four for tables. -/
theorem smallImage_loads : ∃ k',
    addUserProcess smallMapper true smallImage 0 0 loaderBoot
      = .ok (.ok (), k') :=
  returnsOk_iff.mp (by decide +kernel)

theorem loaded_image_small :
    ∃ k', addUserProcess smallMapper true smallImage 0 0 loaderBoot
        = .ok (.ok (), k')
      ∧ (∀ i < 5, ∃ f, mappingAt smallMapper k'.table
          (BitVec.ofNat 64 (0x400000 + i))
            = some ⟨f, present ||| writable ||| userAccessible⟩)
      ∧ ∃ p entry, k'.sched.processList = [Sched.bootProcess, p]
        ∧ smallImage.eEntry = .ok entry
        ∧ EntersAt (view smallMapper k') p.rsp (BitVec.ofNat 64 entry)
            0x200000 := by
  obtain ⟨k', h⟩ := smallImage_loads
  obtain ⟨hsegments, p, entry, hpushed, -, hentry, henters⟩ :=
    loaded_image smallMapper_laws sixteenFrames_wellFormed.disjoint
      sixteenFrames_wellFormed.paged smallImage 0 0 h
  refine ⟨k', h, fun i hi => ?_, p, entry, hpushed, hentry, henters⟩
  have hsegment : Segment smallImage ⟨24, 0x400000, 3, 5⟩ :=
    ⟨64, 1, 0, by decide, by decide, by decide, by decide, by decide⟩
  exact (hsegments _ hsegment ⟨by decide, by decide, by decide⟩ i hi).2

end Bayos.Kernel
