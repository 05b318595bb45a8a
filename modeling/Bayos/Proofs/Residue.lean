/-
What a load that fails leaves behind.

`add_user_process` returns an `Err` from the middle of its loops and
gives nothing back on the way: frames are only ever marked allocated, and
every error comes after an allocation that either marked one more frame
or found none to mark (`Leaves`). So the one failed load that leaves the
kernel as it was is the one for which no frame was free to begin with.
-/
import Bayos.Proofs.Segments

namespace Bayos.Kernel

open Rust
open Lib (Word)
open Lib.Paging
open Bayos.Memory
open Bayos.Sched (MapperId)

variable {PT α : Type} {M : PageMapper PT} {debug : Bool}
  {k k' : State PT} {img : Image} {mapper : MapperId} {rflags : Word}

-- ==================================================== statement vocabulary

/-- The pages mapped for the user, and what to. -/
def userMappings (M : PageMapper PT) (table : PT) :
    Set (Page × Mapping PhysFrame) :=
  {x | M.translate table x.1 = some x.2
    ∧ x.2.flags.contains userAccessible = true}

/-- The processes, the frames marked allocated and the user mappings are
those of before. -/
structure LeavesNothing (M : PageMapper PT) (k k' : State PT) : Prop where
  processes : k'.sched.processList = k.sched.processList
  frames : allocated k'.frames = allocated k.frames
  pages : userMappings M k'.table = userMappings M k.table

-- =============================================== what a call leaves behind

/-- What a part of the loader leaves behind, with the `Result` it
returns: page table and frames as they were, and then an error means that
no frame was free, or one more frame marked allocated. -/
structure Leaves (k k' : State PT) (r : Loaded) : Prop where
  sched : k'.sched = k.sched
  spent : (k'.space = k.space ∧ ∀ e, r = .error e → freeCount k.frames = 0)
    ∨ freeCount k.frames ≠ 0 ∧ Spends k.frames k'.frames

/-- Whatever the call does, this is what it leaves behind. -/
def Consumes (x : KernelM PT Loaded) : Prop :=
  ∀ (k k' : State PT) (r : Loaded), x k = .ok (r, k') → Leaves k k' r

namespace Consumes

theorem ok : Consumes (pure (.ok ()) : KernelM PT Loaded) := by
  intro k k' r h
  obtain ⟨rfl, rfl⟩ := pure_ok.mp h
  exact ⟨rfl, .inl ⟨rfl, by simp⟩⟩

/-- A step that only stores, before a part of the loader. -/
theorem after {x : KernelM PT α} {f : α → KernelM PT Loaded}
    (hx : OnlyStores x) (hf : ∀ a, Consumes (f a)) :
    Consumes (x >>= f) := by
  intro k k' r h
  obtain ⟨a, k₁, hfirst, hthen⟩ := bind_ok.mp h
  have hleaves := hf a k₁ k' r hthen
  rw [hx k k₁ a hfirst] at hleaves
  exact ⟨hleaves.sched, hleaves.spent⟩

/-- One part of the loader after another. -/
theorem andThen {x y : KernelM PT Loaded} (hx : Consumes x)
    (hy : Consumes y) : Consumes (andThen x y) := by
  intro k k' r h
  obtain ⟨r₁, k₁, hfirst, hthen⟩ := bind_ok.mp h
  have hleaves := hx k k₁ r₁ hfirst
  cases r₁ with
  | error e =>
      obtain ⟨rfl, rfl⟩ := pure_ok.mp hthen
      exact ⟨hleaves.sched, hleaves.spent⟩
  | ok u =>
      have hleaves' := hy k₁ k' r hthen
      refine ⟨hleaves'.sched.trans hleaves.sched, ?_⟩
      rcases hleaves.spent with ⟨hspace, -⟩ | ⟨hfree, hmore⟩
      · -- the first part left table and frames as they were
        have hframes : k₁.frames = k.frames := congrArg Prod.snd hspace
        rw [← hframes, ← hspace]
        exact hleaves'.spent
      · refine .inr ⟨hfree, ?_⟩
        rcases hleaves'.spent with ⟨hspace, -⟩ | ⟨-, hmore'⟩
        · have hframes : k'.frames = k₁.frames := congrArg Prod.snd hspace
          rw [hframes]
          exact hmore
        · exact hmore.trans_subset hmore'.keeps

section Asks

variable (hasks : M.Asks BitmapAllocator.allocateFrame)
include hasks

/-- A loop over pages: a frame is marked allocated before anything else,
or there is none. -/
theorem mapPages (pages : List (Except Panic Page)) :
    Consumes (mapPages M pages) := by
  induction pages with
  | nil => exact ok
  | cons page rest ih =>
      refine after (.lift page) fun page k k' r h => ?_
      obtain ⟨o, k₁, halloc, hmap⟩ := bind_ok.mp h
      obtain ⟨frames, hframes, rfl⟩ := allocateFrame_ok.mp halloc
      cases o with
      | none =>
          obtain ⟨rfl, rfl⟩ := pure_ok.mp hmap
          refine ⟨rfl, ?_⟩
          rcases allocate_cases hframes with ⟨hnone, -, rfl⟩ | hmore
          · exact .inl ⟨rfl, fun _ _ => hnone⟩
          · exact .inr hmore
      | some f =>
          rcases allocate_cases hframes with ⟨-, hf, -⟩ | ⟨hfree, hmore⟩
          · cases hf
          · -- from here on frames are only marked, never given back
            obtain ⟨r₁, k₂, hone, hthen⟩ := bind_ok.mp hmap
            obtain ⟨table, frames', hmapTo, rfl⟩ := mapTo_ok.mp hone
            have hgrows : allocated frames ⊆ allocated frames' :=
              calls_allocated (hasks hmapTo)
            have hmarked := hmore.trans_subset hgrows
            cases r₁ with
            | error e =>
                obtain ⟨rfl, rfl⟩ := pure_ok.mp hthen
                exact ⟨rfl, .inr ⟨hfree, hmarked⟩⟩
            | ok u =>
                have hleaves := ih _ k' r hthen
                refine ⟨hleaves.sched, .inr ⟨hfree, ?_⟩⟩
                rcases hleaves.spent with ⟨hspace, -⟩ | ⟨-, hmore'⟩
                · have hsame : k'.frames = frames' :=
                    congrArg Prod.snd hspace
                  rw [hsame]
                  exact hmarked
                · exact hmarked.trans_subset hmore'.keeps

theorem loadSegment (debug : Bool) (img : Image) (p : Program) :
    Consumes (loadSegment M debug img p) := by
  refine after (.lift _) fun _ => (mapPages hasks _).andThen ?_
  exact after (.fillSegment debug img p) fun _ => ok

theorem loadPrograms (debug : Bool) (img : Image) (n : Nat) :
    ∀ off, Consumes (loadPrograms M debug img off n) := by
  induction n with
  | zero => exact fun _ => ok
  | succ n ih =>
      intro off
      refine after (.lift _) fun type => andThen ?_ (ih _)
      split
      · exact after (.lift _) fun p => loadSegment hasks debug img p
      · exact ok

theorem loadSegments (debug : Bool) (img : Image) :
    Consumes (loadSegments M debug img) :=
  after (.lift _) fun _ => after (.lift _) fun _ => after (.lift _) fun _ =>
    after (.lift _) fun _ => loadPrograms hasks debug img _ _

theorem loadStack (img : Image) (rflags : Word) :
    Consumes (loadStack M img rflags) := by
  refine after (.lift _) fun _ => (mapPages hasks _).andThen ?_
  exact after (.lift _) fun _ => after (.lift _) fun _ =>
    after (.fillFrame _ _) fun _ => after (.fillValue _ _) fun _ => ok

end Asks

end Consumes

-- ============================================================== the result

/-- An error comes out of the loops, before the process list is
touched. -/
theorem loadUser_error {e : MapToError PhysFrame}
    (h : loadUser M debug img mapper rflags k = .ok (.error e, k')) :
    andThen (loadSegments M debug img) (loadStack M img rflags) k
      = .ok (.error e, k') := by
  obtain ⟨r, k₁, hsegments, hthen⟩ := bind_ok.mp h
  refine bind_ok.mpr ⟨r, k₁, hsegments, ?_⟩
  cases r with
  | error e' => exact hthen
  | ok u =>
      obtain ⟨r₂, k₂, hstack, hpush⟩ := bind_ok.mp hthen
      cases r₂ with
      | error e' =>
          obtain ⟨he, rfl⟩ := pure_ok.mp hpush
          rw [he]
          exact hstack
      | ok u =>
          obtain ⟨_, k₃, -, hret⟩ := bind_ok.mp hpush
          obtain ⟨he, -⟩ := pure_ok.mp hret
          cases he

/-- What a failed load leaves behind. -/
theorem addUserProcess_leaves
    (hasks : M.Asks BitmapAllocator.allocateFrame)
    {e : MapToError PhysFrame}
    (h : addUserProcess M debug img mapper rflags k = .ok (.error e, k')) :
    Leaves k k' (.error e) := by
  obtain ⟨-, k₁, h₁, rfl⟩ := withMapper_ok.mp h
  obtain ⟨-, k₂, h₂, rfl⟩ := withFrames_ok.mp h₁
  have hleaves := ((Consumes.loadSegments hasks debug img).andThen
    (.loadStack hasks img rflags)) _ _ _ (loadUser_error h₂)
  exact ⟨hleaves.sched, hleaves.spent⟩

/-- A load that returns an `Err` leaves nothing behind exactly when no
frame was free at the call. -/
theorem failed_load_clean_iff
    (hasks : M.Asks BitmapAllocator.allocateFrame) (img : Image)
    (mapper : MapperId) (rflags : Word) {e : MapToError PhysFrame}
    (h : addUserProcess M debug img mapper rflags k = .ok (.error e, k')) :
    LeavesNothing M k k' ↔ freeCount k.frames = 0 := by
  obtain ⟨hsched, hspent⟩ := addUserProcess_leaves hasks h
  constructor
  · intro hclean
    rcases hspent with ⟨-, herr⟩ | ⟨-, hmore⟩
    · exact herr e rfl
    · exact absurd hclean.frames hmore.ne
  · intro hnone
    rcases hspent with ⟨hspace, -⟩ | ⟨hfree, -⟩
    · have htable : k'.table = k.table := congrArg Prod.fst hspace
      have hframes : k'.frames = k.frames := congrArg Prod.snd hspace
      refine ⟨?_, ?_, ?_⟩
      · rw [hsched]
      · rw [hframes]
      · rw [htable]
    · exact absurd hnone hfree

-- ========================================================= a small machine

/-- Where a call that returns an `Err` leaves the kernel. -/
def failure (x : KernelM PT Loaded) (k : State PT) : Option (State PT) :=
  match x k with
  | .ok (.error _, k') => some k'
  | _ => none

theorem failure_some {x : KernelM PT Loaded} (h : failure x k = some k') :
    ∃ e, x k = .ok (.error e, k') := by
  unfold failure at h
  split at h
  · next e k₁ heq =>
      obtain rfl := Option.some.inj h
      exact ⟨e, heq⟩
  · cases h

/-- The kernel when eight frames were not enough for the small image. -/
def smallResidue : Option (State (Tables PhysFrame)) :=
  failure (addUserProcess smallMapper true smallImage 0 0) smallBoot

/-- No frame is free any more, and the page of the segment is mapped. -/
theorem smallResidue_eq :
    (smallResidue.map fun k' =>
      (k'.frames.bitmap, smallMapper.translate k'.table (userPage 0x400)))
      = some (List.replicate 8 true, some ⟨frameAt 4096, userFlags⟩) := by
  decide +kernel

theorem smallResidue_exists : ∃ e k',
    addUserProcess smallMapper true smallImage 0 0 smallBoot
        = .ok (.error e, k')
      ∧ k'.frames.bitmap = List.replicate 8 true
      ∧ smallMapper.translate k'.table (userPage 0x400)
        = some ⟨frameAt 4096, userFlags⟩ := by
  obtain ⟨k', hk', heq⟩ := Option.map_eq_some_iff.mp smallResidue_eq
  obtain ⟨e, h⟩ := failure_some hk'
  exact ⟨e, k', h, Prod.mk.inj heq⟩

theorem failed_load_clean_iff_small : ∃ e k',
    addUserProcess smallMapper true smallImage 0 0 smallBoot
        = .ok (.error e, k')
      ∧ (LeavesNothing smallMapper smallBoot k'
        ↔ freeCount smallBoot.frames = 0) := by
  obtain ⟨e, k', h, -⟩ := smallResidue_exists
  exact ⟨e, k', h, failed_load_clean_iff (plainMapper_asks _) _ _ _ h⟩

/-- On a machine with eight free frames the load of the small image
fails: none of the eight is given back, and the page of the segment stays
mapped. -/
theorem failed_load_keeps_frames : ∃ e k',
    addUserProcess smallMapper true smallImage 0 0 smallBoot
        = .ok (.error e, k')
      ∧ ¬ LeavesNothing smallMapper smallBoot k'
      ∧ (userPage 0x400, ⟨frameAt 4096, userFlags⟩)
        ∈ userMappings smallMapper k'.table := by
  obtain ⟨e, k', h, hbits, hpage⟩ := smallResidue_exists
  refine ⟨e, k', h, fun hclean => ?_, hpage, by decide⟩
  have hset : 0 ∈ allocated k'.frames := by
    show k'.frames.bitmap[0]? = some true
    rw [hbits]
    rfl
  rw [hclean.frames] at hset
  exact absurd (show smallBoot.frames.bitmap[0]? = some true from hset)
    (by decide)

end Bayos.Kernel
