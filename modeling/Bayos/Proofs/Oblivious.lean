/-
Loading a program and handing out pages do not look at memory: on two
kernels that differ in physical memory only they take the same steps,
and where memory agreed before, it agrees after.

# One lemma a step

`Oblivious` is closed under sequencing (`Oblivious.bind`) and under the
scopes of the four locks; of the single steps only the store of a byte
touches memory at all (`Oblivious.ofRest` covers the others).
-/
import Bayos.Proofs.Fresh

namespace Bayos.Kernel

open Rust
open Lib (Word)
open Lib.Paging
open Bayos.Memory (PhysFrame)

variable {PT α β : Type} {M : PageMapper PT} {k k' k₂ : State PT}
  {A : Set Nat}

-- ============================================================= two kernels

/-- Two kernels are one, but for memory outside `A`. -/
structure Alike (A : Set Nat) (k k₂ : State PT) : Prop where
  rest : k₂ = { k with phys := k₂.phys }
  phys : ∀ y ∈ A, k₂.phys y = k.phys y

/-- The call does not look at memory. -/
def Oblivious (x : KernelM PT α) : Prop :=
  ∀ (A : Set Nat) (k k₂ k' : State PT) (a : α), Alike A k k₂ →
    x k = .ok (a, k') → ∃ k₂', x k₂ = .ok (a, k₂') ∧ Alike A k' k₂'

namespace Oblivious

theorem pure (a : α) : Oblivious (pure a : KernelM PT α) := by
  intro A k k₂ k' b halike h
  obtain ⟨rfl, rfl⟩ := pure_ok.mp h
  exact ⟨k₂, rfl, halike⟩

theorem bind {x : KernelM PT α} {f : α → KernelM PT β} (hx : Oblivious x)
    (hf : ∀ a, Oblivious (f a)) : Oblivious (x >>= f) := by
  intro A k k₂ k' b halike h
  obtain ⟨a, k₁, hfirst, hthen⟩ := bind_ok.mp h
  obtain ⟨j₁, hfirst₂, halike₁⟩ := hx _ _ _ _ a halike hfirst
  obtain ⟨j', hthen₂, halike'⟩ := hf a _ _ _ _ b halike₁ hthen
  exact ⟨j', bind_ok.mpr ⟨a, j₁, hfirst₂, hthen₂⟩, halike'⟩

/-- A step that leaves memory alone, and takes it as it is. -/
theorem ofRest {x : KernelM PT α}
    (h : ∀ {k k' : State PT} {a : α}, x k = .ok (a, k') →
      k'.phys = k.phys
        ∧ ∀ phys, x { k with phys := phys }
            = .ok (a, { k' with phys := phys })) :
    Oblivious x := by
  intro A k k₂ k' a halike hx
  obtain ⟨hphys, hagain⟩ := h hx
  refine ⟨{ k' with phys := k₂.phys }, ?_, rfl, ?_⟩
  · rw [halike.rest]
    exact hagain k₂.phys
  · rw [hphys]
    exact halike.phys

theorem lift (x : Except Panic α) : Oblivious (lift x : KernelM PT α) := by
  refine ofRest fun h => ?_
  obtain ⟨rfl, rfl⟩ := lift_ok.mp h
  exact ⟨rfl, fun _ => rfl⟩

theorem currentProcess : Oblivious (currentProcess : KernelM PT Nat) := by
  refine ofRest fun h => ?_
  cases h
  exact ⟨rfl, fun _ => rfl⟩

theorem processAt (i : Nat) :
    Oblivious (processAt i : KernelM PT Sched.Process) := by
  refine ofRest fun h => ?_
  obtain ⟨hp, rfl⟩ := processAt_ok.mp h
  exact ⟨rfl, fun _ => processAt_ok.mpr ⟨hp, rfl⟩⟩

theorem setPages (i : Nat) (pages : Sched.U64) :
    Oblivious (setPages i pages : KernelM PT Unit) := by
  refine ofRest fun h => ?_
  obtain ⟨hi, rfl⟩ := setPages_ok.mp h
  exact ⟨rfl, fun _ => setPages_ok.mpr ⟨hi, rfl⟩⟩

theorem pushProcess (p : Sched.Process) :
    Oblivious (pushProcess p : KernelM PT Unit) := by
  refine ofRest fun h => ?_
  cases h
  exact ⟨rfl, fun _ => rfl⟩

theorem allocateFrame :
    Oblivious (allocateFrame : KernelM PT (Option PhysFrame)) := by
  refine ofRest fun h => ?_
  obtain ⟨frames, halloc, rfl⟩ := allocateFrame_ok.mp h
  exact ⟨rfl, fun _ => allocateFrame_ok.mpr ⟨frames, halloc, rfl⟩⟩

theorem mapTo (p : Page) (f : PhysFrame) (fl : Flags) :
    Oblivious (mapTo M p f fl) := by
  refine ofRest fun h => ?_
  obtain ⟨table, frames, hmap, rfl⟩ := mapTo_ok.mp h
  exact ⟨rfl, fun _ => mapTo_ok.mpr ⟨table, frames, hmap, rfl⟩⟩

-- ================================================================== stores

/-- The store of a byte keeps agreement. -/
theorem update_congr {phys phys' : Nat → Byte} {y z : Nat} {b : Byte}
    (h : phys y = phys' y) :
    Function.update phys z b y = Function.update phys' z b y := by
  by_cases hy : y = z
  · rw [hy, Function.update_self, Function.update_self]
  · rw [Function.update_of_ne hy, Function.update_of_ne hy, h]

/-- And so does that of bytes. -/
theorem place_congr {table : PT} {y : Nat} {bs : List Byte} :
    ∀ {phys phys' : Nat → Byte} {a : Word}, phys y = phys' y →
      place M table phys a bs y = place M table phys' a bs y := by
  induction bs with
  | nil => intro phys phys' a h; exact h
  | cons b bs ih =>
      intro phys phys' a h
      cases hm : mappingAt M table a with
      | none =>
          rw [place, place, hm]
          exact ih h
      | some m =>
          rw [place_cons hm, place_cons hm]
          exact ih (update_congr h)

theorem fillBytes (a : Word) (bs : List Byte) :
    Oblivious (fillBytes M a bs) := by
  intro A k k₂ k' _ halike h
  obtain ⟨hcan, rfl⟩ := fillBytes_ok.mp h
  have htable : k₂.table = k.table := by rw [halike.rest]
  refine ⟨{ k₂ with phys := place M k₂.table k₂.phys a bs },
    fillBytes_ok.mpr ⟨htable ▸ hcan, rfl⟩, ?_, fun y hy => ?_⟩
  · rw [halike.rest]
  · rw [htable]
    exact place_congr (halike.phys y hy)

theorem fillValue (a : Word) {w : Nat} (v : BitVec w) :
    Oblivious (fillValue M a v) :=
  fillBytes a (bytesOfValue v)

theorem storeByte (a : Word) (b : Byte) : Oblivious (storeByte M a b) := by
  intro A k k₂ k' _ halike h
  obtain ⟨m, data, hm, hw, hown, rfl⟩ := storeByte_ok.mp h
  refine ⟨{ k₂ with
      toData := data
      phys := Function.update k₂.phys (physAddr m a) b },
    storeByte_ok.mpr ⟨m, data, ?_, hw, ?_, rfl⟩, ?_, fun y hy => ?_⟩
  · rw [halike.rest]
    exact hm
  · rw [halike.rest]
    exact hown
  · rw [halike.rest]
  · exact update_congr (halike.phys y hy)

theorem storeBytes (bs : List Byte) :
    ∀ a : Word, Oblivious (storeBytes M a bs) := by
  induction bs with
  | nil => exact fun _ => pure ()
  | cons b bs ih =>
      intro a
      unfold Kernel.storeBytes
      exact bind (storeByte a b) fun _ => ih (a + 1)

theorem checkBytes (a : Word) (n : Nat) :
    Oblivious (checkBytes M a n) := by
  refine ofRest fun h => ?_
  obtain ⟨hcan, rfl⟩ := checkBytes_ok.mp h
  exact ⟨rfl, fun _ => checkBytes_ok.mpr ⟨hcan, rfl⟩⟩

theorem storeValue (a : Word) {w : Nat} (v : BitVec w) :
    Oblivious (storeValue M a v) :=
  bind (checkBytes a _) fun _ => storeBytes (bytesOfValue v) a

-- =================================================================== locks

section Locks

variable {call body : KernelM PT α} {free : State PT → Prop}
  {enter leave : State PT → State PT}

/-- A call that runs its body between taking and dropping a lock. -/
theorem scope
    (hcall : ∀ {k k' : State PT} {a : α}, call k = .ok (a, k')
      ↔ free k ∧ ∃ k₁, body (enter k) = .ok (a, k₁) ∧ k' = leave k₁)
    (hlock : ∀ {A : Set Nat} {k k₂ : State PT}, Alike A k k₂ →
      (free k → free k₂) ∧ Alike A (enter k) (enter k₂)
        ∧ Alike A (leave k) (leave k₂))
    (hbody : Oblivious body) : Oblivious call := by
  intro A k k₂ k' a halike h
  obtain ⟨hfree, k₁, hrun, rfl⟩ := hcall.mp h
  obtain ⟨hfree₂, henter, -⟩ := hlock halike
  obtain ⟨j₁, hrun₂, halike₁⟩ := hbody _ _ _ _ a henter hrun
  obtain ⟨-, -, hleave⟩ := hlock halike₁
  exact ⟨leave j₁, hcall.mpr ⟨hfree₂ hfree, j₁, hrun₂, rfl⟩, hleave⟩

theorem withMapper (hbody : Oblivious body) :
    Oblivious (withMapper body) := by
  refine scope withMapper_ok (fun h => ⟨?_, ⟨?_, h.phys⟩, ?_, h.phys⟩) hbody
  · rw [h.rest]
    exact id
  · rw [h.rest]
  · rw [h.rest]

theorem withFrames (hbody : Oblivious body) :
    Oblivious (withFrames body) := by
  refine scope withFrames_ok (fun h => ⟨?_, ⟨?_, h.phys⟩, ?_, h.phys⟩) hbody
  · rw [h.rest]
    exact id
  · rw [h.rest]
  · rw [h.rest]

theorem withProcessList (hbody : Oblivious body) :
    Oblivious (withProcessList body) := by
  refine scope withProcessList_ok (fun h => ⟨?_, ⟨?_, h.phys⟩, ?_, h.phys⟩)
    hbody
  · rw [h.rest]
    exact id
  · rw [h.rest]
  · rw [h.rest]

theorem withCurrentRead (hbody : Oblivious body) :
    Oblivious (withCurrentRead body) := by
  refine scope withCurrentRead_ok (fun h => ⟨?_, ⟨?_, h.phys⟩, ?_, h.phys⟩)
    hbody
  · rw [h.rest]
    exact id
  · rw [h.rest]
  · rw [h.rest]

end Locks

-- ================================================================= loading

theorem andThen {x y : KernelM PT Loaded} (hx : Oblivious x)
    (hy : Oblivious y) : Oblivious (andThen x y) := by
  refine bind hx fun r => ?_
  cases r with
  | ok u => exact hy
  | error e => exact pure _

theorem mapPages (es : List (Except Panic Page)) :
    Oblivious (mapPages M es) := by
  induction es with
  | nil => exact pure _
  | cons e es ih =>
      unfold Kernel.mapPages
      refine bind (lift e) fun p => bind allocateFrame fun o => ?_
      cases o with
      | none => exact pure _
      | some f => exact andThen (mapTo p f userFlags) ih

theorem fillSegment (debug : Bool) (img : Image) (p : Program) :
    Oblivious (fillSegment M debug img p) := by
  unfold Kernel.fillSegment
  refine bind (lift _) fun _ => bind (lift _) fun _ => bind (lift _)
    fun bs => bind (fillBytes _ bs) fun _ => ?_
  split
  · exact bind (lift _) fun tail => fillBytes _ _
  · exact pure ()

theorem loadSegment (debug : Bool) (img : Image) (p : Program) :
    Oblivious (loadSegment M debug img p) := by
  unfold Kernel.loadSegment
  refine bind (lift _) fun pages => andThen (mapPages pages.iter) ?_
  exact bind (fillSegment debug img p) fun _ => pure _

theorem loadPrograms (debug : Bool) (img : Image) (n : Nat) :
    ∀ off, Oblivious (loadPrograms M debug img off n) := by
  induction n with
  | zero => intro off; exact pure _
  | succ n ih =>
      intro off
      unfold Kernel.loadPrograms
      refine bind (lift _) fun type => andThen ?_ (ih _)
      by_cases htype : type = 1
      · rw [if_pos htype]
        exact bind (lift _) fun p => loadSegment debug img p
      · rw [if_neg htype]
        exact pure _

theorem loadSegments (debug : Bool) (img : Image) :
    Oblivious (loadSegments M debug img) :=
  bind (lift _) fun _ => bind (lift _) fun phoff => bind (lift _) fun _ =>
    bind (lift _) fun phnum => loadPrograms debug img phnum phoff

theorem fillFrame (a : Word) (f : Timer.InterruptStackFrameValue) :
    Oblivious (fillFrame M a f) :=
  bind (fillValue _ _) fun _ => bind (fillValue _ _) fun _ =>
    bind (fillValue _ _) fun _ => bind (fillValue _ _) fun _ =>
      fillValue _ _

theorem loadStack (img : Image) (rflags : Word) :
    Oblivious (loadStack M img rflags) := by
  unfold Kernel.loadStack
  refine bind (lift _) fun pages => andThen (mapPages pages.iter) ?_
  refine bind (lift _) fun entry => bind (lift _) fun v => ?_
  exact bind (fillFrame _ _) fun _ =>
    bind (fillValue _ _) fun _ => pure _

theorem addUserProcess (debug : Bool) (img : Image)
    (mapper : Sched.MapperId) (rflags : Word) :
    Oblivious (addUserProcess M debug img mapper rflags) := by
  refine withMapper (withFrames (andThen (loadSegments debug img)
    (andThen (loadStack img rflags) ?_)))
  exact bind (withProcessList (pushProcess _)) fun _ => pure _

-- ================================================================ requests

theorem anonPage (page : Page) : Oblivious (anonPage M page) := by
  refine bind allocateFrame fun o => bind (lift _) fun f => ?_
  exact bind (mapTo page f userFlags) fun r => lift _

theorem forPages {body : Page → KernelM PT Unit}
    (hbody : ∀ p, Oblivious (body p)) (es : List (Except Panic Page)) :
    Oblivious (forPages body es) := by
  induction es with
  | nil => exact pure ()
  | cons e es ih =>
      unfold Kernel.forPages
      exact bind (lift e) fun p => bind (hbody p) fun _ => ih

theorem anonReserve (size : Word) : Oblivious (anonReserve M size) := by
  refine bind currentProcess fun cur => bind (processAt cur) fun proc =>
    bind (lift _) fun pages => bind (lift _) fun range =>
      bind (lift _) fun _ => ?_
  exact bind (withMapper (withFrames (forPages anonPage _))) fun _ => pure _

theorem anonAllocateSyscall (debug : Bool) (size ptr : Word) :
    Oblivious (anonAllocateSyscall M debug size ptr) := by
  refine withProcessList (withCurrentRead (bind (anonReserve size)
    fun r => ?_))
  exact bind (lift _) fun _ => bind (storeValue ptr _) fun _ =>
    bind (lift _) fun n => bind (lift _) fun stop => setPages r.1 _

end Oblivious

end Bayos.Kernel
