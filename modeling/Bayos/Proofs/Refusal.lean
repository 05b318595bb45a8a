/-
When `anon_allocate_syscall` returns to the process that called it, and
what becomes of a request that cannot be met.

# The defect

The call has no way to fail: every `unwrap` on its way, and the checked
arithmetic on addresses, ends in the panic handler, which halts the
machine. So a call either is granted in full or never returns, and
whatever a user process passes as a size that cannot be met stops the
kernel. The siblings that map pages, `add_user_process` and `init_heap`,
return an error for an allocator that is out of frames.

# The pointer

Only a store through a harmless pointer leaves the kernel able to return:
the stack the call itself runs on is the process's, and a store to a
return address in it goes through like any other.
-/
import Bayos.Proofs.Ranges

namespace Bayos.Kernel

open Rust
open Lib (Word TransSys)
open Lib.Paging
open Lib.Paging.PageRangeInclusive (lastUser)
open Bayos.Memory
open Bayos.Sched (U64 MapperId)

variable {PT : Type} {M : PageMapper PT} {debug : Bool}
  {k₀ k k' : State PT}

-- ============================================================== vocabulary

/-- Where the ranges of the current process end. -/
def State.rangesEnd (k : State PT) : Nat :=
  match k.sched.processList[k.sched.currentProcess]? with
  | some p => (p.pages.getD 0).toNat
  | none => 0

/-- The pages a request of the current process is for. -/
def State.wanted (k : State PT) (size : Word) : List Page :=
  pageRun (k.rangesEnd / 4096) (pagesFor size.toNat)

/-- There are frames for the pages of a request and for the tables that
are missing on the way to them. -/
def EnoughFrames (M : PageMapper PT) (k : State PT) (size : Word) : Prop :=
  pagesFor size.toNat + (missingTables M k.table (k.wanted size)).card
    ≤ freeCount k.frames

/-- A request that can be met: a canonical range, and enough frames. -/
structure CanBeMet (M : PageMapper PT) (k : State PT) (size : Word) :
    Prop where
  canonical : k.rangesEnd + size.toNat ≤ 2 ^ 47
  frames : EnoughFrames M k size

/-- The call returns, and if its request cannot be met it leaves the page
table, the frame bitmap and the table of processes as they were. -/
def FailsCleanly (M : PageMapper PT) (debug : Bool) (k : State PT)
    (size ptr : Word) : Prop :=
  ∃ k', anonAllocateSyscall M debug size ptr k = .ok ((), k')
    ∧ (¬ CanBeMet M k size →
        k'.table = k.table ∧ k'.frames = k.frames
          ∧ k'.sched.processList = k.sched.processList)

/-- The condition on a call of the current process with a harmless
pointer. -/
structure Grantable (M : PageMapper PT) (debug : Bool) (k : State PT)
    (size ptr : Word) : Prop where
  unlocked : k.mapperHeld = false ∧ k.framesHeld = false
  below : k.rangesEnd + size.toNat ≤ 0x7ffffffff000
  unmapped : ∀ p ∈ k.wanted size, M.translate k.table p = none
  frames : EnoughFrames M k size
  stores : ∀ i < 8, CanStore M k.table (ptr + BitVec.ofNat 64 i)
    ∨ Request.Covers ⟨k.rangesEnd, size.toNat⟩
        (ptr + BitVec.ofNat 64 i).toNat
  pointer : debug = true → ptr.toNat % 8 = 0 ∧ ptr ≠ 0

-- ============================================================= the pointer

theorem checkPointer_ok {ptr : Word} :
    checkPointer debug ptr = .ok ()
      ↔ (debug = true → ptr.toNat % 8 = 0 ∧ ptr ≠ 0) := by
  unfold checkPointer
  cases debug with
  | false => simp
  | true =>
      by_cases halign : ptr.toNat % 8 = 0
      · by_cases hnull : ptr = 0
        · simp [hnull]
        · simp [halign]
      · simp [halign]

/-- The pages of a run of pages of the lower half, by address. -/
theorem containing_mem {v : VirtAddr} {a n : Nat}
    (hn : a + n ≤ lastUser) :
    Page.containingAddress v ∈ pageRun a n
      ↔ 4096 * a ≤ v.val ∧ v.val < 4096 * (a + n) := by
  unfold lastUser at hn
  rw [mem_pageRun]
  constructor
  · intro h
    rcases h with ⟨i, hai, hin, hpage⟩
    have hstart := congrArg Page.start hpage
    rw [userPage_start (by omega)] at hstart
    have : v.val - v.val % 4096 = 4096 * i := hstart
    omega
  · intro h
    rcases h with ⟨hlow, hhigh⟩
    exact ⟨v.val / 4096, by omega, by omega,
      containingAddress_user (by omega)⟩

/-- After pages were mapped, the kernel may write where it might before
and in the new pages. -/
theorem canStore_fresh (hlaws : M.Laws BitmapAllocator.allocateFrame)
    {a n : Nat} {s s' : Space PT} (hn : a + n ≤ lastUser)
    (h : FreshPages M (pageRun a n) s s') (x : Word) :
    CanStore M s'.1 x
      ↔ CanStore M s.1 x
        ∨ 4096 * a ≤ x.toNat ∧ x.toNat < 4096 * (a + n) := by
  obtain ⟨hmapped, hothers⟩ := h.translate hlaws
  unfold CanStore mappingAt
  cases hx : VirtAddr.tryNew x.toNat with
  | none =>
      have hhigh : ¬ x.toNat < 2 ^ 47 := by
        intro hlow
        rw [VirtAddr.tryNew_eq_some (v := ⟨x.toNat, Or.inl hlow⟩) |>.mpr rfl]
          at hx
        cases hx
      unfold lastUser at hn
      simp only [reduceCtorEq, false_and, exists_false, false_or, false_iff]
      omega
  | some v =>
      have hv := VirtAddr.tryNew_eq_some.mp hx
      have hmem := containing_mem (v := v) hn
      rw [hv] at hmem
      simp only
      by_cases hin : Page.containingAddress v ∈ pageRun a n
      · obtain ⟨f, hf⟩ := hmapped _ hin
        constructor
        · intro _
          exact Or.inr (hmem.mp hin)
        · intro _
          exact ⟨_, hf, userFlags_writable⟩
      · rw [hothers _ hin]
        constructor
        · exact Or.inl
        · intro hparts
          rcases hparts with hold | hrange
          · exact hold
          · exact absurd (hmem.mpr hrange) hin

/-- Where the ranges of a current user process end. -/
theorem UserInv.rangesEnd {es : List Event} (hinv : UserInv es k)
    {p : Sched.Process}
    (hcurrent : k.sched.processList[k.sched.currentProcess]? = some p)
    (huser : p.mapper.isSome = true) :
    ∃ a, 0 < a ∧ a ≤ lastUser ∧ p.pages = some (BitVec.ofNat 64 (4096 * a))
      ∧ k.rangesEnd = 4096 * a := by
  obtain ⟨m, hm⟩ := Option.isSome_iff_exists.mp huser
  have hentry : (holdings k.sched)[k.sched.currentProcess]?
      = some (some m, p.pages) := by
    unfold holdings
    rw [List.getElem?_map, hcurrent, ← hm]
    rfl
  obtain ⟨a, ha, hlast, -, hpages⟩ := (hinv.entries _ _ hentry).boundary
  refine ⟨a, ha, hlast, hpages, ?_⟩
  unfold State.rangesEnd
  unfold lastUser at hlast
  rw [hcurrent]
  simp only [hpages, Option.getD_some, BitVec.toNat_ofNat]
  omega

theorem covers_iff {a size x : Nat} :
    Request.Covers ⟨4096 * a, size⟩ x
      ↔ 4096 * a ≤ x ∧ x < 4096 * (a + pagesFor size) := by
  unfold Request.Covers Request.stop
  rw [roundUp_size, Nat.mul_add]

-- ================================================================= results

/-- Anonymous allocation fails cleanly exactly when it does not fail. For
every state of every run with a user process current, and whatever that
process passes: the call returns, having changed nothing if its request
could not be met, only if no loader holds the mapper and the frame
allocator, the range ends below the last page of the lower half, none of
its pages is mapped, there are frames for them and for the tables that
are missing, and the pointer may be written through once they are mapped
(and, in a build with debug assertions, is aligned and not null). If so,
and the pointer is harmless, it does. -/
theorem anon_fails_cleanly_iff
    (hlaws : M.Laws BitmapAllocator.allocateFrame) (es : List Event)
    (hrun : (sparingSys M debug k₀).Run es k) (p : Sched.Process)
    (hcurrent : k.sched.processList[k.sched.currentProcess]? = some p)
    (huser : p.mapper.isSome = true) (size ptr : Word) :
    (FailsCleanly M debug k size ptr → Grantable M debug k size ptr)
      ∧ (Harmless M size ptr k → Grantable M debug k size ptr →
          FailsCleanly M debug k size ptr) := by
  have hinv := userInv_run hlaws hrun
  obtain ⟨a, ha, hlast, hpages, hend⟩ := hinv.rangesEnd hcurrent huser
  have hwanted : k.wanted size = pageRun a (pagesFor size.toNat) := by
    unfold State.wanted
    rw [hend, Nat.mul_div_cancel_left a (by decide)]
  have hnat : (BitVec.ofNat 64 (4096 * a)).toNat = 4096 * a := by
    unfold lastUser at hlast
    rw [BitVec.toNat_ofNat, Nat.mod_eq_of_lt (by omega)]
  have hexists : (∃ s, FreshPages M (k.wanted size) k.space s) ↔ _ :=
    freshPages_exists_iff hlaws hinv.sized
  rw [hwanted, pageRun_length] at hexists
  constructor
  · intro hparts
    rcases hparts with ⟨k', hcall, -⟩
    obtain ⟨hfree, hptr, proc, pages, r, ps, s, hreserves, hstores⟩ :=
      anon_reserves hcall
    obtain rfl := Option.some.inj (hcurrent.symm.trans hreserves.current)
    obtain rfl := Option.some.inj (hpages.symm.trans hreserves.owned)
    have hrange := hreserves.range
    rw [hnat] at hrange
    -- a range that does not fit is never gone through
    have hfits : Fits a size.toNat := by
      by_contra hfits
      exact iter_unfit hlast hfits hrange ps hreserves.iter
    obtain rfl := Except.ok.inj ((anonRange_eq ha hfits).symm.trans hrange)
    obtain rfl := map_ok_inj ((iter_eq ha hfits).symm.trans hreserves.iter)
    have hfresh := hreserves.fresh
    obtain ⟨-, hnone, hcount⟩ := hexists.mp ⟨s, hwanted ▸ hfresh⟩
    refine ⟨⟨hfree.mapper, hfree.frames⟩, ?_, hwanted ▸ hnone, ?_, ?_,
      checkPointer_ok.mp hptr⟩
    · rw [hend]
      exact hfits
    · unfold EnoughFrames
      rw [hwanted]
      exact hcount
    · intro i hi
      rw [hend, covers_iff]
      exact (canStore_fresh hlaws hfits.le hfresh _).mp (hstores i hi)
  · intro hharmless h
    have hfits : Fits a size.toNat := by
      have hbelow := h.below
      rw [hend] at hbelow
      exact hbelow
    have hnone := h.unmapped
    have hcount := h.frames
    unfold EnoughFrames at hcount
    rw [hwanted] at hnone hcount
    obtain ⟨s, hfresh⟩ :=
      hexists.mpr ⟨pageRun_nodup (Nat.le_trans hfits.le (by decide)),
        hnone, hcount⟩
    have hstores : ∀ i < 8, CanStore M s.1 (ptr + BitVec.ofNat 64 i) := by
      intro i hi
      have hone := h.stores i hi
      rw [hend, covers_iff] at hone
      exact (canStore_fresh hlaws hfits.le hfresh _).mpr hone
    refine ⟨_, (anon_granted_iff hcurrent hpages huser ha hlast
      hharmless).mpr ⟨⟨hinv.table.free, h.unlocked.1, h.unlocked.2⟩, hfits,
        checkPointer_ok.mpr h.pointer, s, hfresh, hstores, rfl⟩, ?_⟩
    intro hmet
    have hbelow := h.below
    exact absurd ⟨by omega, h.frames⟩ hmet

/-- In the small machine's first user state a request for one byte is
granted, and one for three pages, a frame too many, does not return. -/
theorem anon_fails_cleanly_small :
    FailsCleanly smallMapper false smallUser 1 0x1fc000
      ∧ ¬ FailsCleanly smallMapper false smallUser 0x3000 0x1fc000 := by
  have hiff := anon_fails_cleanly_iff smallMapper_laws smallEvents
    smallUser_run (Sched.userProcess 0).resumed rfl rfl
  constructor
  · refine (hiff 1 0x1fc000).2 (harmless_zeroes rfl 1 0x1fc000)
      ⟨⟨rfl, rfl⟩, by decide, by decide, ?_, ?_, by decide⟩
    · unfold EnoughFrames
      decide
    · have hmap : ∀ i < 8, mappingAt smallMapper smallUser.table
          (0x1fc000 + BitVec.ofNat 64 i)
            = some ⟨frameAt 4096, userFlags⟩ := by decide
      exact fun i hi => Or.inl ⟨_, hmap i hi, userFlags_writable⟩
  · intro h
    have hframes := ((hiff 0x3000 0x1fc000).1 h).frames
    revert hframes
    unfold EnoughFrames
    decide

/-- A process that asks for 2^64 - 1 bytes stops the kernel. -/
theorem anon_panics :
    ¬ ∀ es k, (sparingSys smallMapper false smallBoot).Run es k →
      ∀ p, k.sched.processList[k.sched.currentProcess]? = some p →
        p.mapper.isSome = true → ∀ size ptr,
          FailsCleanly smallMapper false k size ptr := by
  intro h
  obtain ⟨k', hcall, -⟩ := h smallEvents smallUser smallUser_run
    (Sched.userProcess 0).resumed rfl rfl 0xffffffffffffffff 0x1fc000
  have hpanics : anonAllocateSyscall smallMapper false 0xffffffffffffffff
      0x1fc000 smallUser
        = .error (.panics (.message "attempt to add with overflow")) := rfl
  rw [hpanics] at hcall
  cases hcall

end Bayos.Kernel
