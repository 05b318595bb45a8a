/-
What a call of `syscall_handler` that returns has done to memory.

# The range

A call's arguments name a range of addresses (`pointerRange`), which may
wrap around. Where nothing of the kernel's lies behind it (`SparesCall`),
a call that returns has stored in that range only, and what it did depends
on no byte of memory outside (`Confined`).
-/
import Bayos.Model.Handler
import Bayos.Proofs.Loader
import Bayos.Proofs.Oblivious
import Bayos.Proofs.Users

namespace Bayos.Kernel

open Rust
open Lib (Word Mem region)
open Lib.Paging
open Bayos.Memory

variable {PT : Type} {M : PageMapper PT} {debug : Bool}
  {k k' : State PT} {c c' : Console}

-- =============================================================== the steps

/-- The kernel may read the byte. -/
def CanLoad (M : PageMapper PT) (table : PT) (a : Word) : Prop :=
  ∃ m, mappingAt M table a = some m ∧ m.flags.contains present = true

theorem loadByte_ok {a : Word} {b : Byte} :
    loadByte M a k = .ok (b, k')
      ↔ CanLoad M k.table a ∧ b = view M k a ∧ k' = k := by
  unfold loadByte CanLoad view
  cases mappingAt M k.table a with
  | none => simp
  | some m =>
      by_cases hm : m.flags.contains present = true
      · simp only [hm, if_true, Except.ok.injEq, Prod.mk.injEq]
        constructor
        · intro h
          rcases h with ⟨rfl, rfl⟩
          exact ⟨⟨m, rfl, hm⟩, rfl, rfl⟩
        · intro h
          rcases h with ⟨-, rfl, rfl⟩
          exact ⟨rfl, rfl⟩
      · simp [hm]

theorem loadBytes_ok {n : Nat} :
    ∀ {a : Word} {bs : List Byte} {k' : State PT},
      loadBytes M a n k = .ok (bs, k')
        ↔ (∀ i < n, CanLoad M k.table (a + BitVec.ofNat 64 i))
          ∧ bs = (List.range n).map
              (fun i => view M k (a + BitVec.ofNat 64 i))
          ∧ k' = k := by
  induction n with
  | zero =>
      intro a bs k'
      unfold loadBytes
      rw [pure_ok]
      simp
  | succ n ih =>
      intro a bs k'
      have htail : (List.range n).map
            (fun i => view M k (a + 1 + BitVec.ofNat 64 i))
          = (List.range n).map
            ((fun i => view M k (a + BitVec.ofNat 64 i)) ∘ Nat.succ) :=
        List.map_congr_left fun i _ => congrArg _ (next_byte a i)
      unfold loadBytes
      rw [bind_ok, forall_bytes_succ, List.range_succ_eq_map, List.map_cons,
        List.map_map, Lib.add_ofNat_zero, ← htail]
      constructor
      · intro h
        rcases h with ⟨b, k₁, hbyte, hthen⟩
        obtain ⟨hcan, rfl, rfl⟩ := loadByte_ok.mp hbyte
        obtain ⟨rest, k₂, hrest, hret⟩ := bind_ok.mp hthen
        obtain ⟨hcans, rfl, rfl⟩ := ih.mp hrest
        obtain ⟨rfl, rfl⟩ := pure_ok.mp hret
        exact ⟨⟨hcan, hcans⟩, rfl, rfl⟩
      · intro h
        rcases h with ⟨⟨hcan, hcans⟩, rfl, rfl⟩
        refine ⟨_, k', loadByte_ok.mpr ⟨hcan, rfl, rfl⟩, ?_⟩
        exact bind_ok.mpr ⟨_, k', ih.mpr ⟨hcans, rfl, rfl⟩, rfl⟩

/-- A read stores the bytes it takes out of the pipe, in order. -/
theorem pipeRead_ok {n : Nat} :
    ∀ {a : Word} {input rest : List Byte} {k : State PT},
      pipeRead M a n input k = .ok (rest, k')
        ↔ n ≤ input.length ∧ rest = input.drop n
          ∧ storeBytes M a (input.take n) k = .ok ((), k') := by
  induction n with
  | zero =>
      intro a input rest k
      unfold pipeRead
      rw [pure_ok, List.drop_zero, List.take_zero]
      unfold storeBytes
      rw [pure_ok]
      simp
  | succ n ih =>
      intro a input rest k
      cases input with
      | nil => simp [pipeRead, wait]
      | cons b input =>
          unfold pipeRead
          rw [bind_ok, List.length_cons, List.drop_succ_cons,
            List.take_succ_cons]
          constructor
          · intro h
            rcases h with ⟨_, k₁, hbyte, hthen⟩
            obtain ⟨hlen, rfl, hstore⟩ := ih.mp hthen
            exact ⟨Nat.succ_le_succ hlen, rfl,
              bind_ok.mpr ⟨(), k₁, hbyte, hstore⟩⟩
          · intro h
            rcases h with ⟨hlen, rfl, hstore⟩
            obtain ⟨_, k₁, hbyte, hrest⟩ := bind_ok.mp hstore
            exact ⟨(), k₁, hbyte, ih.mpr
              ⟨Nat.le_of_succ_le_succ hlen, rfl, hrest⟩⟩

/-- So where nothing of the kernel's is. -/
theorem pipeRead_spared {n : Nat} {a : Word} {input rest : List Byte}
    (hn : n ≤ 2 ^ 64) (hspared : k.SparesAll M (region a n)) :
    pipeRead M a n input k = .ok (rest, k')
      ↔ n ≤ input.length ∧ rest = input.drop n
        ∧ (∀ i < n, CanStore M k.table (a + BitVec.ofNat 64 i))
        ∧ k' = { k with
          phys := place M k.table k.phys a (input.take n) } := by
  rw [pipeRead_ok]
  refine and_congr_right fun hlen => and_congr_right fun _ => ?_
  have htake : (input.take n).length = n := List.length_take_of_le hlen
  have hstore : storeBytes M a (input.take n) k = .ok ((), k') ↔ _ :=
    storeBytes_ok (by omega) (by rw [htake]; exact hspared)
  rw [htake] at hstore
  exact hstore

-- =============================================================== the range

/-- The addresses that a call's arguments name through its pointer. -/
def pointerRange (index arg0 arg1 arg2 : Word) : Set Word :=
  match index.toNat with
  | 0 => if arg0 = 0 then region arg1 arg2.toNat else ∅
  | 1 => if arg0 = 1 then region arg1 arg2.toNat else ∅
  | 2 => region arg1 8
  | _ => ∅

/-- What the call stores meets nothing of the kernel's: not now, nor, for
`anon_allocate_syscall`, when it comes to its store. -/
structure SparesCall (M : PageMapper PT) (index arg0 arg1 arg2 : Word)
    (k : State PT) : Prop where
  named : k.SparesAll M (pointerRange index arg0 arg1 arg2)
  anon : index = 2 → Harmless M arg0 arg1 k

/-- Another memory makes no difference to that. -/
theorem SparesCall.inMemory {index arg0 arg1 arg2 : Word}
    (h : SparesCall M index arg0 arg1 arg2 k) (phys : Nat → Byte) :
    SparesCall M index arg0 arg1 arg2 { k with phys := phys } := by
  refine ⟨h.named, fun hindex r k₁ hreserve => ?_⟩
  have halike :
      Alike ∅ ({ k with phys := phys } : State PT).called k.called :=
    ⟨rfl, fun _ hy => absurd hy (Set.notMem_empty _)⟩
  obtain ⟨k₂, hreserve₂, hsame⟩ :=
    Oblivious.anonReserve arg0 _ _ _ _ _ halike hreserve
  have hspared := h.anon hindex r k₂ hreserve₂
  rw [hsame.rest] at hspared
  exact hspared

/-- The bytes of physical memory behind some addresses. -/
def behind (M : PageMapper PT) (table : PT) (A : Set Word) : Set Nat :=
  {y | ∃ a ∈ A, ∃ m, mappingAt M table a = some m ∧ physAddr m a = y}

/-- What one call, from `k` and `c` to `k'` and `c'`, does with the
addresses `A`: it stores nowhere else, and what it does depends on no
other byte of memory. -/
structure Confined (M : PageMapper PT) (A : Set Word)
    (call : Console → KernelM PT Console) (k k' : State PT)
    (c c' : Console) : Prop where
  stores : ∀ y, k'.phys y ≠ k.phys y → y ∈ behind M k'.table A
  loads : ∀ k₂, Alike (behind M k.table A) k k₂ →
    ∃ k₂', call c k₂ = .ok (c', k₂') ∧ Alike (behind M k.table A) k' k₂'

-- ======================================================= calls, one by one

theorem lockLogger_ok :
    lockLogger c k = .ok ((), k') ↔ c.loggerHeld = false ∧ k' = k := by
  unfold lockLogger
  cases c.loggerHeld with
  | true => simp [wait]
  | false =>
      rw [if_neg Bool.false_ne_true, pure_ok]
      simp

/-- A call that neither stores nor loads. -/
theorem Confined.ofReturn {A : Set Word}
    {call : Console → KernelM PT Console}
    (hcall : ∀ k : State PT, call c k = .ok (c', k)) :
    Confined M A call k k c c' where
  stores := fun _ hy => absurd rfl hy
  loads := fun k₂ halike => ⟨k₂, hcall k₂, halike⟩

/-- A call that does nothing at all. -/
theorem Confined.ofIdle {A : Set Word}
    {call : Console → KernelM PT Console}
    (hcall : ∀ (c : Console) (k : State PT), call c k = .ok (c, k))
    (h : call c k = .ok (c', k')) : Confined M A call k k' c c' := by
  have hret := (hcall c k).symm.trans h
  cases hret
  exact .ofReturn (hcall c)

/-- What a store changes is behind the addresses it names. -/
theorem place_behind {table : PT} {phys : Nat → Byte} {a : Word}
    {bs : List Byte} (hlen : bs.length ≤ 2 ^ 64) {y : Nat}
    (h : place M table phys a bs y ≠ phys y) :
    y ∈ behind M table (region a bs.length) := by
  by_contra hnot
  refine h (place_frame fun i hi m hm heq => hnot ?_)
  exact ⟨_, Lib.add_mem_region hi hlen, m, hm, heq⟩

theorem Oblivious.pipeRead (a : Word) (n : Nat) (input : List Byte) :
    Oblivious (pipeRead M a n input) := by
  intro A k k₂ k' rest halike h
  obtain ⟨hlen, hrest, hstore⟩ := pipeRead_ok.mp h
  obtain ⟨k₂', hstore₂, halike'⟩ :=
    Oblivious.storeBytes (input.take n) a _ _ _ _ _ halike hstore
  exact ⟨k₂', pipeRead_ok.mpr ⟨hlen, hrest, hstore₂⟩, halike'⟩

theorem read_confined {buf count : Word}
    (hspares : k.SparesAll M (region buf count.toNat))
    (h : readSyscall M debug c 0 buf count k = .ok (c', k')) :
    Confined M (region buf count.toNat)
      (readSyscall M debug · 0 buf count) k k' c c' := by
  obtain ⟨_, k₁, hcheck, h₁⟩ := bind_ok.mp h
  obtain ⟨hslice, rfl⟩ := lift_ok.mp hcheck
  obtain ⟨rest, k₂, hread, h₂⟩ := bind_ok.mp h₁
  obtain ⟨rfl, rfl⟩ := pure_ok.mp h₂
  have hsmall : count.toNat ≤ 2 ^ 64 := Nat.le_of_lt count.isLt
  obtain ⟨hlen, rfl, -, rfl⟩ := (pipeRead_spared hsmall hspares).mp hread
  have htake : (c.input.take count.toNat).length = count.toNat :=
    List.length_take_of_le hlen
  refine ⟨fun y hy => ?_, fun j halike => ?_⟩
  · rw [← htake]
    exact place_behind (htake.symm ▸ hsmall) hy
  · have hblind : Oblivious (readSyscall M debug c 0 buf count) :=
      Oblivious.bind (.lift _) fun _ =>
        .bind (.pipeRead _ _ _) fun _ => .pure _
    exact hblind _ _ _ _ _ halike h

theorem write_confined {buf count : Word}
    (h : writeSyscall M debug c 1 buf count k = .ok (c', k')) :
    Confined M (region buf count.toNat)
      (writeSyscall M debug · 1 buf count) k k' c c' := by
  obtain ⟨_, k₁, hcheck, h₁⟩ := bind_ok.mp h
  obtain ⟨hslice, rfl⟩ := lift_ok.mp hcheck
  obtain ⟨_, k₂, hlock, h₂⟩ := bind_ok.mp h₁
  obtain ⟨hfree, rfl⟩ := lockLogger_ok.mp hlock
  obtain ⟨bytes, k₃, hload, h₃⟩ := bind_ok.mp h₂
  obtain ⟨hcan, hbytes, rfl⟩ := loadBytes_ok.mp hload
  obtain ⟨rfl, rfl⟩ := pure_ok.mp h₃
  refine ⟨fun y hy => absurd rfl hy, fun j halike => ?_⟩
  have htable : j.table = k'.table := by rw [halike.rest]
  have hseen : ∀ i < count.toNat,
      view M j (buf + BitVec.ofNat 64 i)
        = view M k' (buf + BitVec.ofNat 64 i) := by
    intro i hi
    obtain ⟨m, hm, -⟩ := hcan i hi
    unfold view
    rw [htable, hm]
    refine halike.phys _ ⟨_, Lib.add_mem_region hi ?_, m, hm, rfl⟩
    exact Nat.le_of_lt count.isLt
  refine ⟨j, bind_ok.mpr ⟨(), j, lift_ok.mpr ⟨hslice, rfl⟩, ?_⟩, halike⟩
  refine bind_ok.mpr ⟨(), j, lockLogger_ok.mpr ⟨hfree, rfl⟩, ?_⟩
  refine bind_ok.mpr ⟨bytes, j, loadBytes_ok.mpr ⟨?_, ?_, rfl⟩, rfl⟩
  · rw [htable]
    exact hcan
  · rw [hbytes]
    refine List.map_congr_left fun i hi => (hseen i ?_).symm
    exact List.mem_range.mp hi

theorem anon_confined {size ptr : Word} (hharmless : Harmless M size ptr k)
    (h : anonAllocateSyscall M debug size ptr k = .ok ((), k')) :
    Confined M (region ptr 8)
      (fun c => do
        anonAllocateSyscall M debug size ptr
        pure c) k k' c c := by
  obtain ⟨-, proc, pages, r, ps, s, n, hgrants, rfl⟩ :=
    (anon_ok hharmless).mp h
  refine ⟨fun y hy => ?_, fun j halike => ?_⟩
  · have hlen : (bytesOfValue pages).length = 8 := length_bytesOfValue pages
    have hbehind := place_behind (hlen ▸ by decide) hy
    rw [hlen] at hbehind
    exact hbehind
  · obtain ⟨j', hj, halike'⟩ :=
      Oblivious.anonAllocateSyscall debug size ptr _ _ _ _ _ halike h
    exact ⟨j', bind_ok.mpr ⟨(), j', hj, rfl⟩, halike'⟩

-- ============================================================== the result

/-- A call that logs and does nothing else. -/
theorem unknown_confined {index arg0 arg1 arg2 : Word}
    (hindex : 2 < index.toNat)
    (h : syscallHandler M debug c index arg0 arg1 arg2 k = .ok (c', k')) :
    Confined M (pointerRange index arg0 arg1 arg2)
      (syscallHandler M debug · index arg0 arg1 arg2) k k' c c' := by
  have hhandler : ∀ c : Console,
      syscallHandler M debug c index arg0 arg1 arg2
        = (do
            lockLogger c
            pure (c.print (unknownSyscall index.toNat))) := by
    intro c
    unfold syscallHandler
    split
    · omega
    · omega
    · omega
    · rfl
  rw [hhandler] at h
  obtain ⟨_, k₁, hlock, hret⟩ := bind_ok.mp h
  obtain ⟨hfree, rfl⟩ := lockLogger_ok.mp hlock
  obtain ⟨rfl, rfl⟩ := pure_ok.mp hret
  refine .ofReturn fun j => ?_
  rw [hhandler]
  exact bind_ok.mpr ⟨(), j, lockLogger_ok.mpr ⟨hfree, rfl⟩, rfl⟩

/-- A call that returns has changed memory in its range only, and what it
did and printed depends on no memory outside. -/
theorem call_confined {index arg0 arg1 arg2 : Word}
    (hspares : SparesCall M index arg0 arg1 arg2 k)
    (h : syscallHandler M debug c index arg0 arg1 arg2 k = .ok (c', k')) :
    Confined M (pointerRange index arg0 arg1 arg2)
      (syscallHandler M debug · index arg0 arg1 arg2) k k' c c' := by
  by_cases hread : index = 0
  · subst hread
    by_cases hfd : arg0 = 0
    · subst hfd
      exact read_confined hspares.named h
    · refine .ofIdle (fun c j => ?_) h
      show readSyscall M debug c arg0 arg1 arg2 j = .ok (c, j)
      unfold readSyscall
      rw [if_neg hfd]
      rfl
  · by_cases hwrite : index = 1
    · subst hwrite
      by_cases hfd : arg0 = 1
      · subst hfd
        exact write_confined h
      · refine .ofIdle (fun c j => ?_) h
        show writeSyscall M debug c arg0 arg1 arg2 j = .ok (c, j)
        unfold writeSyscall
        rw [if_neg hfd]
        rfl
    · by_cases hanon : index = 2
      · subst hanon
        obtain ⟨_, k₁, hcall, hret⟩ := bind_ok.mp h
        obtain ⟨rfl, rfl⟩ := pure_ok.mp hret
        exact anon_confined (hspares.anon rfl) hcall
      · exact unknown_confined (by bv_omega) h

end Bayos.Kernel
