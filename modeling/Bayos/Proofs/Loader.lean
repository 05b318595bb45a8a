/-
What loading does to memory: fresh pages, and stores to those pages only.

# Effects

`Writes` is a store confined to the frames of some pages, `Effect` fresh
frames for some pages followed by such stores. Effects compose
(`Effect.append`), and an address whose page was mapped before is seen
unchanged after one (`Effect.seen`): its frame was not free, and the
frames an effect writes to were.
-/
import Bayos.Proofs.Anon

namespace Bayos.Kernel

open Rust
open Lib (Word Mem region)
open Lib.Paging
open Lib.Paging.PageRangeInclusive (lastUser iter_user iter_hole
  elements_covers)
open Bayos.Memory

variable {PT : Type} {M : PageMapper PT} {debug : Bool}
  {k k' k₁ k₂ : State PT}

-- ===================================================== pages and addresses

/-- The addresses of some pages. -/
def addrs (ps : List Page) : Set Word :=
  {x | ∃ v, VirtAddr.tryNew x.toNat = some v ∧ Page.containingAddress v ∈ ps}

/-- The bytes of a frame. -/
def InFrame (f : PhysFrame) (y : Nat) : Prop :=
  f.startAddress ≤ y ∧ y < f.startAddress + 4096

theorem physAddr_inFrame (m : Mapping PhysFrame) (x : Word) :
    InFrame m.frame (physAddr m x) := by
  unfold InFrame physAddr
  omega

/-- Two frames with a byte in common are one. -/
theorem eq_of_inFrame {f g : PhysFrame} {y : Nat} (hf : InFrame f y)
    (hg : InFrame g y) : f = g := by
  have hfa := f.aligned
  have hga := g.aligned
  unfold InFrame at hf hg
  cases f
  cases g
  congr 1
  simp only at *
  omega

theorem mappingAt_eq {table : PT} {x : Word} {v : VirtAddr}
    (h : VirtAddr.tryNew x.toNat = some v) :
    mappingAt M table x = M.translate table (.containingAddress v) := by
  unfold mappingAt
  rw [h]

/-- The page of an address that is mapped. -/
theorem mappingAt_some {table : PT} {x : Word} {m : Mapping PhysFrame}
    (h : mappingAt M table x = some m) :
    ∃ v, VirtAddr.tryNew x.toNat = some v
      ∧ M.translate table (.containingAddress v) = some m := by
  unfold mappingAt at h
  cases hv : VirtAddr.tryNew x.toNat with
  | none => rw [hv] at h; cases h
  | some v =>
      rw [hv] at h
      exact ⟨v, rfl, h⟩

/-- An address of the lower half and its page. -/
theorem mem_addrs {ps : List Page} {a : Nat} (ha : a < 2 ^ 47) :
    BitVec.ofNat 64 a ∈ addrs ps ↔ userPage (a / 4096) ∈ ps := by
  have hnat : (BitVec.ofNat 64 a).toNat = a := by
    rw [BitVec.toNat_ofNat, Nat.mod_eq_of_lt (by omega)]
  have hv : VirtAddr.tryNew (BitVec.ofNat 64 a).toNat
      = some ⟨a, Or.inl ha⟩ := VirtAddr.tryNew_eq_some.mpr hnat.symm
  have hpage := containingAddress_user (v := ⟨a, Or.inl ha⟩) ha
  constructor
  · intro h
    rcases h with ⟨v, hv', hmem⟩
    obtain rfl := Option.some.inj (hv.symm.trans hv')
    rw [hpage] at hmem
    exact hmem
  · intro hmem
    exact ⟨_, hv, hpage ▸ hmem⟩

/-- Pages with a frame each share no byte. -/
theorem alone_addrs {table : PT} {ps : List Page}
    (h : ∀ p ∈ ps, ∀ q ∈ ps, ∀ f fl fl',
      M.translate table p = some ⟨f, fl⟩ →
      M.translate table q = some ⟨f, fl'⟩ → p = q) :
    Alone M table (addrs ps) := by
  intro a ha b hb m n hma hmb heq
  rcases ha with ⟨v, hv, hp⟩
  rcases hb with ⟨w, hw, hq⟩
  rcases m with ⟨f, fl⟩
  rcases n with ⟨g, fl'⟩
  rw [mappingAt_eq hv] at hma
  rw [mappingAt_eq hw] at hmb
  have hfg : f = g := eq_of_inFrame (physAddr_inFrame ⟨f, fl⟩ a)
    (heq ▸ physAddr_inFrame ⟨g, fl'⟩ b)
  subst hfg
  have hpage := congrArg Page.start (h _ hp _ hq f fl fl' hma hmb)
  have hav := VirtAddr.tryNew_eq_some.mp hv
  have hbw := VirtAddr.tryNew_eq_some.mp hw
  have hstart : v.val - v.val % 4096 = w.val - w.val % 4096 := hpage
  have hoff : f.startAddress + a.toNat % 4096
      = f.startAddress + b.toNat % 4096 := heq
  apply BitVec.eq_of_toNat_eq
  omega

-- ================================================================= effects

/-- Only bytes of frames behind the pages were stored to. -/
structure Writes (M : PageMapper PT) (ps : List Page) (k k' : State PT) :
    Prop where
  rest : k' = { k with phys := k'.phys }
  phys : ∀ y, (∀ p ∈ ps, ∀ m, M.translate k.table p = some m →
    ¬ InFrame m.frame y) → k'.phys y = k.phys y

theorem Writes.refl (ps : List Page) (k : State PT) : Writes M ps k k :=
  ⟨rfl, fun _ _ => rfl⟩

theorem Writes.trans {ps : List Page} (h₁ : Writes M ps k k₁)
    (h₂ : Writes M ps k₁ k₂) : Writes M ps k k₂ := by
  have htable : k₁.table = k.table := by rw [h₁.rest]
  refine ⟨?_, fun y hy => ?_⟩
  · rw [h₂.rest, h₁.rest]
  · rw [h₂.phys y (htable ▸ hy), h₁.phys y hy]

/-- A store to addresses of the pages. -/
theorem fillBytes_writes {ps : List Page} {bs : List Byte} {a : Word}
    (h : fillBytes M a bs k = .ok ((), k'))
    (hmem : ∀ i < bs.length, a + BitVec.ofNat 64 i ∈ addrs ps) :
    Writes M ps k k' := by
  obtain ⟨-, rfl⟩ := fillBytes_ok.mp h
  refine ⟨rfl, fun y hy => place_frame fun i hi m hm heq => ?_⟩
  obtain ⟨v, hv, hp⟩ := hmem i hi
  rw [mappingAt_eq hv] at hm
  exact hy _ hp m hm (heq ▸ physAddr_inFrame m _)

/-- Fresh frames for the pages, and stores to them only. -/
structure Effect (M : PageMapper PT) (ps : List Page) (k k' : State PT) :
    Prop where
  fresh : FreshPages M ps k.space k'.space
  gives : Gives M ps k.space k'.space
  rest : k' = { k.inSpace k'.space with phys := k'.phys }
  phys : ∀ y, (∀ p ∈ ps, ∀ m, M.translate k'.table p = some m →
    ¬ InFrame m.frame y) → k'.phys y = k.phys y

theorem Effect.nil (k : State PT) : Effect M [] k k :=
  ⟨.nil, Gives.nil _, rfl, fun _ _ => rfl⟩

/-- Mapping, then storing. -/
theorem Effect.ofWrites {ps : List Page} {s : Space PT}
    (hfresh : FreshPages M ps k.space s) (hgives : Gives M ps k.space s)
    (h : Writes M ps (k.inSpace s) k') : Effect M ps k k' := by
  have hspace : k'.space = s := by rw [h.rest]; rfl
  refine ⟨hspace ▸ hfresh, hspace ▸ hgives, ?_, fun y hy => ?_⟩
  · rw [hspace]
    exact h.rest
  · refine h.phys y ?_
    have htable : k'.table = (k.inSpace s).table := by rw [h.rest]
    rw [← htable]
    exact hy

theorem Effect.append {ps qs : List Page} (h₁ : Effect M ps k k₁)
    (h₂ : Effect M qs k₁ k₂) : Effect M (ps ++ qs) k k₂ := by
  refine ⟨h₁.fresh.append h₂.fresh, h₁.gives.append h₂.gives, ?_,
    fun y hy => ?_⟩
  · rw [h₂.rest, h₁.rest]
    rfl
  · rw [h₂.phys y (fun p hp => hy p (List.mem_append_right ps hp))]
    refine h₁.phys y fun p hp m hm => ?_
    exact hy p (List.mem_append_left qs hp) m (h₂.gives.keeps hm)

/-- Only frames that were free before and are not after are stored to. -/
theorem Effect.outside {ps : List Page} (h : Effect M ps k k')
    {f : PhysFrame} {y : Nat} (hin : InFrame f y)
    (hf : ¬ Free k.frames f ∨ Free k'.frames f) : k'.phys y = k.phys y := by
  refine h.phys y fun p hp m hm hin' => ?_
  obtain ⟨g, hg, hfree, htaken⟩ := h.gives.mapped p hp
  rw [show M.translate k'.table p = some ⟨g, userFlags⟩ from hg] at hm
  cases hm
  obtain rfl : g = f := eq_of_inFrame hin' hin
  rcases hf with hf | hf
  · exact hf hfree
  · exact htaken hf

/-- Memory whose page was mapped to a frame that is not free is seen as
before. -/
theorem Effect.seen {ps : List Page} (h : Effect M ps k k') {x : Word}
    {m : Mapping PhysFrame} (hm : mappingAt M k.table x = some m)
    (htaken : ¬ Free k.frames m.frame) :
    mappingAt M k'.table x = some m ∧ view M k' x = view M k x := by
  obtain ⟨v, hv, hpage⟩ := mappingAt_some hm
  have hm' : mappingAt M k'.table x = some m := by
    rw [mappingAt_eq hv]
    exact h.gives.keeps hpage
  refine ⟨hm', ?_⟩
  unfold view
  rw [hm, hm']
  exact h.outside (physAddr_inFrame m x) (.inl htaken)

/-- A page an effect gave is mapped for the user, to a frame that is not
free any more. -/
theorem Effect.given {ps : List Page} (h : Effect M ps k k') {x : Word}
    (hx : x ∈ addrs ps) :
    ∃ f, mappingAt M k'.table x = some ⟨f, userFlags⟩
      ∧ ¬ Free k'.frames f := by
  obtain ⟨v, hv, hp⟩ := hx
  obtain ⟨f, hf, -, htaken⟩ := h.gives.mapped _ hp
  exact ⟨f, (mappingAt_eq hv).trans hf, htaken⟩

/-- What is stored to is then a process's. -/
theorem Effect.ofProcess {ps : List Page} (h : Effect M ps k k') {y : Nat}
    (hy : k'.phys y ≠ k.phys y) : OfProcess M k'.table y := by
  by_contra hnot
  refine hy (h.phys y fun p hp m hm hin => hnot ?_)
  obtain ⟨f, hf, -⟩ := h.gives.mapped p hp
  obtain rfl := Option.some.inj (hm.symm.trans hf)
  exact ⟨p, _, hm, userFlags_user, hin⟩

theorem Effect.sched {ps : List Page} (h : Effect M ps k k') :
    k'.sched = k.sched := by
  rw [h.rest]
  rfl

-- ========================================================= ranges of pages

theorem pagesOf_ok {first last : Nat} {r : PageRangeInclusive} :
    pagesOf first last = .ok r
      ↔ ∃ v w : VirtAddr, v.val = first ∧ w.val = last
        ∧ r = ⟨.containingAddress v, .containingAddress w⟩ := by
  unfold pagesOf
  constructor
  · intro h
    obtain ⟨v, hv, h₁⟩ := bind_eq_ok.mp h
    obtain ⟨w, hw, h₂⟩ := bind_eq_ok.mp h₁
    exact ⟨v, w, VirtAddr.new_eq.mp hv, VirtAddr.new_eq.mp hw,
      (Except.ok.inj h₂).symm⟩
  · intro h
    rcases h with ⟨v, w, hv, hw, rfl⟩
    refine bind_eq_ok.mpr ⟨v, VirtAddr.new_eq.mpr hv, ?_⟩
    exact bind_eq_ok.mpr ⟨w, VirtAddr.new_eq.mpr hw, rfl⟩

/-- The loop over a range of the lower half, which may be empty, gets to
its end when the last page is not the last one of that half, and has been
through all pages of the range. -/
theorem pagesOf_iter_iff {first last : Nat} {ps : List Page}
    (hle : first ≤ last + 1) (hlow : last < 2 ^ 47) :
    (∃ r, pagesOf first last = .ok r ∧ r.iter = ps.map .ok)
      ↔ last / 4096 < lastUser
        ∧ ps = pageRun (first / 4096) (last / 4096 + 1 - first / 4096) := by
  constructor
  · intro h
    obtain ⟨r, hr, hiter⟩ := h
    obtain ⟨v, w, hv, hw, rfl⟩ := pagesOf_ok.mp hr
    have hcanonical := v.canonical
    unfold IsCanonical at hcanonical
    rw [containingAddress_user (v := v) (by omega), hv] at hiter
    have hlast : last / 4096 < lastUser := by
      by_contra hge
      refine iter_hole ?_ ?_ ps hiter
      · unfold lastUser
        omega
      · show 4096 * lastUser ≤ w.val - w.val % 4096
        omega
    rw [containingAddress_user (v := w) (by omega), hw,
      iter_user (by omega) hlast] at hiter
    exact ⟨hlast, (map_ok_inj hiter).symm⟩
  · intro h
    obtain ⟨hlast, rfl⟩ := h
    have hfirst : first < 2 ^ 47 := by
      unfold lastUser at hlast
      omega
    refine ⟨_, pagesOf_ok.mpr
      ⟨⟨first, .inl hfirst⟩, ⟨last, .inl hlow⟩, rfl, rfl, rfl⟩, ?_⟩
    rw [containingAddress_user hfirst, containingAddress_user hlow]
    exact iter_user (by simp only; omega) hlast

/-- A range of the lower half whose loop gets to its end: all its pages,
and the last one is not the last of that half. -/
theorem pagesOf_iter {first last : Nat} {r : PageRangeInclusive}
    {ps : List Page} (h : pagesOf first last = .ok r) (hle : first ≤ last)
    (hlow : last < 2 ^ 47) (hiter : r.iter = ps.map .ok) :
    ps = pageRun (first / 4096) (last / 4096 + 1 - first / 4096)
      ∧ last / 4096 < lastUser :=
  ((pagesOf_iter_iff (by omega) hlow).mp ⟨r, h, hiter⟩).symm

/-- The addresses from the first to the last of any range whose loop gets
to its end. -/
theorem pagesOf_covers {first last a : Nat} {r : PageRangeInclusive}
    {ps : List Page} (h : pagesOf first last = .ok r)
    (hiter : r.iter = ps.map .ok) (hfirst : first ≤ a) (hlast : a ≤ last)
    (hsmall : a < 2 ^ 64) : BitVec.ofNat 64 a ∈ addrs ps := by
  obtain ⟨v, w, hv, hw, rfl⟩ := pagesOf_ok.mp h
  have hcanonical : IsCanonical a := by
    by_contra hnot
    have hvc := v.canonical
    have hwc := w.canonical
    unfold IsCanonical at hnot hvc hwc
    -- the range would go through the hole, and its loop panics there
    rw [containingAddress_user (v := v) (by omega)] at hiter
    refine iter_hole ?_ ?_ ps hiter
    · unfold lastUser
      omega
    · show 4096 * lastUser ≤ w.val - w.val % 4096
      unfold lastUser
      omega
  have hnat : (BitVec.ofNat 64 a).toNat = a := by
    rw [BitVec.toNat_ofNat, Nat.mod_eq_of_lt hsmall]
  refine ⟨⟨a, hcanonical⟩, VirtAddr.tryNew_eq_some.mpr hnat.symm, ?_⟩
  refine elements_covers (Nat.lt_succ_self _) hiter ?_ ?_
  · show v.val - v.val % 4096 ≤ a - a % 4096
    omega
  · show a - a % 4096 ≤ w.val - w.val % 4096
    omega

-- ================================================================ segments

/-- The bytes read from an image. -/
theorem bytes_ok {img : Image} {n : Nat} :
    ∀ {off : Nat} {bs : List Byte}, img.bytes off n = .ok bs →
      bs.length = n ∧ ∀ i < n, bs[i]? = img.byte (off + i) := by
  induction n with
  | zero =>
      intro off bs h
      obtain rfl := Except.ok.inj h
      exact ⟨rfl, by simp⟩
  | succ n ih =>
      intro off bs h
      obtain ⟨b, hb, h₁⟩ := bind_eq_ok.mp h
      obtain ⟨rest, hrest, h₂⟩ := bind_eq_ok.mp h₁
      obtain rfl := Except.ok.inj h₂
      obtain ⟨hlen, hget⟩ := ih hrest
      refine ⟨congrArg (· + 1) hlen, ?_⟩
      intro i hi
      cases i with
      | zero => exact (expect_ok.mp hb).symm
      | succ i =>
          rw [List.getElem?_cons_succ, hget i (Nat.lt_of_succ_lt_succ hi),
            Nat.add_assoc, Nat.add_comm 1 i]

/-- What a segment is supported for: its bytes are in the lower half, and
its file contents are no longer than it is. -/
structure Loadable (p : Program) : Prop where
  filled : p.pFilesz ≤ p.pMemsz
  pos : 0 < p.pMemsz
  user : p.pVaddr + p.pMemsz ≤ 2 ^ 47

/-- The byte that belongs at offset `i` of a segment. -/
def segmentByte (img : Image) (p : Program) (i : Nat) : Option Byte :=
  if i < p.pFilesz then img.byte (p.pOffset + i) else some 0

/-- The segment is in memory, in full and for the user. -/
def Shows (M : PageMapper PT) (img : Image) (p : Program) (k : State PT) :
    Prop :=
  ∀ i < p.pMemsz,
    some (view M k (BitVec.ofNat 64 (p.pVaddr + i))) = segmentByte img p i
      ∧ ∃ f, mappingAt M k.table (BitVec.ofNat 64 (p.pVaddr + i))
          = some ⟨f, userFlags⟩ ∧ ¬ Free k.frames f

/-- What is shown stays so while other pages are given. -/
theorem Shows.kept {img : Image} {p : Program} {ps : List Page}
    (h : Shows M img p k) (heffect : Effect M ps k k') :
    Shows M img p k' := by
  intro i hi
  obtain ⟨hbyte, f, hmap, htaken⟩ := h i hi
  obtain ⟨hmap', hview⟩ := heffect.seen hmap htaken
  exact ⟨hview.symm ▸ hbyte, f, hmap',
    fun hfree => htaken (heffect.gives.mono f hfree)⟩

theorem add_ofNat (a i : Nat) :
    BitVec.ofNat 64 a + BitVec.ofNat 64 i = BitVec.ofNat 64 (a + i) :=
  (BitVec.ofNat_add ..).symm

/-- The bytes seen after a store, counted from its first address. -/
theorem seen_stored {ps : List Page} {bs : List Byte} {a : Nat}
    (halone : Alone M k.table (addrs ps))
    (h : fillBytes M (BitVec.ofNat 64 a) bs k = .ok ((), k'))
    (hmem : ∀ i < bs.length, BitVec.ofNat 64 (a + i) ∈ addrs ps)
    (hlen : bs.length ≤ 2 ^ 47) {x : Word} (hx : x ∈ addrs ps) :
    view M k' x
      = (bs[(x - BitVec.ofNat 64 a).toNat]?).getD (view M k x) := by
  obtain ⟨hcan, rfl⟩ := fillBytes_ok.mp h
  refine seen_place halone hx (by omega) fun i hi => ⟨?_, hcan i hi⟩
  rw [add_ofNat]
  exact hmem i hi

/-- A segment is stored to twice: the copy, and zeroes behind the file's
contents. Where these fill it there are none. -/
theorem fillSegment_ok {img : Image} {p : Program}
    (h : fillSegment M debug img p k = .ok ((), k')) :
    ∃ bs k₁, img.bytes p.pOffset p.pMemsz = .ok bs
      ∧ fillBytes M (BitVec.ofNat 64 p.pVaddr) bs k = .ok ((), k₁)
      ∧ fillBytes M (BitVec.ofNat 64 (p.pVaddr + p.pFilesz))
          (List.replicate (p.pMemsz - p.pFilesz) 0) k₁ = .ok ((), k') := by
  obtain ⟨src, k₁, hsrc, h₀⟩ := bind_ok.mp h
  obtain ⟨-, rfl⟩ := lift_ok.mp hsrc
  obtain ⟨_, k₂, hcheck, h₁⟩ := bind_ok.mp h₀
  obtain ⟨-, rfl⟩ := lift_ok.mp hcheck
  obtain ⟨bs, k₂, hread, h₂⟩ := bind_ok.mp h₁
  obtain ⟨hbytes, rfl⟩ := lift_ok.mp hread
  obtain ⟨_, k₃, hcopy, h₃⟩ := bind_ok.mp h₂
  refine ⟨bs, k₃, hbytes, hcopy, ?_⟩
  by_cases htail : p.pFilesz < p.pMemsz
  · rw [if_pos htail] at h₃
    obtain ⟨tail, k₄, hend, hzero⟩ := bind_ok.mp h₃
    obtain ⟨hadd, rfl⟩ := lift_ok.mp hend
    obtain ⟨-, rfl⟩ := add_ok.mp hadd
    exact hzero
  · rw [if_neg htail] at h₃
    rw [Nat.sub_eq_zero_of_le (Nat.le_of_not_lt htail)]
    exact h₃

/-- The stores to a segment stay in its pages. -/
theorem fillSegment_writes {img : Image} {p : Program} {ps : List Page}
    (hmem : ∀ i < p.pMemsz, BitVec.ofNat 64 (p.pVaddr + i) ∈ addrs ps)
    (h : fillSegment M debug img p k = .ok ((), k')) : Writes M ps k k' := by
  obtain ⟨bs, k₁, hbytes, hcopy, hzero⟩ := fillSegment_ok h
  obtain ⟨hlen, -⟩ := bytes_ok hbytes
  refine (fillBytes_writes hcopy fun i hi => ?_).trans
    (fillBytes_writes hzero fun i hi => ?_)
  · rw [add_ofNat]
    exact hmem i (hlen ▸ hi)
  · rw [List.length_replicate] at hi
    rw [add_ofNat, Nat.add_assoc]
    exact hmem _ (by omega)

/-- The copy, of all of `p_memsz`. -/
theorem copy_shows {img : Image} {p : Program} {ps : List Page}
    {bs : List Byte} (hp : Loadable p) (halone : Alone M k.table (addrs ps))
    (hmem : ∀ i < p.pMemsz, BitVec.ofNat 64 (p.pVaddr + i) ∈ addrs ps)
    (hbytes : img.bytes p.pOffset p.pMemsz = .ok bs)
    (hcopy : fillBytes M (BitVec.ofNat 64 p.pVaddr) bs k = .ok ((), k')) :
    ∀ i < p.pMemsz, some (view M k' (BitVec.ofNat 64 (p.pVaddr + i)))
      = img.byte (p.pOffset + i) := by
  intro i hi
  have huser := hp.user
  obtain ⟨hlen, hget⟩ := bytes_ok hbytes
  have hoff : (BitVec.ofNat 64 (p.pVaddr + i)
      - BitVec.ofNat 64 p.pVaddr).toNat = i := by bv_omega
  have hsome : bs[i]? = some bs[i] := List.getElem?_eq_getElem (hlen ▸ hi)
  rw [seen_stored halone hcopy (hlen ▸ hmem) (by omega) (hmem i hi), hoff,
    ← hget i hi, hsome]
  rfl

/-- A segment is copied, and the rest of it zeroed. -/
theorem fillSegment_shows {img : Image} {p : Program} {ps : List Page}
    (hp : Loadable p) (halone : Alone M k.table (addrs ps))
    (hmem : ∀ i < p.pMemsz, BitVec.ofNat 64 (p.pVaddr + i) ∈ addrs ps)
    (h : fillSegment M debug img p k = .ok ((), k')) :
    ∀ i < p.pMemsz, some (view M k' (BitVec.ofNat 64 (p.pVaddr + i)))
      = segmentByte img p i := by
  have huser := hp.user
  have hfilled := hp.filled
  obtain ⟨bs, k₁, hbytes, hcopy, hzero⟩ := fillSegment_ok h
  have hcopied := copy_shows hp halone hmem hbytes hcopy
  have htable : k₁.table = k.table := by
    obtain ⟨-, rfl⟩ := fillBytes_ok.mp hcopy
    rfl
  intro i hi
  rw [seen_stored (htable ▸ halone) hzero ?_
    (by rw [List.length_replicate]; omega) (hmem i hi)]
  · unfold segmentByte
    by_cases hi' : i < p.pFilesz
    · -- a byte of the file lies before the zeroes
      have hoff : p.pMemsz - p.pFilesz ≤ (BitVec.ofNat 64 (p.pVaddr + i)
          - BitVec.ofNat 64 (p.pVaddr + p.pFilesz)).toNat := by bv_omega
      rw [List.getElem?_eq_none
        (by rw [List.length_replicate]; exact hoff), if_pos hi']
      exact hcopied i hi
    · have hoff : (BitVec.ofNat 64 (p.pVaddr + i)
          - BitVec.ofNat 64 (p.pVaddr + p.pFilesz)).toNat
          = i - p.pFilesz := by bv_omega
      rw [hoff, List.getElem?_replicate_of_lt (by omega), if_neg hi']
      rfl
  · intro j hj
    rw [List.length_replicate] at hj
    rw [Nat.add_assoc]
    exact hmem _ (by omega)

/-- The pages of a segment, once its loop has got to its end. -/
theorem segmentPages_mem {p : Program} {r : PageRangeInclusive}
    {ps : List Page} (h : segmentPages p = .ok r)
    (hiter : r.iter = ps.map .ok) :
    ∀ i < p.pMemsz, BitVec.ofNat 64 (p.pVaddr + i) ∈ addrs ps := by
  intro i hi
  obtain ⟨stop, hstop, h₁⟩ := bind_eq_ok.mp h
  obtain ⟨hsmall, rfl⟩ := add_ok.mp hstop
  obtain ⟨last, hlast, h₂⟩ := bind_eq_ok.mp h₁
  rw [Usize.sub_eq (by omega)] at hlast
  obtain rfl := Except.ok.inj hlast
  unfold wordSize at hsmall
  exact pagesOf_covers h₂ hiter (by omega) (by omega) (by omega)

section Loading

variable (hlaws : M.Laws BitmapAllocator.allocateFrame)
include hlaws

theorem loadSegment_effect {img : Image} {p : Program}
    (hnum : (numbering k.frames.memoryMap).Nodup)
    (h : loadSegment M debug img p k = .ok (.ok (), k')) :
    ∃ ps, Effect M ps k k' ∧ (Loadable p → Shows M img p k') := by
  obtain ⟨r, k₁, hpages, h₁⟩ := bind_ok.mp h
  obtain ⟨hr, rfl⟩ := lift_ok.mp hpages
  obtain ⟨k₂, hmap, h₂⟩ := andThen_ok.mp h₁
  obtain ⟨ps, s, hiter, hfresh, rfl⟩ := mapPages_ok.mp hmap
  obtain ⟨_, k₃, hfill, h₃⟩ := bind_ok.mp h₂
  obtain ⟨-, rfl⟩ := pure_ok.mp h₃
  have hgives := hfresh.gives hlaws hnum
  have hmem := segmentPages_mem hr hiter
  have heffect :=
    Effect.ofWrites hfresh hgives (fillSegment_writes hmem hfill)
  refine ⟨ps, heffect, fun hp i hi => ?_⟩
  exact ⟨fillSegment_shows hp (alone_addrs hgives.distinct) hmem hfill i hi,
    heffect.given (hmem i hi)⟩

/-- The segments among `n` program headers from `off` on are in memory
once the loop over them has got to its end. -/
theorem loadPrograms_effect {img : Image} {n : Nat} :
    ∀ {off : Nat} {k : State PT},
      (numbering k.frames.memoryMap).Nodup →
      loadPrograms M debug img off n k = .ok (.ok (), k') →
      ∃ ps, Effect M ps k k'
        ∧ ∀ i < n, ∀ p, img.pType (off + programSize * i) = .ok 1 →
          img.program (off + programSize * i) = .ok p → Loadable p →
            Shows M img p k' := by
  induction n with
  | zero =>
      intro off k _ h
      obtain ⟨-, rfl⟩ := pure_ok.mp h
      exact ⟨[], Effect.nil _, by simp⟩
  | succ n ih =>
      intro off k hnum h
      obtain ⟨type, k₁, hread, h₁⟩ := bind_ok.mp h
      obtain ⟨htype, rfl⟩ := lift_ok.mp hread
      obtain ⟨k₂, hone, hrest⟩ := andThen_ok.mp h₁
      -- the first header, and then the others
      have hfirst : ∃ ps, Effect M ps k₁ k₂
          ∧ ∀ p, img.pType off = .ok 1 → img.program off = .ok p →
            Loadable p → Shows M img p k₂ := by
        by_cases hload : type = 1
        · subst hload
          rw [if_pos rfl] at hone
          obtain ⟨p, k₃, hfields, hload⟩ := bind_ok.mp hone
          obtain ⟨hprog, rfl⟩ := lift_ok.mp hfields
          obtain ⟨ps, heffect, hshows⟩ := loadSegment_effect hlaws hnum hload
          refine ⟨ps, heffect, fun q _ hq => ?_⟩
          obtain rfl := Except.ok.inj (hprog.symm.trans hq)
          exact hshows
        · rw [if_neg hload] at hone
          obtain ⟨-, rfl⟩ := pure_ok.mp hone
          refine ⟨[], Effect.nil _, fun q hq _ => ?_⟩
          exact absurd (Except.ok.inj (htype.symm.trans hq)) hload
      have hshift : ∀ i, off + programSize + programSize * i
          = off + programSize * (i + 1) := by
        intro i
        rw [Nat.mul_succ]
        omega
      obtain ⟨ps, heffect, hshows⟩ := hfirst
      have hmap : k₂.frames.memoryMap = k₁.frames.memoryMap :=
        heffect.gives.map
      obtain ⟨qs, heffect', hshows'⟩ := ih (hmap ▸ hnum) hrest
      refine ⟨ps ++ qs, heffect.append heffect', ?_⟩
      intro i hi p htypei hprogi hp
      cases i with
      | zero => exact (hshows p htypei hprogi hp).kept heffect'
      | succ i =>
          rw [← hshift] at htypei hprogi
          exact hshows' i (Nat.lt_of_succ_lt_succ hi) p htypei hprogi hp

end Loading

end Bayos.Kernel
