/-
The loader, segment by segment, and when it gets to its end.

# A list of segments

`add_user_process` reads the program headers one by one, between the
segments it loads. Nothing writes to the ramdisk, so it could as well
have read them all at first: `Image.segments` is the list of the headers
of type `PT_LOAD`, and the loop over the headers is `loadList` over that
list (`loadPrograms_eq`).

# Getting to the end

Whether a segment can be loaded depends on the page table, the frames
and the image, not on memory: its pages are to be mapped, and it is to be
copied from readable bytes (`loadSegment_exists_iff`). For
several segments the pages are those of all of them, one after another
(`loadList_exists_iff`), and in the end the stack's
(`addUserProcess_exists_iff`).
-/
import Bayos.Proofs.Image

namespace Bayos.Kernel

open Rust
open Lib (Word)
open Lib.Paging
open Bayos.Memory
open Bayos.Sched (MapperId userStack)

variable {PT α β : Type} {M : PageMapper PT} {k k' : State PT}
  {s : Space PT} {img : Image} {p : Program} {ps : List Program}
  {pages : List Page} {rflags : Word} {debug : Bool}

-- ============================================================= only stores

/-- The call changes nothing but memory. -/
def OnlyStores (x : KernelM PT α) : Prop :=
  ∀ (k k' : State PT) (a : α), x k = .ok (a, k') →
    k' = { k with phys := k'.phys }

namespace OnlyStores

theorem pure (a : α) : OnlyStores (pure a : KernelM PT α) := by
  intro k k' b h
  obtain ⟨-, rfl⟩ := pure_ok.mp h
  rfl

theorem lift (x : Except Panic α) : OnlyStores (lift x : KernelM PT α) := by
  intro k k' a h
  obtain ⟨-, rfl⟩ := lift_ok.mp h
  rfl

theorem bind {x : KernelM PT α} {f : α → KernelM PT β} (hx : OnlyStores x)
    (hf : ∀ a, OnlyStores (f a)) : OnlyStores (x >>= f) := by
  intro k k' b h
  obtain ⟨a, k₁, hfirst, hthen⟩ := bind_ok.mp h
  rw [hf a k₁ k' b hthen, hx k k₁ a hfirst]

theorem fillBytes (a : Word) (bs : List Byte) :
    OnlyStores (fillBytes M a bs) := by
  intro k k' _ h
  obtain ⟨-, rfl⟩ := fillBytes_ok.mp h
  rfl

theorem fillValue (a : Word) {w : Nat} (v : BitVec w) :
    OnlyStores (fillValue M a v) :=
  fillBytes a (bytesOfValue v)

theorem fillSegment (debug : Bool) (img : Image) (p : Program) :
    OnlyStores (fillSegment M debug img p) := by
  refine (lift _).bind fun _ => (lift _).bind fun _ => (lift _).bind
    fun _ => (fillBytes _ _).bind fun _ => ?_
  split
  · exact (lift _).bind fun _ => fillBytes _ _
  · exact pure ()

theorem fillFrame (a : Word) (f : Timer.InterruptStackFrameValue) :
    OnlyStores (fillFrame M a f) :=
  (fillValue _ _).bind fun _ => (fillValue _ _).bind fun _ =>
    (fillValue _ _).bind fun _ => (fillValue _ _).bind fun _ =>
      fillValue _ _

end OnlyStores

-- ============================================================ the segments

namespace Image

/-- The headers of type `PT_LOAD` among `n` from `off` on. -/
def loads (img : Image) (off : Nat) : Nat → Except Panic (List Program)
  | 0 => pure []
  | n + 1 => do
      let type ← img.pType off
      if type = 1 then do
        let p ← img.program off
        let ps ← img.loads (off + programSize) n
        pure (p :: ps)
      else img.loads (off + programSize) n

/-- The headers of type `PT_LOAD` of the image. -/
def segments (img : Image) : Except Panic (List Program) := do
  let phoff ← img.ePhoff
  let phnum ← img.ePhnum
  img.loads phoff phnum

end Image

/-- An ELF file of `L` bytes that is in memory in full, and its segments
of type `PT_LOAD`: the header, the program headers and the contents of
the segments lie in the file, and no contents are longer than their
segment. -/
structure Image.Holds (img : Image) (L : Nat) (ps : List Program) : Prop where
  fits : img.efi + L < wordSize
  bytes : ∀ o < L, (img.byte o).isSome
  header : 64 ≤ L
  table : ∃ phoff phnum, img.ePhoff = .ok phoff ∧ img.ePhnum = .ok phnum
    ∧ phoff + programSize * phnum ≤ L
  segments : img.segments = .ok ps
  contents : ∀ p ∈ ps, p.pFilesz = 0 ∨ p.pOffset + p.pFilesz ≤ L
  filled : ∀ p ∈ ps, p.pFilesz ≤ p.pMemsz

/-- The segments of a list, one after another. -/
def loadList (M : PageMapper PT) (debug : Bool) (img : Image) :
    List Program → KernelM PT Loaded
  | [] => pure (.ok ())
  | p :: ps => andThen (loadSegment M debug img p) (loadList M debug img ps)

/-- A step that does not panic, before others. -/
theorem lift_bind {x : Except Panic α} {a : α} (h : x = .ok a)
    (f : α → KernelM PT β) : (lift x >>= f) = f a := by
  rw [h]
  rfl

/-- The loop over the program headers, as a loop over the segments. -/
theorem loadPrograms_eq {n : Nat} :
    ∀ {off : Nat} {ps : List Program}, img.loads off n = .ok ps →
      loadPrograms M debug img off n = loadList M debug img ps := by
  induction n with
  | zero =>
      intro off ps h
      cases h
      rfl
  | succ n ih =>
      intro off ps h
      obtain ⟨type, htype, h₁⟩ := bind_eq_ok.mp h
      rw [loadPrograms, lift_bind htype]
      by_cases hload : type = 1
      · rw [if_pos hload] at h₁ ⊢
        obtain ⟨p, hp, h₂⟩ := bind_eq_ok.mp h₁
        obtain ⟨rest, hrest, h₃⟩ := bind_eq_ok.mp h₂
        obtain rfl := Except.ok.inj h₃
        rw [lift_bind hp, ih hrest]
        rfl
      · rw [if_neg hload] at h₁ ⊢
        rw [ih h₁]
        rfl

-- =============================================================== the pages

/-- The pages of a range, if its loop gets through them. -/
def pagesIn (range : Except Panic PageRangeInclusive) :
    Except Panic (List Page) := do
  let range ← range
  range.iter.mapM id

/-- The pages of a segment. -/
def eachPage (p : Program) : Except Panic (List Page) :=
  pagesIn (segmentPages p)

/-- The pages of several segments. -/
def allPages : List Program → Except Panic (List Page)
  | [] => pure []
  | p :: ps => do
      let pages ← eachPage p
      let rest ← allPages ps
      pure (pages ++ rest)

/-- The frames that pages need, and the tables on the way to them that
are missing. -/
def framesFor (M : PageMapper PT) (table : PT) (pages : List Page) : Nat :=
  pages.length + (missingTables M table pages).card

theorem mapM_id_ok {es : List (Except Panic α)} :
    ∀ {as : List α}, es.mapM id = .ok as ↔ es = as.map .ok := by
  induction es with
  | nil =>
      intro as
      rw [List.mapM_nil, pure_eq_ok, Except.ok.injEq]
      constructor
      · intro h
        subst h
        rfl
      · intro h
        exact (List.map_eq_nil_iff.mp h.symm).symm
  | cons e es ih =>
      intro as
      rw [List.mapM_cons]
      constructor
      · intro h
        obtain ⟨a, ha, h₁⟩ := bind_eq_ok.mp h
        obtain ⟨rest, hrest, h₂⟩ := bind_eq_ok.mp h₁
        obtain rfl := Except.ok.inj h₂
        rw [ih.mp hrest, List.map_cons, ← show e = .ok a from ha]
      · intro h
        cases as with
        | nil => cases h
        | cons a rest =>
            rw [List.map_cons, List.cons.injEq] at h
            refine bind_eq_ok.mpr ⟨a, h.1, ?_⟩
            exact bind_eq_ok.mpr ⟨rest, ih.mpr h.2, rfl⟩

theorem pagesIn_ok {range : Except Panic PageRangeInclusive} :
    pagesIn range = .ok pages
      ↔ ∃ r, range = .ok r ∧ r.iter = pages.map .ok := by
  unfold pagesIn
  rw [bind_eq_ok]
  simp only [mapM_id_ok]

theorem pagesIn_stack :
    pagesIn (pagesOf (0x200000 - 0x5000) (0x200000 - 1))
      = .ok stackPages := by
  rfl

/-- What the loader does with a segment and with the stack: pages for a
range, and then stores to them. -/
def mapThen (M : PageMapper PT) (range : Except Panic PageRangeInclusive)
    (fill : KernelM PT Loaded) : KernelM PT Loaded := do
  let range ← lift range
  andThen (mapPages M range.iter) fill

theorem mapThen_ok {range : Except Panic PageRangeInclusive}
    {fill : KernelM PT Loaded} :
    mapThen M range fill k = .ok (.ok (), k')
      ↔ ∃ pages s, pagesIn range = .ok pages
        ∧ FreshPages M pages k.space s
        ∧ fill (k.inSpace s) = .ok (.ok (), k') := by
  constructor
  · intro h
    obtain ⟨r, k₁, hrange, h₁⟩ := bind_ok.mp h
    obtain ⟨hr, rfl⟩ := lift_ok.mp hrange
    obtain ⟨k₂, hmap, hfill⟩ := andThen_ok.mp h₁
    obtain ⟨pages, s, hiter, hfresh, rfl⟩ := mapPages_ok.mp hmap
    exact ⟨pages, s, pagesIn_ok.mpr ⟨r, hr, hiter⟩, hfresh, hfill⟩
  · intro h
    obtain ⟨pages, s, hpages, hfresh, hfill⟩ := h
    obtain ⟨r, hr, hiter⟩ := pagesIn_ok.mp hpages
    unfold mapThen
    rw [lift_bind hr]
    exact andThen_ok.mpr ⟨k.inSpace s,
      mapPages_ok.mpr ⟨pages, s, hiter, hfresh, rfl⟩, hfill⟩

/-- Stores change nothing that a later page depends on, nor the table of
processes. -/
theorem mapThen_rest {range : Except Panic PageRangeInclusive}
    {fill : KernelM PT Loaded} (hfill : OnlyStores fill)
    (h : mapThen M range fill k = .ok (.ok (), k')) :
    k'.sched = k.sched ∧ ∃ pages, pagesIn range = .ok pages
      ∧ FreshPages M pages k.space k'.space := by
  obtain ⟨pages, s, hpages, hfresh, hdone⟩ := mapThen_ok.mp h
  have hrest := hfill _ _ _ hdone
  have hspace : k'.space = s := by
    rw [hrest]
    rfl
  refine ⟨?_, pages, hpages, hspace ▸ hfresh⟩
  rw [hrest]
  rfl

/-- A segment's pages hold all its bytes. -/
theorem eachPage_mem (h : eachPage p = .ok pages) :
    ∀ i < p.pMemsz, BitVec.ofNat 64 (p.pVaddr + i) ∈ addrs pages := by
  obtain ⟨range, hrange, hiter⟩ := pagesIn_ok.mp h
  exact segmentPages_mem hrange hiter

/-- Nor does its end overflow. -/
theorem eachPage_end (h : eachPage p = .ok pages) :
    p.pVaddr + p.pMemsz < wordSize := by
  obtain ⟨range, hrange, -⟩ := pagesIn_ok.mp h
  obtain ⟨stop, hstop, -⟩ := bind_eq_ok.mp hrange
  exact (add_ok.mp hstop).1

-- ============================================================== the fields

theorem bytes_exists {n : Nat} :
    ∀ {off : Nat}, (∃ bs, img.bytes off n = .ok bs)
      ↔ ∀ i < n, (img.byte (off + i)).isSome := by
  induction n with
  | zero =>
      intro off
      exact ⟨fun _ i hi => absurd hi (Nat.not_lt_zero i), fun _ => ⟨[], rfl⟩⟩
  | succ n ih =>
      intro off
      have hshift : ∀ i, off + 1 + i = off + (i + 1) := by
        intro i
        omega
      constructor
      · intro h
        obtain ⟨bs, hbs⟩ := h
        obtain ⟨b, hb, h₁⟩ := bind_eq_ok.mp hbs
        obtain ⟨rest, hrest, -⟩ := bind_eq_ok.mp h₁
        intro i hi
        cases i with
        | zero => exact Option.isSome_iff_exists.mpr ⟨b, expect_ok.mp hb⟩
        | succ i =>
            rw [← hshift]
            exact ih.mp ⟨rest, hrest⟩ i (Nat.lt_of_succ_lt_succ hi)
      · intro h
        obtain ⟨b, hb⟩ := Option.isSome_iff_exists.mp (h 0 (by omega))
        obtain ⟨rest, hrest⟩ := ih.mpr fun i hi => by
          rw [hshift]
          exact h (i + 1) (by omega)
        refine ⟨b :: rest, bind_eq_ok.mpr ⟨b, expect_ok.mpr hb, ?_⟩⟩
        exact bind_eq_ok.mpr ⟨rest, hrest, rfl⟩

-- =========================================================== a single load

/-- A build with debug assertions lets so many bytes be copied. -/
def MayCopy (debug : Bool) (src dst count : Nat) : Prop :=
  debug = true → count ≠ 0 →
    src ≠ 0 ∧ dst ≠ 0 ∧ count ≤ (src - dst) + (dst - src)

theorem checkCopy_ok {src dst count : Nat} :
    checkCopy debug src dst count = .ok ()
      ↔ MayCopy debug src dst count := by
  unfold checkCopy MayCopy
  cases debug with
  | false => simp
  | true =>
      split
      · next h =>
          simp only [reduceCtorEq, false_iff]
          intro hcopy
          have := hcopy trivial h.2.1
          omega
      · next h =>
          simp only [true_iff]
          intro _ hcount
          by_contra hnot
          exact h ⟨rfl, hcount, by omega⟩

theorem checkNull_ok {addr : Nat} :
    checkNull debug addr = .ok () ↔ (debug = true → addr ≠ 0) := by
  unfold checkNull
  cases debug with
  | false => simp
  | true =>
      by_cases haddr : addr = 0
      · simp [haddr]
      · simp [haddr]

/-- A segment can be copied: the bytes for it can be read, and a build
with debug assertions finds nothing wrong with the pointers. -/
structure Readable (debug : Bool) (img : Image) (p : Program) : Prop where
  source : img.efi + p.pOffset < wordSize
  pointers : MayCopy debug (img.efi + p.pOffset) p.pVaddr p.pMemsz
  bytes : ∀ i < p.pMemsz, (img.byte (p.pOffset + i)).isSome

/-- A store where the kernel may write. -/
theorem fillBytes_exists (a : Word) (bs : List Byte)
    (h : ∀ i < bs.length, CanStore M k.table (a + BitVec.ofNat 64 i)) :
    ∃ k', fillBytes M a bs k = .ok ((), k') ∧ k'.table = k.table :=
  ⟨_, fillBytes_ok.mpr ⟨h, rfl⟩, rfl⟩

section Laws

variable (hlaws : M.Laws BitmapAllocator.allocateFrame)
include hlaws

/-- The kernel may write to pages that have just been mapped. -/
theorem FreshPages.canStore {s s' : Space PT} (h : FreshPages M pages s s')
    {a : Word} (ha : a ∈ addrs pages) : CanStore M s'.1 a := by
  obtain ⟨v, hv, hp⟩ := ha
  obtain ⟨f, hf⟩ := (h.translate hlaws).1 _ hp
  have hflags : userFlags.contains (present ||| writable) = true := by decide
  exact ⟨_, (mappingAt_eq hv).trans hf, hflags⟩

/-- A segment whose pages are mapped is filled exactly when it can be
copied. -/
theorem fillSegment_exists_iff {s₀ : Space PT}
    (hpages : eachPage p = .ok pages)
    (hfresh : FreshPages M pages s₀ k.space) :
    (∃ k', fillSegment M debug img p k = .ok ((), k'))
      ↔ Readable debug img p := by
  have hcan : ∀ i < p.pMemsz,
      CanStore M k.table (BitVec.ofNat 64 (p.pVaddr + i)) :=
    fun i hi => hfresh.canStore hlaws (eachPage_mem hpages i hi)
  have hend := eachPage_end hpages
  constructor
  · intro h
    obtain ⟨k', hfill⟩ := h
    obtain ⟨_, k₁, hsum, h₁⟩ := bind_ok.mp hfill
    obtain ⟨hsource, rfl⟩ := lift_ok.mp hsum
    obtain ⟨hle, rfl⟩ := add_ok.mp hsource
    obtain ⟨_, k₂, hcheck, h₂⟩ := bind_ok.mp h₁
    obtain ⟨hpointers, rfl⟩ := lift_ok.mp hcheck
    obtain ⟨bs, k₃, hread, -⟩ := bind_ok.mp h₂
    obtain ⟨hbytes, rfl⟩ := lift_ok.mp hread
    exact ⟨hle, checkCopy_ok.mp hpointers, bytes_exists.mp ⟨bs, hbytes⟩⟩
  · intro h
    obtain ⟨bs, hbytes⟩ := bytes_exists.mpr h.bytes
    have hlen := (bytes_ok hbytes).1
    obtain ⟨k₁, hcopy, htable⟩ := fillBytes_exists (k := k)
      (BitVec.ofNat 64 p.pVaddr) bs fun i hi => by
        rw [add_ofNat]
        exact hcan i (hlen ▸ hi)
    unfold fillSegment
    rw [lift_bind (Usize.add_eq h.source),
      lift_bind (checkCopy_ok.mpr h.pointers), lift_bind hbytes]
    by_cases htail : p.pFilesz < p.pMemsz
    · rw [if_pos htail, lift_bind (Usize.add_eq (by omega))]
      obtain ⟨k₂, hzero, -⟩ := fillBytes_exists (k := k₁)
        (BitVec.ofNat 64 (p.pVaddr + p.pFilesz))
        (List.replicate (p.pMemsz - p.pFilesz) 0) fun i hi => by
          rw [List.length_replicate] at hi
          rw [htable, add_ofNat, Nat.add_assoc]
          exact hcan _ (by omega)
      exact ⟨k₂, bind_ok.mpr ⟨(), k₁, hcopy, hzero⟩⟩
    · rw [if_neg htail]
      exact ⟨k₁, bind_ok.mpr ⟨(), k₁, hcopy, rfl⟩⟩

omit hlaws in
theorem loadSegment_eq (M : PageMapper PT) (img : Image) (p : Program) :
    loadSegment M debug img p = mapThen M (segmentPages p) (do
      fillSegment M debug img p
      pure (.ok ())) := rfl

omit hlaws in
theorem onlyStores_filled (debug : Bool) (img : Image) (p : Program) :
    OnlyStores (do
      fillSegment M debug img p
      pure (.ok ()) : KernelM PT Loaded) :=
  (OnlyStores.fillSegment debug img p).bind fun _ => .pure _

/-- A segment is loaded exactly when its pages can be mapped and it can be
copied. -/
theorem loadSegment_exists_iff :
    (∃ k', loadSegment M debug img p k = .ok (.ok (), k') ∧ k'.space = s)
      ↔ Readable debug img p
        ∧ ∃ pages, eachPage p = .ok pages ∧ FreshPages M pages k.space s := by
  rw [loadSegment_eq]
  constructor
  · intro h
    obtain ⟨k', hload, rfl⟩ := h
    obtain ⟨pages, s, hpages, hfresh, hdone⟩ := mapThen_ok.mp hload
    obtain ⟨-, hrest⟩ := mapThen_rest (onlyStores_filled debug img p) hload
    obtain ⟨_, k₃, hfill, h₃⟩ := bind_ok.mp hdone
    refine ⟨?_, hrest⟩
    exact (fillSegment_exists_iff (k := k.inSpace s) hlaws hpages hfresh).mp
      ⟨k₃, hfill⟩
  · intro h
    obtain ⟨hreadable, pages, hpages, hfresh⟩ := h
    obtain ⟨k', hfill⟩ := (fillSegment_exists_iff (k := k.inSpace s) hlaws
      hpages hfresh).mpr hreadable
    refine ⟨k', mapThen_ok.mpr ⟨pages, s, hpages, hfresh,
      bind_ok.mpr ⟨(), k', hfill, rfl⟩⟩, ?_⟩
    rw [OnlyStores.fillSegment _ _ _ _ _ _ hfill]
    rfl

-- ======================================================== several segments

/-- Segments are loaded exactly when the pages of all of them can be
mapped, one after another, and all of them can be copied. -/
theorem loadList_exists_iff : ∀ {k : State PT},
    (∃ k', loadList M debug img ps k = .ok (.ok (), k') ∧ k'.space = s)
      ↔ (∀ p ∈ ps, Readable debug img p)
        ∧ ∃ pages, allPages ps = .ok pages
          ∧ FreshPages M pages k.space s := by
  induction ps with
  | nil =>
      intro k
      constructor
      · intro h
        obtain ⟨k', hload, rfl⟩ := h
        obtain ⟨-, rfl⟩ := pure_ok.mp hload
        exact ⟨by simp, [], rfl, .nil⟩
      · intro h
        obtain ⟨-, pages, hpages, hfresh⟩ := h
        obtain rfl := Except.ok.inj hpages
        cases hfresh
        exact ⟨k, rfl, rfl⟩
  | cons p ps ih =>
      intro k
      constructor
      · intro h
        obtain ⟨k', hload, rfl⟩ := h
        obtain ⟨k₁, hone, hrest⟩ := andThen_ok.mp hload
        obtain ⟨hp, pages, hpages, hfresh⟩ :=
          (loadSegment_exists_iff hlaws).mp ⟨k₁, hone, rfl⟩
        obtain ⟨hps, rest, hrest, hfresh'⟩ := ih.mp ⟨k', hrest, rfl⟩
        refine ⟨List.forall_mem_cons.mpr ⟨hp, hps⟩, pages ++ rest, ?_,
          hfresh.append hfresh'⟩
        exact bind_eq_ok.mpr ⟨pages, hpages,
          bind_eq_ok.mpr ⟨rest, hrest, rfl⟩⟩
      · intro h
        obtain ⟨hall, all, hpages, hfresh⟩ := h
        obtain ⟨hp, hps⟩ := List.forall_mem_cons.mp hall
        obtain ⟨pages, hfirst, h₁⟩ := bind_eq_ok.mp hpages
        obtain ⟨rest, hrest, h₂⟩ := bind_eq_ok.mp h₁
        obtain rfl := Except.ok.inj h₂
        obtain ⟨s₁, hfresh₁, hfresh₂⟩ := freshPages_append.mp hfresh
        obtain ⟨k₁, hone, rfl⟩ := (loadSegment_exists_iff hlaws).mpr
          ⟨hp, pages, hfirst, hfresh₁⟩
        obtain ⟨k', hload, rfl⟩ := ih.mpr ⟨hps, rest, hrest, hfresh₂⟩
        exact ⟨k', andThen_ok.mpr ⟨k₁, hone, hload⟩, rfl⟩

omit hlaws in
/-- The table of processes is not looked at. -/
theorem loadList_sched : ∀ {k : State PT},
    loadList M debug img ps k = .ok (.ok (), k') → k'.sched = k.sched := by
  induction ps with
  | nil =>
      intro k h
      obtain ⟨-, rfl⟩ := pure_ok.mp h
      rfl
  | cons p ps ih =>
      intro k h
      obtain ⟨k₁, hone, hrest⟩ := andThen_ok.mp h
      rw [loadSegment_eq] at hone
      exact (ih hrest).trans
        (mapThen_rest (onlyStores_filled debug img p) hone).1

-- =============================================================== the stack

/-- What is stored to the pages of the stack. -/
def fillStack (M : PageMapper PT) (img : Image) (rflags : Word) :
    KernelM PT Loaded := do
  let entry ← lift img.eEntry
  let entry ← lift (VirtAddr.new entry)
  fillFrame M (userStack + 120 + 8)
    (Timer.userFrame (BitVec.ofNat 64 entry.val) rflags)
  fillValue M userStack userStack
  pure (.ok ())

omit hlaws in
theorem loadStack_eq (M : PageMapper PT) (img : Image) (rflags : Word) :
    loadStack M img rflags
      = mapThen M (pagesOf (0x200000 - 0x5000) (0x200000 - 1))
          (fillStack M img rflags) := rfl

omit hlaws in
theorem onlyStores_fillStack (img : Image) (rflags : Word) :
    OnlyStores (fillStack M img rflags) :=
  (OnlyStores.lift _).bind fun _ => (OnlyStores.lift _).bind fun _ =>
    (OnlyStores.fillFrame _ _).bind fun _ =>
      (OnlyStores.fillValue _ _).bind fun _ => .pure _

omit hlaws in
theorem fillValue_exists {a : Word} {w : Nat} (v : BitVec w)
    (h : ∀ i < Lib.bytesOf w, CanStore M k.table (a + BitVec.ofNat 64 i)) :
    ∃ k', fillValue M a v k = .ok ((), k') ∧ k'.table = k.table := by
  refine fillBytes_exists a _ ?_
  rw [length_bytesOfValue]
  exact h

omit hlaws in
/-- The stores to the stack, where the kernel may write to it. -/
theorem storeStack_exists (f : Timer.InterruptStackFrameValue)
    (h : ∀ x ∈ addrs stackPages, CanStore M k.table x) :
    ∃ k₁ k', fillFrame M (userStack + 120 + 8) f k = .ok ((), k₁)
      ∧ fillValue M userStack userStack k₁ = .ok ((), k') := by
  have hcan : ∀ {a : Word} (j : Nat) {w : Nat},
      a = userStack + BitVec.ofNat 64 j → j + Lib.bytesOf w ≤ 0x4000 →
      ∀ i < Lib.bytesOf w, CanStore M k.table (a + BitVec.ofNat 64 i) := by
    intro a j w ha hj i hi
    refine h _ (stack_mem ?_)
    subst ha
    rw [BitVec.add_assoc, ← BitVec.ofNat_add]
    exact Lib.add_mem_region (by omega) (by decide)
  obtain ⟨k₁, h₁, ht₁⟩ := fillValue_exists f.instructionPointer
    (hcan 128 rfl (by decide))
  obtain ⟨k₂, h₂, ht₂⟩ := fillValue_exists (k := k₁) f.codeSegment
    (ht₁ ▸ hcan 136 rfl (by decide))
  obtain ⟨k₃, h₃, ht₃⟩ := fillValue_exists (k := k₂) f.cpuFlags
    (ht₂ ▸ ht₁ ▸ hcan 144 rfl (by decide))
  obtain ⟨k₄, h₄, ht₄⟩ := fillValue_exists (k := k₃) f.stackPointer
    (ht₃ ▸ ht₂ ▸ ht₁ ▸ hcan 152 rfl (by decide))
  obtain ⟨k₅, h₅, ht₅⟩ := fillValue_exists (k := k₄) f.stackSegment
    (ht₄ ▸ ht₃ ▸ ht₂ ▸ ht₁ ▸ hcan 160 rfl (by decide))
  obtain ⟨k₆, h₆, -⟩ := fillValue_exists (k := k₅) userStack
    (ht₅ ▸ ht₄ ▸ ht₃ ▸ ht₂ ▸ ht₁ ▸ hcan 0 rfl (by decide))
  exact ⟨k₅, k₆, bind_ok.mpr ⟨(), k₁, h₁, bind_ok.mpr ⟨(), k₂, h₂,
    bind_ok.mpr ⟨(), k₃, h₃, bind_ok.mpr ⟨(), k₄, h₄, h₅⟩⟩⟩⟩, h₆⟩

omit hlaws in
theorem loadStack_sched
    (h : loadStack M img rflags k = .ok (.ok (), k')) :
    k'.sched = k.sched := by
  rw [loadStack_eq] at h
  exact (mapThen_rest (onlyStores_fillStack img rflags) h).1

/-- The stack is set up exactly when its pages can be mapped and the
entry point is an address. -/
theorem loadStack_exists_iff (rflags : Word) :
    (∃ k', loadStack M img rflags k = .ok (.ok (), k') ∧ k'.space = s)
      ↔ FreshPages M stackPages k.space s
        ∧ ∃ entry, img.eEntry = .ok entry ∧ IsCanonical entry := by
  rw [loadStack_eq]
  constructor
  · intro h
    obtain ⟨k', hload, rfl⟩ := h
    obtain ⟨-, pages, hpages, hfresh⟩ :=
      mapThen_rest (onlyStores_fillStack img rflags) hload
    obtain rfl := Except.ok.inj (hpages.symm.trans pagesIn_stack)
    obtain ⟨_, _, -, -, hdone⟩ := mapThen_ok.mp hload
    obtain ⟨entry, k₁, hread, h₁⟩ := bind_ok.mp hdone
    obtain ⟨hentry, -⟩ := lift_ok.mp hread
    obtain ⟨v, k₂, hvirt, -⟩ := bind_ok.mp h₁
    obtain ⟨hv, -⟩ := lift_ok.mp hvirt
    refine ⟨hfresh, entry, hentry, ?_⟩
    rw [← VirtAddr.new_eq.mp hv]
    exact v.canonical
  · intro h
    obtain ⟨hfresh, entry, hentry, hcanonical⟩ := h
    obtain ⟨k₁, k', hframe, htcb⟩ := storeStack_exists (k := k.inSpace s)
      (Timer.userFrame (BitVec.ofNat 64 entry) rflags)
      fun x hx => hfresh.canStore hlaws hx
    have hdone : fillStack M img rflags (k.inSpace s)
        = .ok (.ok (), k') := by
      have hnew : VirtAddr.new entry = .ok ⟨entry, hcanonical⟩ :=
        VirtAddr.new_eq.mpr rfl
      unfold fillStack
      rw [lift_bind hentry, lift_bind hnew]
      exact bind_ok.mpr ⟨(), k₁, hframe, bind_ok.mpr ⟨(), k', htcb, rfl⟩⟩
    refine ⟨k', mapThen_ok.mpr ⟨_, s, pagesIn_stack, hfresh, hdone⟩, ?_⟩
    rw [onlyStores_fillStack _ _ _ _ _ hdone]
    rfl

-- ========================================================== the whole call

omit hlaws in
theorem loadSegments_eq {phoff : Nat}
    (hnull : debug = true → img.efi ≠ 0) (hphoff : img.ePhoff = .ok phoff)
    (hsum : img.efi + phoff < wordSize) (hps : img.segments = .ok ps) :
    loadSegments M debug img = loadList M debug img ps := by
  obtain ⟨phoff', hphoff', h₁⟩ := bind_eq_ok.mp hps
  obtain rfl := Except.ok.inj (hphoff.symm.trans hphoff')
  obtain ⟨phnum, hphnum, hloads⟩ := bind_eq_ok.mp h₁
  unfold loadSegments
  rw [lift_bind (checkNull_ok.mpr hnull), lift_bind hphoff,
    lift_bind (Usize.add_eq hsum), lift_bind hphnum]
  exact loadPrograms_eq hloads

/-- No lock that the loader takes is held. -/
structure Unlocked (k : State PT) : Prop where
  mapper : k.mapperHeld = false
  frames : k.framesHeld = false
  list : k.sched.listHeld = false

/-- A program is loaded exactly when the loader finds its locks free, the
segments can be copied, all pages can be mapped and the entry point is an
address. -/
theorem addUserProcess_exists_iff {phoff : Nat} {mapper : MapperId}
    (hphoff : img.ePhoff = .ok phoff) (hsum : img.efi + phoff < wordSize)
    (hps : img.segments = .ok ps) :
    (∃ k', addUserProcess M debug img mapper rflags k = .ok (.ok (), k'))
      ↔ Unlocked k ∧ (debug = true → img.efi ≠ 0)
        ∧ (∀ p ∈ ps, Readable debug img p)
        ∧ (∃ pages s, allPages ps = .ok pages
          ∧ FreshPages M (pages ++ stackPages) k.space s)
        ∧ ∃ entry, img.eEntry = .ok entry ∧ IsCanonical entry := by
  have hsegs : ∀ hnull : debug = true → img.efi ≠ 0,
      loadSegments M debug img = _ := fun hnull =>
    loadSegments_eq hnull hphoff hsum hps
  constructor
  · intro h
    obtain ⟨k', hload⟩ := h
    obtain ⟨hm, k₁, h₁, -⟩ := withMapper_ok.mp hload
    obtain ⟨hf, k₂, h₂, -⟩ := withFrames_ok.mp h₁
    obtain ⟨mid, hlist, h₃⟩ := andThen_ok.mp h₂
    obtain ⟨last, hstack, h₄⟩ := andThen_ok.mp h₃
    obtain ⟨_, k₅, hpush, -⟩ := bind_ok.mp h₄
    -- the header is read first of all
    have hnull : debug = true → img.efi ≠ 0 := by
      obtain ⟨_, _, hcheck, -⟩ := bind_ok.mp hlist
      exact checkNull_ok.mp (lift_ok.mp hcheck).1
    rw [hsegs hnull] at hlist
    obtain ⟨hreadable, pages, hpages, hfresh⟩ :=
      (loadList_exists_iff hlaws).mp ⟨mid, hlist, rfl⟩
    obtain ⟨hfresh', hentry⟩ :=
      (loadStack_exists_iff hlaws rflags).mp ⟨last, hstack, rfl⟩
    have hsched : last.sched = k.sched := by
      rw [loadStack_sched hstack, loadList_sched hlist]
    exact ⟨⟨hm, hf, hsched ▸ (pushProcess_ok.mp hpush).1⟩, hnull, hreadable,
      ⟨pages, last.space, hpages, hfresh.append hfresh'⟩, hentry⟩
  · intro h
    obtain ⟨hunlocked, hnull, hreadable, ⟨pages, s, hpages, hall⟩,
      hentry⟩ := h
    obtain ⟨s₁, hfresh, hfresh'⟩ := freshPages_append.mp hall
    obtain ⟨mid, hlist, rfl⟩ := (loadList_exists_iff (k := k.guarded)
      hlaws).mpr ⟨hreadable, pages, hpages, hfresh⟩
    obtain ⟨last, hstack, -⟩ :=
      (loadStack_exists_iff hlaws rflags).mpr ⟨hfresh', hentry⟩
    have hsched : last.sched = k.sched := by
      rw [loadStack_sched hstack, loadList_sched hlist]
      rfl
    have hpush := (pushProcess_ok (p := Sched.userProcess mapper)).mpr
      ⟨hsched ▸ hunlocked.list, rfl⟩
    rw [← hsegs hnull] at hlist
    have hload : loadUser M debug img mapper rflags k.guarded
        = .ok (.ok (), _) :=
      andThen_ok.mpr ⟨mid, hlist, andThen_ok.mpr ⟨last, hstack,
        bind_ok.mpr ⟨(), _, hpush, rfl⟩⟩⟩
    exact ⟨_, withMapper_ok.mpr ⟨hunlocked.mapper, _, withFrames_ok.mpr
      ⟨hunlocked.frames, _, hload, rfl⟩, rfl⟩⟩

end Laws

-- ============================================================= small files

/-- A program header of type `PT_LOAD`. -/
def loadHeader (offset vaddr filesz memsz : Word) : List Byte :=
  [1, 0, 0, 0, 0, 0, 0, 0]
    ++ bytesOfValue offset ++ bytesOfValue vaddr ++ List.replicate 8 0
    ++ bytesOfValue filesz ++ bytesOfValue memsz ++ List.replicate 8 0

/-- An ELF file of a header with entry point 0x400000, and of program
headers. -/
def elfFile (headers : List (List Byte)) : List Byte :=
  List.replicate 24 0
    ++ [0, 0, 0x40, 0, 0, 0, 0, 0]            -- e_entry
    ++ [64, 0, 0, 0, 0, 0, 0, 0]              -- e_phoff
    ++ List.replicate 16 0
    ++ bytesOfValue (BitVec.ofNat 16 headers.length)
    ++ List.replicate 6 0
    ++ headers.flatten

/-- A file in memory. -/
def inMemory (file : List Byte) : Image where
  efi := 0x10000
  byte i := file[i]?

theorem inMemory_byte {file : List Byte} {o : Nat} (h : o < file.length) :
    ((inMemory file).byte o).isSome :=
  Option.isSome_iff_exists.mpr ⟨_, List.getElem?_eq_getElem h⟩

theorem sixteenFrames_sized : Sized loaderBoot.frames where
  fit := sixteenFrames_wellFormed.fit
  length := by decide +kernel

end Bayos.Kernel
