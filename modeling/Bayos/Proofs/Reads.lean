/-
Which bytes of the ramdisk the loader reads.

# The same call

`Reading.addUserProcess` is `add_user_process` with a log of the offsets
it reads at; without the log it is the call itself
(`plain_addUserProcess`).

# Inside the file

The header and the program headers lie in the file, so what is read
outside it is read for a segment (`inside_loadUser`). A segment is copied
once its pages are mapped, and then all of `p_memsz` is read
(`inside_loadSegment`). Segments inside the file are loaded whenever they
can be mapped, so the first one that is not is reached exactly when the
pages up to it can be (`inside_loadList`).
-/
import Bayos.Model.Reads
import Bayos.Proofs.Segments

namespace Bayos.Kernel

open Rust
open Lib (Logged Word)
open Lib.Paging
open Bayos.Memory
open Bayos.Sched (MapperId)

variable {PT α β : Type} {M : PageMapper PT} {debug : Bool}
  {k k' : State PT} {img : Image} {L : Nat} {p : Program}
  {ps : List Program}

namespace Reading

-- =========================================================== the same call

/-- Without the log, a sequence is a sequence. -/
theorem plain_bind (x : Reading PT α) (f : α → Reading PT β) :
    (x >>= f).plain = x.plain >>= fun a => (f a).plain :=
  logged_bind x f

theorem plain_pure (a : α) :
    (pure a : Reading PT α).plain = pure a := rfl

theorem plain_silent (x : KernelM PT α) : (silent x).plain = x := rfl

theorem lift_bind_lift (x : Except Panic α) (f : α → Except Panic β) :
    ((lift x : KernelM PT α) >>= fun a => lift (f a)) = lift (x >>= f) := by
  cases x with
  | ok a => rfl
  | error e => rfl

/-- A read without its log. -/
theorem plain_byte (img : Image) (off : Nat) :
    (byte img off : Reading PT Byte).plain
      = lift (expect (img.byte off) "EXCEPTION: PAGE FAULT") := rfl

theorem plain_bytes (img : Image) (n : Nat) : ∀ off,
    (bytes img off n : Reading PT (List Byte)).plain
      = lift (img.bytes off n) := by
  induction n with
  | zero => exact fun _ => rfl
  | succ n ih =>
      intro off
      rw [bytes, Image.bytes, plain_bind, plain_byte, ← lift_bind_lift]
      refine congrArg _ (funext fun b => ?_)
      rw [plain_bind, ih, ← lift_bind_lift]
      rfl

theorem plain_field (img : Image) (off n : Nat) :
    (field img off n : Reading PT Nat).plain = lift (img.field off n) := by
  rw [field, Image.field, plain_bind, plain_bytes, ← lift_bind_lift]
  rfl

theorem plain_program (img : Image) (off : Nat) :
    (program img off : Reading PT Program).plain
      = lift (img.program off) := by
  simp only [program, Image.program, plain_bind, plain_field,
    ← lift_bind_lift]
  rfl

theorem plain_andThen (x y : Reading PT Loaded) :
    (andThen x y).plain = Kernel.andThen x.plain y.plain := by
  unfold andThen Kernel.andThen
  rw [plain_bind]
  refine congrArg _ (funext fun r => ?_)
  cases r with
  | ok u => rfl
  | error e => rfl

theorem plain_fillSegment (M : PageMapper PT) (debug : Bool) (img : Image)
    (p : Program) :
    (fillSegment M debug img p).plain = Kernel.fillSegment M debug img p := by
  simp only [fillSegment, Kernel.fillSegment, plain_bind, plain_silent,
    plain_bytes]

theorem plain_loadSegment (M : PageMapper PT) (debug : Bool) (img : Image)
    (p : Program) :
    (loadSegment M debug img p).plain = Kernel.loadSegment M debug img p := by
  simp only [loadSegment, Kernel.loadSegment, plain_bind, plain_silent,
    plain_andThen, plain_fillSegment, plain_pure]

theorem plain_loadPrograms (M : PageMapper PT) (debug : Bool) (img : Image)
    (n : Nat) :
    ∀ off, (loadPrograms M debug img off n).plain
      = Kernel.loadPrograms M debug img off n := by
  induction n with
  | zero => exact fun _ => rfl
  | succ n ih =>
      intro off
      rw [loadPrograms, Kernel.loadPrograms, plain_bind, pType, plain_field]
      refine congrArg _ (funext fun type => ?_)
      rw [plain_andThen, ih]
      by_cases hload : type = 1
      · rw [if_pos hload, if_pos hload, plain_bind, plain_program]
        simp only [plain_loadSegment]
      · rw [if_neg hload, if_neg hload, plain_pure]

theorem plain_loadSegments (M : PageMapper PT) (debug : Bool) (img : Image) :
    (loadSegments M debug img).plain = Kernel.loadSegments M debug img := by
  simp only [loadSegments, Kernel.loadSegments, plain_bind, plain_silent,
    plain_loadPrograms, ePhoff, ePhnum, plain_field, Image.ePhoff,
    Image.ePhnum]

theorem plain_loadStack (M : PageMapper PT) (img : Image) (rflags : Word) :
    (loadStack M img rflags).plain = Kernel.loadStack M img rflags := by
  simp only [loadStack, Kernel.loadStack, plain_bind, plain_silent,
    plain_andThen, eEntry, plain_field, Image.eEntry]

/-- The call with the log is the call. -/
theorem plain_addUserProcess (M : PageMapper PT) (debug : Bool) (img : Image)
    (mapper : MapperId) (rflags : Word) :
    (addUserProcess M debug img mapper rflags).plain
      = Kernel.addUserProcess M debug img mapper rflags := by
  have huser : (loadUser M debug img mapper rflags).plain
      = Kernel.loadUser M debug img mapper rflags := by
    rw [loadUser, Kernel.loadUser, plain_andThen, plain_andThen,
      plain_loadSegments, plain_loadStack, plain_silent]
  show Kernel.withMapper
    (Kernel.withFrames (loadUser M debug img mapper rflags).plain) = _
  rw [huser]
  rfl

-- ============================================================ single reads

/-- All bytes that are read lie below `L`. -/
abbrev Inside (L : Nat) (x : Reading PT α) (k : State PT) : Prop :=
  x.All (· < L) k

theorem inside_silent {x : KernelM PT α} : Inside L (silent x) k :=
  Logged.all_silent

theorem inside_pure {a : α} : Inside L (pure a) k := Logged.all_pure

theorem inside_byte {off : Nat} :
    Inside L (byte img off) k ↔ off < L := Logged.all_event

theorem inside_bind {x : Reading PT α} {f : α → Reading PT β} :
    Inside L (x >>= f) k ↔ Inside L x k
      ∧ ∀ a k', x.plain k = .ok (a, k') → Inside L (f a) k' :=
  Logged.all_bind

/-- What is read after a field of the file. -/
theorem inside_read {x : Reading PT α} {f : α → Reading PT β}
    {y : Except Panic α} {a : α} (hx : Inside L x k)
    (hplain : x.plain = lift y) (hy : y = .ok a) :
    Inside L (x >>= f) k ↔ Inside L (f a) k := by
  rw [inside_bind, and_iff_right hx]
  constructor
  · intro h
    refine h a k ?_
    rw [hplain]
    exact lift_ok.mpr ⟨hy, rfl⟩
  · intro h b k' hret
    rw [hplain] at hret
    obtain ⟨hb, rfl⟩ := lift_ok.mp hret
    obtain rfl := Except.ok.inj (hy.symm.trans hb)
    exact h

theorem inside_andThen {x y : Reading PT Loaded} :
    Inside L (andThen x y) k ↔ Inside L x k
      ∧ ∀ k', x.plain k = .ok (.ok (), k') → Inside L y k' := by
  unfold andThen
  rw [inside_bind]
  refine and_congr_right fun _ => ⟨fun h k' hx => h (.ok ()) k' hx, ?_⟩
  intro h r k' hx
  cases r with
  | ok u => exact h k' hx
  | error e => exact inside_pure

/-- Of a file that is in memory, any number of bytes are read. -/
theorem inside_bytes (h : ∀ o < L, (img.byte o).isSome) {n : Nat} :
    ∀ {off : Nat} {k : State PT},
      Inside L (bytes img off n) k ↔ n = 0 ∨ off + n ≤ L := by
  induction n with
  | zero =>
      intro off k
      exact ⟨fun _ => .inl rfl, fun _ => inside_pure⟩
  | succ n ih =>
      intro off k
      rw [bytes, inside_bind, inside_byte]
      constructor
      · intro hin
        obtain ⟨hlt, hrest⟩ := hin
        obtain ⟨b, hb⟩ := Option.isSome_iff_exists.mp (h off hlt)
        have hread : (byte img off).plain k = .ok (b, k) :=
          lift_ok.mpr ⟨expect_ok.mpr hb, rfl⟩
        have := ih.mp (inside_bind.mp (hrest b k hread)).1
        omega
      · intro hin
        refine ⟨by omega, fun b k' _ => ?_⟩
        exact inside_bind.mpr ⟨ih.mpr (by omega), fun _ _ _ =>
          inside_pure⟩

/-- A field inside the file. -/
theorem inside_field (h : ∀ o < L, (img.byte o).isSome) {off n : Nat}
    (hin : off + n ≤ L) : Inside L (field img off n) k :=
  inside_bind.mpr ⟨(inside_bytes h).mpr (.inr hin), fun _ _ _ =>
    inside_pure⟩

/-- A program header inside the file. -/
theorem inside_program (h : ∀ o < L, (img.byte o).isSome) (off : Nat)
    (hin : off + programSize ≤ L) :
    Inside L (pType img off) k ∧ Inside L (program img off) k := by
  unfold programSize at hin
  refine ⟨inside_field h (by omega), ?_⟩
  refine inside_bind.mpr ⟨inside_field h (by omega), fun _ _ _ => ?_⟩
  refine inside_bind.mpr ⟨inside_field h (by omega), fun _ _ _ => ?_⟩
  refine inside_bind.mpr ⟨inside_field h (by omega), fun _ _ _ => ?_⟩
  exact inside_bind.mpr ⟨inside_field h (by omega), fun _ _ _ =>
    inside_pure⟩

-- ================================================================ segments

/-- The copy of a segment gets to its first byte. -/
def CopiesFrom (debug : Bool) (img : Image) (p : Program) : Prop :=
  img.efi + p.pOffset < wordSize
    ∧ MayCopy debug (img.efi + p.pOffset) p.pVaddr p.pMemsz

/-- It stays in the file. -/
def InFile (L : Nat) (p : Program) : Prop :=
  p.pMemsz = 0 ∨ p.pOffset + p.pMemsz ≤ L

theorem inside_fillSegment (h : ∀ o < L, (img.byte o).isSome) :
    Inside L (fillSegment M debug img p) k
      ↔ (CopiesFrom debug img p → InFile L p) := by
  unfold fillSegment
  rw [inside_bind, and_iff_right inside_silent]
  constructor
  · intro hin hcopies
    obtain ⟨hsource, hpointers⟩ := hcopies
    have hsum := hin _ k (lift_ok.mpr ⟨Usize.add_eq hsource, rfl⟩)
    have hcheck := (inside_bind.mp hsum).2 () k
      (lift_ok.mpr ⟨checkCopy_ok.mpr hpointers, rfl⟩)
    exact (inside_bytes h).mp (inside_bind.mp hcheck).1
  · intro hin a k₁ hsum
    obtain ⟨hsource, rfl⟩ := add_ok.mp (lift_ok.mp hsum).1
    refine inside_bind.mpr ⟨inside_silent, fun _ k₂ hcheck => ?_⟩
    have hpointers := checkCopy_ok.mp (lift_ok.mp hcheck).1
    exact inside_bind.mpr ⟨(inside_bytes h).mpr (hin ⟨hsource, hpointers⟩),
      fun _ _ _ => inside_silent⟩

/-- The pages of a segment can be mapped, and its copy starts. -/
def MapsOne (M : PageMapper PT) (debug : Bool) (img : Image) (p : Program)
    (s s' : Space PT) : Prop :=
  CopiesFrom debug img p
    ∧ ∃ pages, eachPage p = .ok pages ∧ FreshPages M pages s s'

/-- A segment is copied once its pages are mapped. -/
theorem inside_loadSegment (h : ∀ o < L, (img.byte o).isSome) :
    Inside L (loadSegment M debug img p) k
      ↔ ∀ s, MapsOne M debug img p k.space s → InFile L p := by
  unfold loadSegment
  rw [inside_bind, and_iff_right inside_silent]
  constructor
  · intro hin s hmaps
    obtain ⟨hcopies, pages, hpages, hfresh⟩ := hmaps
    obtain ⟨range, hrange, hiter⟩ := pagesIn_ok.mp hpages
    obtain ⟨-, hfill⟩ := inside_andThen.mp
      (hin range k (lift_ok.mpr ⟨hrange, rfl⟩))
    have hmap := mapPages_ok.mpr ⟨pages, s, hiter, hfresh, rfl⟩
    exact (inside_fillSegment h).mp
      (inside_bind.mp (hfill _ hmap)).1 hcopies
  · intro hin range k₁ hrange
    obtain ⟨hr, rfl⟩ := lift_ok.mp hrange
    refine inside_andThen.mpr ⟨inside_silent, fun k₂ hmap => ?_⟩
    obtain ⟨pages, s, hiter, hfresh, rfl⟩ := mapPages_ok.mp hmap
    refine inside_bind.mpr ⟨(inside_fillSegment h).mpr fun hcopies => ?_,
      fun _ _ _ => inside_pure⟩
    exact hin s ⟨hcopies, pages, pagesIn_ok.mpr ⟨range, hr, hiter⟩, hfresh⟩

/-- A segment of the file is loaded when its pages can be mapped. -/
theorem loads_inFile (hlaws : M.Laws BitmapAllocator.allocateFrame)
    (h : ∀ o < L, (img.byte o).isSome) {s : Space PT} (hfile : InFile L p) :
    (∃ k', Kernel.loadSegment M debug img p k = .ok (.ok (), k')
        ∧ k'.space = s)
      ↔ MapsOne M debug img p k.space s := by
  rw [loadSegment_exists_iff hlaws]
  refine ⟨fun hload => ⟨⟨hload.1.source, hload.1.pointers⟩, hload.2⟩,
    fun hmaps => ?_⟩
  refine ⟨⟨hmaps.1.1, hmaps.1.2, fun i hi => h _ ?_⟩, hmaps.2⟩
  unfold InFile at hfile
  omega

/-- The segments of a list, one after another. -/
def loadList (M : PageMapper PT) (debug : Bool) (img : Image) :
    List Program → Reading PT Loaded
  | [] => pure (.ok ())
  | p :: ps => andThen (loadSegment M debug img p) (loadList M debug img ps)

/-- The program headers of a file lie in it, so what counts is what is
read for the segments. -/
theorem inside_loadPrograms (h : ∀ o < L, (img.byte o).isSome) {n : Nat} :
    ∀ {off : Nat} {ps : List Program} {k : State PT},
      off + programSize * n ≤ L → img.loads off n = .ok ps →
      (Inside L (loadPrograms M debug img off n) k
        ↔ Inside L (loadList M debug img ps) k) := by
  induction n with
  | zero =>
      intro off ps k _ hps
      cases hps
      exact Iff.rfl
  | succ n ih =>
      intro off ps k hin hps
      rw [Nat.mul_succ] at hin
      obtain ⟨htypeIn, hprogIn⟩ :=
        inside_program (k := k) h off (by omega)
      obtain ⟨type, htype, h₁⟩ := bind_eq_ok.mp hps
      rw [loadPrograms, inside_read htypeIn (plain_field ..) htype,
        inside_andThen]
      by_cases hload : type = 1
      · rw [if_pos hload] at h₁ ⊢
        obtain ⟨p, hp, h₂⟩ := bind_eq_ok.mp h₁
        obtain ⟨rest, hrest, h₃⟩ := bind_eq_ok.mp h₂
        obtain rfl := Except.ok.inj h₃
        rw [inside_read hprogIn (plain_program ..) hp, plain_bind,
          plain_program, lift_bind hp, loadList, inside_andThen]
        exact and_congr_right fun _ => forall₂_congr fun k' _ =>
          ih (by omega) hrest
      · rw [if_neg hload] at h₁ ⊢
        rw [and_iff_right inside_pure, plain_pure]
        constructor
        · intro hin'
          exact (ih (by omega) h₁).mp (hin' k rfl)
        · intro hin' k' hk
          obtain ⟨-, rfl⟩ := pure_ok.mp hk
          exact (ih (by omega) h₁).mpr hin'

/-- The pages of the segments of a list can be mapped, and their copies
start. -/
def Maps (M : PageMapper PT) (debug : Bool) (img : Image)
    (ps : List Program) (s : Space PT) : Prop :=
  (∀ p ∈ ps, CopiesFrom debug img p)
    ∧ ∃ pages s', allPages ps = .ok pages ∧ FreshPages M pages s s'

theorem maps_nil (s : Space PT) : Maps M debug img [] s :=
  ⟨by simp, [], s, rfl, .nil⟩

theorem maps_cons {s : Space PT} :
    Maps M debug img (p :: ps) s
      ↔ ∃ s₁, MapsOne M debug img p s s₁ ∧ Maps M debug img ps s₁ := by
  unfold Maps
  rw [List.forall_mem_cons]
  constructor
  · intro h
    obtain ⟨⟨hp, hps⟩, all, s', hall, hfresh⟩ := h
    obtain ⟨pages, hpages, h₁⟩ := bind_eq_ok.mp hall
    obtain ⟨rest, hrest, h₂⟩ := bind_eq_ok.mp h₁
    obtain rfl := Except.ok.inj h₂
    obtain ⟨s₁, hfirst, hsecond⟩ := freshPages_append.mp hfresh
    exact ⟨s₁, ⟨hp, pages, hpages, hfirst⟩, hps, rest, s', hrest, hsecond⟩
  · intro h
    obtain ⟨s₁, ⟨hp, pages, hpages, hfirst⟩, hps, rest, s', hrest,
      hsecond⟩ := h
    refine ⟨⟨hp, hps⟩, pages ++ rest, s', ?_, hfirst.append hsecond⟩
    exact bind_eq_ok.mpr ⟨pages, hpages,
      bind_eq_ok.mpr ⟨rest, hrest, rfl⟩⟩

/-- Each segment of a list lies in the file, unless the pages up to it
cannot be mapped. -/
def EachInFile (M : PageMapper PT) (debug : Bool) (img : Image) (L : Nat)
    (ps : List Program) (s : Space PT) : Prop :=
  ∀ before p after, ps = before ++ p :: after →
    Maps M debug img (before ++ [p]) s → InFile L p

theorem eachInFile_cons {s : Space PT} :
    EachInFile M debug img L (p :: ps) s
      ↔ ∀ s₁, MapsOne M debug img p s s₁ →
        InFile L p ∧ EachInFile M debug img L ps s₁ := by
  constructor
  · intro h s₁ hone
    refine ⟨h [] p ps rfl (maps_cons.mpr ⟨s₁, hone, maps_nil s₁⟩), ?_⟩
    intro before q after heq hmaps
    subst heq
    exact h (p :: before) q after rfl (maps_cons.mpr ⟨s₁, hone, hmaps⟩)
  · intro h before q after heq hmaps
    cases before with
    | nil =>
        obtain ⟨rfl, rfl⟩ := List.cons.inj heq
        obtain ⟨s₁, hone, -⟩ := maps_cons.mp hmaps
        exact (h s₁ hone).1
    | cons r before =>
        obtain ⟨rfl, rfl⟩ := List.cons.inj heq
        obtain ⟨s₁, hone, hrest⟩ := maps_cons.mp hmaps
        exact (h s₁ hone).2 before q after rfl hrest

/-- What is read for segments lies in the file exactly when each of them
does that is got to. -/
theorem inside_loadList (hlaws : M.Laws BitmapAllocator.allocateFrame)
    (h : ∀ o < L, (img.byte o).isSome) :
    ∀ {k : State PT}, Inside L (loadList M debug img ps) k
      ↔ EachInFile M debug img L ps k.space := by
  induction ps with
  | nil =>
      intro k
      refine ⟨fun _ before p after heq => ?_, fun _ => inside_pure⟩
      cases before with
      | nil => cases heq
      | cons q before => cases heq
  | cons p ps ih =>
      intro k
      rw [loadList, inside_andThen, inside_loadSegment h, plain_loadSegment,
        eachInFile_cons]
      constructor
      · intro hin s hone
        have hfile := hin.1 s hone
        obtain ⟨k₁, hload, rfl⟩ := (loads_inFile hlaws h hfile).mpr hone
        exact ⟨hfile, ih.mp (hin.2 k₁ hload)⟩
      · intro hin
        refine ⟨fun s hone => (hin s hone).1, fun k₁ hload => ?_⟩
        obtain ⟨hreadable, hmapped⟩ :=
          (loadSegment_exists_iff hlaws).mp ⟨k₁, hload, rfl⟩
        exact ih.mpr (hin k₁.space
          ⟨⟨hreadable.source, hreadable.pointers⟩, hmapped⟩).2

-- ========================================================== the whole call

/-- The entry point is in the header. -/
theorem inside_loadStack (h : ∀ o < L, (img.byte o).isSome)
    (hheader : 64 ≤ L) {rflags : Word} :
    Inside L (loadStack M img rflags) k := by
  refine inside_bind.mpr ⟨inside_silent, fun range k₁ _ => ?_⟩
  refine inside_andThen.mpr ⟨inside_silent, fun k₂ _ => ?_⟩
  exact inside_bind.mpr ⟨inside_field h (by omega), fun _ _ _ =>
    inside_silent⟩

/-- Of a file, all that is read outside it is read for segments; nothing
is read through a null pointer that is checked. -/
theorem inside_loadUser (h : img.Holds L ps) {mapper : MapperId}
    {rflags : Word} :
    Inside L (loadUser M debug img mapper rflags) k
      ↔ ((debug = true → img.efi ≠ 0) →
        Inside L (loadList M debug img ps) k) := by
  obtain ⟨phoff, phnum, hphoff, hphnum, hin⟩ := h.table
  have hsum : img.efi + phoff < wordSize := by
    have hfits := h.fits
    omega
  have hheader := h.header
  have hloads : img.loads phoff phnum = .ok ps := by
    have hps := h.segments
    unfold Image.segments at hps
    rw [hphoff, ok_bind, hphnum, ok_bind] at hps
    exact hps
  have hstack : ∀ k', Inside L (andThen (loadStack M img rflags) (silent do
      withProcessList (pushProcess (Sched.userProcess mapper))
      pure (.ok ()))) k' := fun _ =>
    inside_andThen.mpr ⟨inside_loadStack h.bytes hheader, fun _ _ =>
      inside_silent⟩
  rw [loadUser, inside_andThen, and_iff_left fun k' _ => hstack k']
  unfold loadSegments ePhoff ePhnum
  by_cases hnull : debug = true → img.efi ≠ 0
  swap
  · refine ⟨fun _ h => absurd h hnull, fun _ => ?_⟩
    refine inside_bind.mpr ⟨inside_silent, fun _ _ hcheck => ?_⟩
    exact absurd (checkNull_ok.mp (lift_ok.mp hcheck).1) hnull
  rw [forall_prop_of_true hnull,
    inside_read inside_silent (plain_silent _) (checkNull_ok.mpr hnull),
    inside_read (inside_field h.bytes (by omega)) (plain_field ..) hphoff,
    inside_read inside_silent (plain_silent _) (Usize.add_eq hsum),
    inside_read (inside_field h.bytes (by omega)) (plain_field ..) hphnum]
  exact inside_loadPrograms h.bytes hin hloads

/-- Under a guard nothing is read until it is free. -/
theorem inside_withMapper {body : Reading PT α} :
    Inside L (withMapper body) k ↔ (k.mapperHeld = false →
      Inside L body { k with mapperHeld := true }) := by
  show (∀ off ∈ if k.mapperHeld then [] else
    body.log { k with mapperHeld := true }, off < L) ↔ _
  cases k.mapperHeld with
  | true => simp
  | false => exact ⟨fun h _ => h, fun h => h rfl⟩

theorem inside_withFrames {body : Reading PT α} :
    Inside L (withFrames body) k ↔ (k.framesHeld = false →
      Inside L body { k with framesHeld := true }) := by
  show (∀ off ∈ if k.framesHeld then [] else
    body.log { k with framesHeld := true }, off < L) ↔ _
  cases k.framesHeld with
  | true => simp
  | false => exact ⟨fun h _ => h, fun h => h rfl⟩

end Reading

-- ============================================================== the result

/-- The loader gets to copy the last of these segments: its two guards
are free, a build with debug assertions finds nothing wrong with the
pointers, and there are pages and frames for all of them. -/
structure Copies (M : PageMapper PT) (debug : Bool) (img : Image)
    (ps : List Program) (k : State PT) : Prop where
  mapper : k.mapperHeld = false
  frames : k.framesHeld = false
  header : debug = true → img.efi ≠ 0
  sources : ∀ p ∈ ps, img.efi + p.pOffset < wordSize
    ∧ MayCopy debug (img.efi + p.pOffset) p.pVaddr p.pMemsz
  pages : ∃ pages, allPages ps = .ok pages ∧ pages.Nodup
    ∧ (∀ q ∈ pages, M.translate k.table q = none)
    ∧ framesFor M k.table pages ≤ freeCount k.frames

/-- The loader reads nothing but the file exactly when the file has
`p_memsz` bytes, not just `p_filesz`, for each segment that it gets to
copy. -/
theorem reads_inside_iff (hlaws : M.Laws BitmapAllocator.allocateFrame)
    (hsized : Sized k.frames) (h : img.Holds L ps) (mapper : MapperId)
    (rflags : Word) :
    (∀ off ∈ (Reading.addUserProcess M debug img mapper rflags).log k,
        off < L)
      ↔ ∀ before p after, ps = before ++ p :: after →
        Copies M debug img (before ++ [p]) k →
          p.pMemsz = 0 ∨ p.pOffset + p.pMemsz ≤ L := by
  have hcopies : ∀ qs, Copies M debug img qs k ↔ k.mapperHeld = false
      ∧ k.framesHeld = false ∧ (debug = true → img.efi ≠ 0)
      ∧ Reading.Maps M debug img qs k.space := by
    intro qs
    constructor
    · intro hc
      obtain ⟨pages, hpages, hmaps⟩ := hc.pages
      obtain ⟨s, hfresh⟩ :=
        (freshPages_exists_iff (s := k.space) hlaws hsized).mpr hmaps
      exact ⟨hc.mapper, hc.frames, hc.header, hc.sources, pages, s, hpages,
        hfresh⟩
    · intro hc
      obtain ⟨hm, hf, hnull, hsources, pages, s, hpages, hfresh⟩ := hc
      exact ⟨hm, hf, hnull, hsources, pages, hpages,
        (freshPages_exists_iff (s := k.space) hlaws hsized).mp ⟨s, hfresh⟩⟩
  simp only [hcopies]
  refine Reading.inside_withMapper.trans ?_
  simp only [Reading.inside_withFrames, Reading.inside_loadUser h,
    Reading.inside_loadList hlaws h.bytes]
  unfold Reading.EachInFile
  constructor
  · intro hin before p after heq hc
    exact hin hc.1 hc.2.1 hc.2.2.1 before p after heq hc.2.2.2
  · intro hin hm hf hnull before p after heq hmaps
    exact hin before p after heq ⟨hm, hf, hnull, hmaps⟩

-- ========================================================== a .bss section

/-- A file in memory, with the rest of its page behind it. -/
def onPage (file : List Byte) : Image where
  efi := 0x10000
  byte i := if i < 4096 then some (file.getD i 0) else none

/-- A segment of eight bytes at the end of the file, and sixteen zeroes
behind them. -/
def bssFile : List Byte := elfFile [loadHeader 112 0x400000 8 24]

def bssSegments : List Program := [⟨112, 0x400000, 8, 24⟩]

theorem bssFile_holds : (onPage bssFile).Holds 120 bssSegments where
  fits := by decide
  bytes o ho := by
    show (if o < 4096 then some (bssFile.getD o 0) else none).isSome = true
    rw [if_pos (by omega)]
    rfl
  header := by decide
  table := ⟨64, 1, by decide +kernel, by decide +kernel, by decide⟩
  segments := by decide +kernel
  contents := by decide
  filled := by decide

theorem reads_inside_iff_bss :
    (∀ off ∈ (Reading.addUserProcess smallMapper true (onPage bssFile) 0
        0).log loaderBoot, off < 120)
      ↔ ∀ before p after, bssSegments = before ++ p :: after →
        Copies smallMapper true (onPage bssFile) (before ++ [p]) loaderBoot →
          p.pMemsz = 0 ∨ p.pOffset + p.pMemsz ≤ 120 :=
  reads_inside_iff smallMapper_laws sixteenFrames_sized bssFile_holds 0 0

/-- What is behind the file is read for the zeroes of a segment. -/
theorem reads_behind_file :
    (onPage bssFile).Holds 120 bssSegments
      ∧ ¬ ∀ off ∈ (Reading.addUserProcess smallMapper true (onPage bssFile)
          0 0).log loaderBoot, off < 120 :=
  ⟨bssFile_holds, by decide +kernel⟩

end Bayos.Kernel
