/-
Text output stays inside the framebuffer.

# What drawing does

`Draws` says once what the writer's loops do to a screen: which pixels
they paint with which intensity, byte by byte of the framebuffer, and
that they leave the rest alone. A pixel, a row and a raster each satisfy
it, and what is true of any of them follows from it.

# The cursor

Newlines may take the cursor far below the screen. It is `makeRoom` that
brings it back, before a glyph is drawn and only then: after it the glyph
fits (`room_fits`), whatever the cursor was before, as long as it could
be moved at all.
-/
import Bayos.Model.Framebuffer

namespace Bayos.Framebuffer

open Rust
open Lib (overlay getElem?_overlay)
open Lib.Raster

-- ================================================================ geometry

/-- A framebuffer the writer can be given: a supported format, room for
one glyph with its padding, and a buffer that holds every line. -/
structure Geometry (font : Font) (info : FrameBufferInfo) (length : Nat) :
    Prop where
  stride : info.width ≤ info.stride
  depth : 1 ≤ info.bytesPerPixel ∧ info.bytesPerPixel ≤ 4
  format : ∀ r g b, info.pixelFormat ≠ .unknown r g b
  width : 1 + font.charRasterWidth ≤ info.width
  height : 17 ≤ info.height
  room : info.stride * info.height * info.bytesPerPixel ≤ length

/-- The screen has such a framebuffer. -/
def Screen.Sound (font : Font) (s : Screen) : Prop :=
  Geometry font s.info s.framebuffer.bytes.length

/-- The bytes of a colour. -/
def encode (format : PixelFormat) (intensity : Byte) : List Byte :=
  match color format intensity with
  | .ok bytes => bytes
  | .error _ => []

theorem color_eq {format : PixelFormat}
    (h : ∀ r g b, format ≠ .unknown r g b) (intensity : Byte) :
    color format intensity = .ok (encode format intensity)
      ∧ (encode format intensity).length = 4 := by
  cases format with
  | rgb => exact ⟨rfl, rfl⟩
  | bgr => exact ⟨rfl, rfl⟩
  | u8 => exact ⟨rfl, rfl⟩
  | unknown r g b => exact absurd rfl (h r g b)

section sound

variable {font : Font} {s : Screen}

/-- The indices of a pixel of the screen. -/
theorem Screen.Sound.pixel_le (h : s.Sound font) {x y : Nat}
    (hx : x < s.info.width) (hy : y < s.info.height) :
    offset s.info.stride s.info.bytesPerPixel x y + s.info.bytesPerPixel
      ≤ s.framebuffer.bytes.length :=
  (offset_add_le (Nat.lt_of_lt_of_le hx h.stride) hy).trans h.room

theorem Screen.Sound.bounds (h : s.Sound font) :
    s.info.stride * s.info.height ≤ s.framebuffer.bytes.length
      ∧ s.framebuffer.bytes.length < wordSize := by
  have hfits := s.framebuffer.fits
  refine ⟨?_, ?_⟩
  · exact (Nat.le_mul_of_pos_right _ h.depth.1).trans h.room
  · unfold isizeMax at hfits
    unfold wordSize
    omega

theorem Screen.Sound.width_lt (h : s.Sound font) :
    s.info.width < wordSize := by
  obtain ⟨hle, hlt⟩ := h.bounds
  have hpos : 0 < s.info.height := by
    have := h.height
    omega
  have hstride : s.info.stride ≤ s.info.stride * s.info.height :=
    Nat.le_mul_of_pos_right _ hpos
  have := h.stride
  omega

/-- Twice the width is a word, still. -/
theorem Screen.Sound.twice_width_lt (h : s.Sound font) :
    s.info.width + s.info.width < wordSize := by
  obtain ⟨hle, -⟩ := h.bounds
  have hfits := s.framebuffer.fits
  have hheight := h.height
  have hstride : s.info.stride * 17 ≤ s.info.stride * s.info.height :=
    Nat.mul_le_mul_left _ hheight
  have := h.stride
  unfold isizeMax at hfits
  unfold wordSize
  omega

theorem Screen.Sound.height_le (h : s.Sound font) :
    s.info.height ≤ isizeMax := by
  have hpos : 0 < s.info.stride := by
    have := h.stride
    have := h.width
    omega
  exact ((Nat.le_mul_of_pos_left _ hpos).trans h.bounds.1).trans
    s.framebuffer.fits

theorem Screen.Sound.height_lt (h : s.Sound font) :
    s.info.height < wordSize :=
  Nat.lt_of_le_of_lt h.height_le (by decide)

end sound

-- ================================================================= drawing

/-- From `s` the writer paints the pixels at which `f` has an intensity,
and does nothing else. -/
structure Draws (s t : Screen) (f : Nat → Nat → Option Byte) : Prop where
  info : t.info = s.info
  xPos : t.xPos = s.xPos
  yPos : t.yPos = s.yPos
  glyphs : t.glyphs = s.glyphs
  length : t.framebuffer.bytes.length = s.framebuffer.bytes.length
  pixels : ∃ ps, t.pixels = s.pixels ++ ps ∧ ∀ p ∈ ps, (f p.1 p.2).isSome
  bytes : ∀ k, t.framebuffer.bytes[k]?
    = (f (column s.info.stride s.info.bytesPerPixel k)
        (line s.info.stride s.info.bytesPerPixel k)).elim
        s.framebuffer.bytes[k]?
        fun i => (encode s.info.pixelFormat i)[k % s.info.bytesPerPixel]?

theorem Draws.none (s : Screen) : Draws s s fun _ _ => none where
  info := rfl
  xPos := rfl
  yPos := rfl
  glyphs := rfl
  length := rfl
  pixels := ⟨[], (List.append_nil _).symm, by simp⟩
  bytes _ := rfl

/-- What is drawn later is drawn over what was drawn before. -/
theorem Draws.trans {s t u : Screen} {f g : Nat → Nat → Option Byte}
    (h : Draws s t f) (h' : Draws t u g) :
    Draws s u fun x y => (g x y).or (f x y) where
  info := h'.info.trans h.info
  xPos := h'.xPos.trans h.xPos
  yPos := h'.yPos.trans h.yPos
  glyphs := h'.glyphs.trans h.glyphs
  length := h'.length.trans h.length
  pixels := by
    obtain ⟨ps, hps, hf⟩ := h.pixels
    obtain ⟨qs, hqs, hg⟩ := h'.pixels
    refine ⟨ps ++ qs, by rw [hqs, hps, List.append_assoc], ?_⟩
    intro p hp
    rw [Option.isSome_or]
    rcases List.mem_append.mp hp with hp | hp
    · simp [hf p hp]
    · simp [hg p hp]
  bytes k := by
    rw [h'.bytes, h.info, h.bytes]
    cases g (column s.info.stride s.info.bytesPerPixel k)
      (line s.info.stride s.info.bytesPerPixel k) <;> rfl

theorem Draws.sound {font : Font} {s t : Screen}
    {f : Nat → Nat → Option Byte} (h : Draws s t f) (hs : s.Sound font) :
    t.Sound font := by
  unfold Screen.Sound
  rw [h.info, h.length]
  exact hs

/-- The paint of one pixel. -/
def dot (x y : Nat) (i : Byte) (c l : Nat) : Option Byte :=
  if c = x ∧ l = y then some i else none

/-- The bytes of one pixel of the framebuffer replaced. -/
def Screen.put (s : Screen) (x y : Nat) (i : Byte) : Screen :=
  { s with
    framebuffer := ⟨overlay s.framebuffer.bytes
        (offset s.info.stride s.info.bytesPerPixel x y)
        ((encode s.info.pixelFormat i).take s.info.bytesPerPixel),
      (Lib.length_overlay ..).trans_le s.framebuffer.fits⟩
    pixels := s.pixels ++ [(x, y)] }

section pixel

variable {font : Font} {s : Screen} {x y : Nat}

/-- `write_pixel` on a pixel of the screen: no check fails. -/
theorem writePixel_eq (hs : s.Sound font) (hx : x < s.info.width)
    (hy : y < s.info.height) (i : Byte) :
    writePixel s x y i = .ok (s.put x y i) := by
  obtain ⟨hcolor, hlen⟩ := color_eq hs.format i
  have hdepth := hs.depth
  have hle := hs.pixel_le hx hy
  have hlt := hs.bounds.2
  unfold offset at hle
  have hpixel : y * s.info.stride + x
      ≤ (y * s.info.stride + x) * s.info.bytesPerPixel :=
    Nat.le_mul_of_pos_right _ hdepth.1
  have hlines : Usize.mul y s.info.stride = .ok (y * s.info.stride) :=
    Usize.mul_eq (by omega)
  have hadd : Usize.add (y * s.info.stride) x
      = .ok (y * s.info.stride + x) := Usize.add_eq (by omega)
  have hmul : Usize.mul (y * s.info.stride + x) s.info.bytesPerPixel
      = .ok ((y * s.info.stride + x) * s.info.bytesPerPixel) :=
    Usize.mul_eq (by omega)
  have hstop : Usize.add ((y * s.info.stride + x) * s.info.bytesPerPixel)
      s.info.bytesPerPixel
      = .ok ((y * s.info.stride + x) * s.info.bytesPerPixel
          + s.info.bytesPerPixel) := Usize.add_eq (by omega)
  have htake : ((encode s.info.pixelFormat i).take
      s.info.bytesPerPixel).length = s.info.bytesPerPixel := by
    rw [List.length_take]
    omega
  have hcopy : s.framebuffer.copyFromSlice
      ((y * s.info.stride + x) * s.info.bytesPerPixel)
      ((y * s.info.stride + x) * s.info.bytesPerPixel
        + s.info.bytesPerPixel)
      ((encode s.info.pixelFormat i).take s.info.bytesPerPixel)
      = .ok (s.put x y i).framebuffer := by
    unfold Slice.copyFromSlice
    rw [if_pos ⟨by omega, hle⟩, if_pos (by omega)]
    rfl
  have hread : (y * s.info.stride + x) * s.info.bytesPerPixel
      < (s.put x y i).framebuffer.bytes.length := by
    unfold Screen.put
    simp only [Lib.length_overlay]
    omega
  unfold writePixel
  simp only [hlines, hadd, hcolor, hmul, hstop, ok_bind, hcopy,
    if_pos (show s.info.bytesPerPixel
      ≤ (encode s.info.pixelFormat i).length by omega), if_pos hread]
  rfl

theorem put_draws (hs : s.Sound font) (hx : x < s.info.width)
    (hy : y < s.info.height) (i : Byte) :
    Draws s (s.put x y i) (dot x y i) where
  info := rfl
  xPos := rfl
  yPos := rfl
  glyphs := rfl
  length := Lib.length_overlay ..
  pixels := ⟨[(x, y)], rfl, by simp [dot]⟩
  bytes k := by
    have hdepth := hs.depth
    have htake : ((encode s.info.pixelFormat i).take
        s.info.bytesPerPixel).length = s.info.bytesPerPixel := by
      rw [List.length_take, (color_eq hs.format i).2]
      omega
    have hmem := mem_pixel (y := y) (k := k)
      (Nat.lt_of_lt_of_le hx hs.stride) hdepth.1
    have hle := hs.pixel_le hx hy
    rw [← htake] at hle
    have hget := getElem?_overlay hle k
    rw [htake] at hget
    refine hget.trans ?_
    unfold dot
    by_cases hk : column s.info.stride s.info.bytesPerPixel k = x
        ∧ line s.info.stride s.info.bytesPerPixel k = y
    · have hin := hmem.mpr hk
      rw [if_pos hin, if_pos hk, lane hin.1 hin.2, List.getElem?_take,
        if_pos (Nat.mod_lt _ hdepth.1)]
      rfl
    · rw [if_neg (fun hin => hk (hmem.mp hin)), if_neg hk]
      rfl

end pixel

-- ================================================================= a glyph

/-- The paint of a row from the pixel `x`, `y` on. -/
def rowPaint (x y : Nat) (row : List Byte) (c l : Nat) : Option Byte :=
  if x ≤ c ∧ l = y then row[c - x]? else none

/-- The paint of a raster with its upper left pixel at `x`, `y`. -/
def rasterPaint (x y : Nat) (rows : List (List Byte)) (c l : Nat) :
    Option Byte :=
  if x ≤ c ∧ y ≤ l then rows[l - y]?.bind fun row => row[c - x]? else none

theorem rowPaint_cons (x y : Nat) (i : Byte) (row : List Byte) :
    (fun c l => (rowPaint (x + 1) y row c l).or (dot x y i c l))
      = rowPaint x y (i :: row) := by
  funext c l
  unfold rowPaint dot
  by_cases hl : l = y
  · rcases Nat.lt_trichotomy c x with hc | rfl | hc
    · simp [hl, show ¬ x + 1 ≤ c by omega, show c ≠ x by omega,
        show ¬ x ≤ c by omega]
    · simp [hl]
    · obtain ⟨d, rfl⟩ := Nat.exists_eq_add_of_lt hc
      have hnext : x + d + 1 - (x + 1) = d := by omega
      have hthis : x + d + 1 - x = d + 1 := by omega
      simp [hl, show x + 1 ≤ x + d + 1 by omega,
        show x ≤ x + d + 1 by omega, hnext, hthis,
        show x + d + 1 ≠ x by omega]
  · simp [hl]

theorem rasterPaint_cons (x y : Nat) (row : List Byte)
    (rows : List (List Byte)) :
    (fun c l => (rasterPaint x (y + 1) rows c l).or (rowPaint x y row c l))
      = rasterPaint x y (row :: rows) := by
  funext c l
  unfold rasterPaint rowPaint
  by_cases hc : x ≤ c
  · rcases Nat.lt_trichotomy l y with hl | rfl | hl
    · simp [show ¬ y + 1 ≤ l by omega, show l ≠ y by omega,
        show ¬ y ≤ l by omega]
    · simp [hc]
    · obtain ⟨d, rfl⟩ := Nat.exists_eq_add_of_lt hl
      have hnext : y + d + 1 - (y + 1) = d := by omega
      have hthis : y + d + 1 - y = d + 1 := by omega
      simp [hc, show y + 1 ≤ y + d + 1 by omega,
        show y ≤ y + d + 1 by omega, hnext, hthis,
        show y + d + 1 ≠ y by omega]
  · simp [hc]

section glyph

variable {font : Font} {s : Screen}

/-- A row that lies on the screen. -/
theorem writeRow_draws {row : List Byte} :
    ∀ {s : Screen} {x y : Nat}, s.Sound font →
      s.xPos + x + row.length ≤ s.info.width →
      s.yPos + y < s.info.height →
      ∃ t, writeRow s y x row = .ok t
        ∧ Draws s t (rowPaint (s.xPos + x) (s.yPos + y) row) := by
  induction row with
  | nil =>
      intro s x y _ _ _
      refine ⟨s, rfl, ?_⟩
      have hnone : rowPaint (s.xPos + x) (s.yPos + y) []
          = fun _ _ => none := by
        funext c l
        simp [rowPaint]
      rw [hnone]
      exact .none s
  | cons i row ih =>
      intro s x y hs hx hy
      rw [List.length_cons] at hx
      have hpx : Usize.add s.xPos x = .ok (s.xPos + x) :=
        Usize.add_eq (by have := hs.width_lt; omega)
      have hpy : Usize.add s.yPos y = .ok (s.yPos + y) :=
        Usize.add_eq (by have := hs.height_lt; omega)
      have hput := put_draws hs (x := s.xPos + x) (by omega) hy i
      obtain ⟨t, ht, hdraws⟩ := ih (x := x + 1) (y := y) (hput.sound hs)
        (by rw [hput.xPos, hput.info]; omega)
        (by rw [hput.yPos, hput.info]; exact hy)
      refine ⟨t, ?_, ?_⟩
      · unfold writeRow
        simp only [hpx, hpy, ok_bind]
        rw [writePixel_eq hs (by omega) hy, ok_bind]
        exact ht
      · rw [hput.xPos, hput.yPos, ← Nat.add_assoc] at hdraws
        rw [← rowPaint_cons]
        exact hput.trans hdraws

/-- A raster that lies on the screen. -/
theorem writeRows_draws {rows : List (List Byte)} :
    ∀ {s : Screen} {y : Nat}, s.Sound font →
      (∀ row ∈ rows, s.xPos + row.length ≤ s.info.width) →
      s.yPos + y + rows.length ≤ s.info.height →
      ∃ t, writeRows s y rows = .ok t
        ∧ Draws s t (rasterPaint s.xPos (s.yPos + y) rows) := by
  induction rows with
  | nil =>
      intro s y _ _ _
      refine ⟨s, rfl, ?_⟩
      have hnone : rasterPaint s.xPos (s.yPos + y) [] = fun _ _ => none := by
        funext c l
        simp [rasterPaint]
      rw [hnone]
      exact .none s
  | cons row rows ih =>
      intro s y hs hx hy
      rw [List.length_cons] at hy
      obtain ⟨t, ht, hrow⟩ := writeRow_draws (x := 0) (y := y) hs
        (hx row (List.mem_cons_self ..)) (by omega)
      obtain ⟨u, hu, hrows⟩ := ih (s := t) (y := y + 1) (hrow.sound hs)
        (by
          intro r hr
          rw [hrow.xPos, hrow.info]
          exact hx r (List.mem_cons_of_mem _ hr))
        (by rw [hrow.yPos, hrow.info]; omega)
      refine ⟨u, ?_, ?_⟩
      · unfold writeRows
        rw [ht, ok_bind]
        exact hu
      · rw [hrow.xPos, hrow.yPos, ← Nat.add_assoc] at hrows
        rw [← rasterPaint_cons]
        exact hrow.trans hrows

/-- The raster of a character, or that of the backup character. -/
def rasterOf (font : Font) (c : Char) : RasterizedChar :=
  (font.getRaster c).getD ((font.getRaster backupChar).get font.backup)

theorem rasterOf_some (font : Font) (c : Char) :
    ∃ d, font.getRaster d = some (rasterOf font c) := by
  unfold rasterOf
  cases hc : font.getRaster c with
  | some r => exact ⟨c, hc⟩
  | none => exact ⟨backupChar, (Option.some_get font.backup).symm⟩

theorem getCharRaster_eq (font : Font) (c : Char) :
    getCharRaster font c = .ok (rasterOf font c) := by
  unfold getCharRaster rasterOf
  cases font.getRaster c with
  | some r => rfl
  | none =>
      obtain ⟨r, hr⟩ := Option.isSome_iff_exists.mp font.backup
      simp [hr]

/-- The paint of a glyph. -/
def Glyph.paint (font : Font) (g : Glyph) : Nat → Nat → Option Byte :=
  rasterPaint g.x g.y (rasterOf font g.c).raster

/-- A glyph with room for it. -/
theorem writeRenderedChar_draws (hs : s.Sound font)
    (hx : s.xPos + font.charRasterWidth ≤ s.info.width)
    (hy : s.yPos + 16 ≤ s.info.height) (c : Char) :
    ∃ t, writeRenderedChar s (rasterOf font c)
        = .ok { t with xPos := s.xPos + font.charRasterWidth }
      ∧ Draws s t (Glyph.paint font ⟨c, s.xPos, s.yPos⟩) := by
  obtain ⟨d, hd⟩ := rasterOf_some font c
  have hcolumns := font.columns d _ hd
  have hrows := font.rows d _ hd
  have hwidth := font.widths d _ hd
  have hlt := hs.width_lt
  have hinside : ∀ row ∈ (rasterOf font c).raster,
      s.xPos + row.length ≤ s.info.width := by
    intro row hrow
    rw [hcolumns row hrow]
    exact hx
  obtain ⟨t, ht, hdraws⟩ := writeRows_draws (y := 0) hs hinside
    (by rw [hrows]; exact hy)
  refine ⟨t, ?_, hdraws⟩
  have hadvance : Usize.add (rasterOf font c).width letterSpacing
      = .ok font.charRasterWidth := by
    rw [hwidth]
    exact Usize.add_eq (by unfold letterSpacing; omega)
  have hadd : Usize.add s.xPos font.charRasterWidth
      = .ok (s.xPos + font.charRasterWidth) := Usize.add_eq (by omega)
  unfold writeRenderedChar
  rw [ht, ok_bind, hadvance, ok_bind, hdraws.xPos, hadd, ok_bind]
  rfl

end glyph

-- ============================================================= a character

/-- After a line feed. -/
def fed (s : Screen) : Screen :=
  carriageReturn { s with yPos := s.yPos + 18 }

/-- After the wrap, if the next glyph needs one. -/
def wrapped (font : Font) (s : Screen) : Screen :=
  if s.info.width ≤ s.xPos + font.charRasterWidth then fed s else s

/-- With room for the next glyph. -/
def room (font : Font) (s : Screen) : Screen :=
  if s.info.height ≤ (wrapped font s).yPos + 17 then clear (wrapped font s)
  else wrapped font s

theorem newline_eq {s : Screen} (h : s.yPos + 18 < wordSize) :
    newline s = .ok (fed s) := by
  unfold newline
  rw [Usize.add_eq (by decide), ok_bind,
    show charRasterHeight + lineSpacing = 18 from rfl, Usize.add_eq h,
    ok_bind]
  rfl

theorem newline_ok {s t : Screen} (h : newline s = .ok t) : t = fed s := by
  by_cases hlt : s.yPos + 18 < wordSize
  · rw [newline_eq hlt] at h
    exact (Except.ok.inj h).symm
  · have hsum : Usize.add s.yPos 18 = .error .overflow := if_neg hlt
    unfold newline at h
    rw [Usize.add_eq (by decide), ok_bind,
      show charRasterHeight + lineSpacing = 18 from rfl, hsum] at h
    cases h

section room

variable {font : Font} {s : Screen}

theorem wrapped_info : (wrapped font s).info = s.info := by
  unfold wrapped
  split <;> rfl

theorem room_info : (room font s).info = s.info := by
  unfold room
  split
  · exact wrapped_info
  · exact wrapped_info

theorem makeRoom_eq (hx : s.xPos + font.charRasterWidth < wordSize)
    (hy : s.yPos + 35 < wordSize) : makeRoom font s = .ok (room font s) := by
  have hwrap : (if s.info.width ≤ s.xPos + font.charRasterWidth
      then newline s else pure s) = .ok (wrapped font s) := by
    unfold wrapped
    split
    · exact newline_eq (by omega)
    · rfl
  have hle : (wrapped font s).yPos ≤ s.yPos + 18 := by
    unfold wrapped
    split
    · exact Nat.le_refl _
    · omega
  unfold makeRoom
  rw [Usize.add_eq hx, ok_bind, hwrap, ok_bind,
    Usize.add_eq (by unfold charRasterHeight; omega), ok_bind,
    Usize.add_eq (by unfold charRasterHeight borderPadding; omega), ok_bind,
    wrapped_info]
  rfl

theorem makeRoom_ok {t : Screen} (h : makeRoom font s = .ok t) :
    t = room font s := by
  unfold makeRoom at h
  obtain ⟨x, hx, hrest⟩ := bind_eq_ok.mp h
  obtain ⟨w, hw, hrest'⟩ := bind_eq_ok.mp hrest
  obtain ⟨b, hb, hrest''⟩ := bind_eq_ok.mp hrest'
  obtain ⟨y, hy, ht⟩ := bind_eq_ok.mp hrest''
  obtain rfl := Usize.add_ok hx
  obtain rfl := Usize.add_ok hb
  obtain rfl := Usize.add_ok hy
  have hwrap : w = wrapped font s := by
    unfold wrapped
    split at hw
    · rename_i hfull
      rw [if_pos hfull]
      exact newline_ok hw
    · rename_i hfull
      rw [if_neg hfull]
      exact (Except.ok.inj hw).symm
  rw [hwrap, wrapped_info] at ht
  exact (Except.ok.inj ht).symm

/-- Where there is room, the glyph lies on the screen. -/
theorem room_fits (hs : s.Sound font) :
    (room font s).Sound font
      ∧ (room font s).xPos + font.charRasterWidth ≤ s.info.width
      ∧ (room font s).yPos + 16 ≤ s.info.height := by
  have hwidth := hs.width
  have hheight := hs.height
  have hx : (wrapped font s).xPos + font.charRasterWidth ≤ s.info.width := by
    unfold wrapped
    split
    · exact hwidth
    · omega
  have hlen : (wrapped font s).framebuffer = s.framebuffer := by
    unfold wrapped
    split <;> rfl
  unfold room
  split
  · refine ⟨?_, hwidth, hheight⟩
    unfold Screen.Sound clear Slice.fill
    simp only [List.length_replicate, wrapped_info, hlen]
    exact hs
  · refine ⟨?_, hx, by omega⟩
    unfold Screen.Sound
    rw [wrapped_info, hlen]
    exact hs

end room

/-- The screen with one more glyph on its list. -/
def Screen.withGlyph (s : Screen) (c : Char) : Screen :=
  { s with glyphs := s.glyphs ++ [⟨c, s.xPos, s.yPos⟩] }

/-- What writing a character does: a line feed, a carriage return, or a
glyph drawn where there is room for it. -/
inductive Step (font : Font) (s : Screen) : Char → Screen → Prop
  | feed : Step font s '\n' (fed s)
  | home : Step font s '\r' (carriageReturn s)
  | glyph {c : Char} {t : Screen} (hn : c ≠ '\n') (hr : c ≠ '\r')
      (hdraws : Draws ((room font s).withGlyph c) t (Glyph.paint font
        ⟨c, (room font s).xPos, (room font s).yPos⟩)) :
      Step font s c
        { t with xPos := (room font s).xPos + font.charRasterWidth }

section step

variable {font : Font} {s : Screen}

/-- Once there is room, the character is rendered there. -/
theorem writeChar_room (hroom : makeRoom font s = .ok (room font s))
    {c : Char} (hn : c ≠ '\n') (hr : c ≠ '\r') :
    writeChar font s c
      = writeRenderedChar ((room font s).withGlyph c) (rasterOf font c) := by
  unfold writeChar
  rw [if_neg hn, if_neg hr, hroom, ok_bind, getCharRaster_eq, ok_bind]
  rfl

/-- A glyph is drawn without a failure, once there is room. -/
theorem writeChar_glyph (hs : s.Sound font)
    (hroom : makeRoom font s = .ok (room font s)) {c : Char}
    (hn : c ≠ '\n') (hr : c ≠ '\r') :
    ∃ t, writeChar font s c = .ok t ∧ Step font s c t := by
  obtain ⟨hsound, hx, hy⟩ := room_fits hs
  have hlisted : ((room font s).withGlyph c).Sound font := hsound
  obtain ⟨t, ht, hdraws⟩ := writeRenderedChar_draws hlisted
    (by
      show (room font s).xPos + _ ≤ (room font s).info.width
      rw [room_info]
      exact hx)
    (by
      show (room font s).yPos + 16 ≤ (room font s).info.height
      rw [room_info]
      exact hy) c
  exact ⟨_, (writeChar_room hroom hn hr).trans ht, .glyph hn hr hdraws⟩

theorem writeChar_made {c : Char} {t : Screen}
    (h : writeChar font s c = .ok t) (hn : c ≠ '\n') (hr : c ≠ '\r') :
    makeRoom font s = .ok (room font s) := by
  unfold writeChar at h
  rw [if_neg hn, if_neg hr] at h
  obtain ⟨u, hu, -⟩ := bind_eq_ok.mp h
  rw [makeRoom_ok hu] at hu
  exact hu

/-- Whatever `write_char` returns, it has taken such a step. -/
theorem writeChar_step (hs : s.Sound font) {c : Char} {t : Screen}
    (h : writeChar font s c = .ok t) : Step font s c t := by
  by_cases hn : c = '\n'
  · subst hn
    unfold writeChar at h
    rw [if_pos rfl] at h
    rw [newline_ok h]
    exact .feed
  · by_cases hr : c = '\r'
    · subst hr
      unfold writeChar at h
      rw [if_neg hn, if_pos rfl] at h
      rw [← Except.ok.inj h]
      exact .home
    · have hroom := writeChar_made h hn hr
      obtain ⟨t', ht', hstep⟩ := writeChar_glyph hs hroom hn hr
      rw [h] at ht'
      rw [Except.ok.inj ht']
      exact hstep

/-- With the cursor anywhere it can be moved from, it returns. -/
theorem writeChar_returns (hs : s.Sound font) (hx : s.xPos ≤ s.info.width)
    (hy : s.yPos + 35 < wordSize) (c : Char) :
    ∃ t, writeChar font s c = .ok t ∧ Step font s c t := by
  by_cases hn : c = '\n'
  · subst hn
    refine ⟨_, ?_, .feed⟩
    unfold writeChar
    rw [if_pos rfl]
    exact newline_eq (by omega)
  · by_cases hr : c = '\r'
    · subst hr
      refine ⟨_, ?_, .home⟩
      unfold writeChar
      rw [if_neg hn, if_pos rfl]
      rfl
    · refine writeChar_glyph hs (makeRoom_eq ?_ hy) hn hr
      have hle := hs.width
      have hbounds := hs.twice_width_lt
      omega

/-- The geometry never changes. -/
theorem Step.info {c : Char} {t : Screen} (h : Step font s c t) :
    t.info = s.info := by
  cases h with
  | feed => rfl
  | home => rfl
  | glyph hn hr hdraws => exact hdraws.info.trans room_info

theorem Step.sound {c : Char} {t : Screen} (h : Step font s c t)
    (hs : s.Sound font) : t.Sound font := by
  cases h with
  | feed => exact hs
  | home => exact hs
  | glyph hn hr hdraws =>
      have hlisted : ((room font s).withGlyph c).Sound font :=
        (room_fits hs).1
      exact hdraws.sound hlisted

/-- A character moves the cursor down by one line at most. -/
theorem Step.yPos_le {c : Char} {t : Screen} (h : Step font s c t)
    (hpos : 1 ≤ s.yPos) : t.yPos ≤ s.yPos + 18 ∧ 1 ≤ t.yPos := by
  have hwrap : (wrapped font s).yPos ≤ s.yPos + 18
      ∧ 1 ≤ (wrapped font s).yPos := by
    unfold wrapped fed carriageReturn
    split
    · exact ⟨Nat.le_refl _, by simp only; omega⟩
    · exact ⟨by omega, hpos⟩
  cases h with
  | feed =>
      refine ⟨Nat.le_refl _, ?_⟩
      unfold fed carriageReturn
      simp only
      omega
  | home => exact ⟨Nat.le_add_right .., hpos⟩
  | glyph hn hr hdraws =>
      have hy : (room font s).yPos ≤ s.yPos + 18
          ∧ 1 ≤ (room font s).yPos := by
        unfold room clear borderPadding
        split
        · exact ⟨by simp only; omega, Nat.le_refl _⟩
        · exact hwrap
      simp only [hdraws.yPos]
      exact hy

end step

-- ================================================================ the text

/-- What holds of the screen between characters. -/
structure Inside (font : Font) (s : Screen) : Prop where
  sound : s.Sound font
  start : 1 ≤ s.yPos
  column : s.xPos ≤ s.info.width
  pixels : ∀ p ∈ s.pixels, p.1 < s.info.width ∧ p.2 < s.info.height

/-- The pixels of a glyph. -/
theorem paint_isSome {font : Font} {g : Glyph} {c l : Nat}
    (h : (g.paint font c l).isSome) :
    g.x ≤ c ∧ c < g.x + font.charRasterWidth
      ∧ g.y ≤ l ∧ l < g.y + 16 := by
  obtain ⟨d, hd⟩ := rasterOf_some font g.c
  obtain ⟨i, hi⟩ := Option.isSome_iff_exists.mp h
  unfold Glyph.paint rasterPaint at hi
  split at hi
  · rename_i hle
    obtain ⟨row, hrow, hget⟩ := Option.bind_eq_some_iff.mp hi
    obtain ⟨hl, hmem⟩ := List.getElem?_eq_some_iff.mp hrow
    obtain ⟨hc, -⟩ := List.getElem?_eq_some_iff.mp hget
    rw [font.rows d _ hd] at hl
    rw [font.columns d _ hd row (hmem ▸ List.getElem_mem _)] at hc
    have hheight : charRasterHeight = 16 := rfl
    omega
  · cases hi

theorem inside_new {font : Font} {framebuffer : Slice}
    {info : FrameBufferInfo}
    (h : Geometry font info framebuffer.bytes.length) :
    Inside font (new framebuffer info) where
  sound := by
    unfold Screen.Sound new clear Slice.fill
    simp only [List.length_replicate]
    exact h
  start := Nat.le_refl _
  column := by
    have := h.width
    unfold new clear borderPadding
    simp only
    omega
  pixels p hp := by cases hp

theorem room_pixels {font : Font} {s : Screen} :
    (room font s).pixels = s.pixels := by
  have hwrap : (wrapped font s).pixels = s.pixels := by
    unfold wrapped
    split <;> rfl
  unfold room
  split
  · exact hwrap
  · exact hwrap

theorem inside_step {font : Font} {s t : Screen} {c : Char}
    (h : Inside font s) (hstep : Step font s c t) : Inside font t := by
  refine ⟨hstep.sound h.sound, (hstep.yPos_le h.start).2, ?_, ?_⟩
  · have hwidth := h.sound.width
    have hhome : 1 ≤ s.info.width := by omega
    rw [hstep.info]
    cases hstep with
    | feed => exact hhome
    | home => exact hhome
    | glyph hn hr hdraws => exact (room_fits h.sound).2.1
  · rw [hstep.info]
    cases hstep with
    | feed => exact h.pixels
    | home => exact h.pixels
    | glyph hn hr hdraws =>
        obtain ⟨-, hx, hy⟩ := room_fits h.sound
        obtain ⟨ps, hps, hpaint⟩ := hdraws.pixels
        intro p hp
        simp only [hps] at hp
        rcases List.mem_append.mp hp with hold | hnew
        · have hin : p ∈ (room font s).pixels := hold
          rw [room_pixels] at hin
          exact h.pixels p hin
        · obtain ⟨-, hc, -, hl⟩ := paint_isSome (hpaint p hnew)
          exact ⟨Nat.lt_of_lt_of_le hc hx, Nat.lt_of_lt_of_le hl hy⟩

/-- Text that does not move the cursor out of a word is written. -/
theorem writeChars_returns {font : Font} (text : List Char) :
    ∀ {s : Screen}, Inside font s →
      s.yPos + 18 * text.length + 17 < wordSize →
      ∃ t, writeChars font s text = .ok t ∧ Inside font t
        ∧ t.info = s.info := by
  induction text with
  | nil =>
      intro s hs _
      exact ⟨s, rfl, hs, rfl⟩
  | cons c text ih =>
      intro s hs hy
      rw [List.length_cons] at hy
      obtain ⟨t, ht, hstep⟩ := writeChar_returns hs.sound hs.column
        (by omega) c
      have hle := (hstep.yPos_le hs.start).1
      obtain ⟨u, hu, hinside, hinfo⟩ := ih (inside_step hs hstep) (by omega)
      refine ⟨u, ?_, hinside, hinfo.trans hstep.info⟩
      unfold writeChars
      rw [ht, ok_bind]
      exact hu

-- ============================================================= the results

/-- Text output never leaves the framebuffer: on every sound geometry,
text of fewer than `2^59` characters is written without a failure, and
every pixel written is on the screen. -/
theorem text_inside {font : Font} {framebuffer : Slice}
    {info : FrameBufferInfo}
    (hgeometry : Geometry font info framebuffer.bytes.length)
    (text : List Char) (hlength : text.length < 2 ^ 59) :
    ∃ s, writeChars font (new framebuffer info) text = .ok s
      ∧ ∀ p ∈ s.pixels, p.1 < info.width ∧ p.2 < info.height := by
  have hstart : (new framebuffer info).yPos = 1 := rfl
  obtain ⟨s, hs, hinside, hinfo⟩ := writeChars_returns text
    (inside_new hgeometry)
    (by
      rw [hstart]
      unfold wordSize
      omega)
  have hsame : s.info = info := hinfo
  refine ⟨s, hs, ?_⟩
  rw [← hsame]
  exact hinside.pixels

/-- A font whose only characters are the space, which is blank, and the
backup character. -/
def spaceFont : Font where
  charRasterWidth := 9
  getRaster c := if c = ' ' ∨ c = backupChar then
    some ⟨List.replicate 16 (List.replicate 9 0), 9⟩ else none
  positive := by decide
  rows c r h := by
    split at h
    · rw [← Option.some.inj h]
      rfl
    · cases h
  columns c r h row hrow := by
    split at h
    · rw [← Option.some.inj h] at hrow
      rw [List.eq_of_mem_replicate hrow]
      rfl
    · cases h
  widths c r h := by
    split at h
    · rw [← Option.some.inj h]
    · cases h
  backup := by simp

/-- A screen of one glyph. -/
def smallInfo : FrameBufferInfo := ⟨10, 17, .u8, 1, 10⟩

/-- Its framebuffer. -/
def smallBuffer : Slice :=
  ⟨List.replicate 170 0, by rw [List.length_replicate]; decide⟩

theorem smallGeometry :
    Geometry spaceFont smallInfo smallBuffer.bytes.length where
  stride := Nat.le_refl _
  depth := by decide
  format r g b h := by cases h
  width := by decide
  height := by decide
  room := by
    unfold smallBuffer
    rw [List.length_replicate]
    decide

theorem text_inside_space :
    ∃ s, writeChars spaceFont (new smallBuffer smallInfo) ['\n', ' ']
        = .ok s
      ∧ ∀ p ∈ s.pixels, p.1 < 10 ∧ p.2 < 17 :=
  text_inside smallGeometry ['\n', ' '] (by decide)

end Bayos.Framebuffer
