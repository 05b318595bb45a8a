/-
The screen: `FrameBufferWriter` of `kernel/src/framebuffer.rs`.

# The font

The rasters come from a font crate. What the writer relies on is kept
with them: a raster has 16 rows of `CHAR_RASTER_WIDTH` bytes, and the
backup character has one.

# History

A `Screen` is the writer and two things no function reads: the pixels
written so far, and the glyphs drawn since the screen was last cleared.
-/
import Bayos.Lib.Raster
import Bayos.Lib.Rust

namespace Bayos.Framebuffer

open Rust

/-- `u8`. -/
abbrev Byte := BitVec 8

-- ================================================================ the font

/-- `CHAR_RASTER_HEIGHT.val()`. -/
def charRasterHeight : Nat := 16

/-- `RasterizedChar`. -/
structure RasterizedChar where
  raster : List (List Byte)
  width : Nat

/-- `BACKUP_CHAR`. -/
def backupChar : Char := Char.ofNat 0xFFFD

/-- The regular font at `CHAR_RASTER_HEIGHT`. -/
structure Font where
  /-- `CHAR_RASTER_WIDTH`. -/
  charRasterWidth : Nat
  getRaster : Char → Option RasterizedChar
  positive : 0 < charRasterWidth
  rows : ∀ c r, getRaster c = some r → r.raster.length = charRasterHeight
  columns : ∀ c r, getRaster c = some r →
    ∀ row ∈ r.raster, row.length = charRasterWidth
  widths : ∀ c r, getRaster c = some r → r.width = charRasterWidth
  backup : (getRaster backupChar).isSome

/-- `get_char_raster`. -/
def getCharRaster (font : Font) (c : Char) : Except Panic RasterizedChar :=
  match font.getRaster c with
  | some r => pure r
  | none => expect (font.getRaster backupChar)
      "Should get raster of backup char."

-- ========================================================= the framebuffer

/-- `PixelFormat`. -/
inductive PixelFormat
  | rgb
  | bgr
  | u8
  | unknown (redPosition greenPosition bluePosition : Nat)
  deriving DecidableEq

/-- `FrameBufferInfo`, without the length of the buffer. -/
structure FrameBufferInfo where
  width : Nat
  height : Nat
  pixelFormat : PixelFormat
  bytesPerPixel : Nat
  stride : Nat

/-- `&'static mut [u8]`: no slice is longer than `isize::MAX`. -/
structure Slice where
  bytes : List Byte
  fits : bytes.length ≤ isizeMax

namespace Slice

/-- `fill(0)`. -/
def fill (s : Slice) : Slice where
  bytes := List.replicate s.bytes.length 0
  fits := (List.length_replicate ..).trans_le s.fits

/-- `s[start..stop].copy_from_slice(src)`. -/
def copyFromSlice (s : Slice) (start stop : Nat) (src : List Byte) :
    Except Panic Slice :=
  if start ≤ stop ∧ stop ≤ s.bytes.length then
    if src.length = stop - start then
      .ok ⟨Lib.overlay s.bytes start src,
        (Lib.length_overlay ..).trans_le s.fits⟩
    else .error (.message ("copy_from_slice: source slice length does not "
      ++ "match destination slice length"))
  else .error .index

end Slice

/-- `FrameBufferWriter`. -/
structure FrameBufferWriter where
  framebuffer : Slice
  info : FrameBufferInfo
  xPos : Nat
  yPos : Nat

/-- A glyph on the screen: its character and its upper left pixel. -/
structure Glyph where
  c : Char
  x : Nat
  y : Nat

/-- The writer, the pixels it has written, and the glyphs it has drawn
since it last cleared the screen. -/
structure Screen extends FrameBufferWriter where
  pixels : List (Nat × Nat)
  glyphs : List Glyph

-- ============================================================== the cursor

/-- `LINE_SPACING`. -/
def lineSpacing : Nat := 2

/-- `LETTER_SPACING`. -/
def letterSpacing : Nat := 0

/-- `BORDER_PADDING`. -/
def borderPadding : Nat := 1

/-- `carriage_return`. -/
def carriageReturn (self : Screen) : Screen :=
  { self with xPos := borderPadding }

/-- `newline`. -/
def newline (self : Screen) : Except Panic Screen := do
  let spacing ← Usize.add charRasterHeight lineSpacing
  let yPos ← Usize.add self.yPos spacing
  pure (carriageReturn { self with yPos })

/-- `clear`. -/
def clear (self : Screen) : Screen :=
  { self with
    xPos := borderPadding
    yPos := borderPadding
    framebuffer := self.framebuffer.fill
    glyphs := [] }

/-- `FrameBufferWriter::new`. -/
def new (framebuffer : Slice) (info : FrameBufferInfo) : Screen :=
  clear ⟨⟨framebuffer, info, 0, 0⟩, [], []⟩

-- ============================================================== the pixels

/-- The colour of a pixel. For a format that is not supported the writer
sets one that is and panics. -/
def color (format : PixelFormat) (intensity : Byte) :
    Except Panic (List Byte) :=
  match format with
  | .rgb => pure [intensity, intensity, intensity / 2, 0]
  | .bgr => pure [intensity / 2, intensity, intensity, 0]
  | .u8 => pure [if 200 < intensity then 0xf else 0, 0, 0, 0]
  | .unknown r g b => .error (.message (
      "pixel format Unknown \x7b red_position: "
      ++ toString r ++ ", green_position: " ++ toString g
      ++ ", blue_position: " ++ toString b
      ++ " \x7d not supported in logger"))

/-- `write_pixel`. -/
def writePixel (self : Screen) (x y : Nat) (intensity : Byte) :
    Except Panic Screen := do
  let lines ← Usize.mul y self.info.stride
  let pixelOffset ← Usize.add lines x
  let color ← color self.info.pixelFormat intensity
  let bytesPerPixel := self.info.bytesPerPixel
  let byteOffset ← Usize.mul pixelOffset bytesPerPixel
  let stop ← Usize.add byteOffset bytesPerPixel
  let src ← (if bytesPerPixel ≤ color.length
    then .ok (color.take bytesPerPixel) else .error .index)
  let framebuffer ← self.framebuffer.copyFromSlice byteOffset stop src
  -- the volatile read
  let _ ← (if byteOffset < framebuffer.bytes.length
    then .ok () else .error .index)
  pure { self with framebuffer, pixels := self.pixels ++ [(x, y)] }

/-- The loop over a row of a raster. -/
def writeRow (self : Screen) (y x : Nat) : List Byte → Except Panic Screen
  | [] => pure self
  | byte :: row => do
      let px ← Usize.add self.xPos x
      let py ← Usize.add self.yPos y
      let self ← writePixel self px py byte
      writeRow self y (x + 1) row

/-- The loop over the rows. -/
def writeRows (self : Screen) (y : Nat) :
    List (List Byte) → Except Panic Screen
  | [] => pure self
  | row :: rows => do
      let self ← writeRow self y 0 row
      writeRows self (y + 1) rows

/-- `write_rendered_char`. -/
def writeRenderedChar (self : Screen) (renderedChar : RasterizedChar) :
    Except Panic Screen := do
  let self ← writeRows self 0 renderedChar.raster
  let advance ← Usize.add renderedChar.width letterSpacing
  let xPos ← Usize.add self.xPos advance
  pure { self with xPos }

-- ================================================================ the text

/-- The first part of `write_char`: makes room for a glyph. -/
def makeRoom (font : Font) (self : Screen) : Except Panic Screen := do
  let newXpos ← Usize.add self.xPos font.charRasterWidth
  let self ← (if self.info.width ≤ newXpos then newline self else pure self)
  let bottom ← Usize.add self.yPos charRasterHeight
  let newYpos ← Usize.add bottom borderPadding
  pure (if self.info.height ≤ newYpos then clear self else self)

/-- `write_char`. -/
def writeChar (font : Font) (self : Screen) (c : Char) :
    Except Panic Screen :=
  if c = '\n' then newline self
  else if c = '\r' then pure (carriageReturn self)
  else do
    let self ← makeRoom font self
    let rendered ← getCharRaster font c
    writeRenderedChar
      { self with glyphs := self.glyphs ++ [⟨c, self.xPos, self.yPos⟩] }
      rendered

/-- The loop of `write_str`. -/
def writeChars (font : Font) (self : Screen) :
    List Char → Except Panic Screen
  | [] => pure self
  | c :: rest => do
      let self ← writeChar font self c
      writeChars font self rest

/-- `write_str`. -/
def writeStr (font : Font) (self : Screen) (s : String) :
    Except Panic Screen :=
  writeChars font self s.toList

end Bayos.Framebuffer
