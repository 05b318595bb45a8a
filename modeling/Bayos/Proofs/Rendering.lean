/-
The screen shows the text: what is on it after any string without
carriage returns.

# The picture

The glyphs drawn since the last clear are kept in the order they were
drawn. Each is before the next (`Glyph.Before`): above it by a full cell,
or to its left on the same line by a full cell. The cursor is behind them
all, as a glyph to come would be, and every byte of the framebuffer is
that of the glyph at its pixel, or zero (`Rendered`). A carriage return
would take the cursor back over glyphs of its line.
-/
import Bayos.Proofs.Framebuffer

namespace Bayos.Framebuffer

open Rust
open Lib.Raster

-- ================================================================== glyphs

/-- A cell that comes first in reading order and has no pixel of the
other. -/
def Glyph.Before (font : Font) (a b : Glyph) : Prop :=
  a.y + 16 ≤ b.y ∨ a.y = b.y ∧ a.x + font.charRasterWidth ≤ b.x

/-- The pixels of a cell. -/
def Glyph.Covers (font : Font) (g : Glyph) (c l : Nat) : Prop :=
  (g.x ≤ c ∧ c < g.x + font.charRasterWidth) ∧ g.y ≤ l ∧ l < g.y + 16

/-- The intensity of a pixel under the glyphs drawn. -/
def shown (font : Font) : List Glyph → Nat → Nat → Option Byte
  | [], _, _ => none
  | g :: gs, c, l => (shown font gs c l).or (g.paint font c l)

section shown

variable {font : Font}

/-- One more glyph is drawn over the others. -/
theorem shown_append (gs : List Glyph) (g : Glyph) (c l : Nat) :
    shown font (gs ++ [g]) c l
      = (g.paint font c l).or (shown font gs c l) := by
  induction gs with
  | nil => simp [shown]
  | cons a gs ih =>
      rw [List.cons_append, shown, ih, shown, Option.or_assoc]

/-- A pixel of a cell has the intensity of its raster there. -/
theorem paint_at (g : Glyph) {i j : Nat} {row : List Byte} {b : Byte}
    (hrow : (rasterOf font g.c).raster[j]? = some row)
    (hget : row[i]? = some b) :
    g.paint font (g.x + i) (g.y + j) = some b := by
  unfold Glyph.paint rasterPaint
  rw [if_pos ⟨Nat.le_add_right .., Nat.le_add_right ..⟩,
    Nat.add_sub_cancel_left, Nat.add_sub_cancel_left, hrow]
  exact hget

theorem paint_covers {g : Glyph} {c l : Nat}
    (h : (g.paint font c l).isSome) : g.Covers font c l := by
  obtain ⟨hx, hc, hy, hl⟩ := paint_isSome h
  exact ⟨⟨hx, hc⟩, hy, hl⟩

theorem paint_none {g : Glyph} {c l : Nat} (h : ¬ g.Covers font c l) :
    g.paint font c l = none := by
  cases hp : g.paint font c l with
  | none => rfl
  | some b => exact absurd (paint_covers (by rw [hp]; rfl)) h

theorem shown_none {gs : List Glyph} {c l : Nat}
    (h : ∀ g ∈ gs, ¬ g.Covers font c l) : shown font gs c l = none := by
  induction gs with
  | nil => rfl
  | cons g gs ih =>
      rw [shown, ih fun a ha => h a (List.mem_cons_of_mem _ ha),
        paint_none (h g (List.mem_cons_self ..))]
      rfl

/-- Two cells of which one is before the other have no pixel in common. -/
theorem Glyph.Before.apart {a b : Glyph} (h : a.Before font b)
    (c l : Nat) : ¬ (a.Covers font c l ∧ b.Covers font c l) := by
  intro hboth
  obtain ⟨⟨⟨-, hac⟩, hay, hal⟩, ⟨hbx, -⟩, hby, -⟩ := hboth
  rcases h with hy | ⟨hy, hx⟩
  · omega
  · omega

/-- Of cells that are apart, each shows its own glyph. -/
theorem shown_mem {gs : List Glyph} (hgs : gs.Pairwise (Glyph.Before font))
    {g : Glyph} (hg : g ∈ gs) {c l : Nat} {b : Byte}
    (hb : g.paint font c l = some b) : shown font gs c l = some b := by
  induction gs with
  | nil => cases hg
  | cons a gs ih =>
      obtain ⟨hfirst, hrest⟩ := List.pairwise_cons.mp hgs
      rcases List.mem_cons.mp hg with rfl | hin
      · have hcover : g.Covers font c l := paint_covers (by rw [hb]; rfl)
        have hnone : shown font gs c l = none := by
          refine shown_none fun d hd hcov => ?_
          exact (hfirst d hd).apart c l ⟨hcover, hcov⟩
        rw [shown, hnone, hb]
        rfl
      · rw [shown, ih hrest hin]
        rfl

end shown

-- =========================================================== the invariant

/-- The glyphs since the last clear are in reading order and on the
screen, the cursor is behind them, and the framebuffer holds them and
nothing else. -/
structure Rendered (font : Font) (s : Screen) : Prop where
  ordered : s.glyphs.Pairwise (Glyph.Before font)
  behind : ∀ g ∈ s.glyphs, g.y + 16 ≤ s.yPos
    ∨ g.y = s.yPos ∧ g.x + font.charRasterWidth ≤ s.xPos
  within : ∀ g ∈ s.glyphs, g.x + font.charRasterWidth ≤ s.info.width
    ∧ g.y + 16 ≤ s.info.height
  bytes : ∀ k, k < s.framebuffer.bytes.length →
    s.framebuffer.bytes[k]?
      = (shown font s.glyphs
          (column s.info.stride s.info.bytesPerPixel k)
          (line s.info.stride s.info.bytesPerPixel k)).elim (some 0)
          fun i => (encode s.info.pixelFormat i)[k % s.info.bytesPerPixel]?

section invariant

variable {font : Font} {s : Screen}

theorem rendered_clear (s : Screen) : Rendered font (clear s) where
  ordered := .nil
  behind g hg := by cases hg
  within g hg := by cases hg
  bytes k hk := by
    unfold clear Slice.fill at *
    simp only [List.length_replicate] at hk
    simp only [List.getElem?_replicate, if_pos hk]
    rfl

theorem rendered_fed (h : Rendered font s) : Rendered font (fed s) where
  ordered := h.ordered
  behind g hg := by
    have hlow : (fed s).yPos = s.yPos + 18 := rfl
    rcases h.behind g hg with hy | ⟨hy, -⟩
    · left
      omega
    · left
      omega
  within := h.within
  bytes := h.bytes

theorem rendered_room (h : Rendered font s) :
    Rendered font (room font s) := by
  have hwrap : Rendered font (wrapped font s) := by
    unfold wrapped
    split
    · exact rendered_fed h
    · exact h
  unfold room
  split
  · exact rendered_clear _
  · exact hwrap

/-- Drawing the next glyph. -/
theorem rendered_glyph {r t : Screen} (h : Rendered font r) {c : Char}
    (hx : r.xPos + font.charRasterWidth ≤ r.info.width)
    (hy : r.yPos + 16 ≤ r.info.height)
    (hdraws : Draws (r.withGlyph c) t (Glyph.paint font
      ⟨c, r.xPos, r.yPos⟩)) :
    Rendered font { t with xPos := r.xPos + font.charRasterWidth } := by
  have hglyphs : t.glyphs = r.glyphs ++ [⟨c, r.xPos, r.yPos⟩] :=
    hdraws.glyphs
  have hinfo : t.info = r.info := hdraws.info
  have hyPos : t.yPos = r.yPos := hdraws.yPos
  refine ⟨?_, ?_, ?_, ?_⟩
  · simp only [hglyphs]
    refine List.pairwise_append.mpr
      ⟨h.ordered, List.pairwise_singleton .., ?_⟩
    intro a ha b hb
    obtain rfl := List.mem_singleton.mp hb
    exact h.behind a ha
  · simp only [hglyphs, hyPos]
    intro g hg
    rcases List.mem_append.mp hg with hold | hnew
    · rcases h.behind g hold with hline | ⟨hline, hleft⟩
      · exact Or.inl hline
      · exact Or.inr ⟨hline, hleft.trans (Nat.le_add_right ..)⟩
    · obtain rfl := List.mem_singleton.mp hnew
      exact Or.inr ⟨rfl, Nat.le_refl _⟩
  · simp only [hglyphs, hinfo]
    intro g hg
    rcases List.mem_append.mp hg with hold | hnew
    · exact h.within g hold
    · obtain rfl := List.mem_singleton.mp hnew
      exact ⟨hx, hy⟩
  · intro k hk
    have hlen : t.framebuffer.bytes.length = r.framebuffer.bytes.length :=
      hdraws.length
    have hold := h.bytes k (hlen ▸ hk)
    simp only [hdraws.bytes k, hglyphs, hinfo, shown_append]
    show Option.elim _ r.framebuffer.bytes[k]? _ = _
    rw [hold]
    show Option.elim (Glyph.paint font ⟨c, r.xPos, r.yPos⟩
      (column r.info.stride r.info.bytesPerPixel k)
      (line r.info.stride r.info.bytesPerPixel k)) _ _ = _
    cases Glyph.paint font ⟨c, r.xPos, r.yPos⟩
      (column r.info.stride r.info.bytesPerPixel k)
      (line r.info.stride r.info.bytesPerPixel k) <;> rfl

theorem rendered_step (hs : s.Sound font) (h : Rendered font s) {c : Char}
    {t : Screen} (hc : c ≠ '\r') (hstep : Step font s c t) :
    Rendered font t := by
  cases hstep with
  | feed => exact rendered_fed h
  | home => exact absurd rfl hc
  | glyph hn hr hdraws =>
      obtain ⟨-, hx, hy⟩ := room_fits hs
      have hinfo : (room font s).info = s.info := room_info
      rw [← hinfo] at hx hy
      exact rendered_glyph (rendered_room h) hx hy hdraws

end invariant

-- ================================================================ the text

/-- The characters of a text that are drawn. -/
def drawn (text : List Char) : List Char := text.filter (· ≠ '\n')

/-- The glyphs are those of the last characters drawn, the last included
if there is one. -/
structure Latest (s : Screen) (text : List Char) : Prop where
  suffix : s.glyphs.map Glyph.c <:+ drawn text
  last : drawn text ≠ [] → s.glyphs ≠ []

theorem latest_step {font : Font} {s t : Screen} {text : List Char}
    {c : Char} (h : Latest s text) (hc : c ≠ '\r')
    (hstep : Step font s c t) : Latest t (text ++ [c]) := by
  cases hstep with
  | feed =>
      have hsame : drawn (text ++ ['\n']) = drawn text := by simp [drawn]
      refine ⟨?_, ?_⟩
      · rw [hsame]
        exact h.suffix
      · rw [hsame]
        exact h.last
  | home => exact absurd rfl hc
  | glyph hn hr hdraws =>
      rename_i u
      have hmore : drawn (text ++ [c]) = drawn text ++ [c] := by
        simp [drawn, hn]
      have hglyphs : u.glyphs = (room font s).glyphs
          ++ [⟨c, (room font s).xPos, (room font s).yPos⟩] := hdraws.glyphs
      have hroom : (room font s).glyphs.map Glyph.c <:+ drawn text := by
        unfold room
        split
        · exact List.nil_suffix
        · unfold wrapped
          split
          · exact h.suffix
          · exact h.suffix
      refine ⟨?_, ?_⟩
      · simp only [hglyphs, hmore, List.map_append, List.map_cons,
          List.map_nil]
        exact List.suffix_append_self_iff.mpr hroom
      · simp [hglyphs]

/-- The invariant along a text. -/
theorem rendered_text {font : Font} {text : List Char} :
    ∀ {s t : Screen} {before : List Char}, s.Sound font → Rendered font s →
      Latest s before → '\r' ∉ text → writeChars font s text = .ok t →
      t.Sound font ∧ Rendered font t ∧ Latest t (before ++ text) := by
  induction text with
  | nil =>
      intro s t before hs hr hl _ h
      rw [← Except.ok.inj h, List.append_nil]
      exact ⟨hs, hr, hl⟩
  | cons c text ih =>
      intro s t before hs hr hl hcr h
      obtain ⟨hc, htext⟩ := List.ne_and_not_mem_of_not_mem_cons hcr
      obtain ⟨u, hu, hrest⟩ := bind_eq_ok.mp h
      have hstep := writeChar_step hs hu
      have hmore : Latest u (before ++ [c]) :=
        latest_step hl (Ne.symm hc) hstep
      have hall := ih (hstep.sound hs)
        (rendered_step hs hr (Ne.symm hc) hstep) hmore htext hrest
      rwa [List.append_assoc] at hall

-- ============================================================= the results

/-- The bytes of a pixel. -/
def Screen.pixel (s : Screen) (x y : Nat) : List Byte :=
  (s.framebuffer.bytes.drop
    (offset s.info.stride s.info.bytesPerPixel x y)).take
      s.info.bytesPerPixel

/-- The screen shows a text: the cells drawn since the last clear are
those of its last characters; they are in reading order and have no pixel
in common; each holds the glyph of its character in the encoding of the
framebuffer; and every byte that is in no cell is zero. -/
structure ShowsText (font : Font) (s : Screen) (text : List Char) :
    Prop where
  suffix : s.glyphs.map Glyph.c <:+ drawn text
  last : drawn text ≠ [] → s.glyphs ≠ []
  order : s.glyphs.Pairwise fun a b => a.y < b.y ∨ a.y = b.y ∧ a.x < b.x
  apart : s.glyphs.Pairwise fun a b =>
    ∀ c l, ¬ (a.Covers font c l ∧ b.Covers font c l)
  within : ∀ g ∈ s.glyphs, ∀ c l, g.Covers font c l →
    c < s.info.width ∧ l < s.info.height
  glyphs : ∀ g ∈ s.glyphs, ∀ j row,
    (rasterOf font g.c).raster[j]? = some row →
    ∀ i b, row[i]? = some b →
      s.pixel (g.x + i) (g.y + j)
        = (encode s.info.pixelFormat b).take s.info.bytesPerPixel
  blank : ∀ k b, s.framebuffer.bytes[k]? = some b →
    (∀ g ∈ s.glyphs, ¬ g.Covers font
      (column s.info.stride s.info.bytesPerPixel k)
      (line s.info.stride s.info.bytesPerPixel k)) → b = 0

section results

variable {font : Font} {s : Screen}

/-- The bytes of a pixel with a known intensity. -/
theorem Rendered.pixel_eq (hs : s.Sound font) (h : Rendered font s)
    {x y : Nat} (hx : x < s.info.width) (hy : y < s.info.height) {b : Byte}
    (hb : shown font s.glyphs x y = some b) :
    s.pixel x y
      = (encode s.info.pixelFormat b).take s.info.bytesPerPixel := by
  have hdepth := hs.depth.1
  have hle := hs.pixel_le hx hy
  refine List.ext_getElem? fun k => ?_
  unfold Screen.pixel
  rw [List.getElem?_take, List.getElem?_take, List.getElem?_drop]
  by_cases hk : k < s.info.bytesPerPixel
  · rw [if_pos hk, if_pos hk]
    have hin := (mem_pixel (y := y)
      (k := offset s.info.stride s.info.bytesPerPixel x y + k)
      (Nat.lt_of_lt_of_le hx hs.stride) hdepth).mp ⟨by omega, by omega⟩
    have hlane := lane
      (Nat.le_add_right (offset s.info.stride s.info.bytesPerPixel x y) k)
      (Nat.add_lt_add_left hk _)
    rw [Nat.add_sub_cancel_left] at hlane
    rw [h.bytes _ (by omega), hin.1, hin.2, hb, ← hlane]
    rfl
  · rw [if_neg hk, if_neg hk]

theorem Rendered.showsText (hs : s.Sound font) (h : Rendered font s)
    {text : List Char} (hl : Latest s text) : ShowsText font s text where
  suffix := hl.suffix
  last := hl.last
  order := by
    refine h.ordered.imp ?_
    intro a b hab
    have hpos := font.positive
    rcases hab with hy | ⟨hy, hx⟩
    · left
      omega
    · right
      exact ⟨hy, by omega⟩
  apart := h.ordered.imp fun hab => hab.apart
  within g hg c l hcover := by
    obtain ⟨hx, hy⟩ := h.within g hg
    obtain ⟨⟨-, hc⟩, -, hl⟩ := hcover
    exact ⟨Nat.lt_of_lt_of_le hc hx, Nat.lt_of_lt_of_le hl hy⟩
  glyphs g hg j row hrow i b hget := by
    obtain ⟨hx, hy⟩ := h.within g hg
    have hpaint := paint_at g hrow hget
    obtain ⟨-, hc, -, hl⟩ := paint_isSome (by rw [hpaint]; rfl)
    exact h.pixel_eq hs (Nat.lt_of_lt_of_le hc hx)
      (Nat.lt_of_lt_of_le hl hy) (shown_mem h.ordered hg hpaint)
  blank k b hget hnone := by
    have hk := (List.getElem?_eq_some_iff.mp hget).1
    rw [h.bytes k hk, shown_none hnone] at hget
    exact (Option.some.inj hget).symm

end results

/-- The screen shows the text: on every sound geometry, after any text
without carriage returns, if it is written; and one of fewer than `2^59`
characters is. -/
theorem text_shown {font : Font} {framebuffer : Slice}
    {info : FrameBufferInfo}
    (hgeometry : Geometry font info framebuffer.bytes.length)
    (text : List Char) (hcr : '\r' ∉ text) :
    (text.length < 2 ^ 59 →
      ∃ s, writeChars font (new framebuffer info) text = .ok s)
    ∧ ∀ s, writeChars font (new framebuffer info) text = .ok s →
        ShowsText font s text := by
  have hnew := inside_new hgeometry
  refine ⟨?_, ?_⟩
  · intro hlength
    have hstart : (new framebuffer info).yPos = 1 := rfl
    obtain ⟨s, hs, -⟩ := writeChars_returns text hnew
      (by
        rw [hstart]
        unfold wordSize
        omega)
    exact ⟨s, hs⟩
  · intro s hs
    have hlatest : Latest (new framebuffer info) [] :=
      ⟨List.nil_suffix, fun hne => absurd rfl hne⟩
    obtain ⟨hsound, hrendered, hl⟩ := rendered_text hnew.sound
      (rendered_clear _) hlatest hcr hs
    exact hrendered.showsText hsound hl

/-- A space on the small screen, in the second line of the text. -/
theorem text_shown_space :
    ∃ s, writeChars spaceFont (new smallBuffer smallInfo) ['\n', ' ']
        = .ok s
      ∧ ShowsText spaceFont s ['\n', ' '] := by
  obtain ⟨hreturns, hshows⟩ :=
    text_shown smallGeometry ['\n', ' '] (by decide)
  obtain ⟨s, hs⟩ := hreturns (by decide)
  exact ⟨s, hs, hshows s hs⟩

/-- Line feeds enough to take the cursor out of a word. -/
theorem feeds_overflow (font : Font) (n : Nat) :
    ∀ s : Screen, wordSize ≤ s.yPos + 18 * n → s.yPos < wordSize →
      ∃ p, writeChars font s (List.replicate n '\n') = .error p := by
  induction n with
  | zero =>
      intro s hn hlt
      omega
  | succ n ih =>
      intro s hn hlt
      rw [List.replicate_succ, writeChars, writeChar, if_pos rfl]
      by_cases hy : s.yPos + 18 < wordSize
      · rw [newline_eq hy, ok_bind]
        exact ih (fed s) (by
          show wordSize ≤ s.yPos + 18 + 18 * n
          omega) hy
      · have hsum : Usize.add s.yPos (charRasterHeight + lineSpacing)
            = .error .overflow := if_neg hy
        refine ⟨.overflow, ?_⟩
        unfold newline
        rw [Usize.add_eq (by decide), ok_bind, hsum]
        rfl

/-- A string of `2^61` line feeds is not written. -/
theorem feeds_not_written :
    ¬ ∀ (font : Font) (framebuffer : Slice) (info : FrameBufferInfo),
      Geometry font info framebuffer.bytes.length →
      ∀ text, '\r' ∉ text →
        ∃ s, writeChars font (new framebuffer info) text = .ok s
          ∧ ShowsText font s text := by
  intro hall
  have hcr : '\r' ∉ List.replicate (2 ^ 61) '\n' := by
    intro hmem
    exact absurd (List.eq_of_mem_replicate hmem) (by decide)
  obtain ⟨s, hs, -⟩ := hall _ _ _ smallGeometry _ hcr
  have hstart : (new smallBuffer smallInfo).yPos = 1 := rfl
  obtain ⟨p, hp⟩ := feeds_overflow spaceFont (2 ^ 61)
    (new smallBuffer smallInfo)
    (by
      rw [hstart]
      unfold wordSize
      omega)
    (by
      rw [hstart]
      unfold wordSize
      omega)
  rw [hs] at hp
  cases hp

end Bayos.Framebuffer
