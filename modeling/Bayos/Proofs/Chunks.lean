/-
When it makes no difference to the screen how output is cut into system
calls.

Characters are written one after the other, so a cut between characters
makes none (`writeChars_append`). But each call validates its own bytes
and drops them all if they are not UTF-8. A cut inside a character loses
both pieces, and bytes that are not UTF-8 lose what they are sent
together with. Lost text is seen in some state of the writer, whatever
the text (`text_visible`): a glyph from far below the screen, since it
clears it; a newline or a carriage return right behind a glyph.
-/
import Bayos.Lib.Utf8
import Bayos.Model.Console
import Bayos.Proofs.Framebuffer
import Bayos.Proofs.Pointers

namespace Bayos.Framebuffer

open Rust
open Lib (Word)
open Kernel (fromUtf8 bind_ok lift_ok pure_ok lockLogger_ok loadBytes_ok)

-- ============================================================== the writer

theorem writeChars_append (font : Font) (a b : List Char) :
    ∀ s, writeChars font s (a ++ b)
      = (writeChars font s a >>= fun t => writeChars font t b) := by
  induction a with
  | nil => intro s; rfl
  | cons c a ih =>
      intro s
      rw [List.cons_append, writeChars, writeChars]
      cases writeChar font s c with
      | error p => rfl
      | ok t => exact ih t

/-- `n` line feeds. -/
theorem writeChars_feeds (font : Font) (n : Nat) :
    ∀ s : Screen, s.yPos + 18 * n < wordSize →
      writeChars font s (List.replicate n '\n')
        = .ok (if n = 0 then s
            else carriageReturn { s with yPos := s.yPos + 18 * n }) := by
  induction n with
  | zero => intro s _; rfl
  | succ n ih =>
      intro s hn
      rw [List.replicate_succ, writeChars, writeChar, if_pos rfl,
        newline_eq (by omega), ok_bind, ih (fed s) (by
          show s.yPos + 18 + 18 * n < wordSize
          omega)]
      by_cases hzero : n = 0
      · subst hzero
        rfl
      · have hsum : s.yPos + 18 + 18 * n = s.yPos + 18 * (n + 1) := by omega
        rw [if_neg hzero, if_neg (Nat.succ_ne_zero n), ← hsum]
        rfl

-- ======================================================= text that is seen

/-- Characters that move the cursor and draw nothing. -/
def Control (c : Char) : Prop := c = '\n' ∨ c = '\r'

instance (c : Char) : Decidable (Control c) :=
  inferInstanceAs (Decidable (_ ∨ _))

/-- Text without glyphs leaves the cursor at the start of a line. -/
theorem control_home {font : Font} {text : List Char} :
    ∀ {s t : Screen}, (∀ c ∈ text, Control c) → text ≠ [] →
      writeChars font s text = .ok t → t.xPos = 1 := by
  induction text with
  | nil => intro s t _ hne _; exact absurd rfl hne
  | cons c text ih =>
      intro s t hall _ h
      obtain ⟨u, hu, hrest⟩ := bind_eq_ok.mp h
      have hhome : u.xPos = 1 := by
        rcases hall c (List.mem_cons_self ..) with rfl | rfl
        · unfold writeChar at hu
          rw [if_pos rfl] at hu
          rw [newline_ok hu]
          rfl
        · unfold writeChar at hu
          rw [if_neg (by decide), if_pos rfl] at hu
          rw [← Except.ok.inj hu]
          rfl
      by_cases hmore : text = []
      · rw [hmore] at hrest
        rw [← Except.ok.inj hrest]
        exact hhome
      · exact ih (fun d hd => hall d (List.mem_cons_of_mem _ hd)) hmore hrest

/-- The same screen with the cursor on another line. -/
def Screen.at (s : Screen) (y : Nat) : Screen := { s with yPos := y }

/-- Below the screen there is no room for a glyph without clearing it. -/
theorem room_below {font : Font} {s : Screen} {y : Nat}
    (hy : s.info.height ≤ y) : room font (s.at y) = clear s := by
  have hlow : (s.at y).info.height ≤ (wrapped font (s.at y)).yPos + 17 := by
    unfold wrapped
    split
    · show s.info.height ≤ y + 18 + 17
      omega
    · show s.info.height ≤ y + 17
      omega
  unfold room
  rw [if_pos hlow]
  unfold wrapped
  split
  · rfl
  · rfl

/-- So from any two lines there a glyph leaves the same screen. -/
theorem glyph_below {font : Font} {s t t' : Screen} {y z : Nat} {c : Char}
    (hy : s.info.height ≤ y) (hz : s.info.height ≤ z) (hc : ¬ Control c)
    (h : writeChar font (s.at y) c = .ok t)
    (h' : writeChar font (s.at z) c = .ok t') : t = t' := by
  obtain ⟨hn, hr⟩ := not_or.mp hc
  rw [writeChar_room (writeChar_made h hn hr) hn hr, room_below hy] at h
  rw [writeChar_room (writeChar_made h' hn hr) hn hr, room_below hz] at h'
  exact Except.ok.inj (h.symm.trans h')

/-- From two lines below the screen, a text with a glyph in it leaves the
same screen: the first glyph clears it. -/
theorem below_same {font : Font} {text : List Char} :
    ∀ {s t t' : Screen} {y z : Nat}, s.info.height ≤ y →
      s.info.height ≤ z → (∃ c ∈ text, ¬ Control c) →
      writeChars font (s.at y) text = .ok t →
      writeChars font (s.at z) text = .ok t' → t = t' := by
  induction text with
  | nil =>
      intro s t t' y z _ _ hglyph _ _
      obtain ⟨c, hc, -⟩ := hglyph
      cases hc
  | cons c text ih =>
      intro s t t' y z hy hz hglyph h h'
      obtain ⟨u, hu, hrest⟩ := bind_eq_ok.mp h
      obtain ⟨u', hu', hrest'⟩ := bind_eq_ok.mp h'
      by_cases hc : Control c
      · -- the cursor stays below the screen
        have hmore : ∃ d ∈ text, ¬ Control d := by
          obtain ⟨d, hd, hnot⟩ := hglyph
          rcases List.mem_cons.mp hd with rfl | hin
          · exact absurd hc hnot
          · exact ⟨d, hin, hnot⟩
        rcases hc with rfl | rfl
        · unfold writeChar at hu hu'
          rw [if_pos rfl] at hu hu'
          rw [newline_ok hu] at hrest
          rw [newline_ok hu'] at hrest'
          exact ih (s := carriageReturn s) (y := y + 18) (z := z + 18)
            (Nat.le_add_right_of_le hy) (Nat.le_add_right_of_le hz) hmore
            hrest hrest'
        · unfold writeChar at hu hu'
          rw [if_neg (by decide), if_pos rfl] at hu hu'
          rw [← Except.ok.inj hu] at hrest
          rw [← Except.ok.inj hu'] at hrest'
          exact ih (s := carriageReturn s) hy hz hmore hrest hrest'
      · have hsame := glyph_below hy hz hc hu hu'
        rw [hsame] at hrest
        exact Except.ok.inj (hrest.symm.trans hrest')

/-- The framebuffer and the cursor after a write. -/
def writerOf (r : Except Panic Screen) : Except Panic FrameBufferWriter :=
  r.map Screen.toFrameBufferWriter

section visible

variable {font : Font} {framebuffer : Slice} {info : FrameBufferInfo}

/-- Text with no glyph is seen behind a glyph. -/
theorem control_visible
    (hgeometry : Geometry font info framebuffer.bytes.length)
    {text : List Char} (hall : ∀ c ∈ text, Control c) (hne : text ≠ []) :
    ∃ before s, writeChars font (new framebuffer info) before = .ok s
      ∧ writerOf (writeChars font s text)
        ≠ .ok s.toFrameBufferWriter := by
  have hnew := inside_new hgeometry
  obtain ⟨s, hs, hstep⟩ := writeChar_returns hnew.sound hnew.column
    (by show 1 + 35 < wordSize; decide) 'a'
  refine ⟨['a'], s, ?_, ?_⟩
  · rw [writeChars, hs]
    rfl
  · intro hsame
    have hright : 1 < s.xPos := by
      have hstart : (room font (new framebuffer info)).xPos = 1 := by
        unfold room wrapped
        split <;> split <;> rfl
      have hpos := font.positive
      cases hstep with
      | glyph hn hr hdraws =>
          show 1 < (room font (new framebuffer info)).xPos
            + font.charRasterWidth
          omega
    cases htext : writeChars font s text with
    | error p =>
        rw [htext] at hsame
        cases hsame
    | ok t =>
        rw [htext] at hsame
        have hx : t.xPos = s.xPos := congrArg FrameBufferWriter.xPos
          (Except.ok.inj hsame)
        rw [control_home hall hne htext] at hx
        omega

/-- Text with a glyph is seen from far below the screen. -/
theorem glyph_visible
    (hgeometry : Geometry font info framebuffer.bytes.length)
    {text : List Char} (hglyph : ∃ c ∈ text, ¬ Control c) :
    ∃ before s, writeChars font (new framebuffer info) before = .ok s
      ∧ writerOf (writeChars font s text)
        ≠ .ok s.toFrameBufferWriter := by
  by_contra hnone
  have hheight : info.height ≤ isizeMax :=
    (inside_new hgeometry).sound.height_le
  have hstart : (new framebuffer info).yPos = 1 := rfl
  -- line feeds to below the screen, and one more
  have hbelow : ∀ n, n ≠ 0 → 18 * n ≤ info.height + 36 →
      writeChars font (new framebuffer info) (List.replicate n '\n')
        = .ok ((new framebuffer info).at (1 + 18 * n)) := by
    intro n hn hle
    rw [writeChars_feeds font n _ (by
      rw [hstart]
      unfold wordSize isizeMax at *
      omega), if_neg hn]
    rfl
  have hstay : ∀ n, n ≠ 0 → 18 * n ≤ info.height + 36 →
      ∃ t, writeChars font ((new framebuffer info).at (1 + 18 * n)) text
          = .ok t ∧ t.yPos = 1 + 18 * n := by
    intro n hn hle
    by_contra hnot
    refine hnone ⟨_, _, hbelow n hn hle, ?_⟩
    intro hsame
    cases htext : writeChars font
        ((new framebuffer info).at (1 + 18 * n)) text with
    | error p =>
        rw [htext] at hsame
        cases hsame
    | ok t =>
        rw [htext] at hsame
        exact hnot ⟨t, htext, congrArg FrameBufferWriter.yPos
          (Except.ok.inj hsame)⟩
  obtain ⟨t, ht, hy⟩ := hstay (info.height / 18 + 1) (by omega) (by omega)
  obtain ⟨t', ht', hy'⟩ := hstay (info.height / 18 + 2) (by omega) (by omega)
  have hinfo : (new framebuffer info).info.height = info.height := rfl
  have hsame := below_same (by omega) (by omega) hglyph ht ht'
  rw [← hsame, hy] at hy'
  omega

/-- No text is written unseen everywhere. -/
theorem text_visible
    (hgeometry : Geometry font info framebuffer.bytes.length)
    {text : List Char} (hne : text ≠ []) :
    ∃ before s, writeChars font (new framebuffer info) before = .ok s
      ∧ writerOf (writeChars font s text)
        ≠ .ok s.toFrameBufferWriter := by
  by_cases hall : ∀ c ∈ text, Control c
  · exact control_visible hgeometry hall hne
  · refine glyph_visible hgeometry ?_
    by_contra hnone
    refine hall fun c hc => ?_
    by_contra hnot
    exact hnone ⟨c, hc, hnot⟩

end visible

-- ============================================================== the chunks

/-- The bytes are UTF-8. -/
def Valid (bytes : List Byte) : Prop := (fromUtf8 bytes).isSome

/-- The bytes as an array. -/
def byteArray (bytes : List Byte) : ByteArray :=
  ⟨(bytes.map UInt8.ofBitVec).toArray⟩

theorem byteArray_append (a b : List Byte) :
    byteArray (a ++ b) = byteArray a ++ byteArray b := by
  apply ByteArray.ext
  simp [byteArray]

theorem fromUtf8_eq (bytes : List Byte) (h : (byteArray bytes).IsValidUTF8) :
    fromUtf8 bytes = some (String.fromUTF8 (byteArray bytes) h) :=
  dif_pos h

theorem valid_iff (bytes : List Byte) :
    Valid bytes ↔ (byteArray bytes).IsValidUTF8 := by
  constructor
  · intro h
    by_contra hnot
    have hnone : fromUtf8 bytes = none := dif_neg hnot
    unfold Valid at h
    rw [hnone] at h
    cases h
  · intro h
    unfold Valid
    rw [fromUtf8_eq bytes h]
    rfl

/-- A valid sequence that is cut has both parts valid or neither. -/
theorem valid_cut {a b : List Byte} (h : Valid (a ++ b)) :
    Valid a ↔ Valid b := by
  rw [valid_iff, byteArray_append] at h
  rw [valid_iff, valid_iff]
  exact Lib.isValidUTF8_cut h

/-- Valid parts make a valid whole, whose text is theirs. -/
theorem fromUtf8_append {a b : List Byte} {s t : String}
    (ha : fromUtf8 a = some s) (hb : fromUtf8 b = some t) :
    fromUtf8 (a ++ b) = some (s ++ t) := by
  have hva := (valid_iff a).mp (by unfold Valid; rw [ha]; rfl)
  have hvb := (valid_iff b).mp (by unfold Valid; rw [hb]; rfl)
  rw [fromUtf8_eq a hva] at ha
  rw [fromUtf8_eq b hvb] at hb
  have hv : (byteArray (a ++ b)).IsValidUTF8 := by
    rw [byteArray_append]
    exact hva.append hvb
  rw [fromUtf8_eq _ hv, ← Option.some.inj ha, ← Option.some.inj hb]
  refine congrArg some (String.toByteArray_inj.mp ?_)
  rw [String.toByteArray_append]
  exact byteArray_append a b

/-- Bytes that are there make text that is there. -/
theorem toList_ne_nil {bytes : List Byte} {s : String}
    (h : fromUtf8 bytes = some s) (hne : bytes ≠ []) : s.toList ≠ [] := by
  intro hnil
  have hv := (valid_iff bytes).mp (by unfold Valid; rw [h]; rfl)
  rw [fromUtf8_eq bytes hv] at h
  have hempty : s = "" := String.toList_eq_nil_iff.mp hnil
  have hbytes : byteArray bytes = "".toByteArray := by
    rw [← hempty, ← Option.some.inj h]
    rfl
  have hdata : (bytes.map UInt8.ofBitVec).toArray = #[] :=
    congrArg ByteArray.data hbytes
  rw [List.toArray_eq_iff, List.map_eq_nil_iff] at hdata
  exact hne hdata

section chunks

variable {font : Font} {s : Screen} {a b : List Byte}

theorem writeSyscall_valid {t : String} (h : fromUtf8 a = some t) :
    writeSyscall font s 1 a = writeChars font s t.toList := by
  unfold writeSyscall
  rw [if_pos rfl, h]
  rfl

theorem writeSyscall_invalid (h : ¬ Valid a) :
    writeSyscall font s 1 a = .ok s := by
  unfold Valid at h
  rw [Option.not_isSome_iff_eq_none] at h
  unfold writeSyscall
  rw [if_pos rfl, h]
  rfl

theorem writeSyscall_nil : writeSyscall font s 1 [] = .ok s := by
  have hempty : fromUtf8 [] = some "" := by decide +kernel
  rw [writeSyscall_valid hempty]
  rfl

end chunks

/-- A system call that prints adds to the text of the console what the
writer writes: a writer that shows the text before shows the text after. -/
theorem console_written {PT : Type} {M : Kernel.PageMapper PT}
    {k k' : Kernel.State PT} {debug : Bool}
    {console console' : Kernel.Console} {buf count : Word}
    (h : Kernel.writeSyscall M debug console 1 buf count k
      = .ok (console', k')) :
    ∃ bytes, Kernel.loadBytes M buf count.toNat k = .ok (bytes, k)
      ∧ ∀ font start s, writeChars font start console.screen = .ok s →
          writeChars font start console'.screen
            = writeSyscall font s 1 bytes := by
  unfold Kernel.writeSyscall at h
  rw [if_pos rfl] at h
  obtain ⟨_, k₁, hcheck, hrest⟩ := bind_ok.mp h
  obtain ⟨_, k₂, hlock, hload⟩ := bind_ok.mp hrest
  obtain ⟨bytes, k₃, hbytes, hprint⟩ := bind_ok.mp hload
  obtain ⟨-, rfl⟩ := lift_ok.mp hcheck
  obtain ⟨-, rfl⟩ := lockLogger_ok.mp hlock
  obtain ⟨-, -, rfl⟩ := loadBytes_ok.mp hbytes
  obtain ⟨rfl, -⟩ := pure_ok.mp hprint
  refine ⟨bytes, hbytes, ?_⟩
  intro font start s hs
  cases htext : fromUtf8 bytes with
  | none =>
      rw [writeSyscall_invalid (by unfold Valid; rw [htext]; simp)]
      exact hs
  | some text =>
      rw [writeSyscall_valid htext]
      show writeChars font start (console.screen ++ text.toList) = _
      rw [writeChars_append, hs]
      rfl

/-- Whatever was written before, `a` and then `b` leave the framebuffer
and the cursor as `a ++ b` does. -/
def ChunkFree (font : Font) (framebuffer : Slice) (info : FrameBufferInfo)
    (a b : List Byte) : Prop :=
  ∀ before s, writeChars font (new framebuffer info) before = .ok s →
    writerOf (writeSyscall font s 1 a >>= fun t => writeSyscall font t 1 b)
      = writerOf (writeSyscall font s 1 (a ++ b))

section results

variable {font : Font} {framebuffer : Slice} {info : FrameBufferInfo}
  {a b : List Byte}

/-- Text that only one of the two ways writes is missed. -/
theorem not_chunkFree
    (hgeometry : Geometry font info framebuffer.bytes.length)
    {text : List Char} (hne : text ≠ [])
    (h : ∀ s, writerOf (writeSyscall font s 1 a >>= fun t =>
          writeSyscall font t 1 b) = .ok s.toFrameBufferWriter
        ∧ writeSyscall font s 1 (a ++ b) = writeChars font s text
      ∨ (writeSyscall font s 1 a >>= fun t => writeSyscall font t 1 b)
          = writeChars font s text
        ∧ writeSyscall font s 1 (a ++ b) = .ok s) :
    ¬ ChunkFree font framebuffer info a b := by
  intro hfree
  obtain ⟨before, s, hs, hseen⟩ := text_visible hgeometry hne
  have hboth := hfree before s hs
  rcases h s with ⟨hfirst, hsecond⟩ | ⟨hfirst, hsecond⟩
  · rw [hfirst, hsecond] at hboth
    exact hseen hboth.symm
  · rw [hfirst, hsecond] at hboth
    exact hseen hboth

/-- A character cut in two is lost. -/
theorem cut_lost (hgeometry : Geometry font info framebuffer.bytes.length)
    (ha : ¬ Valid a) (hb : ¬ Valid b) (hab : Valid (a ++ b)) :
    ¬ ChunkFree font framebuffer info a b := by
  obtain ⟨t, ht⟩ := Option.isSome_iff_exists.mp hab
  have hne : a ++ b ≠ [] := by
    intro hnil
    rw [(List.append_eq_nil_iff.mp hnil).1] at ha
    exact ha (by unfold Valid; decide +kernel)
  refine not_chunkFree hgeometry (toList_ne_nil ht hne) fun s => Or.inl ?_
  rw [writeSyscall_invalid ha, ok_bind, writeSyscall_invalid hb,
    writeSyscall_valid ht]
  exact ⟨rfl, rfl⟩

/-- Of two chunks that are not both UTF-8, one that is shows on some
screen, but not when the two are written in one. -/
theorem half_lost (hgeometry : Geometry font info framebuffer.bytes.length)
    (ha : a ≠ []) (hb : b ≠ [])
    (h : Valid a ∧ ¬ Valid b ∨ ¬ Valid a ∧ Valid b) :
    ¬ ChunkFree font framebuffer info a b := by
  intro hfree
  rcases h with ⟨hva, hvb⟩ | ⟨hva, hvb⟩
  · have hvab : ¬ Valid (a ++ b) := fun h => hvb ((valid_cut h).mp hva)
    obtain ⟨t, ht⟩ := Option.isSome_iff_exists.mp hva
    refine not_chunkFree hgeometry (toList_ne_nil ht ha) ?_ hfree
    intro s
    refine Or.inr ⟨?_, writeSyscall_invalid hvab⟩
    rw [writeSyscall_valid ht]
    cases writeChars font s t.toList with
    | error p => rfl
    | ok u => exact writeSyscall_invalid hvb
  · have hvab : ¬ Valid (a ++ b) := fun h => hva ((valid_cut h).mpr hvb)
    obtain ⟨t, ht⟩ := Option.isSome_iff_exists.mp hvb
    refine not_chunkFree hgeometry (toList_ne_nil ht hb) ?_ hfree
    intro s
    refine Or.inr ⟨?_, writeSyscall_invalid hvab⟩
    rw [writeSyscall_invalid hva, ok_bind, writeSyscall_valid ht]

/-- Chunks that may be cut. -/
theorem chunkFree_of
    (h : a = [] ∨ b = [] ∨ Valid a ∧ Valid b
      ∨ ¬ Valid a ∧ ¬ Valid b ∧ ¬ Valid (a ++ b)) :
    ChunkFree font framebuffer info a b := by
  intro before s _
  rcases h with rfl | rfl | ⟨hva, hvb⟩ | ⟨hva, hvb, hvab⟩
  · rw [writeSyscall_nil, ok_bind, List.nil_append]
  · rw [List.append_nil]
    cases writeSyscall font s 1 a with
    | error p => rfl
    | ok t =>
        rw [ok_bind, writeSyscall_nil]
  · obtain ⟨ta, hta⟩ := Option.isSome_iff_exists.mp hva
    obtain ⟨tb, htb⟩ := Option.isSome_iff_exists.mp hvb
    rw [writeSyscall_valid hta,
      writeSyscall_valid (fromUtf8_append hta htb),
      String.toList_append, writeChars_append]
    congr 2
    funext t
    exact writeSyscall_valid htb
  · rw [writeSyscall_invalid hva, ok_bind, writeSyscall_invalid hvb,
      writeSyscall_invalid hvab]

/-- Output does not depend on how it is cut exactly if one of the chunks
is empty, both are UTF-8, or neither they nor the two together are. -/
theorem chunks_iff (hgeometry : Geometry font info framebuffer.bytes.length)
    (a b : List Byte) :
    ChunkFree font framebuffer info a b ↔
      a = [] ∨ b = [] ∨ Valid a ∧ Valid b
        ∨ ¬ Valid a ∧ ¬ Valid b ∧ ¬ Valid (a ++ b) := by
  refine ⟨fun hfree => ?_, chunkFree_of⟩
  by_contra hnot
  obtain ⟨ha, hb, hvalid, hinvalid⟩ : a ≠ [] ∧ b ≠ []
      ∧ ¬ (Valid a ∧ Valid b)
      ∧ ¬ (¬ Valid a ∧ ¬ Valid b ∧ ¬ Valid (a ++ b)) := by
    simpa only [not_or] using hnot
  by_cases hva : Valid a
  · have hvb : ¬ Valid b := fun h => hvalid ⟨hva, h⟩
    exact half_lost hgeometry ha hb (.inl ⟨hva, hvb⟩) hfree
  · by_cases hvb : Valid b
    · exact half_lost hgeometry ha hb (.inr ⟨hva, hvb⟩) hfree
    · have hvab : Valid (a ++ b) := by
        by_contra h
        exact hinvalid ⟨hva, hvb, h⟩
      exact cut_lost hgeometry hva hvb hvab hfree

end results

/-- On the small screen, with its one character: a space and a space. -/
theorem chunks_spaces :
    ChunkFree spaceFont smallBuffer smallInfo [0x20] [0x20] :=
  (chunks_iff smallGeometry [0x20] [0x20]).mpr
    (Or.inr (Or.inr (Or.inl ⟨by unfold Valid; decide +kernel,
      by unfold Valid; decide +kernel⟩)))

/-- The two bytes of `é`, each in a call of its own. -/
theorem chunks_differ :
    ¬ ∀ (font : Font) (framebuffer : Slice) (info : FrameBufferInfo),
      Geometry font info framebuffer.bytes.length →
      ∀ a b, ChunkFree font framebuffer info a b := by
  intro hall
  have hcut : ¬ ChunkFree spaceFont smallBuffer smallInfo [0xC3] [0xA9] :=
    cut_lost smallGeometry (by unfold Valid; decide +kernel)
      (by unfold Valid; decide +kernel) (by unfold Valid; decide +kernel)
  exact hcut (hall _ _ _ smallGeometry _ _)

end Bayos.Framebuffer
