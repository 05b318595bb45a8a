/-
UTF-8 across a cut: of a valid sequence cut in two, either both parts are
valid or neither is.
-/
import Mathlib.Data.List.Basic

namespace Lib

/-- A cut of valid bytes is between characters, seen from either side. -/
theorem isValidUTF8_cut {a b : ByteArray} (h : (a ++ b).IsValidUTF8) :
    a.IsValidUTF8 ↔ b.IsValidUTF8 := by
  let s : String := String.fromUTF8 (a ++ b) h
  have hs : s.toByteArray = a ++ b := rfl
  have hsize : s.utf8ByteSize = (a ++ b).size := rfl
  have hle : (⟨a.size⟩ : String.Pos.Raw) ≤ s.rawEndPos := by
    simp [String.Pos.Raw.le_iff, hsize]
  have hfront := String.Pos.Raw.isValid_iff_isValidUTF8_extract_zero
    (s := s) (p := ⟨a.size⟩)
  have hback := String.Pos.Raw.isValid_iff_isValidUTF8_extract_utf8ByteSize
    (s := s) (p := ⟨a.size⟩)
  have hleft : (a ++ b).extract 0 a.size = a :=
    ByteArray.extract_append_eq_left rfl
  have hright : (a ++ b).extract a.size (a ++ b).size = b :=
    ByteArray.extract_append_eq_right rfl (ByteArray.size_append)
  rw [hs] at hfront hback
  simp only [hle, true_and, hleft, hsize, hright] at hfront hback
  exact hfront.symm.trans hback

end Lib
