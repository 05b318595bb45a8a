/-
Half-open address intervals, and lists of them that share no address.

The one structural rule is `AllDisjoint.replace`: a member of a disjoint
list may be replaced by disjoint pieces of itself, and the list stays
disjoint. An allocator that splits a free region into a block and a
remainder is one use of it.

`Span.cut` is such a split, said without naming the member: a block cuts
every interval it lies in, and in a disjoint list that is one of them
(`AllDisjoint.flatMap_cut`).
-/
import Mathlib.Data.List.Basic
import Mathlib.Data.List.Pairwise
import Mathlib.Data.List.Perm.Basic

namespace Lib

/-- The addresses `start ≤ a < start + size`. -/
structure Span where
  start : Nat
  size : Nat
  deriving DecidableEq, Repr

namespace Span

/-- One past the last address. -/
def stop (s : Span) : Nat := s.start + s.size

def Contains (s : Span) (a : Nat) : Prop := s.start ≤ a ∧ a < s.stop

/-- No common address. -/
def Disjoint (s t : Span) : Prop := ∀ a, ¬ (s.Contains a ∧ t.Contains a)

/-- `s` lies inside `t`, ends included. -/
def Within (s t : Span) : Prop := t.start ≤ s.start ∧ s.stop ≤ t.stop

instance (s t : Span) : Decidable (s.Within t) :=
  inferInstanceAs (Decidable (_ ∧ _))

theorem Disjoint.symm {s t : Span} (h : s.Disjoint t) : t.Disjoint s :=
  fun a ha => h a ⟨ha.2, ha.1⟩

theorem Within.contains {s t : Span} (h : s.Within t) {a : Nat}
    (ha : s.Contains a) : t.Contains a :=
  ⟨Nat.le_trans h.1 ha.1, Nat.lt_of_lt_of_le ha.2 h.2⟩

theorem Within.trans {s t u : Span} (hst : s.Within t) (htu : t.Within u) :
    s.Within u :=
  ⟨Nat.le_trans htu.1 hst.1, Nat.le_trans hst.2 htu.2⟩

theorem Disjoint.of_within {s s' t : Span} (h : s.Disjoint t)
    (hw : s'.Within s) : s'.Disjoint t :=
  fun a ha => h a ⟨hw.contains ha.1, ha.2⟩

/-- Intervals one of which ends where the other starts, or earlier, are
disjoint. -/
theorem disjoint_of_stop_le {s t : Span} (h : s.stop ≤ t.start) :
    s.Disjoint t := by
  intro a hparts
  rcases hparts with ⟨hs, ht⟩
  have hlt : a < a := Nat.lt_of_lt_of_le hs.2 (Nat.le_trans h ht.1)
  exact Nat.lt_irrefl a hlt

end Span

-- ========================================================== disjoint lists

/-- No two entries share an address. -/
def AllDisjoint (l : List Span) : Prop := l.Pairwise Span.Disjoint

namespace AllDisjoint

theorem perm {l l' : List Span} (h : AllDisjoint l) (hp : l.Perm l') :
    AllDisjoint l' :=
  (hp.pairwise_iff fun hd => Span.Disjoint.symm hd).mp h

/-- Replacing the head of a disjoint list by disjoint pieces of it. -/
theorem replace {s : Span} {l parts : List Span} (h : AllDisjoint (s :: l))
    (hparts : AllDisjoint parts) (hin : ∀ p ∈ parts, p.Within s) :
    AllDisjoint (parts ++ l) := by
  obtain ⟨hs, hl⟩ := List.pairwise_cons.mp h
  refine List.pairwise_append.mpr ⟨hparts, hl, ?_⟩
  intro p hp t ht
  exact (hs t ht).of_within (hin p hp)

end AllDisjoint

-- ================================================================= cutting

namespace Span

/-- `s` cut by a block inside it: the block, and what is behind it. What
is in front of the block is dropped. -/
def cut (b s : Span) : List Span :=
  if b.Within s then
    if b.stop < s.stop then [b, ⟨b.stop, s.stop - b.stop⟩] else [b]
  else [s]

theorem cut_of_not_within {b s : Span} (h : ¬ b.Within s) :
    b.cut s = [s] := if_neg h

/-- Cutting makes nothing larger. -/
theorem cut_within {b s p : Span} (h : p ∈ b.cut s) : p.Within s := by
  unfold cut at h
  split at h
  case isFalse =>
    rw [List.mem_singleton.mp h]
    exact ⟨Nat.le_refl _, Nat.le_refl _⟩
  case isTrue hin =>
    split at h
    case isFalse =>
      rw [List.mem_singleton.mp h]
      exact hin
    case isTrue hlt =>
      rcases List.mem_pair.mp h with rfl | rfl
      · exact hin
      · have hstart : b.start ≤ b.stop := Nat.le_add_right ..
        have hstop : b.stop + (s.stop - b.stop) = s.stop := by omega
        exact ⟨Nat.le_trans hin.1 hstart, Nat.le_of_eq hstop⟩

/-- Two intervals that hold each other are the same. -/
theorem Within.antisymm {s t : Span} (hst : s.Within t) (hts : t.Within s) :
    s = t := by
  have hstart : s.start = t.start := Nat.le_antisymm hts.1 hst.1
  have hstop : s.stop = t.stop := Nat.le_antisymm hst.2 hts.2
  have hsize : s.size = t.size := by
    unfold stop at hstop
    omega
  cases s
  cases t
  simp only at hstart hsize
  rw [hstart, hsize]

/-- An interval as large as one it lies in is that one. -/
theorem Within.eq_of_size_le {s t : Span} (h : s.Within t)
    (hsize : t.size ≤ s.size) : s = t := by
  have hstart := h.1
  have hstop := h.2
  unfold stop at hstop
  refine h.antisymm ⟨?_, ?_⟩
  · omega
  · unfold stop
    omega

/-- A cut leaves the whole `u` only if it takes the whole `u`. -/
theorem eq_of_mem_cut {b s u : Span} (hb : 0 < b.size) (hbu : b.Within u)
    (hsu : s.Within u) (h : u ∈ b.cut s) : b = u ∧ s = u := by
  have hus : s = u := hsu.antisymm (cut_within h)
  refine ⟨?_, hus⟩
  unfold cut at h
  rw [hus, if_pos hbu] at h
  split at h
  case isFalse => exact (List.mem_singleton.mp h).symm
  case isTrue =>
    rcases List.mem_pair.mp h with h | h
    · exact h.symm
    · -- the piece behind the block starts above `u`
      have hstart := congrArg Span.start h
      have hlow := hbu.1
      simp only [stop] at hstart
      omega

end Span

/-- In a disjoint list a block cuts the one interval it lies in. -/
theorem AllDisjoint.flatMap_cut {b s : Span} {l : List Span}
    (h : AllDisjoint (s :: l)) (hb : 0 < b.size) (hin : b.Within s) :
    (s :: l).flatMap b.cut = b.cut s ++ l := by
  have hothers : ∀ t ∈ l, b.cut t = [t] := by
    intro t ht
    refine Span.cut_of_not_within fun hbt => ?_
    have hfirst : b.Contains b.start :=
      ⟨Nat.le_refl _, Nat.lt_add_of_pos_right hb⟩
    exact (List.pairwise_cons.mp h).1 t ht b.start
      ⟨hin.contains hfirst, hbt.contains hfirst⟩
  have hrest : l.flatMap b.cut = l := by
    calc l.flatMap b.cut = l.flatMap fun t => [t] :=
          List.flatMap_congr hothers
      _ = l := List.flatMap_singleton' l
  rw [List.flatMap_cons, hrest]

end Lib
