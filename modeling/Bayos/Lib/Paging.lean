/-
Virtual addresses, pages and page ranges of x86-64 with 4 KiB pages, as
the `x86_64` crate computes with them, and what its page table mappers
promise.

# Ranges

The iterator of an inclusive range steps to the next page before it
hands out the current one, so it panics on the last page below the
non-canonical hole even when that page is the end of the range
(`iter_hole`); below that it hands out all pages of the range
(`iter_user`).

# Mappers

A mapper is a parameter: a page table type with a translation, the
tables it has, and `map_to`. `Mapper.Laws` is what the crate documents:
`map_to` maps the given page and no other, fails on a page that is
mapped, and takes one frame for each table that is missing on the way to
the page, from the frame allocator it is given. `plainMapper` does just
that.
-/
import Mathlib.Data.List.Basic
import Mathlib.Data.List.Nodup
import Mathlib.Data.List.Range
import Mathlib.Logic.Relation
import Bayos.Lib.Rust

namespace Lib.Paging

open Rust

-- ======================================================= virtual addresses

/-- The bits from 48 on repeat bit 47. -/
def IsCanonical (a : Nat) : Prop :=
  a < 2 ^ 47 ∨ 2 ^ 64 - 2 ^ 47 ≤ a ∧ a < 2 ^ 64

instance (a : Nat) : Decidable (IsCanonical a) :=
  inferInstanceAs (Decidable (_ ∨ _))

/-- `VirtAddr`. -/
structure VirtAddr where
  val : Nat
  canonical : IsCanonical val
  deriving DecidableEq

namespace VirtAddr

/-- `VirtAddr::try_new`. -/
def tryNew (a : Nat) : Option VirtAddr :=
  if h : IsCanonical a then some ⟨a, h⟩ else none

/-- `VirtAddr::new`. -/
def new (a : Nat) : Except Panic VirtAddr :=
  expect (tryNew a) "virtual address must be sign extended in bits 48 to 64"

/-- `self + n`. -/
def add (self : VirtAddr) (n : Nat) : Except Panic VirtAddr := do
  let sum ← expect (Usize.checkedAdd self.val n)
    "attempt to add with overflow"
  expect (tryNew sum)
    "attempt to add resulted in non-canonical virtual address"

/-- `self - n`. -/
def sub (self : VirtAddr) (n : Nat) : Except Panic VirtAddr := do
  let diff ← expect (if n ≤ self.val then some (self.val - n) else none)
    "attempt to subtract with overflow"
  expect (tryNew diff)
    "attempt to subtract resulted in non-canonical virtual address"

theorem tryNew_eq_some {a : Nat} {v : VirtAddr} :
    tryNew a = some v ↔ v.val = a := by
  unfold tryNew
  constructor
  · intro h
    split at h
    · rw [← Option.some.inj h]
    · cases h
  · intro heq
    subst heq
    exact dif_pos v.canonical

theorem expect_tryNew {a : Nat} {text : String} {v : VirtAddr} :
    expect (tryNew a) text = .ok v ↔ v.val = a := by
  rw [← tryNew_eq_some]
  cases tryNew a with
  | none => simp [expect]
  | some w => simp [expect]

theorem new_eq {a : Nat} {v : VirtAddr} : new a = .ok v ↔ v.val = a :=
  expect_tryNew

theorem add_eq {self v : VirtAddr} {n : Nat} :
    self.add n = .ok v ↔ v.val = self.val + n := by
  unfold add Usize.checkedAdd
  constructor
  · intro h
    obtain ⟨sum, hsum, hv⟩ := bind_eq_ok.mp h
    split at hsum
    · rw [expect_tryNew.mp hv]
      exact (Except.ok.inj hsum).symm
    · cases hsum
  · intro h
    have hlt : self.val + n < wordSize := by
      have hv := v.canonical
      unfold IsCanonical at hv
      unfold wordSize
      omega
    rw [if_pos hlt, expect_some, ok_bind]
    exact expect_tryNew.mpr h

theorem sub_eq {self v : VirtAddr} {n : Nat} :
    self.sub n = .ok v ↔ n ≤ self.val ∧ v.val = self.val - n := by
  unfold sub
  constructor
  · intro h
    obtain ⟨diff, hdiff, hv⟩ := bind_eq_ok.mp h
    split at hdiff
    · next hle =>
        rw [expect_tryNew.mp hv]
        exact ⟨hle, (Except.ok.inj hdiff).symm⟩
    · cases hdiff
  · intro hparts
    rcases hparts with ⟨hle, hv⟩
    rw [if_pos hle, expect_some, ok_bind]
    exact expect_tryNew.mpr hv

end VirtAddr

-- =================================================================== pages

/-- `Page<Size4KiB>`, by its start address. -/
structure Page where
  start : Nat
  aligned : start % 4096 = 0
  canonical : IsCanonical start

namespace Page

/-- `Page::start_address`. -/
def startAddress (p : Page) : VirtAddr := ⟨p.start, p.canonical⟩

/-- `Page::containing_address`. -/
def containingAddress (v : VirtAddr) : Page where
  start := v.val - v.val % 4096
  aligned := by omega
  canonical := by
    have hv := v.canonical
    unfold IsCanonical at hv ⊢
    omega

/-- `self + n`. -/
def add (self : Page) (n : Nat) : Except Panic Page := do
  let v ← self.startAddress.add (n * 4096)
  pure (containingAddress v)

/-- `self - n`. -/
def sub (self : Page) (n : Nat) : Except Panic Page := do
  let v ← self.startAddress.sub (n * 4096)
  pure (containingAddress v)

theorem ext {p q : Page} (h : p.start = q.start) : p = q := by
  cases p
  cases q
  cases h
  rfl

instance : DecidableEq Page := fun p q =>
  decidable_of_iff (p.start = q.start) ⟨ext, congrArg start⟩

/-- The start of the highest page, `u64::MAX` rounded down. -/
def maxStart : Nat := 2 ^ 64 - 4096

end Page

/-- The page of number `n` of the lower half. -/
def userPage (n : Nat) : Page :=
  if h : n < 2 ^ 35 then
    ⟨4096 * n, by omega, by unfold IsCanonical; omega⟩
  else ⟨0, rfl, Or.inl (by omega)⟩

theorem userPage_start {n : Nat} (h : n < 2 ^ 35) :
    (userPage n).start = 4096 * n := by
  unfold userPage
  rw [dif_pos h]

theorem userPage_inj {m n : Nat} (hm : m < 2 ^ 35) (hn : n < 2 ^ 35)
    (h : userPage m = userPage n) : m = n := by
  have hstart := congrArg Page.start h
  rw [userPage_start hm, userPage_start hn] at hstart
  omega

/-- The page of an address of the lower half. -/
theorem containingAddress_user {v : VirtAddr} (h : v.val < 2 ^ 47) :
    Page.containingAddress v = userPage (v.val / 4096) := by
  apply Page.ext
  rw [userPage_start (by omega)]
  show v.val - v.val % 4096 = _
  omega

/-- `n` pages of the lower half, from number `a` on. -/
def pageRun (a n : Nat) : List Page := (List.range' a n).map userPage

theorem mem_pageRun {p : Page} {a n : Nat} :
    p ∈ pageRun a n ↔ ∃ i, a ≤ i ∧ i < a + n ∧ p = userPage i := by
  unfold pageRun
  rw [List.mem_map]
  constructor
  · intro h
    rcases h with ⟨i, hi, rfl⟩
    exact ⟨i, (List.mem_range'_1.mp hi).1, (List.mem_range'_1.mp hi).2, rfl⟩
  · intro h
    rcases h with ⟨i, hai, hin, rfl⟩
    exact ⟨i, List.mem_range'_1.mpr ⟨hai, hin⟩, rfl⟩

theorem pageRun_length (a n : Nat) : (pageRun a n).length = n := by
  unfold pageRun
  rw [List.length_map, List.length_range']

theorem pageRun_nodup {a n : Nat} (hn : a + n ≤ 2 ^ 35) :
    (pageRun a n).Nodup := by
  refine List.Nodup.map_on ?_ List.nodup_range'
  intro i hi j hj hij
  have hi' := (List.mem_range'_1.mp hi).2
  have hj' := (List.mem_range'_1.mp hj).2
  exact userPage_inj (by omega) (by omega) hij

-- ================================================================== ranges

/-- `PageRangeInclusive`. -/
structure PageRangeInclusive where
  start : Page
  stop : Page
  deriving DecidableEq

namespace PageRangeInclusive

/-- `PageRangeInclusive::len`. -/
def len (r : PageRangeInclusive) : Nat :=
  if r.start.start ≤ r.stop.start then
    (r.stop.start - r.start.start) / 4096 + 1
  else 0

/-- `PageRangeInclusive::size`. -/
def size (r : PageRangeInclusive) : Except Panic Nat :=
  if 4096 * r.len < wordSize then .ok (4096 * r.len) else .error .overflow

/-- `PageRangeInclusive::next`. -/
def next (r : PageRangeInclusive) :
    Except Panic (Option (Page × PageRangeInclusive)) :=
  if r.start.start ≤ r.stop.start then
    if r.start.start < Page.maxStart then do
      let start ← r.start.add 1
      pure (some (r.start, ⟨start, r.stop⟩))
    else do
      let stop ← r.stop.sub 1
      pure (some (r.start, ⟨r.start, stop⟩))
  else pure none

/-- What the first `n` calls of `next` produce. -/
def elements : Nat → PageRangeInclusive → List (Except Panic Page)
  | 0, _ => []
  | n + 1, r =>
      match r.next with
      | .ok (some (page, r)) => .ok page :: elements n r
      | .ok none => []
      | .error p => [.error p]

/-- The iterator; the call after the last page returns nothing. -/
def iter (r : PageRangeInclusive) : List (Except Panic Page) :=
  r.elements (r.len + 1)

/-- Numbers of the pages of the lower half but the last one. -/
def lastUser : Nat := 2 ^ 35 - 1

theorem add_userPage {a : Nat} (ha : a < lastUser) :
    (userPage a).add 1 = .ok (userPage (a + 1)) := by
  unfold lastUser at ha
  have hstart := userPage_start (n := a) (by omega)
  have hadd : (userPage a).startAddress.add (1 * 4096)
      = .ok (userPage (a + 1)).startAddress := by
    rw [VirtAddr.add_eq]
    show (userPage (a + 1)).start = (userPage a).start + _
    rw [userPage_start (by omega), hstart]
    omega
  unfold Page.add
  rw [hadd]
  refine congrArg Except.ok (Page.ext ?_)
  show (userPage (a + 1)).start - (userPage (a + 1)).start % 4096 = _
  rw [(userPage (a + 1)).aligned]
  rfl

/-- The page after the last one of the lower half is not canonical. -/
theorem add_lastUser : ∃ p, (userPage lastUser).add 1 = .error p := by
  unfold Page.add
  cases hadd : (userPage lastUser).startAddress.add (1 * 4096) with
  | error p => exact ⟨p, rfl⟩
  | ok v =>
      have hv := VirtAddr.add_eq.mp hadd
      have hc := v.canonical
      rw [show (userPage lastUser).startAddress.val = 4096 * lastUser from
        userPage_start (by decide)] at hv
      rw [hv] at hc
      exact absurd hc (by decide)

theorem next_user {a : Nat} {stop : Page} (ha : a < lastUser)
    (hle : 4096 * a ≤ stop.start) :
    next ⟨userPage a, stop⟩
      = .ok (some (userPage a, ⟨userPage (a + 1), stop⟩)) := by
  have hstart : (userPage a).start = 4096 * a :=
    userPage_start (by unfold lastUser at ha; omega)
  unfold next
  rw [if_pos (hstart ▸ hle), if_pos ?_, add_userPage ha]
  · rfl
  · rw [hstart]
    unfold Page.maxStart
    unfold lastUser at ha
    omega

theorem next_empty {r : PageRangeInclusive}
    (h : r.stop.start < r.start.start) : next r = .ok none := by
  unfold next
  rw [if_neg (Nat.not_le.mpr h)]
  rfl

/-- A range that ends below the last page of the lower half: the pages
in order. -/
theorem elements_eq {b : Nat} (hb : b < lastUser) :
    ∀ (n a : Nat), a + n = b + 1 →
      elements (n + 1) ⟨userPage a, userPage b⟩
        = (List.range' a n).map fun k => .ok (userPage k) := by
  have hstop : (userPage b).start = 4096 * b :=
    userPage_start (by unfold lastUser at hb; omega)
  intro n
  induction n with
  | zero =>
      intro a ha
      have hempty : next ⟨userPage a, userPage b⟩ = .ok none := by
        apply next_empty
        show (userPage b).start < (userPage a).start
        rw [hstop, userPage_start (by unfold lastUser at hb; omega)]
        omega
      unfold elements
      rw [hempty]
      rfl
  | succ n ih =>
      intro a ha
      unfold elements
      rw [next_user (by omega) (by rw [hstop]; omega)]
      show _ :: elements (n + 1) _ = _
      rw [ih (a + 1) (by omega)]
      rfl

/-- A range that goes on to the last page of the lower half, or beyond
it: all pages below that one, and then a panic. -/
theorem elements_hole {stop : Page} (hstop : 4096 * lastUser ≤ stop.start) :
    ∀ (n a m : Nat), a + n = lastUser → n < m →
      ∃ p, elements m ⟨userPage a, stop⟩
        = ((List.range' a n).map fun k => .ok (userPage k))
          ++ [.error p] := by
  intro n
  induction n with
  | zero =>
      intro a m ha hm
      obtain ⟨m, rfl⟩ := Nat.exists_eq_add_of_lt hm
      obtain rfl : a = lastUser := by omega
      obtain ⟨p, hp⟩ := add_lastUser
      have hnext : next ⟨userPage lastUser, stop⟩ = .error p := by
        have hstart : (userPage lastUser).start = 4096 * lastUser :=
          userPage_start (by decide)
        unfold next
        rw [if_pos (hstart ▸ hstop), if_pos (by rw [hstart]; decide), hp]
        rfl
      refine ⟨p, ?_⟩
      rw [Nat.zero_add, elements, hnext]
      rfl
  | succ n ih =>
      intro a m ha hm
      obtain ⟨m, rfl⟩ := Nat.exists_eq_add_of_lt hm
      obtain ⟨p, hp⟩ := ih (a + 1) (n + 1 + m) (by omega) (by omega)
      refine ⟨p, ?_⟩
      rw [elements, next_user (by omega) (by omega)]
      show _ :: elements (n + 1 + m) _ = _
      rw [hp]
      rfl

theorem len_user {a b : Nat} (ha : a < 2 ^ 35) (hb : b < 2 ^ 35) :
    len ⟨userPage a, userPage b⟩ = b + 1 - a := by
  unfold len
  simp only [userPage_start ha, userPage_start hb]
  split
  · omega
  · omega

/-- The iterator of a range that ends below the last page of the lower
half. -/
theorem iter_user {a b : Nat} (hab : a ≤ b + 1) (hb : b < lastUser) :
    iter ⟨userPage a, userPage b⟩ = (pageRun a (b + 1 - a)).map .ok := by
  have hb' := hb
  unfold lastUser at hb'
  unfold iter pageRun
  rw [len_user (by omega) (by omega), List.map_map]
  exact elements_eq hb _ _ (by omega)

/-- The iterator of a range that goes further panics on its way. -/
theorem iter_hole {a : Nat} {stop : Page} (ha : a ≤ lastUser)
    (hstop : 4096 * lastUser ≤ stop.start) (ps : List Page) :
    iter ⟨userPage a, stop⟩ ≠ ps.map .ok := by
  have hstart := userPage_start (n := a) (by unfold lastUser at ha; omega)
  -- the range has all pages up to the last one of the lower half
  have hlen : lastUser - a < len ⟨userPage a, stop⟩ + 1 := by
    unfold len
    simp only [hstart]
    rw [if_pos (by omega)]
    omega
  obtain ⟨p, hp⟩ := elements_hole hstop (lastUser - a) a _ (by omega) hlen
  unfold iter
  rw [hp]
  intro heq
  have hmem : Except.error p ∈ ps.map (Except.ok (ε := Panic)) := by
    rw [← heq]
    simp
  obtain ⟨q, -, hq⟩ := List.mem_map.mp hmem
  cases hq

theorem start_le_max (p : Page) : p.start ≤ Page.maxStart := by
  have haligned := p.aligned
  have hcanonical := p.canonical
  unfold IsCanonical at hcanonical
  unfold Page.maxStart
  omega

theorem add_one {p q : Page} (h : p.add 1 = .ok q) :
    q.start = p.start + 4096 := by
  obtain ⟨v, hadd, hq⟩ := bind_eq_ok.mp h
  have hv : v.val = p.start + 1 * 4096 := VirtAddr.add_eq.mp hadd
  have haligned := p.aligned
  rw [← Except.ok.inj hq]
  show v.val - v.val % 4096 = _
  omega

/-- An iterator that does not panic hands out its first page, and goes on
behind it where there is a page behind it. -/
theorem elements_cons {n : Nat} {r : PageRangeInclusive} {ps : List Page}
    (h : r.elements (n + 1) = ps.map .ok)
    (hle : r.start.start ≤ r.stop.start) :
    ∃ rest, ps = r.start :: rest
      ∧ (r.start.start < Page.maxStart → ∃ start, r.start.add 1 = .ok start
        ∧ elements n ⟨start, r.stop⟩ = rest.map .ok) := by
  unfold elements next at h
  rw [if_pos hle] at h
  cases ps with
  | nil =>
      -- there is an element, be it a panic
      split at h
      · cases h
      · next hnone =>
          split at hnone
          · obtain ⟨_, -, hret⟩ := bind_eq_ok.mp hnone
            cases hret
          · obtain ⟨_, -, hret⟩ := bind_eq_ok.mp hnone
            cases hret
      · cases h
  | cons p rest =>
      by_cases hmax : r.start.start < Page.maxStart
      · rw [if_pos hmax] at h
        cases hadd : r.start.add 1 with
        | error e => rw [hadd] at h; cases h
        | ok start =>
            rw [hadd] at h
            obtain ⟨hp, hrest⟩ := List.cons.inj h
            rw [← Except.ok.inj hp]
            exact ⟨rest, rfl, fun _ => ⟨start, rfl, hrest⟩⟩
      · rw [if_neg hmax] at h
        cases hsub : r.stop.sub 1 with
        | error e => rw [hsub] at h; cases h
        | ok stop =>
            rw [hsub] at h
            rw [← Except.ok.inj (List.cons.inj h).1]
            exact ⟨rest, rfl, fun hlt => absurd hlt hmax⟩

/-- An iterator that does not panic hands out every page of its range. -/
theorem elements_covers {q : Page} :
    ∀ {n : Nat} {r : PageRangeInclusive} {ps : List Page}, r.len < n →
      r.elements n = ps.map .ok → r.start.start ≤ q.start →
      q.start ≤ r.stop.start → q ∈ ps := by
  intro n
  induction n with
  | zero => intro r ps hn; exact absurd hn (Nat.not_lt_zero _)
  | succ n ih =>
      intro r ps hn hiter hlow hhigh
      have hle := Nat.le_trans hlow hhigh
      obtain ⟨rest, rfl, hnext⟩ := elements_cons hiter hle
      by_cases hself : q.start = r.start.start
      · rw [Page.ext hself]
        exact List.mem_cons_self
      · -- further up, so the page behind the first one is in the range
        have hmax := start_le_max q
        obtain ⟨start, hadd, hrest⟩ := hnext (by omega)
        have hstart := add_one hadd
        have hq := q.aligned
        have hr := r.start.aligned
        refine List.mem_cons_of_mem _ (ih ?_ hrest ?_ hhigh)
        · unfold len at hn ⊢
          simp only
          rw [if_pos hle] at hn
          split
          · omega
          · omega
        · simp only
          omega

end PageRangeInclusive

-- ================================================================ mappings

/-- `PageTableFlags`. -/
abbrev Flags := BitVec 64

/-- `PageTableFlags::PRESENT`. -/
def present : Flags := 1

/-- `PageTableFlags::WRITABLE`. -/
def writable : Flags := 2

/-- `PageTableFlags::USER_ACCESSIBLE`. -/
def userAccessible : Flags := 4

/-- `PageTableFlags::contains`. -/
def Flags.contains (self other : Flags) : Bool := self &&& other = other

/-- What a page is mapped to. -/
structure Mapping (F : Type) where
  frame : F
  flags : Flags
  deriving DecidableEq

/-- `MapToError`. -/
inductive MapToError (F : Type)
  | frameAllocationFailed
  | parentEntryHugePage
  | pageAlreadyMapped (frame : F)
  deriving DecidableEq

/-- A table below the root, by its level and the part of the address
space it covers. -/
abbrev TableId := Nat × Nat

/-- The tables on the way from the root to a page. -/
def Page.tables (p : Page) : List TableId :=
  [(3, p.start / 2 ^ 39), (2, p.start / 2 ^ 30), (1, p.start / 2 ^ 21)]

/-- A page table mapper, for page tables `PT`, frames `F` and a frame
allocator `A`. -/
structure Mapper (PT F A : Type) where
  translate : PT → Page → Option (Mapping F)
  hasTable : PT → TableId → Bool
  mapTo : PT → Page → F → Flags → A →
    Except Panic (Except (MapToError F) Unit × PT × A)

/-- `n` calls of the allocator, each of which returns a frame. -/
inductive Takes {F A : Type} (alloc : A → Except Panic (Option F × A)) :
    Nat → A → A → Prop
  | zero {a : A} : Takes alloc 0 a a
  | succ {n : Nat} {f : F} {a b c : A} :
      alloc a = .ok (some f, b) → Takes alloc n b c → Takes alloc (n + 1) a c

/-- Any calls of the allocator. -/
def Calls {F A : Type} (alloc : A → Except Panic (Option F × A)) :
    A → A → Prop :=
  Relation.ReflTransGen fun a b => ∃ o, alloc a = .ok (o, b)

namespace Mapper

variable {PT F A : Type}

/-- How many tables are missing on the way to a page. -/
def missing (M : Mapper PT F A) (pt : PT) (p : Page) : Nat :=
  (p.tables.filter fun t => !M.hasTable pt t).length

/-- What `map_to` is documented to do. -/
structure Laws (M : Mapper PT F A) (alloc : A → Except Panic (Option F × A)) :
    Prop where
  maps : ∀ {pt pt' : PT} {p : Page} {f : F} {fl : Flags} {a a' : A},
    M.mapTo pt p f fl a = .ok (.ok (), pt', a') →
    M.translate pt p = none
      ∧ ∀ q, M.translate pt' q
        = if q = p then some ⟨f, fl⟩ else M.translate pt q
  takes : ∀ {pt pt' : PT} {p : Page} {f : F} {fl : Flags} {a a' : A},
    M.mapTo pt p f fl a = .ok (.ok (), pt', a') →
    Takes alloc (M.missing pt p) a a'
      ∧ ∀ t, M.hasTable pt' t = (M.hasTable pt t || decide (t ∈ p.tables))
  succeeds : ∀ {pt : PT} {p : Page} (f : F) (fl : Flags) {a a' : A},
    M.translate pt p = none → Takes alloc (M.missing pt p) a a' →
    ∃ pt', M.mapTo pt p f fl a = .ok (.ok (), pt', a')

/-- All that `map_to` does to the allocator is to call it, whatever it
returns itself. -/
def Asks (M : Mapper PT F A) (alloc : A → Except Panic (Option F × A)) :
    Prop :=
  ∀ {pt pt' : PT} {p : Page} {f : F} {fl : Flags} {a a' : A}
    {r : Except (MapToError F) Unit},
    M.mapTo pt p f fl a = .ok (r, pt', a') → Calls alloc a a'

end Mapper

-- ========================================================== a plain mapper

/-- Asks the allocator for `n` frames, and says whether it got them. -/
def takeFrames {F A : Type} (alloc : A → Except Panic (Option F × A)) :
    Nat → A → Except Panic (Bool × A)
  | 0, a => .ok (true, a)
  | n + 1, a =>
      match alloc a with
      | .ok (some _, a') => takeFrames alloc n a'
      | .ok (none, a') => .ok (false, a')
      | .error p => .error p

theorem takes_succ {F A : Type} {alloc : A → Except Panic (Option F × A)}
    {n : Nat} {a c : A} :
    Takes alloc (n + 1) a c
      ↔ ∃ f b, alloc a = .ok (some f, b) ∧ Takes alloc n b c := by
  constructor
  · intro h
    rcases h with _ | ⟨h, hrest⟩
    exact ⟨_, _, h, hrest⟩
  · intro h
    obtain ⟨f, b, halloc, hrest⟩ := h
    exact .succ halloc hrest

theorem takeFrames_eq_true {F A : Type}
    {alloc : A → Except Panic (Option F × A)} {n : Nat} {a a' : A} :
    takeFrames alloc n a = .ok (true, a') ↔ Takes alloc n a a' := by
  induction n generalizing a with
  | zero =>
      constructor
      · intro h
        cases h
        exact .zero
      · intro h
        cases h
        rfl
  | succ n ih =>
      rw [takes_succ]
      unfold takeFrames
      rcases halloc : alloc a with p | ⟨_ | f, b⟩
      · simp
      · simp
      · simp [ih]

theorem takeFrames_calls {F A : Type}
    {alloc : A → Except Panic (Option F × A)} {n : Nat} {a a' : A}
    {got : Bool} (h : takeFrames alloc n a = .ok (got, a')) :
    Calls alloc a a' := by
  induction n generalizing a with
  | zero =>
      cases h
      exact .refl
  | succ n ih =>
      unfold takeFrames at h
      rcases halloc : alloc a with p | ⟨_ | f, b⟩
      · rw [halloc] at h
        cases h
      · rw [halloc] at h
        cases h
        exact .single ⟨none, halloc⟩
      · rw [halloc] at h
        exact .head ⟨some f, halloc⟩ (ih h)

/-- Page tables as what can be asked of them. -/
structure Tables (F : Type) where
  leaf : Page → Option (Mapping F)
  dir : TableId → Bool

/-- The tables with one more page, and the tables on the way to it. -/
def Tables.insert {F : Type} (pt : Tables F) (p : Page) (m : Mapping F) :
    Tables F where
  leaf q := if q = p then some m else pt.leaf q
  dir t := pt.dir t || decide (t ∈ p.tables)

/-- The mapper that does what is documented, and no more. -/
def plainMapper {F A : Type} (alloc : A → Except Panic (Option F × A)) :
    Mapper (Tables F) F A where
  translate pt p := pt.leaf p
  hasTable pt t := pt.dir t
  mapTo pt p f fl a :=
    match pt.leaf p with
    | some _ => .ok (.error (.pageAlreadyMapped f), pt, a)
    | none =>
        match takeFrames alloc
            (p.tables.filter fun t => !pt.dir t).length a with
        | .ok (true, a') => .ok (.ok (), pt.insert p ⟨f, fl⟩, a')
        | .ok (false, a') => .ok (.error .frameAllocationFailed, pt, a')
        | .error e => .error e

/-- A mapping that the plain mapper makes. -/
theorem plainMapper_ok {F A : Type}
    {alloc : A → Except Panic (Option F × A)} {pt pt' : Tables F} {p : Page}
    {f : F} {fl : Flags} {a a' : A} :
    (plainMapper alloc).mapTo pt p f fl a = .ok (.ok (), pt', a')
      ↔ pt.leaf p = none
        ∧ Takes alloc ((plainMapper alloc).missing pt p) a a'
        ∧ pt' = pt.insert p ⟨f, fl⟩ := by
  rw [← takeFrames_eq_true]
  unfold plainMapper Mapper.missing
  simp only
  cases hleaf : pt.leaf p with
  | some m => simp
  | none =>
      rcases takeFrames alloc (p.tables.filter fun t => !pt.dir t).length a
        with e | ⟨_ | _, b⟩
      · simp
      · simp
      · simp only [Except.ok.injEq, Prod.mk.injEq, true_and]
        constructor
        · intro h
          rcases h with ⟨rfl, rfl⟩
          exact ⟨rfl, rfl⟩
        · intro h
          rcases h with ⟨rfl, rfl⟩
          exact ⟨rfl, rfl⟩

theorem plainMapper_laws {F A : Type}
    (alloc : A → Except Panic (Option F × A)) :
    (plainMapper alloc).Laws alloc where
  maps h := by
    obtain ⟨hnone, -, rfl⟩ := plainMapper_ok.mp h
    exact ⟨hnone, fun _ => rfl⟩
  takes h := by
    obtain ⟨-, htakes, rfl⟩ := plainMapper_ok.mp h
    exact ⟨htakes, fun _ => rfl⟩
  succeeds f fl _ _ hnone htakes :=
    ⟨_, plainMapper_ok.mpr ⟨hnone, htakes, rfl⟩⟩

theorem plainMapper_asks {F A : Type}
    (alloc : A → Except Panic (Option F × A)) :
    (plainMapper alloc).Asks alloc := by
  intro pt pt' p f fl a a' r h
  unfold plainMapper at h
  simp only at h
  cases hleaf : pt.leaf p with
  | some m =>
      rw [hleaf] at h
      cases h
      exact .refl
  | none =>
      rw [hleaf] at h
      rcases htake : takeFrames alloc
          (p.tables.filter fun t => !pt.dir t).length a
        with e | ⟨_ | _, b⟩
      · simp only [htake] at h
        cases h
      · simp only [htake] at h
        cases h
        exact takeFrames_calls htake
      · simp only [htake] at h
        cases h
        exact takeFrames_calls htake

end Lib.Paging
