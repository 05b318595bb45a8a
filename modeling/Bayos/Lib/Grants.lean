/-
Giving pages frames of their own: a loop that takes a fresh frame for
each page of a list and maps it there, over any mapper, any flags and any
frame allocator of which it is known what it has left (`Pool`).

# Three facts

What comes of such a loop (`Granted`): pages that were not mapped, each
with a frame of its own that was free and no longer is, and every other
page as before. When it gets to its end, for pages below one last-level
table (`grants_exists_iff`): the first page takes the frames for the
tables that are missing, and the rest takes one frame a page. Which pages
a range has (`PageRangeInclusive.iter_spec`), in either half of the
address space.
-/
import Bayos.Lib.Paging

namespace Lib.Paging

open Rust

variable {PT F A : Type}

-- ================================================================== ranges

namespace PageRangeInclusive

/-- Every page of the range, and the one behind it, has canonical
addresses: the iterator gets to the end of the range. -/
def Steps (r : PageRangeInclusive) : Prop :=
  ∀ a, r.start.start ≤ a → a ≤ r.stop.start + 4096 → IsCanonical a

theorem add_canonical {p : Page} (h : IsCanonical (p.start + 4096)) :
    ∃ q, p.add 1 = .ok q ∧ q.start = p.start + 4096 := by
  have haligned := p.aligned
  have hadd : p.startAddress.add (1 * 4096) = .ok ⟨p.start + 4096, h⟩ := by
    rw [VirtAddr.add_eq]
    show p.start + 4096 = p.start + 1 * 4096
    rfl
  refine ⟨.containingAddress ⟨p.start + 4096, h⟩, ?_, ?_⟩
  · unfold Page.add
    rw [hadd]
    rfl
  · show p.start + 4096 - (p.start + 4096) % 4096 = _
    omega

theorem elements_spec :
    ∀ {n : Nat} {r : PageRangeInclusive}, r.Steps → r.len = n →
      ∃ ps : List Page, r.elements (n + 1) = ps.map .ok ∧ ps.length = n
        ∧ ps.Nodup
        ∧ ∀ p, p ∈ ps ↔ r.start.start ≤ p.start ∧ p.start ≤ r.stop.start := by
  intro n
  induction n with
  | zero =>
      intro r _ hlen
      have hempty : r.stop.start < r.start.start := by
        unfold len at hlen
        by_contra hle
        rw [if_pos (Nat.not_lt.mp hle)] at hlen
        cases hlen
      refine ⟨[], ?_, rfl, List.nodup_nil, fun p => ?_⟩
      · unfold elements
        rw [next_empty hempty]
        rfl
      · simp only [List.not_mem_nil, false_iff]
        omega
  | succ n ih =>
      intro r hsteps hlen
      have hle : r.start.start ≤ r.stop.start := by
        unfold len at hlen
        by_contra hlt
        rw [if_neg hlt] at hlen
        cases hlen
      have hstart := r.start.aligned
      have hstop := r.stop.aligned
      -- the page behind the first one
      have hcanonical := hsteps (r.start.start + 4096) (by omega) (by omega)
      obtain ⟨q, hq, hqs⟩ := add_canonical hcanonical
      have hmax : r.start.start < Page.maxStart := by
        unfold IsCanonical at hcanonical
        unfold Page.maxStart
        omega
      have hlen' : len ⟨q, r.stop⟩ = n := by
        unfold len at hlen ⊢
        rw [if_pos hle] at hlen
        simp only
        split
        · omega
        · omega
      obtain ⟨ps, hps, hlength, hnodup, hmem⟩ := ih
        (r := ⟨q, r.stop⟩)
        (fun a ha => hsteps a (by simp only at ha; omega)) hlen'
      refine ⟨r.start :: ps, ?_, by rw [List.length_cons, hlength], ?_, ?_⟩
      · unfold elements next
        rw [if_pos hle, if_pos hmax, hq]
        show _ :: elements (n + 1) _ = _
        rw [hps]
        rfl
      · refine List.nodup_cons.mpr ⟨fun hin => ?_, hnodup⟩
        have := (hmem r.start).mp hin
        simp only at this
        omega
      · intro p
        have hp := p.aligned
        rw [List.mem_cons, hmem p]
        simp only
        constructor
        · intro h
          rcases h with rfl | h
          · exact ⟨Nat.le_refl _, hle⟩
          · omega
        · intro h
          by_cases hself : p.start = r.start.start
          · exact .inl (Page.ext hself)
          · exact .inr (by omega)

/-- The iterator of such a range hands out its pages, once each. -/
theorem iter_spec {r : PageRangeInclusive} (h : r.Steps) :
    ∃ ps : List Page, r.iter = ps.map .ok ∧ ps.length = r.len ∧ ps.Nodup
      ∧ ∀ p, p ∈ ps ↔ r.start.start ≤ p.start ∧ p.start ≤ r.stop.start :=
  elements_spec h rfl

end PageRangeInclusive

-- =================================================================== pools

/-- A frame allocator, with what is known of it: in a good state it
returns a frame that was free and no longer is, nothing becomes free by
that, and it returns one as long as there is one left. -/
structure Pool (F A : Type) where
  alloc : A → Except Panic (Option F × A)
  Good : A → Prop
  Free : A → F → Prop
  left : A → Nat
  good : ∀ {a b : A} {f : F}, Good a → alloc a = .ok (some f, b) → Good b
  free : ∀ {a b : A} {f : F}, Good a → alloc a = .ok (some f, b) → Free a f
  taken : ∀ {a b : A} {f : F}, Good a → alloc a = .ok (some f, b) →
    ¬ Free b f
  mono : ∀ {a b : A} {f g : F}, Good a → alloc a = .ok (some f, b) →
    Free b g → Free a g
  spends : ∀ {a b : A} {f : F}, Good a → alloc a = .ok (some f, b) →
    left a = left b + 1
  serves : ∀ {a : A}, Good a → 0 < left a →
    ∃ f b, alloc a = .ok (some f, b)

namespace Pool

variable {P : Pool F A} {n : Nat} {a b : A} {g : F}

/-- What the calls of `map_to` do to a pool. -/
theorem takes (hgood : P.Good a) (h : Takes P.alloc n a b) :
    P.Good b ∧ (∀ g, P.Free b g → P.Free a g)
      ∧ P.left a = P.left b + n := by
  induction h with
  | zero => exact ⟨hgood, fun _ hg => hg, rfl⟩
  | succ halloc _ ih =>
      obtain ⟨hgood', hmono, hleft⟩ := ih (P.good hgood halloc)
      refine ⟨hgood', fun g hg => P.mono hgood halloc (hmono g hg), ?_⟩
      rw [P.spends hgood halloc, hleft]
      omega

theorem takes_exists {n : Nat} :
    ∀ {a : A}, P.Good a → n ≤ P.left a → ∃ b, Takes P.alloc n a b := by
  induction n with
  | zero => intro a _ _; exact ⟨a, .zero⟩
  | succ n ih =>
      intro a hgood hn
      obtain ⟨f, b, halloc⟩ := P.serves hgood (by omega)
      have hleft := P.spends hgood halloc
      obtain ⟨c, htakes⟩ := ih (P.good hgood halloc) (by omega)
      exact ⟨c, .succ halloc htakes⟩

end Pool

-- ================================================================ the loop

/-- One round: a fresh frame, mapped at the page. -/
def Grant (M : Mapper PT F A) (alloc : A → Except Panic (Option F × A))
    (fl : Flags) (p : Page) (s s' : PT × A) : Prop :=
  ∃ f a, alloc s.2 = .ok (some f, a)
    ∧ M.mapTo s.1 p f fl a = .ok (.ok (), s')

/-- The rounds of a loop. -/
inductive Grants (M : Mapper PT F A)
    (alloc : A → Except Panic (Option F × A)) (fl : Flags) :
    List Page → PT × A → PT × A → Prop
  | nil {s : PT × A} : Grants M alloc fl [] s s
  | cons {p : Page} {ps : List Page} {s s₁ s₂ : PT × A} :
      Grant M alloc fl p s s₁ → Grants M alloc fl ps s₁ s₂ →
        Grants M alloc fl (p :: ps) s s₂

theorem grants_nil {M : Mapper PT F A}
    {alloc : A → Except Panic (Option F × A)} {fl : Flags}
    {s s' : PT × A} : Grants M alloc fl [] s s' ↔ s' = s := by
  constructor
  · intro h
    cases h
    rfl
  · intro h
    subst h
    exact .nil

theorem grants_cons {M : Mapper PT F A}
    {alloc : A → Except Panic (Option F × A)} {fl : Flags} {p : Page}
    {ps : List Page} {s s' : PT × A} :
    Grants M alloc fl (p :: ps) s s'
      ↔ ∃ s₁, Grant M alloc fl p s s₁ ∧ Grants M alloc fl ps s₁ s' := by
  constructor
  · intro h
    cases h with
    | cons hone hrest => exact ⟨_, hone, hrest⟩
  · intro h
    obtain ⟨s₁, hone, hrest⟩ := h
    exact .cons hone hrest

-- ======================================================== what comes of it

section Outcome

variable {M : Mapper PT F A} {P : Pool F A} {fl : Flags} {p : Page}
  {ps : List Page} {s s' : PT × A}

/-- The pages were given fresh frames, one each; nothing else changed in
the page table, and nothing became free. -/
structure Granted (M : Mapper PT F A) (P : Pool F A) (fl : Flags)
    (ps : List Page) (s s' : PT × A) : Prop where
  good : P.Good s'.2
  nodup : ps.Nodup
  unmapped : ∀ p ∈ ps, M.translate s.1 p = none
  mapped : ∀ p ∈ ps, ∃ f, M.translate s'.1 p = some ⟨f, fl⟩
    ∧ P.Free s.2 f ∧ ¬ P.Free s'.2 f
  distinct : ∀ p ∈ ps, ∀ q ∈ ps, ∀ f,
    M.translate s'.1 p = some ⟨f, fl⟩ →
    M.translate s'.1 q = some ⟨f, fl⟩ → p = q
  others : ∀ q, q ∉ ps → M.translate s'.1 q = M.translate s.1 q
  mono : ∀ g, P.Free s'.2 g → P.Free s.2 g

theorem Granted.nil (h : P.Good s.2) : Granted M P fl [] s s where
  good := h
  nodup := List.nodup_nil
  unmapped := by simp
  mapped := by simp
  distinct := by simp
  others := fun _ _ => rfl
  mono := fun _ hg => hg

variable (hlaws : M.Laws P.alloc)
include hlaws

/-- What one round does. -/
theorem Grant.spec (hgood : P.Good s.2) (h : Grant M P.alloc fl p s s') :
    P.Good s'.2 ∧ M.translate s.1 p = none
      ∧ (∃ f, P.Free s.2 f ∧ ¬ P.Free s'.2 f
        ∧ ∀ q, M.translate s'.1 q
          = if q = p then some ⟨f, fl⟩ else M.translate s.1 q)
      ∧ (∀ g, P.Free s'.2 g → P.Free s.2 g)
      ∧ P.left s.2 = P.left s'.2 + M.missing s.1 p + 1
      ∧ ∀ t, M.hasTable s'.1 t
        = (M.hasTable s.1 t || decide (t ∈ p.tables)) := by
  obtain ⟨f, a, halloc, hmap⟩ := h
  have hgood₁ := P.good hgood halloc
  obtain ⟨hnone, htranslate⟩ := hlaws.maps hmap
  obtain ⟨htakes, htables⟩ := hlaws.takes hmap
  obtain ⟨hgood₂, hmono, hleft⟩ := P.takes hgood₁ htakes
  refine ⟨hgood₂, hnone, ⟨f, P.free hgood halloc, ?_, htranslate⟩, ?_, ?_,
    htables⟩
  · intro hf
    exact P.taken hgood halloc (hmono f hf)
  · intro g hg
    exact P.mono hgood halloc (hmono g hg)
  · rw [P.spends hgood halloc, hleft]

/-- A round, and what comes of the rounds after it. -/
theorem Granted.cons (hgood : P.Good s.2) {s₁ : PT × A}
    (hone : Grant M P.alloc fl p s s₁) (h : Granted M P fl ps s₁ s') :
    Granted M P fl (p :: ps) s s' := by
  obtain ⟨-, hnone, ⟨f, hfree, htaken, htranslate⟩, hmono, -, -⟩ :=
    hone.spec hlaws hgood
  have hself : M.translate s₁.1 p = some ⟨f, fl⟩ := by
    rw [htranslate, if_pos rfl]
  -- the rounds after it leave its page alone
  have hp : p ∉ ps := by
    intro hp
    rw [h.unmapped p hp] at hself
    cases hself
  have hlast : M.translate s'.1 p = some ⟨f, fl⟩ := by
    rw [h.others p hp, hself]
  -- and take other frames
  have hother : ∀ q ∈ ps, M.translate s'.1 q ≠ some ⟨f, fl⟩ := by
    intro q hq hqf
    obtain ⟨g, hg, hgfree, -⟩ := h.mapped q hq
    rw [hg] at hqf
    cases hqf
    exact htaken hgfree
  refine ⟨h.good, List.nodup_cons.mpr ⟨hp, h.nodup⟩, ?_, ?_, ?_, ?_,
    fun g hg => hmono g (h.mono g hg)⟩
  · intro q hq
    rcases List.mem_cons.mp hq with rfl | hq
    · exact hnone
    · have hqp : q ≠ p := fun heq => hp (heq ▸ hq)
      have := h.unmapped q hq
      rwa [htranslate, if_neg hqp] at this
  · intro q hq
    rcases List.mem_cons.mp hq with rfl | hq
    · exact ⟨f, hlast, hfree, fun hf => htaken (h.mono f hf)⟩
    · obtain ⟨g, hg, hgfree, hgtaken⟩ := h.mapped q hq
      exact ⟨g, hg, hmono g hgfree, hgtaken⟩
  · intro q hq r hr g hqg hrg
    rcases List.mem_cons.mp hq with hqp | hqs
    · rcases List.mem_cons.mp hr with hrp | hrs
      · rw [hqp, hrp]
      · rw [hqp, hlast] at hqg
        exact absurd (hqg ▸ hrg) (hother r hrs)
    · rcases List.mem_cons.mp hr with hrp | hrs
      · rw [hrp, hlast] at hrg
        exact absurd (hrg ▸ hqg) (hother q hqs)
      · exact h.distinct q hqs r hrs g hqg hrg
  · intro q hq
    rw [List.mem_cons, not_or] at hq
    rw [h.others q hq.2, htranslate, if_neg hq.1]

theorem Grants.granted (hgood : P.Good s.2)
    (h : Grants M P.alloc fl ps s s') : Granted M P fl ps s s' := by
  induction h with
  | nil => exact .nil hgood
  | cons hone _ ih =>
      exact (ih (hone.spec hlaws hgood).1).cons hlaws hgood hone

-- ================================================= reaching the loop's end

variable (fl) in
/-- A round succeeds when its page is not mapped and the frames for it
and its tables are there. -/
theorem grant_exists_iff (hgood : P.Good s.2) :
    (∃ s', Grant M P.alloc fl p s s')
      ↔ M.translate s.1 p = none ∧ M.missing s.1 p + 1 ≤ P.left s.2 := by
  constructor
  · intro h
    obtain ⟨s', hone⟩ := h
    obtain ⟨-, hnone, -, -, hleft, -⟩ := hone.spec hlaws hgood
    exact ⟨hnone, by omega⟩
  · intro h
    obtain ⟨hnone, hleft⟩ := h
    obtain ⟨f, a, halloc⟩ := P.serves hgood (by omega)
    have hspends := P.spends hgood halloc
    obtain ⟨b, htakes⟩ := P.takes_exists (n := M.missing s.1 p)
      (P.good hgood halloc) (by omega)
    obtain ⟨pt, hmap⟩ := hlaws.succeeds f fl hnone htakes
    exact ⟨(pt, b), f, a, halloc, hmap⟩

/-- What is not mapped after a round. -/
theorem Grant.unmapped_iff (hgood : P.Good s.2)
    (h : Grant M P.alloc fl p s s') :
    (∀ q ∈ ps, M.translate s'.1 q = none)
      ↔ p ∉ ps ∧ ∀ q ∈ ps, M.translate s.1 q = none := by
  obtain ⟨-, -, ⟨f, -, -, htranslate⟩, -⟩ := h.spec hlaws hgood
  constructor
  · intro hnone
    have hp : p ∉ ps := by
      intro hp
      have := hnone p hp
      rw [htranslate, if_pos rfl] at this
      cases this
    refine ⟨hp, fun q hq => ?_⟩
    have hqp : q ≠ p := fun heq => hp (heq ▸ hq)
    have := hnone q hq
    rwa [htranslate, if_neg hqp] at this
  · intro hparts q hq
    have hqp : q ≠ p := fun heq => hparts.1 (heq ▸ hq)
    rw [htranslate, if_neg hqp]
    exact hparts.2 q hq

omit hlaws in
theorem missing_eq_zero {pt : PT} :
    M.missing pt p = 0 ↔ ∀ t ∈ p.tables, M.hasTable pt t = true := by
  unfold Mapper.missing
  rw [List.length_eq_zero_iff, List.filter_eq_nil_iff]
  simp

/-- A round below tables that are all there makes none, and takes one
frame. -/
theorem Grant.under (hgood : P.Good s.2) (htables : M.missing s.1 p = 0)
    (h : Grant M P.alloc fl p s s') :
    P.left s.2 = P.left s'.2 + 1
      ∧ ∀ t, M.hasTable s'.1 t = M.hasTable s.1 t := by
  obtain ⟨-, -, -, -, hleft, hhas⟩ := h.spec hlaws hgood
  refine ⟨by omega, fun t => ?_⟩
  rw [hhas]
  by_cases ht : t ∈ p.tables
  · rw [missing_eq_zero.mp htables t ht]
    rfl
  · simp [ht]

/-- So does a loop. -/
theorem Grants.under :
    ∀ {ps : List Page} {s : PT × A}, P.Good s.2 →
      (∀ p ∈ ps, M.missing s.1 p = 0) → Grants M P.alloc fl ps s s' →
      P.left s.2 = P.left s'.2 + ps.length
        ∧ ∀ t, M.hasTable s'.1 t = M.hasTable s.1 t := by
  intro ps
  induction ps with
  | nil =>
      intro s _ _ h
      obtain rfl := grants_nil.mp h
      exact ⟨rfl, fun _ => rfl⟩
  | cons p ps ih =>
      intro s hgood htables h
      obtain ⟨hp, hps⟩ := List.forall_mem_cons.mp htables
      obtain ⟨s₁, hone, hrest⟩ := grants_cons.mp h
      obtain ⟨hleft, hsame⟩ := hone.under hlaws hgood hp
      obtain ⟨hleft₁, hsame₁⟩ := ih (hone.spec hlaws hgood).1
        (fun q hq => missing_eq_zero.mpr fun t ht => by
          rw [hsame]
          exact missing_eq_zero.mp (hps q hq) t ht) hrest
      refine ⟨?_, fun t => (hsame₁ t).trans (hsame t)⟩
      rw [List.length_cons]
      omega

/-- Where all tables are there, a loop gets to its end when its pages are
distinct and not mapped and there is a frame for each. -/
theorem grants_exists_under :
    ∀ {ps : List Page} {s : PT × A}, P.Good s.2 →
      (∀ p ∈ ps, M.missing s.1 p = 0) →
      ((∃ s', Grants M P.alloc fl ps s s')
        ↔ ps.Nodup ∧ (∀ p ∈ ps, M.translate s.1 p = none)
          ∧ ps.length ≤ P.left s.2) := by
  intro ps
  induction ps with
  | nil =>
      intro s _ _
      constructor
      · intro _
        exact ⟨List.nodup_nil, by simp, Nat.zero_le _⟩
      · intro _
        exact ⟨s, .nil⟩
  | cons p ps ih =>
      intro s hgood htables
      obtain ⟨hp, hps⟩ := List.forall_mem_cons.mp htables
      rw [List.nodup_cons, List.forall_mem_cons, List.length_cons]
      -- a round leaves the tables there, and one frame less
      have hnext : ∀ {s₁ : PT × A}, Grant M P.alloc fl p s s₁ →
          P.left s.2 = P.left s₁.2 + 1
            ∧ ((∃ s', Grants M P.alloc fl ps s₁ s') ↔ ps.Nodup
              ∧ (∀ q ∈ ps, M.translate s₁.1 q = none)
              ∧ ps.length ≤ P.left s₁.2) := by
        intro s₁ hone
        obtain ⟨hleft, hsame⟩ := hone.under hlaws hgood hp
        refine ⟨hleft, ih (hone.spec hlaws hgood).1 fun q hq => ?_⟩
        refine missing_eq_zero.mpr fun t ht => ?_
        rw [hsame]
        exact missing_eq_zero.mp (hps q hq) t ht
      constructor
      · intro h
        obtain ⟨s₂, hall⟩ := h
        obtain ⟨s₁, hone, hrest⟩ := grants_cons.mp hall
        obtain ⟨hleft, hiff⟩ := hnext hone
        obtain ⟨hnodup, hunmapped, hcount⟩ := hiff.mp ⟨s₂, hrest⟩
        obtain ⟨hnot, hnone⟩ := (hone.unmapped_iff hlaws hgood).mp hunmapped
        exact ⟨⟨hnot, hnodup⟩, ⟨(hone.spec hlaws hgood).2.1, hnone⟩,
          by omega⟩
      · intro h
        obtain ⟨⟨hnot, hnodup⟩, ⟨hfirst, hnone⟩, hcount⟩ := h
        obtain ⟨s₁, hone⟩ := (grant_exists_iff fl hlaws hgood).mpr
          ⟨hfirst, by omega⟩
        obtain ⟨hleft, hiff⟩ := hnext hone
        obtain ⟨s₂, hrest⟩ := hiff.mpr ⟨hnodup,
          (hone.unmapped_iff hlaws hgood).mpr ⟨hnot, hnone⟩, by omega⟩
        exact ⟨s₂, .cons hone hrest⟩

/-- After a round its tables are there. -/
theorem Grant.tables_there (hgood : P.Good s.2)
    (h : Grant M P.alloc fl p s s') {q : Page} (hq : q.tables = p.tables) :
    M.missing s'.1 q = 0 := by
  obtain ⟨-, -, -, -, -, hhas⟩ := h.spec hlaws hgood
  refine missing_eq_zero.mpr fun t ht => ?_
  rw [hhas, ← hq]
  simp [ht]

variable (fl) in
/-- Pages below one last-level table: the first one takes the frames for
the tables that are missing. -/
theorem grants_exists_iff (hgood : P.Good s.2)
    (hsame : ∀ q ∈ ps, q.tables = p.tables) :
    (∃ s', Grants M P.alloc fl (p :: ps) s s')
      ↔ (p :: ps).Nodup ∧ (∀ q ∈ p :: ps, M.translate s.1 q = none)
        ∧ (p :: ps).length + M.missing s.1 p ≤ P.left s.2 := by
  rw [List.nodup_cons, List.forall_mem_cons, List.length_cons]
  constructor
  · intro h
    obtain ⟨s₂, hall⟩ := h
    obtain ⟨s₁, hone, hrest⟩ := grants_cons.mp hall
    obtain ⟨hgood₁, hnone, -, -, hleft, -⟩ := hone.spec hlaws hgood
    obtain ⟨hnodup, hunmapped, hcount⟩ := (grants_exists_under hlaws hgood₁
      fun q hq => hone.tables_there hlaws hgood (hsame q hq)).mp ⟨s₂, hrest⟩
    obtain ⟨hp, hps⟩ := (hone.unmapped_iff hlaws hgood).mp hunmapped
    exact ⟨⟨hp, hnodup⟩, ⟨hnone, hps⟩, by omega⟩
  · intro h
    obtain ⟨⟨hp, hnodup⟩, ⟨hnone, hps⟩, hcount⟩ := h
    obtain ⟨s₁, hone⟩ := (grant_exists_iff fl hlaws hgood).mpr
      ⟨hnone, by omega⟩
    obtain ⟨hgood₁, -, -, -, hleft, -⟩ := hone.spec hlaws hgood
    obtain ⟨s₂, hrest⟩ := (grants_exists_under hlaws hgood₁ fun q hq =>
      hone.tables_there hlaws hgood (hsame q hq)).mpr ⟨hnodup,
        (hone.unmapped_iff hlaws hgood).mpr ⟨hp, hps⟩, by omega⟩
    exact ⟨s₂, .cons hone hrest⟩

/-- What such a loop leaves of the frames, and the tables there are. -/
theorem Grants.spent (hgood : P.Good s.2)
    (hsame : ∀ q ∈ ps, q.tables = p.tables)
    (h : Grants M P.alloc fl (p :: ps) s s') :
    P.left s.2 = P.left s'.2 + (p :: ps).length + M.missing s.1 p
      ∧ ∀ t, M.hasTable s'.1 t
        = (M.hasTable s.1 t || decide (t ∈ p.tables)) := by
  obtain ⟨s₁, hone, hrest⟩ := grants_cons.mp h
  obtain ⟨hgood₁, -, -, -, hleft, hhas⟩ := hone.spec hlaws hgood
  obtain ⟨hleft₁, hsame₁⟩ := hrest.under hlaws hgood₁ fun q hq =>
    hone.tables_there hlaws hgood (hsame q hq)
  refine ⟨?_, fun t => (hsame₁ t).trans (hhas t)⟩
  rw [List.length_cons]
  omega

omit hlaws in
/-- What is mapped stays mapped as it is. -/
theorem Granted.keeps (h : Granted M P fl ps s s') {q : Page}
    {m : Mapping F} (hq : M.translate s.1 q = some m) :
    M.translate s'.1 q = some m := by
  rw [h.others q, hq]
  intro hmem
  rw [h.unmapped q hmem] at hq
  cases hq

end Outcome

end Lib.Paging
