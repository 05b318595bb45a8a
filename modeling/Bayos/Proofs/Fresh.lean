/-
Mapping pages to fresh frames: what the loops of `anon_allocate_syscall`
and `add_user_process` do to the page table and the frame allocator, and
when they get to their end.

# Two descriptions

`FreshPages` repeats the loops as a relation on the page table and the
allocator, without the rest of the kernel. `Gives` is what comes of it:
distinct pages that were not mapped, each with a frame of its own that
was free and no longer is, and everything else as before. The first is
exact (`forPages_ok`, `mapPages_ok`); the second composes.
-/
import Mathlib.Data.Finset.Basic
import Mathlib.Data.Finset.Card
import Mathlib.Data.Finset.Union
import Bayos.Model.Loader
import Bayos.Proofs.Kernel
import Bayos.Proofs.Pool

namespace Bayos.Kernel

open Rust
open Lib (Word Mem region)
open Lib.Paging
open Bayos.Memory

variable {PT : Type} {M : PageMapper PT} {k k' : State PT}

/-- A page table and the allocator its frames come from. -/
abbrev Space (PT : Type) := PT × BitmapAllocator

/-- The space of a kernel. -/
def State.space (k : State PT) : Space PT := (k.table, k.frames)

/-- A kernel over another space. -/
def State.inSpace (k : State PT) (s : Space PT) : State PT :=
  { k with table := s.1, frames := s.2 }

-- =============================================================== the loops

/-- One round of a loop: a fresh frame for a page. -/
def FreshPage (M : PageMapper PT) (p : Page) (s s' : Space PT) : Prop :=
  ∃ f frames, s.2.allocateFrame = .ok (some f, frames)
    ∧ M.mapTo s.1 p f userFlags frames = .ok (.ok (), s')

/-- The rounds of a loop. -/
inductive FreshPages (M : PageMapper PT) :
    List Page → Space PT → Space PT → Prop
  | nil {s : Space PT} : FreshPages M [] s s
  | cons {p : Page} {ps : List Page} {s s₁ s₂ : Space PT} :
      FreshPage M p s s₁ → FreshPages M ps s₁ s₂ →
        FreshPages M (p :: ps) s s₂

theorem anonPage_ok {p : Page} :
    anonPage M p k = .ok ((), k')
      ↔ ∃ s, FreshPage M p k.space s ∧ k' = k.inSpace s := by
  unfold anonPage
  rw [bind_ok]
  constructor
  · intro h
    rcases h with ⟨o, k₁, halloc, hthen⟩
    obtain ⟨frames, hframes, rfl⟩ := allocateFrame_ok.mp halloc
    obtain ⟨f, k₂, hexpect, hthen₂⟩ := bind_ok.mp hthen
    obtain ⟨hf, rfl⟩ := lift_ok.mp hexpect
    obtain rfl := expect_ok.mp hf
    obtain ⟨r, k₃, hmap, hthen₃⟩ := bind_ok.mp hthen₂
    obtain ⟨table, frames', hmapTo, rfl⟩ := mapTo_ok.mp hmap
    obtain ⟨hr, rfl⟩ := lift_ok.mp hthen₃
    cases r with
    | error e => cases hr
    | ok u => exact ⟨(table, frames'), ⟨f, frames, hframes, hmapTo⟩, rfl⟩
  · intro h
    rcases h with ⟨s, ⟨f, frames, hframes, hmapTo⟩, rfl⟩
    refine ⟨some f, { k with frames := frames },
      allocateFrame_ok.mpr ⟨frames, hframes, rfl⟩, ?_⟩
    refine bind_ok.mpr ⟨f, _, lift_ok.mpr ⟨rfl, rfl⟩, ?_⟩
    refine bind_ok.mpr ⟨.ok (), k.inSpace s, ?_, lift_ok.mpr ⟨rfl, rfl⟩⟩
    exact mapTo_ok.mpr ⟨s.1, s.2, hmapTo, rfl⟩

/-- A loop whose rounds are these gets to its end exactly when all of them
do. -/
theorem loop_ok {α : Type} {done : α}
    (loop : List (Except Panic Page) → KernelM PT α)
    (hnil : ∀ {k k' : State PT}, loop [] k = .ok (done, k') ↔ k' = k)
    (hcons : ∀ {e : Except Panic Page} {es : List (Except Panic Page)}
      {k k' : State PT}, loop (e :: es) k = .ok (done, k')
        ↔ ∃ p s, e = .ok p ∧ FreshPage M p k.space s
          ∧ loop es (k.inSpace s) = .ok (done, k'))
    {es : List (Except Panic Page)} :
    ∀ {k : State PT}, loop es k = .ok (done, k')
      ↔ ∃ ps s, es = ps.map .ok ∧ FreshPages M ps k.space s
        ∧ k' = k.inSpace s := by
  induction es with
  | nil =>
      intro k
      rw [hnil]
      constructor
      · intro h
        subst h
        exact ⟨[], k'.space, rfl, .nil, rfl⟩
      · intro h
        rcases h with ⟨ps, s, hps, hfresh, rfl⟩
        obtain rfl := List.map_eq_nil_iff.mp hps.symm
        cases hfresh
        rfl
  | cons e es ih =>
      intro k
      rw [hcons]
      constructor
      · intro h
        rcases h with ⟨p, s₁, rfl, hfresh, hrest⟩
        obtain ⟨ps, s, rfl, hfreshs, rfl⟩ := ih.mp hrest
        exact ⟨p :: ps, s, rfl, .cons hfresh hfreshs, rfl⟩
      · intro h
        rcases h with ⟨ps, s, hps, hfreshs, rfl⟩
        cases hfreshs with
        | nil => cases hps
        | cons hfresh hrest =>
            rw [List.map_cons, List.cons.injEq] at hps
            obtain ⟨rfl, rfl⟩ := hps
            exact ⟨_, _, rfl, hfresh, ih.mpr ⟨_, s, rfl, hrest, rfl⟩⟩

theorem forPages_ok {es : List (Except Panic Page)} :
    forPages (anonPage M) es k = .ok ((), k')
      ↔ ∃ ps s, es = ps.map .ok ∧ FreshPages M ps k.space s
        ∧ k' = k.inSpace s := by
  refine loop_ok (forPages (anonPage M)) ?_ ?_
  · intro k k'
    rw [forPages, pure_ok]
    exact and_iff_right rfl
  · intro e es k k'
    rw [forPages, bind_ok]
    constructor
    · intro h
      rcases h with ⟨p, k₁, hp, hthen⟩
      obtain ⟨rfl, rfl⟩ := lift_ok.mp hp
      obtain ⟨_, k₂, hpage, hrest⟩ := bind_ok.mp hthen
      obtain ⟨s₁, hfresh, rfl⟩ := anonPage_ok.mp hpage
      exact ⟨p, s₁, rfl, hfresh, hrest⟩
    · intro h
      rcases h with ⟨p, s₁, rfl, hfresh, hrest⟩
      refine ⟨p, k, lift_ok.mpr ⟨rfl, rfl⟩, ?_⟩
      exact bind_ok.mpr ⟨(), k.inSpace s₁,
        anonPage_ok.mpr ⟨s₁, hfresh, rfl⟩, hrest⟩

theorem andThen_ok {x y : KernelM PT Loaded} :
    andThen x y k = .ok (.ok (), k')
      ↔ ∃ k₁, x k = .ok (.ok (), k₁) ∧ y k₁ = .ok (.ok (), k') := by
  unfold andThen
  rw [bind_ok]
  constructor
  · intro hparts
    rcases hparts with ⟨r, k₁, hx, hy⟩
    cases r with
    | ok u => exact ⟨k₁, hx, hy⟩
    | error e =>
        obtain ⟨h, -⟩ := pure_ok.mp hy
        cases h
  · intro hparts
    rcases hparts with ⟨k₁, hx, hy⟩
    exact ⟨.ok (), k₁, hx, hy⟩

theorem mapPages_ok {es : List (Except Panic Page)} :
    mapPages M es k = .ok (.ok (), k')
      ↔ ∃ ps s, es = ps.map .ok ∧ FreshPages M ps k.space s
        ∧ k' = k.inSpace s := by
  refine loop_ok (mapPages M) ?_ ?_
  · intro k k'
    rw [mapPages, pure_ok]
    exact and_iff_right rfl
  · intro e es k k'
    rw [mapPages, bind_ok]
    constructor
    · intro h
      rcases h with ⟨p, k₁, hp, hthen⟩
      obtain ⟨rfl, rfl⟩ := lift_ok.mp hp
      obtain ⟨o, k₂, halloc, hmap⟩ := bind_ok.mp hthen
      obtain ⟨frames, hframes, rfl⟩ := allocateFrame_ok.mp halloc
      cases o with
      | none =>
          obtain ⟨h, -⟩ := pure_ok.mp hmap
          cases h
      | some f =>
          obtain ⟨k₃, hone, hrest⟩ := andThen_ok.mp hmap
          obtain ⟨table, frames', hmapTo, rfl⟩ := mapTo_ok.mp hone
          exact ⟨p, (table, frames'), rfl, ⟨f, frames, hframes, hmapTo⟩,
            hrest⟩
    · intro h
      rcases h with ⟨p, s₁, rfl, ⟨f, frames, hframes, hmapTo⟩, hrest⟩
      refine ⟨p, k, lift_ok.mpr ⟨rfl, rfl⟩, ?_⟩
      refine bind_ok.mpr ⟨some f, { k with frames := frames },
        allocateFrame_ok.mpr ⟨frames, hframes, rfl⟩, ?_⟩
      exact andThen_ok.mpr ⟨k.inSpace s₁,
        mapTo_ok.mpr ⟨s₁.1, s₁.2, hmapTo, rfl⟩, hrest⟩

-- ======================================================== what comes of it

/-- The pages were given fresh frames, one each; nothing else changed in
the page table, and nothing became free. -/
structure Gives (M : PageMapper PT) (ps : List Page) (s s' : Space PT) :
    Prop where
  nodup : ps.Nodup
  unmapped : ∀ p ∈ ps, M.translate s.1 p = none
  mapped : ∀ p ∈ ps, ∃ f, M.translate s'.1 p = some ⟨f, userFlags⟩
    ∧ Free s.2 f ∧ ¬ Free s'.2 f
  distinct : ∀ p ∈ ps, ∀ q ∈ ps, ∀ f fl fl',
    M.translate s'.1 p = some ⟨f, fl⟩ → M.translate s'.1 q = some ⟨f, fl'⟩ →
      p = q
  others : ∀ q, q ∉ ps → M.translate s'.1 q = M.translate s.1 q
  map : s'.2.memoryMap = s.2.memoryMap
  mono : ∀ g, Free s'.2 g → Free s.2 g

namespace Gives

variable {ps qs : List Page} {s s₁ s₂ : Space PT}

theorem nil (s : Space PT) : Gives M [] s s where
  nodup := List.nodup_nil
  unmapped := by simp
  mapped := by simp
  distinct := by simp
  others := fun _ _ => rfl
  map := rfl
  mono := fun _ h => h

/-- What is mapped stays mapped as it is. -/
theorem keeps (h : Gives M ps s s₁) {q : Page} {m : Mapping PhysFrame}
    (hq : M.translate s.1 q = some m) : M.translate s₁.1 q = some m := by
  rw [h.others q, hq]
  intro hmem
  rw [h.unmapped q hmem] at hq
  cases hq

/-- Giving pages, and then giving more. -/
theorem append (h₁ : Gives M ps s s₁) (h₂ : Gives M qs s₁ s₂) :
    Gives M (ps ++ qs) s s₂ := by
  -- what the first part mapped, the second part does not touch
  have hfirst : ∀ p ∈ ps, p ∉ qs := by
    intro p hp hq
    obtain ⟨f, hf, -⟩ := h₁.mapped p hp
    rw [h₂.unmapped p hq] at hf
    cases hf
  have hcross : ∀ p ∈ ps, ∀ q ∈ qs, ∀ f fl fl',
      M.translate s₂.1 p = some ⟨f, fl⟩ →
      M.translate s₂.1 q = some ⟨f, fl'⟩ → False := by
    intro p hp q hq f fl fl' hpf hqf
    obtain ⟨g, hg, -, htaken⟩ := h₁.mapped p hp
    obtain ⟨g', hg', hfree, -⟩ := h₂.mapped q hq
    rw [h₂.keeps hg] at hpf
    rw [hg'] at hqf
    cases hpf
    cases hqf
    exact htaken hfree
  refine ⟨?_, ?_, ?_, ?_, ?_, h₂.map.trans h₁.map,
    fun g hg => h₁.mono g (h₂.mono g hg)⟩
  · refine List.nodup_append.mpr ⟨h₁.nodup, h₂.nodup, ?_⟩
    intro p hp q hq heq
    subst heq
    exact hfirst p hp hq
  · intro p hp
    rcases List.mem_append.mp hp with hp | hp
    · exact h₁.unmapped p hp
    · rw [← h₁.others p (fun h => hfirst p h hp)]
      exact h₂.unmapped p hp
  · intro p hp
    rcases List.mem_append.mp hp with hp | hp
    · obtain ⟨f, hf, hfree, htaken⟩ := h₁.mapped p hp
      exact ⟨f, h₂.keeps hf, hfree, fun h => htaken (h₂.mono f h)⟩
    · obtain ⟨f, hf, hfree, htaken⟩ := h₂.mapped p hp
      exact ⟨f, hf, h₁.mono f hfree, htaken⟩
  · intro p hp q hq f fl fl' hpf hqf
    rcases List.mem_append.mp hp with hp | hp
    · rcases List.mem_append.mp hq with hq | hq
      · rw [h₂.others p (hfirst p hp)] at hpf
        rw [h₂.others q (hfirst q hq)] at hqf
        exact h₁.distinct p hp q hq f fl fl' hpf hqf
      · exact (hcross p hp q hq f fl fl' hpf hqf).elim
    · rcases List.mem_append.mp hq with hq | hq
      · exact (hcross q hq p hp f fl' fl hqf hpf).elim
      · exact h₂.distinct p hp q hq f fl fl' hpf hqf
  · intro q hq
    rw [List.mem_append, not_or] at hq
    rw [h₂.others q hq.2, h₁.others q hq.1]

end Gives

theorem FreshPages.append {ps qs : List Page} {s s₁ s₂ : Space PT}
    (h₁ : FreshPages M ps s s₁) (h₂ : FreshPages M qs s₁ s₂) :
    FreshPages M (ps ++ qs) s s₂ := by
  induction h₁ with
  | nil => exact h₂
  | cons hone _ ih => exact .cons hone (ih h₂)

theorem freshPages_append {ps qs : List Page} {s s' : Space PT} :
    FreshPages M (ps ++ qs) s s'
      ↔ ∃ s₁, FreshPages M ps s s₁ ∧ FreshPages M qs s₁ s' := by
  constructor
  · induction ps generalizing s with
    | nil => exact fun h => ⟨s, .nil, h⟩
    | cons p ps ih =>
        intro h
        cases h with
        | cons hone hrest =>
            obtain ⟨s₁, hfirst, hsecond⟩ := ih hrest
            exact ⟨s₁, .cons hone hfirst, hsecond⟩
  · intro h
    obtain ⟨s₁, hfirst, hsecond⟩ := h
    exact hfirst.append hsecond

section Laws

variable (hlaws : M.Laws BitmapAllocator.allocateFrame)
include hlaws

/-- What one round does to the page table. -/
theorem FreshPage.spec {p : Page} {s s' : Space PT}
    (h : FreshPage M p s s') :
    M.translate s.1 p = none
      ∧ (∃ f, ∀ q, M.translate s'.1 q
        = if q = p then some ⟨f, userFlags⟩ else M.translate s.1 q)
      ∧ ∀ t, M.hasTable s'.1 t
        = (M.hasTable s.1 t || decide (t ∈ p.tables)) := by
  obtain ⟨f, frames, -, hmap⟩ := h
  obtain ⟨hnone, htranslate⟩ := hlaws.maps hmap
  exact ⟨hnone, ⟨f, htranslate⟩, (hlaws.takes hmap).2⟩

/-- One round gives one page. -/
theorem FreshPage.gives {p : Page} {s s' : Space PT}
    (hnum : (numbering s.2.memoryMap).Nodup) (h : FreshPage M p s s') :
    Gives M [p] s s' := by
  obtain ⟨f, frames, halloc, hmap⟩ := h
  obtain ⟨hnone, htranslate⟩ := hlaws.maps hmap
  obtain ⟨htakes, -⟩ := hlaws.takes hmap
  have hmono : ∀ g, Free s'.2 g → Free frames g := fun g hg =>
    takes_mono htakes hg
  refine ⟨List.nodup_singleton p, ?_, ?_, ?_, ?_,
    (takes_map htakes).trans (allocate_map halloc),
    fun g hg => allocate_mono halloc (hmono g hg)⟩
  · intro q hq
    rw [List.mem_singleton.mp hq]
    exact hnone
  · intro q hq
    obtain rfl := List.mem_singleton.mp hq
    refine ⟨f, ?_, allocate_free halloc, fun hg => ?_⟩
    · rw [htranslate, if_pos rfl]
    · exact allocate_taken hnum halloc (hmono f hg)
  · intro q hq r hr _ _ _ _ _
    rw [List.mem_singleton.mp hq, List.mem_singleton.mp hr]
  · intro q hq
    rw [htranslate, if_neg (mt List.mem_singleton.mpr hq)]

theorem FreshPages.gives {ps : List Page} {s s' : Space PT}
    (hnum : (numbering s.2.memoryMap).Nodup) (h : FreshPages M ps s s') :
    Gives M ps s s' := by
  induction h with
  | nil => exact Gives.nil _
  | cons hone _ ih =>
      have hgives := hone.gives hlaws hnum
      exact hgives.append (ih (hgives.map ▸ hnum))

/-- What the pages are mapped to after a loop, whatever frames there
are. -/
theorem FreshPages.translate {ps : List Page} {s s' : Space PT}
    (h : FreshPages M ps s s') :
    (∀ p ∈ ps, ∃ f, M.translate s'.1 p = some ⟨f, userFlags⟩)
      ∧ ∀ q, q ∉ ps → M.translate s'.1 q = M.translate s.1 q := by
  induction h with
  | nil => exact ⟨by simp, fun _ _ => rfl⟩
  | @cons p ps s s₁ s₂ hone hrest ih =>
      obtain ⟨-, ⟨f, htranslate⟩, -⟩ := hone.spec hlaws
      obtain ⟨hmapped, hothers⟩ := ih
      refine ⟨?_, ?_⟩
      · intro q hq
        by_cases hps : q ∈ ps
        · exact hmapped q hps
        · have hqp : q = p := (List.mem_cons.mp hq).resolve_right hps
          exact ⟨f, by rw [hothers q hps, htranslate, if_pos hqp]⟩
      · intro q hq
        rw [List.mem_cons, not_or] at hq
        rw [hothers q hq.2, htranslate, if_neg hq.1]

-- ================================================= reaching the loop's end

omit hlaws in
/-- The tables that are missing on the way to some pages. -/
def missingTables (M : PageMapper PT) (pt : PT) (ps : List Page) :
    Finset TableId :=
  (ps.flatMap Page.tables).toFinset.filter fun t => M.hasTable pt t = false

omit hlaws in
theorem tables_nodup (p : Page) : p.tables.Nodup := by
  simp [Page.tables]

omit hlaws in
theorem missing_eq_card (pt : PT) (p : Page) :
    M.missing pt p
      = (p.tables.filter fun t => !M.hasTable pt t).toFinset.card := by
  rw [List.toFinset_card_of_nodup ((tables_nodup p).filter _)]
  rfl

omit hlaws in
/-- The missing tables of one page are among those of several. -/
theorem missing_le (pt : PT) (p : Page) (ps : List Page) :
    M.missing pt p ≤ (missingTables M pt (p :: ps)).card := by
  rw [missing_eq_card]
  refine Finset.card_le_card fun t ht => ?_
  rw [List.mem_toFinset, List.mem_filter] at ht
  simp only [missingTables, Finset.mem_filter, List.mem_toFinset,
    List.flatMap_cons, List.mem_append]
  exact ⟨Or.inl ht.1, by simpa using ht.2⟩

omit hlaws in
/-- A page takes at most its three tables. -/
theorem missingTables_le (M : PageMapper PT) (pt : PT) (ps : List Page) :
    (missingTables M pt ps).card ≤ 3 * ps.length := by
  have hlength : (ps.flatMap Page.tables).length = 3 * ps.length := by
    simp [List.length_flatMap, Page.tables, Nat.mul_comm]
  calc (missingTables M pt ps).card
      ≤ (ps.flatMap Page.tables).toFinset.card := Finset.card_filter_le ..
    _ ≤ (ps.flatMap Page.tables).length := List.toFinset_card_le _
    _ = 3 * ps.length := hlength

omit hlaws in
/-- After the tables of one page are there, that many fewer are missing
for the rest. -/
theorem missingTables_cons {pt pt' : PT} {p : Page} (ps : List Page)
    (h : ∀ t, M.hasTable pt' t = (M.hasTable pt t || decide (t ∈ p.tables))) :
    (missingTables M pt (p :: ps)).card
      = M.missing pt p + (missingTables M pt' ps).card := by
  rw [missing_eq_card, ← Finset.card_union_of_disjoint]
  · congr 1
    ext t
    simp only [missingTables, List.flatMap_cons, List.toFinset_append,
      Finset.mem_filter, Finset.mem_union, List.mem_toFinset, h,
      List.mem_filter, Bool.not_eq_true', Bool.or_eq_false_iff,
      decide_eq_false_iff_not]
    by_cases htp : t ∈ p.tables
    · simp [htp]
    · simp [htp]
  · rw [Finset.disjoint_left]
    intro t ht ht'
    rw [List.mem_toFinset, List.mem_filter] at ht
    have hmiss := (Finset.mem_filter.mp ht').2
    rw [h, Bool.or_eq_false_iff, decide_eq_false_iff_not] at hmiss
    exact hmiss.2 ht.1

/-- The frames one round takes. -/
theorem FreshPage.count {p : Page} {s s' : Space PT}
    (h : FreshPage M p s s') :
    freeCount s.2 = freeCount s'.2 + M.missing s.1 p + 1 := by
  obtain ⟨f, frames, halloc, hmap⟩ := h
  rw [allocate_count halloc, takes_count (hlaws.takes hmap).1]

theorem FreshPage.sized {p : Page} {s s' : Space PT} (hs : Sized s.2)
    (h : FreshPage M p s s') : Sized s'.2 := by
  obtain ⟨f, frames, halloc, hmap⟩ := h
  exact (hs.allocate halloc).takes (hlaws.takes hmap).1

theorem FreshPages.sized {ps : List Page} {s s' : Space PT}
    (hs : Sized s.2) (h : FreshPages M ps s s') : Sized s'.2 := by
  induction h with
  | nil => exact hs
  | cons hone _ ih => exact ih (hone.sized hlaws hs)

/-- A round succeeds when its page is not mapped and the frames for it
and its tables are there. -/
theorem freshPage_exists {p : Page} {s : Space PT} (hs : Sized s.2)
    (hnone : M.translate s.1 p = none)
    (hcount : M.missing s.1 p + 1 ≤ freeCount s.2) :
    ∃ s', FreshPage M p s s' := by
  obtain ⟨f, frames, halloc⟩ := hs.allocate_exists (by omega)
  have hrest := allocate_count halloc
  obtain ⟨frames', htakes⟩ :=
    (hs.allocate halloc).takes_exists (n := M.missing s.1 p) (by omega)
  obtain ⟨table, hmap⟩ := hlaws.succeeds f userFlags hnone htakes
  exact ⟨(table, frames'), f, frames, halloc, hmap⟩

/-- What is not mapped after a round. -/
theorem FreshPage.unmapped_iff {p : Page} {ps : List Page}
    {s s' : Space PT} (h : FreshPage M p s s') :
    (∀ q ∈ ps, M.translate s'.1 q = none)
      ↔ p ∉ ps ∧ ∀ q ∈ ps, M.translate s.1 q = none := by
  obtain ⟨-, ⟨f, htranslate⟩, -⟩ := h.spec hlaws
  constructor
  · intro hnone
    have hp : p ∉ ps := by
      intro hp
      have := hnone p hp
      rw [htranslate, if_pos rfl] at this
      cases this
    refine ⟨hp, fun q hq => ?_⟩
    have hqp : q ≠ p := fun heq => hp (heq ▸ hq)
    have := hnone q hq
    rwa [htranslate, if_neg hqp] at this
  · intro hparts q hq
    have hqp : q ≠ p := fun heq => hparts.1 (heq ▸ hq)
    rw [htranslate, if_neg hqp]
    exact hparts.2 q hq

/-- The frames that are enough for a round and the ones after it. -/
theorem FreshPage.enough_iff {p : Page} {ps : List Page}
    {s s' : Space PT} (h : FreshPage M p s s') :
    ps.length + (missingTables M s'.1 ps).card ≤ freeCount s'.2
      ↔ (p :: ps).length + (missingTables M s.1 (p :: ps)).card
        ≤ freeCount s.2 := by
  obtain ⟨-, -, htables⟩ := h.spec hlaws
  rw [missingTables_cons ps htables, List.length_cons, h.count hlaws]
  omega

omit hlaws in
theorem freshPages_cons {p : Page} {ps : List Page} {s s' : Space PT} :
    FreshPages M (p :: ps) s s'
      ↔ ∃ s₁, FreshPage M p s s₁ ∧ FreshPages M ps s₁ s' := by
  constructor
  · intro h
    cases h with
    | cons hone hrest => exact ⟨_, hone, hrest⟩
  · intro h
    obtain ⟨s₁, hone, hrest⟩ := h
    exact .cons hone hrest

/-- A loop gets to its end exactly when its pages are distinct and not
mapped and there are frames for all of them and for the tables that are
missing. -/
theorem freshPages_exists_iff {ps : List Page} :
    ∀ {s : Space PT}, Sized s.2 →
      ((∃ s', FreshPages M ps s s')
        ↔ ps.Nodup ∧ (∀ p ∈ ps, M.translate s.1 p = none)
          ∧ ps.length + (missingTables M s.1 ps).card
            ≤ freeCount s.2) := by
  induction ps with
  | nil =>
      intro s _
      constructor
      · intro _
        exact ⟨List.nodup_nil, by simp, Nat.zero_le _⟩
      · intro _
        exact ⟨s, .nil⟩
  | cons p ps ih =>
      intro s hs
      rw [List.nodup_cons, List.forall_mem_cons]
      constructor
      · intro h
        obtain ⟨s₂, hall⟩ := h
        obtain ⟨s₁, hone, hrest⟩ := freshPages_cons.mp hall
        obtain ⟨hnodup, hunmapped, hcount⟩ :=
          (ih (hone.sized hlaws hs)).mp ⟨s₂, hrest⟩
        obtain ⟨hp, hps⟩ := (hone.unmapped_iff hlaws).mp hunmapped
        exact ⟨⟨hp, hnodup⟩, ⟨(hone.spec hlaws).1, hps⟩,
          (hone.enough_iff hlaws).mp hcount⟩
      · intro h
        obtain ⟨⟨hp, hnodup⟩, ⟨hnone, hps⟩, hcount⟩ := h
        -- the first round succeeds, so the others have what they need
        have hle := missing_le (M := M) s.1 p ps
        obtain ⟨s₁, hone⟩ := freshPage_exists hlaws hs hnone (by
          rw [List.length_cons] at hcount
          omega)
        obtain ⟨s₂, hrest⟩ := (ih (hone.sized hlaws hs)).mpr ⟨hnodup,
          (hone.unmapped_iff hlaws).mpr ⟨hp, hps⟩,
          (hone.enough_iff hlaws).mpr hcount⟩
        exact ⟨s₂, .cons hone hrest⟩

end Laws

end Bayos.Kernel
