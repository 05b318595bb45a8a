/-
Which sources are built.

A tarball is hashed in every run; a source directory is taken for what it
should be because it is there (`prepare`). So what a run leaves of an
extraction or of a patch when it is stopped there is never looked at
again: the next run goes past it.

# The invariant

`Good`: a source directory that is there is complete, that is the patch
program succeeded on the full extraction of an archive with the pinned
digest. Each function of the script has one rule about where it may be
stopped and how it returns; a stop anywhere else than behind a write of
an extraction or of a patch keeps `Good`.
-/
import Bayos.Model.Cross

namespace Bayos.Cross

open Lib (Crash TransSys)

variable {File Patch α β : Type}

-- ============================================================== vocabulary

/-- The tree that the entries of an archive unpack to. -/
def unpacked (entries : List (Entry File)) : Tree File :=
  entries.foldl (fun t e => t.add e.path e.file) fun _ => none

/-- A tree after the edits of a patch. -/
def patched (t : Tree File) (edits : List (Edit File)) : Tree File :=
  edits.foldl Tree.edit t

/-- The tree a source is built from: the complete extraction of an
archive with the pinned digest, with the patch file applied to it, in
full and once. -/
def Complete (tools : Tools File Patch) (patches : String → Option Patch)
    (src : Source) (t : Tree File) : Prop :=
  ∃ bytes patch, tools.sha256 bytes = src.sha256
    ∧ patches src.patchFile = some patch
    ∧ (tools.unpack src.format bytes).2 = true
    ∧ (tools.patch patch (unpacked (tools.unpack src.format bytes).1)).2
      = true
    ∧ t = patched (unpacked (tools.unpack src.format bytes).1)
        (tools.patch patch (unpacked (tools.unpack src.format bytes).1)).1

/-- Every source directory is there and complete. -/
def AllComplete (tools : Tools File Patch) (patches : String → Option Patch)
    (c : Cache File) : Prop :=
  ∀ src ∈ sources, ∃ t, c.trees src.dirName = some t
    ∧ Complete tools patches src t

/-- What is relied on of the pinned archives: each unpacks below the
directory it is named after. -/
def Tools.Pinned (tools : Tools File Patch) : Prop :=
  ∀ src ∈ sources, ∀ bytes, tools.sha256 bytes = src.sha256 →
    ∀ e ∈ (tools.unpack src.format bytes).1, e.top = src.dirName

/-- Not behind a write of an extraction or of a patch. -/
def Doing.Between (d : Doing) : Prop := d ≠ .unpacking ∧ d ≠ .patching

instance (d : Doing) : Decidable d.Between :=
  inferInstanceAs (Decidable (_ ∧ _))

/-- The condition on a run. -/
def Uncut (_ : Cache File) : Event → Prop
  | .stopped d => d.Between
  | .past => True

-- ================================================================ tarballs

/-- Stopped between extractions and patches, with no directory
touched. -/
def Untouched (c : Cache File) (d : Doing) (c' : Cache File) : Prop :=
  d.Between ∧ c'.trees = c.trees

/-- A part of the script that leaves the directories alone. -/
def KeepsTrees (x : Script File α) : Prop :=
  ∀ c, x.Spec c (Untouched c) fun _ c' => c'.trees = c.trees

namespace KeepsTrees

theorem pure (a : α) : KeepsTrees (Pure.pure a : Script File α) :=
  fun _ => .pure rfl

theorem stop (text : String) : KeepsTrees (stop text : Script File α) :=
  fun _ => .fail

theorem read (f : Cache File → α) :
    KeepsTrees (Crash.read f : Script File α) :=
  fun _ => .read rfl

theorem write {d : Doing} {f : Cache File → Cache File} (hd : d.Between)
    (hf : ∀ c, (f c).trees = c.trees) :
    KeepsTrees (Crash.write d f : Script File Unit) :=
  fun c => .write ⟨hd, hf c⟩ (hf c)

theorem bind {x : Script File α} {f : α → Script File β}
    (hx : KeepsTrees x) (hf : ∀ a, KeepsTrees (f a)) :
    KeepsTrees (x >>= f) := by
  intro c
  refine (hx c).bind fun a c' htrees => (hf a c').mono ?_ ?_
  · intro d c'' h
    exact ⟨h.1, h.2.trans htrees⟩
  · intro b c'' h
    exact h.trans htrees

end KeepsTrees

theorem receive_keeps (dest : String) (body : List (Option Bytes)) :
    KeepsTrees (receive dest body : Script File Unit) := by
  induction body with
  | nil => exact .pure ()
  | cons chunk body ih =>
      cases chunk with
      | none => exact .stop _
      | some buf =>
          unfold receive
          split
          · exact .pure ()
          · exact .bind (.write (by decide) fun _ => rfl) fun _ => ih

theorem download_keeps (net : Network) (url dest : String) :
    KeepsTrees (download net url dest : Script File Unit) := by
  unfold download
  split
  · exact .stop _
  · split
    · exact .bind (.write (by decide) fun _ => rfl)
        fun _ => receive_keeps dest _
    · exact .stop _

theorem removeFile_keeps (path : String) :
    KeepsTrees (removeFile path : Script File Unit) := by
  refine .bind (.read _) fun found => ?_
  cases found with
  | none => exact .stop _
  | some bytes => exact .write (by decide) fun _ => rfl

/-- A tarball with this digest is in the cache. -/
def Fetched (tools : Tools File Patch) (path expected : String)
    (c : Cache File) : Prop :=
  ∃ bytes, c.tarballs path = some bytes ∧ tools.sha256 bytes = expected

theorem sha256Of_spec (tools : Tools File Patch) (path : String)
    (c : Cache File) :
    (sha256Of tools path).Spec c (Untouched c)
      fun got c' => c' = c ∧ Fetched tools path got c := by
  refine .bind (.read (Q := fun found c' => c' = c
    ∧ found = c.tarballs path) ⟨rfl, rfl⟩) ?_
  intro found c' h
  obtain ⟨rfl, rfl⟩ := h
  split
  case h_1 bytes hbytes => exact .pure ⟨rfl, bytes, hbytes, rfl⟩
  case h_2 => exact .fail

theorem verifySha256_spec (tools : Tools File Patch) (path : String)
    {expected : String} (hpinned : isPlaceholder expected = false)
    (c : Cache File) :
    (verifySha256 tools path expected).Spec c (Untouched c)
      fun ok c' => c' = c ∧ (ok = true → Fetched tools path expected c) := by
  unfold verifySha256
  rw [hpinned]
  refine .bind (sha256Of_spec tools path c) fun got c' h => .pure ⟨h.1, ?_⟩
  intro hok
  rw [← eq_of_beq hok]
  exact h.2

theorem assertSha256_spec (tools : Tools File Patch) (path label : String)
    {expected : String} (hpinned : isPlaceholder expected = false)
    (c : Cache File) :
    (assertSha256 tools path expected label).Spec c (Untouched c)
      fun _ c' => c' = c ∧ Fetched tools path expected c := by
  refine .bind (sha256Of_spec tools path c) fun got c' h => ?_
  rw [hpinned]
  by_cases hgot : (got == expected) = true
  · rw [if_neg Bool.false_ne_true, if_pos hgot]
    refine .pure ⟨h.1, ?_⟩
    rw [← eq_of_beq hgot]
    exact h.2
  · rw [if_neg Bool.false_ne_true, if_neg hgot]
    exact .fail

/-- Behind the first half of a round the tarball has the pinned digest,
and no directory was touched. -/
theorem fetch_spec (tools : Tools File Patch) (net : Network) {src : Source}
    (hpinned : isPlaceholder src.sha256 = false) (c : Cache File) :
    (fetch tools net src).Spec c (Untouched c) fun _ c' =>
      c'.trees = c.trees ∧ Fetched tools src.tarball src.sha256 c' := by
  -- both ways to a new tarball end in its download and check
  have hagain : ∀ c' : Cache File, c'.trees = c.trees →
      (do download net src.url src.tarball
          assertSha256 tools src.tarball src.sha256 src.name).Spec c'
        (Untouched c) fun _ c'' => c''.trees = c.trees
          ∧ Fetched tools src.tarball src.sha256 c'' := by
    intro c₁ h₁
    have hkeeps : (download net src.url src.tarball).Spec c₁ (Untouched c)
        fun _ c' => c'.trees = c.trees :=
      (download_keeps net src.url src.tarball c₁).mono
        (fun _ _ h => ⟨h.1, h.2.trans h₁⟩) fun _ _ h => h.trans h₁
    refine hkeeps.bind fun _ c₂ h₂ => ?_
    refine (assertSha256_spec tools src.tarball src.name hpinned c₂).mono
      (fun _ _ h => ⟨h.1, h.2.trans h₂⟩) fun _ c' h => ?_
    obtain ⟨rfl, hfetched⟩ := h
    exact ⟨h₂, hfetched⟩
  refine .bind (.read (Q := fun _ c' => c' = c) rfl) fun cached c' h => ?_
  subst h
  split
  case isFalse => exact hagain c' rfl
  case isTrue =>
    refine (verifySha256_spec tools src.tarball hpinned c').bind
      fun ok c'' h => ?_
    obtain ⟨rfl, hok⟩ := h
    split
    case isTrue hyes => exact .pure ⟨rfl, hok hyes⟩
    case isFalse =>
      exact (removeFile_keeps src.tarball c'').bind fun _ => hagain

-- ============================================================= directories

/-- A directory that is there stays as it is. -/
def Kept (c c' : Cache File) : Prop :=
  ∀ name t, c.trees name = some t → c'.trees name = some t

/-- A source directory that is there is complete. -/
def Good (tools : Tools File Patch) (patches : String → Option Patch)
    (c : Cache File) : Prop :=
  ∀ src ∈ sources, ∀ t, c.trees src.dirName = some t →
    Complete tools patches src t

theorem Kept.of_eq {c c' : Cache File} (h : c'.trees = c.trees) :
    Kept c c' := by
  intro name t ht
  rw [h]
  exact ht

theorem Kept.trans {c c' c'' : Cache File} (h : Kept c c')
    (h' : Kept c' c'') : Kept c c'' :=
  fun name t ht => h' name t (h name t ht)

theorem Good.of_eq {tools : Tools File Patch}
    {patches : String → Option Patch} {c c' : Cache File}
    (h : Good tools patches c) (heq : c'.trees = c.trees) :
    Good tools patches c' := by
  intro src hsrc t ht
  rw [heq] at ht
  exact h src hsrc t ht

/-- Two sources have two directories. -/
theorem dirName_inj : ∀ src ∈ sources, ∀ src' ∈ sources,
    src.dirName = src'.dirName → src = src' := by decide

theorem not_placeholder : ∀ src ∈ sources,
    isPlaceholder src.sha256 = false := by decide

/-- No directory but `dir` was touched. -/
def Others (dir : String) (c c' : Cache File) : Prop :=
  ∀ name, name ≠ dir → c'.trees name = c.trees name

section Tree

variable {dir : String} {c c' c'' : Cache File} {t : Tree File}

theorem Others.refl : Others dir c c := fun _ _ => rfl

theorem Others.trans (h : Others dir c c') (h' : Others dir c' c'') :
    Others dir c c'' :=
  fun name hname => (h' name hname).trans (h name hname)

theorem others_setTree : Others dir c (c.setTree dir t) :=
  fun _ hname => Function.update_of_ne hname ..

@[simp] theorem trees_setTree : (c.setTree dir t).trees dir = some t :=
  Function.update_self ..

@[simp] theorem tree_setTree : (c.setTree dir t).tree dir = t := by
  unfold Cache.tree
  rw [trees_setTree]
  rfl

theorem tree_eq (h : c.trees dir = some t) : c.tree dir = t := by
  unfold Cache.tree
  rw [h]
  rfl

/-- A new directory is one that was not there. -/
theorem Others.kept (h : Others dir c c') (hnone : c.trees dir = none) :
    Kept c c' := by
  intro name t ht
  rw [h name]
  · exact ht
  · rintro rfl
    cases hnone.symm.trans ht

end Tree

theorem unpacked_concat (done : List (Entry File)) (e : Entry File) :
    unpacked (done ++ [e]) = (unpacked done).add e.path e.file := by
  simp [unpacked]

theorem patched_concat (t : Tree File) (done : List (Edit File))
    (e : Edit File) : patched t (done ++ [e]) = (patched t done).edit e := by
  simp [patched]

/-- A file goes into its directory, which may be there alone before. -/
theorem unpackEntry_spec {dir : String} {c c' : Cache File} {e : Entry File}
    (htop : e.top = dir) (hothers : Others dir c c') :
    (unpackEntry e).Spec c' (fun d c'' => d = .unpacking ∧ Others dir c c'')
      fun _ c'' => Others dir c c''
        ∧ c''.tree dir = (c'.tree dir).add e.path e.file := by
  subst htop
  have hmade : Others e.top c (c'.makeDir e.top) :=
    hothers.trans others_setTree
  have hadded : Others e.top c ((c'.makeDir e.top).addEntry e) :=
    hmade.trans others_setTree
  refine .bind (.write (Q := fun _ c'' => c'' = c'.makeDir e.top)
    ⟨rfl, hmade⟩ rfl) fun _ c'' h => ?_
  subst h
  refine .write ⟨rfl, hadded⟩ ⟨hadded, ?_⟩
  unfold Cache.addEntry Cache.makeDir
  rw [tree_setTree, tree_setTree]

/-- An extraction that returns has written the tree of an archive with the
pinned digest, all of it. -/
theorem extractArchive_spec {tools : Tools File Patch}
    (hpinned : tools.Pinned) {src : Source} (hsrc : src ∈ sources)
    {c : Cache File} (hfetched : Fetched tools src.tarball src.sha256 c)
    (hnone : c.trees src.dirName = none) :
    (extractArchive tools src.tarball src.format).Spec c
      (fun d c' => d = .unpacking ∧ Others src.dirName c c')
      fun _ c' => Others src.dirName c c'
        ∧ ∃ bytes, tools.sha256 bytes = src.sha256
          ∧ (tools.unpack src.format bytes).2 = true
          ∧ c'.tree src.dirName
            = unpacked (tools.unpack src.format bytes).1 := by
  obtain ⟨bytes, hbytes, hdigest⟩ := hfetched
  refine .bind (.read (Q := fun found c' => c' = c ∧ found = some bytes)
    ⟨rfl, hbytes⟩) fun found c' h => ?_
  obtain ⟨rfl, rfl⟩ := h
  have hwrites : (Crash.forEach unpackEntry
      (tools.unpack src.format bytes).1).Spec c'
      (fun d c'' => d = .unpacking ∧ Others src.dirName c' c'')
      fun _ c'' => Others src.dirName c' c'' ∧ c''.tree src.dirName
        = unpacked (tools.unpack src.format bytes).1 := by
    refine .forEach (I := fun done c'' => Others src.dirName c' c''
      ∧ c''.tree src.dirName = unpacked done) ?_ (fun _ h => h) ?_
    · intro done e c'' he hI
      have htop := hpinned src hsrc bytes hdigest e he
      refine (unpackEntry_spec htop hI.1).mono (fun _ _ h => h)
        fun _ _ h => ⟨h.1, ?_⟩
      rw [h.2, hI.2, unpacked_concat]
    · refine ⟨.refl, ?_⟩
      unfold Cache.tree
      rw [hnone]
      rfl
  refine hwrites.bind fun _ c'' h => ?_
  split
  case isTrue hok => exact .pure ⟨h.1, bytes, hdigest, hok, h.2⟩
  case isFalse => exact .fail

/-- The patch has been applied to `t` in the directory, all of it. -/
def Applied (tools : Tools File Patch) (patch : Patch) (t : Tree File)
    (dir : String) (c : Cache File) : Prop :=
  (tools.patch patch t).2 = true
    ∧ c.trees dir = some (patched t (tools.patch patch t).1)

/-- A patch that returns has been applied, and a run is stopped between
its edits or behind all of them. -/
theorem applyPatch_spec (tools : Tools File Patch) (patchFile : String)
    (patch : Patch) (dir : String) (c : Cache File) :
    (applyPatch tools patchFile patch dir).Spec c
      (fun d c' => Others dir c c'
        ∧ (d.Between → Applied tools patch (c.tree dir) dir c'))
      fun _ c' => Others dir c c'
        ∧ Applied tools patch (c.tree dir) dir c' := by
  refine .bind (.read (Q := fun found c' => c' = c ∧ found = c.trees dir)
    ⟨rfl, rfl⟩) fun found c' h => ?_
  obtain ⟨rfl, hfound⟩ := h
  cases found with
  | none => exact .fail
  | some t =>
      rw [tree_eq hfound.symm]
      have hwrites : (Crash.forEach (fun e => Crash.write .patching
          fun c => Cache.editTree c dir e) (tools.patch patch t).1
            : Script File Unit).Spec c'
          (fun d c'' => Others dir c' c''
            ∧ (d.Between → Applied tools patch t dir c''))
          fun _ c'' => Others dir c' c''
            ∧ c''.trees dir = some (patched t (tools.patch patch t).1) := by
        refine .forEach (I := fun done c'' => Others dir c' c''
          ∧ c''.trees dir = some (patched t done)) ?_ (fun _ h => h)
          ⟨.refl, hfound.symm⟩
        intro done e c'' _ hI
        obtain ⟨hothers, htree⟩ := hI
        have hnew : c''.editTree dir e
            = c''.setTree dir ((patched t done).edit e) := by
          unfold Cache.editTree
          rw [tree_eq htree]
        have hothers' := hothers.trans (others_setTree (c := c'')
          (t := (patched t done).edit e))
        rw [← hnew] at hothers'
        refine .write ⟨hothers', fun hd => absurd rfl hd.2⟩ ⟨hothers', ?_⟩
        rw [hnew, trees_setTree, patched_concat]
      refine hwrites.bind fun _ c'' h => ?_
      split
      case isFalse => exact .fail
      case isTrue hok =>
        exact .note ⟨h.1, fun _ => ⟨hok, h.2⟩⟩ ⟨h.1, hok, h.2⟩

-- ================================================================ the loop

/-- What a part of the script may do wherever it is stopped: directories
that were there stay, and outside extractions and patches those that are
there are complete if they were before. -/
structure Safe (tools : Tools File Patch) (patches : String → Option Patch)
    (c : Cache File) (d : Doing) (c' : Cache File) : Prop where
  kept : Kept c c'
  good : d.Between → Good tools patches c → Good tools patches c'

section Loop

variable {tools : Tools File Patch} {patches : String → Option Patch}
  {src : Source} {c c' c'' : Cache File} {d : Doing}

theorem Safe.trans (h : Safe tools patches c .checking c')
    (h' : Safe tools patches c' d c'') : Safe tools patches c d c'' :=
  ⟨h.kept.trans h'.kept,
    fun hd hgood => h'.good hd (h.good (by decide) hgood)⟩

theorem Untouched.safe (h : Untouched c d c') :
    Safe tools patches c d c' :=
  ⟨.of_eq h.2, fun _ hgood => hgood.of_eq h.2⟩

/-- One complete directory more. -/
theorem good_of_others (hsrc : src ∈ sources)
    (hothers : Others src.dirName c c')
    (hcomplete : ∀ t, c'.trees src.dirName = some t →
      Complete tools patches src t)
    (hgood : Good tools patches c) : Good tools patches c' := by
  intro src' hsrc' t ht
  by_cases hdir : src'.dirName = src.dirName
  · obtain rfl := dirName_inj src' hsrc' src hsrc hdir
    exact hcomplete t ht
  · rw [hothers _ hdir] at ht
    exact hgood src' hsrc' t ht

/-- The second half of a round: the directory is there, or it is made
complete. -/
theorem prepare_spec (hpinned : tools.Pinned)
    (hpatches : ∀ src ∈ sources, (patches src.patchFile).isSome = true)
    (hsrc : src ∈ sources)
    (hfetched : Fetched tools src.tarball src.sha256 c) :
    (prepare tools patches src).Spec c (Safe tools patches c)
      fun _ c' => Safe tools patches c .checking c'
        ∧ (c'.trees src.dirName).isSome = true := by
  refine .bind (.read (Q := fun there c' => c' = c
    ∧ there = (c.trees src.dirName).isSome) ⟨rfl, rfl⟩) fun there c₁ h => ?_
  obtain ⟨rfl, rfl⟩ := h
  split
  case isTrue hthere => exact .pure ⟨⟨.of_eq rfl, fun _ h => h⟩, hthere⟩
  case isFalse hnot =>
    have hnone : c₁.trees src.dirName = none :=
      Option.not_isSome_iff_eq_none.mp hnot
    obtain ⟨patch, hpatch⟩ := Option.isSome_iff_exists.mp (hpatches src hsrc)
    refine .bind ((extractArchive_spec hpinned hsrc hfetched hnone).mono
      (fun d c' h => ⟨h.2.kept hnone, fun hd => absurd h.1 hd.1⟩)
      fun _ _ h => h) fun _ c₂ h => ?_
    obtain ⟨hothers, bytes, hdigest, hok, htree⟩ := h
    rw [hpatch]
    -- where the patch is done the directory is complete
    have hdone : ∀ c', Others src.dirName c₂ c' →
        Applied tools patch (c₂.tree src.dirName) src.dirName c' →
        Good tools patches c₁ → Good tools patches c' := by
      intro c' hothers' happlied
      rw [htree] at happlied
      refine good_of_others hsrc (hothers.trans hothers') fun t ht => ?_
      exact ⟨bytes, patch, hdigest, hpatch, hok, happlied.1,
        Option.some.inj (ht.symm.trans happlied.2)⟩
    refine (applyPatch_spec tools src.patchFile patch src.dirName c₂).mono
      (fun d c' h => ⟨(hothers.trans h.1).kept hnone,
        fun hd => hdone c' h.1 (h.2 hd)⟩) fun _ c' h => ?_
    refine ⟨⟨(hothers.trans h.1).kept hnone, fun _ => hdone c' h.1 h.2⟩, ?_⟩
    rw [h.2.2]
    rfl

/-- The loop over sources of the list. -/
theorem prepareAll_spec (hpinned : tools.Pinned)
    (hpatches : ∀ src ∈ sources, (patches src.patchFile).isSome = true)
    (net : Network) {srcs : List Source} (hsrcs : srcs ⊆ sources) :
    ∀ c, (prepareAll tools patches net srcs).Spec c (Safe tools patches c)
      fun _ c' => Safe tools patches c .checking c'
        ∧ ∀ src ∈ srcs, (c'.trees src.dirName).isSome = true := by
  induction srcs with
  | nil => exact fun c => .pure ⟨⟨.of_eq rfl, fun _ h => h⟩, nofun⟩
  | cons src srcs ih =>
      intro c
      have hsrc : src ∈ sources := hsrcs (List.mem_cons_self ..)
      have hrest : srcs ⊆ sources :=
        fun _ h => hsrcs (List.mem_cons_of_mem _ h)
      refine .bind ((fetch_spec tools net (not_placeholder src hsrc) c).mono
        (fun _ _ h => h.safe) fun _ _ h => h) fun _ c₁ h₁ => ?_
      obtain ⟨htrees, hfetched⟩ := h₁
      have hfirst : Safe tools patches c .checking c₁ :=
        Untouched.safe ⟨by decide, htrees⟩
      refine .bind ((prepare_spec hpinned hpatches hsrc hfetched).mono
        (fun _ _ h => hfirst.trans h) fun _ _ h => h) fun _ c₂ h₂ => ?_
      obtain ⟨hsecond, hthere⟩ := h₂
      refine (ih hrest c₂).mono
        (fun _ _ h => (hfirst.trans hsecond).trans h) fun _ c' h => ?_
      refine ⟨(hfirst.trans hsecond).trans h.1, fun src' hsrc' => ?_⟩
      rcases List.mem_cons.mp hsrc' with rfl | hsrc'
      · obtain ⟨t, ht⟩ := Option.isSome_iff_exists.mp hthere
        rw [h.1.kept _ t ht]
        rfl
      · exact h.2 src' hsrc'

theorem main_spec (hpinned : tools.Pinned)
    (hpatches : ∀ src ∈ sources, (patches src.patchFile).isSome = true)
    (net : Network) (c : Cache File) :
    (main tools patches net).Spec c (Safe tools patches c)
      fun _ c' => Safe tools patches c .checking c'
        ∧ ∀ src ∈ sources, (c'.trees src.dirName).isSome = true := by
  refine .bind (.note (Q := fun _ c' => c' = c)
    ⟨.of_eq rfl, fun _ h => h⟩ rfl) fun _ c' h => ?_
  rw [h]
  exact prepareAll_spec hpinned hpatches net (fun _ h => h) c

end Loop

-- ================================================================ the runs

section Runs

variable {tools : Tools File Patch} {patches : String → Option Patch}
  (hpinned : tools.Pinned)
  (hpatches : ∀ src ∈ sources, (patches src.patchFile).isSome = true)

include hpinned hpatches

/-- One run, however it ends. -/
theorem safe_step {c c' : Cache File} {e : Event}
    (hstep : (buildSys tools patches).step c e c') :
    Kept c c' ∧ (Uncut c e → Good tools patches c →
      Good tools patches c') := by
  obtain ⟨net, hrun⟩ := hstep
  have hmain := main_spec hpinned hpatches net c
  cases e with
  | stopped d =>
      have hsafe := hmain.1 (d, c') hrun
      exact ⟨hsafe.kept, hsafe.good⟩
  | past =>
      have hsafe := (hmain.2 () c' hrun).1
      exact ⟨hsafe.kept, fun _ => hsafe.good (by decide)⟩

/-- A run that gets past the loop has every source directory. -/
theorem past_all {c c' : Cache File}
    (hstep : (buildSys tools patches).step c .past c') :
    ∀ src ∈ sources, (c'.trees src.dirName).isSome = true := by
  obtain ⟨net, hrun⟩ := hstep
  exact ((main_spec hpinned hpatches net c).2 () c' hrun).2

/-- No run touches a directory that an earlier one has left. -/
theorem kept_run {c c' : Cache File} {es : List Event}
    (hrun : ((buildSys tools patches).startedAt c).Run es c') :
    Kept c c' := by
  refine hrun.invariant (I := Kept c) ?_ ?_
  · rintro s rfl
    exact .of_eq rfl
  · intro s e s' hkept hstep
    exact hkept.trans (safe_step hpinned hpatches hstep).1

/-- So what is left incomplete stays so: no later run builds from
complete sources again. -/
theorem never_repaired {c c' : Cache File} {es : List Event} {src : Source}
    (hsrc : src ∈ sources) {t : Tree File}
    (ht : c.trees src.dirName = some t)
    (hcut : ¬ Complete tools patches src t)
    (hrun : ((buildSys tools patches).startedAt c).Run es c') :
    ¬ AllComplete tools patches c' := by
  intro hall
  obtain ⟨t', ht', hcomplete⟩ := hall src hsrc
  have hsame := kept_run hpinned hpatches hrun _ _ ht
  obtain rfl := Option.some.inj (hsame.symm.trans ht')
  exact hcut hcomplete

theorem good_run {c : Cache File} {es : List Event}
    (hrun : ((buildSys tools patches).guard Uncut).Run es c) :
    Good tools patches c := by
  refine hrun.invariant (I := Good tools patches) ?_ ?_
  · intro s hinit src _ t ht
    cases (hinit src.dirName).symm.trans ht
  · intro s e s' hgood hstep
    exact (safe_step hpinned hpatches hstep.1).2 hstep.2 hgood

/-- In every sequence of runs none of which is stopped behind a write of
an extraction or of a patch, a run that gets past the loop has every
source complete. -/
theorem sources_complete {c : Cache File} {es : List Event}
    (hrun : ((buildSys tools patches).guard Uncut).Run (es ++ [.past]) c) :
    AllComplete tools patches c := by
  intro src hsrc
  obtain ⟨s, -, hstep⟩ := hrun.last
  obtain ⟨t, ht⟩ := Option.isSome_iff_exists.mp
    (past_all hpinned hpatches hstep.1 src hsrc)
  exact ⟨t, ht, good_run hpinned hpatches hrun src hsrc t ht⟩

end Runs

-- =============================================================== a machine

/-- Archives of one byte, with two files each. -/
def sampleTop (bytes : Bytes) : Source :=
  if bytes = [1] then gcc else if bytes = [2] then binutils else mlibc

def sampleTools : Tools Nat Unit where
  sha256 bytes := (sampleTop bytes).sha256
  unpack _ bytes :=
    ([⟨(sampleTop bytes).dirName, ["configure"], 1⟩,
      ⟨(sampleTop bytes).dirName, ["Makefile.in"], 2⟩], true)
  patch _ _ := ([⟨["configure"], some 3⟩], true)

def samplePatches : String → Option Unit := fun _ => some ()

def sampleNet : Network := fun url =>
  some ⟨200, [some [if url = gcc.url then 1
    else if url = binutils.url then 2 else 3]]⟩

theorem sampleTop_mem (bytes : Bytes) : sampleTop bytes ∈ sources := by
  unfold sampleTop
  split
  · decide
  · split
    · decide
    · decide

theorem sampleTools_pinned : sampleTools.Pinned := by
  have hsha : ∀ src ∈ sources, ∀ src' ∈ sources,
      src'.sha256 = src.sha256 → src'.dirName = src.dirName := by decide
  intro src hsrc bytes hdigest e he
  have htop := hsha src hsrc _ (sampleTop_mem bytes) hdigest
  rcases List.mem_pair.mp he with rfl | rfl
  · exact htop
  · exact htop

/-- An empty cache. -/
def sampleCache : Cache Nat := ⟨fun _ => none, fun _ => none⟩

/-- What a run leaves of a cache if it gets past the loop. -/
def samplePast (c : Cache Nat) : Cache Nat :=
  match (main sampleTools samplePatches sampleNet).run c with
  | .ok r => r.2
  | .error _ => c

/-- One run, not stopped. -/
theorem sources_complete_first :
    AllComplete sampleTools samplePatches (samplePast sampleCache) := by
  have hpast : (buildSys sampleTools samplePatches).step sampleCache .past
      (samplePast sampleCache) := ⟨sampleNet, rfl⟩
  have hrun : ((buildSys sampleTools samplePatches).guard Uncut).Run
      ([] ++ [.past]) (samplePast sampleCache) :=
    .step (.start fun _ => rfl) ⟨hpast, trivial⟩
  exact sources_complete sampleTools_pinned (by decide) hrun

/-- A run stopped in an extraction, where only the directory is made. -/
def cutCache : Cache Nat :=
  ((sampleCache.setTarball gcc.tarball (some [])).append gcc.tarball
    [1]).makeDir gcc.dirName

theorem cut_run : (buildSys sampleTools samplePatches).Run
    ([Event.stopped .unpacking] ++ [.past]) (samplePast cutCache) := by
  have hcut : (buildSys sampleTools samplePatches).step sampleCache
      (.stopped .unpacking) cutCache :=
    ⟨sampleNet, List.mem_of_getElem? (i := 3) rfl⟩
  have hpast : (buildSys sampleTools samplePatches).step cutCache .past
      (samplePast cutCache) := ⟨sampleNet, rfl⟩
  have hfirst : (buildSys sampleTools samplePatches).Run
      ([] ++ [.stopped .unpacking]) cutCache :=
    .step (.start fun _ => rfl) hcut
  exact .step hfirst hpast

/-- The directory it leaves. -/
def cutTree : Tree Nat := fun _ => none

theorem cut_incomplete :
    ¬ Complete sampleTools samplePatches gcc cutTree := by
  intro h
  obtain ⟨bytes, patch, -, -, -, -, htree⟩ := h
  have hfile := congrFun htree ["Makefile.in"]
  cases hfile

/-- The next run goes past it. -/
theorem cut_not_complete :
    ¬ ∀ es c, (buildSys sampleTools samplePatches).Run (es ++ [.past]) c →
      AllComplete sampleTools samplePatches c := by
  intro hall
  obtain ⟨t, ht, hcomplete⟩ := hall _ _ cut_run gcc (by decide)
  have hleft : (samplePast cutCache).trees gcc.dirName = some cutTree := rfl
  obtain rfl := Option.some.inj (hleft.symm.trans ht)
  exact cut_incomplete hcomplete

end Bayos.Cross
