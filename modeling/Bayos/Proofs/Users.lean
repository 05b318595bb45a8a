/-
The kernel's runs, as far as the memory of user processes goes: ticks,
new processes, processes marked dead, loaders that map pages, stores, and
completing calls of `anon_allocate_syscall`.

# Loaders

A loader runs with interrupts on and may be preempted anywhere, so its
steps are events of their own: it takes the guards on the mapper and the
frame allocator (`lock`), maps pages to fresh frames (`map`), and at last
appends its process and drops the guards (`push`). Whatever pages it maps
is left open here.

# Stores

What processes and loaders store, and what code pushes on the stack it
runs on, goes to pages of processes or where nothing of the kernel's data
is; `own` may be another afterwards, since the data moves, and so do the
stacks. Through a call's pointer the kernel stores wherever it leads, and
to the frames of the call itself for one: a `read` each byte that it takes
out of the pipe (`read`), `anon_allocate_syscall` where its range starts
(`anon`). The runs in which that is nowhere in the kernel's data are those
of `sparingSys`.

# What a process has been given

Ticks move neither `mapper` nor `pages`; the entries of the table keep
their places, since no call removes one. `Owns` ties the `pages` of each
entry to the calls its process has made.
-/
import Bayos.Proofs.Anon
import Bayos.Proofs.Death

namespace Bayos.Kernel

open Rust
open Lib (Word TransSys getElem?_concat_some getElem?_modify_some
  map_modify_of_eq)
open Lib.Paging
open Lib.Paging.PageRangeInclusive (lastUser)
open Bayos.Memory
open Bayos.Sched (U64 MapperId Settles TableInv)

variable {PT : Type} {M : PageMapper PT} {debug : Bool}
  {k₀ k k' : State PT}

-- ================================================================ the runs

/-- The steps of a run. A call carries the process that makes it, its
arguments, and the word it leaves behind its pointer. -/
inductive Event
  | tick (rsp ret : U64)
  | addProcess (stack : U64)
  | markCurrentAsDead
  | lock
  | map (page : Page)
  | push (mapper : MapperId)
  | stores (phys : Nat → Byte)
  | read (a : Word) (b : Byte)
  | anon (i : Nat) (size ptr start : Word)

/-- The state in which `kernel_main` has set up the scheduler and the
bitmap allocator. -/
structure Boot (k : State PT) : Prop where
  sched : k.sched = Sched.init
  mapper : k.mapperHeld = false
  framesHeld : k.framesHeld = false
  frames : ∃ old, BitmapAllocator.init old = .ok k.frames

/-- A byte that may be stored to without a change of the kernel's data. -/
def Loose (M : PageMapper PT) (k : State PT) (y : Nat) : Prop :=
  OfProcess M k.table y ∨ k.Spares y

/-- The kernel from a boot state on. -/
def kernelSys (M : PageMapper PT) (debug : Bool) (k₀ : State PT) :
    TransSys (State PT) Event where
  init k := k = k₀ ∧ Boot k
  step k e k' :=
    match e with
    | .tick rsp ret => ∃ t,
        Settles (Sched.schedule · rsp k.sched) (ret, t)
          ∧ k' = { k with sched := t }
    | .addProcess stack => ∃ t,
        Sched.addProcess stack k.sched = .done ((), t)
          ∧ k' = { k with sched := t }
    | .markCurrentAsDead => ∃ t,
        Sched.markCurrentAsDead k.sched = .done ((), t)
          ∧ k' = { k with sched := t }
    | .lock => k.mapperHeld = false ∧ k.framesHeld = false
          ∧ k' = { k with mapperHeld := true, framesHeld := true }
    | .map page => k.mapperHeld = true ∧ k.framesHeld = true
          ∧ mapPages M [.ok page] k = .ok (.ok (), k')
    | .push mapper => k.mapperHeld = true ∧ k.framesHeld = true
          ∧ ∃ t, Sched.addUserProcess mapper k.sched = .done ((), t)
            ∧ k' = { k with
                sched := t, mapperHeld := false, framesHeld := false }
    | .stores phys => (∃ own, k' = { k with phys := phys, own := own })
          ∧ ∀ y, phys y ≠ k.phys y → Loose M k y
    | .read a b => storeByte M a b k = .ok ((), k')
    | .anon i size ptr start => i = k.sched.currentProcess
          ∧ anonAllocateSyscall M debug size ptr k = .ok ((), k')
          ∧ start = (view M k').read ptr 64

/-- A step at which no pointer leads to the kernel's data. -/
def Sparing (M : PageMapper PT) (k : State PT) : Event → Prop
  | .read a _ => k.SparesAll M {a}
  | .anon _ size ptr _ => Harmless M size ptr k
  | _ => True

/-- The runs of such steps. -/
def sparingSys (M : PageMapper PT) (debug : Bool) (k₀ : State PT) :
    TransSys (State PT) Event :=
  (kernelSys M debug k₀).guard (Sparing M)

/-- A byte read where nothing of the kernel's is changes memory only. -/
theorem read_memory {a : Word} {b : Byte} (hspared : k.SparesAll M {a})
    (h : storeByte M a b k = .ok ((), k')) :
    ∃ phys, k' = { k with phys := phys } := by
  rw [storeByte_spared (hspared a rfl)] at h
  obtain ⟨m, -, -, rfl⟩ := fillByte_ok.mp h
  exact ⟨_, rfl⟩

-- ============================================================ the requests

/-- A range of pages a process asked for. -/
structure Request where
  start : Nat
  size : Nat
  deriving DecidableEq

/-- The end of the range: the size is rounded up to whole pages. -/
def Request.stop (r : Request) : Nat := r.start + roundUp r.size 4096

/-- The pages of the range. -/
def Request.pages (r : Request) : List Page :=
  pageRun (r.start / 4096) (pagesFor r.size)

/-- The request of a call, with who made it. -/
def Event.request : Event → Option (Nat × Request)
  | .anon i size _ start => some (i, ⟨start.toNat, size.toNat⟩)
  | _ => none

/-- The requests of a run. -/
def requests (es : List Event) : List Request :=
  (es.filterMap Event.request).map Prod.snd

/-- The requests of one process. -/
def requestsOf (i : Nat) (es : List Event) : List Request :=
  ((es.filterMap Event.request).filter (·.1 = i)).map Prod.snd

/-- The ranges follow one another from `a` to `b`. -/
def Consecutive : Nat → List Request → Nat → Prop
  | a, [], b => b = a
  | a, r :: rs, b => r.start = a ∧ Consecutive r.stop rs b

theorem Consecutive.concat {rs : List Request} {b size : Nat} :
    ∀ {a : Nat}, Consecutive a rs b →
      Consecutive a (rs ++ [⟨b, size⟩]) (b + roundUp size 4096) := by
  induction rs with
  | nil =>
      intro a h
      subst h
      exact ⟨rfl, rfl⟩
  | cons r rs ih =>
      intro a h
      rcases h with ⟨rfl, hrest⟩
      exact ⟨rfl, ih hrest⟩

theorem Consecutive.le {rs : List Request} :
    ∀ {a b : Nat}, Consecutive a rs b → a ≤ b := by
  induction rs with
  | nil =>
      intro a b h
      subst h
      exact Nat.le_refl _
  | cons r rs ih =>
      intro a b h
      rcases h with ⟨rfl, hrest⟩
      exact Nat.le_trans (Nat.le_add_right _ _) (ih hrest)

/-- Ranges that follow one another lie between their ends. -/
theorem Consecutive.between {rs : List Request} {r : Request} :
    ∀ {a b : Nat}, Consecutive a rs b → r ∈ rs →
      a ≤ r.start ∧ r.stop ≤ b := by
  induction rs with
  | nil => intro a b _ hr; cases hr
  | cons s rs ih =>
      intro a b h hr
      rcases h with ⟨rfl, hrest⟩
      rcases List.mem_cons.mp hr with rfl | hr
      · exact ⟨Nat.le_refl _, hrest.le⟩
      · obtain ⟨hstart, hstop⟩ := ih hrest hr
        exact ⟨Nat.le_trans (Nat.le_add_right _ _) hstart, hstop⟩

/-- If the first starts on a page boundary, they all do. -/
theorem Consecutive.aligned {rs : List Request} :
    ∀ {a b : Nat}, Consecutive a rs b → a % 4096 = 0 →
      b % 4096 = 0 ∧ ∀ r ∈ rs, r.start % 4096 = 0 := by
  induction rs with
  | nil =>
      intro a b h ha
      subst h
      exact ⟨ha, by simp⟩
  | cons r rs ih =>
      intro a b h ha
      rcases h with ⟨rfl, hrest⟩
      have hround := roundUp_size r.size
      obtain ⟨hb, hall⟩ := ih hrest (by unfold Request.stop; omega)
      refine ⟨hb, ?_⟩
      intro r' hr'
      rcases List.mem_cons.mp hr' with rfl | hr'
      · exact ha
      · exact hall r' hr'

-- ============================================================= the entries

/-- The fields of an entry that say what memory its process has. -/
def holding (p : Sched.Process) : Option MapperId × Option U64 :=
  (p.mapper, p.pages)

/-- They, of the whole table. -/
def holdings (s : Sched.Table) : List (Option MapperId × Option U64) :=
  s.processList.map holding

/-- Where the ranges of every process start. -/
def rangesStart : Nat := 0x100000000

/-- A user process's `pages` is the end of its last range; a kernel
process has none. -/
def Owns (es : List Event) (i : Nat) :
    Option MapperId × Option U64 → Prop
  | (none, pages) => pages = none ∧ requestsOf i es = []
  | (some _, pages) => ∃ stop, stop ≤ 4096 * lastUser
      ∧ Consecutive rangesStart (requestsOf i es) stop
      ∧ pages = some (BitVec.ofNat 64 stop)

/-- What holds of every state of a run. -/
structure UserInv (es : List Event) (k : State PT) : Prop where
  table : TableInv k.sched
  sized : Sized k.frames
  entries : ∀ i h, (holdings k.sched)[i]? = some h → Owns es i h
  fresh : ∀ i, (holdings k.sched).length ≤ i → requestsOf i es = []

theorem holdings_ticked (s : Sched.Table) (rsp : U64) :
    holdings (Sched.ticked s rsp) = holdings s := by
  have hresumed : holdings (Sched.ticked s rsp)
      = (Sched.saved s rsp).map holding :=
    map_modify_of_eq (f := Sched.Process.resumed) (fun _ => rfl) _
  have hsaved : (Sched.saved s rsp).map holding = holdings s :=
    map_modify_of_eq (f := Sched.Process.preempted rsp) (fun _ => rfl) _
  exact hresumed.trans hsaved

theorem holdings_marked {s t : Sched.Table} (hinv : TableInv s)
    (h : Sched.markCurrentAsDead s = .done ((), t)) :
    holdings t = holdings s := by
  rw [Sched.markCurrentAsDead_run hinv.free hinv.inside] at h
  obtain rfl := (Prod.mk.inj (Sched.Outcome.done.inj h)).2
  exact map_modify_of_eq
    (f := fun p : Sched.Process => { p with status := .dead })
    (fun _ => rfl) _

theorem requestsOf_concat (i : Nat) (es : List Event) (e : Event) :
    requestsOf i (es ++ [e])
      = requestsOf i es ++ requestsOf i [e] := by
  unfold requestsOf
  rw [List.filterMap_append, List.filter_append, List.map_append]

/-- An event that is no call adds no request. -/
theorem Owns.other {es : List Event} {e : Event} {i : Nat}
    {h : Option MapperId × Option U64} (hnone : e.request = none)
    (howns : Owns es i h) : Owns (es ++ [e]) i h := by
  have hsame : requestsOf i (es ++ [e]) = requestsOf i es := by
    rw [requestsOf_concat]
    simp [requestsOf, hnone]
  unfold Owns at howns ⊢
  rw [hsame]
  exact howns

/-- Events that leave the entries alone keep the invariant. -/
theorem UserInv.same {es : List Event} {e : Event} (hinv : UserInv es k)
    (hnone : e.request = none) (htable : TableInv k'.sched)
    (hsized : Sized k'.frames)
    (hsame : holdings k'.sched = holdings k.sched) :
    UserInv (es ++ [e]) k' := by
  refine ⟨htable, hsized, ?_, ?_⟩
  · intro i h hi
    rw [hsame] at hi
    exact (hinv.entries i h hi).other hnone
  · intro i hi
    rw [hsame] at hi
    rw [requestsOf_concat, hinv.fresh i hi]
    simp [requestsOf, hnone]

/-- So do events that append one. -/
theorem UserInv.pushed {es : List Event} {e : Event} {p : Sched.Process}
    (hinv : UserInv es k) (hnone : e.request = none)
    (hready : p.status = .ready)
    (howns : ∀ i, requestsOf i es = [] → Owns es i (holding p))
    (hframes : k'.frames = k.frames)
    (hsched : k'.sched = { k.sched with
      processList := k.sched.processList ++ [p], listHeld := false }) :
    UserInv (es ++ [e]) k' := by
  have hpush : holdings k'.sched = holdings k.sched ++ [holding p] := by
    rw [hsched]
    exact List.map_append
  refine ⟨hsched ▸ Sched.tableInv_push hinv.table hready,
    hframes ▸ hinv.sized, ?_, ?_⟩
  · intro i h hi
    rw [hpush] at hi
    apply Owns.other hnone
    rcases getElem?_concat_some hi with hold | ⟨rfl, rfl⟩
    · exact hinv.entries i h hold
    · exact howns _ (hinv.fresh _ (Nat.le_refl _))
  · intro i hi
    rw [hpush, List.length_append] at hi
    rw [requestsOf_concat, hinv.fresh i (by omega)]
    simp [requestsOf, hnone]

-- ================================================================ one call

/-- The end of a user process's ranges, as a page number. -/
theorem Owns.boundary {es : List Event} {i : Nat} {m : MapperId}
    {pages : Option U64} (h : Owns es i (some m, pages)) :
    ∃ a, 0 < a ∧ a ≤ lastUser
      ∧ Consecutive rangesStart (requestsOf i es) (4096 * a)
      ∧ pages = some (BitVec.ofNat 64 (4096 * a)) := by
  obtain ⟨stop, hle, hcons, hpages⟩ := h
  have hstop := (hcons.aligned rfl).1
  have hstart : 0x100000000 ≤ stop := hcons.le
  refine ⟨stop / 4096, by omega, by omega, ?_⟩
  rw [show 4096 * (stop / 4096) = stop by omega]
  exact ⟨hcons, hpages⟩

/-- The process that makes a completing call, where its ranges end, and
what the call does. -/
theorem anon_step {es : List Event} {i : Nat} {size ptr start : Word}
    (hinv : UserInv es k) (hharmless : Harmless M size ptr k)
    (hstep : (kernelSys M debug k₀).step k (.anon i size ptr start) k') :
    ∃ m a s, (holdings k.sched)[i]?
        = some (some m, some (BitVec.ofNat 64 (4096 * a)))
      ∧ 0 < a ∧ Fits a size.toNat
      ∧ Consecutive rangesStart (requestsOf i es) (4096 * a)
      ∧ start = BitVec.ofNat 64 (4096 * a)
      ∧ FreshPages M (pageRun a (pagesFor size.toNat)) k.space s
      ∧ k' = granted M k s ptr start (roundUp size.toNat 4096) := by
  obtain ⟨rfl, hcall, hstart⟩ := hstep
  obtain ⟨-, proc, pages, _, _, _, _, hgrants, -⟩ :=
    (anon_ok hharmless).mp hcall
  obtain ⟨m, hm⟩ := Option.isSome_iff_exists.mp hgrants.mapper
  have hentry : (holdings k.sched)[k.sched.currentProcess]?
      = some (some m, some pages) := by
    unfold holdings
    rw [List.getElem?_map, hgrants.current, ← hm, ← hgrants.owned]
    rfl
  obtain ⟨a, ha, hlast, hcons, hpages⟩ :=
    (hinv.entries _ _ hentry).boundary
  obtain rfl := Option.some.inj hpages
  obtain ⟨-, hfits, -, s, hfresh, hstores, rfl⟩ :=
    (anon_granted_iff hgrants.current hgrants.owned hgrants.mapper ha
      hlast hharmless).mp hcall
  have hread : start = BitVec.ofNat 64 (4096 * a) := by
    rw [hstart, view_eq]
    exact read_stored hstores
  subst hread
  exact ⟨m, a, s, hentry, ha, hfits, hcons, rfl, hfresh, rfl⟩

/-- A call moves the end of the caller's ranges, and nothing else in the
table. -/
theorem holdings_granted (s : Space PT) (ptr : Word) (pages : U64)
    (n : Nat) :
    holdings (granted M k s ptr pages n).sched
      = (holdings k.sched).modify k.sched.currentProcess fun h =>
          (h.1, some (BitVec.ofNat 64 (pages.toNat + n))) := by
  unfold holdings granted
  refine List.ext_getElem? fun j => ?_
  rw [List.getElem?_map]
  by_cases hj : k.sched.currentProcess = j
  · subst hj
    rw [List.getElem?_modify_eq, List.getElem?_modify_eq, List.getElem?_map]
    cases k.sched.processList[k.sched.currentProcess]? with
    | none => rfl
    | some p => rfl
  · rw [List.getElem?_modify_ne _ _ hj, List.getElem?_modify_ne _ _ hj,
      List.getElem?_map]

theorem tableInv_granted {s : Space PT} {ptr : Word} {pages : U64}
    {n : Nat} (h : TableInv k.sched) :
    TableInv (granted M k s ptr pages n).sched := by
  refine ⟨⟨h.free.list, h.free.current⟩, ?_, ?_⟩
  · show _ < (List.modify _ _ _).length
    rw [List.length_modify]
    exact h.inside
  · intro i p hp hi
    obtain ⟨q, hq, rfl⟩ := getElem?_modify_some hp
    have hne : ¬ k.sched.currentProcess = i := Ne.symm hi
    rw [if_neg hne]
    exact h.others i q hq hi

theorem requestsOf_call (i j : Nat) (size ptr start : Word) :
    requestsOf i [.anon j size ptr start]
      = if j = i then [⟨start.toNat, size.toNat⟩] else [] := by
  by_cases hij : j = i
  · simp [requestsOf, Event.request, hij]
  · simp [requestsOf, Event.request, hij]

/-- A call keeps the invariant. -/
theorem UserInv.called (hlaws : M.Laws BitmapAllocator.allocateFrame)
    {es : List Event} {i : Nat} {size ptr start : Word}
    (hinv : UserInv es k) (hharmless : Harmless M size ptr k)
    (hstep : (kernelSys M debug k₀).step k (.anon i size ptr start) k') :
    UserInv (es ++ [.anon i size ptr start]) k' := by
  have hi : i = k.sched.currentProcess := hstep.1
  obtain ⟨m, a, s, hentry, ha, hfits, hcons, hstart, hfresh, rfl⟩ :=
    anon_step hinv hharmless hstep
  unfold Fits lastUser at hfits
  have hnat : start.toNat = 4096 * a := by
    rw [hstart, BitVec.toNat_ofNat, Nat.mod_eq_of_lt (by omega)]
  refine ⟨tableInv_granted hinv.table, hfresh.sized hlaws hinv.sized, ?_, ?_⟩
  · intro j h hj
    rw [holdings_granted, ← hi] at hj
    obtain ⟨h₀, hold, rfl⟩ := getElem?_modify_some hj
    have howns := hinv.entries j h₀ hold
    by_cases hij : i = j
    · subst hij
      obtain rfl := Option.some.inj (hentry.symm.trans hold)
      rw [if_pos rfl]
      refine ⟨4096 * a + roundUp size.toNat 4096, ?_, ?_, ?_⟩
      · rw [roundUp_size]
        unfold pagesFor lastUser
        omega
      · rw [requestsOf_concat, requestsOf_call, if_pos rfl, hnat]
        exact hcons.concat
      · rw [hnat]
    · rw [if_neg hij]
      unfold Owns at howns ⊢
      rw [requestsOf_concat, requestsOf_call, if_neg hij, List.append_nil]
      exact howns
  · intro j hj
    rw [holdings_granted, List.length_modify] at hj
    have hij : i ≠ j := by
      intro heq
      subst heq
      have := (List.getElem?_eq_some_iff.mp hentry).1
      omega
    rw [requestsOf_concat, requestsOf_call, if_neg hij, hinv.fresh j hj]
    rfl

-- ============================================================== whole runs

theorem userInv_init (hinit : (sparingSys M debug k₀).init k) :
    UserInv [] k := by
  obtain ⟨-, hboot⟩ := hinit
  obtain ⟨old, hold⟩ := hboot.frames
  refine ⟨hboot.sched ▸ Sched.tableInv_init, sized_init hold, ?_,
    fun _ _ => rfl⟩
  intro i h hi
  rw [hboot.sched] at hi
  unfold holdings at hi
  rw [List.getElem?_map] at hi
  obtain ⟨p, hp, rfl⟩ := Option.map_eq_some_iff.mp hi
  have hmem := List.mem_of_getElem? hp
  rw [List.mem_singleton.mp hmem]
  exact ⟨rfl, rfl⟩

theorem userInv_step (hlaws : M.Laws BitmapAllocator.allocateFrame)
    {es : List Event} {e : Event} (hinv : UserInv es k)
    (hstep : (sparingSys M debug k₀).step k e k') :
    UserInv (es ++ [e]) k' := by
  obtain ⟨hstep, hsparing⟩ := hstep
  cases e with
  | tick rsp ret =>
      obtain ⟨t, hsettles, rfl⟩ := hstep
      obtain rfl : t = Sched.ticked k.sched rsp :=
        Sched.ticked_of_settles hinv.table hsettles
      exact hinv.same rfl (Sched.tableInv_ticked hinv.table rsp) hinv.sized
        (holdings_ticked k.sched rsp)
  | addProcess stack =>
      obtain ⟨t, hpush, rfl⟩ := hstep
      unfold Sched.addProcess at hpush
      rw [Sched.push_run hinv.table.free] at hpush
      have ht := (Prod.mk.inj (Sched.Outcome.done.inj hpush)).2.symm
      refine hinv.pushed rfl rfl (fun i hnone => ?_) rfl ht
      show Owns es i (none, none)
      exact ⟨rfl, hnone⟩
  | markCurrentAsDead =>
      obtain ⟨t, hmark, rfl⟩ := hstep
      exact hinv.same rfl (Sched.tableInv_markCurrentAsDead hinv.table hmark)
        hinv.sized (holdings_marked hinv.table hmark)
  | lock =>
      obtain ⟨-, -, rfl⟩ := hstep
      exact hinv.same rfl hinv.table hinv.sized rfl
  | map page =>
      obtain ⟨-, -, hmap⟩ := hstep
      obtain ⟨ps, s, -, hfresh, rfl⟩ := mapPages_ok.mp hmap
      exact hinv.same rfl hinv.table (hfresh.sized hlaws hinv.sized) rfl
  | push mapper =>
      obtain ⟨-, -, t, hpush, rfl⟩ := hstep
      unfold Sched.addUserProcess at hpush
      rw [Sched.push_run hinv.table.free] at hpush
      have ht := (Prod.mk.inj (Sched.Outcome.done.inj hpush)).2.symm
      refine hinv.pushed rfl rfl (fun i hnone => ?_) rfl ht
      show Owns es i (some mapper, some 0x100000000)
      refine ⟨rangesStart, by decide, ?_, rfl⟩
      rw [hnone]
      rfl
  | stores phys =>
      obtain ⟨⟨own, rfl⟩, -⟩ := hstep
      exact hinv.same rfl hinv.table hinv.sized rfl
  | read a b =>
      obtain ⟨phys, rfl⟩ := read_memory hsparing hstep
      exact hinv.same rfl hinv.table hinv.sized rfl
  | anon i size ptr start => exact hinv.called hlaws hsparing hstep

theorem userInv_run (hlaws : M.Laws BitmapAllocator.allocateFrame)
    {es : List Event} (hrun : (sparingSys M debug k₀).Run es k) :
    UserInv es k :=
  hrun.history (I := UserInv) (fun _ => userInv_init)
    fun _ _ _ _ _ hinv hstep => userInv_step hlaws hinv hstep

-- ============================================================= the mapping

/-- A step maps fresh frames, if it changes the page table at all, and a
call does so for the pages of its range. -/
theorem space_step {es : List Event} {e : Event} (hinv : UserInv es k)
    (hstep : (sparingSys M debug k₀).step k e k') :
    ∃ qs, FreshPages M qs k.space k'.space
      ∧ List.Sublist ((requests [e]).flatMap Request.pages) qs := by
  obtain ⟨hstep, hsparing⟩ := hstep
  cases e with
  | tick rsp ret =>
      obtain ⟨t, -, rfl⟩ := hstep
      exact ⟨[], .nil, List.nil_sublist _⟩
  | addProcess stack =>
      obtain ⟨t, -, rfl⟩ := hstep
      exact ⟨[], .nil, List.nil_sublist _⟩
  | markCurrentAsDead =>
      obtain ⟨t, -, rfl⟩ := hstep
      exact ⟨[], .nil, List.nil_sublist _⟩
  | lock =>
      obtain ⟨-, -, rfl⟩ := hstep
      exact ⟨[], .nil, List.nil_sublist _⟩
  | map page =>
      obtain ⟨-, -, hmap⟩ := hstep
      obtain ⟨qs, s, -, hfresh, rfl⟩ := mapPages_ok.mp hmap
      exact ⟨qs, hfresh, List.nil_sublist _⟩
  | push mapper =>
      obtain ⟨-, -, t, -, rfl⟩ := hstep
      exact ⟨[], .nil, List.nil_sublist _⟩
  | stores phys =>
      obtain ⟨⟨own, rfl⟩, -⟩ := hstep
      exact ⟨[], .nil, List.nil_sublist _⟩
  | read a b =>
      obtain ⟨phys, rfl⟩ := read_memory hsparing hstep
      exact ⟨[], .nil, List.nil_sublist _⟩
  | anon i size ptr start =>
      obtain ⟨m, a, s, -, -, hfits, -, hstart, hfresh, rfl⟩ :=
        anon_step hinv hsparing hstep
      refine ⟨_, hfresh, ?_⟩
      unfold Fits lastUser at hfits
      have hnat : start.toNat / 4096 = a := by
        rw [hstart, BitVec.toNat_ofNat, Nat.mod_eq_of_lt (by omega)]
        omega
      simp [requests, Event.request, Request.pages, hnat]

/-- Since boot only fresh frames were mapped, for the pages of the
requests among others. -/
theorem gives_run (hlaws : M.Laws BitmapAllocator.allocateFrame)
    (hnum : (numbering k₀.frames.memoryMap).Nodup) {es : List Event}
    (hrun : (sparingSys M debug k₀).Run es k) :
    ∃ ps, Gives M ps k₀.space k.space
      ∧ List.Sublist ((requests es).flatMap Request.pages) ps := by
  refine hrun.history (I := fun es k => ∃ ps, Gives M ps k₀.space k.space
    ∧ List.Sublist ((requests es).flatMap Request.pages) ps) ?_ ?_
  · intro k h
    rcases h with ⟨rfl, -⟩
    exact ⟨[], Gives.nil _, List.nil_sublist _⟩
  · intro es k e k' hrun hinv hstep
    obtain ⟨ps, hgives, hsub⟩ := hinv
    obtain ⟨qs, hfresh, hsub'⟩ := space_step (userInv_run hlaws hrun) hstep
    have hmore := hfresh.gives hlaws (hgives.map ▸ hnum)
    refine ⟨ps ++ qs, hgives.append hmore, ?_⟩
    unfold requests at hsub hsub' ⊢
    rw [List.filterMap_append, List.map_append, List.flatMap_append]
    exact hsub.append hsub'

-- ========================================================= a small machine

/-- A map of one region of eight frames. -/
def eightFrames : MemoryRegions := [⟨4096, 36864, .usable⟩]

theorem eightFrames_wellFormed : WellFormed eightFrames where
  aligned := by decide
  below := by decide
  disjoint := List.pairwise_singleton ..

/-- The mapper of the small machine. -/
def smallMapper : PageMapper (Tables PhysFrame) :=
  plainMapper BitmapAllocator.allocateFrame

theorem smallMapper_laws : smallMapper.Laws BitmapAllocator.allocateFrame :=
  plainMapper_laws _

/-- The table with one more page mapped. -/
def withPage (pt : Tables PhysFrame) (p : Page) (f : PhysFrame) :
    Tables PhysFrame := pt.insert p ⟨f, userFlags⟩

/-- Of the eight frames the first `n` taken. -/
def taken (n : Nat) : BitmapAllocator :=
  ⟨eightFrames, Lib.Bitmap.filled n 8⟩

/-- They are given out in order. -/
theorem taken_allocates : ∀ n < 8,
    (taken n).allocateFrame
      = .ok (some (frameAt (4096 * (n + 1))), taken (n + 1)) := by
  decide

/-- Memory of zeroes, with nothing of the kernel's in it. -/
def zeroes : PhysMemory PT where
  phys _ := 0
  own _ _ data := some data

/-- Through it every pointer is harmless. -/
theorem harmless_zeroes (h : k.own = (zeroes : PhysMemory PT).own)
    (size ptr : Word) : Harmless M size ptr k := by
  refine Harmless.of fun ps s _ a _ m _ b => ?_
  show k.own _ b _ = _
  rw [h]
  rfl

/-- The small machine at boot: nothing mapped, all frames free. -/
def smallBoot : State (Tables PhysFrame) where
  sched := Sched.init
  table := ⟨fun _ => none, fun _ => false⟩
  frames := taken 0
  mapperHeld := false
  framesHeld := false
  toPhysMemory := zeroes

theorem smallBoot_boot : Boot smallBoot :=
  ⟨rfl, rfl, rfl, .init eightFrames, by decide⟩

/-- A page of its stack, as add_user_process would map it. -/
def stackPage : Page := userPage 0x1fc

/-- The page table with that page. -/
def smallTable : Tables PhysFrame :=
  withPage smallBoot.table stackPage (frameAt 4096)

/-- The first page takes a frame, and three for the tables. -/
theorem smallTable_fresh :
    FreshPage smallMapper stackPage smallBoot.space
      (smallTable, taken 4) := by
  refine ⟨frameAt 4096, taken 1, taken_allocates 0 (by decide),
    plainMapper_ok.mpr ⟨rfl, ?_, rfl⟩⟩
  exact .succ (taken_allocates 1 (by decide))
    (.succ (taken_allocates 2 (by decide))
      (.succ (taken_allocates 3 (by decide)) .zero))

/-- The process table with a user process behind the boot process. -/
def smallSched : Sched.Table :=
  ⟨[Sched.bootProcess, Sched.userProcess 0], 0, false, .free⟩

/-- The small machine once its user process runs. -/
def smallUser : State (Tables PhysFrame) :=
  { smallBoot with
    sched := Sched.ticked smallSched 0x9000
    table := smallTable
    frames := taken 4 }

/-- The steps that lead there. -/
def smallEvents : List Event :=
  [.lock, .map stackPage, .push 0, .tick 0x9000 (Sched.userStack + 8)]

/-- They lead there from any boot whose table takes the page. -/
theorem user_run {boot : State (Tables PhysFrame)}
    {table : Tables PhysFrame} (hboot : Boot boot)
    (hfresh : FreshPage smallMapper stackPage boot.space (table, taken 4)) :
    (sparingSys smallMapper false boot).Run smallEvents
      { boot with
        sched := Sched.ticked smallSched 0x9000
        table := table
        frames := taken 4
        mapperHeld := false
        framesHeld := false } := by
  have hstart : (sparingSys smallMapper false boot).Run [] boot :=
    .start ⟨rfl, hboot⟩
  have hlock : (sparingSys smallMapper false boot).Run [.lock]
      { boot with mapperHeld := true, framesHeld := true } :=
    hstart.step ⟨⟨hboot.mapper, hboot.framesHeld, rfl⟩, trivial⟩
  have hmap : (sparingSys smallMapper false boot).Run [.lock, .map stackPage]
      { boot with table := table, frames := taken 4,
                  mapperHeld := true, framesHeld := true } :=
    hlock.step ⟨⟨rfl, rfl, mapPages_ok.mpr ⟨[stackPage], (table, taken 4),
      rfl, .cons hfresh .nil, rfl⟩⟩, trivial⟩
  have hpushed : Sched.addUserProcess 0 boot.sched
      = .done ((), smallSched) := by
    rw [hboot.sched]
    rfl
  have hpush : (sparingSys smallMapper false boot).Run
      [.lock, .map stackPage, .push 0]
      { boot with sched := smallSched, table := table, frames := taken 4,
                  mapperHeld := false, framesHeld := false } :=
    hmap.step ⟨⟨rfl, rfl, smallSched, hpushed, rfl⟩, trivial⟩
  have hinv : TableInv smallSched :=
    Sched.tableInv_push (p := Sched.userProcess 0) Sched.tableInv_init rfl
  have hsettles := Sched.tick_settles (p := Sched.bootProcess)
    (q := Sched.userProcess 0) hinv 0x9000 rfl (by decide) rfl
  exact hpush.step ⟨⟨_, hsettles, rfl⟩, trivial⟩

theorem smallUser_run :
    (sparingSys smallMapper false smallBoot).Run smallEvents smallUser :=
  user_run smallBoot_boot smallTable_fresh

end Bayos.Kernel
