/-
What the steps of the kernel's functions do, one equivalence each, and
memory as it is seen through a page table.

# Returning calls

A call that returns has returned at each of its steps: `bind_ok` takes a
sequence apart, and `lift_ok`, `withMapper_ok` and their like say when a
single step returns and with what.

# Memory through a page table

`place` is what a store does to physical memory, `seen` what is read
there. Where no two addresses share a byte (`Alone`) a store is seen at
the addresses it names and nowhere else (`seen_place`).
-/
import Mathlib.Logic.Function.Basic
import Bayos.Lib.Logged
import Bayos.Model.Anon

namespace Bayos.Kernel

open Rust
open Lib (Logged Word Mem region)
open Lib.Paging
open Bayos.Memory (PhysFrame BitmapAllocator)

variable {PT α β : Type} {M : PageMapper PT} {k k' : State PT}

-- ========================================================= returning calls

/-- A sequence of logged calls, without the log. -/
theorem logged_bind {ω : Type} (x : Logged (State PT) ω Stop α)
    (f : α → Logged (State PT) ω Stop β) :
    (x >>= f).run
      = @Bind.bind (KernelM PT) _ α β x.run fun a => (f a).run := by
  funext k
  rw [Logged.run_bind]
  simp only [bind]
  cases x.run k with
  | ok r => rfl
  | error e => rfl

theorem bind_ok {x : KernelM PT α} {f : α → KernelM PT β} {b : β} :
    (x >>= f) k = .ok (b, k')
      ↔ ∃ a k₁, x k = .ok (a, k₁) ∧ f a k₁ = .ok (b, k') := by
  simp only [bind]
  rcases x k with e | ⟨a, k₁⟩
  · constructor
    · intro h
      cases h
    · intro hparts
      rcases hparts with ⟨a, k₁, h, -⟩
      cases h
  · constructor
    · intro h
      exact ⟨a, k₁, rfl, h⟩
    · intro hparts
      rcases hparts with ⟨a', k₁', h, hf⟩
      cases h
      exact hf

theorem pure_ok {a b : α} :
    (pure a : KernelM PT α) k = .ok (b, k') ↔ b = a ∧ k' = k := by
  constructor
  · intro h
    cases h
    exact ⟨rfl, rfl⟩
  · intro hparts
    rcases hparts with ⟨rfl, rfl⟩
    rfl

theorem lift_ok {x : Except Panic α} {a : α} :
    lift x k = .ok (a, k') ↔ x = .ok a ∧ k' = k := by
  unfold lift
  cases x with
  | ok b =>
      constructor
      · intro h
        cases h
        exact ⟨rfl, rfl⟩
      · intro hparts
        rcases hparts with ⟨h, rfl⟩
        cases h
        rfl
  | error p =>
      constructor
      · intro h
        cases h
      · intro hparts
        rcases hparts with ⟨h, -⟩
        cases h

theorem expect_ok {o : Option α} {text : String} {a : α} :
    expect o text = .ok a ↔ o = some a := by
  cases o with
  | none => simp [expect]
  | some b => simp [expect]

/-- The end of a guard's scope: what its body returned, with the lock
dropped. -/
theorem dropped_ok {r : Except Stop (α × State PT)} {a : α}
    {leave : State PT → State PT} :
    (match r with
      | .ok (b, k₁) => Except.ok (b, leave k₁)
      | .error e => .error e) = .ok (a, k')
      ↔ ∃ k₁, r = .ok (a, k₁) ∧ k' = leave k₁ := by
  rcases r with e | ⟨b, k₁⟩
  · simp
  · constructor
    · intro h
      cases h
      exact ⟨k₁, rfl, rfl⟩
    · intro h
      obtain ⟨k₂, hr, rfl⟩ := h
      cases hr
      rfl

theorem withMapper_ok {body : KernelM PT α} {a : α} :
    withMapper body k = .ok (a, k')
      ↔ k.mapperHeld = false
        ∧ ∃ k₁, body { k with mapperHeld := true } = .ok (a, k₁)
          ∧ k' = { k₁ with mapperHeld := false } := by
  unfold withMapper
  cases hheld : k.mapperHeld with
  | true => simp
  | false => exact dropped_ok.trans (and_iff_right rfl).symm

theorem withFrames_ok {body : KernelM PT α} {a : α} :
    withFrames body k = .ok (a, k')
      ↔ k.framesHeld = false
        ∧ ∃ k₁, body { k with framesHeld := true } = .ok (a, k₁)
          ∧ k' = { k₁ with framesHeld := false } := by
  unfold withFrames
  cases hheld : k.framesHeld with
  | true => simp
  | false => exact dropped_ok.trans (and_iff_right rfl).symm

/-- The table while its list lock is held. -/
def listLocked (s : Sched.Table) (b : Bool) : Sched.Table :=
  { s with listHeld := b }

theorem withProcessList_ok {body : KernelM PT α} {a : α} :
    withProcessList body k = .ok (a, k')
      ↔ k.sched.listHeld = false
        ∧ ∃ k₁, body { k with sched := listLocked k.sched true }
              = .ok (a, k₁)
          ∧ k' = { k₁ with sched := listLocked k₁.sched false } := by
  unfold withProcessList
  cases hheld : k.sched.listHeld with
  | true => simp
  | false => exact dropped_ok.trans (and_iff_right rfl).symm

/-- The table while its cursor lock is in a state. -/
def cursorLocked (s : Sched.Table) (r : Sched.RwState) : Sched.Table :=
  { s with currentHeld := r }

theorem withCurrentRead_ok {body : KernelM PT α} {a : α} :
    withCurrentRead body k = .ok (a, k')
      ↔ k.sched.currentHeld = .free
        ∧ ∃ k₁, body { k with sched := cursorLocked k.sched (.readers 1) }
              = .ok (a, k₁)
          ∧ k' = { k₁ with sched := cursorLocked k₁.sched .free } := by
  unfold withCurrentRead
  cases hheld : k.sched.currentHeld with
  | readers n => simp
  | writer => simp
  | free => exact dropped_ok.trans (and_iff_right rfl).symm

theorem processAt_ok {i : Nat} {p : Sched.Process} :
    processAt i k = .ok (p, k')
      ↔ k.sched.processList[i]? = some p ∧ k' = k := by
  unfold processAt
  cases k.sched.processList[i]? with
  | none => simp
  | some q =>
      simp only [Except.ok.injEq, Prod.mk.injEq, Option.some.injEq]
      exact and_congr_right fun _ => eq_comm

theorem setPages_ok {i : Nat} {pages : Sched.U64} :
    setPages i pages k = .ok ((), k')
      ↔ i < k.sched.processList.length
        ∧ k' = { k with sched := { k.sched with
          processList := k.sched.processList.modify i
            fun p => { p with pages := some pages } } } := by
  unfold setPages
  by_cases hi : i < k.sched.processList.length
  · simp only [hi, if_true, Except.ok.injEq, Prod.mk.injEq, true_and]
    exact eq_comm
  · simp [hi]

theorem allocateFrame_ok {f : Option PhysFrame} :
    allocateFrame k = .ok (f, k')
      ↔ ∃ frames, k.frames.allocateFrame = .ok (f, frames)
        ∧ k' = { k with frames := frames } := by
  unfold allocateFrame
  rcases k.frames.allocateFrame with e | ⟨g, frames⟩
  · simp
  · simp only [Except.ok.injEq, Prod.mk.injEq]
    constructor
    · intro h
      rcases h with ⟨rfl, rfl⟩
      exact ⟨frames, ⟨rfl, rfl⟩, rfl⟩
    · intro h
      rcases h with ⟨frames', ⟨rfl, rfl⟩, rfl⟩
      exact ⟨rfl, rfl⟩

theorem mapTo_ok {p : Page} {f : PhysFrame} {fl : Flags}
    {r : Except (MapToError PhysFrame) Unit} :
    mapTo M p f fl k = .ok (r, k')
      ↔ ∃ table frames,
        M.mapTo k.table p f fl k.frames = .ok (r, table, frames)
        ∧ k' = { k with table := table, frames := frames } := by
  unfold mapTo
  rcases M.mapTo k.table p f fl k.frames with e | ⟨r', table, frames⟩
  · simp
  · simp only [Except.ok.injEq, Prod.mk.injEq]
    constructor
    · intro h
      rcases h with ⟨rfl, rfl⟩
      exact ⟨table, frames, ⟨rfl, rfl, rfl⟩, rfl⟩
    · intro h
      rcases h with ⟨t, fs, ⟨rfl, rfl, rfl⟩, rfl⟩
      exact ⟨rfl, rfl⟩

-- ================================================================== stores

/-- The kernel may write the byte. -/
def CanStore (M : PageMapper PT) (table : PT) (a : Word) : Prop :=
  ∃ m, mappingAt M table a = some m
    ∧ m.flags.contains (present ||| writable) = true

/-- Physical memory with bytes stored from `a` on. -/
def place (M : PageMapper PT) (table : PT) (phys : Nat → Byte) (a : Word) :
    List Byte → Nat → Byte
  | [] => phys
  | b :: bs =>
      match mappingAt M table a with
      | some m =>
          place M table (Function.update phys (physAddr m a) b) (a + 1) bs
      | none => place M table phys (a + 1) bs

/-- Memory through a page table. -/
def seen (M : PageMapper PT) (table : PT) (phys : Nat → Byte) : Mem :=
  fun a =>
    match mappingAt M table a with
    | some m => phys (physAddr m a)
    | none => 0

theorem view_eq (k : State PT) : view M k = seen M k.table k.phys := rfl

theorem place_cons {table : PT} {phys : Nat → Byte} {a : Word} {b : Byte}
    {bs : List Byte} {m : Mapping PhysFrame}
    (h : mappingAt M table a = some m) :
    place M table phys a (b :: bs)
      = place M table (Function.update phys (physAddr m a) b) (a + 1) bs := by
  rw [place, h]

/-- A byte of a run, counted from the second one. -/
theorem next_byte (a : Word) (i : Nat) :
    a + 1 + BitVec.ofNat 64 i = a + BitVec.ofNat 64 (i + 1) := by
  rw [BitVec.add_assoc, Nat.add_comm i 1, BitVec.ofNat_add]
  rfl

/-- What holds of all bytes of a run, of its first one and of the rest. -/
theorem forall_bytes_succ {P : Word → Prop} {a : Word} {n : Nat} :
    (∀ i < n + 1, P (a + BitVec.ofNat 64 i))
      ↔ P a ∧ ∀ i < n, P (a + 1 + BitVec.ofNat 64 i) := by
  constructor
  · intro h
    refine ⟨?_, fun i hi => ?_⟩
    · have hfirst := h 0 (Nat.zero_lt_succ n)
      rw [Lib.add_ofNat_zero] at hfirst
      exact hfirst
    · rw [next_byte]
      exact h (i + 1) (Nat.succ_lt_succ hi)
  · intro h i hi
    cases i with
    | zero =>
        rw [Lib.add_ofNat_zero]
        exact h.1
    | succ i =>
        rw [← next_byte]
        exact h.2 i (Nat.lt_of_succ_lt_succ hi)

theorem userFlags_user : userFlags.contains userAccessible = true := by
  decide

theorem userFlags_writable :
    userFlags.contains (present ||| writable) = true := by decide

theorem fillByte_ok {a : Word} {b : Byte} :
    fillByte M a b k = .ok ((), k')
      ↔ ∃ m, mappingAt M k.table a = some m
        ∧ m.flags.contains (present ||| writable) = true
        ∧ k' = { k with
          phys := Function.update k.phys (physAddr m a) b } := by
  unfold fillByte
  cases mappingAt M k.table a with
  | none => simp
  | some m =>
      by_cases hw : m.flags.contains (present ||| writable) = true
      · simp only [hw, if_true, Except.ok.injEq, Prod.mk.injEq, true_and,
          Option.some.injEq, exists_eq_left']
        exact eq_comm
      · simp [hw]

theorem fillBytes_ok {bs : List Byte} :
    ∀ {a : Word} {k : State PT},
      fillBytes M a bs k = .ok ((), k')
        ↔ (∀ i < bs.length, CanStore M k.table (a + BitVec.ofNat 64 i))
          ∧ k' = { k with phys := place M k.table k.phys a bs } := by
  induction bs with
  | nil =>
      intro a k
      unfold fillBytes place
      rw [pure_ok]
      simp
  | cons b bs ih =>
      intro a k
      unfold fillBytes
      rw [bind_ok, List.length_cons, forall_bytes_succ]
      constructor
      · intro h
        rcases h with ⟨_, k₁, hbyte, hrest⟩
        obtain ⟨m, hm, hw, rfl⟩ := fillByte_ok.mp hbyte
        obtain ⟨hcan, rfl⟩ := ih.mp hrest
        exact ⟨⟨⟨m, hm, hw⟩, hcan⟩, by rw [place_cons hm]⟩
      · intro h
        rcases h with ⟨⟨⟨m, hm, hw⟩, hcan⟩, rfl⟩
        exact ⟨(), _, fillByte_ok.mpr ⟨m, hm, hw, rfl⟩,
          ih.mpr ⟨hcan, by rw [place_cons hm]⟩⟩

theorem storeByte_ok {a : Word} {b : Byte} :
    storeByte M a b k = .ok ((), k')
      ↔ ∃ m data, mappingAt M k.table a = some m
        ∧ m.flags.contains (present ||| writable) = true
        ∧ k.own (physAddr m a) b k.toData = some data
        ∧ k' = { k with
          toData := data
          phys := Function.update k.phys (physAddr m a) b } := by
  unfold storeByte
  cases mappingAt M k.table a with
  | none => simp
  | some m =>
      by_cases hw : m.flags.contains (present ||| writable) = true
      · cases hown : k.own (physAddr m a) b k.toData with
        | none => simp [hw, hown]
        | some data =>
            simp only [hw, hown, if_true, Except.ok.injEq, Prod.mk.injEq,
              true_and, Option.some.injEq, exists_and_left, exists_eq_left']
            exact eq_comm
      · simp [hw]

/-- Where nothing of the kernel's is, a store is a store to memory. -/
theorem storeByte_spared {a : Word} {b : Byte}
    (h : ∀ m, mappingAt M k.table a = some m → k.Spares (physAddr m a)) :
    storeByte M a b k = fillByte M a b k := by
  unfold storeByte fillByte
  cases hm : mappingAt M k.table a with
  | none => rfl
  | some m => simp only [h m hm b]

theorem storeBytes_spared {bs : List Byte} :
    ∀ {a : Word} {k : State PT},
      (∀ i < bs.length, ∀ m,
        mappingAt M k.table (a + BitVec.ofNat 64 i) = some m →
          k.Spares (physAddr m (a + BitVec.ofNat 64 i))) →
      storeBytes M a bs k = fillBytes M a bs k := by
  induction bs with
  | nil => intro a k _; rfl
  | cons b bs ih =>
      intro a k h
      obtain ⟨hfirst, hrest⟩ := (forall_bytes_succ (P := fun x =>
        ∀ m, mappingAt M k.table x = some m → k.Spares (physAddr m x))).mp h
      unfold storeBytes fillBytes
      simp only [bind, storeByte_spared hfirst]
      rcases hfill : fillByte M a b k with e | ⟨u, k₁⟩
      · rfl
      · obtain ⟨m, -, -, rfl⟩ := fillByte_ok.mp hfill
        exact ih hrest

theorem storeBytes_ok {bs : List Byte} {a : Word}
    (hlen : bs.length ≤ 2 ^ 64)
    (hspared : k.SparesAll M (region a bs.length)) :
    storeBytes M a bs k = .ok ((), k')
      ↔ (∀ i < bs.length, CanStore M k.table (a + BitVec.ofNat 64 i))
        ∧ k' = { k with phys := place M k.table k.phys a bs } := by
  rw [storeBytes_spared fun i hi =>
    hspared _ (Lib.add_mem_region hi hlen)]
  exact fillBytes_ok

theorem checkBytes_ok {n : Nat} :
    ∀ {a : Word}, checkBytes M a n k = .ok ((), k')
      ↔ (∀ i < n, CanStore M k.table (a + BitVec.ofNat 64 i)) ∧ k' = k := by
  induction n with
  | zero =>
      intro a
      unfold checkBytes
      rw [pure_ok]
      simp
  | succ n ih =>
      intro a
      rw [forall_bytes_succ, and_assoc, ← ih]
      simp only [checkBytes, CanStore]
      cases mappingAt M k.table a with
      | none => simp
      | some m =>
          by_cases hw : m.flags.contains (present ||| writable) = true
          · simp [hw]
          · simp [hw]

/-- A store leaves the bytes alone that none of its addresses is mapped
to. -/
theorem place_frame {table : PT} {y : Nat} {bs : List Byte} :
    ∀ {phys : Nat → Byte} {a : Word},
      (∀ i < bs.length, ∀ m,
        mappingAt M table (a + BitVec.ofNat 64 i) = some m →
          physAddr m (a + BitVec.ofNat 64 i) ≠ y) →
      place M table phys a bs y = phys y := by
  induction bs with
  | nil => intro phys a _; rfl
  | cons b bs ih =>
      intro phys a h
      obtain ⟨hfirst, hrest⟩ := (forall_bytes_succ (P := fun x =>
        ∀ m, mappingAt M table x = some m → physAddr m x ≠ y)).mp h
      cases hm : mappingAt M table a with
      | none =>
          rw [place, hm]
          exact ih hrest
      | some m =>
          rw [place_cons hm, ih hrest,
            Function.update_of_ne (Ne.symm (hfirst m hm))]

/-- No two of the addresses are mapped to one byte. -/
def Alone (M : PageMapper PT) (table : PT) (A : Set Word) : Prop :=
  ∀ a ∈ A, ∀ b ∈ A, ∀ m n, mappingAt M table a = some m →
    mappingAt M table b = some n → physAddr m a = physAddr n b → a = b

/-- Among such addresses a store is seen where it was made, and nowhere
else. -/
theorem seen_place {table : PT} {A : Set Word} (halone : Alone M table A)
    {x : Word} (hx : x ∈ A) {bs : List Byte} :
    ∀ {phys : Nat → Byte} {a : Word}, bs.length ≤ 2 ^ 64 →
      (∀ i < bs.length, a + BitVec.ofNat 64 i ∈ A
        ∧ CanStore M table (a + BitVec.ofNat 64 i)) →
      seen M table (place M table phys a bs) x
        = (bs[(x - a).toNat]?).getD (seen M table phys x) := by
  induction bs with
  | nil => intro phys a _ _; rfl
  | cons b bs ih =>
      intro phys a hlen h
      rw [List.length_cons] at hlen
      obtain ⟨⟨ha, m, hm, -⟩, hrest⟩ := (forall_bytes_succ (P := fun x =>
        x ∈ A ∧ CanStore M table x)).mp h
      rw [place_cons hm, ih (by omega) hrest]
      by_cases hxa : x = a
      · -- the first byte; the others do not come round to it
        subst hxa
        have hself : (x - x).toNat = 0 := by rw [BitVec.sub_self]; rfl
        have hlast : (x - (x + 1)).toNat = 2 ^ 64 - 1 := by bv_omega
        rw [hself, hlast, List.getElem?_eq_none (by omega)]
        simp [seen, hm]
      · have hne : (x - a).toNat = (x - (a + 1)).toNat + 1 := by
          have : (x - a).toNat ≠ 0 := fun h0 => hxa (by bv_omega)
          bv_omega
        have hold : seen M table
            (Function.update phys (physAddr m a) b) x
            = seen M table phys x := by
          unfold seen
          cases hmx : mappingAt M table x with
          | none => rfl
          | some n =>
              refine Function.update_of_ne (fun heq => ?_) _ _
              exact hxa (halone x hx a ha n m hmx hm heq)
        rw [hne, List.getElem?_cons_succ, hold]

-- ================================================================== values

theorem length_bytesOfValue {w : Nat} (v : BitVec w) :
    (bytesOfValue v).length = Lib.bytesOf w := by
  simp [bytesOfValue]

theorem bytesOfValue_getD {w : Nat} (v : BitVec w) (m : Mem)
    (a x : Word) :
    ((bytesOfValue v)[(x - a).toNat]?).getD (m x) = m.write a v x := by
  unfold bytesOfValue Mem.write
  by_cases hx : (x - a).toNat < Lib.bytesOf w
  · rw [if_pos (Lib.mem_region.mpr hx), List.getElem?_map,
      List.getElem?_range hx]
    rfl
  · rw [if_neg (mt Lib.mem_region.mp hx), List.getElem?_map,
      List.getElem?_eq_none (by rw [List.length_range]; omega)]
    rfl

/-- A value that is stored where no addresses share a byte is seen as
written. -/
theorem seen_placeValue {table : PT} {A : Set Word}
    (halone : Alone M table A) {x : Word} (hx : x ∈ A) {w : Nat}
    (hw : Lib.bytesOf w ≤ 2 ^ 64) {v : BitVec w} {phys : Nat → Byte}
    {a : Word}
    (h : ∀ i < Lib.bytesOf w, a + BitVec.ofNat 64 i ∈ A
      ∧ CanStore M table (a + BitVec.ofNat 64 i)) :
    seen M table (place M table phys a (bytesOfValue v)) x
      = (seen M table phys).write a v x := by
  rw [seen_place halone hx, bytesOfValue_getD]
  · rw [length_bytesOfValue]
    exact hw
  · rw [length_bytesOfValue]
    exact h

/-- The bytes of a word never share one: they differ in their offset in
the frame. -/
theorem alone_word (table : PT) (a : Word) :
    Alone M table (region a 8) := by
  intro x hx y hy m n _ _ heq
  rw [Lib.mem_region] at hx hy
  have hm := m.frame.aligned
  have hn := n.frame.aligned
  unfold physAddr at heq
  have hmod : x.toNat % 4096 = y.toNat % 4096 := by omega
  bv_omega

/-- A word that was stored is read back. -/
theorem read_stored {table : PT} {phys : Nat → Byte} {a v : Word}
    (hcan : ∀ i < 8, CanStore M table (a + BitVec.ofNat 64 i)) :
    (seen M table (place M table phys a (bytesOfValue v))).read a 64 = v := by
  have hseen : ∀ i < Lib.bytesOf 64,
      seen M table (place M table phys a (bytesOfValue v))
          (a + BitVec.ofNat 64 i)
        = (seen M table phys).write a v (a + BitVec.ofNat 64 i) := by
    intro i hi
    refine seen_placeValue (alone_word table a)
      (Lib.add_mem_region hi (by decide)) (by decide) ?_
    intro j hj
    exact ⟨Lib.add_mem_region hj (by decide), hcan j hj⟩
  rw [Lib.read_congr hseen, Lib.read_write _ _ _ (Nat.le_refl _) (by decide),
    BitVec.setWidth_eq]

end Bayos.Kernel
