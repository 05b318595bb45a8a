/-
Keyboard input is delivered in order and once, under any interleaving of
keys with any number of reads.

# The history

`pops` lists the bytes the readers have popped, in the order of their
pops, each with a mark that says whether its reader has stored it yet.
The queue being first in first out, the pops and what is still queued
are together the bytes pushed (`Inv.fifo`). And a read that stands at
position `i` has stored its first `i` pops at the positions `0..i` of
its buffer, and holds at most one pop more (`Progress`).
-/
import Bayos.Model.Pipe

namespace Bayos.Pipe

open Rust
open Lib (Word Mem Fifo TransSys)

-- =============================================================== histories

/-- The byte a key pushes, if it pushes one. -/
def keyByte : Option DecodedKey → Option Byte
  | some (.unicode character) => asAscii character
  | _ => none

/-- The bytes pushed. -/
def pushed (es : List Event) : List Byte :=
  es.filterMap fun
    | .key key => keyByte key
    | _ => none

/-- A byte taken from the queue: by which read, and whether that read
has stored it. -/
structure Pop where
  reader : Nat
  byte : Byte
  stored : Bool
  deriving DecidableEq

/-- The mark a store of a read sets: it stores what it has popped. -/
def Pop.mark (reader : Nat) (p : Pop) : Pop :=
  if p.reader = reader then { p with stored := true } else p

def record (h : List Pop) : Event → List Pop
  | .pop reader (some byte) => h ++ [⟨reader, byte, false⟩]
  | .store reader _ _ => h.map (Pop.mark reader)
  | _ => h

/-- The bytes popped, in the order of their pops. -/
def pops (es : List Event) : List Pop := es.foldl record []

def popsOf (reader : Nat) (es : List Event) : List Pop :=
  (pops es).filter (·.reader = reader)

/-- The bytes stored into buffers, in the order of their pops. -/
def storedBytes (es : List Event) : List Byte :=
  ((pops es).filter (·.stored)).map Pop.byte

/-- The stores, with the read that did each. -/
def stores (es : List Event) : List (Nat × Word × Byte) :=
  es.filterMap fun
    | .store reader a b => some (reader, a, b)
    | _ => none

def storesOf (reader : Nat) (es : List Event) : List (Word × Byte) :=
  ((stores es).filter (·.1 = reader)).map Prod.snd

-- =============================================================== one event

theorem pushed_append (es : List Event) (e : Event) :
    pushed (es ++ [e]) = pushed es ++ pushed [e] := List.filterMap_append

theorem pops_append (es : List Event) (e : Event) :
    pops (es ++ [e]) = record (pops es) e := by
  unfold pops
  rw [List.foldl_append]
  rfl

theorem stores_append (es : List Event) (e : Event) :
    stores (es ++ [e]) = stores es ++ stores [e] := List.filterMap_append

theorem storesOf_append (reader : Nat) (es : List Event) (e : Event) :
    storesOf reader (es ++ [e])
      = storesOf reader es ++ storesOf reader [e] := by
  unfold storesOf
  rw [stores_append, List.filter_append, List.map_append]

theorem mark_other {reader : Nat} {p : Pop} (h : p.reader ≠ reader) :
    p.mark reader = p := if_neg h

@[simp] theorem mark_reader (reader : Nat) (p : Pop) :
    (p.mark reader).reader = p.reader := by
  unfold Pop.mark
  split <;> rfl

@[simp] theorem mark_byte (reader : Nat) (p : Pop) :
    (p.mark reader).byte = p.byte := by
  unfold Pop.mark
  split <;> rfl

/-- A key without a byte leaves the pipe alone. -/
theorem keyboardHandler_none {key : Option DecodedKey}
    (h : keyByte key = none) (pipe : Pipe) :
    keyboardHandler pipe key = .ok pipe := by
  unfold keyboardHandler
  split
  · next character =>
      rw [show asAscii character = none from h]
      rfl
  · rfl
  · rfl

/-- A key with a byte pushes it. -/
theorem keyboardHandler_some {key : Option DecodedKey} {c : Byte}
    (h : keyByte key = some c) (pipe : Pipe) :
    keyboardHandler pipe key
      = (expect (pipe.array.push c) (pipeFull c) >>= fun array =>
          pure ⟨array⟩) := by
  unfold keyboardHandler
  split
  · next character =>
      rw [show asAscii character = some c from h]
      rfl
  · cases h
  · cases h

/-- The keyboard handler pushes the byte of its key and nothing else. -/
theorem keyboardHandler_ok {pipe pipe' : Pipe} {key : Option DecodedKey}
    (h : keyboardHandler pipe key = .ok pipe') :
    pipe'.array.items = pipe.array.items ++ (keyByte key).toList
      ∧ pipe'.array.capacity = pipe.array.capacity := by
  cases hbyte : keyByte key with
  | none =>
      rw [keyboardHandler_none hbyte] at h
      rw [← Except.ok.inj h]
      simp
  | some c =>
      rw [keyboardHandler_some hbyte] at h
      obtain ⟨array, hpush, hrest⟩ := bind_eq_ok.mp h
      cases hfull : pipe.array.push c with
      | none =>
          rw [hfull] at hpush
          cases hpush
      | some q =>
          rw [hfull, expect_some] at hpush
          obtain rfl := Except.ok.inj hpush
          rw [← Except.ok.inj hrest]
          exact ⟨Fifo.push_eq_some hfull, Fifo.push_capacity hfull⟩

-- =========================================================== the invariant

/-- A read at position `i` has stored its first `i` pops, in order, at
the positions `0..i`, and what it has popped beyond that it holds. -/
structure Progress (es : List Event) (reader : Nat) (r : Read)
    (done : List Byte) : Prop where
  length : done.length = r.i
  within : r.i ≤ r.size
  holding : r.c ≠ none → r.i < r.size
  popped : popsOf reader es
    = done.map (⟨reader, ·, true⟩) ++ r.c.toList.map (⟨reader, ·, false⟩)
  filled : storesOf reader es
    = done.mapIdx fun j b => (r.buffer + BitVec.ofNat 64 j, b)

structure Inv (mem : Mem) (es : List Event) (s : State) : Prop where
  fifo : (pops es).map Pop.byte ++ s.pipe.array.items = pushed es
  memory : s.mem
    = (stores es).foldl (fun m st => storeByte m st.2.1 st.2.2) mem
  reads : ∀ reader r, s.reads[reader]? = some r →
    ∃ done, Progress es reader r done
  unborn : ∀ reader, s.reads.length ≤ reader →
    popsOf reader es = [] ∧ storesOf reader es = []

/-- A read that an event leaves alone. -/
theorem Progress.frame {es : List Event} {e : Event} {reader : Nat}
    {r : Read} {done : List Byte} (h : Progress es reader r done)
    (hpops : popsOf reader (es ++ [e]) = popsOf reader es)
    (hstores : storesOf reader (es ++ [e]) = storesOf reader es) :
    Progress (es ++ [e]) reader r done :=
  { h with
    popped := hpops.trans h.popped
    filled := hstores.trans h.filled }

-- ============================================ what an event does to a read

theorem popsOf_pop_self (es : List Event) (reader : Nat) (c : Byte) :
    popsOf reader (es ++ [.pop reader (some c)])
      = popsOf reader es ++ [⟨reader, c, false⟩] := by
  simp [popsOf, pops_append, record]

theorem popsOf_pop_other (es : List Event) {reader other : Nat}
    (h : other ≠ reader) (c : Byte) :
    popsOf reader (es ++ [.pop other (some c)]) = popsOf reader es := by
  simp [popsOf, pops_append, record, h]

theorem popsOf_store_self (es : List Event) (reader : Nat) (a : Word)
    (b : Byte) :
    popsOf reader (es ++ [.store reader a b])
      = (popsOf reader es).map (Pop.mark reader) := by
  unfold popsOf
  rw [pops_append, record, List.filter_map]
  congr 2
  funext p
  simp

theorem popsOf_store_other (es : List Event) {reader other : Nat}
    (h : other ≠ reader) (a : Word) (b : Byte) :
    popsOf reader (es ++ [.store other a b]) = popsOf reader es := by
  unfold popsOf
  rw [pops_append, record, List.filter_map]
  have hsame : (fun p : Pop => decide (p.reader = reader))
      ∘ Pop.mark other = fun p => decide (p.reader = reader) := by
    funext p
    simp
  rw [hsame]
  refine (List.map_congr_left fun p hp => ?_).trans (List.map_id _)
  have hreader : p.reader = reader := by
    simpa using (List.mem_filter.mp hp).2
  exact mark_other (by rw [hreader]; exact h.symm)

theorem storesOf_store_self (es : List Event) (reader : Nat) (a : Word)
    (b : Byte) :
    storesOf reader (es ++ [.store reader a b])
      = storesOf reader es ++ [(a, b)] := by
  rw [storesOf_append]
  simp [storesOf, stores]

theorem storesOf_store_other (es : List Event) {reader other : Nat}
    (h : other ≠ reader) (a : Word) (b : Byte) :
    storesOf reader (es ++ [.store other a b]) = storesOf reader es := by
  rw [storesOf_append]
  simp [storesOf, stores, h]

theorem storesOf_pop (es : List Event) (reader other : Nat)
    (ret : Option Byte) :
    storesOf reader (es ++ [.pop other ret]) = storesOf reader es := by
  rw [storesOf_append]
  simp [storesOf, stores]

/-- The pops a read has stored, all marked: marking changes nothing. -/
theorem map_mark_stored (reader : Nat) (done : List Byte) :
    (done.map fun b => (⟨reader, b, true⟩ : Pop)).map (Pop.mark reader)
      = done.map (⟨reader, ·, true⟩) := by
  simp [Pop.mark, Function.comp_def]

-- =============================================================== the steps

section steps

variable {mem : Mem} {es : List Event} {s : State}

/-- Keys and calls pop nothing and store nothing. -/
theorem Inv.reads_quiet (h : Inv mem es s) {e : Event}
    (hrecord : record (pops es) e = pops es) (hstores : stores [e] = []) :
    (pops (es ++ [e]) = pops es ∧ stores (es ++ [e]) = stores es)
    ∧ (∀ reader r, s.reads[reader]? = some r →
        ∃ done, Progress (es ++ [e]) reader r done)
    ∧ ∀ reader, s.reads.length ≤ reader →
        popsOf reader (es ++ [e]) = []
          ∧ storesOf reader (es ++ [e]) = [] := by
  have hp : pops (es ++ [e]) = pops es := (pops_append es e).trans hrecord
  have hs : stores (es ++ [e]) = stores es := by
    rw [stores_append, hstores, List.append_nil]
  have hpof : ∀ reader, popsOf reader (es ++ [e]) = popsOf reader es := by
    intro reader
    unfold popsOf
    rw [hp]
  have hsof : ∀ reader, storesOf reader (es ++ [e]) = storesOf reader es := by
    intro reader
    unfold storesOf
    rw [hs]
  refine ⟨⟨hp, hs⟩, ?_, ?_⟩
  · intro reader r hr
    obtain ⟨done, hdone⟩ := h.reads reader r hr
    exact ⟨done, hdone.frame (hpof reader) (hsof reader)⟩
  · intro reader hlen
    rw [hpof, hsof]
    exact h.unborn reader hlen

theorem inv_key (h : Inv mem es s) {key : Option DecodedKey} {pipe : Pipe}
    (hkey : keyboardHandler s.pipe key = .ok pipe) :
    Inv mem (es ++ [.key key]) { s with pipe } := by
  obtain ⟨⟨hp, hs⟩, hreads, hunborn⟩ :=
    h.reads_quiet (e := .key key) rfl rfl
  refine ⟨?_, ?_, hreads, hunborn⟩
  · have hbyte : pushed [.key key] = (keyByte key).toList := by
      cases hk : keyByte key <;> simp [pushed, hk]
    rw [hp, (keyboardHandler_ok hkey).1, pushed_append, hbyte, ← h.fifo,
      List.append_assoc]
  · rw [hs]
    exact h.memory

theorem inv_readSyscall (h : Inv mem es s) (fd buf : Word) (count : Nat) :
    Inv mem (es ++ [.readSyscall fd buf count])
      (if fd = 0 then { s with reads := s.reads ++ [⟨buf, count, 0, none⟩] }
        else s) := by
  obtain ⟨⟨hp, hs⟩, hreads, hunborn⟩ :=
    h.reads_quiet (e := .readSyscall fd buf count) rfl rfl
  have hpush : pushed (es ++ [.readSyscall fd buf count]) = pushed es := by
    rw [pushed_append]
    exact List.append_nil _
  have hfifo : (pops (es ++ [.readSyscall fd buf count])).map Pop.byte
      ++ s.pipe.array.items = pushed (es ++ [.readSyscall fd buf count]) := by
    rw [hp, hpush]
    exact h.fifo
  have hmem : s.mem = (stores (es ++ [.readSyscall fd buf count])).foldl
      (fun m st => storeByte m st.2.1 st.2.2) mem := by
    rw [hs]
    exact h.memory
  by_cases hfd : fd = 0
  · rw [if_pos hfd]
    refine ⟨hfifo, hmem, ?_, ?_⟩
    · intro reader r hr
      rcases Nat.lt_or_ge reader s.reads.length with hlt | hge
      · rw [List.getElem?_append_left hlt] at hr
        exact hreads reader r hr
      · -- the call that has just begun
        obtain ⟨hpops, hstores⟩ := hunborn reader hge
        rw [List.getElem?_append_right hge] at hr
        obtain rfl := List.mem_singleton.mp (List.mem_of_getElem? hr)
        exact ⟨[], rfl, Nat.zero_le _, fun hc => absurd rfl hc, hpops,
          hstores⟩
    · intro reader hlen
      refine hunborn reader ?_
      rw [List.length_append] at hlen
      omega
  · rw [if_neg hfd]
    exact ⟨hfifo, hmem, hreads, hunborn⟩

/-- A pop that finds the queue empty. -/
theorem inv_pop_none (h : Inv mem es s) (reader : Nat) :
    Inv mem (es ++ [.pop reader none]) s := by
  obtain ⟨⟨hp, hs⟩, hreads, hunborn⟩ :=
    h.reads_quiet (e := .pop reader none) rfl rfl
  refine ⟨?_, ?_, hreads, hunborn⟩
  · rw [hp, pushed_append]
    exact h.fifo.trans (List.append_nil _).symm
  · rw [hs]
    exact h.memory

theorem inv_pop_some (h : Inv mem es s) {reader : Nat} {r : Read} {c : Byte}
    {array : Fifo Byte} (hr : s.reads[reader]? = some r)
    (hi : r.i < r.size) (hc : r.c = none)
    (hpop : s.pipe.array.pop = some (c, array)) :
    Inv mem (es ++ [.pop reader (some c)])
      { s with
        pipe := ⟨array⟩
        reads := s.reads.set reader { r with c := some c } } := by
  have hlt := (List.getElem?_eq_some_iff.mp hr).1
  refine ⟨?_, ?_, ?_, ?_⟩
  · have hpush : pushed (es ++ [.pop reader (some c)]) = pushed es := by
      rw [pushed_append]
      exact List.append_nil _
    rw [hpush, ← h.fifo, Fifo.pop_eq_some hpop, pops_append]
    simp [record]
  · rw [stores_append]
    exact h.memory.trans (by rw [show stores [.pop reader (some c)] = []
      from rfl, List.append_nil])
  · intro other r' hr'
    by_cases heq : reader = other
    · subst heq
      obtain rfl : { r with c := some c } = r' := by
        rw [List.getElem?_set_self hlt] at hr'
        exact Option.some.inj hr'
      obtain ⟨done, hdone⟩ := h.reads reader r hr
      refine ⟨done, hdone.length, hdone.within, fun _ => hi, ?_, ?_⟩
      · rw [popsOf_pop_self, hdone.popped, hc]
        simp
      · rw [storesOf_pop]
        exact hdone.filled
    · rw [List.getElem?_set_ne heq] at hr'
      obtain ⟨done, hdone⟩ := h.reads other r' hr'
      exact ⟨done, hdone.frame (popsOf_pop_other es heq c)
        (storesOf_pop ..)⟩
  · intro other hlen
    rw [List.length_set] at hlen
    rw [popsOf_pop_other es (by omega), storesOf_pop]
    exact h.unborn other hlen

theorem inv_store (h : Inv mem es s) {reader : Nat} {r : Read} {b : Byte}
    (hr : s.reads[reader]? = some r) (hc : r.c = some b) :
    Inv mem (es ++ [.store reader (r.buffer + BitVec.ofNat 64 r.i) b])
      { s with
        reads := s.reads.set reader { r with i := r.i + 1, c := none }
        mem := storeByte s.mem (r.buffer + BitVec.ofNat 64 r.i) b } := by
  have hlt := (List.getElem?_eq_some_iff.mp hr).1
  refine ⟨?_, ?_, ?_, ?_⟩
  · rw [pushed_append, pops_append, record, List.map_map]
    have hbyte : Pop.byte ∘ Pop.mark reader = Pop.byte := by
      funext p
      simp
    rw [hbyte]
    exact h.fifo.trans (List.append_nil _).symm
  · rw [stores_append, List.foldl_append, ← h.memory]
    rfl
  · intro other r' hr'
    by_cases heq : reader = other
    · subst heq
      obtain rfl : { r with i := r.i + 1, c := none } = r' := by
        rw [List.getElem?_set_self hlt] at hr'
        exact Option.some.inj hr'
      obtain ⟨done, hdone⟩ := h.reads reader r hr
      have hi := hdone.holding (by rw [hc]; exact Option.some_ne_none b)
      refine ⟨done ++ [b], ?_, hi, fun hnone => absurd rfl hnone, ?_, ?_⟩
      · rw [List.length_append, hdone.length]
        rfl
      · rw [popsOf_store_self, hdone.popped, hc, List.map_append,
          map_mark_stored]
        simp [Pop.mark]
      · rw [storesOf_store_self, hdone.filled, List.mapIdx_append,
          ← hdone.length]
        simp
    · rw [List.getElem?_set_ne heq] at hr'
      obtain ⟨done, hdone⟩ := h.reads other r' hr'
      exact ⟨done, hdone.frame (popsOf_store_other es heq _ b)
        (storesOf_store_other es heq _ b)⟩
  · intro other hlen
    rw [List.length_set] at hlen
    rw [popsOf_store_other es (by omega), storesOf_store_other es (by omega)]
    exact h.unborn other hlen

end steps

theorem inv_run {mem : Mem} {es : List Event} {s : State}
    (hrun : (pipeSys mem).Run es s) : Inv mem es s := by
  refine hrun.history (I := Inv mem) ?_ ?_
  · intro s hinit
    obtain rfl : s = ⟨inputPipe, [], mem⟩ := hinit
    refine ⟨rfl, rfl, ?_, fun _ _ => ⟨rfl, rfl⟩⟩
    intro reader r hr
    simp at hr
  · intro es s e s' _ hinv hstep
    cases e with
    | key key =>
        obtain ⟨pipe, hkey, rfl⟩ := hstep
        exact inv_key hinv hkey
    | readSyscall fd buf count =>
        obtain rfl := hstep
        exact inv_readSyscall hinv fd buf count
    | pop reader ret =>
        obtain ⟨r, hr, hi, hc, hret⟩ := hstep
        split at hret
        · next c array hpop =>
            obtain ⟨rfl, rfl⟩ := hret
            exact inv_pop_some hinv hr hi hc hpop
        · obtain ⟨rfl, rfl⟩ := hret
          exact inv_pop_none hinv reader
    | store reader a b =>
        obtain ⟨r, hr, hc, rfl, rfl⟩ := hstep
        exact inv_store hinv hr hc

-- ============================================================= the results

/-- A key is handled without a panic as long as the queue is not full. -/
theorem keyboardHandler_returns {pipe : Pipe} (key : Option DecodedKey)
    (hroom : pipe.array.items.length < pipe.array.capacity) :
    ∃ pipe', keyboardHandler pipe key = .ok pipe' := by
  cases hbyte : keyByte key with
  | none => exact ⟨pipe, keyboardHandler_none hbyte pipe⟩
  | some c =>
      obtain ⟨q, hq⟩ := Option.isSome_iff_exists.mp
        (Fifo.push_isSome (a := c).mpr hroom)
      refine ⟨⟨q⟩, ?_⟩
      rw [keyboardHandler_some hbyte, hq]
      rfl

/-- A pop that is not stored yet is in the hand of its reader. -/
theorem Inv.unstored {mem : Mem} {es : List Event} {s : State}
    (h : Inv mem es s) {p : Pop} (hp : p ∈ pops es)
    (hnot : p.stored = false) :
    ∃ r, s.reads[p.reader]? = some r ∧ r.c = some p.byte := by
  have hof : p ∈ popsOf p.reader es :=
    List.mem_filter.mpr ⟨hp, by simp⟩
  rcases Nat.lt_or_ge p.reader s.reads.length with hlt | hge
  · have hr := List.getElem?_eq_getElem hlt
    refine ⟨_, hr, ?_⟩
    obtain ⟨done, hdone⟩ := h.reads _ _ hr
    rw [hdone.popped] at hof
    rcases List.mem_append.mp hof with hmem | hmem
    · obtain ⟨b, -, hb⟩ := List.mem_map.mp hmem
      rw [← hb] at hnot
      cases hnot
    · obtain ⟨b, hb, hpb⟩ := List.mem_map.mp hmem
      have hbyte : b = p.byte := congrArg Pop.byte hpb
      rw [← hbyte]
      exact Option.mem_toList.mp hb
  · rw [(h.unborn p.reader hge).1] at hof
    cases hof

/-- With no byte in a reader's hand, all pops are stored. -/
theorem Inv.storedBytes_eq {mem : Mem} {es : List Event} {s : State}
    (h : Inv mem es s) (hidle : ∀ r ∈ s.reads, r.c = none) :
    storedBytes es = (pops es).map Pop.byte := by
  unfold storedBytes
  rw [List.filter_eq_self.mpr]
  intro p hp
  by_contra hnot
  obtain ⟨r, hr, hc⟩ := h.unstored hp (by simpa using hnot)
  rw [hidle r (List.mem_of_getElem? hr)] at hc
  cases hc

/-- Input is delivered in order, once. In every run the bytes popped, in
the order of their pops, and then the bytes still queued are the bytes
pushed; every byte popped has been stored or is in the hand of the one
read that popped it, and when no read has a byte in its hand the bytes
stored and those queued are the bytes pushed. A read at position `i` has
popped the `i` bytes it has stored, and at most one more; it has stored
them in that order at the positions `0..i` of its buffer and nowhere
else; and memory has changed by the stores of the reads only. -/
theorem input_delivered (mem : Mem) {es : List Event} {s : State}
    (hrun : (pipeSys mem).Run es s) :
    (pops es).map Pop.byte ++ s.pipe.array.items = pushed es
    ∧ (∀ p ∈ pops es, p.stored = false →
        ∃ r, s.reads[p.reader]? = some r ∧ r.c = some p.byte)
    ∧ ((∀ r ∈ s.reads, r.c = none) →
        storedBytes es ++ s.pipe.array.items = pushed es)
    ∧ (∀ reader r, s.reads[reader]? = some r →
        (r.Completed → r.c = none)
        ∧ ∃ done : List Byte, done.length = r.i ∧ r.i ≤ r.size
          ∧ popsOf reader es = done.map (⟨reader, ·, true⟩)
              ++ r.c.toList.map (⟨reader, ·, false⟩)
          ∧ storesOf reader es = done.mapIdx fun j b =>
              (r.buffer + BitVec.ofNat 64 j, b))
    ∧ s.mem = (stores es).foldl
        (fun m st => storeByte m st.2.1 st.2.2) mem := by
  have hinv := inv_run hrun
  refine ⟨hinv.fifo, fun p hp => hinv.unstored hp, ?_, ?_, hinv.memory⟩
  · intro hidle
    rw [hinv.storedBytes_eq hidle]
    exact hinv.fifo
  · intro reader r hr
    obtain ⟨done, hdone⟩ := hinv.reads reader r hr
    refine ⟨?_, done, hdone.length, hdone.within, hdone.popped,
      hdone.filled⟩
    intro hcompleted
    by_contra hc
    exact Nat.lt_irrefl _ (hcompleted ▸ hdone.holding hc)

/-- The key `a`, and a read of one byte that has popped it. -/
def keyPopped : List Event :=
  [.key (some (.unicode 'a')), .readSyscall 0 0x200000 1, .pop 0 (some 97)]

/-- After them, the queue is empty and the read has the key in hand. -/
def keyInHand : State := ⟨inputPipe, [⟨0x200000, 1, 0, some 97⟩], fun _ => 0⟩

theorem run_keyPopped : (pipeSys fun _ => 0).Run keyPopped keyInHand := by
  let queued : Pipe := ⟨⟨128, [97], by decide⟩⟩
  have hinit : (pipeSys fun _ => 0).init ⟨inputPipe, [], fun _ => 0⟩ := rfl
  have hkey : (pipeSys fun _ => 0).step ⟨inputPipe, [], fun _ => 0⟩
      (.key (some (.unicode 'a'))) ⟨queued, [], fun _ => 0⟩ :=
    ⟨queued, rfl, rfl⟩
  have hcall : (pipeSys fun _ => 0).step ⟨queued, [], fun _ => 0⟩
      (.readSyscall 0 0x200000 1)
      ⟨queued, [⟨0x200000, 1, 0, none⟩], fun _ => 0⟩ := rfl
  have hpop : (pipeSys fun _ => 0).step
      ⟨queued, [⟨0x200000, 1, 0, none⟩], fun _ => 0⟩
      (.pop 0 (some 97)) keyInHand :=
    ⟨_, rfl, Nat.zero_lt_one, rfl, rfl, rfl⟩
  exact .step (.step (.step (.start hinit) hkey) hcall) hpop

/-- Once the read has stored the key, it is in the buffer. -/
theorem input_delivered_key :
    storedBytes (keyPopped ++ [.store 0 0x200000 97])
      = pushed (keyPopped ++ [.store 0 0x200000 97]) := by
  have hstore : (pipeSys fun _ => 0).step keyInHand (.store 0 0x200000 97)
      ⟨inputPipe, [⟨0x200000, 1, 1, none⟩],
        storeByte (fun _ => 0) 0x200000 97⟩ :=
    ⟨_, rfl, rfl, rfl, rfl⟩
  have hbytes := (input_delivered _ (run_keyPopped.step hstore)).2.2.1
    (by simp)
  rwa [show inputPipe.array.items = [] from rfl, List.append_nil] at hbytes

/-- Between the pop and the store the key is neither in the queue nor in
the buffer. -/
theorem key_in_hand :
    ¬ ∀ mem es s, (pipeSys mem).Run es s →
      storedBytes es ++ s.pipe.array.items = pushed es := by
  intro hall
  have hbytes := hall _ _ _ run_keyPopped
  exact absurd hbytes (by decide)

end Bayos.Pipe
