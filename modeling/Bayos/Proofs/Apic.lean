/-
What the I/O APICs route after `init_apic`: when it is the keyboard's
interrupt alone, and to this processor.

# Three slips

The version register holds the number of the last entry, one less than
their count. The loop takes it for the count, subtracts one and stops in
front of that, so the last two entries keep what the firmware left there
(`unmasked_tail`), and a table of one entry is an overflow. And the ID
register of the local APIC holds the ID in bits 24-31 already: shifted by
24, it leaves its low eight bits in the destination field.
-/
import Bayos.Model.Apic

namespace Bayos.Apic

open Rust

-- =============================================================== registers

theorem select_table (r : Registers) (register : Nat) :
    (r.select register).table = r.table := rfl

/-- A write to the word of one entry, seen by an entry. -/
theorem write_get (r : Registers) (i : Nat) {word : Nat} (hword : word < 2)
    (value : Word32) (j : Nat) :
    ((r.select (0x10 + word + i * 2)).write value).table[j]?
      = r.table[j]?.map fun e => if j = i then Entry.put word value e
          else e := by
  have hnot : ¬ 0x10 + word + i * 2 < 0x10 := by omega
  have hindex : (0x10 + word + i * 2 - 0x10) / 2 = i := by omega
  have hput : Entry.put (0x10 + word + i * 2) value
      = Entry.put word value := by
    funext e
    unfold Entry.put
    rw [show (0x10 + word + i * 2) % 2 = word % 2 by omega]
  unfold Registers.write
  simp only [Registers.select, if_neg hnot, hindex, hput]
  by_cases hj : j = i
  · subst hj
    rw [List.getElem?_modify_eq]
    simp
  · rw [List.getElem?_modify_ne _ _ (Ne.symm hj)]
    simp [hj]

/-- Both words of one entry written. -/
theorem write_both (r : Registers) (i : Nat) (low high : Word32) (j : Nat) :
    ((((r.select (0x10 + i * 2)).write low).select
        (0x11 + i * 2)).write high).table[j]?
      = r.table[j]?.map fun e => if j = i then ⟨low, high⟩ else e := by
  have hzero : 0 < 2 := by omega
  have hone : 1 < 2 := by omega
  have hlow := write_get r i hzero low j
  have hhigh := write_get ((r.select (0x10 + i * 2)).write low) i hone high j
  rw [hhigh]
  simp only [Nat.add_zero] at hlow
  rw [hlow, Option.map_map]
  congr 1
  funext e
  by_cases hj : j = i <;> simp [hj, Entry.put]

/-- `1 << 16` and a zero destination. -/
def maskedEntry : Entry := ⟨1 <<< 16, 0⟩

theorem maskIrq_get (r : Registers) (i j : Nat) :
    (maskIrq r i).table[j]?
      = r.table[j]?.map fun e => if j = i then maskedEntry else e :=
  write_both r i _ _ j

/-- The masking loop reaches the entries below its bound. -/
theorem maskIrqs_get (r : Registers) (n j : Nat) :
    ((List.range n).foldl maskIrq r).table[j]?
      = r.table[j]?.map fun e => if j < n then maskedEntry else e := by
  induction n with
  | zero => simp
  | succ n ih =>
      rw [List.range_succ, List.foldl_append, List.foldl_cons,
        List.foldl_nil, maskIrq_get, ih, Option.map_map]
      congr 1
      funext e
      by_cases hj : j = n
      · simp [hj]
      · have hiff : j < n + 1 ↔ j < n := by omega
        simp [hj, hiff]

theorem routeKeyboard_get (r : Registers) (localApicId : Word32) (j : Nat) :
    (routeKeyboard r localApicId).table[j]?
      = r.table[j]?.map fun e =>
          if j = 1 then ⟨keyboard, localApicId <<< 24⟩ else e :=
  write_both r 1 _ _ j

-- =============================================================== one round

/-- The number of the last entry. -/
def IoApic.last (a : IoApic) : Nat := maxEntry a.registers.version

/-- Its two registers have physical addresses of 32 bits, and are mapped
at addresses other than zero. -/
def IoApic.Addressable (physOffset : BitVec 64) (a : IoApic) : Prop :=
  a.address + 16 < 2 ^ 32
    ∧ physOffset + BitVec.ofNat 64 a.address ≠ 0
    ∧ physOffset + BitVec.ofNat 64 (a.address + 16) ≠ 0

/-- The registers after a round. -/
def programmed (localApicId : Word32) (a : IoApic) : Registers :=
  let r := (List.range (a.last - 1)).foldl maskIrq (a.registers.select 1)
  if a.globalSystemInterruptBase = 0 then routeKeyboard r localApicId else r

theorem programmed_get (localApicId : Word32) (a : IoApic) (j : Nat) :
    (programmed localApicId a).table[j]?
      = a.registers.table[j]?.map fun e =>
          if a.globalSystemInterruptBase = 0 ∧ j = 1
          then ⟨keyboard, localApicId <<< 24⟩
          else if j < a.last - 1 then maskedEntry else e := by
  unfold programmed
  by_cases hbase : a.globalSystemInterruptBase = 0
  · simp only [if_pos hbase, routeKeyboard_get, maskIrqs_get, select_table,
      Option.map_map]
    congr 1
    funext e
    simp [hbase]
  · simp only [if_neg hbase, maskIrqs_get, select_table]
    congr 1
    funext e
    have hnot : ¬ (a.globalSystemInterruptBase = 0 ∧ j = 1) :=
      fun h => hbase h.1
    rw [if_neg hnot]

theorem maxEntry_lt (version : Word32) : maxEntry version < 256 := by
  unfold maxEntry
  rw [BitVec.toNat_and]
  exact Nat.lt_of_le_of_lt Nat.and_le_right (by decide)

theorem getVirtualAddress_ok {physOffset : BitVec 64} {address : Nat} :
    (∃ p, getVirtualAddress physOffset address = .ok p)
      ↔ physOffset + BitVec.ofNat 64 address ≠ 0 := by
  unfold getVirtualAddress unwrap
  by_cases hnull : physOffset + BitVec.ofNat 64 address = 0
  · simp only [if_pos hnull]
    refine iff_of_false ?_ (fun h => h hnull)
    intro h
    obtain ⟨p, hp⟩ := h
    cases hp
  · simp only [if_neg hnull]
    exact iff_of_true ⟨_, rfl⟩ hnull

/-- A round returns, with the registers programmed, if the registers can
be reached and the table has a second entry. -/
theorem initIoApic_eq {physOffset : BitVec 64} {a : IoApic}
    (haddr : a.Addressable physOffset) (hlast : 1 ≤ a.last)
    (localApicId : Word32) :
    initIoApic physOffset localApicId a
      = .ok { a with registers := programmed localApicId a } := by
  obtain ⟨hwindow, hsel, hwin⟩ := haddr
  obtain ⟨p, hp⟩ := getVirtualAddress_ok.mpr hsel
  obtain ⟨q, hq⟩ := getVirtualAddress_ok.mpr hwin
  have hadd : U32.add a.address 16 = .ok (a.address + 16) := if_pos hwindow
  have hsub : U32.sub (((a.registers.select 1).read >>> 16) &&& 0xFF).toNat 1
      = .ok (a.last - 1) := if_pos hlast
  have hlt := maxEntry_lt a.registers.version
  have hinto : intoU8 (a.last - 1) = .ok (a.last - 1) := by
    refine if_pos ?_
    unfold IoApic.last
    omega
  unfold initIoApic
  simp only [hp, hadd, hq, hsub, hinto, ok_bind]
  rfl

/-- It returns only then. -/
theorem initIoApic_returned {physOffset : BitVec 64} {a after : IoApic}
    {localApicId : Word32}
    (h : initIoApic physOffset localApicId a = .ok after) :
    a.Addressable physOffset ∧ 1 ≤ a.last := by
  unfold initIoApic at h
  obtain ⟨p, hp, h⟩ := bind_eq_ok.mp h
  obtain ⟨window, hadd, h⟩ := bind_eq_ok.mp h
  obtain ⟨q, hq, h⟩ := bind_eq_ok.mp h
  obtain ⟨count, hsub, h⟩ := bind_eq_ok.mp h
  have hwindow : a.address + 16 < 2 ^ 32 := by
    by_contra hnot
    rw [U32.add, if_neg hnot] at hadd
    cases hadd
  rw [U32.add, if_pos hwindow] at hadd
  obtain rfl := Except.ok.inj hadd
  refine ⟨⟨hwindow, getVirtualAddress_ok.mp ⟨p, hp⟩,
    getVirtualAddress_ok.mp ⟨q, hq⟩⟩, ?_⟩
  by_contra hnot
  rw [U32.sub, if_neg (show ¬ 1 ≤ (((a.registers.select 1).read >>> 16)
    &&& 0xFF).toNat from hnot)] at hsub
  cases hsub

-- ============================================================= the routing

/-- Bit 16: the entry raises no interrupt. -/
def Entry.Masked (e : Entry) : Prop := e.low.getLsbD 16 = true

instance (e : Entry) : Decidable e.Masked :=
  inferInstanceAs (Decidable (_ = _))

/-- The entry raises the keyboard's interrupt, vector 33, on the
processor of that ID. -/
def Entry.Keyboard (id : Word32) (e : Entry) : Prop :=
  ¬ e.Masked ∧ e.low &&& 0xFF = 33 ∧ e.high >>> 24 = id

/-- Every entry is masked, but entry 1 of the I/O APIC at base 0, which is
the keyboard's. -/
def IoApic.Routed (id : Word32) (a : IoApic) : Prop :=
  ∀ i e, a.registers.table[i]? = some e →
    if a.globalSystemInterruptBase = 0 ∧ i = 1 then e.Keyboard id
    else e.Masked

/-- What a round needs to end so: registers that can be reached, a table
of at least two entries, the last two of them masked before, unless one
is the keyboard's, and, at base 0, an ID register whose low byte is the
ID. -/
def IoApic.Tame (physOffset : BitVec 64) (localApicId : Word32)
    (a : IoApic) : Prop :=
  a.Addressable physOffset
    ∧ 1 ≤ a.last
    ∧ (∀ i e, a.registers.table[i]? = some e → a.last - 1 ≤ i →
        ¬ (a.globalSystemInterruptBase = 0 ∧ i = 1) → e.Masked)
    ∧ (a.globalSystemInterruptBase = 0 →
        localApicId &&& 0xFF = localApicId >>> 24)

theorem masked_maskedEntry : maskedEntry.Masked := by decide

theorem shift_back (x : Word32) : (x <<< 24) >>> 24 = x &&& 0xFF := by
  apply BitVec.eq_of_toNat_eq
  simp only [BitVec.toNat_ushiftRight, BitVec.toNat_shiftLeft,
    BitVec.toNat_and, Nat.shiftLeft_eq, Nat.shiftRight_eq_div_pow]
  have hand : x.toNat &&& (0xFF : Word32).toNat = x.toNat % 2 ^ 8 :=
    Nat.and_two_pow_sub_one_eq_mod x.toNat 8
  rw [hand]
  omega

theorem keyboard_iff (localApicId id : Word32) :
    Entry.Keyboard id ⟨keyboard, localApicId <<< 24⟩
      ↔ localApicId &&& 0xFF = id := by
  unfold Entry.Keyboard
  rw [shift_back]
  constructor
  · intro h
    exact h.2.2
  · intro h
    exact ⟨show ¬ keyboard.getLsbD 16 = true by decide,
      show keyboard &&& 0xFF = 33 by decide, h⟩

/-- The loop leaves the last two entries as they were. -/
theorem unmasked_tail {localApicId : Word32} {a : IoApic} {i : Nat}
    {e : Entry} (he : a.registers.table[i]? = some e)
    (hi : a.last - 1 ≤ i)
    (hnot : ¬ (a.globalSystemInterruptBase = 0 ∧ i = 1)) :
    (programmed localApicId a).table[i]? = some e := by
  rw [programmed_get, he, Option.map_some, if_neg hnot,
    if_neg (by omega)]

/-- One round returns and routes the keyboard alone exactly on such an
I/O APIC. -/
theorem initIoApic_routed (physOffset : BitVec 64) (localApicId : Word32)
    (a : IoApic) :
    (∃ after, initIoApic physOffset localApicId a = .ok after
        ∧ after.Routed (localApicId >>> 24))
      ↔ a.Tame physOffset localApicId := by
  constructor
  · intro h
    obtain ⟨after, hinit, hrouted⟩ := h
    obtain ⟨haddr, hlast⟩ := initIoApic_returned hinit
    rw [initIoApic_eq haddr hlast] at hinit
    obtain rfl := Except.ok.inj hinit
    refine ⟨haddr, hlast, ?_, ?_⟩
    · intro i e he hi hnot
      have hmasked := hrouted i e (unmasked_tail he hi hnot)
      rwa [if_neg hnot] at hmasked
    · intro hbase
      have hlen : 1 < a.registers.table.length := by
        have hcomplete := a.registers.complete
        unfold IoApic.last at hlast
        omega
      have hget : (programmed localApicId a).table[1]?
          = some ⟨keyboard, localApicId <<< 24⟩ := by
        rw [programmed_get, List.getElem?_eq_getElem hlen,
          Option.map_some, if_pos ⟨hbase, rfl⟩]
      have hkey := hrouted 1 _ hget
      rw [if_pos ⟨hbase, rfl⟩] at hkey
      exact (keyboard_iff ..).mp hkey
  · intro htame
    obtain ⟨haddr, hlast, htail, hid⟩ := htame
    refine ⟨_, initIoApic_eq haddr hlast localApicId, ?_⟩
    intro i e he
    rw [programmed_get] at he
    obtain ⟨e₀, he₀, rfl⟩ := Option.map_eq_some_iff.mp he
    by_cases hkey : a.globalSystemInterruptBase = 0 ∧ i = 1
    · simp only [if_pos hkey]
      exact (keyboard_iff ..).mpr (hid hkey.1)
    · simp only [if_neg hkey]
      by_cases hi : i < a.last - 1
      · rw [if_pos hi]
        exact masked_maskedEntry
      · rw [if_neg hi]
        exact htail i e₀ he₀ (by omega) hkey

-- ============================================================= the results

/-- The loop over the I/O APICs returns, with the keyboard's entry the
only one that is not masked and its destination this processor, if and
only if each I/O APIC is such that its round does. -/
theorem only_keyboard_routed_iff (physOffset : BitVec 64)
    (localApicId : Word32) (ioApics : List IoApic) :
    (∃ after, initIoApics physOffset localApicId ioApics = .ok after
        ∧ ∀ a ∈ after, a.Routed (localApicId >>> 24))
      ↔ ∀ a ∈ ioApics, a.Tame physOffset localApicId := by
  induction ioApics with
  | nil =>
      refine iff_of_true ⟨[], rfl, ?_⟩ ?_
      · intro a ha
        cases ha
      · intro a ha
        cases ha
  | cons a rest ih =>
      rw [List.forall_mem_cons, ← initIoApic_routed, ← ih]
      constructor
      · intro h
        obtain ⟨all, hinit, hrouted⟩ := h
        obtain ⟨after, hafter, hrest⟩ := bind_eq_ok.mp hinit
        obtain ⟨others, hothers, hall⟩ := bind_eq_ok.mp hrest
        obtain rfl := Except.ok.inj hall
        obtain ⟨hhead, htail⟩ := List.forall_mem_cons.mp hrouted
        exact ⟨⟨after, hafter, hhead⟩, others, hothers, htail⟩
      · intro h
        obtain ⟨⟨after, hafter, hhead⟩, others, hothers, htail⟩ := h
        refine ⟨after :: others, ?_, List.forall_mem_cons.mpr ⟨hhead, htail⟩⟩
        unfold initIoApics
        rw [hafter, ok_bind, hothers]
        rfl

/-- An I/O APIC of 24 entries, all of them live. -/
def liveIoApic : IoApic where
  address := 0xFEC00000
  globalSystemInterruptBase := 0
  registers := ⟨0, 23 <<< 16, List.replicate 24 ⟨0, 0⟩, by decide⟩

/-- Its last entries stay live. -/
theorem entries_left_live :
    ¬ ∀ (physOffset : BitVec 64) (localApicId : Word32)
        (ioApics : List IoApic),
      (∀ a ∈ ioApics, a.Addressable physOffset) →
      (ioApics.filter (·.globalSystemInterruptBase = 0)).length = 1 →
      (∀ a ∈ ioApics, a.globalSystemInterruptBase = 0 →
        2 ≤ a.registers.table.length) →
      ∃ after, initIoApics physOffset localApicId ioApics = .ok after
        ∧ ∀ a ∈ after, a.Routed (localApicId >>> 24) := by
  intro hall
  have haddr : liveIoApic.Addressable 0x10000000000 := by
    refine ⟨by decide, by decide, by decide⟩
  obtain ⟨after, hinit, hrouted⟩ := hall 0x10000000000 0 [liveIoApic]
    (by simpa using haddr) (by decide) (by decide)
  obtain ⟨one, hone, hrest⟩ := bind_eq_ok.mp hinit
  obtain rfl := Except.ok.inj hrest
  have htame := (initIoApic_routed _ _ _).mp
    ⟨one, hone, hrouted one (List.mem_cons_self ..)⟩
  have hmasked := htame.2.2.1 23 ⟨0, 0⟩ (by decide) (by decide) (by decide)
  exact absurd hmasked (by decide)

end Bayos.Apic
