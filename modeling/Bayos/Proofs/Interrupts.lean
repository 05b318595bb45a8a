/-
Which interrupts there are after `init_apic`, and how the kernel serves
them.

# What nobody programs

`init_apic` masks the 8259As whatever their state, and programs five of
the seven entries of the local vector table and, of each redirection
table, all entries but the last two. What else interrupts the processor
is what the firmware left in the others (`Unprogrammed`).

# To whom

The keyboard's entry is sent to what is in the low byte of the ID
register, and the ID is in its high byte (`KeyboardArrives`).

# One interrupt at a time

The timer, the keyboard and the local APIC's own errors have vectors of
one level. While one is in service none is offered, so `send_eoi` stands
at the beginning of the first two handlers; the third has none, and after
it the local APIC is silent (`interrupt_accepted_iff`).
-/
import Bayos.Model.Interrupts
import Bayos.Proofs.Apic

namespace Bayos.Interrupts

open Rust
open Lib (TransSys)
open Lib.Interrupts
open Bayos.Apic (Word32 IoApic initIoApic initIoApics programmed maskedEntry)

variable {c c' : Controllers} {ioApics ioApics' : List IoApic}
  {physOffset : BitVec 64} {address : Nat} {count : Word32} {v : Vector}

/-- The entry is for the APIC with this ID register, by its ID. -/
def Names (id : Word32) (e : Apic.Entry) : Prop :=
  e.low.getLsbD 11 = false
    ∧ (e.high >>> 24 = id >>> 24 ∨ e.high >>> 24 = 0xFF)

-- =========================================================== the registers

/-- After the writes to the 8259As every line is masked, and a request
that was withdrawn arrives at 0xFF. -/
theorem disablePic_eq (pic1 pic2 : Pic) :
    disablePic pic1 pic2
      = (⟨.mask, 0xF8, 0x4, 0x1, 0xff⟩, ⟨.mask, 0xF0, 0x2, 0x1, 0xff⟩) :=
  Prod.ext (pic1.initialised 0xF8 0x4 0x1 0xff)
    (pic2.initialised 0xF0 0x2 0x1 0xff)

theorem pics_give (pic1 pic2 : Pic) :
    Pic.Gives (disablePic pic1 pic2).1 (disablePic pic1 pic2).2 2 v
      ↔ v = InterruptIndex.spurious.asU8 := by
  rw [disablePic_eq]
  constructor
  · intro h
    refine Pic.gives_masked ?_ h
    show ∀ i, Pic.Masked ⟨.mask, 0xF8, 0x4, 0x1, 0xff⟩ i
    decide
  · rintro rfl
    exact .withdrawn

section Registers

variable (count : Word32) (lapic : Lapic)

/-- The words of the local vector table, of the spurious interrupt and of
the ID. -/
theorem initLapic_read :
    (initLapic count lapic).read 188 = lapic.read 188
      ∧ (initLapic count lapic).read 200 = 0x20020
      ∧ (initLapic count lapic).read 204 = lapic.read 204
      ∧ (initLapic count lapic).read 208 = 0x10400
      ∧ (initLapic count lapic).read 212 = 0x10000
      ∧ (initLapic count lapic).read 216 = 0x10000
      ∧ (initLapic count lapic).read 220 = 0x122
      ∧ (initLapic count lapic).read 60 = 0x1FF
      ∧ (initLapic count lapic).read 8 = lapic.read 8 := by
  refine ⟨?_, ?_, ?_, ?_, ?_, ?_, ?_, ?_, ?_⟩ <;>
    simp [initLapic, Lapic.write, Lapic.read, Function.update,
      InterruptIndex.asU32, InterruptIndex.asU8]

/-- The local APIC has no logical ID, so it takes what names it. -/
theorem initLapic_takes (e : Apic.Entry) :
    (initLapic count lapic).Takes e ↔ Names (lapic.read 8) e := by
  have hlogical : (initLapic count lapic).read 52
      = (lapic.read 52 &&& 0xFFFFFF) ||| 0x1 := by
    simp [initLapic, Lapic.write, Lapic.read, Function.update]
  have hnone : ((initLapic count lapic).read 52) >>> 24 = 0 := by
    have hlow : (0xFFFFFF : Word32) >>> 24 = 0 := by decide
    have hone : (0x1 : Word32) >>> 24 = 0 := by decide
    rw [hlogical, BitVec.ushiftRight_or_distrib,
      BitVec.ushiftRight_and_distrib, hlow, hone]
    simp
  unfold Lapic.Takes Names
  rw [hnone, (initLapic_read count lapic).2.2.2.2.2.2.2.2]
  cases e.low.getLsbD 11 with
  | true => simp
  | false => simp

/-- No interrupt is held back by the task priority. -/
theorem initLapic_interrupts :
    (initLapic count lapic).interrupts.taskPriority = 0
      ∧ (initLapic count lapic).interrupts.requests
        = lapic.interrupts.requests
      ∧ (initLapic count lapic).interrupts.inService
        = lapic.interrupts.inService := by
  simp [initLapic, Lapic.write]

end Registers

/-- The loop over the I/O APICs, when it returns. -/
theorem initIoApics_ok {localApicId : Word32} {as : List IoApic} :
    ∀ {bs : List IoApic}, initIoApics physOffset localApicId as = .ok bs →
      bs = as.map (fun a => { a with registers := programmed localApicId a })
        ∧ ∀ a ∈ as, 1 ≤ a.last := by
  induction as with
  | nil =>
      intro bs h
      obtain rfl := Except.ok.inj h
      exact ⟨rfl, by simp⟩
  | cons a rest ih =>
      intro bs h
      obtain ⟨b, hb, h⟩ := bind_eq_ok.mp h
      obtain ⟨others, hothers, h⟩ := bind_eq_ok.mp h
      obtain rfl := Except.ok.inj h
      obtain ⟨haddr, hlast⟩ := Apic.initIoApic_returned hb
      rw [Apic.initIoApic_eq haddr hlast] at hb
      obtain rfl := Except.ok.inj hb
      obtain ⟨rfl, hrest⟩ := ih hothers
      exact ⟨rfl, List.forall_mem_cons.mpr ⟨hlast, hrest⟩⟩

/-- What `init_apic` leaves when it returns. -/
theorem initApic_ok
    (h : initApic physOffset (.apic address ioApics) count c
      = .ok (c', ioApics')) :
    (c'.pic1, c'.pic2) = disablePic c.pic1 c.pic2
      ∧ c'.lapic = initLapic count c.lapic
      ∧ ioApics' = ioApics.map
          (fun a => { a with registers := programmed (c.lapic.read 8) a })
      ∧ ∀ a ∈ ioApics, 1 ≤ a.last := by
  unfold initApic at h
  obtain ⟨p, -, h⟩ := bind_eq_ok.mp h
  obtain ⟨bs, hbs, h⟩ := bind_eq_ok.mp h
  obtain ⟨rfl, rfl⟩ := Prod.mk.inj (Except.ok.inj h)
  rw [(initLapic_read count c.lapic).2.2.2.2.2.2.2.2] at hbs
  obtain ⟨hmap, hlast⟩ := initIoApics_ok hbs
  exact ⟨rfl, rfl, hmap, hlast⟩

-- ============================================================= the vectors

/-- The vectors of entries that `init_apic` does not write: corrected
machine checks, the thermal sensor, and the last two entries of a
redirection table, if they are for this processor and not the
keyboard's. -/
inductive Unprogrammed (c : Controllers) (ioApics : List IoApic) :
    Vector → Prop
  | locally {i : Nat} {v : Vector} : i = 188 ∨ i = 204 →
      sentBy (c.lapic.read i) = some v → Unprogrammed c ioApics v
  | routed {a : IoApic} {j : Nat} {e : Apic.Entry} {v : Vector} :
      a ∈ ioApics → a.last - 1 ≤ j →
      ¬ (a.globalSystemInterruptBase = 0 ∧ j = 1) →
      a.registers.table[j]? = some e → Names (c.lapic.read 8) e →
      sentBy e.low = some v → Unprogrammed c ioApics v

/-- The entry of the keyboard, for a local APIC with this ID register. -/
def keyboardEntry (id : Word32) : Apic.Entry := ⟨Apic.keyboard, id <<< 24⟩

/-- There is an I/O APIC with the keyboard's line, and its entry is for
this processor. -/
def KeyboardArrives (c : Controllers) (ioApics : List IoApic) : Prop :=
  (∃ a ∈ ioApics, a.globalSystemInterruptBase = 0)
    ∧ Names (c.lapic.read 8) (keyboardEntry (c.lapic.read 8))

/-- With the ID in the high byte of the register and nothing else in it,
the entry is for the processor of ID 0. -/
theorem names_keyboard_iff (n : BitVec 8) :
    Names (n.setWidth 32 <<< 24) (keyboardEntry (n.setWidth 32 <<< 24))
      ↔ n = 0 := by
  unfold Names
  revert n
  decide

theorem sentBy_masked : sentBy maskedEntry.low = none := by decide

theorem sentBy_keyboard :
    sentBy Apic.keyboard = some InterruptIndex.keyboard.asU8 := by decide

/-- The vectors a programmed redirection table sends to the processor. -/
theorem routed_iff (localApicId : Word32) {a : IoApic}
    (hlast : 1 ≤ a.last) :
    (∃ e ∈ (programmed localApicId a).table, Names localApicId e
        ∧ sentBy e.low = some v)
      ↔ v = InterruptIndex.keyboard.asU8
          ∧ a.globalSystemInterruptBase = 0
          ∧ Names localApicId (keyboardEntry localApicId)
        ∨ ∃ j e, a.last - 1 ≤ j
          ∧ ¬ (a.globalSystemInterruptBase = 0 ∧ j = 1)
          ∧ a.registers.table[j]? = some e ∧ Names localApicId e
          ∧ sentBy e.low = some v := by
  constructor
  · intro h
    obtain ⟨e, he, hnames, hv⟩ := h
    obtain ⟨j, hj⟩ := List.mem_iff_getElem?.mp he
    rw [Apic.programmed_get] at hj
    obtain ⟨e₀, he₀, rfl⟩ := Option.map_eq_some_iff.mp hj
    by_cases hkey : a.globalSystemInterruptBase = 0 ∧ j = 1
    · simp only [if_pos hkey, sentBy_keyboard] at hv hnames
      exact .inl ⟨(Option.some.inj hv).symm, hkey.1, hnames⟩
    · simp only [if_neg hkey] at hv hnames
      by_cases hmask : j < a.last - 1
      · rw [if_pos hmask, sentBy_masked] at hv
        cases hv
      · rw [if_neg hmask] at hv hnames
        exact .inr ⟨j, e₀, by omega, hkey, he₀, hnames, hv⟩
  · intro h
    rcases h with ⟨rfl, hbase, hnames⟩ | ⟨j, e, hj, hkey, he, hnames, hv⟩
    · have hlen : 1 < a.registers.table.length := by
        have hcomplete := a.registers.complete
        unfold IoApic.last at hlast
        omega
      have hget := Apic.programmed_get localApicId a 1
      rw [List.getElem?_eq_getElem hlen, Option.map_some,
        if_pos ⟨hbase, rfl⟩] at hget
      exact ⟨_, List.mem_of_getElem? hget, hnames, sentBy_keyboard⟩
    · exact ⟨e, List.mem_of_getElem? (Apic.unmasked_tail he hj hkey), hnames,
        hv⟩

/-- The vectors that are requested of the processor through a table after
`init_apic`. -/
theorem requests_iff
    (h : initApic physOffset (.apic address ioApics) count c
      = .ok (c', ioApics')) :
    Requests c' ioApics' v
      ↔ v = InterruptIndex.timer.asU8 ∨ v = InterruptIndex.lapicError.asU8
        ∨ v = InterruptIndex.keyboard.asU8 ∧ KeyboardArrives c ioApics
        ∨ Unprogrammed c ioApics v := by
  obtain ⟨-, hlapic, rfl, hlast⟩ := initApic_ok h
  obtain ⟨h188, h200, h204, h208, h212, h216, h220, -, -⟩ :=
    initLapic_read count c.lapic
  rw [← hlapic] at h188 h200 h204 h208 h212 h216 h220
  have htimer : sentBy 0x20020 = some InterruptIndex.timer.asU8 := by decide
  have herror : sentBy 0x122 = some InterruptIndex.lapicError.asU8 := by
    decide
  have hcounters : sentBy 0x10400 = none := by decide
  have hmasked : sentBy 0x10000 = none := by decide
  have htakes : ∀ e, c'.lapic.Takes e ↔ Names (c.lapic.read 8) e := by
    rw [hlapic]
    exact initLapic_takes count c.lapic
  constructor
  · intro hreq
    cases hreq with
    | locally hi hv =>
        simp only [localVectors, List.mem_cons, List.not_mem_nil,
          or_false] at hi
        rcases hi with rfl | rfl | rfl | rfl | rfl | rfl | rfl
        · rw [h188] at hv
          exact .inr (.inr (.inr (.locally (.inl rfl) hv)))
        · rw [h200, htimer] at hv
          exact .inl (Option.some.inj hv).symm
        · rw [h204] at hv
          exact .inr (.inr (.inr (.locally (.inr rfl) hv)))
        · rw [h208, hcounters] at hv
          cases hv
        · rw [h212, hmasked] at hv
          cases hv
        · rw [h216, hmasked] at hv
          cases hv
        · rw [h220, herror] at hv
          exact .inr (.inl (Option.some.inj hv).symm)
    | routed ha he htake hv =>
        obtain ⟨a, hmem, rfl⟩ := List.mem_map.mp ha
        rcases (routed_iff _ (hlast a hmem)).mp
          ⟨_, he, (htakes _).mp htake, hv⟩ with
          ⟨hkey, hbase, hnames⟩ | ⟨j, e, hj, hkey, he, hnames, hv⟩
        · exact .inr (.inr (.inl ⟨hkey, ⟨a, hmem, hbase⟩, hnames⟩))
        · exact .inr (.inr (.inr (.routed hmem hj hkey he hnames hv)))
  · intro hcases
    rcases hcases with rfl | rfl | ⟨rfl, ⟨a, hmem, hbase⟩, hnames⟩ | hleft
    · exact .locally (i := 200) (by decide) (by rw [h200, htimer])
    · exact .locally (i := 220) (by decide) (by rw [h220, herror])
    · obtain ⟨e, he, hnames, hv⟩ :=
        (routed_iff (c.lapic.read 8) (hlast a hmem)).mpr
          (.inl ⟨rfl, hbase, hnames⟩)
      exact .routed (List.mem_map.mpr ⟨a, hmem, rfl⟩) he
        ((htakes e).mpr hnames) hv
    · cases hleft with
      | locally hi hv =>
          rcases hi with rfl | rfl
          · exact .locally (i := 188) (by decide) (by rw [h188, hv])
          · exact .locally (i := 204) (by decide) (by rw [h204, hv])
      | routed hmem hj hkey he hnames hv =>
          obtain ⟨e', he', hnames', hv'⟩ :=
            (routed_iff (c.lapic.read 8) (hlast _ hmem)).mpr
              (.inr ⟨_, _, hj, hkey, he, hnames, hv⟩)
          exact .routed (List.mem_map.mpr ⟨_, hmem, rfl⟩) he'
            ((htakes e').mpr hnames') hv'

/-- Every vector the kernel programs has a handler. -/
theorem idt_isSome (i : InterruptIndex) : (idt i.asU8).isSome = true := by
  cases i <;> decide

/-- After `init_apic`, whatever state the controllers were in before, the
processor is sent the vectors of the timer, of errors and of spurious
interrupts, that of the keyboard if there is a line for it that leads
here, and those of the entries that `init_apic` does not write. So every
vector that is sent has a handler exactly when those of these entries have
one. -/
theorem vectors_sent
    (h : initApic physOffset (.apic address ioApics) count c
      = .ok (c', ioApics')) :
    (∀ v, Sends c' ioApics' v
      ↔ v ∈ [InterruptIndex.timer.asU8, InterruptIndex.lapicError.asU8,
          InterruptIndex.spurious.asU8]
        ∨ v = InterruptIndex.keyboard.asU8 ∧ KeyboardArrives c ioApics
        ∨ Unprogrammed c ioApics v)
    ∧ ((∀ v, Sends c' ioApics' v → (idt v).isSome = true)
      ↔ ∀ v, Unprogrammed c ioApics v → (idt v).isSome = true) := by
  obtain ⟨hpics, hlapic, -, -⟩ := initApic_ok h
  have hgive : ∀ v, Pic.Gives c'.pic1 c'.pic2 2 v
      ↔ v = InterruptIndex.spurious.asU8 := by
    intro v
    have hgive := pics_give (v := v) c.pic1 c.pic2
    rw [← hpics] at hgive
    exact hgive
  have hspurious : ((c'.lapic.read 60).setWidth 8).toFin
      = InterruptIndex.spurious.asU8 := by
    rw [hlapic, (initLapic_read count c.lapic).2.2.2.2.2.2.2.1]
    decide
  have hsends : ∀ v, Sends c' ioApics' v
      ↔ v ∈ [InterruptIndex.timer.asU8, InterruptIndex.lapicError.asU8,
          InterruptIndex.spurious.asU8]
        ∨ v = InterruptIndex.keyboard.asU8 ∧ KeyboardArrives c ioApics
        ∨ Unprogrammed c ioApics v := by
    intro v
    simp only [List.mem_cons, List.not_mem_nil, or_false]
    constructor
    · intro hsent
      cases hsent with
      | requested hreq =>
          rcases (requests_iff h).mp hreq with ht | he | hk | hu
          · exact .inl (.inl ht)
          · exact .inl (.inr (.inl he))
          · exact .inr (.inl hk)
          · exact .inr (.inr hu)
      | spurious => exact .inl (.inr (.inr hspurious))
      | pics hv => exact .inl (.inr (.inr ((hgive v).mp hv)))
    · intro hcases
      rcases hcases with (ht | he | hs) | hk | hu
      · exact .requested ((requests_iff h).mpr (.inl ht))
      · exact .requested ((requests_iff h).mpr (.inr (.inl he)))
      · exact .pics ((hgive v).mpr hs)
      · exact .requested ((requests_iff h).mpr (.inr (.inr (.inl hk))))
      · exact .requested ((requests_iff h).mpr (.inr (.inr (.inr hu))))
  refine ⟨hsends, ?_⟩
  constructor
  · intro hall v hv
    exact hall v ((hsends v).mpr (.inr (.inr hv)))
  · intro hall v hv
    rcases (hsends v).mp hv with hprogrammed | ⟨rfl, -⟩ | hu
    · simp only [List.mem_cons, List.not_mem_nil, or_false] at hprogrammed
      rcases hprogrammed with rfl | rfl | rfl <;> exact idt_isSome _
    · exact idt_isSome .keyboard
    · exact hall v hu

/-- An I/O APIC whose last entry the firmware has left live, at vector
0x40. -/
def firmwareIoApic : IoApic where
  address := 0xFEC00000
  globalSystemInterruptBase := 0
  registers := ⟨0, 2 <<< 16, [⟨0x10000, 0⟩, ⟨0x10000, 0⟩, ⟨0x40, 0⟩],
    by decide⟩

/-- Controllers as they might be found. -/
def foundControllers : Controllers where
  pic1 := ⟨.mask, 8, 4, 1, 0⟩
  pic2 := ⟨.mask, 0x70, 2, 1, 0⟩
  lapic := ⟨fun _ => 0, ⟨InterruptIndex.spurious.asU8, ∅, ∅⟩⟩

/-- `init_apic` returns on a machine with one I/O APIC. -/
theorem initApic_returns {a : IoApic} (haddr : a.Addressable 0x10000000000)
    (hlast : 1 ≤ a.last) : ∃ c' ioApics',
    initApic 0x10000000000 (.apic 0xFEE00000 [a]) 0 foundControllers
      = .ok (c', ioApics') := by
  obtain ⟨p, hp⟩ : ∃ p, Apic.getVirtualAddress 0x10000000000 0xFEE00000
      = .ok p := Apic.getVirtualAddress_ok.mpr (by simp)
  have hround := Apic.initIoApic_eq haddr hlast
    ((initLapic 0 foundControllers.lapic).read 8)
  unfold initApic
  simp only [hp, ok_bind, initIoApics, hround]
  exact ⟨_, _, rfl⟩

/-- Its vector is sent, and has no handler. -/
theorem vectors_sent_firmware : ∃ c' ioApics',
    initApic 0x10000000000 (.apic 0xFEE00000 [firmwareIoApic]) 0
        foundControllers = .ok (c', ioApics')
      ∧ ¬ ∀ v, Sends c' ioApics' v → (idt v).isSome = true := by
  obtain ⟨c', ioApics', hinit⟩ := initApic_returns (a := firmwareIoApic)
    ⟨by decide, by decide, by decide⟩ (by decide)
  refine ⟨c', ioApics', hinit, fun hall => ?_⟩
  have hleft : Unprogrammed foundControllers [firmwareIoApic] 0x40 :=
    .routed (List.mem_singleton_self _) (j := 2) (by decide) (by decide) rfl
      ⟨by decide, .inl (by decide)⟩ (by decide)
  have hhandled := (vectors_sent hinit).2.mp hall 0x40 hleft
  exact absurd hhandled (by decide)

-- ================================================================= serving

/-- The vectors of one level that the kernel programs. -/
def programmedVectors : List Vector :=
  [InterruptIndex.timer.asU8, InterruptIndex.keyboard.asU8,
    InterruptIndex.lapicError.asU8]

theorem programmed_level : ∀ v ∈ programmedVectors, level v = 2 := by
  simp [programmedVectors, level, InterruptIndex.asU8]

/-- The signing off that is still to come. -/
def Serving.pendingEois (s : Serving) : Nat :=
  (s.frames.flatMap Prod.fst).count .sendEoi

/-- The local APIC's own error is accepted. -/
def accepted : Event := .accept InterruptIndex.lapicError.asU8

/-- All handlers but the first to start were entered with interrupts
off. -/
def Nested : List (List Action × Bool) → Prop
  | [] => True
  | f :: rest => (rest ≠ [] → f.2 = false) ∧ Nested rest

/-- What is in service: after an error the error, for ever; before it
nothing, or the one interrupt whose handler has still to sign it off. -/
def InService (failed : Prop) (pending : Nat) (served : Finset Vector) :
    Prop :=
  (failed ∧ pending = 0 ∧ served = {InterruptIndex.lapicError.asU8})
    ∨ (¬ failed ∧ pending = 0 ∧ served = ∅)
    ∨ (¬ failed ∧ pending = 1 ∧ ∃ v, served = {v})

/-- What holds of every state of a run. -/
structure ServingInv (es : List Event) (s : Serving) : Prop where
  priority : s.apic.taskPriority = 0
  requests : ∀ v ∈ s.apic.requests, v ∈ programmedVectors
  nested : Nested s.frames
  off : s.frames ≠ [] → s.on = false
  service : InService (accepted ∈ es) s.pendingEois s.apic.inService

variable {s s' : Serving} {es : List Event}

theorem gate_eois : ∀ g ∈ gates, g.2.body.count .sendEoi
    = if g.1 = InterruptIndex.timer.asU8
        ∨ g.1 = InterruptIndex.keyboard.asU8 then 1 else 0 := by
  decide

/-- Two handlers sign off, and once. -/
theorem actions_eois (v : Vector) : (actions v).count .sendEoi
    = if v = InterruptIndex.timer.asU8 ∨ v = InterruptIndex.keyboard.asU8
        then 1 else 0 := by
  unfold actions idt
  cases hv : gates.lookup v with
  | some h =>
      have hmem : (v, h) ∈ gates := by
        obtain ⟨l, r, hgates, -⟩ := List.lookup_eq_some_iff.mp hv
        rw [hgates]
        exact List.mem_append_right _ (List.mem_cons_self ..)
      exact gate_eois _ hmem
  | none =>
      have hne : ∀ w : Vector, (gates.lookup w).isSome = true → v ≠ w := by
        rintro w hw rfl
        rw [hv] at hw
        cases hw
      rw [if_neg]
      · rfl
      · rintro (rfl | rfl)
        · exact hne _ (by decide) rfl
        · exact hne _ (by decide) rfl

theorem pendingEois_enter (s : Serving) (v : Vector) :
    (s.enter v).pendingEois = (actions v).count .sendEoi + s.pendingEois := by
  unfold Serving.pendingEois Serving.enter
  rw [List.flatMap_cons, List.count_append]

theorem accepted_concat {e : Event} (he : e ≠ accepted) :
    accepted ∈ es ++ [e] ↔ accepted ∈ es := by
  rw [List.mem_append, List.mem_singleton]
  exact or_iff_left (Ne.symm he)

theorem InService.congr {p q : Prop} {n : Nat} {served : Finset Vector}
    (h : InService p n served) (hpq : q ↔ p) : InService q n served := by
  unfold InService at h ⊢
  rwa [hpq]

/-- A handler that signs nothing off starts. -/
theorem ServingInv.entered {e : Event} (h : ServingInv es s)
    (he : e ≠ accepted) {v : Vector} (hv : (actions v).count .sendEoi = 0) :
    ServingInv (es ++ [e]) (s.enter v) where
  priority := h.priority
  requests := h.requests
  nested := ⟨h.off, h.nested⟩
  off _ := rfl
  service := by
    rw [pendingEois_enter, hv, Nat.zero_add]
    exact h.service.congr (accepted_concat he)

/-- The processor accepts what it is offered: there is nothing in service
then, and only the local APIC's own error is never signed off. -/
theorem ServingInv.offered (h : ServingInv es s) (hon : s.on = true)
    (hoffers : s.apic.Offers v) :
    ServingInv (es ++ [.accept v])
      (Serving.enter { s with apic := s.apic.accept v } v) := by
  have hframes : s.frames = [] := by
    by_contra hne
    exact absurd hon (by simp [h.off hne])
  have hnone : s.pendingEois = 0 := by
    unfold Serving.pendingEois
    rw [hframes]
    rfl
  have hmem := h.requests v hoffers.requested
  have hlevel : level v ≤ level InterruptIndex.lapicError.asU8 := by
    rw [programmed_level v hmem]
    decide
  have hidle : accepted ∉ es ∧ s.apic.inService = ∅ := by
    rcases h.service with ⟨-, -, hin⟩ | ⟨hno, -, hin⟩ | ⟨-, hone, -⟩
    · refine absurd hoffers (LocalApic.blocked ?_ hlevel)
      rw [hin]
      exact Finset.mem_singleton_self _
    · exact ⟨hno, hin⟩
    · omega
  have hpending := pendingEois_enter { s with apic := s.apic.accept v } v
  have hsame : Serving.pendingEois { s with apic := s.apic.accept v } = 0 :=
    hnone
  rw [hsame, Nat.add_zero, actions_eois] at hpending
  have hserved : (s.apic.accept v).inService = {v} := by
    show insert v s.apic.inService = {v}
    rw [hidle.2]
    rfl
  refine ⟨h.priority, fun w hw => h.requests w (Finset.mem_of_mem_erase hw),
    ⟨fun hne => absurd hframes hne, h.nested⟩, fun _ => rfl, ?_⟩
  show InService _ _ (s.apic.accept v).inService
  rw [hserved, hpending]
  simp only [programmedVectors, List.mem_cons, List.not_mem_nil,
    or_false] at hmem
  by_cases herror : v = InterruptIndex.lapicError.asU8
  · subst herror
    refine .inl ⟨?_, rfl, rfl⟩
    exact List.mem_append_right _ (List.mem_singleton_self _)
  · have hone : v = InterruptIndex.timer.asU8
        ∨ v = InterruptIndex.keyboard.asU8 := by
      rcases hmem with ht | hk | he
      · exact .inl ht
      · exact .inr hk
      · exact absurd he herror
    rw [if_pos hone]
    refine .inr (.inr ⟨?_, rfl, v, rfl⟩)
    rw [accepted_concat]
    · exact hidle.1
    · intro heq
      exact herror (Event.accept.inj heq)

/-- A handler goes on. -/
theorem ServingInv.acted {a : Action} {rest : List Action} {on : Bool}
    {frames : List (List Action × Bool)} (h : ServingInv es s)
    (hframes : s.frames = (a :: rest, on) :: frames) :
    ServingInv (es ++ [.act])
      (a.run { s with frames := (rest, on) :: frames }) := by
  have hne : Event.act ≠ accepted := by
    intro heq
    cases heq
  have hoff : s.on = false := h.off (by simp [hframes])
  have hnested := h.nested
  rw [hframes] at hnested
  have hcount : s.pendingEois = (rest.count .sendEoi
      + if a = .sendEoi then 1 else 0)
      + (frames.flatMap Prod.fst).count .sendEoi := by
    unfold Serving.pendingEois
    rw [hframes, List.flatMap_cons, List.count_append, List.count_cons]
    simp
  have hrest : Serving.pendingEois { s with frames := (rest, on) :: frames }
      = rest.count .sendEoi + (frames.flatMap Prod.fst).count .sendEoi := by
    unfold Serving.pendingEois
    rw [List.flatMap_cons, List.count_append]
  by_cases heoi : a = .sendEoi
  · subst heoi
    rw [if_pos rfl] at hcount
    refine ⟨h.priority, h.requests, hnested, fun _ => hoff, ?_⟩
    have hpending : Serving.pendingEois (Action.sendEoi.run
        { s with frames := (rest, on) :: frames })
        = rest.count .sendEoi + (frames.flatMap Prod.fst).count .sendEoi :=
      hrest
    rw [hpending]
    refine InService.congr ?_ (accepted_concat hne)
    rcases h.service with ⟨-, hzero, -⟩ | ⟨-, hzero, -⟩ | ⟨hno, hone, v, hin⟩
    · omega
    · omega
    · exact .inr (.inl ⟨hno, by omega, LocalApic.endOfInterrupt_single hin⟩)
  · rw [if_neg heoi, Nat.add_zero] at hcount
    have hsame : (a.run { s with frames := (rest, on) :: frames }).frames
          = (rest, on) :: frames
        ∧ (a.run { s with frames := (rest, on) :: frames }).apic = s.apic
        ∧ (a.run { s with frames := (rest, on) :: frames }).on = s.on := by
      cases a with
      | sendEoi => exact absurd rfl heoi
      | log text => exact ⟨rfl, rfl, rfl⟩
      | panic text => exact ⟨rfl, rfl, rfl⟩
      | schedule => exact ⟨rfl, rfl, rfl⟩
      | readKey => exact ⟨rfl, rfl, rfl⟩
    obtain ⟨hf, ha, ho⟩ := hsame
    have hpending : (a.run { s with frames := (rest, on) :: frames }
        ).pendingEois = s.pendingEois := by
      rw [hcount, ← hrest]
      unfold Serving.pendingEois
      rw [hf]
    refine ⟨by rw [ha]; exact h.priority, by rw [ha]; exact h.requests,
      by rw [hf]; exact hnested, fun _ => by rw [ho]; exact hoff, ?_⟩
    rw [hpending, ha]
    exact h.service.congr (accepted_concat hne)

/-- What the runs after `init_apic` keep, when nothing is left live. -/
theorem servingInv_step (hspurious : ((c.lapic.read 60).setWidth 8).toFin
      = InterruptIndex.spurious.asU8)
    (hquiet : ∀ v, Requests c ioApics v → v ∈ programmedVectors)
    {e : Event} (h : ServingInv es s)
    (hstep : (servingSys c ioApics).step s e s') :
    ServingInv (es ++ [e]) s' := by
  obtain ⟨-, hstep⟩ := hstep
  cases e with
  | request v =>
      obtain ⟨hreq, rfl⟩ := hstep
      refine ⟨h.priority, fun w hw => ?_, h.nested, h.off,
        h.service.congr (accepted_concat (by intro heq; cases heq))⟩
      rcases Finset.mem_insert.mp hw with rfl | hw
      · exact hquiet _ hreq
      · exact h.requests w hw
  | accept v =>
      obtain ⟨hon, hoffers, rfl⟩ := hstep
      exact h.offered hon hoffers
  | spurious =>
      obtain ⟨-, rfl⟩ := hstep
      rw [hspurious]
      exact h.entered (by intro heq; cases heq) (by decide)
  | raise v =>
      obtain ⟨hv, rfl⟩ := hstep
      refine h.entered (by intro heq; cases heq) ?_
      rw [actions_eois, if_neg]
      rintro (rfl | rfl)
      · exact absurd hv (by decide)
      · exact absurd hv (by decide)
  | act =>
      obtain ⟨a, rest, on, frames, hframes, rfl⟩ := hstep
      exact h.acted hframes
  | ret =>
      obtain ⟨on, frames, hframes, rfl⟩ := hstep
      have hnested := h.nested
      rw [hframes] at hnested
      have hsame : Serving.pendingEois { s with on := on, frames := frames }
          = s.pendingEois := by
        unfold Serving.pendingEois
        rw [hframes]
        rfl
      refine ⟨h.priority, h.requests, hnested.2, hnested.1, ?_⟩
      rw [hsame]
      exact h.service.congr (accepted_concat (by intro heq; cases heq))
  | toggle on =>
      obtain ⟨hframes, rfl⟩ := hstep
      refine ⟨h.priority, h.requests, h.nested,
        fun hne => absurd hframes hne, ?_⟩
      exact h.service.congr (accepted_concat (by intro heq; cases heq))

theorem servingInv_run
    (h : initApic physOffset (.apic address ioApics) count c
      = .ok (c', ioApics'))
    (hquiet : ∀ v, ¬ Unprogrammed c ioApics v)
    (hrequests : c.lapic.interrupts.requests = ∅)
    (hidle : c.lapic.interrupts.inService = ∅)
    (hrun : (servingSys c' ioApics').Run es s) : ServingInv es s := by
  obtain ⟨-, hlapic, -, -⟩ := initApic_ok h
  have hspurious : ((c'.lapic.read 60).setWidth 8).toFin
      = InterruptIndex.spurious.asU8 := by
    rw [hlapic, (initLapic_read count c.lapic).2.2.2.2.2.2.2.1]
    decide
  have hprogrammed : ∀ v, Requests c' ioApics' v → v ∈ programmedVectors := by
    intro v hreq
    simp only [programmedVectors, List.mem_cons, List.not_mem_nil, or_false]
    rcases (requests_iff h).mp hreq with ht | he | ⟨hk, -⟩ | hu
    · exact .inl ht
    · exact .inr (.inr he)
    · exact .inr (.inl hk)
    · exact absurd hu (hquiet v)
  refine hrun.history (I := ServingInv) ?_ ?_
  · intro s hs
    obtain rfl : s = ⟨c'.lapic.interrupts, false, [], false⟩ := hs
    obtain ⟨hpriority, hreq, hserved⟩ := initLapic_interrupts count c.lapic
    rw [← hlapic] at hpriority hreq hserved
    refine ⟨hpriority, fun v hv => ?_, trivial, fun hne => absurd rfl hne,
      .inr (.inl ⟨by simp, rfl, hserved.trans hidle⟩)⟩
    exact absurd (hrequests ▸ hreq ▸ hv) (Finset.notMem_empty v)
  · intro es s e s' _ hinv hstep
    exact servingInv_step hspurious hprogrammed hinv hstep

/-- Interrupts are served one at a time, and until the local APIC's own
error is served none is lost: while interrupts are on and there is a
request, one is accepted next, exactly as long as that error has not been
accepted. After it no timer tick and no key arrives any more. -/
theorem interrupt_accepted_iff
    (h : initApic physOffset (.apic address ioApics) count c
      = .ok (c', ioApics'))
    (hquiet : ∀ v, ¬ Unprogrammed c ioApics v)
    (hrequests : c.lapic.interrupts.requests = ∅)
    (hidle : c.lapic.interrupts.inService = ∅)
    (hrun : (servingSys c' ioApics').Run es s) (hlive : s.halted = false)
    (hon : s.on = true) (hreq : s.apic.requests.Nonempty) :
    (∃ v s', (servingSys c' ioApics').step s (.accept v) s')
      ↔ .accept InterruptIndex.lapicError.asU8 ∉ es := by
  have hinv := servingInv_run h hquiet hrequests hidle hrun
  have hframes : s.frames = [] := by
    by_contra hne
    exact absurd hon (by simp [hinv.off hne])
  have hnone : s.pendingEois = 0 := by
    unfold Serving.pendingEois
    rw [hframes]
    rfl
  constructor
  · intro haccept herror
    obtain ⟨v, s', -, -, hoffers, -⟩ := haccept
    have hlevel := programmed_level v (hinv.requests v hoffers.requested)
    rcases hinv.service with ⟨-, -, hin⟩ | ⟨hno, -, -⟩ | ⟨hno, -, -⟩
    · refine LocalApic.blocked (w := InterruptIndex.lapicError.asU8) ?_ ?_
        hoffers
      · rw [hin]
        exact Finset.mem_singleton_self _
      · rw [hlevel]
        decide
    · exact hno herror
    · exact hno herror
  · intro hno
    have hempty : s.apic.inService = ∅ := by
      rcases hinv.service with ⟨hyes, -, -⟩ | ⟨-, -, hin⟩ | ⟨-, hone, -⟩
      · exact absurd hyes hno
      · exact hin
      · omega
    obtain ⟨v, hv⟩ := LocalApic.offers_idle hempty hreq fun w hw => by
      rw [hinv.priority, programmed_level w (hinv.requests w hw)]
      decide
    exact ⟨v, _, hlive, hon, hv, rfl⟩

/-- An I/O APIC that the firmware has left with all entries masked. -/
def quietIoApic : IoApic where
  address := 0xFEC00000
  globalSystemInterruptBase := 0
  registers := ⟨0, 2 <<< 16, List.replicate 3 ⟨0x10000, 0⟩, by decide⟩

theorem quiet (v : Vector) :
    ¬ Unprogrammed foundControllers [quietIoApic] v := by
  have hzero : sentBy 0 = none := by decide
  have hmasked : sentBy 0x10000 = none := by decide
  intro h
  cases h with
  | locally _ hv =>
      have hv' : sentBy 0 = some v := hv
      rw [hzero] at hv'
      cases hv'
  | routed hmem _ _ he _ hv =>
      obtain rfl := List.mem_singleton.mp hmem
      have hlow := List.eq_of_mem_replicate (List.mem_of_getElem? he)
      rw [hlow, hmasked] at hv
      cases hv

/-- A tick that arrives once interrupts are on is served. -/
theorem interrupt_accepted_iff_quiet : ∃ c' ioApics' s,
    initApic 0x10000000000 (.apic 0xFEE00000 [quietIoApic]) 0
        foundControllers = .ok (c', ioApics')
      ∧ (servingSys c' ioApics').Run
        [.toggle true, .request InterruptIndex.timer.asU8] s
      ∧ ∃ v s', (servingSys c' ioApics').step s (.accept v) s' := by
  obtain ⟨c', ioApics', hinit⟩ := initApic_returns (a := quietIoApic)
    ⟨by decide, by decide, by decide⟩ (by decide)
  have hstart : (servingSys c' ioApics').Run []
      ⟨c'.lapic.interrupts, false, [], false⟩ := .start rfl
  have hon : (servingSys c' ioApics').Run ([] ++ [.toggle true])
      ⟨c'.lapic.interrupts, true, [], false⟩ :=
    hstart.step ⟨rfl, rfl, rfl⟩
  have htick : Requests c' ioApics' InterruptIndex.timer.asU8 :=
    (requests_iff hinit).mpr (.inl rfl)
  have hrun : (servingSys c' ioApics').Run
      ([] ++ [.toggle true] ++ [.request InterruptIndex.timer.asU8])
      ⟨c'.lapic.interrupts.request InterruptIndex.timer.asU8, true, [],
        false⟩ := hon.step ⟨rfl, htick, rfl⟩
  refine ⟨c', ioApics', _, hinit, hrun, ?_⟩
  refine (interrupt_accepted_iff hinit quiet rfl rfl hrun rfl rfl
    ⟨_, Finset.mem_insert_self ..⟩).mpr ?_
  simp

end Bayos.Interrupts
