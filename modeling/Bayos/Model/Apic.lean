/-
The I/O APICs: the last loop of `init_apic` in `kernel/src/int.rs`.

# The device

An I/O APIC is programmed through two registers of its address space: the
select register takes the number of an internal register, and the window
register, 16 bytes on, reads and writes the one selected. Register 1 is
the version, with the number of the last redirection entry in bits 16-23;
entry `i` of the redirection table is registers `0x10 + 2 * i` and
`0x11 + 2 * i`, its low and its high word. A register the loop neither
reads nor writes reads as zero here.

Each listed I/O APIC has registers of its own. The rest of `init_apic`
programs other devices and ends before the loop.
-/
import Bayos.Lib.Rust

namespace Bayos.Apic

open Rust

/-- `u32`. -/
abbrev Word32 := BitVec 32

-- ============================================================== the device

/-- An entry of a redirection table. -/
structure Entry where
  low : Word32
  high : Word32
  deriving DecidableEq

/-- Bits 16-23 of a version register: the number of the last entry. -/
def maxEntry (version : Word32) : Nat := ((version >>> 16) &&& 0xFF).toNat

/-- The registers of an I/O APIC. The table has one entry more than the
number of its last. -/
structure Registers where
  ioregsel : Nat
  version : Word32
  table : List Entry
  complete : table.length = maxEntry version + 1

/-- A write to the select register. -/
def Registers.select (r : Registers) (register : Nat) : Registers :=
  { r with ioregsel := register }

/-- A read of the window register. -/
def Registers.read (r : Registers) : Word32 :=
  if r.ioregsel = 1 then r.version
  else if r.ioregsel < 0x10 then 0
  else
    match r.table[(r.ioregsel - 0x10) / 2]? with
    | some e => if r.ioregsel % 2 = 0 then e.low else e.high
    | none => 0

/-- A word of an entry replaced: the low one for an even register number,
the high one for an odd. -/
def Entry.put (register : Nat) (value : Word32) (e : Entry) : Entry :=
  if register % 2 = 0 then { e with low := value }
  else { e with high := value }

/-- A write to the window register. The version is read-only. -/
def Registers.write (r : Registers) (value : Word32) : Registers :=
  if r.ioregsel < 0x10 then r
  else
    { r with
      table := r.table.modify ((r.ioregsel - 0x10) / 2)
        (Entry.put r.ioregsel value)
      complete := (List.length_modify ..).trans r.complete }

-- ================================================================ the loop

/-- An entry of `apic.io_apics`, with the registers at its address. -/
structure IoApic where
  address : Nat
  globalSystemInterruptBase : Word32
  registers : Registers

/-- `InterruptIndex::Keyboard`. -/
def keyboard : Word32 := 33

/-- `memory::get_virtual_address`, for the physical memory mapped at
`physOffset`. -/
def getVirtualAddress (physOffset : BitVec 64) (physicalAddress : Nat) :
    Except Panic (BitVec 64) :=
  let virtual := physOffset + BitVec.ofNat 64 physicalAddress
  unwrap (if virtual = 0 then none else some virtual)

/-- The body of the loop `for i in 0..num_of_irqs`. -/
def maskIrq (r : Registers) (i : Nat) : Registers :=
  let r := (r.select (0x10 + i * 2)).write (1 <<< 16)
  (r.select (0x11 + i * 2)).write 0

/-- The keyboard's entry. -/
def routeKeyboard (r : Registers) (localApicId : Word32) : Registers :=
  let r := (r.select 0x12).write keyboard
  (r.select 0x13).write (localApicId <<< 24)

/-- `try_into` to a `u8`, unwrapped. -/
def intoU8 (n : Nat) : Except Panic Nat :=
  if n < 256 then .ok n
  else .error (.message "called `Result::unwrap()` on an `Err` value")

/-- One round of the loop `for io_apic in apic.io_apics`. -/
def initIoApic (physOffset : BitVec 64) (localApicId : Word32)
    (ioApic : IoApic) : Except Panic IoApic := do
  let _ ← getVirtualAddress physOffset ioApic.address
  let window ← U32.add ioApic.address 16
  let _ ← getVirtualAddress physOffset window
  let r := ioApic.registers.select 1
  let count ← U32.sub ((r.read >>> 16) &&& 0xFF).toNat 1
  let numOfIrqs ← intoU8 count
  -- mask all irqs in ioapic
  let r := (List.range numOfIrqs).foldl maskIrq r
  let r := if ioApic.globalSystemInterruptBase = 0
    then routeKeyboard r localApicId else r
  pure { ioApic with registers := r }

/-- The loop, with the value of `lapic[8]` it closes over. -/
def initIoApics (physOffset : BitVec 64) (localApicId : Word32) :
    List IoApic → Except Panic (List IoApic)
  | [] => pure []
  | ioApic :: rest => do
      let ioApic ← initIoApic physOffset localApicId ioApic
      let rest ← initIoApics physOffset localApicId rest
      pure (ioApic :: rest)

end Bayos.Apic
