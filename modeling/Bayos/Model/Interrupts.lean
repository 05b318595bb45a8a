/-
Interrupts: the descriptor table, the handlers and `init_apic` of
`kernel/src/int.rs`. The loop of `init_apic` over the I/O APICs is in
`Model/Apic.lean`.

# The local APIC

`LAPIC` is its registers as an array of words. They keep what is written
to them, but for the one that signs an interrupt off. The timer's current
count moves by itself; `init_apic` reads it once, and what it reads is a
parameter.

# Handlers

A handler is what it does to the controllers and to the log, in order.
The frame that is printed after the text of an exception is left out. All
gates of the table are interrupt gates, so a handler runs with interrupts
off.

# What is left out

The delay that the timer is measured by: its ports belong to no
controller. The input pipe is made once, at the end.
-/
import Bayos.Lib.Interrupts
import Bayos.Lib.Run
import Bayos.Model.Apic

namespace Bayos.Interrupts

open Rust
open Lib (TransSys)
open Lib.Interrupts
open Bayos.Apic (Word32 IoApic getVirtualAddress initIoApics)

-- ============================================================= the vectors

/-- `InterruptIndex`. -/
inductive InterruptIndex
  | timer
  | keyboard
  | lapicError
  | spurious
  deriving DecidableEq

/-- `InterruptIndex::as_u8`. -/
def InterruptIndex.asU8 : InterruptIndex → Vector
  | .timer => 32
  | .keyboard => 33
  | .lapicError => 34
  | .spurious => 0xFF

/-- `InterruptIndex::as_u32`. -/
def InterruptIndex.asU32 (i : InterruptIndex) : Word32 :=
  BitVec.ofNat 32 i.asU8

/-- What a handler does. -/
inductive Action
  | sendEoi
  | log (text : String)
  | panic (text : String)
  | schedule
  | readKey
  deriving DecidableEq

/-- The handlers. -/
inductive Handler
  | divideError
  | debug
  | nonMaskableInterrupt
  | breakpoint
  | overflow
  | boundRangeExceeded
  | invalidOpcode
  | deviceNotAvailable
  | doubleFault
  | invalidTss
  | segmentNotPresent
  | stackSegmentFault
  | generalProtectionFault
  | pageFault
  | x87FloatingPoint
  | alignmentCheck
  | machineCheck
  | simdFloatingPoint
  | virtualization
  | cpProtection
  | hvInjection
  | vmmCommunication
  | security
  | timer
  | keyboard
  | lapicError
  | spuriousInterrupt
  deriving DecidableEq

/-- The functions behind them. -/
def Handler.body : Handler → List Action
  | .divideError => [.panic "EXCEPTION: DIVIDE ERROR"]
  | .debug => [.log "EXCEPTION: DEBUG"]
  | .nonMaskableInterrupt => [.panic "EXCEPTION: NON MASKABLE INTERRUPT"]
  | .breakpoint => [.log "EXCEPTION: BREAKPOINT"]
  | .overflow => [.panic "EXCEPTION: OVERFLOW"]
  | .boundRangeExceeded => [.panic "EXCEPTION: BOUND RANGE EXCEEDED"]
  | .invalidOpcode => [.panic "EXCEPTION: INVALID OPCODE"]
  | .deviceNotAvailable => [.panic "EXCEPTION: DEVICE NOT AVAILABLE"]
  | .doubleFault => [.panic "EXCEPTION: DOUBLE FAULT"]
  | .invalidTss => [.panic "EXCEPTION: INVALID TSS"]
  | .segmentNotPresent => [.panic "EXCEPTION: SEGMENT NOT PRESENT"]
  | .stackSegmentFault => [.panic "EXCEPTION: STACK SEGMENT FAULT"]
  | .generalProtectionFault => [.panic "EXCEPTION: GENERAL PROTECTION FAULT"]
  | .pageFault => [.panic "EXCEPTION: PAGE FAULT"]
  | .x87FloatingPoint => [.panic "EXCEPTION: X87 FLOATING POINT"]
  | .alignmentCheck => [.panic "EXCEPTION: ALIGMENT CHECK"]
  | .machineCheck => [.panic "EXCEPTION: MACHINE CHECK"]
  | .simdFloatingPoint => [.panic "EXCEPTION: SIMD FLOATING POINT"]
  | .virtualization => [.panic "EXCEPTION: VIRTUALIZATION"]
  | .cpProtection => [.panic "EXCEPTION: CP PROTECTION"]
  | .hvInjection => [.panic "EXCEPTION: HV INJECTION"]
  | .vmmCommunication => [.panic "EXCEPTION: VMM COMMUNICATION"]
  | .security => [.panic "EXCEPTION: SECURITY"]
  | .timer => [.sendEoi, .schedule]
  | .keyboard => [.sendEoi, .readKey]
  | .lapicError => [.log "lapic internal"]
  | .spuriousInterrupt => [.log "spurious interrupt"]

/-- The entries that are set. -/
def gates : List (Vector × Handler) :=
  [ (0, .divideError)
  , (1, .debug)
  , (2, .nonMaskableInterrupt)
  , (3, .breakpoint)
  , (4, .overflow)
  , (5, .boundRangeExceeded)
  , (6, .invalidOpcode)
  , (7, .deviceNotAvailable)
  , (8, .doubleFault)
  , (10, .invalidTss)
  , (11, .segmentNotPresent)
  , (12, .stackSegmentFault)
  , (13, .generalProtectionFault)
  , (14, .pageFault)
  , (16, .x87FloatingPoint)
  , (17, .alignmentCheck)
  , (18, .machineCheck)
  , (19, .simdFloatingPoint)
  , (20, .virtualization)
  , (21, .cpProtection)
  , (28, .hvInjection)
  , (29, .vmmCommunication)
  , (30, .security)
  , (InterruptIndex.timer.asU8, .timer)
  , (InterruptIndex.keyboard.asU8, .keyboard)
  , (InterruptIndex.lapicError.asU8, .lapicError)
  , (InterruptIndex.spurious.asU8, .spuriousInterrupt) ]

/-- `IDT`. -/
def idt (v : Vector) : Option Handler := gates.lookup v

-- ========================================================= the controllers

/-- The local APIC. -/
structure Lapic where
  registers : Nat → Word32
  interrupts : LocalApic

/-- `lapic[i]`. -/
def Lapic.read (l : Lapic) (i : Nat) : Word32 := l.registers i

/-- `lapic[i] = value`. -/
def Lapic.write (l : Lapic) (i : Nat) (value : Word32) : Lapic :=
  if i = 44 then { l with interrupts := l.interrupts.endOfInterrupt }
  else if i = 32 then
    { registers := Function.update l.registers i value
      interrupts := { l.interrupts with
        taskPriority := (value.setWidth 8).toFin } }
  else { l with registers := Function.update l.registers i value }

/-- `send_eoi`. -/
def sendEoi (lapic : Lapic) : Lapic := lapic.write 44 0x0

/-- The two 8259As and the local APIC. -/
structure Controllers where
  pic1 : Pic
  pic2 : Pic
  lapic : Lapic

/-- The writes to the ports of the 8259As. -/
def disablePic (pic1 pic2 : Pic) : Pic × Pic :=
  let pic1 := pic1.command 0x11
  let pic2 := pic2.command 0x11
  -- remap the pic
  -- so spurious interrupt arrives at 0xFF
  let pic1 := pic1.data 0xF8
  let pic2 := pic2.data 0xF0
  let pic1 := pic1.data 0x4
  let pic2 := pic2.data 0x2
  let pic1 := pic1.data 0x1
  let pic2 := pic2.data 0x1
  let pic1 := pic1.data 0xff
  let pic2 := pic2.data 0xff
  (pic1, pic2)

/-- The writes to the local APIC; `count` is what the timer has counted
down to when its 10 ms are over. -/
def initLapic (count : Word32) (lapic : Lapic) : Lapic :=
  -- initialize lapic to well known state
  let lapic := lapic.write 56 0xFFFFFFFF
  let lapic := lapic.write 52 ((lapic.read 52 &&& 0xFFFFFF) ||| 0x1)
  let lapic := lapic.write 200 0x10000
  let lapic := lapic.write 208 ((4 <<< 8) ||| (1 <<< 16))
  let lapic := lapic.write 212 0x10000
  let lapic := lapic.write 216 0x10000
  let lapic := lapic.write 32 0x0
  -- set lapic internal error vector
  let lapic := lapic.write 220 (InterruptIndex.lapicError.asU32 ||| 0x100)
  -- set spurious interrupt vector
  let lapic := lapic.write 60 (InterruptIndex.spurious.asU32 ||| 0x100)
  let lapic := lapic.write 200 InterruptIndex.timer.asU32
  let lapic := lapic.write 248 0x3
  let lapic := lapic.write 200 (lapic.read 200 ||| 0x10000)
  let lapic := lapic.write 224 0xffffffff
  -- stop lapic timer
  let lapic := lapic.write 200 0x10000
  let ticksIn10ms := 0xffffffff - count
  -- set apic timer periodic
  let lapic := lapic.write 200 (InterruptIndex.timer.asU32 ||| 0x20000)
  let lapic := lapic.write 248 0x3
  lapic.write 224 ticksIn10ms

/-- `InterruptModel`. -/
inductive InterruptModel
  | unknown
  | apic (localApicAddress : Nat) (ioApics : List IoApic)

/-- `init_apic`, with physical memory mapped at `physOffset`. -/
def initApic (physOffset : BitVec 64) (interruptModel : InterruptModel)
    (count : Word32) (c : Controllers) :
    Except Panic (Controllers × List IoApic) :=
  let (pic1, pic2) := disablePic c.pic1 c.pic2
  match interruptModel with
  | .unknown => .error (.message "Interrupt Model is not APIC")
  | .apic localApicAddress ioApics => do
      let _ ← getVirtualAddress physOffset localApicAddress
      let lapic := initLapic count c.lapic
      let ioApics ← initIoApics physOffset (lapic.read 8) ioApics
      pure (⟨pic1, pic2, lapic⟩, ioApics)

-- ============================================================ what is sent

/-- The vector that an entry of a local vector table or of a redirection
table sends: none while the entry is masked; in fixed mode and in that of
the lowest priority its vector, unless that is one of the first 16, which
are illegal; and that of a non-maskable interrupt in that mode. The other
modes send no vector of theirs. -/
def sentBy (entry : Word32) : Option Vector :=
  if entry.getLsbD 16 then none
  else
    match ((entry >>> 8) &&& 7).toNat with
    | 0 | 1 =>
        let v : Vector := (entry.setWidth 8).toFin
        if v < 16 then none else some v
    | 4 => some 2
    | _ => none

/-- The local vector table: corrected machine checks, the timer, the
thermal sensor, the performance counters, the two local lines and
errors. -/
def localVectors : List Nat := [188, 200, 204, 208, 212, 216, 220]

/-- The local APIC is a destination of a redirection entry, which names
an ID or all of them; or, in logical mode, logical IDs, one bit for each,
as in the flat model that `init_apic` chooses. -/
def Lapic.Takes (l : Lapic) (e : Apic.Entry) : Prop :=
  if e.low.getLsbD 11 then (e.high >>> 24) &&& (l.read 52 >>> 24) ≠ 0
  else e.high >>> 24 = l.read 8 >>> 24 ∨ e.high >>> 24 = 0xFF

/-- The vectors that are requested of the processor through a table. -/
inductive Requests (c : Controllers) (ioApics : List IoApic) :
    Vector → Prop
  | locally {i : Nat} {v : Vector} : i ∈ localVectors →
      sentBy (c.lapic.read i) = some v → Requests c ioApics v
  | routed {a : IoApic} {e : Apic.Entry} {v : Vector} : a ∈ ioApics →
      e ∈ a.registers.table → c.lapic.Takes e → sentBy e.low = some v →
      Requests c ioApics v

/-- All vectors that reach the processor from outside. -/
inductive Sends (c : Controllers) (ioApics : List IoApic) : Vector → Prop
  | requested {v : Vector} : Requests c ioApics v → Sends c ioApics v
  | spurious : Sends c ioApics ((c.lapic.read 60).setWidth 8).toFin
  | pics {v : Vector} : Pic.Gives c.pic1 c.pic2 2 v → Sends c ioApics v

-- ================================================================= serving

/-- The processor as far as interrupts go: the state of its local APIC,
whether interrupts are on, and the handlers that run, the last to start
first, each with the actions that it has left and with what becomes of
interrupts when it returns. A panic halts. -/
structure Serving where
  apic : LocalApic
  on : Bool
  frames : List (List Action × Bool)
  halted : Bool

/-- What happens. -/
inductive Event
  | request (v : Vector)
  | accept (v : Vector)
  | spurious
  | raise (v : Vector)
  | act
  | ret
  | toggle (on : Bool)
  deriving DecidableEq

/-- The actions behind a vector; an entry that is not set raises an
exception of its own. -/
def actions (v : Vector) : List Action :=
  ((idt v).getD .segmentNotPresent).body

/-- The effect of an action. -/
def Action.run (a : Action) (s : Serving) : Serving :=
  match a with
  | .sendEoi => { s with apic := s.apic.endOfInterrupt }
  | .panic _ => { s with halted := true }
  | _ => s

/-- The handler of a vector starts. -/
def Serving.enter (s : Serving) (v : Vector) : Serving :=
  { s with on := false, frames := (actions v, s.on) :: s.frames }

/-- The processor after `init_apic`: requests arrive at any time,
interrupts are accepted while they are on, exceptions are raised by any
code, and code that is no handler turns interrupts on and off. -/
def servingSys (c : Controllers) (ioApics : List IoApic) :
    TransSys Serving Event where
  init s := s = ⟨c.lapic.interrupts, false, [], false⟩
  step s e s' := s.halted = false ∧
    match e with
    | .request v => Requests c ioApics v
        ∧ s' = { s with apic := s.apic.request v }
    | .accept v => s.on = true ∧ s.apic.Offers v
        ∧ s' = { s with apic := s.apic.accept v }.enter v
    | .spurious => s.on = true
        ∧ s' = s.enter ((c.lapic.read 60).setWidth 8).toFin
    | .raise v => v < 32 ∧ s' = s.enter v
    | .act => ∃ a rest on frames, s.frames = (a :: rest, on) :: frames
        ∧ s' = a.run { s with frames := (rest, on) :: frames }
    | .ret => ∃ on frames, s.frames = ([], on) :: frames
        ∧ s' = { s with on := on, frames := frames }
    | .toggle on => s.frames = [] ∧ s' = { s with on := on }

end Bayos.Interrupts
