/-
The handlers that log: the interrupts and exceptions of
`kernel/src/int.rs` that call `log::info!`, `log::warn!` or
`log::error!`, and the panic handler of `kernel/src/main.rs`.

# Strikes

They come on top of the kernel of `Model/Locking.lean`. An interrupt is
accepted while interrupts are on, as there; an exception strikes between
any two steps, whether they are on or not. Either way the handler starts
with interrupts off, and its return restores the flag.

# Panics

A panic does what the panic handler does, wherever it happens: it turns
interrupts off, logs, and halts. It drops no guards. In particular a
panic inside a log call logs again.
-/
import Bayos.Model.Locking

namespace Bayos.Logging

open Lib Lib.Irq
open Locking

/-- The exceptions whose handlers panic. -/
inductive Fatal
  | divideError
  | nonMaskableInterrupt
  | overflow
  | boundRangeExceeded
  | invalidOpcode
  | deviceNotAvailable
  | doubleFault
  | invalidTss
  | segmentNotPresent
  | stackSegmentFault
  | generalProtectionFault
  | pageFault
  | x87FloatingPoint
  | alignmentCheck
  | machineCheck
  | simdFloatingPoint
  | virtualization
  | cpProtection
  | hvInjection
  | vmmCommunication
  | security
  deriving DecidableEq, Repr

/-- What may arrive besides the interrupts of devices. -/
inductive Strike
  | spurious
  | lapicError
  | debug
  | breakpoint
  | fatal (e : Fatal)
  deriving DecidableEq, Repr

/-- Arrives only while interrupts are on. -/
def Strike.maskable : Strike → Bool
  | .spurious | .lapicError => true
  | .debug | .breakpoint | .fatal _ => false

/-- `spurious_interrupt_handler`, `lapic_error_handler`, `debug_handler`
and `breakpoint_handler` log; all others panic. -/
def Strike.handler : Strike → Code
  | .spurious | .lapicError | .debug | .breakpoint => log
  | .fatal _ => .panic

abbrev KernelFrame := Irq.Frame Lock Program Action Test

abbrev KernelState := Irq.State Lock Program Action Test Dead

/-- What is left to do by a panic: `log::error!`, and then `hcf`. -/
def panicHandler : List KernelFrame := [.run log, .halted]

/-- A step, an interrupt of a device, or a strike. -/
inductive Event
  | step (left : Bool)
  | interrupt (h : Interrupt)
  | strike (h : Strike)

/-- The state the handler of a strike starts in. -/
def struck (s : KernelState) (h : Strike) : KernelState :=
  { s.goto (.run h.handler :: .iret s.on :: s.stack) with on := false }

/-- One step of the kernel. -/
def step (code : Program → Code) (s : KernelState) :
    Event → Option KernelState
  | .step left =>
      match s.stack with
      | .run .panic :: K =>
          some { s.goto (panicHandler ++ K) with on := false }
      | _ => (kernel code).step s (.step left)
  | .interrupt h => (kernel code).step s (.interrupt h)
  | .strike h => if h.maskable && !s.on then none else some (struck s h)

/-- The kernel under strikes, from a given state on. -/
def loggingSys (code : Program → Code) (first : KernelState) :
    TransSys KernelState Event where
  init s := s = first
  step s e s' := step code s e = some s'

/-- Let the current thread do `n` usual steps. -/
def advance (code : Program → Code) : Nat → KernelState → Option KernelState
  | 0, s => some s
  | n + 1, s => (step code s (.step s.usual)).bind (advance code n)

end Bayos.Logging
