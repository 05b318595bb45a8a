/-
Interrupt controllers of a PC, as the programs that set them up see them:
the 8259A with its initialisation words, and the interrupt state of a
local APIC.

# The 8259A

A word written to the command port with bit 4 set starts the
initialisation, whatever the chip was doing. The data port then takes two
to four initialisation words in order, and after them the mask. So a
program that writes a whole sequence need not know what was there before
(`Pic.initialised`).

# The local APIC

A request waits until the processor accepts it. From then on the
interrupt is in service, until the processor signs it off. The upper four
bits of a vector are its level, and an interrupt is offered to the
processor only if its level is above the task priority's and above that
of every interrupt in service. An interrupt that is never signed off
keeps its level, and all below it, from the processor (`blocked`).
-/
import Mathlib.Data.Finset.Lattice.Fold
import Mathlib.Data.Finset.Max
import Mathlib.Data.Fintype.Basic
import Mathlib.Order.Lattice.Nat

namespace Lib.Interrupts

/-- A vector of an interrupt. -/
abbrev Vector := Fin 256

abbrev Byte := BitVec 8

-- =============================================================== the 8259A

/-- What the data port of an 8259A takes next: the vector base, the
cascade, the mode, or the mask. `single` says that there is no cascade
word, `mode` that there is a mode word. -/
inductive Stage
  | base (single mode : Bool)
  | cascade (mode : Bool)
  | mode
  | mask
  deriving DecidableEq

/-- An 8259A. -/
structure Pic where
  stage : Stage
  base : Byte
  cascade : Byte
  mode : Byte
  mask : Byte
  deriving DecidableEq

namespace Pic

/-- After the cascade word. -/
def afterCascade (mode : Bool) : Stage := if mode then .mode else .mask

/-- A write to the command port. Words without bit 4 set neither mask a
line nor move a vector. -/
def command (p : Pic) (value : Byte) : Pic :=
  if value.getLsbD 4 then
    { p with
      stage := .base (value.getLsbD 1) (value.getLsbD 0)
      mode := 0
      mask := 0 }
  else p

/-- A write to the data port. The low three bits of a vector are the
line's. -/
def data (p : Pic) (value : Byte) : Pic :=
  match p.stage with
  | .base true m =>
      { p with stage := afterCascade m, base := value &&& 0xF8 }
  | .base false m => { p with stage := .cascade m, base := value &&& 0xF8 }
  | .cascade m => { p with stage := afterCascade m, cascade := value }
  | .mode => { p with stage := .mask, mode := value }
  | .mask => { p with mask := value }

/-- The vector of a line. -/
def vector (p : Pic) (line : Fin 8) : Vector :=
  (p.base + BitVec.ofNat 8 line).toFin

/-- The line is masked. -/
def Masked (p : Pic) (line : Fin 8) : Prop := p.mask.getLsbD line = true

instance (p : Pic) (line : Fin 8) : Decidable (p.Masked line) :=
  inferInstanceAs (Decidable (_ = _))

/-- A whole sequence sets the chip up, from any state. -/
theorem initialised (p : Pic) (base cascade mode mask : Byte) :
    ((((p.command 0x11).data base).data cascade).data mode).data mask
      = ⟨.mask, base &&& 0xF8, cascade, mode, mask⟩ := rfl

/-- A chip that could not know what it asks for gives its last vector. -/
def last : Fin 8 := 7

end Pic

/-- The vectors a pair of chips can give, the second one behind a line of
the first. A request that is withdrawn is given as the last line's,
masked or not. -/
inductive Pic.Gives (first second : Pic) (behind : Fin 8) : Vector → Prop
  | withdrawn : Gives first second behind (first.vector Pic.last)
  | line {i : Fin 8} : i ≠ behind → ¬ first.Masked i →
      Gives first second behind (first.vector i)
  | second {i : Fin 8} : ¬ first.Masked behind →
      i = Pic.last ∨ ¬ second.Masked i →
      Gives first second behind (second.vector i)

/-- With all lines masked only a request that was withdrawn is left. -/
theorem Pic.gives_masked {first second : Pic} {behind : Fin 8} {v : Vector}
    (hmasked : ∀ i, first.Masked i) (h : Pic.Gives first second behind v) :
    v = first.vector Pic.last := by
  cases h with
  | withdrawn => rfl
  | line _ hopen => exact absurd (hmasked _) hopen
  | second hopen _ => exact absurd (hmasked _) hopen

-- ========================================================== the local APIC

/-- The level of a vector. -/
def level (v : Vector) : Nat := v / 16

/-- The interrupt state of a local APIC. -/
structure LocalApic where
  taskPriority : Vector
  requests : Finset Vector
  inService : Finset Vector
  deriving DecidableEq

namespace LocalApic

variable {s : LocalApic} {v w : Vector}

/-- The level that an interrupt has to be above. -/
def processorLevel (s : LocalApic) : Nat :=
  max (level s.taskPriority) (s.inService.sup level)

/-- A request arrives. -/
def request (s : LocalApic) (v : Vector) : LocalApic :=
  { s with requests := insert v s.requests }

/-- The interrupt that is offered to the processor. -/
structure Offers (s : LocalApic) (v : Vector) : Prop where
  requested : v ∈ s.requests
  highest : ∀ w ∈ s.requests, w ≤ v
  above : s.processorLevel < level v

/-- The processor accepts an interrupt. -/
def accept (s : LocalApic) (v : Vector) : LocalApic :=
  { s with
    requests := s.requests.erase v
    inService := insert v s.inService }

/-- The processor signs off the highest interrupt in service. -/
def endOfInterrupt (s : LocalApic) : LocalApic :=
  { s with inService := s.inService.filter fun v => ∃ w ∈ s.inService, v < w }

/-- With nothing in service the highest request is offered, if it is
above the task priority. -/
theorem offers_idle (hidle : s.inService = ∅) (hreq : s.requests.Nonempty)
    (habove : ∀ v ∈ s.requests, level s.taskPriority < level v) :
    ∃ v, s.Offers v := by
  obtain ⟨v, hv, hmax⟩ := s.requests.exists_max_image id hreq
  refine ⟨v, hv, hmax, ?_⟩
  unfold processorLevel
  rw [hidle, Finset.sup_empty]
  simpa using habove v hv

/-- An interrupt in service keeps its level from the processor. -/
theorem blocked (hw : w ∈ s.inService) (hle : level v ≤ level w) :
    ¬ s.Offers v := by
  intro hoffers
  have hsup : level w ≤ s.inService.sup level :=
    Finset.le_sup (f := level) hw
  have habove := hoffers.above
  unfold processorLevel at habove
  omega

/-- The only interrupt in service is signed off. -/
theorem endOfInterrupt_single (h : s.inService = {v}) :
    s.endOfInterrupt.inService = ∅ := by
  unfold endOfInterrupt
  simp [h]

end LocalApic

end Lib.Interrupts
