/-
The part of the x86-64 instruction set that entry stubs are made of:
pushes, pops and moves between registers, calls of compiled functions,
and the two returns to interrupted code.

# Compiled functions

A stub calls functions that a compiler produced. Such a function is a
map from the machine at its first instruction to the machine after its
`ret`; what the System V calling convention promises of it is `Returns`.
`exec` goes on after a call only if the function came back to the
instruction after it, so `exec` gives `none` when control is lost.

# Blocks

Runs of pushes and of pops are described at once, by `pushWords` and
`popAll`: the words they leave on the stack and the words they take off
it are lists.
-/
import Bayos.Lib.Bytes

namespace Lib.X86

/-- The general registers. -/
inductive Reg
  | rax | rcx | rdx | rbx | rsp | rbp | rsi | rdi
  | r8 | r9 | r10 | r11 | r12 | r13 | r14 | r15
  deriving DecidableEq, Repr

/-- The register file of a computation. -/
@[ext] structure Context where
  regs : Reg → Word
  rip : Word
  cs : BitVec 16
  ss : BitVec 16
  rflags : Word

/-- The processor and its memory. `rip` is kept up to date at transfers
of control only: between them it is not read. -/
structure Machine extends Context where
  mem : Mem

/-- Bit 9 of `rflags`. -/
def interruptFlag : Word := 0x200

namespace Machine

/-- `m` with `v` in register `r`. -/
def set (m : Machine) (r : Reg) (v : Word) : Machine :=
  { m with regs := fun q => if q = r then v else m.regs q }

def push (m : Machine) (v : Word) : Machine :=
  { m.set .rsp (m.regs .rsp - 8) with
    mem := m.mem.write (m.regs .rsp - 8) v }

def pop (m : Machine) (r : Reg) : Machine :=
  (m.set .rsp (m.regs .rsp + 8)).set r (m.mem.read (m.regs .rsp) 64)

@[simp] theorem set_self (m : Machine) (r : Reg) (v : Word) :
    (m.set r v).regs r = v := if_pos rfl

theorem set_of_ne (m : Machine) {q r : Reg} (h : q ≠ r) (v : Word) :
    (m.set r v).regs q = m.regs q := if_neg h

-- ============================================================ instructions

/-- Push words in order. -/
def pushWords : List Word → Machine → Machine
  | [], m => m
  | v :: vs, m => pushWords vs (m.push v)

/-- `iretq`: RIP, CS, RFLAGS, RSP and SS from the stack, two bytes each
of the selectors. -/
def iretq (m : Machine) : Machine where
  regs q := if q = .rsp then m.mem.read (m.regs .rsp + 24) 64 else m.regs q
  rip := m.mem.read (m.regs .rsp) 64
  cs := m.mem.read (m.regs .rsp + 8) 16
  ss := m.mem.read (m.regs .rsp + 32) 16
  rflags := m.mem.read (m.regs .rsp + 16) 64
  mem := m.mem

theorem iretq_regs_of_ne (m : Machine) {q : Reg} (h : q ≠ .rsp) :
    m.iretq.regs q = m.regs q := if_neg h

end Machine

/-- The model-specific registers that `syscall` and `sysretq` read. -/
structure Msrs where
  star : Word
  lstar : Word
  sfmask : Word

/-- `syscall`: the return address and the flags go to `rcx` and `r11`. -/
def Machine.syscall (msrs : Msrs) (m : Machine) : Machine :=
  { (m.set .rcx m.rip).set .r11 m.rflags with
    rip := msrs.lstar
    cs := msrs.star.extractLsb' 32 16 &&& 0xfffc
    ss := msrs.star.extractLsb' 32 16 + 8
    rflags := m.rflags &&& ~~~ msrs.sfmask }

/-- `sysretq`: back to the address in `rcx` with the flags in `r11`. -/
def Machine.sysretq (msrs : Msrs) (m : Machine) : Machine :=
  { m with
    rip := m.regs .rcx
    cs := (msrs.star.extractLsb' 48 16 + 16) ||| 3
    ss := (msrs.star.extractLsb' 48 16 + 8) ||| 3
    rflags := (m.regs .r11 &&& 0x3c7fd7) ||| 2 }

/-- An interrupt gate, and the stack the task state segment has for
interrupts from user mode. -/
structure Gate where
  target : Word
  selector : BitVec 16
  rsp0 : Word

/-- The processor was in user mode. -/
def Machine.inUser (m : Machine) : Prop := m.cs &&& 3 = 3

instance (m : Machine) : Decidable m.inUser :=
  inferInstanceAs (Decidable (_ = _))

/-- The top of the stack an interrupt goes to: of the current one, or
from user mode of the other, at a multiple of 16. -/
def Machine.interruptTop (gate : Gate) (m : Machine) : Word :=
  (if m.inUser then gate.rsp0 else m.regs .rsp) &&& ~~~ 15

/-- The words an interrupt pushes. -/
def Machine.interruptFrame (m : Machine) : List Word :=
  [m.ss.setWidth 64, m.regs .rsp, m.rflags, m.cs.setWidth 64, m.rip]

/-- Accept an interrupt: push the frame, turn interrupts off (with TF,
NT and RF), and go to the handler. -/
def Machine.interrupt (gate : Gate) (m : Machine) : Machine :=
  { (m.set .rsp (m.interruptTop gate)).pushWords m.interruptFrame with
    rip := gate.target
    cs := gate.selector
    ss := if m.inUser then 0 else m.ss
    rflags := m.rflags &&& ~~~ 0x14300 }

/-- The instructions of a stub; `F` names the functions it calls. -/
inductive Instr (F : Type)
  | push (r : Reg)
  | pop (r : Reg)
  | mov (dst src : Reg)
  | call (f : F)
  | iretq
  | sysretq
  deriving DecidableEq, Repr

/-- What a stub runs in: the address after each call, what each called
function does, and the model-specific registers. -/
structure Env (F : Type) where
  returnAddress : F → Word
  body : F → Machine → Machine
  msrs : Msrs

variable {F : Type}

/-- Run a stub. -/
def exec (env : Env F) : List (Instr F) → Machine → Option Machine
  | [], m => some m
  | .push r :: prog, m => exec env prog (m.push (m.regs r))
  | .pop r :: prog, m => exec env prog (m.pop r)
  | .mov dst src :: prog, m => exec env prog (m.set dst (m.regs src))
  | .call f :: prog, m =>
      let m' := env.body f (m.push (env.returnAddress f))
      if m'.rip = env.returnAddress f then exec env prog m' else none
  | .iretq :: prog, m => exec env prog m.iretq
  | .sysretq :: prog, m => exec env prog (m.sysretq env.msrs)

theorem exec_append (env : Env F) (p q : List (Instr F)) (m : Machine) :
    exec env (p ++ q) m = (exec env p m).bind (exec env q) := by
  induction p generalizing m with
  | nil => rfl
  | cons i p ih =>
      cases i with
      | call f =>
          simp only [List.cons_append, exec]
          split
          · exact ih _
          · rfl
      | push r => exact ih _
      | pop r => exact ih _
      | mov dst src => exact ih _
      | iretq => exact ih _
      | sysretq => exact ih _

-- ================================================================== pushes

namespace Machine

theorem push_regs_of_ne (m : Machine) (v : Word) {r : Reg} (h : r ≠ .rsp) :
    (m.push v).regs r = m.regs r := m.set_of_ne h _

theorem push_rsp (m : Machine) (v : Word) :
    (m.push v).regs .rsp = m.regs .rsp - 8 := rfl

theorem words_push (m : Machine) (v : Word) {n : Nat}
    (hn : 8 * (n + 1) ≤ 2 ^ 64) :
    (m.push v).mem.words ((m.push v).regs .rsp) (n + 1)
      = v :: m.mem.words (m.regs .rsp) n :=
  Lib.words_push m.mem _ v hn

/-- Registers other than the stack pointer are not changed by pushes. -/
theorem pushWords_regs (vs : List Word) :
    ∀ (m : Machine) {q : Reg}, q ≠ .rsp →
      (m.pushWords vs).regs q = m.regs q := by
  induction vs with
  | nil => intro m q _; rfl
  | cons v vs ih =>
      intro m q hq
      exact (ih (m.push v) hq).trans (m.push_regs_of_ne _ hq)

theorem pushWords_rsp (vs : List Word) :
    ∀ m : Machine, (m.pushWords vs).regs .rsp
      = m.regs .rsp - BitVec.ofNat 64 (8 * vs.length) := by
  induction vs with
  | nil =>
      intro m
      exact (BitVec.sub_zero _).symm
  | cons v vs ih =>
      intro m
      have h := ih (m.push v)
      rw [push_rsp] at h
      show (pushWords vs (m.push v)).regs .rsp = _
      rw [h, List.length_cons, Nat.mul_succ, BitVec.ofNat_add]
      bv_omega

/-- The stack after pushes: the last word first. -/
theorem words_pushWords (vs : List Word) :
    ∀ (m : Machine) {n : Nat}, 8 * (vs.length + n) ≤ 2 ^ 64 →
      (m.pushWords vs).mem.words ((m.pushWords vs).regs .rsp)
          (vs.length + n)
        = vs.reverse ++ m.mem.words (m.regs .rsp) n := by
  induction vs with
  | nil =>
      intro m n _
      rw [List.length_nil, Nat.zero_add]
      rfl
  | cons v vs ih =>
      intro m n hn
      rw [List.length_cons] at hn ⊢
      have h := ih (m.push v) (n := n + 1) (by omega)
      rw [m.words_push v (by omega)] at h
      rw [Nat.add_assoc, Nat.add_comm 1 n]
      show (pushWords vs (m.push v)).mem.words _ _ = _
      rw [List.reverse_cons, List.append_assoc]
      exact h

/-- Pushes write below the stack pointer only. -/
theorem pushWords_mem (vs : List Word) :
    ∀ (m : Machine) {x : Word}, 8 * vs.length ≤ 2 ^ 64 →
      x ∉ region ((m.pushWords vs).regs .rsp) (8 * vs.length) →
      (m.pushWords vs).mem x = m.mem x := by
  induction vs with
  | nil => intro m x _ _; rfl
  | cons v vs ih =>
      intro m x hlen hx
      rw [List.length_cons] at hlen hx
      have hrsp := pushWords_rsp vs (m.push v)
      rw [push_rsp] at hrsp
      have hbase : (pushWords vs (m.push v)).regs .rsp
          + BitVec.ofNat 64 (8 * vs.length) = m.regs .rsp - 8 := by
        rw [hrsp]
        exact BitVec.sub_add_cancel ..
      have hout : x ∉ region (m.regs .rsp - 8) 8 := by
        intro h
        rw [← hbase] at h
        exact hx (region_subset (by omega) hlen h)
      have hrest : x ∉ region ((pushWords vs (m.push v)).regs .rsp)
          (8 * vs.length) := by
        intro h
        rw [mem_region] at h hx
        exact hx (Nat.lt_of_lt_of_le h (by omega))
      show (pushWords vs (m.push v)).mem x = m.mem x
      rw [ih _ (by omega) hrest]
      exact write_of_notMem hout

-- ==================================================================== pops

/-- Pop the registers `rs` in order. -/
def popAll : List Reg → Machine → Machine
  | [], m => m
  | r :: rs, m => popAll rs (m.pop r)

theorem pop_rsp (m : Machine) {r : Reg} (h : r ≠ .rsp) :
    (m.pop r).regs .rsp = m.regs .rsp + 8 :=
  (set_of_ne _ h.symm _).trans (set_self ..)

theorem pop_self (m : Machine) (r : Reg) :
    (m.pop r).regs r = m.mem.read (m.regs .rsp) 64 := set_self ..

theorem pop_regs_of_ne (m : Machine) {q r : Reg} (hr : q ≠ r)
    (hrsp : q ≠ .rsp) : (m.pop r).regs q = m.regs q :=
  (set_of_ne _ hr _).trans (set_of_ne _ hrsp _)

@[simp] theorem popAll_mem (rs : List Reg) :
    ∀ m : Machine, (m.popAll rs).mem = m.mem := by
  induction rs with
  | nil => intro m; rfl
  | cons r rs ih => intro m; exact ih (m.pop r)

/-- Registers that are not popped keep their values. -/
theorem popAll_regs_of_notMem (rs : List Reg) :
    ∀ (m : Machine) {q : Reg}, q ∉ rs → q ≠ .rsp →
      (m.popAll rs).regs q = m.regs q := by
  induction rs with
  | nil => intro m q _ _; rfl
  | cons r rs ih =>
      intro m q hq hrsp
      rw [List.mem_cons, not_or] at hq
      exact (ih (m.pop r) hq.2 hrsp).trans (m.pop_regs_of_ne hq.1 hrsp)

theorem popAll_rsp (rs : List Reg) :
    ∀ m : Machine, .rsp ∉ rs → (m.popAll rs).regs .rsp
      = m.regs .rsp + BitVec.ofNat 64 (8 * rs.length) := by
  induction rs with
  | nil =>
      intro m _
      exact (BitVec.add_zero _).symm
  | cons r rs ih =>
      intro m hrs
      rw [List.mem_cons, not_or] at hrs
      have h := ih (m.pop r) hrs.2
      rw [m.pop_rsp (Ne.symm hrs.1)] at h
      show (popAll rs (m.pop r)).regs .rsp = _
      rw [h, List.length_cons, Nat.mul_succ, BitVec.ofNat_add,
        BitVec.add_assoc, BitVec.add_comm 8]
      rfl

/-- The registers after pops: the words that were on the stack. -/
theorem popAll_regs (rs : List Reg) :
    ∀ m : Machine, .rsp ∉ rs → rs.Nodup →
      rs.map (m.popAll rs).regs
        = m.mem.words (m.regs .rsp) rs.length := by
  induction rs with
  | nil => intro m _ _; rfl
  | cons r rs ih =>
      intro m hrs hnodup
      rw [List.mem_cons, not_or] at hrs
      rw [List.nodup_cons] at hnodup
      have hhead : (popAll rs (m.pop r)).regs r
          = m.mem.read (m.regs .rsp) 64 := by
        rw [popAll_regs_of_notMem rs _ hnodup.1 (Ne.symm hrs.1), pop_self]
      have htail := ih (m.pop r) hrs.2 hnodup.2
      rw [m.pop_rsp (Ne.symm hrs.1)] at htail
      show (popAll rs (m.pop r)).regs r :: rs.map (popAll rs (m.pop r)).regs
        = m.mem.read (m.regs .rsp) 64
          :: m.mem.words (m.regs .rsp + 8) rs.length
      rw [hhead, htail]
      rfl

end Machine

theorem exec_pushes (env : Env F) (rs : List Reg) (prog : List (Instr F)) :
    ∀ m, .rsp ∉ rs → exec env (rs.map .push ++ prog) m
      = exec env prog (m.pushWords (rs.map m.regs)) := by
  induction rs with
  | nil => intro m _; rfl
  | cons r rs ih =>
      intro m hrs
      rw [List.mem_cons, not_or] at hrs
      have hmap : rs.map (m.push (m.regs r)).regs = rs.map m.regs := by
        refine List.map_congr_left fun q hq => m.push_regs_of_ne _ ?_
        exact fun h => hrs.2 (h ▸ hq)
      have h := ih (m.push (m.regs r)) hrs.2
      rw [hmap] at h
      exact h

theorem exec_pops (env : Env F) (rs : List Reg) (prog : List (Instr F)) :
    ∀ m, exec env (rs.map .pop ++ prog) m
      = exec env prog (m.popAll rs) := by
  induction rs with
  | nil => intro m; rfl
  | cons r rs ih => intro m; exact ih _

-- ================================================== the calling convention

/-- The registers a function must give back as it found them. -/
def calleeSaved : List Reg := [.rbx, .rbp, .r12, .r13, .r14, .r15]

/-- `m'` is `m`, the machine at the first instruction of a function,
after the function has returned in the System V way, leaving the memory
in `keep` alone. -/
structure Returns (keep : Set Word) (m m' : Machine) : Prop where
  saved : ∀ r ∈ calleeSaved, m'.regs r = m.regs r
  rsp : m'.regs .rsp = m.regs .rsp + 8
  rip : m'.rip = m.mem.read (m.regs .rsp) 64
  frame : ∀ x ∈ keep, m'.mem x = m.mem x

/-- A function that does nothing but return `v`, leaving it in every
register that need not be given back. -/
def returnValue (v : Word) (h : Machine) : Machine where
  regs r :=
    if r ∈ calleeSaved then h.regs r
    else if r = .rsp then h.regs .rsp + 8
    else v
  rip := h.mem.read (h.regs .rsp) 64
  cs := h.cs
  ss := h.ss
  rflags := h.rflags
  mem := h.mem

theorem returnValue_returns (keep : Set Word) (v : Word) (h : Machine) :
    Returns keep h (returnValue v h) :=
  ⟨fun _ hr => if_pos hr, rfl, rfl, fun _ _ => rfl⟩

/-- The machine at the first instruction of a called function. -/
def Env.entry (env : Env F) (f : F) (m : Machine) : Machine :=
  m.push (env.returnAddress f)

/-- A call of a conforming function comes back. -/
theorem exec_call {env : Env F} {f : F} {m : Machine} {keep : Set Word}
    (h : Returns keep (env.entry f m) (env.body f (env.entry f m)))
    (prog : List (Instr F)) :
    exec env (.call f :: prog) m
      = exec env prog (env.body f (env.entry f m)) := by
  have hread : (env.entry f m).mem.read ((env.entry f m).regs .rsp) 64
      = env.returnAddress f := by
    have h := read_write m.mem (m.regs .rsp - 8) (env.returnAddress f)
      (Nat.le_refl 64) (by decide)
    rw [BitVec.setWidth_eq] at h
    exact h
  have hrip := h.rip
  rw [hread] at hrip
  exact if_pos hrip

/-- A call leaves the caller's stack pointer where it was. -/
theorem Returns.rsp_eq {env : Env F} {f : F} {m m' : Machine}
    {keep : Set Word} (h : Returns keep (env.entry f m) m') :
    m'.regs .rsp = m.regs .rsp := by
  rw [h.rsp]
  exact BitVec.sub_add_cancel ..

/-- A call leaves the callee-saved registers as they were. -/
theorem Returns.saved_eq {env : Env F} {f : F} {m m' : Machine}
    {keep : Set Word} (h : Returns keep (env.entry f m) m') {r : Reg}
    (hr : r ∈ calleeSaved) : m'.regs r = m.regs r := by
  have hne : r ≠ .rsp := by
    intro heq
    subst heq
    revert hr
    decide
  rw [h.saved r hr]
  exact m.push_regs_of_ne _ hne

end Lib.X86
