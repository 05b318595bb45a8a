/-
The input pipe: `kernel/src/vfs/pipe.rs`, with its one writer, the
keyboard handler of `kernel/src/int.rs`, and its readers, the read
system calls of `kernel/src/syscall.rs`.

# What is one step

The keyboard handler runs with interrupts off, so a key is one step. A
`Pipe::read` can be preempted anywhere, and any number of them can be on
their way at once: a pop is a step, the store of what it returned is
another, and in between the byte is in a register of the reader (`c`). A
pop that finds the queue empty is a step too, after which the reader
tries again.

# What is assumed

`crossbeam`'s `ArrayQueue` is taken as a linearizable bounded queue, first
in first out, whose operations complete: `Lib.Fifo`, with each of them one
step.

The decoding of scancodes is not part of the kernel: a key step carries
what the decoder made of the interrupt's scancode, which may be anything.
-/
import Bayos.Lib.Bytes
import Bayos.Lib.Fifo
import Bayos.Lib.Run
import Bayos.Lib.Rust

namespace Bayos.Pipe

open Rust
open Lib (Word Mem Fifo TransSys)

/-- `u8`. -/
abbrev Byte := BitVec 8

-- ================================================================ the pipe

/-- `Pipe`. -/
structure Pipe where
  array : Fifo Byte

/-- `Pipe::new`. -/
def Pipe.new (size : Nat) : Pipe := ⟨.empty size⟩

/-- The text of the panic: `Result::expect` appends the byte that `push`
gives back. -/
def pipeFull (byte : Byte) : String :=
  "Pipe is full: " ++ toString byte.toNat

/-- `Pipe::write`: pushes the bytes of the buffer one by one. -/
def Pipe.write (self : Pipe) : List Byte → Except Panic Pipe
  | [] => pure self
  | byte :: rest => do
      let array ← expect (self.array.push byte) (pipeFull byte)
      Pipe.write ⟨array⟩ rest

/-- `INPUT_PIPE` after `int::init_apic`. -/
def inputPipe : Pipe := .new 128

-- ============================================================ the keyboard

/-- `DecodedKey`. -/
inductive DecodedKey
  | unicode (character : Char)
  | rawKey (code : Nat)

/-- `char::as_ascii`, as a byte. -/
def asAscii (character : Char) : Option Byte :=
  if character.toNat < 128 then some (BitVec.ofNat 8 character.toNat)
  else none

/-- `keyboard_handler`, from the decoded key on. `none` is a scancode
that completes no key, or one that cannot be decoded. -/
def keyboardHandler (pipe : Pipe) : Option DecodedKey → Except Panic Pipe
  | some (.unicode character) =>
      match asAscii character with
      | some c => pipe.write [c]
      | none => pure pipe
  | some (.rawKey _) => pure pipe
  | none => pure pipe

-- ============================================================= the readers

/-- A call of `Pipe::read`: its arguments, the loop's position, and the
byte that has been popped but not yet stored. -/
structure Read where
  buffer : Word
  size : Nat
  i : Nat
  c : Option Byte

/-- The call has returned. -/
def Read.Completed (r : Read) : Prop := r.i = r.size

/-- The pipe, the reads begun so far, and memory. -/
structure State where
  pipe : Pipe
  reads : List Read
  mem : Mem

/-- Memory with one byte changed. -/
def storeByte (mem : Mem) (a : Word) (b : Byte) : Mem :=
  Function.update mem a b

/-- What happens in a run. A pop carries what it returned, a store the
address and the byte. -/
inductive Event
  | key (key : Option DecodedKey)
  | readSyscall (fd : Word) (buf : Word) (count : Nat)
  | pop (reader : Nat) (ret : Option Byte)
  | store (reader : Nat) (a : Word) (b : Byte)

/-- The pipe under any keys and any reads. A key that would overflow the
queue panics and is no step. -/
def pipeSys (mem : Mem) : TransSys State Event where
  init s := s = ⟨inputPipe, [], mem⟩
  step s e s' :=
    match e with
    | .key key => ∃ pipe, keyboardHandler s.pipe key = .ok pipe
        ∧ s' = { s with pipe }
    | .readSyscall fd buf count =>
        s' = if fd = 0 then
            { s with reads := s.reads ++ [⟨buf, count, 0, none⟩] }
          else s
    | .pop reader ret => ∃ r, s.reads[reader]? = some r
        ∧ r.i < r.size ∧ r.c = none
        ∧ match s.pipe.array.pop with
          | some (c, array) => ret = some c
              ∧ s' = { s with
                  pipe := ⟨array⟩
                  reads := s.reads.set reader { r with c := some c } }
          | none => ret = none ∧ s' = s
    | .store reader a b => ∃ r, s.reads[reader]? = some r
        ∧ r.c = some b ∧ a = r.buffer + BitVec.ofNat 64 r.i
        ∧ s' = { s with
            reads := s.reads.set reader { r with i := r.i + 1, c := none }
            mem := storeByte s.mem a b }

/-- The same, up to the first key whose handler panics: the panic handler
disables interrupts and halts, so nothing follows a panic. -/
def typingSys (mem : Mem) : TransSys (Except Panic State) Event where
  init st := ∃ s, (pipeSys mem).init s ∧ st = .ok s
  step st e st' := ∃ s, st = .ok s ∧
    match e with
    | .key key => st' = do
        let pipe ← keyboardHandler s.pipe key
        pure { s with pipe }
    | e => ∃ s', (pipeSys mem).step s e s' ∧ st' = .ok s'

end Bayos.Pipe
