/-
`write_syscall` of `kernel/src/syscall.rs` down to the pixels.

`Model/Handler.lean` has the call with the process's memory, and for the
screen the characters written to it so far. Here it is the writer of the
framebuffer, once the logger is locked and the bytes are loaded.
-/
import Bayos.Model.Framebuffer
import Bayos.Model.Handler

namespace Bayos.Framebuffer

open Rust
open Lib (Word)
open Kernel (fromUtf8)

/-- `write_syscall`, on the bytes of its buffer. The result of `write!` is
not looked at; it is always `Ok`. -/
def writeSyscall (font : Font) (writer : Screen) (fd : Word)
    (buf : List Byte) : Except Panic Screen :=
  if fd = 1 then
    match fromUtf8 buf with
    | some buffer => writeStr font writer buffer
    | none => pure writer
  else pure writer

end Bayos.Framebuffer
