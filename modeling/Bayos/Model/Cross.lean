/-
The preparation of the toolchain's sources: the loop over `SOURCES` in
`user/cross/build.rs`.

# The cache

`tarballs` are the files of the cache directory and `trees` its
directories, by name; a tree is the files below it, by path. What `main`
does behind the loop (it configures and builds) writes below `build` and
`headers-build` in the source directories; these paths are left out of
the trees.

# What is not here

The hash, the decoders with the archive reader, and the `patch` program
are `Tools`. An archive is the files it unpacks to, in the order they are
written, and whether the reader came to its end; a file that is written in
several parts is there once with each of them. A patch, applied to a tree,
is the edits it makes there and whether it succeeded. The network's
answers are given to each run.

# A run

A run may be stopped behind every write, with what it was doing there;
where it panics, it has been stopped behind its last write.
-/
import Bayos.Lib.Crash
import Bayos.Lib.Run
import Bayos.Lib.Rust

namespace Bayos.Cross

open Rust (Panic)
open Lib (Crash TransSys)

abbrev Bytes : Type := List UInt8

/-- Below a directory. -/
abbrev Path : Type := List String

-- ================================================================= sources

inductive ArchiveFormat
  | tarXz
  | tarGz
  deriving DecidableEq, Repr

structure Source where
  name : String
  url : String
  sha256 : String
  dirName : String
  format : ArchiveFormat
  deriving DecidableEq, Repr

def gcc : Source where
  name := "gcc"
  url := "https://ftp.fu-berlin.de/unix/languages/gcc/releases/"
    ++ "gcc-15.2.0/gcc-15.2.0.tar.xz"
  sha256 :=
    "438fd996826b0c82485a29da03a72d71d6e3541a83ec702df4271f6fe025d24e"
  dirName := "gcc-15.2.0"
  format := .tarXz

def binutils : Source where
  name := "binutils"
  url := "https://ftp.fu-berlin.de/unix/gnu/binutils/"
    ++ "binutils-2.46.0.tar.xz"
  sha256 :=
    "d75a94f4d73e7a4086f7513e67e439e8fcdcbb726ffe63f4661744e6256b2cf2"
  dirName := "binutils-2.46.0"
  format := .tarXz

def mlibc : Source where
  name := "mlibc"
  url := "https://github.com/managarm/mlibc/archive/refs/tags/v6.3.1.tar.gz"
  sha256 :=
    "9236025b32636b2e79cdd00b5914b5e89c3423da257c2db24253e0cac1679444"
  dirName := "mlibc-6.3.1"
  format := .tarGz

/-- `SOURCES`. -/
def sources : List Source := [gcc, binutils, mlibc]

/-- The name of the tarball in the cache. -/
def Source.tarball (src : Source) : String :=
  match src.format with
  | .tarXz => src.name ++ ".tar.xz"
  | .tarGz => src.name ++ ".tar.gz"

/-- The name of the patch file next to the script. -/
def Source.patchFile (src : Source) : String := src.name ++ ".patch"

-- =============================================================== the tools

/-- A file that an archive unpacks: the directory of the cache it is
below, its path there, and what is written. -/
structure Entry (File : Type) where
  top : String
  path : Path
  file : File

/-- A file that a patch writes, or removes. -/
structure Edit (File : Type) where
  path : Path
  file : Option File

/-- A directory: its files, by path. -/
abbrev Tree (File : Type) : Type := Path → Option File

namespace Tree

variable {File : Type}

def add (t : Tree File) (path : Path) (file : File) : Tree File :=
  Function.update t path (some file)

def edit (t : Tree File) (e : Edit File) : Tree File :=
  Function.update t e.path e.file

end Tree

/-- The other people's code that the script uses. -/
structure Tools (File Patch : Type) where
  sha256 : Bytes → String
  unpack : ArchiveFormat → Bytes → List (Entry File) × Bool
  patch : Patch → Tree File → List (Edit File) × Bool

/-- A server's answer: the status, and the chunks read of the body, of
which `none` is a read error. -/
structure Response where
  status : Nat
  body : List (Option Bytes)

/-- What the network answers to each address in a run; `none` is a call
that fails. -/
abbrev Network : Type := String → Option Response

-- =============================================================== the cache

structure Cache (File : Type) where
  tarballs : String → Option Bytes
  trees : String → Option (Tree File)

namespace Cache

variable {File : Type}

def setTarball (c : Cache File) (name : String) (bytes : Option Bytes) :
    Cache File :=
  { c with tarballs := Function.update c.tarballs name bytes }

/-- More bytes at the end of a file. -/
def append (c : Cache File) (name : String) (bytes : Bytes) : Cache File :=
  c.setTarball name (some ((c.tarballs name).getD [] ++ bytes))

def setTree (c : Cache File) (name : String) (t : Tree File) : Cache File :=
  { c with trees := Function.update c.trees name (some t) }

/-- The directory of that name, to be created if it is not there. -/
def tree (c : Cache File) (name : String) : Tree File :=
  (c.trees name).getD fun _ => none

/-- The directory is there from now on. -/
def makeDir (c : Cache File) (name : String) : Cache File :=
  c.setTree name (c.tree name)

def addEntry (c : Cache File) (e : Entry File) : Cache File :=
  c.setTree e.top ((c.tree e.top).add e.path e.file)

def editTree (c : Cache File) (dir : String) (e : Edit File) : Cache File :=
  c.setTree dir ((c.tree dir).edit e)

end Cache

-- ============================================================== the script

/-- What a run was doing where it was stopped. -/
inductive Doing
  | checking
  | downloading
  | unpacking
  | patching
  deriving DecidableEq, Repr

variable {File Patch α : Type}

abbrev Script (File α : Type) : Type := Crash (Cache File) Doing Panic α

/-- A panic with a message. -/
def stop (text : String) : Script File α := Crash.fail (.message text)

/-- The loop of `download`. -/
def receive (dest : String) : List (Option Bytes) → Script File Unit
  | [] => pure ()
  | none :: _ => stop "read error during download"
  | some buf :: body =>
      if buf.length = 0 then pure ()
      else do
        Crash.write .downloading fun c => c.append dest buf
        receive dest body

/-- `download`. -/
def download (net : Network) (url dest : String) : Script File Unit :=
  match net url with
  | none => stop ("HTTP GET " ++ url ++ " failed")
  | some resp =>
      if resp.status = 200 then do
        Crash.write .downloading fun c => c.setTarball dest (some [])
        receive dest resp.body
      else stop ("unexpected HTTP status " ++ toString resp.status ++ " for "
        ++ url)

/-- `sha256_of`. -/
def sha256Of (tools : Tools File Patch) (path : String) :
    Script File String := do
  match ← Crash.read fun c => c.tarballs path with
  | some bytes => pure (tools.sha256 bytes)
  | none => stop ("cannot open " ++ path)

/-- `starts_with("REPLACE_WITH")`: a digest still to be filled in. -/
def isPlaceholder (expected : String) : Bool :=
  "REPLACE_WITH".toList.isPrefixOf expected.toList

/-- `verify_sha256`. -/
def verifySha256 (tools : Tools File Patch) (path expected : String) :
    Script File Bool :=
  if isPlaceholder expected then pure true
  else do
    let got ← sha256Of tools path
    pure (got == expected)

/-- `assert_sha256`. -/
def assertSha256 (tools : Tools File Patch) (path expected label : String) :
    Script File Unit := do
  let got ← sha256Of tools path
  if isPlaceholder expected then pure ()
  else if got == expected then pure ()
  else stop ("[" ++ label ++ "] SHA-256 mismatch!\n  expected: " ++ expected
    ++ "\n  got:      " ++ got)

/-- `fs::remove_file`, unwrapped. -/
def removeFile (path : String) : Script File Unit := do
  match ← Crash.read fun c => c.tarballs path with
  | some _ => Crash.write .checking fun c => c.setTarball path none
  | none => stop "called `Result::unwrap()` on an `Err` value"

/-- A file of an archive: the reader makes the directory for it before it
opens the file. -/
def unpackEntry (e : Entry File) : Script File Unit := do
  Crash.write .unpacking fun c => c.makeDir e.top
  Crash.write .unpacking fun c => c.addEntry e

/-- `extract_archive` and `unpack_tar`: the format chooses the decoder. -/
def extractArchive (tools : Tools File Patch) (tarball : String)
    (format : ArchiveFormat) : Script File Unit := do
  match ← Crash.read fun c => c.tarballs tarball with
  | none => stop ("cannot open tarball " ++ tarball)
  | some bytes => do
      let (entries, ok) := tools.unpack format bytes
      Crash.forEach unpackEntry entries
      if ok then pure () else stop "extraction into the cache failed"

/-- `apply_patch`: the program runs in the source directory. -/
def applyPatch (tools : Tools File Patch) (patchFile : String)
    (patch : Patch) (dir : String) : Script File Unit := do
  match ← Crash.read fun c => c.trees dir with
  | none => stop "failed to run `patch` — is it installed?"
  | some t => do
      let (edits, success) := tools.patch patch t
      Crash.forEach (fun e => Crash.write .patching fun c =>
        c.editTree dir e) edits
      if success then Crash.note .checking
      else stop ("patch failed for " ++ patchFile ++ " — see warnings above")

/-- The first half of a round of the loop: a tarball with the pinned
digest. -/
def fetch (tools : Tools File Patch) (net : Network) (src : Source) :
    Script File Unit := do
  if ← Crash.read fun c => (c.tarballs src.tarball).isSome then
    if ← verifySha256 tools src.tarball src.sha256 then pure ()
    else
      removeFile src.tarball
      download net src.url src.tarball
      assertSha256 tools src.tarball src.sha256 src.name
  else
    download net src.url src.tarball
    assertSha256 tools src.tarball src.sha256 src.name

/-- The second half: the source directory. `patches` are the files next
to the script, by name. -/
def prepare (tools : Tools File Patch) (patches : String → Option Patch)
    (src : Source) : Script File Unit := do
  if ← Crash.read fun c => (c.trees src.dirName).isSome then pure ()
  else
    extractArchive tools src.tarball src.format
    match patches src.patchFile with
    | some patch => applyPatch tools src.patchFile patch src.dirName
    | none => pure ()

/-- The loop. -/
def prepareAll (tools : Tools File Patch) (patches : String → Option Patch)
    (net : Network) : List Source → Script File Unit
  | [] => pure ()
  | src :: rest => do
      fetch tools net src
      prepare tools patches src
      prepareAll tools patches net rest

/-- `main`, up to the end of the loop. -/
def main (tools : Tools File Patch) (patches : String → Option Patch)
    (net : Network) : Script File Unit := do
  Crash.note .checking
  prepareAll tools patches net sources

-- ================================================================ the runs

/-- How a run ended: stopped, or past the loop. -/
inductive Event
  | stopped (doing : Doing)
  | past
  deriving DecidableEq, Repr

/-- Runs of the script, one after the other, whatever the network
answers. At first the cache has no directories. -/
def buildSys (tools : Tools File Patch) (patches : String → Option Patch) :
    TransSys (Cache File) Event where
  init c := ∀ name, c.trees name = none
  step c e c' := ∃ net,
    match e with
    | .stopped doing => (doing, c') ∈ (main tools patches net).log c
    | .past => (main tools patches net).run c = .ok ((), c')

end Bayos.Cross
