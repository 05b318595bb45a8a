/-
What a call of `syscall_handler` stores and loads through its pointer,
whether it returns or not.

# In order

Each access is checked by the page table when it is made, and an access
that does not pass ends the call: the rule for that is `Until`. So what is
left is which bytes they are. They are counted along (`Walks`): each of
the loops goes over the range from its start.

# What is not checked

That the process may use a page is not asked anywhere
(`kernel_page_reached`), nor is the range looked at before its first byte
is stored to.
-/
import Bayos.Model.Accesses
import Bayos.Proofs.Pointers
import Bayos.Proofs.Ranges

namespace Bayos.Kernel

open Rust
open Lib (Logged Word)
open Lib.Paging
open Bayos.Memory

variable {PT α β : Type} {M : PageMapper PT} {k k' : State PT}
  {gaveUp : List Byte → Bool}

-- ============================================================== vocabulary

/-- The `n` addresses from `a` on. -/
def addresses (a : Word) : Nat → List Word
  | 0 => []
  | n + 1 => a :: addresses (a + 1) n

namespace Access

/-- The bytes that are accessed. -/
def bytes : Access PT → List Word
  | .load _ a => [a]
  | .store _ a n => addresses a n
  | .print _ => []

/-- The page table lets the kernel do it: every byte is in a page that is
present, and writable if it is stored. -/
def Passes (M : PageMapper PT) : Access PT → Prop
  | .load table a => CanLoad M table a
  | .store table a n => ∀ x ∈ addresses a n, CanStore M table x
  | .print _ => True

end Access

/-- The bytes a call accesses. -/
def touched (x : Accessing PT α) (k : State PT) : List Word :=
  (x.log k).flatMap Access.bytes

/-- How an access that does not pass ends a call. -/
def EndsAt (e : Access PT) (err : Stop) : Prop :=
  ∃ a ∈ e.bytes, err = fault a

/-- A call goes over the bytes `bs` as far as it gets, and over all of
them if it returns what it does when it is done. -/
structure Walks (M : PageMapper PT) (bs : List Word) (done : α → Prop)
    (x : Accessing PT α) (k : State PT) : Prop where
  ordered : x.Until (Access.Passes M) EndsAt k
  range : touched x k <+: bs
  whole : ∀ a k', x.run k = .ok (a, k') → done a → touched x k = bs

theorem touched_bind (x : Accessing PT α) (f : α → Accessing PT β)
    (k : State PT) :
    touched (x >>= f) k = touched x k ++ match x.run k with
      | .ok (a, k') => touched (f a) k'
      | .error _ => [] := by
  unfold touched
  rw [Logged.log_bind, List.flatMap_append]
  cases x.run k with
  | ok r => rfl
  | error e => rfl

/-- A call that does not use the pointer. -/
theorem walks_silent {x : KernelM PT α} {done : α → Prop} :
    Walks M [] done (Accessing.silent x) k where
  ordered := Logged.until_silent
  range := List.nil_prefix
  whole _ _ _ _ := rfl

/-- One call after another. -/
theorem Walks.bind {bs bs' : List Word} {x : Accessing PT α}
    {f : α → Accessing PT β} {done : β → Prop}
    (hx : Walks M bs (fun _ => True) x k)
    (hf : ∀ a k', x.run k = .ok (a, k') → Walks M bs' done (f a) k') :
    Walks M (bs ++ bs') done (x >>= f) k where
  ordered := Logged.until_bind hx.ordered fun a k' h => (hf a k' h).ordered
  range := by
    rw [touched_bind]
    cases hr : x.run k with
    | error e =>
        rw [List.append_nil]
        exact hx.range.trans (List.prefix_append bs bs')
    | ok r =>
        rw [hx.whole r.1 r.2 hr trivial]
        exact (List.prefix_append_right_inj bs).mpr (hf r.1 r.2 hr).range
  whole b k₂ hrun hdone := by
    rw [Logged.run_bind] at hrun
    rw [touched_bind]
    cases hr : x.run k with
    | error e =>
        rw [hr] at hrun
        cases hrun
    | ok r =>
        rw [hr] at hrun
        rw [hx.whole r.1 r.2 hr trivial]
        exact congrArg (bs ++ ·) ((hf r.1 r.2 hr).whole b k₂ hrun hdone)

/-- A call after one that does not use the pointer. -/
theorem Walks.behind {bs : List Word} {x : KernelM PT α}
    {f : α → Accessing PT β} {done : β → Prop}
    (hf : ∀ a k', x k = .ok (a, k') → Walks M bs done (f a) k') :
    Walks M bs done (Accessing.silent x >>= f) k :=
  Walks.bind walks_silent hf

-- ============================================================ the accesses

/-- A call that loads, and then something that has nothing to access. -/
theorem Walks.then {bs : List Word} {x : Accessing PT α}
    {f : α → Accessing PT β} {done : α → Prop} (hx : Walks M bs done x k)
    (hf : ∀ a k', Walks M [] (fun _ => True) (f a) k') :
    Walks M bs (fun _ => False) (x >>= f) k where
  ordered := Logged.until_bind hx.ordered fun a k' _ => (hf a k').ordered
  range := by
    rw [touched_bind]
    cases x.run k with
    | error e =>
        rw [List.append_nil]
        exact hx.range
    | ok r =>
        have hnone : touched (f r.1) r.2 = [] :=
          List.prefix_nil.mp (hf r.1 r.2).range
        show touched x k ++ touched (f r.1) r.2 <+: bs
        rw [hnone, List.append_nil]
        exact hx.range
  whole _ _ _ h := h.elim

theorem plain_bind (x : Accessing PT α) (f : α → Accessing PT β) :
    (x >>= f).plain = x.plain >>= fun a => (f a).plain :=
  logged_bind x f

theorem pipeRead_plain {n : Nat} : ∀ (a : Word) (input : List Byte),
    (Accessing.pipeRead M a n input).plain = pipeRead M a n input := by
  induction n with
  | zero => intro a input; rfl
  | succ n ih =>
      intro a input
      cases input with
      | nil => rfl
      | cons b input =>
          unfold Accessing.pipeRead pipeRead
          rw [plain_bind]
          exact congrArg _ (funext fun _ => ih (a + 1) input)

/-- The run of a call that is no `write` is the handler's. -/
theorem handler_plain {debug : Bool} {c : Console}
    {index arg0 arg1 arg2 : Word} (hindex : index ≠ 1) :
    (Accessing.syscallHandler M gaveUp debug c index arg0 arg1 arg2).plain
      = syscallHandler M debug c index arg0 arg1 arg2 := by
  by_cases hread : index = 0
  · subst hread
    show (Accessing.readSyscall M debug c arg0 arg1 arg2).plain
      = readSyscall M debug c arg0 arg1 arg2
    unfold Accessing.readSyscall readSyscall
    by_cases hfd : arg0 = 0
    · rw [if_pos hfd, if_pos hfd, plain_bind]
      refine congrArg _ (funext fun _ => ?_)
      rw [plain_bind, pipeRead_plain]
      rfl
    · rw [if_neg hfd, if_neg hfd]
      rfl
  by_cases hanon : index = 2
  · subst hanon
    show (do
        Accessing.anonAllocateSyscall M debug arg0 arg1
        pure c).plain
      = (do
        anonAllocateSyscall M debug arg0 arg1
        pure c)
    rw [plain_bind]
    refine congrArg (· >>= fun _ => pure c) ?_
    refine congrArg withProcessList (congrArg withCurrentRead ?_)
    simp only [plain_bind]
    rfl
  · obtain ⟨n, hn⟩ : ∃ n, index.toNat = n + 3 :=
      ⟨index.toNat - 3, by bv_omega⟩
    unfold Accessing.syscallHandler syscallHandler
    rw [hn]
    show Accessing.plain (do
        .silent (lockLogger c)
        Accessing.printText c (some (unknownSyscall (n + 3)))) = _
    rw [plain_bind]
    rfl

/-- What was read of a buffer is as good as all of it, if what is given up
is no beginning of a text. -/
theorem loadBytes_plain
    (hgave : ∀ bs more, gaveUp bs = true → fromUtf8 (bs ++ more) = none)
    {n : Nat} : ∀ {a : Word} {before bs : List Byte},
      loadBytes M a n k = .ok (bs, k') →
      ∃ bytes, (Accessing.loadBytes M gaveUp a before n).run k
          = .ok (bytes, k')
        ∧ bytes.bind fromUtf8 = fromUtf8 (before ++ bs) := by
  induction n with
  | zero =>
      intro a before bs h
      obtain ⟨rfl, rfl⟩ := pure_ok.mp h
      exact ⟨some before, rfl, by rw [List.append_nil]; rfl⟩
  | succ n ih =>
      intro a before bs h
      unfold loadBytes at h
      obtain ⟨b, k₁, hbyte, hthen⟩ := bind_ok.mp h
      obtain ⟨-, -, rfl⟩ := loadByte_ok.mp hbyte
      obtain ⟨rest, k₂, hrest, hret⟩ := bind_ok.mp hthen
      obtain ⟨rfl, rfl⟩ := pure_ok.mp hret
      unfold Accessing.loadBytes
      by_cases hstop : gaveUp before = true
      · rw [if_pos hstop, hgave before (b :: rest) hstop]
        obtain ⟨-, -, rfl⟩ := loadBytes_ok.mp hrest
        exact ⟨none, rfl, rfl⟩
      · rw [if_neg hstop]
        obtain ⟨bytes, hrun, htext⟩ :=
          @ih _ (before ++ [b]) _ hrest
        rw [List.append_assoc] at htext
        refine ⟨bytes, ?_, htext⟩
        rw [Logged.run_bind]
        have hload : (Accessing.loadByte M a).run k₁ = .ok (b, k₁) := hbyte
        rw [hload]
        exact hrun

/-- A `write` that returns if it reads all of its buffer does the same if it
gives up where there is no text. -/
theorem writeSyscall_plain
    (hgave : ∀ bs more, gaveUp bs = true → fromUtf8 (bs ++ more) = none)
    {debug : Bool} {c c' : Console} {fd buf count : Word}
    (h : writeSyscall M debug c fd buf count k = .ok (c', k')) :
    (Accessing.writeSyscall M gaveUp debug c fd buf count).plain k
      = .ok (c', k') := by
  unfold writeSyscall at h
  unfold Accessing.writeSyscall
  by_cases hfd : fd = 1
  · rw [if_pos hfd] at h ⊢
    obtain ⟨_, k₁, hcheck, h₁⟩ := bind_ok.mp h
    obtain ⟨_, k₂, hlock, h₂⟩ := bind_ok.mp h₁
    obtain ⟨bs, k₃, hload, hret⟩ := bind_ok.mp h₂
    obtain ⟨bytes, hrun, htext⟩ := loadBytes_plain hgave hload
    simp only [plain_bind]
    refine bind_ok.mpr ⟨(), k₁, hcheck, bind_ok.mpr ⟨(), k₂, hlock,
      bind_ok.mpr ⟨bytes, k₃, hrun, ?_⟩⟩⟩
    obtain ⟨hprint, rfl⟩ := pure_ok.mp hret
    rw [htext, hprint]
    show Accessing.plain (Accessing.printText c (fromUtf8 bs)) k'
      = .ok (c.printText (fromUtf8 bs), k')
    cases fromUtf8 bs with
    | none => rfl
    | some text => rfl
  · rw [if_neg hfd] at h ⊢
    exact h

-- ========================================================= a kernel's page

/-- A console where two keys were typed. -/
def typed : Console := ⟨[42, 43], [], false⟩

end Bayos.Kernel
