/-
When typing is harmless: a key whose byte finds the input queue full
panics in the keyboard handler, and the kernel halts.

# Why the history decides

The handler panics on a full queue only (`keyboardHandler_eq_error`), and
in a run without a panic the queue holds the bytes pushed less the bytes
popped (`Inv.fifo`). So whether a run panics can be read off its keys and
pops: each key with a byte needs fewer than 128 pushed bytes before it
that no read has popped yet (`RoomAtKeys`). As in the delivery, the queue
is taken as a linearizable first-in first-out queue of 128 bytes whose
operations complete.
-/
import Bayos.Proofs.Delivery

namespace Bayos.Pipe

open Rust
open Lib (Word Mem Fifo TransSys)

-- ============================================================= the handler

/-- The handler panics on a key with a byte and a full queue, and on
nothing else. -/
theorem keyboardHandler_eq_error {pipe : Pipe} {key : Option DecodedKey}
    {p : Panic} :
    keyboardHandler pipe key = .error p ↔
      ∃ c, keyByte key = some c
        ∧ pipe.array.capacity ≤ pipe.array.items.length
        ∧ p = .message (pipeFull c) := by
  constructor
  · intro h
    have hfull : pipe.array.capacity ≤ pipe.array.items.length := by
      by_contra hroom
      obtain ⟨pipe', hok⟩ := keyboardHandler_returns key
        (Nat.lt_of_not_le hroom)
      rw [hok] at h
      cases h
    cases hbyte : keyByte key with
    | none =>
        rw [keyboardHandler_none hbyte] at h
        cases h
    | some c =>
        rw [keyboardHandler_some hbyte, Fifo.push_eq_none hfull] at h
        exact ⟨c, rfl, hfull, (Except.error.inj h).symm⟩
  · intro hparts
    obtain ⟨c, hc, hfull, rfl⟩ := hparts
    rw [keyboardHandler_some hc, Fifo.push_eq_none hfull]
    rfl

-- ============================================================= the history

/-- Every key with a byte came when fewer than 128 bytes had been pushed
and not popped. -/
def RoomAtKeys (es : List Event) : Prop :=
  ∀ before key after, es = before ++ .key key :: after →
    (keyByte key).isSome →
    (pushed before).length < (pops before).length + 128

theorem roomAtKeys_nil : RoomAtKeys [] := by
  intro before key after heq
  simp at heq

/-- One more event: the condition on it, if it is a key, and the
condition on those before. -/
theorem roomAtKeys_append {es : List Event} {e : Event} :
    RoomAtKeys (es ++ [e]) ↔ RoomAtKeys es ∧
      ∀ key, e = .key key → (keyByte key).isSome →
        (pushed es).length < (pops es).length + 128 := by
  constructor
  · intro h
    refine ⟨?_, ?_⟩
    · intro before key after heq hkey
      refine h before key (after ++ [e]) ?_ hkey
      rw [heq]
      simp
    · intro key he hkey
      exact h es key [] (by rw [he]) hkey
  · intro hparts before key after heq hkey
    obtain ⟨hes, hlast⟩ := hparts
    rcases List.eq_nil_or_concat after with rfl | ⟨rest, e', rfl⟩
    · obtain ⟨rfl, he⟩ := List.append_inj' heq rfl
      exact hlast key (List.singleton_inj.mp he) hkey
    · refine hes before key rest ?_ hkey
      rw [List.concat_eq_append, ← List.cons_append, ← List.append_assoc]
        at heq
      exact (List.append_inj' heq rfl).1

-- ================================================================ the runs

theorem capacity_run {mem : Mem} {es : List Event} {s : State}
    (hrun : (pipeSys mem).Run es s) : s.pipe.array.capacity = 128 := by
  refine hrun.invariant (I := fun s => s.pipe.array.capacity = 128) ?_ ?_
  · intro s hinit
    obtain rfl : s = ⟨inputPipe, [], mem⟩ := hinit
    rfl
  · intro s e s' hinv hstep
    cases e with
    | key key =>
        obtain ⟨pipe, hkey, rfl⟩ := hstep
        exact (keyboardHandler_ok hkey).2.trans hinv
    | readSyscall fd buf count =>
        obtain rfl := hstep
        split <;> exact hinv
    | pop reader ret =>
        obtain ⟨r, hr, hi, hc, hret⟩ := hstep
        split at hret
        · next c array hpop =>
            obtain ⟨rfl, rfl⟩ := hret
            exact (Fifo.pop_capacity hpop).trans hinv
        · obtain ⟨rfl, rfl⟩ := hret
          exact hinv
    | store reader a b =>
        obtain ⟨r, hr, hc, rfl, rfl⟩ := hstep
        exact hinv

/-- What is queued is what was pushed and not popped. -/
theorem queued_length {mem : Mem} {es : List Event} {s : State}
    (hrun : (pipeSys mem).Run es s) :
    (pops es).length + s.pipe.array.items.length = (pushed es).length := by
  rw [← (inv_run hrun).fifo, List.length_append, List.length_map]

/-- The handler's step, read off the history. -/
theorem key_room {mem : Mem} {es : List Event} {s : State}
    (hrun : (pipeSys mem).Run es s) (key : Option DecodedKey) :
    (∃ pipe, keyboardHandler s.pipe key = .ok pipe) ↔
      ((keyByte key).isSome →
        (pushed es).length < (pops es).length + 128) := by
  have hlen := queued_length hrun
  have hcap := capacity_run hrun
  cases hkey : keyboardHandler s.pipe key with
  | ok pipe =>
      refine iff_of_true ⟨pipe, rfl⟩ fun hbyte => ?_
      by_contra hnot
      obtain ⟨c, hc⟩ := Option.isSome_iff_exists.mp hbyte
      rw [keyboardHandler_eq_error.mpr ⟨c, hc, by omega, rfl⟩] at hkey
      cases hkey
  | error p =>
      refine iff_of_false ?_ fun hroom => ?_
      · intro h
        obtain ⟨pipe, hpipe⟩ := h
        cases hpipe
      · obtain ⟨c, hc, hfull, -⟩ := keyboardHandler_eq_error.mp hkey
        have hlt := hroom (by rw [hc]; rfl)
        omega

/-- A run without a panic is a run of the pipe whose keys all had room;
one that ends in a panic has a key that had none. -/
theorem typing_history {mem : Mem} {es : List Event}
    {st : Except Panic State} (hrun : (typingSys mem).Run es st) :
    (∀ s, st = .ok s → (pipeSys mem).Run es s ∧ RoomAtKeys es)
      ∧ ∀ p, st = .error p → ¬ RoomAtKeys es := by
  refine hrun.history (I := fun es st =>
    (∀ s, st = .ok s → (pipeSys mem).Run es s ∧ RoomAtKeys es)
      ∧ ∀ p, st = .error p → ¬ RoomAtKeys es) ?_ ?_
  · intro st hinit
    obtain ⟨s, hs, rfl⟩ := hinit
    refine ⟨?_, fun p hp => by cases hp⟩
    intro s' hs'
    obtain rfl := Except.ok.inj hs'
    exact ⟨.start hs, roomAtKeys_nil⟩
  · intro es st e st' _ hI hstep
    obtain ⟨s, rfl, hstep⟩ := hstep
    obtain ⟨hpipe, hroom⟩ := hI.1 s rfl
    -- the steps of a read cannot panic and ask for no room
    have hother : (∃ s', (pipeSys mem).step s e s' ∧ st' = .ok s') →
        (∀ key, e ≠ .key key) →
        (∀ s, st' = .ok s → (pipeSys mem).Run (es ++ [e]) s
            ∧ RoomAtKeys (es ++ [e]))
          ∧ ∀ p, st' = .error p → ¬ RoomAtKeys (es ++ [e]) := by
      intro hs' hnot
      obtain ⟨s', hs', rfl⟩ := hs'
      refine ⟨?_, fun p hp => by cases hp⟩
      intro t ht
      obtain rfl := Except.ok.inj ht
      exact ⟨hpipe.step hs', roomAtKeys_append.mpr
        ⟨hroom, fun key he => absurd he (hnot key)⟩⟩
    cases e with
    | key key =>
        refine ⟨?_, ?_⟩
        · intro s' hs'
          rw [hs'] at hstep
          obtain ⟨pipe, hkey, hres⟩ := bind_eq_ok.mp hstep.symm
          obtain rfl := Except.ok.inj hres
          have hbefore := (key_room hpipe key).mp ⟨pipe, hkey⟩
          refine ⟨hpipe.step ⟨pipe, hkey, rfl⟩,
            roomAtKeys_append.mpr ⟨hroom, ?_⟩⟩
          intro key' hkey'
          cases hkey'
          exact hbefore
        · intro p hp hall
          obtain ⟨pipe, hpipe'⟩ := (key_room hpipe key).mpr
            ((roomAtKeys_append.mp hall).2 key rfl)
          simp only [hpipe', ok_bind, pure_eq_ok] at hstep
          rw [hp] at hstep
          cases hstep
    | readSyscall fd buf count => exact hother hstep (by simp)
    | pop reader ret => exact hother hstep (by simp)
    | store reader a b => exact hother hstep (by simp)

-- ============================================================= the results

/-- In every run, with any keys and any reads, no call of the keyboard
handler has panicked if and only if each key with a byte came when fewer
than 128 bytes had been pushed and not popped by a read. -/
theorem typing_harmless_iff (mem : Mem) {es : List Event}
    {st : Except Panic State} (hrun : (typingSys mem).Run es st) :
    (∃ s, st = .ok s) ↔ RoomAtKeys es := by
  obtain ⟨hok, herror⟩ := typing_history hrun
  cases st with
  | ok s => exact iff_of_true ⟨s, rfl⟩ (hok s rfl).2
  | error p =>
      refine iff_of_false ?_ (herror p rfl)
      intro h
      obtain ⟨s, hs⟩ := h
      cases hs

/-- The key `a`. -/
def keyA : Event := .key (some (.unicode 'a'))

/-- A queue of `n` bytes typed with the key `a`. -/
def typed (n : Nat) (h : n ≤ 128) : Pipe :=
  ⟨⟨128, List.replicate n 97, by rw [List.length_replicate]; exact h⟩⟩

theorem typed_push {n : Nat} (h : n + 1 ≤ 128) :
    (typed n (by omega)).array.push 97 = some (typed (n + 1) h).array := by
  unfold Fifo.push
  rw [dif_pos (by simp only [typed, List.length_replicate]; omega)]
  simp only [typed, ← List.replicate_succ']

theorem run_typed (n : Nat) (h : n ≤ 128) :
    (typingSys fun _ => 0).Run (List.replicate n keyA)
      (.ok ⟨typed n h, [], fun _ => 0⟩) := by
  induction n with
  | zero => exact .start ⟨_, rfl, rfl⟩
  | succ n ih =>
      rw [List.replicate_succ']
      refine .step (ih (by omega)) ⟨_, rfl, ?_⟩
      show Except.ok _ = _
      have hkey : keyboardHandler (typed n (by omega))
          (some (.unicode 'a')) = .ok (typed (n + 1) h) := by
        show Pipe.write _ [97] = _
        rw [Pipe.write, typed_push h]
        rfl
      rw [hkey]
      rfl

/-- The key `a` typed 129 times while nobody reads. -/
theorem run_typed_over : (typingSys fun _ => 0).Run
    (List.replicate 129 keyA) (.error (.message (pipeFull 97))) := by
  rw [List.replicate_succ']
  refine .step (run_typed 128 (Nat.le_refl _)) ⟨_, rfl, ?_⟩
  show Except.error _ = _
  have hfull : (typed 128 (Nat.le_refl _)).array.capacity
      ≤ (typed 128 (Nat.le_refl _)).array.items.length := by
    simp [typed]
  rw [keyboardHandler_eq_error.mpr ⟨97, rfl, hfull, rfl⟩]
  rfl

theorem typing_harmless_over :
    ¬ RoomAtKeys (List.replicate 129 keyA) := by
  intro hroom
  obtain ⟨s, hs⟩ := (typing_harmless_iff _ run_typed_over).mpr hroom
  cases hs

/-- The 129th keystroke panics. -/
theorem typing_overflows :
    ¬ ∀ mem es st, (typingSys mem).Run es st → ∃ s, st = .ok s := by
  intro hall
  obtain ⟨s, hs⟩ := hall _ _ _ run_typed_over
  cases hs

end Bayos.Pipe
