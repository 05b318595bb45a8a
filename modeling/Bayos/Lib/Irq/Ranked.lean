/-
The third static condition on programs: locks that are held with
interrupts on are taken in the order of a rank. A thread that holds one
and waits for another then waits for a lock of higher rank, so threads
do not wait in a circle, and behind every wait there is a thread that
can go on (`waits_resolve`).

# Who waits

A thread that is not running is at the return from an interrupt. What it
waits for is seen behind that return, in the control stack it goes on
with (`resumed`).
-/
import Bayos.Lib.Irq.Safe
import Bayos.Lib.Irq.Section
import Mathlib.Logic.Relation

namespace Lib.Irq

open Relation

variable {L N D T H σ : Type} [DecidableEq L]

-- ============================================ locks taken in order of rank

/-- The locks of `S` that rank no higher than `l`. -/
def upTo (S : L → Bool) (rank : L → Nat) (l l' : L) : Bool :=
  S l' && decide (rank l' ≤ rank l)

/-- Inside a guard on a lock of `S`, only locks of `S` of higher rank are
taken. -/
def Cmd.ordered (S : L → Bool) (rank : L → Nat) : Cmd L N D T → Bool
  | .cond _ c d => c.ordered S rank && d.ordered S rank
  | .seq c d => c.ordered S rank && d.ordered S rank
  | .choice c d => c.ordered S rank && d.ordered S rank
  | .star c => c.ordered S rank
  | .locked l _ c =>
      (!S l || !c.touches (upTo S rank l)) && c.ordered S rank
  | .masked c => c.ordered S rank
  | _ => true

/-- A command of a control stack that goes on as `K`. -/
def OrderedOver (S : L → Bool) (rank : L → Nat) (c : Cmd L N D T)
    (K : List (Frame L N D T)) : Prop :=
  c.ordered S rank = true ∧ ∀ l, S l = true → holds l K = true →
    c.touches (upTo S rank l) = false

/-- No command of the control stack takes a lock of `S` above a guard on
one that ranks as high. -/
def OrderedStack (S : L → Bool) (rank : L → Nat) :
    List (Frame L N D T) → Prop
  | [] => True
  | .run c :: K => OrderedOver S rank c K ∧ OrderedStack S rank K
  | .enter _ c :: K => OrderedOver S rank c K ∧ OrderedStack S rank K
  | _ :: K => OrderedStack S rank K

section Parts

variable {S S' : L → Bool} {rank : L → Nat} {l l' : L} {m : Mode} {t : T}
  {c d : Cmd L N D T} {K : List (Frame L N D T)}

omit [DecidableEq L] in
/-- A command that takes no lock of a class takes none of a smaller
one. -/
theorem touches_mono (hsub : ∀ l, S' l = true → S l = true)
    (h : c.touches S = false) : c.touches S' = false := by
  induction c with
  | skip | act | sti | spawn | panic => rfl
  | cond t c d ihc ihd =>
      obtain ⟨hc, hd⟩ := Bool.or_eq_false_iff.mp h
      exact Bool.or_eq_false_iff.mpr ⟨ihc hc, ihd hd⟩
  | seq c d ihc ihd =>
      obtain ⟨hc, hd⟩ := Bool.or_eq_false_iff.mp h
      exact Bool.or_eq_false_iff.mpr ⟨ihc hc, ihd hd⟩
  | choice c d ihc ihd =>
      obtain ⟨hc, hd⟩ := Bool.or_eq_false_iff.mp h
      exact Bool.or_eq_false_iff.mpr ⟨ihc hc, ihd hd⟩
  | star c ih => exact ih h
  | locked l m c ih =>
      obtain ⟨hl, hc⟩ := Bool.or_eq_false_iff.mp h
      refine Bool.or_eq_false_iff.mpr ⟨?_, ih hc⟩
      by_cases hl' : S' l = true
      · exact absurd (hsub l hl') (by simp [hl])
      · simpa using hl'
  | masked c ih => exact ih h

theorem OrderedOver.parts (h : OrderedOver S rank (.seq c d) K) :
    OrderedOver S rank c K ∧ OrderedOver S rank d K := by
  obtain ⟨hord, hnone⟩ := h
  obtain ⟨hc, hd⟩ := Bool.and_eq_true_iff.mp hord
  have hparts : ∀ l, S l = true → holds l K = true →
      c.touches (upTo S rank l) = false
        ∧ d.touches (upTo S rank l) = false :=
    fun l hl hh => Bool.or_eq_false_iff.mp (hnone l hl hh)
  exact ⟨⟨hc, fun l hl hh => (hparts l hl hh).1⟩,
    hd, fun l hl hh => (hparts l hl hh).2⟩

/-- A command inside its guard: what it takes ranks above the guard's
lock, and above what is held around it. -/
theorem OrderedOver.locked (h : OrderedOver S rank (.locked l m c) K) :
    OrderedOver S rank c (.unlock l m :: K) := by
  obtain ⟨hord, hnone⟩ := h
  obtain ⟨hself, hc⟩ := Bool.and_eq_true_iff.mp hord
  refine ⟨hc, fun l' hl' hh => ?_⟩
  by_cases heq : l = l'
  · subst heq
    rcases Bool.or_eq_true_iff.mp hself with hS | htouch
    · exact absurd hl' (by simpa using hS)
    · simpa using htouch
  · rw [holds_unlock_ne heq] at hh
    exact (Bool.or_eq_false_iff.mp (hnone l' hl' hh)).2

/-- Who is about to take a lock of `S` holds locks of lower rank only. -/
theorem OrderedOver.rank_lt (h : OrderedOver S rank (.locked l m c) K)
    (hl : S l = true) (hl' : S l' = true) (hh : holds l' K = true) :
    rank l' < rank l := by
  have hnone := (Bool.or_eq_false_iff.mp (h.2 l' hl' hh)).1
  simpa [upTo, hl] using hnone

end Parts

/-- All code of a system keeps to the order, and its handlers stay clear
of the locks that are ordered. -/
structure Sys.OrderedOk (sys : Sys L N D T H σ) (S : L → Bool)
    (rank : L → Nat) : Prop where
  code : ∀ n, (sys.code n).ordered S rank = true
  handler : ∀ h, (sys.handler h).body.ordered S rank = true
  clear : ∀ h, (sys.handler h).body.touches S = false

/-- Every thread keeps to the order. -/
def OrderedInv (S : L → Bool) (rank : L → Nat) (s : State L N D T σ) :
    Prop :=
  ∀ (i : Nat) (K : List (Frame L N D T)), s.threads[i]? = some K →
    OrderedStack S rank K

section Ordered

variable {sys : Sys L N D T H σ} {S : L → Bool} {rank : L → Nat}
  {s s' : State L N D T σ}

theorem OrderedInv.stack (h : OrderedInv S rank s)
    (hcur : s.cur < s.threads.length) : OrderedStack S rank s.stack := by
  have hget := List.getElem?_eq_getElem hcur
  rw [stack_of_getElem? hget]
  exact h _ _ hget

/-- The current thread moves on. -/
theorem OrderedInv.goto (h : OrderedInv S rank s)
    {K : List (Frame L N D T)} {on : Bool} {cur : Nat} {d : σ}
    (hK : OrderedStack S rank s.stack → OrderedStack S rank K) :
    OrderedInv S rank ⟨(s.goto K).threads, cur, on, d⟩ := by
  intro i K' hK'
  rcases goto_some hK' with ⟨rfl, rfl⟩ | ⟨-, hold⟩
  · have hlt := (List.getElem?_eq_some_iff.mp hK').1
    rw [goto_length] at hlt
    exact hK (h.stack hlt)
  · exact h i K' hold

/-- The current thread takes a step of the command on top. -/
theorem OrderedInv.run (h : OrderedInv S rank s) {c : Cmd L N D T}
    {K K' : List (Frame L N D T)} {on : Bool} {cur : Nat} {d : σ}
    (hstack : s.stack = .run c :: K)
    (hK : OrderedOver S rank c K → OrderedStack S rank K →
      OrderedStack S rank K') :
    OrderedInv S rank ⟨(s.goto K').threads, cur, on, d⟩ := by
  refine h.goto fun hs => ?_
  rw [hstack] at hs
  exact hK hs.1 hs.2

theorem orderedInv_stepCmd (hsys : sys.OrderedOk S rank)
    (h : OrderedInv S rank s) {left : Bool} {c : Cmd L N D T}
    {K : List (Frame L N D T)} (hstack : s.stack = .run c :: K)
    (hstep : sys.stepCmd s left K c = some s') : OrderedInv S rank s' := by
  cases c with
  | skip | act | sti | panic =>
      obtain rfl := Option.some.inj hstep
      exact h.run hstack fun _ hK => hK
  | cond t c d =>
      obtain rfl := Option.some.inj hstep
      refine h.run hstack fun hcd hK => ?_
      obtain ⟨hc, hd⟩ := OrderedOver.parts hcd
      cases sys.test t s.cur s.data with
      | true => exact ⟨hc, hK⟩
      | false => exact ⟨hd, hK⟩
  | seq c d =>
      obtain rfl := Option.some.inj hstep
      refine h.run hstack fun hcd hK => ?_
      obtain ⟨hc, hd⟩ := hcd.parts
      exact ⟨hc, hd, hK⟩
  | choice c d =>
      obtain rfl := Option.some.inj hstep
      refine h.run hstack fun hcd hK => ?_
      obtain ⟨hc, hd⟩ := OrderedOver.parts hcd
      cases left with
      | true => exact ⟨hc, hK⟩
      | false => exact ⟨hd, hK⟩
  | star c =>
      obtain rfl := Option.some.inj hstep
      refine h.run hstack fun hc hK => ?_
      cases left with
      | true => exact ⟨hc, hc, hK⟩
      | false => exact hK
  | locked l m c =>
      simp only [Sys.stepCmd] at hstep
      split at hstep
      case isFalse => cases hstep
      case isTrue =>
        obtain rfl := Option.some.inj hstep
        exact h.run hstack fun hc hK => ⟨hc.locked, hK⟩
  | masked c =>
      obtain rfl := Option.some.inj hstep
      exact h.run hstack fun hc hK => ⟨hc, hK⟩
  | spawn n =>
      obtain rfl := Option.some.inj hstep
      have hgoto : OrderedInv S rank
          ⟨(s.goto K).threads, s.cur, s.on, s.data⟩ :=
        h.run hstack fun _ hK => hK
      intro i J hJ
      rcases getElem?_concat_some hJ with hold | ⟨-, rfl⟩
      · exact hgoto i J hold
      · exact ⟨⟨hsys.code n, fun _ _ hh => Bool.noConfusion hh⟩, trivial⟩

theorem orderedInv_step (hsys : sys.OrderedOk S rank)
    (h : OrderedInv S rank s) {e : Label H}
    (hstep : sys.step s e = some s') : OrderedInv S rank s' := by
  cases e with
  | interrupt i =>
      simp only [Sys.step] at hstep
      split at hstep
      case isFalse => cases hstep
      case isTrue =>
        obtain rfl := Option.some.inj hstep
        have hbody : ∀ J : List (Frame L N D T),
            OrderedOver S rank (sys.handler i).body J := by
          refine fun J => ⟨hsys.handler i, fun l _ _ => ?_⟩
          exact touches_mono (fun l' hl' => (Bool.and_eq_true_iff.mp hl').1)
            (hsys.clear i)
        refine h.goto fun hs => ?_
        unfold Handler.entry
        split
        · exact ⟨hbody _, hs⟩
        · exact ⟨hbody _, hs⟩
  | step left =>
      have hstack : sys.stepStack s left s.stack = some s' := hstep
      cases hK : s.stack with
      | nil => rw [hK] at hstack; cases hstack
      | cons f K =>
          rw [hK] at hstack
          cases f with
          | run c => exact orderedInv_stepCmd hsys h hK hstack
          | enter | unlock | unmask | reschedule | iret =>
              obtain rfl := Option.some.inj hstack
              refine h.goto fun hs => ?_
              rw [hK] at hs
              exact hs
          | halted => cases hstack

end Ordered

-- ====================================================== who waits for whom

/-- A control stack past its return from an interrupt. -/
def resumed : List (Frame L N D T) → List (Frame L N D T)
  | .iret true :: K => K
  | K => K

/-- Thread `i` is about to take `l`, and has to wait for it. -/
def State.WaitsFor (s : State L N D T σ) (i : Nat) (l : L) : Prop :=
  ∃ K m c K', s.threads[i]? = some K ∧ resumed K = .run (.locked l m c) :: K'
    ∧ s.available l m = false

/-- Thread `i` waits for a lock that thread `j` holds. -/
def State.WaitsOn (s : State L N D T σ) (i j : Nat) : Prop :=
  ∃ l K, s.WaitsFor i l ∧ s.threads[j]? = some K ∧ holds l K = true

/-- Thread `j` can go on, as soon as it runs and is back from the
interrupt it may be in. -/
def Sys.Ready (sys : Sys L N D T H σ) (s : State L N D T σ) (j : Nat) :
    Prop :=
  ∃ K, s.threads[j]? = some K ∧
    ∀ left, (sys.stepStack { s with cur := j } left (resumed K)).isSome

section Waiting

variable {sys : Sys L N D T H σ} {irq S : L → Bool} {rank : L → Nat}
  {s : State L N D T σ} {i j : Nat} {l l' : L}
  {K : List (Frame L N D T)}

theorem OrderedStack.resumed (h : OrderedStack S rank K) :
    OrderedStack S rank (resumed K) := by
  unfold Irq.resumed
  split
  · exact h
  · exact h

theorem holds_resumed (l : L) (K : List (Frame L N D T)) :
    holds l (resumed K) = holds l K := by
  unfold resumed
  split
  · rfl
  · rfl

/-- A lock that is not available is held. -/
theorem held_of_unavailable {m : Mode} (h : s.available l m = false) :
    ∃ (j : Nat) (K : List (Frame L N D T)), s.threads[j]? = some K
      ∧ holds l K = true := by
  by_contra hnone
  have hfree : s.Free l := by
    intro K hK
    obtain ⟨j, hj⟩ := List.mem_iff_getElem?.mp hK
    by_contra hh
    exact hnone ⟨j, K, hj, by simpa using hh⟩
  rw [available_of_free hfree m] at h
  cases h

/-- Threads wait for locks that are held with interrupts on. -/
theorem waitsFor_class (hflow : FlowInv irq s)
    (hfree : ∀ l m c K, irq l = true →
      s.stack = .run (.locked l m c) :: K → s.Free l)
    (h : s.WaitsFor i l) : irq l = false := by
  obtain ⟨K, m, c, K', hK, hres, hav⟩ := h
  by_contra hirq
  rw [Bool.not_eq_false] at hirq
  -- behind a return to code with interrupts on, no such lock is taken
  have hon : ∀ J : List (Frame L N D T), Flows irq true J →
      J ≠ .run (.locked l m c) :: K' := by
    rintro J hJ rfl
    obtain ⟨on, hf, -⟩ := hJ
    simp [Cmd.flow, hirq] at hf
  by_cases hi : i = s.cur
  · subst hi
    have hrun := hflow.running
    rw [stack_of_getElem? hK] at hrun
    unfold resumed at hres
    split at hres
    · exact hon _ hrun.2 hres
    · have hstack := (stack_of_getElem? hK).trans hres
      rw [available_of_free (hfree l m c K' hirq hstack)] at hav
      cases hav
  · obtain ⟨J, rfl, hJ⟩ := hflow.suspended i K hi hK
    exact hon J hJ hres

/-- Behind a lock that is waited for, only locks of lower rank are
held. -/
theorem rank_lt_of_waits (hord : OrderedInv S rank s)
    (hK : s.threads[i]? = some K) (h : s.WaitsFor i l) (hl : S l = true)
    (hl' : S l' = true) (hh : holds l' K = true) : rank l' < rank l := by
  obtain ⟨J, m, c, K', hJ, hres, -⟩ := h
  obtain rfl : K = J := Option.some.inj (hK.symm.trans hJ)
  have hover := (hord i K hK).resumed
  rw [hres] at hover
  refine hover.1.rank_lt hl hl' ?_
  rw [← holds_resumed, hres] at hh
  exact hh

/-- A thread waits for one lock. -/
theorem waitsFor_unique (h : s.WaitsFor i l) (h' : s.WaitsFor i l') :
    l = l' := by
  obtain ⟨K, m, c, J, hK, hres, -⟩ := h
  obtain ⟨K', m', c', J', hK', hres', -⟩ := h'
  obtain rfl : K = K' := Option.some.inj (hK.symm.trans hK')
  have htop := (List.cons.inj (hres.symm.trans hres')).1
  cases htop
  rfl

/-- Along threads that wait for one another, the ranks of the locks they
wait for go up. -/
theorem rank_lt_of_chain (hord : OrderedInv S rank s)
    (hclass : ∀ i l, s.WaitsFor i l → S l = true)
    (h : TransGen s.WaitsOn i j) (hi : s.WaitsFor i l) :
    ∀ {l'}, s.WaitsFor j l' → rank l < rank l' := by
  induction h with
  | single hon =>
      intro l' hj
      obtain ⟨l₀, K, hi', hK, hh⟩ := hon
      obtain rfl := waitsFor_unique hi hi'
      exact rank_lt_of_waits hord hK hj (hclass _ _ hj) (hclass _ _ hi) hh
  | tail _ hon ih =>
      intro l' hj
      obtain ⟨l₀, K, hb, hK, hh⟩ := hon
      have hlast :=
        rank_lt_of_waits hord hK hj (hclass _ _ hj) (hclass _ _ hb) hh
      exact Nat.lt_trans (ih hb) hlast

/-- Threads do not wait in a circle. -/
theorem no_circle (hord : OrderedInv S rank s)
    (hclass : ∀ i l, s.WaitsFor i l → S l = true) (i : Nat) :
    ¬ TransGen s.WaitsOn i i := by
  intro h
  have hwaits : ∃ l, s.WaitsFor i l := by
    obtain ⟨b, ⟨l, -, hl, -⟩, -⟩ := TransGen.head'_iff.mp h
    exact ⟨l, hl⟩
  obtain ⟨l, hl⟩ := hwaits
  exact Nat.lt_irrefl _ (rank_lt_of_chain hord hclass h hl hl)

/-- A thread that holds a lock and does not wait can go on. -/
theorem ready_of_holds (hflow : FlowInv irq s)
    (hlive : ∀ K, s.stack ≠ .halted :: K) (hK : s.threads[j]? = some K)
    (hh : holds l K = true) (hnone : ∀ l', ¬ s.WaitsFor j l') :
    sys.Ready s j := by
  refine ⟨K, hK, fun left => ?_⟩
  rw [← holds_resumed] at hh
  cases hres : resumed K with
  | nil => rw [hres] at hh; cases hh
  | cons f J =>
      cases f with
      | run c =>
          cases c with
          | locked l' m c =>
              have hav : s.available l' m = true := by
                by_contra hav
                exact hnone l' ⟨K, m, c, J, hK, hres, by simpa using hav⟩
              show (if s.available l' m then _ else none).isSome = true
              rw [if_pos hav]
              rfl
          | _ => rfl
      | halted =>
          exfalso
          by_cases hj : j = s.cur
          · subst hj
            have hrun := hflow.running
            rw [stack_of_getElem? hK] at hrun
            unfold resumed at hres
            split at hres
            · subst hres
              exact Bool.noConfusion hrun.2
            · exact hlive J ((stack_of_getElem? hK).trans hres)
          · obtain ⟨K', rfl, hK'⟩ := hflow.suspended j K hj hK
            have hhalted : K' = .halted :: J := hres
            subst hhalted
            exact Bool.noConfusion hK'
      | _ => rfl

/-- Behind every wait, along threads that wait for one another, there is
one that can go on. -/
theorem waits_resolve {bound : Nat} (hbound : ∀ l, rank l < bound)
    (hflow : FlowInv irq s) (hord : OrderedInv S rank s)
    (hclass : ∀ i l, s.WaitsFor i l → S l = true)
    (hlive : ∀ K, s.stack ≠ .halted :: K) (n : Nat) :
    ∀ {i l}, s.WaitsFor i l → bound - rank l ≤ n →
      ∃ j, TransGen s.WaitsOn i j ∧ sys.Ready s j := by
  -- a holder that waits in turn waits for a lock of higher rank
  induction n with
  | zero =>
      intro i l hi hn
      have := hbound l
      omega
  | succ n ih =>
      intro i l hi hn
      obtain ⟨-, m, -, -, -, -, hav⟩ := id hi
      obtain ⟨j, K, hK, hh⟩ := held_of_unavailable hav
      have hon : s.WaitsOn i j := ⟨l, K, hi, hK, hh⟩
      by_cases hj : ∃ l', s.WaitsFor j l'
      · obtain ⟨l', hj⟩ := hj
        have hlt :=
          rank_lt_of_waits hord hK hj (hclass _ _ hj) (hclass _ _ hi) hh
        have hbound' := hbound l'
        obtain ⟨k, hchain, hready⟩ := ih hj (by omega)
        exact ⟨k, hchain.head hon, hready⟩
      · rw [not_exists] at hj
        exact ⟨j, .single hon, ready_of_holds hflow hlive hK hh hj⟩

/-- With interrupts off the current thread finds every lock it takes, if
the locks of `irq` are free and no other thread has one of `S`. -/
theorem available_of_off (hord : OrderedInv S rank s)
    (hflow : FlowInv irq s) (hoff : s.on = false) (hstuck : ¬ s.Stuck S)
    (hfree : ∀ l m c K, irq l = true →
      s.stack = .run (.locked l m c) :: K → s.Free l)
    (hS : ∀ l, irq l = false → S l = true) {m : Mode} {c : Cmd L N D T}
    (hstack : s.stack = .run (.locked l m c) :: K) :
    s.available l m = true := by
  by_cases hirq : irq l = true
  · exact available_of_free (hfree l m c K hirq hstack) m
  have hl := hS l (by simpa using hirq)
  by_contra hav
  obtain ⟨j, J, hJ, hh⟩ := held_of_unavailable (by simpa using hav)
  by_cases hj : j = s.cur
  · subst hj
    have hover := hord.stack hflow.cur
    rw [← stack_of_getElem? hJ] at hh
    rw [hstack] at hover hh
    exact Nat.lt_irrefl _ (hover.1.rank_lt hl hl hh)
  · exact hstuck ⟨hoff, l, m, c, K, hstack, hl, j, J, hj, hJ, hh⟩

/-- A thread that finds the lock it may be about to take has a step. -/
theorem step_of_available {f : Frame L N D T} (hstack : s.stack = f :: K)
    (hlive : f ≠ .halted)
    (hav : ∀ l m c, f = .run (.locked l m c) → s.available l m = true)
    (left : Bool) : ∃ s', sys.step s (.step left) = some s' := by
  show ∃ s', sys.stepStack s left s.stack = some s'
  rw [hstack]
  cases f with
  | run c =>
      cases c with
      | locked l m c => exact ⟨_, if_pos (hav l m c rfl)⟩
      | _ => exact ⟨_, rfl⟩
  | halted => exact absurd rfl hlive
  | _ => exact ⟨_, rfl⟩

end Waiting

-- =================================================== runs that are guarded

/-- `ok` holds before each of the labels. -/
def Sys.throughout (sys : Sys L N D T H σ) (ok : State L N D T σ → Bool) :
    List (Label H) → State L N D T σ → Bool
  | [], _ => true
  | e :: es, s => ok s && (sys.step s e).all (sys.throughout ok es)

theorem replay_guarded {sys : Sys L N D T H σ} {start : State L N D T σ}
    {P : State L N D T σ → Label H → Prop} {ok : State L N D T σ → Bool}
    (hok : ∀ s e, ok s = true → P s e) (es : List (Label H)) :
    ∀ {s s' : State L N D T σ},
      ((sys.toTransSys start).guard P).Reachable s →
      sys.throughout ok es s = true → sys.replay es s = some s' →
      ((sys.toTransSys start).guard P).Reachable s' := by
  induction es with
  | nil =>
      intro s s' hs _ h
      exact Option.some.inj h ▸ hs
  | cons e es ih =>
      intro s s' hs halong h
      obtain ⟨t, hstep, hrest⟩ := Option.bind_eq_some_iff.mp h
      obtain ⟨hhere, hthere⟩ := Bool.and_eq_true_iff.mp halong
      rw [hstep] at hthere
      exact ih (hs.next ⟨hstep, hok s e hhere⟩) hthere hrest

end Lib.Irq
