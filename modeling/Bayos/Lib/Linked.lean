/-
Singly linked lists in memory.

A cell holds a value and a link, the address of the next cell; the head
is a cell of its own that no link leads to. `Chain m next l` says that
following links from `next` passes the cells `l`, addresses and values,
and then ends.

# What a client uses

- `Chain.congr`: a chain is as it was if its cells are.
- `Chain.nodup`: a chain that ends passes no cell twice.
- `Chain.unlink`: taking out the cell behind a place leaves the chain
  behind that place without it.
- `Chain.push`: a new cell behind the head.
-/
import Mathlib.Data.List.Basic
import Mathlib.Data.List.Nodup

namespace Lib.Linked

variable {α : Type}

-- ================================================================== memory

/-- A value and a link. -/
structure Cell (α : Type) where
  val : α
  next : Option Nat
  deriving DecidableEq, Repr

/-- Where a cell is. -/
inductive Place
  | head
  | cell (addr : Nat)
  deriving DecidableEq, Repr

theorem cell_ne_head (a : Nat) : Place.cell a ≠ .head := by
  rintro ⟨⟩

/-- The head, and the cells by address. -/
structure Memory (α : Type) where
  head : Cell α
  cells : Nat → Cell α

namespace Memory

def get (m : Memory α) : Place → Cell α
  | .head => m.head
  | .cell a => m.cells a

def set (m : Memory α) : Place → Cell α → Memory α
  | .head, c => { m with head := c }
  | .cell a, c => { m with cells := Function.update m.cells a c }

/-- The cell at `p` with another link. -/
def setNext (m : Memory α) (p : Place) (next : Option Nat) : Memory α :=
  m.set p ⟨(m.get p).val, next⟩

/-- The link of a cell, taken out of it. -/
def take (m : Memory α) (p : Place) : Option Nat × Memory α :=
  ((m.get p).next, m.setNext p none)

variable {m : Memory α} {p q : Place} {c : Cell α} {next next' : Option Nat}

@[simp] theorem get_set_self : (m.set p c).get p = c := by
  cases p with
  | head => rfl
  | cell a => exact Function.update_self ..

theorem get_set_of_ne (h : q ≠ p) : (m.set p c).get q = m.get q := by
  cases p with
  | head =>
      cases q with
      | head => exact absurd rfl h
      | cell b => rfl
  | cell a =>
      cases q with
      | head => rfl
      | cell b =>
          refine Function.update_of_ne ?_ ..
          rintro rfl
          exact h rfl

theorem get_setNext_self :
    (m.setNext p next).get p = ⟨(m.get p).val, next⟩ :=
  get_set_self

theorem get_setNext_of_ne (h : q ≠ p) : (m.setNext p next).get q = m.get q :=
  get_set_of_ne h

/-- Links change, values stay. -/
@[simp] theorem val_setNext :
    ((m.setNext p next).get q).val = (m.get q).val := by
  by_cases h : q = p
  · rw [h, get_setNext_self]
  · rw [get_setNext_of_ne h]

theorem set_set {c' : Cell α} : (m.set p c).set p c' = m.set p c' := by
  cases p with
  | head => rfl
  | cell a =>
      unfold set
      simp

theorem setNext_setNext :
    (m.setNext p next).setNext p next' = m.setNext p next' := by
  unfold setNext
  rw [get_set_self, set_set]

end Memory

-- ================================================================== chains

/-- The links from `next` on pass the cells `l` and end. -/
def Chain (m : Memory α) : Option Nat → List (Nat × α) → Prop
  | next, [] => next = none
  | next, (a, v) :: l => next = some a ∧ (m.get (.cell a)).val = v
      ∧ Chain m (m.get (.cell a)).next l

/-- The addresses of the cells of a chain. -/
def addrs (l : List (Nat × α)) : List Nat := l.map Prod.fst

namespace Chain

variable {m m' : Memory α} {next : Option Nat} {l l' : List (Nat × α)}
  {a : Nat} {v : α} {p : Place}

theorem congr (h : Chain m next l)
    (hsame : ∀ b ∈ addrs l, m'.get (.cell b) = m.get (.cell b)) :
    Chain m' next l := by
  induction l generalizing next with
  | nil => exact h
  | cons e l ih =>
      obtain ⟨a, v⟩ := e
      obtain ⟨hnext, hval, hrest⟩ := h
      have ha := hsame a (List.mem_cons_self ..)
      refine ⟨hnext, ha ▸ hval, ?_⟩
      rw [ha]
      exact ih hrest fun b hb => hsame b (List.mem_cons_of_mem _ hb)

/-- A place leads to one chain. -/
theorem unique (h : Chain m next l) (h' : Chain m next l') : l = l' := by
  induction l generalizing next l' with
  | nil =>
      cases l' with
      | nil => rfl
      | cons e l' => cases h.symm.trans h'.1
  | cons e l ih =>
      cases l' with
      | nil => cases h'.symm.trans h.1
      | cons e' l' =>
          obtain ⟨a, v⟩ := e
          obtain ⟨b, w⟩ := e'
          obtain ⟨hnext, hval, hrest⟩ := h
          obtain ⟨hnext', hval', hrest'⟩ := h'
          obtain rfl := Option.some.inj (hnext.symm.trans hnext')
          rw [← hval, ← hval', ih hrest hrest']

/-- The chain behind one of its cells. -/
theorem behind {front back : List (Nat × α)}
    (h : Chain m next (front ++ (a, v) :: back)) :
    Chain m (m.get (.cell a)).next back := by
  induction front generalizing next with
  | nil => exact h.2.2
  | cons e front ih => exact ih h.2.2

/-- A chain that ends passes no cell twice: what is behind a cell would
be behind it again. -/
theorem nodup (h : Chain m next l) : (addrs l).Nodup := by
  induction l generalizing next with
  | nil => exact List.nodup_nil
  | cons e l ih =>
      obtain ⟨a, v⟩ := e
      have hrest := h.2.2
      refine List.nodup_cons.mpr ⟨?_, ih hrest⟩
      intro hmem
      obtain ⟨⟨b, w⟩, hb, rfl⟩ := List.mem_map.mp hmem
      obtain ⟨front, back, rfl⟩ := List.append_of_mem hb
      have hlen := congrArg List.length (hrest.unique hrest.behind)
      simp only [List.length_append, List.length_cons] at hlen
      omega

/-- Taking out the cell behind `p` leaves, behind `p`, the rest of the
chain. -/
theorem unlink (h : Chain m (m.get p).next ((a, v) :: l))
    (hp : ∀ b ∈ addrs ((a, v) :: l), p ≠ .cell b) :
    Chain ((m.setNext (.cell a) none).setNext p (m.get (.cell a)).next)
      (m.get (.cell a)).next l := by
  have ha := (List.nodup_cons.mp h.nodup).1
  refine h.2.2.congr fun b hb => ?_
  have hpb : Place.cell b ≠ p := (hp b (List.mem_cons_of_mem _ hb)).symm
  have hab : Place.cell b ≠ .cell a := by
    rintro ⟨⟩
    exact ha hb
  rw [Memory.get_setNext_of_ne hpb, Memory.get_setNext_of_ne hab]

/-- A new cell in front of a chain whose first link was taken out of the
head. -/
theorem push (h : Chain m next l) (ha : a ∉ addrs l) :
    Chain (((m.setNext .head none).set (.cell a) ⟨v, next⟩).setNext .head
      (some a)) (some a) ((a, v) :: l) := by
  have hcell : (((m.setNext .head none).set (.cell a) ⟨v, next⟩).setNext
      .head (some a)).get (.cell a) = ⟨v, next⟩ := by
    rw [Memory.get_setNext_of_ne (cell_ne_head a), Memory.get_set_self]
  refine ⟨rfl, by rw [hcell], ?_⟩
  rw [hcell]
  refine h.congr fun b hb => ?_
  have hab : Place.cell b ≠ .cell a := by
    rintro ⟨⟩
    exact ha hb
  rw [Memory.get_setNext_of_ne (cell_ne_head b), Memory.get_set_of_ne hab,
    Memory.get_setNext_of_ne (cell_ne_head b)]

end Chain

end Lib.Linked
