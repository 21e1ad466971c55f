import Serotonin.Lib.Chain

/-! Doubly linked lists with a head and a tail pointer: the forward links run
through the nodes in order, the backward links through the same nodes in reverse.
Removing a node and pushing one to the front are given as functions on the links,
so that a program's own versions can be compared with them. -/

namespace Chain

variable {α : Type*}

/-- The pointers that make up a doubly linked list. -/
structure Links (α : Type*) where
  next : α → Option α
  prev : α → Option α
  head : Option α
  tail : Option α

namespace Links

/-- The links spell the list `xs` in both directions. -/
structure Spells (l : Links α) (xs : List α) : Prop where
  forth : IsChain l.next l.head xs
  back : IsChain l.prev l.tail xs.reverse

theorem Spells.nodup {l : Links α} {xs : List α} (h : l.Spells xs) : xs.Nodup := h.forth.nodup

theorem spells_nil {n p : α → Option α} : Spells ⟨n, p, none, none⟩ [] := ⟨rfl, rfl⟩

/-- The node in front of `x`. -/
theorem Spells.prev_eq {l : Links α} {xs ys : List α} {x : α} (h : l.Spells (xs ++ x :: ys)) :
    l.prev x = xs.getLast? := by
  have hb := h.back
  rw [List.reverse_append, List.reverse_cons, List.append_assoc] at hb
  have hx := (seg_append_cons.mp hb).2
  rw [← List.head?_reverse]
  cases hr : xs.reverse with
  | nil => rw [hr] at hx; exact hx
  | cons y zs => rw [hr] at hx; exact hx.1

/-- The node behind `x`. -/
theorem Spells.next_eq {l : Links α} {xs ys : List α} {x : α} (h : l.Spells (xs ++ x :: ys)) :
    l.next x = ys.head? := by
  have hx := (seg_append_cons.mp h.forth).2
  cases ys with
  | nil => exact hx
  | cons y ys => exact hx.1

theorem Spells.tail_eq {l : Links α} {xs : List α} (h : l.Spells xs) : l.tail = xs.getLast? := by
  have hb := h.back
  rw [← List.head?_reverse]
  cases hr : xs.reverse with
  | nil => rw [hr] at hb; exact hb
  | cons y ys => rw [hr] at hb; exact hb.1

variable [DecidableEq α]

def remove (l : Links α) (x : α) : Links α where
  next := setNext (match l.prev x with
    | some y => setNext l.next y (l.next x)
    | none => l.next) x none
  prev := setNext (match l.next x with
    | some y => setNext l.prev y (l.prev x)
    | none => l.prev) x none
  head := match l.prev x with
    | some _ => l.head
    | none => l.next x
  tail := match l.next x with
    | some _ => l.tail
    | none => l.prev x

def pushFront (l : Links α) (x : α) : Links α where
  next := setNext l.next x l.head
  prev := match l.head with
    | some h => setNext (setNext l.prev x none) h (some x)
    | none => setNext l.prev x none
  head := some x
  tail := match l.head with
    | some _ => l.tail
    | none => some x

theorem Spells.remove {l : Links α} {xs ys : List α} {x : α} (h : l.Spells (xs ++ x :: ys)) :
    (l.remove x).Spells (xs ++ ys) := by
  refine ⟨?_, ?_⟩
  · have hf := h.forth.unlink
    rw [← h.prev_eq] at hf
    exact hf
  · have hb := h.back
    rw [List.reverse_append, List.reverse_cons, List.append_assoc] at hb
    have hu := IsChain.unlink hb
    rw [List.getLast?_reverse, ← h.next_eq] at hu
    rw [List.reverse_append]
    exact hu

theorem Spells.pushFront {l : Links α} {xs : List α} {x : α} (h : l.Spells xs) (hx : x ∉ xs) :
    (l.pushFront x).Spells (x :: xs) := by
  refine ⟨⟨rfl, ?_⟩, ?_⟩
  · show IsChain (setNext l.next x l.head) (setNext l.next x l.head x) xs
    rw [setNext_self]
    exact h.forth.setNext_of_notMem hx
  · rw [List.reverse_cons]
    have hhead : l.head = xs.head? := by
      cases xs with
      | nil => exact h.forth
      | cons y ys => exact h.forth.1
    unfold Links.pushFront
    cases xs with
    | nil =>
      rw [hhead]
      exact ⟨rfl, setNext_self ..⟩
    | cons y ys =>
      rw [hhead]
      have hb := h.back
      rw [List.reverse_cons] at hb ⊢
      exact hb.snoc (by simpa [and_comm] using hx)

end Links

end Chain
