import Mathlib.Data.List.Basic
import Mathlib.Data.List.Nodup
import Mathlib.Tactic.Common

/-! Singly linked chains. A chain structure is a successor function on nodes,
`none` being the null pointer; `Seg next p xs q` says that from pointer `p` the
links run through exactly the nodes `xs` and arrive at pointer `q`. A segment
that arrives at null is a finite chain, and such a chain never meets a node
twice (`Seg.nodup`), because the successor of a node determines the rest. -/

namespace Chain

open List

variable {α : Type*}

/-- The links from `p` run through the nodes `xs` and arrive at `q`. -/
def Seg (next : α → Option α) : Option α → List α → Option α → Prop
  | p, [], q => p = q
  | p, x :: xs, q => p = some x ∧ Seg next (next x) xs q

/-- A finite chain from `p` through `xs` to null. -/
abbrev IsChain (next : α → Option α) (p : Option α) (xs : List α) : Prop := Seg next p xs none

variable {next next' : α → Option α}

@[simp] theorem seg_nil {p q : Option α} : Seg next p [] q ↔ p = q := Iff.rfl

@[simp] theorem seg_cons {p q : Option α} {x : α} {xs : List α} :
    Seg next p (x :: xs) q ↔ p = some x ∧ Seg next (next x) xs q := Iff.rfl

theorem seg_append {xs ys : List α} : ∀ {p q : Option α},
    Seg next p (xs ++ ys) q ↔ ∃ r, Seg next p xs r ∧ Seg next r ys q := by
  induction xs with
  | nil => intro p q; simp
  | cons x xs ih =>
    intro p q
    simp only [cons_append, seg_cons, ih]
    exact ⟨fun ⟨hp, r, h1, h2⟩ => ⟨r, ⟨hp, h1⟩, h2⟩, fun ⟨r, ⟨hp, h1⟩, h2⟩ => ⟨hp, r, h1, h2⟩⟩

theorem seg_append_cons {xs ys : List α} {x : α} {p q : Option α} :
    Seg next p (xs ++ x :: ys) q ↔ Seg next p xs (some x) ∧ Seg next (next x) ys q := by
  rw [seg_append]
  constructor
  · rintro ⟨r, h1, h2, h3⟩; exact ⟨h2 ▸ h1, h3⟩
  · rintro ⟨h1, h2⟩; exact ⟨_, h1, rfl, h2⟩

/-- A segment depends on the links of its own nodes only. -/
theorem Seg.congr {xs : List α} : ∀ {p q : Option α}, Seg next p xs q →
    (∀ x ∈ xs, next' x = next x) → Seg next' p xs q := by
  induction xs with
  | nil => intro p q h _; exact h
  | cons x xs ih =>
    intro p q h hn
    refine ⟨h.1, ?_⟩
    rw [hn x (by simp)]
    exact ih h.2 fun y hy => hn y (by simp [hy])

/-- From one pointer, of two chains to null one is not a proper prefix of the other. -/
theorem IsChain.unique {xs : List α} : ∀ {ys : List α} {p : Option α},
    IsChain next p xs → IsChain next p ys → xs = ys := by
  induction xs with
  | nil =>
    intro ys p hx hy
    cases ys with
    | nil => rfl
    | cons y ys => rw [seg_nil.mp hx] at hy; cases hy.1
  | cons x xs ih =>
    intro ys p hx hy
    cases ys with
    | nil => rw [seg_nil.mp hy] at hx; cases hx.1
    | cons y ys =>
      obtain ⟨hp, hx⟩ := hx
      obtain ⟨hq, hy⟩ := hy
      cases Option.some.inj (hp.symm.trans hq)
      rw [ih hx hy]

/-- A chain that reaches null is acyclic: no node occurs twice. -/
theorem IsChain.nodup {xs : List α} : ∀ {p : Option α}, IsChain next p xs → xs.Nodup := by
  induction xs with
  | nil => intros; exact nodup_nil
  | cons x xs ih =>
    intro p h
    refine nodup_cons.mpr ⟨fun hm => ?_, ih h.2⟩
    -- a second visit of `x` would start the same chain again, one list inside the other
    obtain ⟨l, r, rfl⟩ := append_of_mem hm
    have hr := (seg_append_cons.mp h.2).2
    have := congrArg List.length (IsChain.unique h.2 hr)
    simp at this
    omega

/-- The nodes of a chain are closed under links. -/
theorem IsChain.next_mem {xs : List α} {x y : α} {p : Option α} (h : IsChain next p xs)
    (hx : x ∈ xs) (hy : next x = some y) : y ∈ xs := by
  obtain ⟨l, r, rfl⟩ := append_of_mem hx
  have hr := (seg_append_cons.mp h).2
  cases r with
  | nil => rw [hy] at hr; cases hr
  | cons z r =>
    have hz : next x = some z := hr.1
    rw [hy] at hz
    cases hz
    simp

theorem IsChain.head_mem {xs : List α} {x : α} (h : IsChain next (some x) xs) : x ∈ xs := by
  cases xs with
  | nil => cases h
  | cons y xs => cases h.1; simp

/-- A finite chain follows every segment from its start. -/
theorem IsChain.through {xs : List α} {x : α} : ∀ {ys : List α} {p : Option α},
    IsChain next p ys → Seg next p xs (some x) → ∃ zs, ys = xs ++ x :: zs ∧ IsChain next (next x) zs := by
  induction xs with
  | nil =>
    intro ys p h hs
    cases hs
    cases ys with
    | nil => cases h
    | cons y ys =>
      obtain ⟨hy, h⟩ := h
      cases hy
      exact ⟨ys, rfl, h⟩
  | cons z xs ih =>
    intro ys p h hs
    obtain ⟨rfl, hs⟩ := hs
    cases ys with
    | nil => cases h
    | cons y ys =>
      obtain ⟨hy, h⟩ := h
      cases hy
      obtain ⟨zs, hzs, hn⟩ := ih h hs
      exact ⟨zs, by rw [hzs]; rfl, hn⟩

/-- The last node of a segment links to where the segment arrives. -/
theorem Seg.last {xs : List α} {x : α} {p q : Option α} (h : Seg next p (xs ++ [x]) q) :
    next x = q := (seg_append_cons.mp h).2

/-- Unlinking: the predecessor of `x` (or the head pointer) takes over `next x`. -/
theorem Seg.relink {xs ys : List α} {p q r : Option α}
    (h1 : Seg next p xs r) (h2 : Seg next r ys q) : Seg next p (xs ++ ys) q :=
  seg_append.mpr ⟨r, h1, h2⟩

section Update
variable [DecidableEq α]

/-- The link of `x` set to `q`. -/
def setNext (next : α → Option α) (x : α) (q : Option α) : α → Option α :=
  Function.update next x q

@[simp] theorem setNext_self (next : α → Option α) (x : α) (q : Option α) :
    setNext next x q x = q := by simp [setNext]

theorem setNext_ne {x y : α} {q : Option α} (h : y ≠ x) : setNext next x q y = next y := by
  simp [setNext, h]

theorem Seg.setNext_of_notMem {xs : List α} {x : α} {p q r : Option α} (h : Seg next p xs q)
    (hx : x ∉ xs) : Seg (setNext next x r) p xs q :=
  h.congr fun _ hy => setNext_ne fun he => hx (he ▸ hy)

/-- A queue linked through the nodes: a new node goes behind the last one. -/
theorem IsChain.snoc {xs : List α} {x y : α} {p : Option α} (h : IsChain next p (xs ++ [y]))
    (hx : x ∉ xs ++ [y]) :
    IsChain (setNext (setNext next x none) y (some x)) p (xs ++ [y] ++ [x]) := by
  have hxy : x ≠ y := by rintro rfl; simp at hx
  have hnd := h.nodup
  rw [nodup_append] at hnd
  have hy : y ∉ xs := fun hm => hnd.2.2 y hm y (by simp) rfl
  have hxs : x ∉ xs := fun hm => hx (by simp [hm])
  obtain ⟨h1, h2⟩ := seg_append_cons.mp h
  rw [append_assoc]
  refine seg_append_cons.mpr ⟨(h1.setNext_of_notMem hxs).setNext_of_notMem hy, ?_⟩
  rw [setNext_self]
  refine ⟨rfl, ?_⟩
  rw [setNext_ne hxy, setNext_self]
  rfl

/-- The first node taken off: the rest is a chain from its link. -/
theorem IsChain.behead {xs : List α} {x : α} (h : IsChain next (some x) xs) :
    ∃ ys, xs = x :: ys ∧ x ∉ ys ∧ IsChain (setNext next x none) (next x) ys := by
  cases xs with
  | nil => cases h
  | cons z ys =>
    obtain ⟨hz, hys⟩ := id h
    cases hz
    have hx := (nodup_cons.mp h.nodup).1
    exact ⟨ys, rfl, hx, hys.setNext_of_notMem hx⟩

/-- A node taken out of a chain: its predecessor, or the head pointer, takes over
its link. -/
theorem IsChain.unlink {xs ys : List α} {x : α} {p : Option α}
    (h : IsChain next p (xs ++ x :: ys)) :
    IsChain (setNext (match xs.getLast? with
        | some y => setNext next y (next x)
        | none => next) x none)
      (match xs.getLast? with
        | some _ => p
        | none => next x) (xs ++ ys) := by
  have hnd := h.nodup
  rw [nodup_append] at hnd
  obtain ⟨hxs, hxys, hne⟩ := hnd
  have hx : x ∉ xs := fun hm => hne x hm x (by simp) rfl
  have hy : x ∉ ys := (nodup_cons.mp hxys).1
  obtain ⟨h1, h2⟩ := seg_append_cons.mp h
  cases hl : xs.getLast? with
  | none =>
    rw [List.getLast?_eq_none_iff.mp hl]
    exact h2.setNext_of_notMem hy
  | some y =>
    obtain ⟨zs, rfl⟩ := List.getLast?_eq_some_iff.mp hl
    have hyz : y ∉ zs := by
      rw [nodup_append] at hxs
      exact fun hm => hxs.2.2 y hm y (by simp) rfl
    have hyy : y ∉ ys := fun hm => hne y (by simp) y (by simp [hm]) rfl
    have hyx : y ≠ x := fun he => hx (by simp [he])
    obtain ⟨h0, h1⟩ := seg_append_cons.mp h1
    rw [append_assoc]
    dsimp only
    refine seg_append_cons.mpr ⟨(h0.setNext_of_notMem hyz).setNext_of_notMem fun hm =>
      hx (by simp [hm]), ?_⟩
    rw [setNext_ne hyx, setNext_self]
    exact (h2.setNext_of_notMem hyy).setNext_of_notMem hy

/-! ## Looking for a node -/

/-- The walk along the links to `x`. It comes back with the node passed last before `x`,
or with `none` at the end of the chain; the outer `none` is a walk that goes on for
longer than a chain of `fuel` nodes. -/
def walk (next : α → Option α) (x : α) : Nat → Option α → Option α → Option (Option (Option α))
  | _, _, none => some none
  | 0, _, some _ => none
  | fuel + 1, prev, some y =>
    if y = x then some (some prev) else walk next x fuel (some y) (next y)

theorem walk_found {x : α} {ys : List α} : ∀ {fuel : Nat} {prev cur : Option α} {zs : List α},
    IsChain next cur (zs ++ x :: ys) → x ∉ zs → zs.length < fuel →
      walk next x fuel prev cur = some (some (zs.getLast?.or prev))
  | 0, _, _, _, _, _, hlen => absurd hlen (Nat.not_lt_zero _)
  | fuel + 1, prev, cur, [], h, _, _ => by
    obtain ⟨rfl, _⟩ := h
    unfold walk
    rw [if_pos rfl]
    rfl
  | fuel + 1, prev, cur, z :: zs, h, hx, hlen => by
    obtain ⟨rfl, h⟩ := h
    have hz : z ≠ x := fun he => hx (by simp [he])
    unfold walk
    rw [if_neg hz, walk_found h (fun hm => hx (by simp [hm])) (Nat.lt_of_succ_lt_succ hlen),
      List.getLast?_cons]
    cases zs.getLast? <;> rfl

theorem walk_absent {x : α} : ∀ {fuel : Nat} {prev cur : Option α} {zs : List α},
    IsChain next cur zs → x ∉ zs → zs.length ≤ fuel → walk next x fuel prev cur = some none
  | _, _, _, [], h, _, _ => by
    cases h
    unfold walk
    rfl
  | 0, _, _, _ :: _, _, _, hlen => absurd hlen (Nat.not_succ_le_zero _)
  | fuel + 1, prev, cur, z :: zs, h, hx, hlen => by
    obtain ⟨rfl, h⟩ := h
    have hz : z ≠ x := fun he => hx (by simp [he])
    unfold walk
    rw [if_neg hz]
    exact walk_absent h (fun hm => hx (by simp [hm])) (Nat.le_of_succ_le_succ hlen)

end Update

end Chain
