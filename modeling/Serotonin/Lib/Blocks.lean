import Mathlib.Algebra.BigOperators.Group.List.Basic
import Mathlib.Data.List.Pairwise
import Mathlib.Data.List.Perm.Basic
import Mathlib.Data.Nat.Bitwise
import Mathlib.Tactic.Common

/-! Aligned blocks of a power of two. A block of order `o` is `2 ^ o` cells from a
multiple of `2 ^ o` on. Blocks tile a range of cells when no two of them overlap, none
leaves the range and their sizes add up to its length; splitting a block in halves, and
merging a block with its buddy, keeps a tiling. -/

namespace Blocks

open List

/-- The first cell, and the order. -/
abbrev Block := Nat × Nat

def size (b : Block) : Nat := 2 ^ b.2

/-- One ends where the other has not begun. -/
def Apart (a b : Block) : Prop := a.1 + size a ≤ b.1 ∨ b.1 + size b ≤ a.1

structure Tiles (n : Nat) (L : List Block) : Prop where
  aligned : ∀ b ∈ L, size b ∣ b.1
  within : ∀ b ∈ L, b.1 + size b ≤ n
  apart : L.Pairwise Apart
  total : (L.map size).sum = n

theorem size_pos (b : Block) : 0 < size b := Nat.two_pow_pos b.2

theorem Apart.symm {a b : Block} (h : Apart a b) : Apart b a := Or.symm h

instance : Std.Symm Apart := ⟨fun _ _ h => h.symm⟩

theorem Apart.ne {a b : Block} (h : Apart a b) : a.1 ≠ b.1 := by
  intro he
  have ha := size_pos a
  have hb := size_pos b
  unfold Apart at h
  omega

/-- What lies inside a block is apart from whatever the block is apart from. -/
theorem Apart.inside {a b c : Block} (h : Apart a b) (h1 : a.1 ≤ c.1) (h2 : c.1 + size c ≤ a.1 + size a) :
    Apart c b := by
  unfold Apart at h ⊢
  omega

theorem Tiles.nil : Tiles 0 [] where
  aligned _ hb := nomatch hb
  within _ hb := nomatch hb
  apart := .nil
  total := rfl

theorem Tiles.perm {n : Nat} {L L' : List Block} (h : Tiles n L) (hp : L.Perm L') : Tiles n L' where
  aligned b hb := h.aligned b (hp.mem_iff.mpr hb)
  within b hb := h.within b (hp.mem_iff.mpr hb)
  apart := (hp.pairwise_iff fun hab => hab.symm).mp h.apart
  total := by rw [← h.total]; exact (hp.map size).sum_eq.symm

/-- The cells behind a tiled range are tiled by one more block. -/
theorem Tiles.extend {n : Nat} {L : List Block} (h : Tiles n L) {o : Nat} (hd : 2 ^ o ∣ n) :
    Tiles (n + 2 ^ o) ((n, o) :: L) where
  aligned b hb := by
    rcases mem_cons.mp hb with he | hb
    · rw [he]; exact hd
    · exact h.aligned b hb
  within b hb := by
    rcases mem_cons.mp hb with he | hb
    · rw [he]; exact Nat.le_refl _
    · exact Nat.le_trans (h.within b hb) (Nat.le_add_right _ _)
  apart := pairwise_cons.mpr ⟨fun b hb => .inr (h.within b hb), h.apart⟩
  total := by
    rw [map_cons, sum_cons, h.total]
    exact Nat.add_comm _ _

theorem dvd_half {i o : Nat} (h : 2 ^ (o + 1) ∣ i) : 2 ^ o ∣ i :=
  Nat.dvd_trans (Nat.pow_dvd_pow 2 (Nat.le_succ o)) h

/-- A block and its two halves. -/
theorem Tiles.split {n i o : Nat} {L : List Block} (h : Tiles n ((i, o + 1) :: L)) :
    Tiles n ((i, o) :: (i + 2 ^ o, o) :: L) := by
  have hdvd : 2 ^ o ∣ i := dvd_half (h.aligned _ mem_cons_self)
  have hin : i + 2 ^ (o + 1) ≤ n := h.within _ mem_cons_self
  obtain ⟨hi, hL⟩ := pairwise_cons.mp h.apart
  refine ⟨fun b hb => ?_, fun b hb => ?_, pairwise_cons.mpr ⟨fun b hb => ?_,
    pairwise_cons.mpr ⟨fun b hb => ?_, hL⟩⟩, ?_⟩
  · rcases mem_cons.mp hb with he | hb
    · rw [he]; exact hdvd
    rcases mem_cons.mp hb with he | hb
    · rw [he]; exact Nat.dvd_add hdvd (Nat.dvd_refl _)
    · exact h.aligned b (mem_cons_of_mem _ hb)
  · rcases mem_cons.mp hb with he | hb
    · rw [he]
      show i + 2 ^ o ≤ n
      omega
    rcases mem_cons.mp hb with he | hb
    · rw [he]
      show i + 2 ^ o + 2 ^ o ≤ n
      omega
    · exact h.within b (mem_cons_of_mem _ hb)
  · rcases mem_cons.mp hb with he | hb
    · rw [he]; exact .inl (Nat.le_refl _)
    · refine (hi b hb).inside (Nat.le_refl _) ?_
      show i + 2 ^ o ≤ i + 2 ^ (o + 1)
      omega
  · refine (hi b hb).inside (Nat.le_add_right _ _) ?_
    show i + 2 ^ o + 2 ^ o ≤ i + 2 ^ (o + 1)
    omega
  · rw [← h.total]
    show 2 ^ o + (2 ^ o + (L.map size).sum) = 2 ^ (o + 1) + (L.map size).sum
    omega

/-- The halves of a block merged. -/
theorem Tiles.merge {n i o : Nat} {L : List Block} (h : Tiles n ((i, o) :: (i + 2 ^ o, o) :: L))
    (hd : 2 ^ (o + 1) ∣ i) : Tiles n ((i, o + 1) :: L) := by
  have hin : i + 2 ^ o + 2 ^ o ≤ n := h.within (i + 2 ^ o, o) (mem_cons_of_mem _ mem_cons_self)
  obtain ⟨hi, hrest⟩ := pairwise_cons.mp h.apart
  obtain ⟨hj, hL⟩ := pairwise_cons.mp hrest
  refine ⟨fun b hb => ?_, fun b hb => ?_, pairwise_cons.mpr ⟨fun b hb => ?_, hL⟩, ?_⟩
  · rcases mem_cons.mp hb with he | hb
    · rw [he]; exact hd
    · exact h.aligned b (mem_cons_of_mem _ (mem_cons_of_mem _ hb))
  · rcases mem_cons.mp hb with he | hb
    · rw [he]
      show i + 2 ^ (o + 1) ≤ n
      omega
    · exact h.within b (mem_cons_of_mem _ (mem_cons_of_mem _ hb))
  · have h1 : i + 2 ^ o ≤ b.1 ∨ b.1 + size b ≤ i := hi b (mem_cons_of_mem _ hb)
    have h2 : i + 2 ^ o + 2 ^ o ≤ b.1 ∨ b.1 + size b ≤ i + 2 ^ o := hj b hb
    have hb0 := size_pos b
    show i + 2 ^ (o + 1) ≤ b.1 ∨ b.1 + size b ≤ i
    omega
  · rw [← h.total]
    show 2 ^ (o + 1) + (L.map size).sum = 2 ^ o + (2 ^ o + (L.map size).sum)
    omega

/-! ## Cells -/

/-- The block has the cell. -/
def Has (b : Block) (x : Nat) : Prop := b.1 ≤ x ∧ x < b.1 + size b

def Inside (b c : Block) : Prop := c.1 ≤ b.1 ∧ b.1 + size b ≤ c.1 + size c

def cells (b : Block) : List Nat := List.range' b.1 (size b)

theorem mem_cells {b : Block} {x : Nat} : x ∈ cells b ↔ Has b x := List.mem_range'_1

theorem Apart.not_has {a b : Block} (h : Apart a b) {x : Nat} (ha : Has a x) : ¬Has b x := by
  unfold Apart at h
  unfold Has at ha ⊢
  omega

theorem length_cells (L : List Block) : (L.flatMap cells).length = (L.map size).sum := by
  induction L with
  | nil => rfl
  | cons b L ih => simp [ih, cells]

theorem nodup_cells {L : List Block} (h : L.Pairwise Apart) : (L.flatMap cells).Nodup := by
  induction L with
  | nil => exact .nil
  | cons b L ih =>
    obtain ⟨hb, hL⟩ := pairwise_cons.mp h
    rw [flatMap_cons, nodup_append]
    refine ⟨nodup_range', ih hL, ?_⟩
    intro x hx y hy he
    obtain ⟨c, hc, hyc⟩ := mem_flatMap.mp hy
    rw [he] at hx
    exact (hb c hc).not_has (mem_cells.mp hx) (mem_cells.mp hyc)

/-- No cell of a tiled range is left out: the blocks have as many cells as the range. -/
theorem Tiles.covers {n : Nat} {L : List Block} (h : Tiles n L) {x : Nat} (hx : x < n) :
    ∃ b ∈ L, Has b x := by
  have hsub : L.flatMap cells ⊆ List.range n := by
    intro y hy
    obtain ⟨b, hb, hyb⟩ := mem_flatMap.mp hy
    have hin := h.within b hb
    obtain ⟨-, hlt⟩ := mem_cells.mp hyb
    exact mem_range.mpr (Nat.lt_of_lt_of_le hlt hin)
  have hlen : (List.range n).length ≤ (L.flatMap cells).length := by
    rw [length_cells, h.total, length_range]
  have hperm := (subperm_of_subset (nodup_cells h.apart) hsub).perm_of_length_le hlen
  obtain ⟨b, hb, hxb⟩ := mem_flatMap.mp (hperm.mem_iff.mpr (mem_range.mpr hx))
  exact ⟨b, hb, mem_cells.mp hxb⟩

/-- Two blocks of a tiling with a common cell are the same block. -/
theorem Tiles.eq_of_has {n : Nat} {L : List Block} (h : Tiles n L) {a b : Block} (ha : a ∈ L) (hb : b ∈ L)
    {x : Nat} (hax : Has a x) (hbx : Has b x) : a = b := by
  by_contra hne
  exact (h.apart.forall ha hb hne).not_has hax hbx

theorem dvd_step {s x y : Nat} (hx : s ∣ x) (hy : s ∣ y) (h : x < y) : x + s ≤ y := by
  obtain ⟨k, rfl⟩ := hx
  obtain ⟨m, rfl⟩ := hy
  have hk : k + 1 ≤ m := Nat.lt_of_mul_lt_mul_left h
  calc s * k + s = s * (k + 1) := (Nat.mul_succ s k).symm
    _ ≤ s * m := Nat.mul_le_mul_left s hk

/-- Of two aligned blocks with a common cell the smaller lies inside the larger. -/
theorem inside_of_has {a b : Block} (ha : size a ∣ a.1) (hb : size b ∣ b.1) (ho : a.2 ≤ b.2) {x : Nat}
    (hax : Has a x) (hbx : Has b x) : Inside a b := by
  have hsize : size a ∣ size b := Nat.pow_dvd_pow 2 ho
  have hb' : size a ∣ b.1 := Nat.dvd_trans hsize hb
  obtain ⟨ha1, ha2⟩ := hax
  obtain ⟨hb1, hb2⟩ := hbx
  constructor
  · by_contra hlt
    have hstep := dvd_step ha hb' (Nat.not_le.mp hlt)
    omega
  · exact dvd_step ha (Nat.dvd_add hb' hsize) (Nat.lt_of_le_of_lt ha1 hb2)

theorem Inside.has {a b : Block} (h : Inside a b) {x : Nat} (hx : Has a x) : Has b x :=
  ⟨Nat.le_trans h.1 hx.1, Nat.lt_of_lt_of_le hx.2 h.2⟩

theorem Inside.antisymm {a b : Block} (h : Inside a b) (h' : Inside b a) : a = b := by
  obtain ⟨h1, h2⟩ := h
  obtain ⟨h3, h4⟩ := h'
  have hi : a.1 = b.1 := Nat.le_antisymm h3 h1
  have hs : 2 ^ a.2 = 2 ^ b.2 := by
    unfold size at h2 h4
    omega
  exact Prod.ext hi (Nat.pow_right_injective (Nat.le_refl 2) hs)

/-! ## Buddies -/

theorem xor_pow {q o : Nat} : (2 ^ o * q) ^^^ 2 ^ o = 2 ^ o * (q ^^^ 1) := by
  have h := @Nat.shiftLeft_xor_distrib o q 1
  rw [Nat.shiftLeft_eq, Nat.shiftLeft_eq, Nat.shiftLeft_eq, Nat.one_mul] at h
  rw [Nat.mul_comm (2 ^ o) q, ← h, Nat.mul_comm]

/-- The buddy of a block is the other half of the block twice its size. -/
theorem buddy_cases {i o : Nat} (h : 2 ^ o ∣ i) :
    (2 ^ (o + 1) ∣ i ∧ i ^^^ 2 ^ o = i + 2 ^ o) ∨
      (2 ^ (o + 1) ∣ i ^^^ 2 ^ o ∧ i = (i ^^^ 2 ^ o) + 2 ^ o) := by
  obtain ⟨q, rfl⟩ := h
  rw [xor_pow]
  rcases Nat.even_or_odd q with hq | hq
  · left
    rw [Nat.xor_one_of_even hq, Nat.mul_succ]
    obtain ⟨r, rfl⟩ := hq
    refine ⟨⟨r, ?_⟩, rfl⟩
    rw [Nat.pow_succ, Nat.mul_assoc, ← Nat.two_mul]
  · right
    rw [Nat.xor_one_of_odd hq]
    obtain ⟨r, rfl⟩ := hq
    rw [Nat.add_sub_cancel]
    refine ⟨⟨r, ?_⟩, ?_⟩
    · rw [Nat.pow_succ, Nat.mul_assoc]
    · rw [Nat.mul_add, Nat.mul_one]

/-- A block and its buddy, in either order, merge to the block at the smaller index. -/
theorem Tiles.mergeBuddy {n i o : Nat} {L : List Block} (h : Tiles n ((i, o) :: (i ^^^ 2 ^ o, o) :: L)) :
    Tiles n ((min i (i ^^^ 2 ^ o), o + 1) :: L) := by
  have hdvd : 2 ^ o ∣ i := h.aligned _ mem_cons_self
  rcases buddy_cases hdvd with ⟨hd, he⟩ | ⟨hd, he⟩
  · rw [he] at h ⊢
    rw [Nat.min_eq_left (Nat.le_add_right _ _)]
    exact h.merge hd
  · have hle : i ^^^ 2 ^ o ≤ i := Nat.le.intro he.symm
    rw [Nat.min_eq_right hle]
    have hswap := h.perm (List.Perm.swap _ _ _)
    have hpair : ((i, o) : Block) = ((i ^^^ 2 ^ o) + 2 ^ o, o) := congrArg (·, o) he
    rw [hpair] at hswap
    exact hswap.merge hd

theorem buddy_aligned {i o : Nat} (h : 2 ^ o ∣ i) : 2 ^ o ∣ i ^^^ 2 ^ o := by
  rcases buddy_cases h with ⟨-, he⟩ | ⟨hd, -⟩
  · rw [he]
    exact Nat.dvd_add h (Nat.dvd_refl _)
  · exact dvd_half hd

theorem buddy_buddy (i o : Nat) : (i ^^^ 2 ^ o) ^^^ 2 ^ o = i := Nat.xor_xor_cancel_right i (2 ^ o)

/-- A larger aligned block around a block has its buddy too. -/
theorem inside_buddy {i o : Nat} {c : Block} (hi : 2 ^ o ∣ i) (hc : size c ∣ c.1) (ho : o < c.2)
    (h : Inside (i, o) c) : Inside (i ^^^ 2 ^ o, o) c := by
  have hsize : 2 ^ (o + 1) ∣ size c := Nat.pow_dvd_pow 2 ho
  have hdc : 2 ^ (o + 1) ∣ c.1 := Nat.dvd_trans hsize hc
  have h1 : c.1 ≤ i := h.1
  have h2 : i + 2 ^ o ≤ c.1 + size c := h.2
  unfold Inside
  show c.1 ≤ i ^^^ 2 ^ o ∧ (i ^^^ 2 ^ o) + 2 ^ o ≤ c.1 + size c
  rcases buddy_cases hi with ⟨hd, he⟩ | ⟨hd, he⟩
  · rw [he]
    have hstep := dvd_step hd (Nat.dvd_add hdc hsize) (by omega : i < c.1 + size c)
    omega
  · constructor
    · by_contra hlt
      have hstep := dvd_step hd hdc (Nat.not_le.mp hlt)
      omega
    · omega

/-- No block of an order below `mo` has its buddy beside it. -/
def NoBuddies (mo : Nat) (L : List Block) : Prop :=
  ∀ i o, (i, o) ∈ L → o < mo → (i ^^^ 2 ^ o, o) ∉ L

/-- In a tiling without buddies no aligned block of an order up to `mo` is made of smaller
blocks: the smallest of them would need a buddy. -/
theorem Tiles.not_inside {n mo : Nat} {L : List Block} (h : Tiles n L) (hb : NoBuddies mo L) {c : Block}
    (hc : size c ∣ c.1) (hn : c.1 + size c ≤ n) (hmo : c.2 ≤ mo) {i o : Nat} (hm : (i, o) ∈ L) (ho : o < c.2) :
    ¬Inside (i, o) c := by
  induction o using Nat.strong_induction_on generalizing i with
  | _ o ih =>
    intro hin
    have hi : 2 ^ o ∣ i := h.aligned _ hm
    have hbuddy := inside_buddy hi hc ho hin
    have hpos : 0 < 2 ^ o := Nat.two_pow_pos o
    have hfirst : Has (i ^^^ 2 ^ o, o) (i ^^^ 2 ^ o) := ⟨Nat.le_refl _, Nat.lt_add_of_pos_right hpos⟩
    -- the block that has the first cell of the buddy
    obtain ⟨e, he, hex⟩ := h.covers (Nat.lt_of_lt_of_le (hbuddy.has hfirst).2 hn)
    have hae := h.aligned e he
    rcases Nat.lt_trichotomy e.2 o with hlt | heq | hgt
    · have hsmall := inside_of_has hae (buddy_aligned hi) (Nat.le_of_lt hlt) hex hfirst
      have hec : Inside e c := ⟨Nat.le_trans hbuddy.1 hsmall.1, Nat.le_trans hsmall.2 hbuddy.2⟩
      exact ih e.2 hlt he (Nat.lt_trans hlt ho) hec
    · have h1 := inside_of_has hae (buddy_aligned hi) (Nat.le_of_eq heq) hex hfirst
      have h2 := inside_of_has (buddy_aligned hi) hae (Nat.le_of_eq heq.symm) hfirst hex
      rw [h1.antisymm h2] at he
      exact hb i o hm (Nat.lt_of_lt_of_le ho hmo) he
    · have hbig := inside_of_has (buddy_aligned hi) hae (Nat.le_of_lt hgt) hfirst hex
      have hback := inside_buddy (buddy_aligned hi) hae hgt hbig
      rw [buddy_buddy] at hback
      have hown : Has (i, o) i := ⟨Nat.le_refl _, Nat.lt_add_of_pos_right hpos⟩
      have hsame := h.eq_of_has hm he hown (hback.has hown)
      rw [← hsame] at hgt
      exact Nat.lt_irrefl o hgt

/-- A range has one tiling without buddies. -/
theorem Tiles.subset {n mo : Nat} {L L' : List Block} (h : Tiles n L) (h' : Tiles n L') (hb : NoBuddies mo L)
    (hb' : NoBuddies mo L') (hm : ∀ b ∈ L, b.2 ≤ mo) (hm' : ∀ b ∈ L', b.2 ≤ mo) : L ⊆ L' := by
  intro b hbL
  have hfirst : Has b b.1 := ⟨Nat.le_refl _, Nat.lt_add_of_pos_right (size_pos b)⟩
  obtain ⟨c, hc, hcx⟩ := h'.covers (Nat.lt_of_lt_of_le hfirst.2 (h.within b hbL))
  have hab := h.aligned b hbL
  have hac := h'.aligned c hc
  rcases Nat.lt_trichotomy b.2 c.2 with hlt | heq | hgt
  · have hin := inside_of_has hab hac (Nat.le_of_lt hlt) hfirst hcx
    exact absurd hin (h.not_inside hb hac (h'.within c hc) (hm' c hc) hbL hlt)
  · have h1 := inside_of_has hab hac (Nat.le_of_eq heq) hfirst hcx
    have h2 := inside_of_has hac hab (Nat.le_of_eq heq.symm) hcx hfirst
    rw [h1.antisymm h2]
    exact hc
  · have hin := inside_of_has hac hab (Nat.le_of_lt hgt) hcx hfirst
    exact absurd hin (h'.not_inside hb' hab (h.within b hbL) (hm b hbL) hc hgt)

end Blocks
