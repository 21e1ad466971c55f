import Serotonin.Heap.Model
import Serotonin.Lib.Chain

/-! Blocks as records, and what byte memory has to hold for a list of them to be
the heap's block list: the links run through the blocks in order, every header
and guard word is in place, and the blocks follow one another without overlap. -/

namespace Serotonin.Heap
open ByteMem Chain

/-- A block as the allocator means it. -/
structure Block where
  addr : Nat
  size : Nat
  free : Bool
  guard : Bool
deriving DecidableEq, Repr

namespace Block

def payload (b : Block) : Nat := b.addr + headerSize

/-- One past the payload and the guard word, if there is one. -/
def stop (b : Block) : Nat := b.payload + b.size + guardBytes b.guard

theorem payload_le_stop (b : Block) : b.payload ≤ b.stop := by
  simp only [stop]; omega

theorem addr_lt_stop (b : Block) : b.addr + headerSize ≤ b.stop := b.payload_le_stop

end Block

/-- The header and the guard word of `b` are in memory. -/
structure Stored (m : Mem) (b : Block) : Prop where
  magic : magic m b.addr = heapMagic
  size : size m b.addr = b.size
  free : free m b.addr = b.free
  guard : guard m b.addr = b.guard
  word : b.guard = true → load32 m (b.payload + b.size) = heapGuard

theorem next_congr {m m' : Mem} {a : Nat} (h : AgreeOn m m' a (a + headerSize)) :
    next m' a = next m a := by
  simp only [next]
  rw [h.load32 (by omega) (by simp only [headerSize]; omega)]

theorem next_congr' {m m' : Mem} {a : Nat} (h : AgreeOn m m' (a + 12) (a + headerSize)) :
    next m' a = next m a := by
  simp only [next]
  rw [h.load32 (Nat.le_refl _) (by simp only [headerSize]; omega)]

/-- A block stays stored as long as its header, up to the link, and its guard
word keep their bytes. -/
theorem Stored.congr {m m' : Mem} {b : Block} (h : Stored m b)
    (hh : AgreeOn m m' b.addr (b.addr + 12)) (hg : AgreeOn m m' (b.payload + b.size) b.stop) :
    Stored m' b := by
  refine ⟨?_, ?_, ?_, ?_, fun hb => ?_⟩
  · rw [← h.magic]; exact hh.load32 (by omega) (by omega)
  · rw [← h.size]; exact hh.load32 (by omega) (by omega)
  · rw [← h.free]; simp only [Heap.free]; rw [hh _ (by omega) (by omega)]
  · rw [← h.guard]; simp only [Heap.guard]; rw [hh _ (by omega) (by omega)]
  · rw [← h.word hb]
    exact hg.load32 (by omega) (by simp [Block.stop, guardBytes, hb, heapGuardSize])

theorem Stored.congr_block {m m' : Mem} {b : Block} (h : Stored m b)
    (ha : AgreeOn m m' b.addr b.stop) : Stored m' b :=
  have hh : headerSize = 16 := rfl
  have hs := b.addr_lt_stop
  h.congr (ha.mono (Nat.le_refl _) (by omega))
    (ha.mono (by simp only [Block.payload]; omega) (Nat.le_refl _))

/-- The blocks follow one another inside `[lo, hi)`. -/
def Layout : Nat → List Block → Nat → Prop
  | lo, [], hi => lo ≤ hi
  | lo, b :: bs, hi => lo ≤ b.addr ∧ Layout b.stop bs hi

@[simp] theorem layout_nil {lo hi : Nat} : Layout lo [] hi ↔ lo ≤ hi := Iff.rfl

@[simp] theorem layout_cons {lo hi : Nat} {b : Block} {bs : List Block} :
    Layout lo (b :: bs) hi ↔ lo ≤ b.addr ∧ Layout b.stop bs hi := Iff.rfl

theorem Layout.le {bs : List Block} : ∀ {lo hi : Nat}, Layout lo bs hi → lo ≤ hi := by
  induction bs with
  | nil => intro lo hi h; exact h
  | cons b bs ih =>
    intro lo hi h
    have := ih h.2
    have := b.addr_lt_stop
    have := h.1
    omega

theorem Layout.mono {bs : List Block} : ∀ {lo hi lo' hi' : Nat}, Layout lo bs hi →
    lo' ≤ lo → hi ≤ hi' → Layout lo' bs hi' := by
  induction bs with
  | nil => intro lo hi lo' hi' h h1 h2; simp only [layout_nil] at h ⊢; omega
  | cons b bs ih =>
    intro lo hi lo' hi' h h1 h2
    exact ⟨Nat.le_trans h1 h.1, ih h.2 (Nat.le_refl _) h2⟩

theorem layout_append {xs ys : List Block} : ∀ {lo hi : Nat},
    Layout lo (xs ++ ys) hi ↔ ∃ mid, Layout lo xs mid ∧ Layout mid ys hi := by
  induction xs with
  | nil =>
    intro lo hi
    constructor
    · intro h; exact ⟨lo, Nat.le_refl _, h⟩
    · rintro ⟨mid, h1, h2⟩; exact h2.mono h1 (Nat.le_refl _)
  | cons b xs ih => intro lo hi; simp [ih, and_assoc]

theorem layout_append_cons {xs ys : List Block} {b : Block} {lo hi : Nat} :
    Layout lo (xs ++ b :: ys) hi ↔ Layout lo xs b.addr ∧ Layout b.stop ys hi := by
  rw [layout_append]
  constructor
  · rintro ⟨mid, h1, h2⟩; exact ⟨h1.mono (Nat.le_refl _) h2.1, h2.2⟩
  · rintro ⟨h1, h2⟩; exact ⟨b.addr, h1, Nat.le_refl _, h2⟩

theorem Layout.mem {bs : List Block} {b : Block} {lo hi : Nat} (h : Layout lo bs hi)
    (hb : b ∈ bs) : lo ≤ b.addr ∧ b.stop ≤ hi := by
  obtain ⟨l, r, rfl⟩ := List.append_of_mem hb
  rw [layout_append_cons] at h
  exact ⟨h.1.le, h.2.le⟩

/-- Blocks of a layout do not overlap, and stand in address order. -/
theorem Layout.pairwise {bs : List Block} : ∀ {lo hi : Nat}, Layout lo bs hi →
    bs.Pairwise fun a b => a.stop ≤ b.addr := by
  induction bs with
  | nil => intros; exact List.Pairwise.nil
  | cons b bs ih =>
    intro lo hi h
    exact List.Pairwise.cons (fun c hc => (h.2.mem hc).1) (ih h.2)

/-- The block list from pointer `p`: links, headers, guards. -/
structure Rep (m : Mem) (p : Option Nat) (bs : List Block) (q : Option Nat) : Prop where
  links : Seg (next m) p (bs.map Block.addr) q
  stored : ∀ b ∈ bs, Stored m b

/-- Memory outside a layout's range is no concern of its blocks. -/
theorem Rep.congr {m m' : Mem} {p q : Option Nat} {bs : List Block} {lo hi : Nat}
    (h : Rep m p bs q) (hl : Layout lo bs hi) (ha : AgreeOn m m' lo hi) : Rep m' p bs q := by
  refine ⟨h.links.congr ?_, fun b hb => ?_⟩
  · intro a ha'
    obtain ⟨b, hb, rfl⟩ := List.mem_map.mp ha'
    have := hl.mem hb
    exact next_congr (ha.mono this.1 (Nat.le_trans b.addr_lt_stop this.2))
  · have := hl.mem hb
    exact (h.stored b hb).congr_block (ha.mono this.1 this.2)

theorem rep_append {m : Mem} {xs ys : List Block} {p q : Option Nat} :
    Rep m p (xs ++ ys) q ↔ ∃ r, Rep m p xs r ∧ Rep m r ys q := by
  constructor
  · intro h
    have hl := h.links
    rw [List.map_append, seg_append] at hl
    obtain ⟨r, h1, h2⟩ := hl
    exact ⟨r, ⟨h1, fun b hb => h.stored b (by simp [hb])⟩, ⟨h2, fun b hb => h.stored b (by simp [hb])⟩⟩
  · rintro ⟨r, h1, h2⟩
    refine ⟨by rw [List.map_append]; exact h1.links.relink h2.links, fun b hb => ?_⟩
    rcases List.mem_append.mp hb with hb | hb
    · exact h1.stored b hb
    · exact h2.stored b hb

theorem rep_cons {m : Mem} {b : Block} {bs : List Block} {p q : Option Nat} :
    Rep m p (b :: bs) q ↔ p = some b.addr ∧ Stored m b ∧ Rep m (next m b.addr) bs q := by
  constructor
  · intro h
    exact ⟨h.links.1, h.stored b (by simp), ⟨h.links.2, fun c hc => h.stored c (by simp [hc])⟩⟩
  · rintro ⟨h1, h2, h3⟩
    refine ⟨⟨h1, h3.links⟩, fun c hc => ?_⟩
    rcases List.mem_cons.mp hc with rfl | hc
    · exact h2
    · exact h3.stored c hc

theorem rep_nil {m : Mem} {p q : Option Nat} : Rep m p [] q ↔ p = q :=
  ⟨fun h => h.links, fun h => ⟨h, by simp⟩⟩

/-- The allocator changes the list in one way only: between the blocks `l` and
`r` it replaces a run of blocks by another one, in memory between the two. -/
theorem Rep.splice {m m' : Mem} {p q : Option Nat} {l old mid r : List Block}
    {lo a z hi : Nat} (h : Rep m p (l ++ old ++ r) q) (hl : Layout lo l a) (hr : Layout z r hi)
    (hlo : AgreeOn m m' lo a) (hhi : AgreeOn m m' z hi)
    (hmid : ∀ s t, Rep m s old t → Rep m' s mid t) : Rep m' p (l ++ mid ++ r) q := by
  obtain ⟨t, h1, h2⟩ := rep_append.mp h
  obtain ⟨s, h0, h1⟩ := rep_append.mp h1
  exact rep_append.mpr ⟨t, rep_append.mpr ⟨s, h0.congr hl hlo, hmid s t h1⟩, h2.congr hr hhi⟩

/-! ## Reading back what a header was given -/

section Fields
variable {m : Mem} {a v : Nat} {b : Bool} {p : Option Nat}

theorem magic_setMagic (h : v < 2 ^ 32) : magic (setMagic m a v) a = v := by
  simp only [magic, setMagic, load32_store32, Nat.mod_eq_of_lt h]

theorem size_setSize (h : v < 2 ^ 32) : size (setSize m a v) a = v := by
  simp only [size, setSize, load32_store32, Nat.mod_eq_of_lt h]

@[simp] theorem free_setFree : free (setFree m a b) a = b := by
  cases b <;> simp [free, setFree]

@[simp] theorem guard_setGuard : guard (setGuard m a b) a = b := by
  cases b <;> simp [guard, setGuard]

/-- A link read from memory is a non-null 32-bit address. -/
theorem next_bound {x : Nat} (h : next m a = some x) : 0 < x ∧ x < 2 ^ 32 := by
  have hlt := load32_lt m (a + 12)
  simp only [next, toPtr] at h
  split at h
  · cases h
  · rename_i hne
    exact Option.some.inj h ▸ ⟨Nat.pos_of_ne_zero hne, hlt⟩

theorem next_setNext (h : ∀ x, p = some x → 0 < x ∧ x < 2 ^ 32) : next (setNext m a p) a = p := by
  simp only [next, setNext, load32_store32]
  cases p with
  | none => rfl
  | some x =>
    obtain ⟨h0, hx⟩ := h x rfl
    have hword : ptrWord (some x) % 2 ^ 32 = x := Nat.mod_eq_of_lt hx
    rw [hword]
    exact if_neg (Nat.ne_of_gt h0)

end Fields

end Serotonin.Heap
