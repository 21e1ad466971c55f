import Serotonin.Buddy.Model
import Serotonin.Lib.Blocks

/-! The free lists and the blocks. `Owns z n L rest` says that the free lists of the zone
are the chains `L`, and that their blocks, together with the blocks of `rest`, tile the
zone. Each primitive of the allocator moves one block between the lists and `rest`, or
changes the shape of one block in `rest`; loops compose them. -/

namespace Serotonin.Buddy

open Function List
open Chain Blocks

/-- The blocks on the free lists up to order `m`. -/
def freeBlocks (L : Nat → List Nat) : Nat → List Block
  | 0 => (L 0).map (·, 0)
  | m + 1 => (L (m + 1)).map (·, m + 1) ++ freeBlocks L m

structure Owns (z : Zone) (n : Nat) (L : Nat → List Nat) (rest : List Block) : Prop where
  max : z.maxOrder ≤ maxOrderLimit
  chain : ∀ o ≤ maxOrderLimit, IsChain z.next (z.freeList o) (L o)
  desc : ∀ o ≤ maxOrderLimit, ∀ i ∈ L o, (z.pages i).order = o ∧ (z.pages i).used = false
  order : ∀ b ∈ rest, b.2 ≤ z.maxOrder
  tiles : Tiles n (freeBlocks L maxOrderLimit ++ rest)

/-! ## Lists of free blocks -/

theorem mem_freeBlocks {L : Nat → List Nat} {i o : Nat} : ∀ {m : Nat},
    (i, o) ∈ freeBlocks L m ↔ o ≤ m ∧ i ∈ L o
  | 0 => by
    unfold freeBlocks
    rw [mem_map]
    constructor
    · rintro ⟨j, hj, he⟩
      cases he
      exact ⟨Nat.le_refl 0, hj⟩
    · rintro ⟨ho, hi⟩
      obtain rfl := Nat.le_zero.mp ho
      exact ⟨i, hi, rfl⟩
  | m + 1 => by
    unfold freeBlocks
    rw [mem_append, mem_map, mem_freeBlocks]
    constructor
    · rintro (⟨j, hj, he⟩ | ⟨ho, hi⟩)
      · cases he
        exact ⟨Nat.le_refl _, hj⟩
      · exact ⟨Nat.le_succ_of_le ho, hi⟩
    · rintro ⟨ho, hi⟩
      rcases Nat.le_succ_iff.mp ho with ho | rfl
      · exact .inr ⟨ho, hi⟩
      · exact .inl ⟨i, hi, rfl⟩

theorem freeBlocks_congr {L L' : Nat → List Nat} : ∀ {m : Nat}, (∀ o ≤ m, L o = L' o) →
    freeBlocks L m = freeBlocks L' m
  | 0, h => by
    unfold freeBlocks
    rw [h 0 (Nat.le_refl 0)]
  | m + 1, h => by
    unfold freeBlocks
    rw [h (m + 1) (Nat.le_refl _), freeBlocks_congr fun o ho => h o (Nat.le_succ_of_le ho)]

/-- A block more on the list of order `o`. -/
theorem freeBlocks_update {L : Nat → List Nat} {l : List Nat} {i o : Nat} (hl : (i :: L o).Perm l) :
    ∀ {m : Nat}, o ≤ m → ((i, o) :: freeBlocks L m).Perm (freeBlocks (update L o l) m)
  | 0, ho => by
    obtain rfl := Nat.le_zero.mp ho
    unfold freeBlocks
    rw [update_self]
    exact hl.map (·, 0)
  | m + 1, ho => by
    unfold freeBlocks
    rcases Nat.le_succ_iff.mp ho with ho | rfl
    · rw [update_of_ne (Nat.ne_of_gt (Nat.lt_succ_of_le ho))]
      exact perm_middle.symm.trans ((freeBlocks_update hl ho).append_left _)
    · have hsame : freeBlocks L m = freeBlocks (update L (m + 1) l) m :=
        freeBlocks_congr fun o ho => (update_of_ne (Nat.ne_of_lt (Nat.lt_succ_of_le ho)) ..).symm
      rw [update_self, ← hsame]
      exact (hl.map (·, m + 1)).append_right _

theorem update_subset {L : Nat → List Nat} {l : List Nat} {o : Nat} (h : l ⊆ L o) :
    ∀ o', update L o l o' ⊆ L o' := by
  intro o'
  by_cases he : o' = o
  · subst he
    rw [update_self]
    exact h
  · rw [update_of_ne he]
    exact List.Subset.refl _

/-! ## Lists without buddies -/

/-- No two blocks on the free lists could be merged. -/
abbrev Coalesced (mo : Nat) (L : Nat → List Nat) : Prop := NoBuddies mo (freeBlocks L maxOrderLimit)

theorem Coalesced.of_subset {mo : Nat} {L L' : Nat → List Nat} (h : Coalesced mo L) (hs : ∀ o, L' o ⊆ L o) :
    Coalesced mo L' := by
  intro i o hi ho hb
  obtain ⟨hlim, hi⟩ := mem_freeBlocks.mp hi
  obtain ⟨-, hb⟩ := mem_freeBlocks.mp hb
  exact h i o (mem_freeBlocks.mpr ⟨hlim, hs o hi⟩) ho (mem_freeBlocks.mpr ⟨hlim, hs o hb⟩)

/-- A block may join its list when its buddy is not there. -/
theorem Coalesced.push {mo : Nat} {L : Nat → List Nat} (h : Coalesced mo L) {i o : Nat}
    (hb : o < mo → buddyIndex i o ∉ L o) : Coalesced mo (update L o (i :: L o)) := by
  intro j o' hj ho' hk
  obtain ⟨hlim, hj⟩ := mem_freeBlocks.mp hj
  obtain ⟨-, hk⟩ := mem_freeBlocks.mp hk
  by_cases he : o' = o
  · subst he
    rw [update_self] at hj hk
    have hbuddy := hb ho'
    rcases mem_cons.mp hj with rfl | hj
    · rcases mem_cons.mp hk with hk | hk
      · have hself : 2 ^ o' = j ^^^ j := by
          rw [← Nat.xor_xor_cancel_left j (2 ^ o')]
          exact congrArg (j ^^^ ·) hk
        rw [Nat.xor_self] at hself
        exact absurd hself (Nat.ne_of_gt (Nat.two_pow_pos o'))
      · exact hbuddy hk
    · rcases mem_cons.mp hk with hk | hk
      · rw [← hk] at hbuddy
        unfold buddyIndex at hbuddy
        rw [buddy_buddy] at hbuddy
        exact hbuddy hj
      · exact h j o' (mem_freeBlocks.mpr ⟨hlim, hj⟩) ho' (mem_freeBlocks.mpr ⟨hlim, hk⟩)
  · rw [update_of_ne he] at hj hk
    exact h j o' (mem_freeBlocks.mpr ⟨hlim, hj⟩) ho' (mem_freeBlocks.mpr ⟨hlim, hk⟩)

/-! ## Blocks inside and outside the lists -/

theorem Owns.perm {z : Zone} {n : Nat} {L : Nat → List Nat} {rest rest' : List Block} (h : Owns z n L rest)
    (hp : rest.Perm rest') : Owns z n L rest' :=
  ⟨h.max, h.chain, h.desc, fun b hb => h.order b (hp.mem_iff.mpr hb), h.tiles.perm (hp.append_left _)⟩

/-- The first page of a block of `rest` is in no free list. -/
theorem Owns.not_free {z : Zone} {n : Nat} {L : Nat → List Nat} {rest : List Block} (h : Owns z n L rest)
    {b : Block} (hb : b ∈ rest) {o : Nat} (ho : o ≤ maxOrderLimit) : b.1 ∉ L o := by
  intro hm
  have hap := (pairwise_append.mp h.tiles.apart).2.2 (b.1, o) (mem_freeBlocks.mpr ⟨ho, hm⟩) b hb
  exact hap.ne rfl

/-- Of a page that heads no free block, the descriptor may change. -/
theorem Owns.modify {z : Zone} {n : Nat} {L : Nat → List Nat} {rest : List Block} (h : Owns z n L rest)
    {i : Nat} (hi : ∀ o ≤ maxOrderLimit, i ∉ L o) (f : PageDesc → PageDesc) : Owns (z.modify i f) n L rest where
  max := h.max
  chain o ho := (h.chain o ho).congr fun x hx => by
    have hne : x ≠ i := fun he => hi o ho (he ▸ hx)
    unfold Zone.next Zone.modify
    dsimp only
    rw [update_of_ne hne]
  desc o ho x hx := by
    have hne : x ≠ i := fun he => hi o ho (he ▸ hx)
    unfold Zone.modify
    dsimp only
    rw [update_of_ne hne]
    exact h.desc o ho x hx
  order := h.order
  tiles := h.tiles

/-! ## The primitives -/

theorem next_modify_self (z : Zone) (i : Nat) (f : PageDesc → PageDesc) :
    (z.modify i f).next i = (f (z.pages i)).next := by
  unfold Zone.next Zone.modify
  dsimp only
  rw [update_self]

theorem pages_modify_of_ne (z : Zone) {i j : Nat} (f : PageDesc → PageDesc) (h : j ≠ i) :
    (z.modify i f).pages j = z.pages j := update_of_ne h ..

theorem next_modify_of_ne (z : Zone) {i j : Nat} (f : PageDesc → PageDesc) (h : j ≠ i) :
    (z.modify i f).next j = z.next j := congrArg PageDesc.next (pages_modify_of_ne z f h)

theorem setNext_next (z : Zone) (i : Nat) (n : Option Nat) : (z.setNext i n).next = setNext z.next i n := by
  funext j
  by_cases hj : j = i
  · subst hj
    rw [Chain.setNext_self]
    exact next_modify_self z j _
  · rw [Chain.setNext_ne hj]
    exact next_modify_of_ne z _ hj

theorem setNext_desc (z : Zone) (i : Nat) (n : Option Nat) (j : Nat) :
    ((z.setNext i n).pages j).order = (z.pages j).order ∧
      ((z.setNext i n).pages j).used = (z.pages j).used := by
  by_cases hj : j = i
  · subst hj
    unfold Zone.setNext Zone.modify
    dsimp only
    rw [update_self]
    exact ⟨rfl, rfl⟩
  · unfold Zone.setNext
    rw [pages_modify_of_ne z _ hj]
    exact ⟨rfl, rfl⟩

theorem zonePushFree_next (z : Zone) (i o : Nat) :
    (zonePushFree z i o).next = setNext z.next i (z.freeList o) := by
  have h1 : (z.setOrder i o).next = z.next := by
    funext j
    by_cases hj : j = i
    · subst hj
      exact next_modify_self z j _
    · exact next_modify_of_ne z _ hj
  have h2 : ((z.setOrder i o).setUsed i false).next = z.next := by
    rw [← h1]
    funext j
    by_cases hj : j = i
    · subst hj
      exact next_modify_self _ j _
    · exact next_modify_of_ne _ _ hj
  show (((z.setOrder i o).setUsed i false).setNext i _).next = _
  rw [setNext_next, h2]
  rfl

theorem zonePushFree_pages_self (z : Zone) (i o : Nat) :
    ((zonePushFree z i o).pages i).order = o % 256 ∧ ((zonePushFree z i o).pages i).used = false := by
  unfold zonePushFree Zone.setFreeList Zone.setNext Zone.setUsed Zone.setOrder Zone.modify
  dsimp only
  rw [update_self, update_self, update_self]
  exact ⟨rfl, rfl⟩

theorem zonePushFree_pages_of_ne (z : Zone) {i j : Nat} (o : Nat) (h : j ≠ i) :
    (zonePushFree z i o).pages j = z.pages j := by
  unfold zonePushFree Zone.setFreeList Zone.setNext Zone.setUsed Zone.setOrder
  dsimp only
  rw [pages_modify_of_ne _ _ h, pages_modify_of_ne _ _ h, pages_modify_of_ne _ _ h]

/-- A block goes from `rest` to the front of its list. -/
theorem Owns.push {z : Zone} {n : Nat} {L : Nat → List Nat} {rest : List Block} {i o : Nat}
    (h : Owns z n L ((i, o) :: rest)) : Owns (zonePushFree z i o) n (update L o (i :: L o)) rest := by
  have ho : o ≤ maxOrderLimit := Nat.le_trans (h.order (i, o) mem_cons_self) h.max
  have hi : ∀ o' ≤ maxOrderLimit, i ∉ L o' := fun o' ho' => h.not_free mem_cons_self ho'
  refine ⟨h.max, fun o' ho' => ?_, fun o' ho' j hj => ?_, fun b hb => h.order b (mem_cons_of_mem _ hb),
    h.tiles.perm ?_⟩
  · rw [zonePushFree_next]
    by_cases he : o' = o
    · subst he
      show IsChain _ (update z.freeList o' (some i) o') _
      rw [update_self, update_self]
      refine ⟨rfl, ?_⟩
      rw [setNext_self]
      exact (h.chain o' ho').setNext_of_notMem (hi o' ho')
    · show IsChain _ (update z.freeList o (some i) o') _
      rw [update_of_ne he, update_of_ne he]
      exact (h.chain o' ho').setNext_of_notMem (hi o' ho')
  · by_cases hji : j = i
    · subst hji
      have hoo : o' = o := by
        by_contra hne
        rw [update_of_ne hne] at hj
        exact hi o' ho' hj
      have hlt : o % 256 = o := Nat.mod_eq_of_lt (Nat.lt_of_le_of_lt ho (by decide))
      rw [hoo, ← hlt]
      have := zonePushFree_pages_self z j o
      rwa [hlt] at this ⊢
    · rw [zonePushFree_pages_of_ne z o hji]
      refine h.desc o' ho' j ?_
      by_cases he : o' = o
      · subst he
        rw [update_self] at hj
        exact (mem_cons.mp hj).resolve_left hji
      · rwa [update_of_ne he] at hj
  · exact perm_middle.trans ((freeBlocks_update (List.Perm.refl _) ho).append_right rest)

/-- A block goes from its list to `rest`, and only links have changed. -/
theorem Owns.take {z z' : Zone} {n : Nat} {L : Nat → List Nat} {rest : List Block} {i o : Nat} {l : List Nat}
    (h : Owns z n L rest) (ho : o ≤ z.maxOrder) (hmax : z'.maxOrder = z.maxOrder)
    (hdesc : ∀ j, (z'.pages j).order = (z.pages j).order ∧ (z'.pages j).used = (z.pages j).used)
    (hl : (i :: l).Perm (L o))
    (hchain : ∀ o' ≤ maxOrderLimit, IsChain z'.next (z'.freeList o') (update L o l o')) :
    Owns z' n (update L o l) ((i, o) :: rest) := by
  refine ⟨hmax ▸ h.max, hchain, fun o' ho' j hj => ?_, fun b hb => ?_, ?_⟩
  · rw [(hdesc j).1, (hdesc j).2]
    refine h.desc o' ho' j ?_
    by_cases he : o' = o
    · subst he
      rw [update_self] at hj
      exact hl.mem_iff.mp (mem_cons_of_mem _ hj)
    · rwa [update_of_ne he] at hj
  · rw [hmax]
    rcases mem_cons.mp hb with he | hb
    · rw [he]; exact ho
    · exact h.order b hb
  · have hl' : (i :: update L o l o).Perm (L o) := by rwa [update_self]
    have hp := freeBlocks_update hl' (Nat.le_trans ho h.max)
    rw [update_idem, update_eq_self] at hp
    exact h.tiles.perm ((hp.symm.append_right rest).trans perm_middle.symm)

/-- The first block of a list is popped. -/
theorem Owns.pop {z z' : Zone} {n : Nat} {L : Nat → List Nat} {rest : List Block} {i o : Nat} (h : Owns z n L rest)
    (ho : o ≤ z.maxOrder) (hp : zonePopFree z o = some (i, z')) :
    ∃ l, L o = i :: l ∧ Owns z' n (update L o l) ((i, o) :: rest) := by
  unfold zonePopFree at hp
  split at hp
  · cases hp
  rename_i head hhead
  cases hp
  have hlim : o ≤ maxOrderLimit := Nat.le_trans ho h.max
  have hch := h.chain o hlim
  rw [hhead] at hch
  obtain ⟨l, hl, hil, hch'⟩ := hch.behead
  have hmem : i ∈ L o := by rw [hl]; exact mem_cons_self
  refine ⟨l, hl, h.take ho rfl (fun j => setNext_desc _ i none j) (by rw [hl]) fun o' ho' => ?_⟩
  rw [setNext_next]
  show IsChain (setNext z.next i none) (update z.freeList o (z.next i) o') _
  by_cases he : o' = o
  · subst he
    rw [update_self, update_self]
    exact hch'
  · rw [update_of_ne he, update_of_ne he]
    refine (h.chain o' ho').setNext_of_notMem fun hm => ?_
    -- a page heads no blocks of two orders
    exact he ((h.desc o' ho' i hm).1.symm.trans (h.desc o hlim i hmem).1)

theorem unlinkFree_next (z : Zone) (o : Nat) (prev : Option Nat) (b : Nat) :
    (unlinkFree z o prev b).next = setNext (match prev with
      | some p => setNext z.next p (z.next b)
      | none => z.next) b none := by
  unfold unlinkFree
  dsimp only
  rw [setNext_next]
  cases prev with
  | none => rfl
  | some p => rw [setNext_next]

theorem unlinkFree_freeList (z : Zone) (o : Nat) (prev : Option Nat) (b : Nat) :
    (unlinkFree z o prev b).freeList = match prev with
      | some _ => z.freeList
      | none => update z.freeList o (z.next b) := by
  cases prev <;> rfl

theorem unlinkFree_desc (z : Zone) (o : Nat) (prev : Option Nat) (b j : Nat) :
    ((unlinkFree z o prev b).pages j).order = (z.pages j).order ∧
      ((unlinkFree z o prev b).pages j).used = (z.pages j).used := by
  cases prev with
  | none => exact setNext_desc (z.setFreeList o (z.next b)) b none j
  | some p =>
    obtain ⟨h1, h2⟩ := setNext_desc (z.setNext p (z.next b)) b none j
    obtain ⟨h3, h4⟩ := setNext_desc z p (z.next b) j
    exact ⟨h1.trans h3, h2.trans h4⟩

/-- A block is taken out from inside its list. -/
theorem Owns.unlink {z : Zone} {n : Nat} {L : Nat → List Nat} {rest : List Block} {b o : Nat} {xs ys : List Nat}
    (h : Owns z n L rest) (ho : o ≤ z.maxOrder) (hL : L o = xs ++ b :: ys) :
    Owns (unlinkFree z o xs.getLast? b) n (update L o (xs ++ ys)) ((b, o) :: rest) := by
  have hmem : ∀ x, x = b ∨ x ∈ xs → x ∈ L o := by
    intro x hx
    rw [hL]
    rcases hx with rfl | hx
    · exact mem_append_right _ mem_cons_self
    · exact mem_append_left _ hx
  -- no other list has the block, nor the one before it
  have hlim : o ≤ maxOrderLimit := Nat.le_trans ho h.max
  have hother : ∀ o' ≤ maxOrderLimit, o' ≠ o → ∀ x, x = b ∨ x ∈ xs → x ∉ L o' := fun o' ho' he x hx hm =>
    he ((h.desc o' ho' x hm).1.symm.trans (h.desc o hlim x (hmem x hx)).1)
  have hmax : (unlinkFree z o xs.getLast? b).maxOrder = z.maxOrder := by
    cases xs.getLast? <;> rfl
  refine h.take ho hmax (unlinkFree_desc z o _ b) (by rw [hL]; exact perm_middle.symm)
    fun o' ho' => ?_
  rw [unlinkFree_next, unlinkFree_freeList]
  by_cases he : o' = o
  · subst he
    have hch := h.chain o' ho'
    rw [hL] at hch
    have hu := hch.unlink
    rw [update_self]
    cases hl : xs.getLast? with
    | none =>
      rw [hl] at hu
      dsimp only
      rw [update_self]
      exact hu
    | some p =>
      rw [hl] at hu
      exact hu
  · rw [update_of_ne he]
    have hch := h.chain o' ho'
    have hb := hother o' ho' he b (.inl rfl)
    cases hl : xs.getLast? with
    | none =>
      dsimp only
      rw [update_of_ne he]
      exact hch.setNext_of_notMem hb
    | some p =>
      have hp := hother o' ho' he p (.inr (mem_of_getLast? hl))
      exact (hch.setNext_of_notMem hp).setNext_of_notMem hb

end Serotonin.Buddy
