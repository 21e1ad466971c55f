import Mathlib.Data.List.Nodup
import Mathlib.Data.List.Range
import Serotonin.Buddy.Ops
import Serotonin.Lib.Run

/-! The allocator's functions and runs of them. Building, splitting and merging keep the
tiling of the zone; a run that allocates and frees what it was given keeps it too, as
long as no page of the zone has the address 0. -/

namespace Serotonin.Buddy

open Function List
open Chain Blocks

/-- The zone as it was built: what no function changes afterwards. -/
structure SameZone (z z' : Zone) : Prop where
  basePhys : z'.basePhys = z.basePhys
  numPages : z'.numPages = z.numPages
  maxOrder : z'.maxOrder = z.maxOrder

theorem SameZone.refl (z : Zone) : SameZone z z := ⟨rfl, rfl, rfl⟩

theorem SameZone.trans {x y z : Zone} (h : SameZone x y) (h' : SameZone y z) : SameZone x z :=
  ⟨h'.basePhys.trans h.basePhys, h'.numPages.trans h.numPages, h'.maxOrder.trans h.maxOrder⟩

theorem sameZone_push (z : Zone) (i o : Nat) : SameZone z (zonePushFree z i o) := ⟨rfl, rfl, rfl⟩

theorem sameZone_modify (z : Zone) (i : Nat) (f : PageDesc → PageDesc) : SameZone z (z.modify i f) :=
  ⟨rfl, rfl, rfl⟩

theorem Owns.block_fits {z : Zone} {n : Nat} {L : Nat → List Nat} {rest : List Block} (h : Owns z n L rest)
    {b : Block} (hb : b ∈ rest) : size b ∣ b.1 ∧ b.1 + size b ≤ n :=
  ⟨h.tiles.aligned b (mem_append_right _ hb), h.tiles.within b (mem_append_right _ hb)⟩

/-- Blocks outside the lists take another shape. -/
theorem Owns.reshape {z : Zone} {n n' : Nat} {L : Nat → List Nat} (as bs : List Block) {rest : List Block}
    (h : Owns z n L (as ++ rest)) (hbs : ∀ b ∈ bs, b.2 ≤ z.maxOrder)
    (ht : ∀ M, Tiles n (as ++ M) → Tiles n' (bs ++ M)) : Owns z n' L (bs ++ rest) := by
  refine ⟨h.max, h.chain, h.desc, fun b hb => ?_, ?_⟩
  · rcases mem_append.mp hb with hb | hb
    · exact hbs b hb
    · exact h.order b (mem_append_right _ hb)
  · have hp : ∀ cs : List Block, (freeBlocks L maxOrderLimit ++ (cs ++ rest)).Perm
        (cs ++ (freeBlocks L maxOrderLimit ++ rest)) := by
      intro cs
      rw [← append_assoc, ← append_assoc]
      exact perm_append_comm.append_right rest
    exact (ht _ (h.tiles.perm (hp as))).perm (hp bs).symm

/-! ## Building -/

theorem alignOrder_spec (idx : Nat) : ∀ o, alignOrder idx o ≤ o ∧ 2 ^ alignOrder idx o ∣ idx
  | 0 => ⟨Nat.le_refl 0, Nat.one_dvd idx⟩
  | o + 1 => by
    obtain ⟨h1, h2⟩ := alignOrder_spec idx o
    unfold alignOrder
    split
    · exact ⟨Nat.le_succ_of_le h1, h2⟩
    · rename_i h
      rw [not_not, Nat.and_two_pow_sub_one_eq_mod] at h
      exact ⟨Nat.le_refl _, Nat.dvd_of_mod_eq_zero h⟩

theorem growOrder_spec (remain maxOrder : Nat) : ∀ k o, o ≤ maxOrder → 2 ^ o ≤ remain →
    growOrder remain maxOrder k o ≤ maxOrder ∧ 2 ^ growOrder remain maxOrder k o ≤ remain
  | 0, _, h1, h2 => ⟨h1, h2⟩
  | k + 1, o, h1, h2 => by
    unfold growOrder
    split
    · rename_i h
      exact growOrder_spec remain maxOrder k (o + 1) h.1 h.2
    · exact ⟨h1, h2⟩

theorem largestOrderFit_spec {idx limit : Nat} (maxOrder : Nat) (h : idx < limit) :
    ∃ o, largestOrderFit idx limit maxOrder = some o ∧ o ≤ maxOrder ∧ 2 ^ o ∣ idx ∧ idx + 2 ^ o ≤ limit := by
  have hremain : 2 ^ 0 ≤ limit - idx := by
    rw [Nat.pow_zero]
    omega
  obtain ⟨hg1, hg2⟩ := growOrder_spec (limit - idx) maxOrder maxOrder 0 (Nat.zero_le _) hremain
  obtain ⟨ha1, ha2⟩ := alignOrder_spec idx (growOrder (limit - idx) maxOrder maxOrder 0)
  have hfit := Nat.le_trans (Nat.pow_le_pow_right (by decide : 0 < 2) ha1) hg2
  refine ⟨_, ?_, Nat.le_trans ha1 hg1, ha2, by omega⟩
  unfold largestOrderFit
  dsimp only
  rw [if_neg (Nat.not_lt.mpr hfit)]

/-- The alignment allows no larger order. -/
theorem alignOrder_max (idx : Nat) : ∀ o, alignOrder idx o < o → ¬2 ^ (alignOrder idx o + 1) ∣ idx
  | 0, h => absurd h (Nat.not_lt_zero _)
  | o + 1, h => by
    unfold alignOrder at h ⊢
    split at h
    · rename_i hna
      rw [if_pos hna]
      rw [Nat.and_two_pow_sub_one_eq_mod] at hna
      rcases Nat.lt_or_ge (alignOrder idx o) o with hlt | hge
      · exact alignOrder_max idx o hlt
      · have heq := Nat.le_antisymm (alignOrder_spec idx o).1 hge
        rw [heq]
        exact fun hd => hna (Nat.mod_eq_zero_of_dvd hd)
    · exact absurd h (Nat.lt_irrefl _)

/-- Nor does the range, below the limit. -/
theorem growOrder_max (remain maxOrder : Nat) : ∀ k o, maxOrder ≤ o + k →
    growOrder remain maxOrder k o < maxOrder → remain < 2 ^ (growOrder remain maxOrder k o + 1)
  | 0, o, hk, h => absurd h (Nat.not_lt.mpr hk)
  | k + 1, o, hk, h => by
    unfold growOrder at h ⊢
    split at h
    · rename_i hgo
      rw [if_pos hgo]
      exact growOrder_max remain maxOrder k (o + 1) (by omega) h
    · rename_i hgo
      rw [if_neg hgo]
      by_contra hle
      exact hgo ⟨h, Nat.not_lt.mp hle⟩

/-- A block of the fitting order is half of no aligned block in the range. -/
theorem largestOrderFit_max {idx limit maxOrder o : Nat} (h : largestOrderFit idx limit maxOrder = some o)
    (ho : o < maxOrder) (hd : 2 ^ (o + 1) ∣ idx) : limit < idx + 2 ^ (o + 1) := by
  unfold largestOrderFit at h
  obtain ⟨-, h⟩ := Option.ite_none_left_eq_some.mp h
  have he := Option.some.inj h
  have hgrow := growOrder_max (limit - idx) maxOrder maxOrder 0 (Nat.le_add_left _ _)
  generalize growOrder (limit - idx) maxOrder maxOrder 0 = g at he hgrow
  have hle := (alignOrder_spec idx g).1
  have hmax := alignOrder_max idx g
  rw [he] at hle hmax
  rcases Nat.lt_or_eq_of_le hle with hlt | rfl
  · exact absurd hd (hmax hlt)
  · have hlast := hgrow ho
    omega

theorem zoneMaxOrder_le (numPages : Nat) : ∀ mo, zoneMaxOrder numPages mo ≤ mo
  | 0 => Nat.le_refl 0
  | mo + 1 => by
    unfold zoneMaxOrder
    split
    · exact Nat.le_succ_of_le (zoneMaxOrder_le numPages mo)
    · exact Nat.le_refl _

/-- Every block on the lists has the order that fits best at its place. -/
def BestFit (z : Zone) (L : Nat → List Nat) : Prop :=
  ∀ o, ∀ i ∈ L o, largestOrderFit i z.numPages z.maxOrder = some o

theorem BestFit.push {z : Zone} {L : Nat → List Nat} (h : BestFit z L) {i o : Nat}
    (ho : largestOrderFit i z.numPages z.maxOrder = some o) :
    BestFit (zonePushFree z i o) (update L o (i :: L o)) := by
  intro o' j hj
  by_cases he : o' = o
  · subst he
    rw [update_self] at hj
    rcases mem_cons.mp hj with rfl | hj
    · exact ho
    · exact h o' j hj
  · rw [update_of_ne he] at hj
    exact h o' j hj

/-- Two buddies would both be halves of the block that fits at the first of them. -/
theorem BestFit.coalesced {z : Zone} {L : Nat → List Nat} (h : BestFit z L)
    (ht : Tiles z.numPages (freeBlocks L maxOrderLimit)) : Coalesced z.maxOrder L := by
  intro i o hi ho hb
  have hdvd : 2 ^ o ∣ i := ht.aligned _ hi
  have hin : i + 2 ^ o ≤ z.numPages := ht.within _ hi
  have hin' : (i ^^^ 2 ^ o) + 2 ^ o ≤ z.numPages := ht.within _ hb
  rcases buddy_cases hdvd with ⟨hd, he⟩ | ⟨hd, he⟩
  · have hmax := largestOrderFit_max (h o i (mem_freeBlocks.mp hi).2) ho hd
    omega
  · have hmax := largestOrderFit_max (h o _ (mem_freeBlocks.mp hb).2) ho hd
    omega

theorem zoneBuildFrom_owns : ∀ (k : Nat) {z : Zone} {idx : Nat} {L : Nat → List Nat}, Owns z idx L [] →
    idx ≤ z.numPages → z.numPages ≤ idx + k →
      SameZone z (zoneBuildFrom k z idx) ∧ ∃ L', Owns (zoneBuildFrom k z idx) z.numPages L' [] ∧
        (BestFit z L → BestFit (zoneBuildFrom k z idx) L')
  | 0, z, idx, L, h, hle, hk => ⟨.refl z, L, Nat.le_antisymm hle hk ▸ h, id⟩
  | k + 1, z, idx, L, h, hle, hk => by
    unfold zoneBuildFrom
    split
    · rename_i hlt
      obtain ⟨o, ho, hmax, hdvd, hfit⟩ := largestOrderFit_spec z.maxOrder hlt
      rw [ho]
      have hblock : Owns z (idx + 2 ^ o) L ((idx, o) :: []) :=
        h.reshape [] [(idx, o)] (fun b hb => by rw [mem_singleton.mp hb]; exact hmax)
          fun M hM => hM.extend hdvd
      have hpos : 0 < 2 ^ o := Nat.two_pow_pos o
      obtain ⟨hs, L', hL, hbest⟩ := zoneBuildFrom_owns k hblock.push hfit
        (show z.numPages ≤ idx + 2 ^ o + k by omega)
      exact ⟨(sameZone_push z idx o).trans hs, L', hL, fun h => hbest (h.push ho)⟩
    · rename_i hge
      exact ⟨.refl z, L, Nat.le_antisymm hle (Nat.not_lt.mp hge) ▸ h, id⟩

theorem freeBlocks_nil : ∀ m, freeBlocks (fun _ => []) m = []
  | 0 => rfl
  | m + 1 => by
    unfold freeBlocks
    rw [freeBlocks_nil m]
    rfl

theorem zoneBuild_owns (z : Zone) : (zoneBuild z).basePhys = z.basePhys ∧
    (zoneBuild z).numPages = z.numPages ∧ (zoneBuild z).maxOrder = zoneMaxOrder z.numPages maxOrderLimit ∧
      ∃ L, Owns (zoneBuild z) z.numPages L [] ∧ Coalesced (zoneBuild z).maxOrder L := by
  have h0 : Owns { z with
      freeList := fun _ => none
      maxOrder := zoneMaxOrder z.numPages maxOrderLimit
      pages := fun i => if i < z.numPages then ⟨0, false, none⟩ else z.pages i } 0 (fun _ => []) [] := by
    refine ⟨zoneMaxOrder_le _ _, fun _ _ => rfl, fun _ _ _ hi => (nomatch hi), fun _ hb => (nomatch hb), ?_⟩
    rw [freeBlocks_nil]
    exact .nil
  obtain ⟨hs, L, hL, hbest⟩ := zoneBuildFrom_owns z.numPages h0 (Nat.zero_le _) (Nat.le_add_left _ _)
  have htiles := hL.tiles
  rw [append_nil, ← hs.numPages] at htiles
  exact ⟨hs.basePhys, hs.numPages, hs.maxOrder, L, hL,
    (hbest fun _ _ hi => (nomatch hi)).coalesced htiles⟩

/-! ## Allocating -/

theorem zoneSplitLoop_owns (i want : Nat) : ∀ (o : Nat) {z : Zone} {n : Nat} {L : Nat → List Nat}
    {rest : List Block}, Owns z n L ((i, o) :: rest) → want ≤ o →
      SameZone z (zoneSplitLoop i want o z) ∧
        ∃ L', Owns (zoneSplitLoop i want o z) n L' ((i, want) :: rest) ∧
          (Coalesced z.maxOrder L → Coalesced z.maxOrder L')
  | 0, z, n, L, rest, h, hw => ⟨.refl z, L, (Nat.le_zero.mp hw).symm ▸ h, id⟩
  | o + 1, z, n, L, rest, h, hw => by
    unfold zoneSplitLoop
    split
    · rename_i hlt
      have ho : o ≤ z.maxOrder := Nat.le_of_succ_le (h.order _ mem_cons_self)
      have hsplit : Owns z n L ((i, o) :: (i + 2 ^ o, o) :: rest) :=
        h.reshape [(i, o + 1)] [(i, o), (i + 2 ^ o, o)] (fun b hb => by
          rcases mem_cons.mp hb with he | hb
          · rw [he]; exact ho
          · rw [mem_singleton.mp hb]; exact ho) fun M hM => hM.split
      obtain ⟨hs, L', hL, hco⟩ := zoneSplitLoop_owns i want o (hsplit.perm (List.Perm.swap _ _ _)).push
        (Nat.le_of_lt_succ hlt)
      -- the buddy of the right half is the left half, which is kept
      have hbuddy : buddyIndex (i + 2 ^ o) o = i := by
        have hd : 2 ^ (o + 1) ∣ i := (h.block_fits mem_cons_self).1
        rcases buddy_cases (dvd_half hd) with ⟨-, he⟩ | ⟨hd', he⟩
        · rw [← he]
          exact buddy_buddy i o
        · have hodd : 2 ^ (o + 1) ∣ 2 ^ o := by
            rw [he] at hd
            exact (Nat.dvd_add_right hd').mp hd
          have hle := Nat.le_of_dvd (Nat.two_pow_pos o) hodd
          exact absurd hle (Nat.not_le.mpr (Nat.pow_lt_pow_right (by decide) (Nat.lt_succ_self o)))
      have hleft := hsplit.not_free mem_cons_self (Nat.le_trans ho h.max)
      refine ⟨(sameZone_push z (i + 2 ^ o) o).trans hs, L', hL, fun hc => hco (hc.push fun _ => ?_)⟩
      rw [hbuddy]
      exact hleft
    · rename_i hge
      exact ⟨.refl z, L, Nat.le_antisymm hw (Nat.not_lt.mp hge) ▸ h, id⟩

theorem popFirst_owns : ∀ (k : Nat) {z z' : Zone} {n i o o' : Nat} {L : Nat → List Nat}
    {rest : List Block}, Owns z n L rest → popFirst z k o = some (i, o', z') →
      o ≤ o' ∧ SameZone z z' ∧ ∃ L', Owns z' n L' ((i, o') :: rest) ∧ ∀ m, L' m ⊆ L m
  | 0, _, _, _, _, _, _, _, _, _, hp => nomatch hp
  | k + 1, z, z', n, i, o, o', L, rest, h, hp => by
    unfold popFirst at hp
    split at hp
    · rename_i ho
      split at hp
      · rename_i j y hpop
        cases hp
        obtain ⟨l, hcons, hl⟩ := h.pop ho hpop
        have hs : SameZone z z' := by
          unfold zonePopFree at hpop
          split at hpop
          · cases hpop
          · cases hpop
            exact ⟨rfl, rfl, rfl⟩
        refine ⟨Nat.le_refl _, hs, _, hl, update_subset ?_⟩
        rw [hcons]
        exact subset_cons_self _ _
      · obtain ⟨hle, hs, hL⟩ := popFirst_owns k h hp
        exact ⟨Nat.le_of_succ_le hle, hs, hL⟩
    · cases hp

/-- Of a page whose block is out of the lists, order and use may be set. -/
theorem Owns.mark {z : Zone} {n : Nat} {L : Nat → List Nat} {rest : List Block} (h : Owns z n L rest)
    {b : Block} (hb : b ∈ rest) (f : PageDesc → PageDesc) : Owns (z.modify b.1 f) n L rest :=
  h.modify (fun _ ho => h.not_free hb ho) f

/-- An allocation fails, or a block comes out of the lists. -/
theorem zoneAllocPages_owns {z : Zone} {n : Nat} {L : Nat → List Nat} {rest : List Block}
    (h : Owns z n L rest) (order : Nat) :
    zoneAllocPages z order = (0, z) ∨ ∃ i z' L', zoneAllocPages z order = (physOf z i, z') ∧
      SameZone z z' ∧ Owns z' n L' ((i, order) :: rest) ∧
        (Coalesced z.maxOrder L → Coalesced z.maxOrder L') := by
  unfold zoneAllocPages
  split
  · exact .inl rfl
  split
  · exact .inl rfl
  · rename_i i o y hp
    obtain ⟨hle, hs, L', hL, hsub⟩ := popFirst_owns _ h hp
    right
    split
    · obtain ⟨hs', L'', hL', hco⟩ := zoneSplitLoop_owns i order o hL hle
      rw [hs.maxOrder] at hco
      have hmark := ((hL'.mark mem_cons_self fun x => { x with order := order % 256 }).mark
        mem_cons_self fun x => { x with used := true }).mark mem_cons_self
          fun x => { x with order := order % 256 }
      have hphys : physOf (zoneSplitTo y i o order) i = physOf z i :=
        congrArg (fun b => (b + i * pageSize % 2 ^ 32) % 2 ^ 32) (hs'.basePhys.trans hs.basePhys)
      exact ⟨i, _, L'', Prod.ext hphys rfl, hs.trans (hs'.trans ⟨rfl, rfl, rfl⟩), hmark,
        fun hc => hco (hc.of_subset hsub)⟩
    · rename_i hge
      obtain rfl := Nat.le_antisymm hle (Nat.not_lt.mp hge)
      have hmark := (hL.mark mem_cons_self fun x => { x with used := true }).mark
        mem_cons_self fun x => { x with order := order % 256 }
      have hphys : physOf y i = physOf z i :=
        congrArg (fun b => (b + i * pageSize % 2 ^ 32) % 2 ^ 32) hs.basePhys
      exact ⟨i, _, L', Prod.ext hphys rfl, hs.trans ⟨rfl, rfl, rfl⟩, hmark, fun hc => hc.of_subset hsub⟩

/-! ## Freeing -/

theorem Owns.free_lt {z : Zone} {n : Nat} {L : Nat → List Nat} {rest : List Block} (h : Owns z n L rest)
    {o i : Nat} (ho : o ≤ maxOrderLimit) (hi : i ∈ L o) : i < n := by
  have hmem : (i, o) ∈ freeBlocks L maxOrderLimit ++ rest :=
    mem_append_left _ (mem_freeBlocks.mpr ⟨ho, hi⟩)
  have hfit := h.tiles.within _ hmem
  have hpos := size_pos (i, o)
  dsimp only at hfit
  omega

theorem Owns.length_le {z : Zone} {n : Nat} {L : Nat → List Nat} {rest : List Block} (h : Owns z n L rest)
    {o : Nat} (ho : o ≤ maxOrderLimit) : (L o).length ≤ n := by
  have hsub : L o ⊆ List.range n := by
    intro i hi
    exact mem_range.mpr (h.free_lt ho hi)
  have hle := (subperm_of_subset (h.chain o ho).nodup hsub).length_le
  rwa [length_range] at hle

/-- Merging goes on until a block is left whose buddy cannot be had. -/
theorem coalesce_owns : ∀ (k : Nat) {z : Zone} {i o : Nat} {L : Nat → List Nat} {rest : List Block},
    Owns z z.numPages L ((i, o) :: rest) →
      ∃ z' i' o', coalesce k z i o = some (z', i', o') ∧ SameZone z z' ∧
        ∃ L', Owns z' z.numPages L' ((i', o') :: rest) ∧ (∀ m, L' m ⊆ L m) ∧
          (z.maxOrder ≤ o + k → o' < z.maxOrder → buddyIndex i' o' ∉ L' o')
  | 0, z, i, o, L, rest, h =>
    ⟨z, i, o, rfl, .refl z, L, h, fun _ => List.Subset.refl _, fun hk ho => absurd ho (Nat.not_lt.mpr hk)⟩
  | k + 1, z, i, o, L, rest, h => by
    have hstop : (o < z.maxOrder → buddyIndex i o ∉ L o) → ∃ z' i' o', some (z, i, o) = some (z', i', o') ∧
        SameZone z z' ∧ ∃ L', Owns z' z.numPages L' ((i', o') :: rest) ∧ (∀ m, L' m ⊆ L m) ∧
          (z.maxOrder ≤ o + (k + 1) → o' < z.maxOrder → buddyIndex i' o' ∉ L' o') :=
      fun hb => ⟨z, i, o, rfl, .refl z, L, h, fun _ => List.Subset.refl _, fun _ => hb⟩
    unfold coalesce
    split
    · rename_i hge
      exact hstop fun hlt => absurd hlt (Nat.not_lt.mpr hge)
    rename_i ho
    have ho' : o + 1 ≤ z.maxOrder := Nat.not_le.mp ho
    have hlim : o ≤ maxOrderLimit := Nat.le_of_succ_le (Nat.le_trans ho' h.max)
    dsimp only
    split
    · rename_i hout
      refine hstop fun _ hm => ?_
      have hlt := h.free_lt hlim hm
      omega
    split
    · rename_i hbusy
      refine hstop fun _ hm => ?_
      obtain ⟨horder, hused⟩ := h.desc o hlim _ hm
      rw [horder, hused] at hbusy
      simp at hbusy
    by_cases hm : buddyIndex i o ∈ L o
    · obtain ⟨xs, ys, hxy⟩ := append_of_mem hm
      have hch := h.chain o hlim
      have hlen := h.length_le hlim
      rw [hxy] at hch hlen
      have hnot : buddyIndex i o ∉ xs := by
        have hnd := hch.nodup
        exact fun hx => (nodup_cons.mp (nodup_middle.mp hnd)).1 (mem_append_left _ hx)
      have hlt : xs.length < z.numPages := by
        rw [length_append, length_cons] at hlen
        omega
      rw [walk_found hch hnot hlt, Option.or_none]
      dsimp only
      -- the buddy comes out of its list, and the two make one block
      have hout := (h.unlink (Nat.le_of_succ_le ho') hxy).perm (List.Perm.swap _ _ _)
      have hmax : (unlinkFree z o xs.getLast? (buddyIndex i o)).maxOrder = z.maxOrder := by
        cases xs.getLast? <;> rfl
      have hsame : SameZone z (unlinkFree z o xs.getLast? (buddyIndex i o)) := by
        cases xs.getLast? <;> exact ⟨rfl, rfl, rfl⟩
      have hmerged := hout.reshape [(i, o), (buddyIndex i o, o)]
        [(min i (buddyIndex i o), o + 1)] (fun b hb => by
          rw [mem_singleton.mp hb, hmax]
          exact ho') fun M hM => hM.mergeBuddy
      have hmark := hmerged.mark mem_cons_self fun x => { x with order := (o + 1) % 256 }
      rw [← hsame.numPages] at hmark
      obtain ⟨z', i', o', hrun, hs, L', hL, hsub, hlast⟩ := coalesce_owns k hmark
      have hshort : xs ++ ys ⊆ L o := by
        rw [hxy]
        exact append_subset.mpr ⟨subset_append_left _ _, fun y hy =>
          mem_append_right _ (mem_cons_of_mem _ hy)⟩
      refine ⟨z', i', o', hrun, hsame.trans ((sameZone_modify _ _ _).trans hs), L', ?_,
        fun m => List.Subset.trans (hsub m) (update_subset hshort m), fun hk => ?_⟩
      · rw [← hsame.numPages]
        exact hL
      · have hmax' : (z.maxOrder ≤ o + 1 + k → o' < z.maxOrder → buddyIndex i' o' ∉ L' o') := by
          rw [← hmax]
          exact hlast
        exact hmax' (by omega)
    · rw [walk_absent (h.chain o hlim) hm (h.length_le hlim)]
      exact hstop fun _ => hm

theorem index_of_phys {z : Zone} {i : Nat} :
    (z.basePhys + i * pageSize - z.basePhys) &&& (pageSize - 1) = 0 ∧
      (z.basePhys + i * pageSize - z.basePhys) >>> pageShift = i := by
  rw [Nat.add_sub_cancel_left]
  constructor
  · have h := Nat.and_two_pow_sub_one_eq_mod (i * pageSize) 12
    have hz : i * pageSize % 2 ^ 12 = 0 := Nat.mul_mod_left i (2 ^ 12)
    exact h.trans hz
  · rw [Nat.shiftRight_eq_div_pow]
    exact Nat.mul_div_cancel i (by decide)

/-- A block that is out of the lists is freed. -/
theorem zoneFreePages_owns {z : Zone} {i o : Nat} {L : Nat → List Nat} {rest : List Block}
    (h : Owns z z.numPages L ((i, o) :: rest)) :
    ∃ z', zoneFreePages z (z.basePhys + i * pageSize) o = some z' ∧ SameZone z z' ∧
      ∃ L', Owns z' z.numPages L' rest ∧ (Coalesced z.maxOrder L → Coalesced z.maxOrder L') := by
  have hin : i < z.numPages := by
    have hfit := (h.block_fits mem_cons_self).2
    have hpos := size_pos (i, o)
    dsimp only at hfit
    omega
  obtain ⟨hoff, hidx⟩ := index_of_phys (z := z) (i := i)
  unfold zoneFreePages
  rw [if_neg (Nat.not_lt.mpr (Nat.le_add_right _ _))]
  dsimp only
  rw [hoff, hidx, if_neg (fun h => h rfl), if_neg (Nat.not_le.mpr hin)]
  have hmark := (h.mark mem_cons_self fun x => { x with used := false }).mark
    mem_cons_self fun x => { x with order := o % 256 }
  obtain ⟨z', i', o', hrun, hs, L', hL, hsub, hlast⟩ := coalesce_owns (z.maxOrder - o) hmark
  have hfuel : z.maxOrder ≤ o + (z.maxOrder - o) := by omega
  refine ⟨zonePushFree z' i' o', ?_, ((sameZone_modify z i _).trans (sameZone_modify _ i _)).trans
    (hs.trans (sameZone_push z' i' o')), _, hL.push, fun hc => (hc.of_subset hsub).push (hlast hfuel)⟩
  rw [show coalesce (z.maxOrder - o) ((z.setUsed i false).setOrder i o) i o = some (z', i', o') from hrun]
  rfl

/-! ## Runs -/

/-- A zone, and the blocks its callers hold: the addresses they were given, and the orders
they asked for. -/
structure System where
  zone : Zone
  live : List (Nat × Nat)

/-- The block at an address. -/
def blockAt (z : Zone) (p : Nat × Nat) : Block := ((p.1 - z.basePhys) / pageSize, p.2)

inductive Op where
  | alloc (order : Nat)
  | free (phys order : Nat)

def step (s : System) : Op → Option System
  | .alloc order =>
    let (phys, z) := zoneAllocPages s.zone order
    some ⟨z, if phys = 0 then s.live else (phys, order) :: s.live⟩
  | .free phys order =>
    if (phys, order) ∈ s.live then
      (zoneFreePages s.zone phys order).map fun z => ⟨z, s.live.erase (phys, order)⟩
    else none

/-- The free lists end, and their blocks and the live ones tile the zone. -/
def Partition (s : System) : Prop :=
  ∃ L : Nat → List Nat, (∀ o ≤ maxOrderLimit, IsChain s.zone.next (s.zone.freeList o) (L o)) ∧
    Tiles s.zone.numPages (freeBlocks L maxOrderLimit ++ s.live.map (blockAt s.zone))

/-- Every page has a 32-bit address, and none the address 0. -/
def Addressable (z : Zone) : Prop :=
  ∀ i < z.numPages, 0 < z.basePhys ∧ z.basePhys + i * pageSize < 2 ^ 32

structure Inv (s : System) : Prop where
  addressable : Addressable s.zone
  owns : ∃ L, Owns s.zone s.zone.numPages L (s.live.map (blockAt s.zone))
  live : ∀ p ∈ s.live, ∃ i, p.1 = s.zone.basePhys + i * pageSize

theorem Inv.partition {s : System} (h : Inv s) : Partition s := by
  obtain ⟨L, hL⟩ := h.owns
  exact ⟨L, hL.chain, hL.tiles⟩

theorem blockAt_phys (z : Zone) (i o : Nat) : blockAt z (z.basePhys + i * pageSize, o) = (i, o) := by
  unfold blockAt
  rw [Nat.add_sub_cancel_left, Nat.mul_div_cancel i (by decide)]

theorem SameZone.blockAt {z z' : Zone} (h : SameZone z z') : blockAt z' = blockAt z := by
  funext p
  unfold Buddy.blockAt
  rw [h.basePhys]

theorem SameZone.addressable {z z' : Zone} (h : SameZone z z') (ha : Addressable z) : Addressable z' := by
  unfold Addressable
  rw [h.numPages, h.basePhys]
  exact ha

theorem Addressable.physOf {z : Zone} (h : Addressable z) {i : Nat} (hi : i < z.numPages) :
    physOf z i = z.basePhys + i * pageSize ∧ physOf z i ≠ 0 := by
  obtain ⟨h0, hlt⟩ := h i hi
  have hi' : i * pageSize < 2 ^ 32 := by omega
  have he : Buddy.physOf z i = z.basePhys + i * pageSize := by
    unfold Buddy.physOf
    rw [Nat.mod_eq_of_lt hi', Nat.mod_eq_of_lt hlt]
  exact ⟨he, by omega⟩

theorem Inv.alloc {s : System} (h : Inv s) (order : Nat) :
    Inv ⟨(zoneAllocPages s.zone order).2, if (zoneAllocPages s.zone order).1 = 0 then s.live
      else ((zoneAllocPages s.zone order).1, order) :: s.live⟩ := by
  obtain ⟨L, hL⟩ := h.owns
  obtain he | ⟨i, z', L', he, hs, hL', -⟩ := zoneAllocPages_owns hL order
  · rw [he]
    exact h
  · have hin : i < s.zone.numPages := by
      have hfit := (hL'.block_fits mem_cons_self).2
      have hpos := size_pos (i, order)
      dsimp only at hfit
      omega
    obtain ⟨hphys, hne⟩ := h.addressable.physOf hin
    rw [he]
    dsimp only
    rw [if_neg hne, hphys]
    refine ⟨hs.addressable h.addressable, ⟨L', ?_⟩, fun p hp => ?_⟩
    · dsimp only
      rw [hs.blockAt, hs.numPages, map_cons, blockAt_phys]
      exact hL'
    · dsimp only
      rw [hs.basePhys]
      rcases mem_cons.mp hp with rfl | hp
      · exact ⟨i, rfl⟩
      · exact h.live p hp

theorem Inv.free {s : System} (h : Inv s) {phys order : Nat} (hp : (phys, order) ∈ s.live) :
    ∃ z, zoneFreePages s.zone phys order = some z ∧ Inv ⟨z, s.live.erase (phys, order)⟩ := by
  obtain ⟨L, hL⟩ := h.owns
  obtain ⟨i, hi⟩ := h.live _ hp
  dsimp only at hi
  have hperm := (perm_cons_erase hp).map (blockAt s.zone)
  rw [map_cons, hi, blockAt_phys] at hperm
  obtain ⟨z', hrun, hs, L', hL', -⟩ := zoneFreePages_owns (hL.perm hperm)
  rw [hi]
  refine ⟨z', hrun, hs.addressable h.addressable, ⟨L', ?_⟩, fun p hp' => ?_⟩
  · dsimp only
    rw [hs.blockAt, hs.numPages]
    exact hL'
  · dsimp only
    rw [hs.basePhys]
    exact h.live p (mem_of_mem_erase hp')

/-- Right after `zone_build`. -/
def Built (z : Zone) (s : System) : Prop := s = ⟨zoneBuild z, []⟩

def Step (s s' : System) : Prop := ∃ op, step s op = some s'

theorem Inv.step {s s' : System} (h : Inv s) (hs : Step s s') : Inv s' := by
  obtain ⟨op, hs⟩ := hs
  cases op with
  | alloc order =>
    cases hs
    exact h.alloc order
  | free phys order =>
    obtain ⟨hp, hs⟩ := Option.ite_none_right_eq_some.mp hs
    obtain ⟨z, hz, hi⟩ := h.free hp
    rw [hz] at hs
    cases hs
    exact hi

theorem Inv.build {z : Zone} (h : Addressable z) : Inv ⟨zoneBuild z, []⟩ := by
  obtain ⟨hbase, hnum, -, L, hL, -⟩ := zoneBuild_owns z
  refine ⟨?_, ⟨L, ?_⟩, fun p hp => nomatch hp⟩
  · unfold Addressable
    rw [hnum, hbase]
    exact h
  · dsimp only
    rw [hnum]
    exact hL

/-- In every run from a zone whose pages have addresses, free and live blocks partition
the zone, and every live block can be freed. -/
theorem partition_of_addressable {z : Zone} {s : System} (hz : Addressable z)
    (h : Run.Reachable (Built z) Step s) :
    Partition s ∧ ∀ phys order, (phys, order) ∈ s.live → ∃ s', step s (.free phys order) = some s' := by
  have hbuilt : ∀ t, Built z t → Inv t := by
    intro t ht
    rw [ht]
    exact Inv.build hz
  have hinv := h.invariant Inv hbuilt fun _ _ hi hs => hi.step hs
  refine ⟨hinv.partition, fun phys order hp => ?_⟩
  obtain ⟨z', hz', -⟩ := hinv.free hp
  exact ⟨⟨z', s.live.erase (phys, order)⟩, by simp only [Buddy.step, if_pos hp, hz', Option.map_some]⟩

/-! ## A page at address 0 -/

/-- `add_zone` of the gigabyte above 4 GiB: the base is cut to 32 bits. -/
def zoneAbove4G : Zone :=
  { basePhys := 0x100000000 % 2 ^ 32, numPages := 262144, pages := fun _ => ⟨0, false, none⟩,
    freeList := fun _ => none, maxOrder := 0 }

/-- The first page asked for is page 0, whose address the caller takes for `NULL`: it is
neither free nor held by anyone. -/
theorem not_always_partition :
    ¬∀ z s, Run.Reachable (Built z) Step s → Partition s := by
  intro h
  have hrun : (step ⟨zoneBuild zoneAbove4G, []⟩ (.alloc 0)).map (fun s =>
      (s.live, s.zone.numPages, (List.range 21).map s.zone.freeList,
        (List.range 18).map fun o => s.zone.next (2 ^ o))) =
      some ([], 262144, (List.range 21).map (fun o => if o < 18 then some (2 ^ o) else none),
        (List.range 18).map fun _ => none) := by decide +kernel
  obtain ⟨s, hs, heq⟩ := Option.map_eq_some_iff.mp hrun
  obtain ⟨hlive, heq⟩ := Prod.mk.inj heq
  obtain ⟨hnum, heq⟩ := Prod.mk.inj heq
  obtain ⟨hfree, hnext⟩ := Prod.mk.inj heq
  have hstart : Run.Reachable (Built zoneAbove4G) Step ⟨zoneBuild zoneAbove4G, []⟩ := .start rfl
  obtain ⟨L, hchain, htiles⟩ := h zoneAbove4G s (hstart.step ⟨.alloc 0, hs⟩)
  -- the lists are those of the 18 right halves
  have hlists : ∀ o ≤ maxOrderLimit, L o = if o < 18 then [2 ^ o] else [] := by
    intro o ho
    have hhead := List.map_eq_map_iff.mp hfree o (List.mem_range.mpr (Nat.lt_succ_of_le ho))
    have hch := hchain o ho
    rw [hhead] at hch
    by_cases h18 : o < 18
    · rw [if_pos h18] at hch ⊢
      have hend := List.map_eq_map_iff.mp hnext o (List.mem_range.mpr h18)
      exact hch.unique ⟨rfl, hend⟩
    · rw [if_neg h18] at hch ⊢
      exact hch.unique rfl
  have htotal := htiles.total
  rw [hlive, List.map_nil, List.append_nil, freeBlocks_congr hlists, hnum] at htotal
  exact absurd htotal (by decide +kernel)

/-- A thousand pages from 2 MiB on: a block of eight pages and a single page are taken,
and the eight given back. -/
theorem partition_of_addressable_thousand : ∃ s,
    Run.exec step ⟨zoneBuild { zoneAbove4G with basePhys := 0x200000, numPages := 1000 }, []⟩
      [.alloc 3, .alloc 0, .free 0x5E0000 3] = some s ∧ s.live = [(0x5C0000, 0)] ∧ Partition s := by
  have hrun : (Run.exec step ⟨zoneBuild { zoneAbove4G with basePhys := 0x200000, numPages := 1000 }, []⟩
      [.alloc 3, .alloc 0, .free 0x5E0000 3]).map (·.live) = some [(0x5C0000, 0)] := by decide +kernel
  obtain ⟨s, hs, hlive⟩ := Option.map_eq_some_iff.mp hrun
  have haddr : Addressable { zoneAbove4G with basePhys := 0x200000, numPages := 1000 } := by
    intro i hi
    have hlt : i < 1000 := hi
    refine ⟨by decide, ?_⟩
    show 0x200000 + i * 4096 < 2 ^ 32
    omega
  have hstart : Run.Reachable (Built { zoneAbove4G with basePhys := 0x200000, numPages := 1000 }) Step
      ⟨zoneBuild { zoneAbove4G with basePhys := 0x200000, numPages := 1000 }, []⟩ := .start rfl
  exact ⟨s, hs, hlive, (partition_of_addressable haddr
    (hstart.exec (fun _ op _ hst => ⟨op, hst⟩) hs)).1⟩

end Serotonin.Buddy
