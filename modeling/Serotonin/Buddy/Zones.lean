import Serotonin.Buddy.Canonical
import Mathlib.Data.List.Perm.Subperm

/-! The zones together. A block is taken from the first zone that has one; the zone it goes back to
is found by its address. -/

namespace Serotonin.Buddy

open Blocks Chain List

/-! ## The calls -/

/-- `z->base_phys + (z->num_pages << PAGE_SHIFT)` -/
def zoneEnd (z : Zone) : Nat := (z.basePhys + z.numPages * pageSize % 2 ^ 32) % 2 ^ 32

def findZoneByPhys (zones : List Zone) (phys : Nat) : Option Nat :=
  zones.findIdx? fun z => decide (z.basePhys ≤ phys ∧ phys < zoneEnd z)

/-- `none`: the kernel panics. -/
def allocPages (order : Nat) : List Zone → Option (Nat × List Zone)
  | [] => none
  | z :: zones =>
    let (p, z') := zoneAllocPages z order
    if p ≠ 0 then some (p, z' :: zones) else (allocPages order zones).map fun r => (r.1, z' :: r.2)

def freePages (zones : List Zone) (phys order : Nat) : Option (List Zone) :=
  match findZoneByPhys zones phys with
  | none => some zones
  | some zi =>
    match zones[zi]? with
    | none => some zones
    | some z => (zoneFreePages z phys order).map (zones.set zi ·)

/-- The length of a list, which has at most so many blocks. -/
def listLength (next : Nat → Option Nat) : Nat → Option Nat → Nat
  | 0, _ => 0
  | _ + 1, none => 0
  | k + 1, some i => listLength next k (next i) + 1

def zoneFree (z : Zone) : Nat :=
  ((List.range (z.maxOrder + 1)).map fun o => listLength z.next z.numPages (z.freeList o) * 2 ^ o).sum

def buddyFreePages (zones : List Zone) : Nat := (zones.map zoneFree).sum % 2 ^ 32

/-- The zones, and the blocks their callers hold. -/
structure Memory where
  zones : List Zone
  live : List (Nat × Nat)

instance lawfulBEqLive : LawfulBEq (Nat × Nat) := inferInstance

/-- A block is freed with the order it was asked for. -/
def Memory.step (m : Memory) : Op → Option Memory
  | .alloc order => (allocPages order m.zones).map fun r => ⟨r.2, (r.1, order) :: m.live⟩
  | .free phys order =>
    if (phys, order) ∈ m.live then
      (freePages m.zones phys order).map fun zones => ⟨zones, m.live.erase (phys, order)⟩
    else none

/-! ## Zones below 4 GiB -/

/-- The zone has whole pages, none of them at address 0 or from 4 GiB on. -/
structure Placed (z : Zone) : Prop where
  pos : 0 < z.basePhys
  aligned : z.basePhys % pageSize = 0
  below : z.basePhys + z.numPages * pageSize ≤ 2 ^ 32

def Zone.Disjoint (z z' : Zone) : Prop :=
  z.basePhys + z.numPages * pageSize ≤ z'.basePhys ∨ z'.basePhys + z'.numPages * pageSize ≤ z.basePhys

theorem Zone.Disjoint.symm {z z' : Zone} (h : z.Disjoint z') : z'.Disjoint z := Or.symm h

/-- The address is one of the zone's. -/
def Zone.has (z : Zone) (p : Nat × Nat) : Bool := decide (z.basePhys ≤ p.1 ∧ p.1 < z.basePhys + z.numPages * pageSize)

/-- The zone has a free block of at least the order. -/
def hasBlock (order : Nat) (z : Zone) : Bool :=
  (List.range (z.maxOrder + 1)).any fun o => decide (order ≤ o) && (z.freeList o).isSome

/-- The zone that a block is taken from. -/
def sourceZone (order : Nat) (zones : List Zone) : Option Nat := zones.findIdx? (hasBlock order)

theorem Placed.addressable {z : Zone} (h : Placed z) : Addressable z := fun i hi => by
  have hpos := h.pos
  have hle := h.below
  unfold pageSize at *
  omega

theorem SameZone.placed {z z' : Zone} (hs : SameZone z z') (h : Placed z) : Placed z' := by
  refine ⟨?_, ?_, ?_⟩
  · rw [hs.basePhys]
    exact h.pos
  · rw [hs.basePhys]
    exact h.aligned
  · rw [hs.basePhys, hs.numPages]
    exact h.below

theorem SameZone.has_eq {z z' : Zone} (hs : SameZone z z') : z'.has = z.has := by
  funext p
  unfold Zone.has
  rw [hs.basePhys, hs.numPages]

theorem SameZone.disjoint {z z' y : Zone} (hs : SameZone z z') (h : z.Disjoint y) : z'.Disjoint y := by
  unfold Zone.Disjoint
  rw [hs.basePhys, hs.numPages]
  exact h

/-! ## Counting -/

theorem listLength_eq {next : Nat → Option Nat} : ∀ {xs : List Nat} {k : Nat} {p : Option Nat}, IsChain next p xs →
    xs.length ≤ k → listLength next k p = xs.length
  | [], 0, _, _, _ => rfl
  | [], k + 1, p, h, _ => by
    obtain rfl : p = none := h
    rfl
  | x :: xs, k + 1, p, h, hle => by
    obtain ⟨rfl, hrest⟩ := seg_cons.mp h
    show listLength next k (next x) + 1 = xs.length + 1
    rw [length_cons] at hle
    rw [listLength_eq hrest (by omega)]

theorem sum_freeBlocks (L : Nat → List Nat) : ∀ m, ((freeBlocks L m).map size).sum =
    ((List.range (m + 1)).map fun o => (L o).length * 2 ^ o).sum := by
  have hone : ∀ o, (((L o).map (·, o)).map size).sum = (L o).length * 2 ^ o := fun o => by
    rw [map_map]
    show ((L o).map fun _ => 2 ^ o).sum = _
    rw [map_const', sum_replicate_nat]
  intro m
  induction m with
  | zero =>
    show (((L 0).map (·, 0)).map size).sum = _
    rw [hone]
    simp
  | succ m ih =>
    show (((L (m + 1)).map (·, m + 1) ++ freeBlocks L m).map size).sum = _
    rw [map_append, sum_append, hone, ih, range_succ (n := m + 1), map_append, sum_append]
    simp only [map_cons, map_nil, sum_singleton]
    exact Nat.add_comm _ _

/-- Above the largest order of the zone there are no lists. -/
theorem sum_range_of_empty {f : Nat → Nat} {a b : Nat} (hle : a ≤ b) (h : ∀ o, a ≤ o → o < b → f o = 0) :
    ((List.range b).map f).sum = ((List.range a).map f).sum := by
  induction hle with
  | refl => rfl
  | @step b hle ih =>
    rw [range_succ, map_append, sum_append, ih fun o ha hb => h o ha (by omega)]
    simp [h b hle]

/-- Every page is in a free block or in one that is out. -/
theorem zoneFree_add {z : Zone} {L : Nat → List Nat} {rest : List Block}
    (hmax : z.maxOrder = zoneMaxOrder z.numPages maxOrderLimit) (h : Owns z z.numPages L rest) :
    zoneFree z + (rest.map size).sum = z.numPages := by
  have hempty : ∀ o, z.maxOrder + 1 ≤ o → o ≤ maxOrderLimit → L o = [] := by
    intro o hlt hle
    refine eq_nil_iff_forall_not_mem.mpr fun i hi => ?_
    have hmem : (i, o) ∈ freeBlocks L maxOrderLimit ++ rest := mem_append_left _ (mem_freeBlocks.mpr ⟨hle, hi⟩)
    have hin : i + 2 ^ o ≤ z.numPages := h.tiles.within _ hmem
    have hmo := le_zoneMaxOrder (Nat.le_trans (Nat.le_add_left _ _) hin) hle
    omega
  have hmo := h.max
  have hlists : zoneFree z = ((List.range (z.maxOrder + 1)).map fun o => (L o).length * 2 ^ o).sum := by
    unfold zoneFree
    congr 1
    refine map_congr_left fun o ho => ?_
    have hle : o ≤ maxOrderLimit := by
      have := mem_range.mp ho
      omega
    rw [listLength_eq (h.chain o hle) (h.length_le hle)]
  have htotal := h.tiles.total
  rw [map_append, sum_append, sum_freeBlocks, sum_range_of_empty (Nat.succ_le_succ hmo), ← hlists] at htotal
  · exact htotal
  · intro o ha hb
    rw [hempty o ha (by omega)]
    exact Nat.zero_mul _

/-! ## One zone -/

/-- A zone whose blocks are in its lists or out, those of the callers among them. -/
structure ZoneInv (z : Zone) (live : List (Nat × Nat)) : Prop where
  placed : Placed z
  max : z.maxOrder = zoneMaxOrder z.numPages maxOrderLimit
  owns : ∃ L rest, Owns z z.numPages L rest ∧ ((live.filter z.has).map (blockAt z)).Subperm rest

variable {z z' : Zone} {live live' : List (Nat × Nat)} {order : Nat}

theorem ZoneInv.mono (h : ZoneInv z live) (hlive : (live'.filter z.has).Sublist (live.filter z.has)) : ZoneInv z live' := by
  obtain ⟨L, rest, hL, hsub⟩ := h.owns
  exact ⟨h.placed, h.max, L, rest, hL, (hlive.map _).subperm.trans hsub⟩

theorem ZoneInv.build (h : Placed z) : ZoneInv (zoneBuild z) [] := by
  obtain ⟨hbase, hnum, hmax, L, hL, -⟩ := zoneBuild_owns z
  refine ⟨⟨?_, ?_, ?_⟩, by rw [hmax, hnum], L, [], by rwa [hnum], List.Subperm.refl _⟩
  · rw [hbase]
    exact h.pos
  · rw [hbase]
    exact h.aligned
  · rw [hbase, hnum]
    exact h.below

/-- The lists are looked through up to the largest order. -/
theorem popFirst_none (k o : Nat) : popFirst z k o = none ↔
    ∀ o', o ≤ o' → o' < o + k → o' ≤ z.maxOrder → z.freeList o' = none := by
  induction k generalizing o with
  | zero => exact ⟨fun _ o' h1 h2 => absurd h2 (by omega), fun _ => rfl⟩
  | succ k ih =>
    unfold popFirst
    by_cases ho : o ≤ z.maxOrder
    · rw [if_pos ho]
      cases hf : z.freeList o with
      | none =>
        have hpop : zonePopFree z o = none := by
          unfold zonePopFree
          rw [hf]
        simp only [hpop]
        rw [ih (o + 1)]
        constructor
        · intro h o' h1 h2 h3
          rcases Nat.eq_or_lt_of_le h1 with rfl | hlt
          · exact hf
          · exact h o' hlt (by omega) h3
        · exact fun h o' h1 h2 h3 => h o' (by omega) (by omega) h3
      | some i =>
        have hpop : (zonePopFree z o).isSome = true := by
          unfold zonePopFree
          rw [hf]
          rfl
        obtain ⟨r, hr⟩ := Option.isSome_iff_exists.mp hpop
        simp only [hr]
        refine ⟨fun h => absurd h (Option.some_ne_none _), fun h => ?_⟩
        rw [h o (Nat.le_refl o) (by omega) ho] at hf
        cases hf
    · rw [if_neg ho]
      exact ⟨fun _ o' h1 _ h3 => absurd (Nat.le_trans h1 h3) ho, fun _ => rfl⟩

theorem hasBlock_iff : hasBlock order z = true ↔ ∃ o, order ≤ o ∧ o ≤ z.maxOrder ∧ z.freeList o ≠ none := by
  unfold hasBlock
  rw [any_eq_true]
  simp only [mem_range, Bool.and_eq_true, decide_eq_true_eq, Option.isSome_iff_ne_none]
  constructor
  · rintro ⟨o, hlt, hle, hne⟩
    exact ⟨o, hle, by omega, hne⟩
  · rintro ⟨o, hle, hmax, hne⟩
    exact ⟨o, by omega, hle, hne⟩

/-- A zone without a block is left as it is. -/
theorem zoneAllocPages_of_not_hasBlock (h : hasBlock order z = false) : zoneAllocPages z order = (0, z) := by
  have hnone : ∀ o, order ≤ o → o ≤ z.maxOrder → z.freeList o = none := by
    intro o h1 h2
    by_contra hne
    rw [hasBlock_iff.mpr ⟨o, h1, h2, hne⟩] at h
    cases h
  unfold zoneAllocPages
  split
  · rfl
  · rw [(popFirst_none _ _).mpr fun o' h1 _ h3 => hnone o' h1 h3]

theorem Owns.live_lt {L : Nat → List Nat} {rest : List Block} {i o : Nat} (h : Owns z z.numPages L ((i, o) :: rest)) :
    i < z.numPages := by
  have hfit := (h.block_fits mem_cons_self).2
  have hpos := size_pos (i, o)
  dsimp only at hfit
  omega

/-- What is asked of a zone that has a block. -/
theorem zoneAllocPages_of_hasBlock {L : Nat → List Nat} {rest : List Block} (hz : Placed z) (h : Owns z z.numPages L rest)
    (hblock : hasBlock order z = true) : ∃ i z' L', i < z.numPages ∧
      zoneAllocPages z order = (z.basePhys + i * pageSize, z') ∧ SameZone z z' ∧ Owns z' z.numPages L' ((i, order) :: rest) := by
  obtain he | ⟨i, z', L', he, hs, hL', -⟩ := zoneAllocPages_owns h order
  · exfalso
    obtain ⟨o, hle, hmax, hne⟩ := hasBlock_iff.mp hblock
    cases hp : popFirst z (z.maxOrder + 1 - order) order with
    | none => exact absurd ((popFirst_none _ _).mp hp o hle (by omega) hmax) hne
    | some r =>
      obtain ⟨i, o', y⟩ := r
      obtain ⟨hle', hs, L', hL', -⟩ := popFirst_owns _ h hp
      have hin : i < y.numPages := Owns.live_lt (by rw [hs.numPages]; exact hL')
      have hphys := (hs.addressable hz.addressable).physOf hin
      have hphys' : physOf (zoneSplitTo y i o' order) i = physOf y i := by
        have hsplit := (zoneSplitLoop_owns i order o' hL' hle').1
        exact congrArg (fun b => (b + i * pageSize % 2 ^ 32) % 2 ^ 32) hsplit.basePhys
      unfold zoneAllocPages at he
      rw [if_neg (by omega), hp] at he
      simp only at he
      split at he
      · exact hphys.2 (hphys'.symm.trans (Prod.mk.inj he).1)
      · exact hphys.2 (Prod.mk.inj he).1
  · have hin : i < z'.numPages := Owns.live_lt (by rw [hs.numPages]; exact hL')
    rw [hs.numPages] at hin
    rw [(hz.addressable.physOf hin).1] at he
    exact ⟨i, z', L', hin, he, hs, hL'⟩

theorem has_phys {i : Nat} (hi : i < z.numPages) (order : Nat) : z.has (z.basePhys + i * pageSize, order) = true := by
  have hlt : i * pageSize < z.numPages * pageSize := Nat.mul_lt_mul_of_pos_right hi (by decide)
  exact decide_eq_true ⟨Nat.le_add_right _ _, Nat.add_lt_add_left hlt _⟩

theorem phys_mod (hz : Placed z) (i : Nat) : (z.basePhys + i * pageSize) % pageSize = 0 := by
  have ha := hz.aligned
  unfold pageSize at *
  omega

/-- A block given out is one more that is out, and given back it is in the lists again. -/
theorem ZoneInv.alloc (h : ZoneInv z live) (hblock : hasBlock order z = true) : ∃ p z', zoneAllocPages z order = (p, z') ∧
    p ≠ 0 ∧ p % pageSize = 0 ∧ z.has (p, order) = true ∧ SameZone z z' ∧ ZoneInv z' ((p, order) :: live) ∧
      ∃ z'', zoneFreePages z' p order = some z'' ∧ SameZone z z'' ∧ zoneFree z'' = zoneFree z := by
  obtain ⟨L, rest, hL, hsub⟩ := h.owns
  obtain ⟨i, z', L', hi, he, hs, hL'⟩ := zoneAllocPages_of_hasBlock h.placed hL hblock
  have hmax' : z'.maxOrder = zoneMaxOrder z'.numPages maxOrderLimit := by rw [hs.maxOrder, hs.numPages, h.max]
  have hne : z.basePhys + i * pageSize ≠ 0 := by
    have := h.placed.pos
    omega
  rw [← hs.numPages] at hL'
  refine ⟨_, z', he, hne, phys_mod h.placed i, has_phys hi order, hs, ⟨hs.placed h.placed, hmax', L', _, hL', ?_⟩, ?_⟩
  · rw [hs.has_eq, filter_cons_of_pos (has_phys hi order), map_cons, hs.blockAt, blockAt_phys]
    exact (subperm_cons _).mpr hsub
  · obtain ⟨z'', hfree, hs', L'', hL'', -⟩ := zoneFreePages_owns hL'
    rw [hs.basePhys] at hfree
    refine ⟨z'', hfree, hs.trans hs', ?_⟩
    have hmax'' : z''.maxOrder = zoneMaxOrder z''.numPages maxOrderLimit := by rw [hs'.maxOrder, hs'.numPages, hmax']
    rw [← hs'.numPages] at hL''
    have h1 := zoneFree_add h.max hL
    have h2 := zoneFree_add hmax'' hL''
    rw [hs'.numPages, hs.numPages] at h2
    omega

/-- A block of the zone that comes back is no longer out. -/
theorem ZoneInv.free (h : ZoneInv z live) {p : Nat} (hp : (p, order) ∈ live) (hhas : z.has (p, order) = true)
    (hal : p % pageSize = 0) : ∃ z', zoneFreePages z p order = some z' ∧ SameZone z z' ∧
      ZoneInv z' (live.erase (p, order)) ∧ zoneFree z' = zoneFree z + 2 ^ order := by
  obtain ⟨L, rest, hL, hsub⟩ := h.owns
  have hin := of_decide_eq_true hhas
  have hbase := h.placed.aligned
  have hphys : p = z.basePhys + (p - z.basePhys) / pageSize * pageSize := by
    unfold pageSize at *
    omega
  have hmem : (p, order) ∈ live.filter z.has := mem_filter.mpr ⟨hp, hhas⟩
  have hperm := (perm_cons_erase hmem).map (blockAt z)
  rw [map_cons] at hperm
  have hblock : blockAt z (p, order) = ((p - z.basePhys) / pageSize, order) := rfl
  have hsub' := hperm.symm.subperm.trans hsub
  have hrest := perm_cons_erase (hsub'.subset mem_cons_self)
  have hsub'' := (subperm_cons _).mp (hsub'.trans hrest.subperm)
  have hL' := hL.perm hrest
  rw [hblock] at hL'
  obtain ⟨z', hfree, hs, L', hL', -⟩ := zoneFreePages_owns hL'
  rw [← hphys] at hfree
  have hmax' : z'.maxOrder = zoneMaxOrder z'.numPages maxOrderLimit := by rw [hs.maxOrder, hs.numPages, h.max]
  rw [← hs.numPages] at hL'
  refine ⟨z', hfree, hs, ⟨hs.placed h.placed, hmax', L', _, hL', ?_⟩, ?_⟩
  · rw [hs.has_eq, hs.blockAt, ← erase_filter]
    exact hsub''
  · have h1 := zoneFree_add h.max hL
    have h2 := zoneFree_add hmax' hL'
    have hsize : size (blockAt z (p, order)) = 2 ^ order := rfl
    rw [(hrest.map size).sum_eq, map_cons, sum_cons, hsize, hblock] at h1
    rw [hs.numPages] at h2
    omega

/-! ## All zones -/

structure Memory.Inv (m : Memory) : Prop where
  zones : ∀ z ∈ m.zones, ZoneInv z m.live
  disjoint : m.zones.Pairwise Zone.Disjoint
  aligned : ∀ p ∈ m.live, p.1 % pageSize = 0

/-- A block is taken from the first zone that has one, and the others stay. -/
theorem allocPages_eq : ∀ {zones : List Zone}, (∀ z ∈ zones, ZoneInv z live) →
    sourceZone order zones = none ∧ allocPages order zones = none ∨
      ∃ pre z post p z', zones = pre ++ z :: post ∧ sourceZone order zones = some pre.length ∧ hasBlock order z = true ∧
        zoneAllocPages z order = (p, z') ∧ allocPages order zones = some (p, pre ++ z' :: post)
  | [], _ => .inl ⟨rfl, rfl⟩
  | y :: zones, h => by
    cases hy : hasBlock order y with
    | true =>
      obtain ⟨p, z', he, hne, -⟩ := (h y mem_cons_self).alloc hy
      refine .inr ⟨[], y, zones, p, z', rfl, ?_, hy, he, ?_⟩
      · unfold sourceZone
        rw [List.findIdx?_cons, if_pos hy]
        rfl
      · unfold allocPages
        rw [he]
        exact if_pos hne
    | false =>
      have he := zoneAllocPages_of_not_hasBlock hy
      have hsource : sourceZone order (y :: zones) = (sourceZone order zones).map (· + 1) := by
        unfold sourceZone
        rw [List.findIdx?_cons, if_neg (by rw [hy]; nofun)]
      have halloc : allocPages order (y :: zones) = (allocPages order zones).map fun r => (r.1, y :: r.2) := by
        rw [allocPages, he]
        exact if_neg fun h => h rfl
      rw [hsource, halloc]
      obtain ⟨hs, ha⟩ | ⟨pre, z, post, p, z', rfl, hs, hz, hp, ha⟩ := allocPages_eq fun z hz => h z (mem_cons_of_mem _ hz)
      · rw [hs, ha]
        exact .inl ⟨rfl, rfl⟩
      · rw [hs, ha]
        exact .inr ⟨y :: pre, z, post, p, z', rfl, rfl, hz, hp, rfl⟩

/-- An address of one zone is none of another's. -/
theorem Zone.Disjoint.not_has {y : Zone} (h : z.Disjoint y) {q : Nat × Nat} (hz : z.has q = true) : y.has q = false := by
  have hin := of_decide_eq_true hz
  refine decide_eq_false ?_
  unfold Zone.Disjoint at h
  omega

theorem zoneEnd_eq (z : Zone) : zoneEnd z = (z.basePhys + z.numPages * pageSize) % 2 ^ 32 := Nat.add_mod_mod ..

theorem zoneEnd_le (z : Zone) : zoneEnd z ≤ z.basePhys + z.numPages * pageSize := by
  rw [zoneEnd_eq]
  exact Nat.mod_le ..

/-- Only the zone that has the address is found, and that one unless it ends at 4 GiB. -/
theorem findZoneByPhys_eq {pre post : List Zone} (hplaced : ∀ y ∈ pre ++ z :: post, Placed y)
    (hd : (pre ++ z :: post).Pairwise Zone.Disjoint) {p : Nat} (hp : z.has (p, order) = true) :
    findZoneByPhys (pre ++ z :: post) p =
      if z.basePhys + z.numPages * pageSize = 2 ^ 32 then none else some pre.length := by
  have hmiss : ∀ y ∈ pre ++ z :: post, z.Disjoint y → decide (y.basePhys ≤ p ∧ p < zoneEnd y) = false := by
    intro y hy hdis
    have hnot := of_decide_eq_false (hdis.not_has hp)
    have hle := zoneEnd_le y
    exact decide_eq_false fun hin => hnot ⟨hin.1, by omega⟩
  have hapart := pairwise_append.mp hd
  have hpre : pre.findIdx? (fun y => decide (y.basePhys ≤ p ∧ p < zoneEnd y)) = none :=
    List.findIdx?_eq_none_iff.mpr fun y hy =>
      hmiss y (mem_append_left _ hy) (hapart.2.2 y hy z mem_cons_self).symm
  have hpost : post.findIdx? (fun y => decide (y.basePhys ≤ p ∧ p < zoneEnd y)) = none :=
    List.findIdx?_eq_none_iff.mpr fun y hy =>
      hmiss y (mem_append_right _ (mem_cons_of_mem _ hy)) ((pairwise_cons.mp hapart.2.1).1 y hy)
  have hz := hplaced z (mem_append_right _ mem_cons_self)
  have hin := of_decide_eq_true hp
  have hend := zoneEnd_eq z
  have hbelow := hz.below
  unfold findZoneByPhys
  rw [List.findIdx?_append, hpre, List.findIdx?_cons, hpost]
  by_cases h4g : z.basePhys + z.numPages * pageSize = 2 ^ 32
  · rw [h4g, Nat.mod_self] at hend
    rw [if_pos h4g, if_neg (by rw [hend]; simp)]
    rfl
  · have hlt : z.basePhys + z.numPages * pageSize < 2 ^ 32 := by omega
    rw [Nat.mod_eq_of_lt hlt] at hend
    rw [if_neg h4g, if_pos (by rw [hend]; exact decide_eq_true hin)]
    simp

variable {m m' : Memory}

theorem Memory.Inv.replace {pre post : List Zone} (h : m.Inv) (hm : m.zones = pre ++ z :: post) (hs : SameZone z z')
    (hz' : ZoneInv z' live) (hrest : ∀ y ∈ m.zones, y.Disjoint z → ZoneInv y m.live → ZoneInv y live)
    (hal : ∀ p ∈ live, p.1 % pageSize = 0) : Memory.Inv ⟨pre ++ z' :: post, live⟩ := by
  have hd := h.disjoint
  rw [hm, pairwise_append, pairwise_cons] at hd
  obtain ⟨hpre, ⟨hzpost, hpost⟩, hcross⟩ := hd
  have hz : ∀ y, y ∈ pre ∨ y ∈ post → ZoneInv y live := by
    intro y hy
    have hmem : y ∈ m.zones := by
      rw [hm]
      rcases hy with hy | hy
      · exact mem_append_left _ hy
      · exact mem_append_right _ (mem_cons_of_mem _ hy)
    refine hrest y hmem ?_ (h.zones y hmem)
    rcases hy with hy | hy
    · exact hcross y hy z mem_cons_self
    · exact (hzpost y hy).symm
  refine ⟨fun y hy => ?_, ?_, hal⟩
  · rcases mem_append.mp hy with hy | hy
    · exact hz y (.inl hy)
    · rcases mem_cons.mp hy with rfl | hy
      · exact hz'
      · exact hz y (.inr hy)
  · refine pairwise_append.mpr ⟨hpre, pairwise_cons.mpr ⟨fun y hy => hs.disjoint (hzpost y hy), hpost⟩, ?_⟩
    intro x hx y hy
    rcases mem_cons.mp hy with rfl | hy
    · exact (hs.disjoint (hcross x hx z mem_cons_self).symm).symm
    · exact hcross x hx y (mem_cons_of_mem _ hy)

theorem Memory.Inv.placed (h : m.Inv) : ∀ z ∈ m.zones, Placed z := fun z hz => (h.zones z hz).placed

theorem Memory.Inv.alloc (h : m.Inv) {p : Nat} {zones : List Zone} (ha : allocPages order m.zones = some (p, zones)) :
    Memory.Inv ⟨zones, (p, order) :: m.live⟩ := by
  obtain ⟨-, hnone⟩ | ⟨pre, z, post, q, z', hm, -, hblock, hq, hsome⟩ := allocPages_eq h.zones
  · rw [hnone] at ha
    cases ha
  rw [hsome] at ha
  obtain ⟨rfl, rfl⟩ := Prod.mk.inj (Option.some.inj ha)
  have hz : z ∈ m.zones := by
    rw [hm]
    exact mem_append_right _ mem_cons_self
  obtain ⟨p, z₁, he, -, hal, hhas, hs, hinv, -⟩ := (h.zones z hz).alloc hblock
  obtain ⟨rfl, rfl⟩ := Prod.mk.inj (he.symm.trans hq)
  refine h.replace hm hs hinv (fun y _ hdis hy => hy.mono ?_) fun r hr => ?_
  · rw [filter_cons_of_neg (by rw [hdis.symm.not_has hhas]; nofun)]
  · rcases mem_cons.mp hr with rfl | hr
    · exact hal
    · exact h.aligned r hr

theorem Memory.Inv.forget (h : m.Inv) (p : Nat × Nat) : Memory.Inv ⟨m.zones, m.live.erase p⟩ where
  zones z hz := (h.zones z hz).mono (erase_sublist.filter _)
  disjoint := h.disjoint
  aligned q hq := h.aligned q (mem_of_mem_erase hq)

theorem Memory.Inv.free (h : m.Inv) {p : Nat} {zones : List Zone} (hp : (p, order) ∈ m.live)
    (hf : freePages m.zones p order = some zones) : Memory.Inv ⟨zones, m.live.erase (p, order)⟩ := by
  unfold freePages at hf
  split at hf
  · cases hf
    exact h.forget _
  next i hfind =>
  split at hf
  · cases hf
    exact h.forget _
  next z hz =>
  obtain ⟨hi, hin⟩ := List.findIdx?_eq_some_iff_getElem.mp hfind
  obtain ⟨z', hz', rfl⟩ := Option.map_eq_some_iff.mp hf
  have hget := List.getElem?_eq_getElem hi
  rw [hget] at hz
  have hmem := mem_of_getElem? (hget.trans hz)
  rw [Option.some.inj hz] at hin
  have hin := of_decide_eq_true hin.1
  have hhas : z.has (p, order) = true := by
    have hle := zoneEnd_le z
    exact decide_eq_true ⟨hin.1, by dsimp only; omega⟩
  obtain ⟨z₁, hfree, hs, hinv, -⟩ := (h.zones z hmem).free hp hhas (h.aligned _ hp)
  obtain rfl := Option.some.inj (hfree.symm.trans hz')
  have hsplit : m.zones = m.zones.take i ++ z :: m.zones.drop (i + 1) := by
    rw [← Option.some.inj hz, getElem_cons_drop, take_append_drop]
  have hset : m.zones.set i z₁ = m.zones.take i ++ z₁ :: m.zones.drop (i + 1) := set_eq_take_append_cons_drop ▸ if_pos hi
  rw [hset]
  exact h.replace hsplit hs hinv (fun y _ _ hy => hy.mono (erase_sublist.filter _)) fun q hq =>
    h.aligned q (mem_of_mem_erase hq)

/-- The zones as `zone_build` leaves them. -/
def Memory.Start (m : Memory) : Prop :=
  ∃ zones : List Zone, (∀ z ∈ zones, Placed z) ∧ zones.Pairwise Zone.Disjoint ∧ m = ⟨zones.map zoneBuild, []⟩

def Memory.Step (m m' : Memory) : Prop := ∃ op, m.step op = some m'

theorem Memory.Inv.step (h : m.Inv) (hs : m.Step m') : m'.Inv := by
  obtain ⟨op, hs⟩ := hs
  cases op with
  | alloc order =>
    obtain ⟨⟨p, zones⟩, ha, rfl⟩ := Option.map_eq_some_iff.mp hs
    exact h.alloc ha
  | free phys order =>
    obtain ⟨hp, hs⟩ := Option.ite_none_right_eq_some.mp hs
    obtain ⟨zones, hf, rfl⟩ := Option.map_eq_some_iff.mp hs
    exact h.free hp hf

theorem sameZone_build (z : Zone) : (zoneBuild z).basePhys = z.basePhys ∧ (zoneBuild z).numPages = z.numPages :=
  ⟨(zoneBuild_owns z).1, (zoneBuild_owns z).2.1⟩

theorem Memory.Inv.start (h : m.Start) : m.Inv := by
  obtain ⟨zones, hplaced, hd, rfl⟩ := h
  refine ⟨fun z hz => ?_, ?_, nofun⟩
  · obtain ⟨y, hy, rfl⟩ := mem_map.mp hz
    exact .build (hplaced y hy)
  · refine pairwise_map.mpr (hd.imp fun {a b} hab => ?_)
    obtain ⟨hba, hna⟩ := sameZone_build a
    obtain ⟨hbb, hnb⟩ := sameZone_build b
    unfold Zone.Disjoint at hab ⊢
    rwa [hba, hna, hbb, hnb]

theorem Memory.inv_of_reachable (h : Run.Reachable Memory.Start Memory.Step m) : m.Inv :=
  h.invariant Memory.Inv (fun _ => .start) fun _ _ => .step

/-! ## A block that comes back -/

/-- What is asked for is found again in the zone it came from, and freeing it at once brings the number
of free pages back. -/
def Memory.GivesBack (m : Memory) (order : Nat) : Prop :=
  ∀ p zones, allocPages order m.zones = some (p, zones) →
    findZoneByPhys zones p = sourceZone order m.zones ∧
      ∃ zones', freePages zones p order = some zones' ∧ buddyFreePages zones' = buddyFreePages m.zones

/-- A block that is out is found in zone `i`, and when it is freed all its pages are free. -/
def Memory.PutsBack (m : Memory) (i : Nat) (p : Nat × Nat) : Prop :=
  findZoneByPhys m.zones p.1 = some i ∧ ∃ zones, freePages m.zones p.1 p.2 = some zones ∧
    (zones.map zoneFree).sum = (m.zones.map zoneFree).sum + 2 ^ p.2

/-- The end of the zone has 32 bits. -/
def Zone.EndsBelow (z : Zone) : Prop := z.basePhys + z.numPages * pageSize ≠ 2 ^ 32

theorem Memory.Inv.givesBack_iff (hinv : m.Inv) (order : Nat) : m.GivesBack order ↔
    ∀ i z, sourceZone order m.zones = some i → m.zones[i]? = some z → z.EndsBelow := by
  unfold Memory.GivesBack
  obtain ⟨hs, ha⟩ | ⟨pre, z, post, p, z', hm, hs, hblock, hp, ha⟩ := @allocPages_eq _ order _ hinv.zones
  · rw [hs, ha]
    exact ⟨fun _ i z => nofun, fun _ p zones => nofun⟩
  have hz : z ∈ m.zones := by
    rw [hm]
    exact mem_append_right _ mem_cons_self
  obtain ⟨q, z₁, he, -, -, hhas, hsame, -, z₂, hfree, -, htotal⟩ := (hinv.zones z hz).alloc hblock
  obtain ⟨rfl, rfl⟩ := Prod.mk.inj (he.symm.trans hp)
  have hafter := hinv.alloc ha
  have hfind := findZoneByPhys_eq hafter.placed hafter.disjoint (by rw [hsame.has_eq]; exact hhas)
  have hget : m.zones[pre.length]? = some z := by
    rw [hm]
    simp
  rw [hsame.basePhys, hsame.numPages] at hfind
  rw [hs, ha]
  constructor
  · intro hback i y hi hy h4g
    obtain rfl := Option.some.inj hi
    obtain rfl := Option.some.inj (hget.symm.trans hy)
    have hsome := (hback q _ rfl).1
    rw [hfind, if_pos h4g] at hsome
    cases hsome
  · intro hbelow p' zones' hsome
    obtain ⟨rfl, rfl⟩ := Prod.mk.inj (Option.some.inj hsome)
    rw [if_neg (hbelow pre.length z rfl hget)] at hfind
    refine ⟨hfind, pre ++ z₂ :: post, ?_, ?_⟩
    · unfold freePages
      rw [hfind]
      simp [hfree]
    · rw [hm]
      unfold buddyFreePages
      simp [htotal]

theorem Memory.Inv.putsBack_iff (hinv : m.Inv) {p : Nat × Nat} (hp : p ∈ m.live) {i : Nat} (hi : m.zones[i]? = some z)
    (hhas : z.has p = true) : m.PutsBack i p ↔ z.EndsBelow := by
  obtain ⟨phys, order⟩ := p
  obtain ⟨pre, post, hm, rfl⟩ : ∃ pre post, m.zones = pre ++ z :: post ∧ pre.length = i := by
    obtain ⟨hlt, hget⟩ := List.getElem?_eq_some_iff.mp hi
    refine ⟨m.zones.take i, m.zones.drop (i + 1), ?_, length_take_of_le (Nat.le_of_lt hlt)⟩
    rw [← hget, getElem_cons_drop, take_append_drop]
  have hz : z ∈ m.zones := mem_of_getElem? hi
  have hplaced := hinv.placed
  have hd := hinv.disjoint
  rw [hm] at hplaced hd
  have hfind := findZoneByPhys_eq hplaced hd hhas
  rw [← hm] at hfind
  unfold Memory.PutsBack Zone.EndsBelow
  constructor
  · rintro ⟨hsome, -⟩ h4g
    rw [hfind, if_pos h4g] at hsome
    cases hsome
  · intro hbelow
    rw [if_neg hbelow] at hfind
    obtain ⟨z', hfree, -, -, htotal⟩ := (hinv.zones z hz).free hp hhas (hinv.aligned _ hp)
    refine ⟨hfind, pre ++ z' :: post, ?_, ?_⟩
    · unfold freePages
      rw [hfind]
      simp [hm, hfree]
    · rw [hm]
      simp only [map_append, map_cons, sum_append, sum_cons, htotal]
      omega

/-- In every run, a block comes back to its zone just when the zone ends below 4 GiB: a block that is
freed at once, and any block that is out. -/
theorem block_comes_back_iff (h : Run.Reachable Memory.Start Memory.Step m) :
    (∀ order, m.GivesBack order ↔
      ∀ i z, sourceZone order m.zones = some i → m.zones[i]? = some z → z.EndsBelow) ∧
    ∀ p ∈ m.live, ∀ i z, m.zones[i]? = some z → z.has p = true → (m.PutsBack i p ↔ z.EndsBelow) :=
  ⟨(Memory.inv_of_reachable h).givesBack_iff, fun _ hp _ _ hi hhas =>
    (Memory.inv_of_reachable h).putsBack_iff hp hi hhas⟩

/-- A zone of so many pages from the base on. -/
def pagesFrom (base n : Nat) : Zone := { zoneAbove4G with basePhys := base, numPages := n }

/-- A zone of four pages from 2 MiB on. -/
theorem block_comes_back_four : Memory.GivesBack ⟨[zoneBuild (pagesFrom 0x200000 4)], []⟩ 1 := by
  have hstart : Memory.Start ⟨[zoneBuild (pagesFrom 0x200000 4)], []⟩ :=
    ⟨[pagesFrom 0x200000 4], fun z hz => by
      rw [List.mem_singleton.mp hz]
      exact ⟨by decide, by decide, by decide⟩, List.pairwise_singleton .., rfl⟩
  refine ((block_comes_back_iff (.start hstart)).1 1).mpr fun i z hi hz => ?_
  have hsource : sourceZone 1 [zoneBuild (pagesFrom 0x200000 4)] = some 0 := by decide +kernel
  obtain rfl := Option.some.inj (hsource.symm.trans hi)
  obtain rfl := Option.some.inj hz
  show (zoneBuild (pagesFrom 0x200000 4)).basePhys + (zoneBuild (pagesFrom 0x200000 4)).numPages * pageSize ≠ 2 ^ 32
  decide +kernel

/-- The last page below 4 GiB: no zone is found for it, and it stays out. -/
theorem not_block_comes_back : ∃ m order, Run.Reachable Memory.Start Memory.Step m ∧ ¬m.GivesBack order ∧
    ∃ zones, allocPages order m.zones = some (0xFFFFF000, zones) ∧ findZoneByPhys zones 0xFFFFF000 = none ∧
      (freePages zones 0xFFFFF000 order).map buddyFreePages = some 0 ∧ buddyFreePages m.zones = 1 := by
  have hstart : Memory.Start ⟨[zoneBuild (pagesFrom 0xFFFFF000 1)], []⟩ :=
    ⟨[pagesFrom 0xFFFFF000 1], fun z hz => by
      rw [List.mem_singleton.mp hz]
      exact ⟨by decide, by decide, by decide⟩, List.pairwise_singleton .., rfl⟩
  have halloc : (allocPages 0 [zoneBuild (pagesFrom 0xFFFFF000 1)]).map (·.1) = some 0xFFFFF000 := by decide +kernel
  obtain ⟨⟨p, zones⟩, ha, rfl⟩ := Option.map_eq_some_iff.mp halloc
  have hfind : (allocPages 0 [zoneBuild (pagesFrom 0xFFFFF000 1)]).map (fun r => findZoneByPhys r.2 0xFFFFF000) =
      some none := by decide +kernel
  have hfree : (allocPages 0 [zoneBuild (pagesFrom 0xFFFFF000 1)]).map
      (fun r => (freePages r.2 0xFFFFF000 0).map buddyFreePages) = some (some 0) := by decide +kernel
  have hsource : sourceZone 0 [zoneBuild (pagesFrom 0xFFFFF000 1)] = some 0 := by decide +kernel
  rw [ha] at hfind hfree
  have hnone : findZoneByPhys zones 0xFFFFF000 = none := Option.some.inj hfind
  refine ⟨_, 0, .start hstart, fun hback => ?_, zones, ha, hnone, Option.some.inj hfree, by decide +kernel⟩
  have h0 := (hback _ _ ha).1
  rw [hsource] at h0
  rw [show findZoneByPhys zones _ = none from hnone] at h0
  cases h0

end Serotonin.Buddy
