import Serotonin.Buddy.Runs

/-! Fragmentation is undone. Wherever a run has got to, no two free blocks are buddies
that could be merged; once everything is freed again the free blocks tile the zone, and a
range has one tiling without buddies, the one `zone_build` makes. -/

namespace Serotonin.Buddy

open Chain Blocks

/-- `L` are the free lists of the zone. -/
def FreeLists (z : Zone) (L : Nat → List Nat) : Prop :=
  ∀ o ≤ maxOrderLimit, IsChain z.next (z.freeList o) (L o)

/-- No two free blocks of an order below the largest are buddies, and with no block out the
lists are, as sets, those `zone_build` makes of `z`. -/
def Canonical (z : Zone) (s : System) : Prop :=
  ∃ L L₀, FreeLists s.zone L ∧ FreeLists (zoneBuild z) L₀ ∧
    (∀ o < s.zone.maxOrder, ∀ i ∈ L o, buddyIndex i o ∉ L o) ∧
      (s.live = [] → ∀ o ≤ maxOrderLimit, ∀ i, i ∈ L o ↔ i ∈ L₀ o)

theorem FreeLists.coalesced {z : Zone} {L L' : Nat → List Nat} {mo : Nat} (h : FreeLists z L)
    (h' : FreeLists z L') (hc : Coalesced mo L) : Coalesced mo L' := by
  have hsame : freeBlocks L maxOrderLimit = freeBlocks L' maxOrderLimit :=
    freeBlocks_congr fun o ho => (h o ho).unique (h' o ho)
  unfold Coalesced
  rw [← hsame]
  exact hc

/-- What `Inv` leaves open: the zone is still the one that was built, and coalesced. -/
structure Merged (z : Zone) (s : System) : Prop where
  same : SameZone (zoneBuild z) s.zone
  coalesced : ∀ L, FreeLists s.zone L → Coalesced s.zone.maxOrder L

theorem Merged.alloc {z : Zone} {s : System} (h : Merged z s) (hi : Inv s) (order : Nat) (live : List (Nat × Nat)) :
    Merged z ⟨(zoneAllocPages s.zone order).2, live⟩ := by
  obtain ⟨L, hL⟩ := hi.owns
  obtain he | ⟨i, z', L', he, hs, hL', hco⟩ := zoneAllocPages_owns hL order
  · rw [he]
    exact ⟨h.same, h.coalesced⟩
  · rw [he]
    refine ⟨h.same.trans hs, fun M hM => ?_⟩
    have hc := hco (h.coalesced L hL.chain)
    rw [← hs.maxOrder] at hc
    exact FreeLists.coalesced hL'.chain hM hc

theorem Merged.free {z : Zone} {s : System} (h : Merged z s) (hi : Inv s) {phys order : Nat}
    (hp : (phys, order) ∈ s.live) {y : Zone} (hy : zoneFreePages s.zone phys order = some y)
    (live : List (Nat × Nat)) : Merged z ⟨y, live⟩ := by
  obtain ⟨L, hL⟩ := hi.owns
  obtain ⟨i, hphys⟩ := hi.live _ hp
  dsimp only at hphys
  have hperm := (List.perm_cons_erase hp).map (blockAt s.zone)
  rw [List.map_cons, hphys, blockAt_phys] at hperm
  obtain ⟨z', hrun, hs, L', hL', hco⟩ := zoneFreePages_owns (hL.perm hperm)
  rw [hphys, hrun] at hy
  cases hy
  refine ⟨h.same.trans hs, fun M hM => ?_⟩
  have hc := hco (h.coalesced L hL.chain)
  rw [← hs.maxOrder] at hc
  exact FreeLists.coalesced hL'.chain hM hc

theorem Merged.step {z : Zone} {s s' : System} (h : Merged z s) (hi : Inv s) (hs : Step s s') : Merged z s' := by
  obtain ⟨op, hs⟩ := hs
  cases op with
  | alloc order =>
    cases hs
    exact h.alloc hi order _
  | free phys order =>
    obtain ⟨hp, hs⟩ := Option.ite_none_right_eq_some.mp hs
    obtain ⟨y, hy, rfl⟩ := Option.map_eq_some_iff.mp hs
    exact h.free hi hp hy _

theorem Merged.build (z : Zone) : Merged z ⟨zoneBuild z, []⟩ := by
  obtain ⟨-, -, -, L, hL, hco⟩ := zoneBuild_owns z
  exact ⟨.refl _, fun M hM => FreeLists.coalesced hL.chain hM hco⟩

/-- An order whose blocks fit is not above the largest of the zone. -/
theorem le_zoneMaxOrder {n o : Nat} (ho : 2 ^ o ≤ n) : ∀ {mo : Nat}, o ≤ mo → o ≤ zoneMaxOrder n mo
  | 0, h => h
  | mo + 1, h => by
    unfold zoneMaxOrder
    split
    · rename_i hlt
      rcases Nat.le_succ_iff.mp h with h | rfl
      · exact le_zoneMaxOrder ho h
      · exact absurd ho (Nat.not_le.mpr hlt)
    · exact h

/-- The orders of the blocks of a zone that is all free. -/
theorem order_le {z : Zone} {L : Nat → List Nat} {b : Block} (ht : Tiles z.numPages (freeBlocks L maxOrderLimit))
    (hb : b ∈ freeBlocks L maxOrderLimit) : b.2 ≤ zoneMaxOrder z.numPages maxOrderLimit := by
  have hin : b.1 + 2 ^ b.2 ≤ z.numPages := ht.within b hb
  exact le_zoneMaxOrder (Nat.le_trans (Nat.le_add_left _ _) hin) (mem_freeBlocks.mp hb).1

theorem Merged.canonical {z : Zone} {s : System} (h : Merged z s) (hi : Inv s) : Canonical z s := by
  obtain ⟨L, hL⟩ := hi.owns
  obtain ⟨-, hnum, hmax, L₀, hL₀, hco₀⟩ := zoneBuild_owns z
  have hco := h.coalesced L hL.chain
  refine ⟨L, L₀, hL.chain, hL₀.chain, fun o ho i hi hb => ?_, fun hlive o ho i => ?_⟩
  · have hlim : o ≤ maxOrderLimit := Nat.le_trans (Nat.le_of_lt ho) hL.max
    exact hco i o (mem_freeBlocks.mpr ⟨hlim, hi⟩) ho (mem_freeBlocks.mpr ⟨hlim, hb⟩)
  · have ht := hL.tiles
    have ht₀ := hL₀.tiles
    rw [hlive, List.map_nil, List.append_nil, h.same.numPages, hnum] at ht
    rw [List.append_nil] at ht₀
    rw [h.same.maxOrder, hmax] at hco
    rw [hmax] at hco₀
    have hle := fun b hb => order_le (b := b) ht hb
    have hle₀ := fun b hb => order_le (b := b) ht₀ hb
    have hsub := ht.subset ht₀ hco hco₀ hle hle₀
    have hsub₀ := ht₀.subset ht hco₀ hco hle₀ hle
    constructor
    · intro hi
      exact (mem_freeBlocks.mp (hsub (mem_freeBlocks.mpr ⟨ho, hi⟩))).2
    · intro hi
      exact (mem_freeBlocks.mp (hsub₀ (mem_freeBlocks.mpr ⟨ho, hi⟩))).2

/-- In every run from a zone whose pages have addresses the free lists are canonical. -/
theorem canonical_of_addressable {z : Zone} {s : System} (hz : Addressable z)
    (h : Run.Reachable (Built z) Step s) : Canonical z s := by
  have hbuilt : ∀ t, Built z t → Inv t ∧ Merged z t := by
    intro t ht
    rw [ht]
    exact ⟨Inv.build hz, Merged.build z⟩
  have hstep : ∀ t t', Inv t ∧ Merged z t → Step t t' → Inv t' ∧ Merged z t' :=
    fun t t' ht hs => ⟨ht.1.step hs, ht.2.step ht.1 hs⟩
  have hinv := h.invariant (fun t => Inv t ∧ Merged z t) hbuilt fun t t' => hstep t t'
  exact hinv.2.canonical hinv.1

/-! ## A zone across 4 GiB -/

/-- `add_zone` of the last page below 4 GiB and the two above it. -/
def zoneAcross4G : Zone :=
  { basePhys := 0xFFFFF000, numPages := 3, pages := fun _ => ⟨0, false, none⟩,
    freeList := fun _ => none, maxOrder := 0 }

/-- The third page is handed out at the address 0x1000. Given back, it lies below the zone's
base, and is not taken: nothing is held any more, and a list is empty that was not. -/
theorem not_always_canonical : ¬∀ z s, Run.Reachable (Built z) Step s → Canonical z s := by
  intro h
  have hrun : (Run.exec step ⟨zoneBuild zoneAcross4G, []⟩ [.alloc 0, .free 0x1000 0]).map
      (fun s => (s.live, s.zone.freeList 0)) = some ([], none) := by decide +kernel
  have hbuilt : (zoneBuild zoneAcross4G).freeList 0 = some 2 := by decide +kernel
  obtain ⟨s, hs, heq⟩ := Option.map_eq_some_iff.mp hrun
  obtain ⟨hlive, hfree⟩ := Prod.mk.inj heq
  have hstart : Run.Reachable (Built zoneAcross4G) Step ⟨zoneBuild zoneAcross4G, []⟩ := .start rfl
  obtain ⟨L, L₀, hL, hL₀, -, hsame⟩ :=
    h zoneAcross4G s (hstart.exec (fun _ op _ hst => ⟨op, hst⟩) hs)
  have hempty : L 0 = [] := by
    have hch := hL 0 (Nat.zero_le _)
    rw [hfree] at hch
    exact hch.unique rfl
  have hhead : 2 ∈ L₀ 0 := by
    have hch := hL₀ 0 (Nat.zero_le _)
    rw [hbuilt] at hch
    exact hch.head_mem
  have hmem := (hsame hlive 0 (Nat.zero_le _) 2).mpr hhead
  rw [hempty] at hmem
  cases hmem

/-- A thousand pages from 2 MiB on: two blocks are taken and given back in the order in
which they were taken. -/
theorem canonical_of_addressable_thousand : ∃ s,
    Run.exec step ⟨zoneBuild { zoneAbove4G with basePhys := 0x200000, numPages := 1000 }, []⟩
      [.alloc 3, .alloc 0, .free 0x5E0000 3, .free 0x5C0000 0] = some s ∧ s.live = [] ∧
        Canonical { zoneAbove4G with basePhys := 0x200000, numPages := 1000 } s := by
  have hrun : (Run.exec step ⟨zoneBuild { zoneAbove4G with basePhys := 0x200000, numPages := 1000 }, []⟩
      [.alloc 3, .alloc 0, .free 0x5E0000 3, .free 0x5C0000 0]).map (·.live) = some [] := by decide +kernel
  obtain ⟨s, hs, hlive⟩ := Option.map_eq_some_iff.mp hrun
  have haddr : Addressable { zoneAbove4G with basePhys := 0x200000, numPages := 1000 } := by
    intro i hi
    have hlt : i < 1000 := hi
    refine ⟨by decide, ?_⟩
    show 0x200000 + i * 4096 < 2 ^ 32
    omega
  have hstart : Run.Reachable (Built { zoneAbove4G with basePhys := 0x200000, numPages := 1000 }) Step
      ⟨zoneBuild { zoneAbove4G with basePhys := 0x200000, numPages := 1000 }, []⟩ := .start rfl
  exact ⟨s, hs, hlive, canonical_of_addressable haddr
    (hstart.exec (fun _ op _ hst => ⟨op, hst⟩) hs)⟩

end Serotonin.Buddy
