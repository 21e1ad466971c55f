import Serotonin.BlkCache.Ops
import Serotonin.Lib.Run

/-! The representation invariant of the cache over whole runs. A read that fails
after a miss marks its entry invalid but leaves it on its hash chain, and an entry
recycled from the end of the list is taken off its chain only if it is valid. The
invariant survives every step that recycles no entry of that kind, and is lost in
every step that does. -/

namespace Serotonin.BlkCache
open Function
open Chain

variable {δ : Type}

/-- Finite hash chains of entries that hash to their bucket, every valid entry on
exactly one of them, no two for one sector, and a doubly linked list of exactly
the used entries. -/
structure WellFormed (c : Cache δ) (B : Nat → List Idx) (lru : List Idx) : Prop where
  chain : ∀ b, IsChain c.hashNext (c.hashTable b) (B b)
  hashed : ∀ b, ∀ e ∈ B b, bucketOf c e = b
  once : ∀ e, IsValid c e → ∃ b, e ∈ B b ∧ ∀ q, e ∈ B q → q = b
  unique : ∀ e f, IsValid c e → IsValid c f → key c e = key c f → e = f
  order : (lruLinks c).Spells lru
  used : ∀ e, e ∈ lru ↔ e < c.usedCount

theorem Rep.wellFormed {c : Cache δ} {B : Nat → List Idx} {lru : List Idx} (h : Rep c B lru) :
    WellFormed c B lru :=
  ⟨h.chain, h.hashed, fun e he => ⟨_, h.valid e he, fun q hq => (h.hashed q e hq).symm⟩, h.unique,
    h.order, h.used⟩

/-! ## Recycling -/

/-- The entry is on some hash chain. -/
def OnChain (c : Cache δ) (e : Idx) : Prop :=
  ∃ b xs, IsChain c.hashNext (c.hashTable b) xs ∧ e ∈ xs

/-- The entry that `cache_alloc` would recycle is one that it takes off its chain,
or is on none. -/
def CleanRecycle (c : Cache δ) : Prop :=
  maxEntries ≤ c.usedCount → ∀ e, c.lruTail = some e → IsValid c e ∨ ¬OnChain c e

theorem Rep.onChain {c : Cache δ} {B : Nat → List Idx} {lru : List Idx} {b e : Nat}
    (h : Rep c B lru) (he : e ∈ B b) : OnChain c e := ⟨b, B b, h.chain b, he⟩

/-- A fresh entry is on no chain and in no list. -/
theorem Rep.fresh {c : Cache δ} {B : Nat → List Idx} {lru : List Idx} (h : Rep c B lru)
    (hroom : c.usedCount < maxEntries) :
    Detached ({ c with usedCount := c.usedCount + 1 }.setValid c.usedCount false) c.usedCount B lru := by
  refine ⟨fun b => ?_, fun b x hx => ?_, fun x hx hv => ?_, fun x y hx hy hvx hvy hk => ?_, ?_,
    fun x => ?_, fun b x hx => ?_, hroom, fun b hb => ?_, fun hm => ?_⟩
  · rw [hashNext_setValid]; exact h.chain b
  · rw [bucketOf_congr (key_setValid ..)]; exact h.hashed b x hx
  · rw [bucketOf_congr (key_setValid ..)]; exact h.valid x (isValid_setValid.mp hv).2
  · rw [key_setValid, key_setValid] at hk
    exact h.unique x y (isValid_setValid.mp hvx).2 (isValid_setValid.mp hvy).2 hk
  · rw [lruLinks_setValid]; exact h.order
  · rw [h.used]
    exact ⟨fun hx => hx.elim (fun h => Nat.lt_succ_of_lt h) fun h => h ▸ Nat.lt_succ_self _,
      fun hx => Nat.lt_or_eq_of_le (Nat.le_of_lt_succ hx)⟩
  · exact Nat.lt_succ_of_lt (h.chained b x hx)
  · exact Nat.lt_irrefl _ (h.chained b _ hb)
  · exact Nat.lt_irrefl _ ((h.used _).mp hm)

/-- The last entry of the list, taken off it. -/
theorem Rep.dropLast {c : Cache δ} {B : Nat → List Idx} {lru : List Idx} {e : Idx}
    (h : Rep c B lru) (ht : c.lruTail = some e) :
    ∃ xs, lru = xs ++ [e] ∧ (lruLinks (lruRemove c e)).Spells xs := by
  have htail : (lruLinks c).tail = some e := ht
  rw [h.order.tail_eq] at htail
  obtain ⟨xs, rfl⟩ := List.getLast?_eq_some_iff.mp htail
  have hr := h.order.remove
  rw [List.append_nil, ← lruLinks_lruRemove] at hr
  exact ⟨xs, rfl, hr⟩

/-- Recycling the last entry of a full cache. -/
theorem Rep.evict {c : Cache δ} {B : Nat → List Idx} {lru : List Idx} {e : Idx} (h : Rep c B lru)
    (ht : c.lruTail = some e) (hclean : IsValid c e ∨ ¬OnChain c e) :
    ∃ c' B' lru', BlkCache.evict c e = some c' ∧ Detached c' e B' lru' ∧
      SameOrder (lruRemove c e) c' ∧ ∀ b, ∀ x ∈ B' b, x ∈ B b := by
  obtain ⟨xs, rfl, hl⟩ := h.dropLast ht
  have hs := sameChains_lruRemove c e
  have hnd := h.order.nodup
  have hexs : e ∉ xs := fun hm => by
    rw [List.nodup_append] at hnd
    exact hnd.2.2 e hm e (by simp) rfl
  have hbucket : ∀ x, bucketOf (lruRemove c e) x = bucketOf c x := fun x => bucketOf_congr (hs.key x)
  have hvalid : ∀ x, IsValid (lruRemove c e) x → IsValid c x := fun x hx => (hs.valid x).symm.trans hx
  -- what is left to show once the entry is off its chain
  have hdone : ∀ c' B', SameOrder (lruRemove c e) c' →
      (∀ b, IsChain c'.hashNext (c'.hashTable b) (B' b)) → (∀ b x, x ∈ B' b ↔ x ∈ B b ∧ x ≠ e) →
      Detached c' e B' xs := by
    intro c' B' hso hchain hmem
    have hb : ∀ x, bucketOf c' x = bucketOf c x := fun x =>
      (bucketOf_congr (hso.key x)).trans (hbucket x)
    have hv : ∀ x, IsValid c' x → IsValid c x := fun x hx => hvalid x ((hso.valid x).symm.trans hx)
    have hu : c'.usedCount = c.usedCount := hso.usedCount.trans hs.usedCount
    refine ⟨hchain, fun b x hx => ?_, fun x hx hvx => ?_, fun x y _ _ hvx hvy hk => ?_, ?_, fun x => ?_,
      fun b x hx => ?_, ?_, fun b hx => ((hmem b e).mp hx).2 rfl, hexs⟩
    · rw [hb]; exact h.hashed b x ((hmem b x).mp hx).1
    · rw [hb]; exact (hmem _ x).mpr ⟨h.valid x (hv x hvx), hx⟩
    · rw [hso.key, hso.key, hs.key, hs.key] at hk
      exact h.unique x y (hv x hvx) (hv y hvy) hk
    · rw [hso.lru]; exact hl
    · rw [hu, ← h.used x, List.mem_append, List.mem_singleton]
    · rw [hu]; exact h.chained b x ((hmem b x).mp hx).1
    · rw [hu]; exact h.count
  have hchain1 : ∀ b, IsChain (lruRemove c e).hashNext ((lruRemove c e).hashTable b) (B b) := fun b => by
    rw [hs.hashNext, hs.hashTable]; exact h.chain b
  unfold BlkCache.evict
  dsimp only
  rw [hs.valid]
  by_cases hv : (c.entries e).valid = true
  · rw [if_pos hv]
    obtain ⟨c', B', hrun, hso, hchain, hmem⟩ := hashRemove_spec hchain1
      (fun b x hx => (hbucket x).trans (h.hashed b x hx)) h.chain_length
      ((hbucket e).symm ▸ h.valid e hv)
    exact ⟨c', B', xs, hrun, hdone c' B' hso hchain hmem, hso, fun b x hx => ((hmem b x).mp hx).1⟩
  · rw [if_neg hv]
    have hoff : ∀ b, e ∉ B b := fun b hb => hclean.elim hv fun hn => hn (h.onChain hb)
    refine ⟨lruRemove c e, B, xs, rfl, hdone _ B (.refl _) hchain1 fun b x => ?_, .refl _, fun _ _ hx => hx⟩
    exact ⟨fun hx => ⟨hx, fun he => hoff b (he ▸ hx)⟩, fun hx => hx.1⟩

/-- What entering a sector changes: its entry is the sector's, valid and on a
chain, and the other entries stay as they are. -/
structure Entered (c c' : Cache δ) (e : Idx) (drive : UInt8) (lba : UInt32) (B B' : Nat → List Idx) :
    Prop where
  key : key c' e = (drive, lba)
  valid : IsValid c' e
  keys : ∀ x, x ≠ e → BlkCache.key c' x = BlkCache.key c x
  valids : ∀ x, x ≠ e → (IsValid c' x ↔ IsValid c x)
  chained : ∀ b, ∀ x ∈ B' b, x = e ∨ x ∈ B b

/-- A state with the same sectors and chains, and the entry given its sector. -/
theorem Entered.of_keyed {c c' : Cache δ} {e : Idx} {B B' : Nat → List Idx} (drive : UInt8) (lba : UInt32)
    (hk : ∀ x, BlkCache.key c' x = BlkCache.key c x) (hv : ∀ x, x ≠ e → (IsValid c' x ↔ IsValid c x))
    (hB : ∀ b, ∀ x ∈ B' b, x ∈ B b) :
    Entered c (cacheKey c' e drive lba) e drive lba B
      (update B' (blkcacheHash drive lba) (e :: B' (blkcacheHash drive lba))) := by
  obtain ⟨hkey, hvalid⟩ := key_keyed c' e drive lba
  refine ⟨by rw [hkey, if_pos rfl], by unfold IsValid; rw [hvalid, if_pos rfl], fun x hx => ?_,
    fun x hx => ?_, fun b x hx => ?_⟩
  · rw [hkey, if_neg hx, hk]
  · unfold IsValid
    rw [hvalid, if_neg hx]
    exact hv x hx
  · by_cases hb : b = blkcacheHash drive lba
    · subst hb
      rw [update_self] at hx
      exact (List.mem_cons.mp hx).imp_right (hB _ x)
    · rw [update_of_ne hb] at hx
      exact .inr (hB b x hx)

/-- The entry for a new sector, taken from those never used. -/
theorem Rep.allocFresh {c : Cache δ} {B : Nat → List Idx} {lru : List Idx} {drive : UInt8} {lba : UInt32}
    (h : Rep c B lru) (hroom : c.usedCount < maxEntries)
    (hnew : ∀ x, IsValid c x → key c x ≠ (drive, lba)) :
    ∃ c', cacheAlloc c drive lba = some (some c.usedCount, c') ∧
      Rep c' (update B (blkcacheHash drive lba) (c.usedCount :: B (blkcacheHash drive lba)))
        (c.usedCount :: lru) ∧
      c'.usedCount = c.usedCount + 1 ∧
      Entered c c' c.usedCount drive lba B
        (update B (blkcacheHash drive lba) (c.usedCount :: B (blkcacheHash drive lba))) := by
  refine ⟨_, by unfold cacheAlloc; rw [if_pos hroom],
    (h.fresh hroom).attach drive lba fun x hx hv => ?_, (lru_keyed ..).2,
    .of_keyed drive lba (fun x => ?_) (fun x hx => isValid_setValid.trans (and_iff_right hx)) fun _ _ hx => hx⟩
  · rw [key_setValid]
    exact hnew x (isValid_setValid.mp hv).2
  · rw [key_setValid]
    rfl

/-- The entry for a new sector. -/
theorem Rep.alloc {c : Cache δ} {B : Nat → List Idx} {lru : List Idx} {drive : UInt8} {lba : UInt32}
    (h : Rep c B lru) (hclean : CleanRecycle c)
    (hnew : ∀ x, IsValid c x → key c x ≠ (drive, lba)) :
    ∃ e c' B' lru', cacheAlloc c drive lba = some (some e, c') ∧ Rep c' B' lru' ∧
      Entered c c' e drive lba B B' := by
  by_cases hroom : c.usedCount < maxEntries
  · obtain ⟨c', hrun, hr, _, hent⟩ := h.allocFresh hroom hnew
    exact ⟨_, c', _, _, hrun, hr, hent⟩
  · have hfull : maxEntries ≤ c.usedCount := Nat.le_of_not_lt hroom
    unfold cacheAlloc
    rw [if_neg hroom]
    cases ht : c.lruTail with
    | none =>
      -- the list of a full cache is not empty
      have htail : (lruLinks c).tail = none := ht
      rw [h.order.tail_eq, List.getLast?_eq_none_iff] at htail
      subst htail
      have h0 : (0 : Nat) ∈ ([] : List Idx) := (h.used 0).mpr (Nat.lt_of_lt_of_le (by decide) hfull)
      cases h0
    | some e =>
      obtain ⟨c', B', lru', hrun, hdet, hso, hB⟩ := h.evict ht (hclean hfull e ht)
      have hs := sameChains_lruRemove c e
      have hkey : ∀ x, key c' x = key c x := fun x => (hso.key x).trans (hs.key x)
      have hvalid : ∀ x, IsValid c' x ↔ IsValid c x := fun x => by
        unfold IsValid
        rw [hso.valid, hs.valid]
      refine ⟨e, _, _, _, ?_, hdet.attach drive lba fun x hx hv => ?_,
        .of_keyed drive lba hkey (fun x _ => hvalid x) hB⟩
      · show (BlkCache.evict c e).map _ = _
        rw [hrun]
        rfl
      · rw [hkey]
        exact hnew x ((hvalid x).mp hv)

/-- Recycling any other entry loses the invariant: the entry heads the chain of its
new bucket, and is still linked into the chain of the old one. -/
theorem Rep.recycle_breaks {c : Cache δ} {B : Nat → List Idx} {lru : List Idx} {e b : Nat}
    (h : Rep c B lru) (hfull : maxEntries ≤ c.usedCount) (ht : c.lruTail = some e)
    (hv : ¬IsValid c e) (he : e ∈ B b) (drive : UInt8) (lba : UInt32) :
    ∃ c', cacheAlloc c drive lba = some (some e, c') ∧
      ∀ B' : Nat → List Idx, (∀ q, IsChain c'.hashNext (c'.hashTable q) (B' q)) → ∃ q, ∃ x ∈ B' q, bucketOf c' x ≠ q := by
  have hs := sameChains_lruRemove c e
  have hevict : BlkCache.evict c e = some (lruRemove c e) := by
    unfold BlkCache.evict
    dsimp only
    rw [hs.valid]
    exact if_neg hv
  refine ⟨cacheKey (lruRemove c e) e drive lba, ?_, fun B' hB' => ?_⟩
  · unfold cacheAlloc
    rw [if_neg (Nat.not_lt.mpr hfull), ht]
    show (BlkCache.evict c e).map _ = _
    rw [hevict]
    rfl
  obtain ⟨hnext, htab⟩ := chains_keyed (lruRemove c e) e drive lba
  rw [hs.hashNext, hs.hashTable] at hnext
  rw [hs.hashTable] at htab
  generalize hnb : blkcacheHash drive lba = nb at hnext htab
  -- the way to the entry along its old chain is still there
  obtain ⟨xs, ys, hxy⟩ := List.append_of_mem he
  have hch := h.chain b
  rw [hxy] at hch
  have hout : e ∉ xs := fun hm =>
    (List.nodup_cons.mp (List.nodup_middle.mp hch.nodup)).1 (List.mem_append_left ys hm)
  have hway : Seg (cacheKey (lruRemove c e) e drive lba).hashNext (c.hashTable b) xs (some e) := by
    rw [hnext]
    exact (seg_append_cons.mp hch).1.setNext_of_notMem hout
  by_cases hb : b = nb
  · -- the entry links to a chain that leads back to it
    subst hb
    have hcyc := hB' b
    rw [htab, update_self] at hcyc
    obtain ⟨zs, hzs, hez, _⟩ := IsChain.behead hcyc
    rw [hzs] at hcyc
    have hrest := hcyc.2
    rw [congrFun hnext e, setNext_self] at hrest
    obtain ⟨ws, hws, _⟩ := IsChain.through hrest hway
    exact absurd (by rw [hws]; simp) hez
  · have hold := hB' b
    rw [htab, update_of_ne hb] at hold
    obtain ⟨zs, hzs, _⟩ := IsChain.through hold hway
    refine ⟨b, e, by rw [hzs]; simp, ?_⟩
    rw [bucketOf_key, (key_keyed ..).1, if_pos rfl]
    exact fun hq => hb (hq.symm.trans hnb)

/-! ## The calls -/

/-- The cache keeps its invariant, whatever chains and list come out. -/
def Ok (c : Cache δ) : Prop := ∃ B lru, Rep c B lru

/-- No valid entry holds the sector. -/
def Misses (c : Cache δ) (drive : UInt8) (lba : UInt32) : Prop :=
  cacheLookup c drive lba = some none

theorem Rep.setValid {c : Cache δ} {B : Nat → List Idx} {lru : List Idx} (h : Rep c B lru) (e : Idx) :
    Rep (c.setValid e false) B lru := by
  refine ⟨fun b => ?_, fun b x hx => ?_, fun x hv => ?_, fun x y hvx hvy hk => ?_,
    lruLinks_setValid c e false ▸ h.order, h.used, h.chained, h.count⟩
  · rw [hashNext_setValid]; exact h.chain b
  · rw [bucketOf_congr (key_setValid ..)]; exact h.hashed b x hx
  · rw [bucketOf_congr (key_setValid ..)]; exact h.valid x (isValid_setValid.mp hv).2
  · rw [key_setValid, key_setValid] at hk
    exact h.unique x y (isValid_setValid.mp hvx).2 (isValid_setValid.mp hvy).2 hk

theorem sameChains_setData (c : Cache δ) (e : Idx) (d : Sector) : SameChains c (c.setData e d) :=
  sameChains_modify c e (fun _ => rfl) (fun _ => rfl) (fun _ => rfl) (fun _ => rfl)

/-- Data, drives in memory and the devices are no part of the invariant. -/
theorem Rep.setData {c : Cache δ} {B : Nat → List Idx} {lru : List Idx} (h : Rep c B lru) (e : Idx)
    (d : Sector) : Rep (c.setData e d) B lru := by
  have hlru : lruLinks (c.setData e d) = lruLinks c := lruLinks_modify c e (fun _ => rfl) fun _ => rfl
  exact h.of_sameChains (sameChains_setData c e d) (hlru ▸ h.order) fun _ => Iff.rfl

theorem Rep.setIde {c : Cache δ} {B : Nat → List Idx} {lru : List Idx} (h : Rep c B lru) (d : δ) :
    Rep { c with ide := d } B lru :=
  h.of_sameChains ⟨fun _ => rfl, fun _ => rfl, rfl, rfl, rfl⟩ h.order fun _ => Iff.rfl

theorem cacheLookup_setIde (c : Cache δ) (d : δ) (drive : UInt8) (lba : UInt32) :
    cacheLookup { c with ide := d } drive lba = cacheLookup c drive lba := by
  have hfrom : ∀ fuel cur, cacheLookupFrom { c with ide := d } drive lba fuel cur =
      cacheLookupFrom c drive lba fuel cur := by
    intro fuel
    induction fuel with
    | zero => intro cur; cases cur <;> rfl
    | succ fuel ih =>
      intro cur
      cases cur with
      | none => rfl
      | some e =>
        unfold cacheLookupFrom
        rw [ih]
        rfl
  exact hfrom _ _

theorem blkdevReadSector_cache (ide : Ide δ) (c : Cache δ) (drive : UInt8) (lba : UInt32) :
    ∃ d, (blkdevReadSector ide c drive lba).2 = { c with ide := d } := by
  unfold blkdevReadSector
  split
  · exact ⟨c.ide, rfl⟩
  · exact ⟨_, rfl⟩

theorem blkdevReadSectors_cache (ide : Ide δ) (c : Cache δ) (drive : UInt8) (lba : UInt32)
    (count : UInt8) : ∃ d, (blkdevReadSectors ide c drive lba count).2 = { c with ide := d } := by
  unfold blkdevReadSectors
  split
  · exact ⟨c.ide, rfl⟩
  split
  · exact ⟨_, rfl⟩
  · exact ⟨c.ide, rfl⟩

theorem blkdevWriteSector_cache (ide : Ide δ) (c : Cache δ) (drive : UInt8) (lba : UInt32)
    (buf : Sector) : ∃ d, (blkdevWriteSector ide c drive lba buf).2 = { c with ide := d } := by
  unfold blkdevWriteSector
  split
  · exact ⟨c.ide, rfl⟩
  · exact ⟨_, rfl⟩

/-- A read of one sector ends and keeps the invariant, also when the device fails. -/
theorem Ok.readSector (ide : Ide δ) {c : Cache δ} {drive : UInt8} {lba : UInt32} (h : Ok c)
    (hclean : Misses c drive lba → CleanRecycle c) :
    ∃ r c', blkcacheReadSector ide c drive lba = some (r, c') ∧ Ok c' := by
  obtain ⟨B, lru, hr⟩ := h
  unfold blkcacheReadSector
  rcases hr.lookup drive lba with ⟨e, hl, hv, _⟩ | ⟨hl, hnew⟩
  · rw [hl]
    obtain ⟨lru', ht⟩ := hr.lruTouch (hr.valid_used hv)
    exact ⟨_, _, rfl, B, lru', ht⟩
  · rw [hl]
    obtain ⟨e, c1, B1, lru1, ha, hr1, _⟩ := hr.alloc (hclean hl) hnew
    simp only [Option.bind_eq_bind, Option.bind_some, ha]
    obtain ⟨d, hd⟩ := blkdevReadSector_cache ide c1 drive lba
    have hr2 := hr1.setIde d
    rw [← hd] at hr2
    cases hread : blkdevReadSector ide c1 drive lba with
    | mk r c2 =>
      rw [hread] at hr2
      cases r with
      | error r => exact ⟨_, _, rfl, B1, lru1, hr2.setValid e⟩
      | ok d => exact ⟨_, _, rfl, B1, lru1, hr2.setData e d⟩

theorem Ok.populateSector {c : Cache δ} (h : Ok c) (drive : UInt8) (lba : UInt32) (d : Sector)
    (hclean : Misses c drive lba → CleanRecycle c) :
    ∃ c', populateSector c drive lba d = some c' ∧ Ok c' := by
  obtain ⟨B, lru, hr⟩ := h
  unfold BlkCache.populateSector
  rcases hr.lookup drive lba with ⟨e, hl, hv, _⟩ | ⟨hl, hnew⟩
  · rw [hl]
    obtain ⟨lru', ht⟩ := (hr.setData e d).lruTouch (hr.valid_used hv)
    exact ⟨_, rfl, B, lru', ht⟩
  · rw [hl]
    obtain ⟨e, c1, B1, lru1, ha, hr1, _⟩ := hr.alloc (hclean hl) hnew
    simp only [Option.bind_eq_bind, Option.bind_some, ha]
    exact ⟨_, rfl, B1, lru1, hr1.setData e d⟩

theorem Ok.writeSector (ide : Ide δ) {c : Cache δ} {drive : UInt8} {lba : UInt32} {buf : Sector}
    (h : Ok c) (hclean : (blkdevWriteSector ide c drive lba buf).1 = .ok () →
      Misses c drive lba → CleanRecycle c) :
    ∃ r c', blkcacheWriteSector ide c drive lba buf = some (r, c') ∧ Ok c' := by
  obtain ⟨B, lru, hr⟩ := h
  obtain ⟨d, hd⟩ := blkdevWriteSector_cache ide c drive lba buf
  have hr2 := hr.setIde d
  unfold blkcacheWriteSector
  cases hw : blkdevWriteSector ide c drive lba buf with
  | mk r c1 =>
    rw [hw] at hd hclean
    simp only at hd hclean
    subst hd
    cases r with
    | error r => exact ⟨_, _, rfl, B, lru, hr2⟩
    | ok u =>
      have hok2 : Ok { c with ide := d } := ⟨B, lru, hr2⟩
      obtain ⟨c2, hp, hok⟩ := hok2.populateSector drive lba buf fun hm =>
        hclean rfl ((cacheLookup_setIde c d drive lba).symm.trans hm)
      exact ⟨.ok (), c2, by simp [hp], hok⟩

end Serotonin.BlkCache
