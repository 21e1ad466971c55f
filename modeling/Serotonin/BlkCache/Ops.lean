import Serotonin.BlkCache.Rep

/-! What the parts of the cache do to the chains: a lookup ends and finds the valid
entry of a sector if there is one, an unlinked entry leaves its chain, and an
entry on no chain can be given a new sector. -/

namespace Serotonin.BlkCache
open Function List
open Chain

variable {δ : Type}

/-! ## Lookups -/

theorem cacheLookupFrom_eq (c : Cache δ) (drive : UInt8) (lba : UInt32) {fuel : Nat} :
    ∀ {cur : Option Idx} {xs : List Idx}, IsChain c.hashNext cur xs → xs.length ≤ fuel →
      cacheLookupFrom c drive lba fuel cur =
        some (xs.find? fun e => (c.entries e).valid && (c.entries e).drive == drive &&
          (c.entries e).lba == lba) := by
  induction fuel with
  | zero =>
    intro cur xs h hlen
    cases length_eq_zero_iff.mp (Nat.le_zero.mp hlen)
    cases h
    rfl
  | succ fuel ih =>
    intro cur xs h hlen
    cases xs with
    | nil => cases h; rfl
    | cons x xs =>
      obtain ⟨rfl, h⟩ := h
      unfold cacheLookupFrom
      rw [List.find?_cons]
      split
      · rename_i hx
        rw [hx]
      · rename_i hx
        rw [Bool.not_eq_true] at hx
        rw [hx]
        exact ih h (Nat.le_of_succ_le_succ hlen)

/-- A lookup ends: with the valid entry of the sector, or with none because there
is none. -/
theorem Rep.lookup {c : Cache δ} {B : Nat → List Idx} {lru : List Idx} (h : Rep c B lru)
    (drive : UInt8) (lba : UInt32) :
    (∃ e, cacheLookup c drive lba = some (some e) ∧ IsValid c e ∧ key c e = (drive, lba)) ∨
    (cacheLookup c drive lba = some none ∧
      ∀ e, IsValid c e → key c e ≠ (drive, lba)) := by
  unfold cacheLookup
  rw [cacheLookupFrom_eq c drive lba (h.chain _) (h.chain_length _)]
  cases hf : (B (blkcacheHash drive lba)).find? fun e => (c.entries e).valid &&
      (c.entries e).drive == drive && (c.entries e).lba == lba with
  | some e =>
    have hp := List.find?_some hf
    simp only [Bool.and_eq_true, beq_iff_eq] at hp
    exact .inl ⟨e, rfl, hp.1.1, by rw [key, hp.1.2, hp.2]⟩
  | none =>
    refine .inr ⟨rfl, fun e hv hk => ?_⟩
    have hm := h.valid e hv
    rw [bucketOf_key, hk] at hm
    have := List.find?_eq_none.mp hf e hm
    simp only [key, Prod.mk.injEq] at hk
    rw [hv, hk.1, hk.2] at this
    simp at this

theorem Rep.valid_used {c : Cache δ} {B : Nat → List Idx} {lru : List Idx} {e : Idx}
    (h : Rep c B lru) (hv : IsValid c e) : e < c.usedCount := h.chained _ e (h.valid e hv)

/-! ## Unlinking -/

/-- Everything but the hash chains is the same. -/
structure SameOrder (c c' : Cache δ) : Prop where
  key : ∀ e, key c' e = key c e
  valid : ∀ e, (c'.entries e).valid = (c.entries e).valid
  lru : lruLinks c' = lruLinks c
  usedCount : c'.usedCount = c.usedCount

theorem SameOrder.refl (c : Cache δ) : SameOrder c c := ⟨fun _ => rfl, fun _ => rfl, rfl, rfl⟩

theorem SameOrder.trans {c d e : Cache δ} (h : SameOrder c d) (h' : SameOrder d e) : SameOrder c e :=
  ⟨fun x => (h'.key x).trans (h.key x), fun x => (h'.valid x).trans (h.valid x),
    h'.lru.trans h.lru, h'.usedCount.trans h.usedCount⟩

theorem sameOrder_setHashNext (c : Cache δ) (e : Idx) (n : Option Idx) :
    SameOrder c (c.setHashNext e n) := by
  refine ⟨fun x => ?_, fun x => ?_, lruLinks_modify c e (fun _ => rfl) fun _ => rfl, rfl⟩
  · by_cases h : x = e
    · subst h; simp [key, Cache.setHashNext]
    · simp [key, Cache.setHashNext, modify_entries_ne h]
  · by_cases h : x = e
    · subst h; simp [Cache.setHashNext]
    · simp [Cache.setHashNext, modify_entries_ne h]

theorem sameOrder_setBucket (c : Cache δ) (b : Nat) (e : Option Idx) : SameOrder c (c.setBucket b e) :=
  ⟨fun _ => rfl, fun _ => rfl, rfl, rfl⟩

theorem sameOrder_hashUnlink (c : Cache δ) (b : Nat) (prev : Option Idx) (e : Idx) :
    SameOrder c (hashUnlink c b prev e) := by
  unfold hashUnlink
  dsimp only
  refine SameOrder.trans ?_ (sameOrder_setHashNext _ e none)
  cases prev with
  | none => exact sameOrder_setBucket ..
  | some p => exact sameOrder_setHashNext ..

theorem hashUnlink_hashNext (c : Cache δ) (b : Nat) (prev : Option Idx) (e : Idx) :
    (hashUnlink c b prev e).hashNext = setNext (match prev with
      | some p => setNext c.hashNext p (c.hashNext e)
      | none => c.hashNext) e none := by
  unfold hashUnlink
  dsimp only
  rw [hashNext_setHashNext]
  cases prev with
  | none => rfl
  | some p => rw [hashNext_setHashNext]

theorem hashUnlink_hashTable (c : Cache δ) (b : Nat) (prev : Option Idx) (e : Idx) :
    (hashUnlink c b prev e).hashTable = match prev with
      | some _ => c.hashTable
      | none => update c.hashTable b (c.hashNext e) := by
  cases prev <;> rfl

/-- The walk stops at `e`, behind the entries in front of it. -/
theorem hashRemoveFrom_eq {c : Cache δ} {e b : Nat} {ys : List Idx} {fuel : Nat} :
    ∀ {prev cur : Option Idx} {zs : List Idx}, IsChain c.hashNext cur (zs ++ e :: ys) → e ∉ zs →
      zs.length < fuel →
      hashRemoveFrom c e b fuel prev cur = some (hashUnlink c b (zs.getLast?.or prev) e) := by
  induction fuel with
  | zero => intro prev cur zs _ _ hlen; cases hlen
  | succ fuel ih =>
    intro prev cur zs h he hlen
    cases zs with
    | nil =>
      obtain ⟨rfl, _⟩ := h
      unfold hashRemoveFrom
      rw [if_pos rfl]
      rfl
    | cons z zs =>
      obtain ⟨rfl, h⟩ := h
      have hz : z ≠ e := fun h => he (by simp [h])
      unfold hashRemoveFrom
      rw [if_neg hz, ih h (fun hm => he (by simp [hm])) (Nat.lt_of_succ_lt_succ hlen),
        List.getLast?_cons]
      cases zs.getLast? <;> rfl

/-- The entry on its chain is taken off, and the other chains stay. -/
theorem hashRemove_spec {c : Cache δ} {B : Nat → List Idx} {e : Idx}
    (hchain : ∀ b, IsChain c.hashNext (c.hashTable b) (B b))
    (hhashed : ∀ b, ∀ x ∈ B b, bucketOf c x = b) (hlen : ∀ b, (B b).length ≤ maxEntries)
    (he : e ∈ B (bucketOf c e)) :
    ∃ (c' : Cache δ) (B' : Nat → List Idx), hashRemove c e = some c' ∧ SameOrder c c' ∧
      (∀ b, IsChain c'.hashNext (c'.hashTable b) (B' b)) ∧
      ∀ b x, x ∈ B' b ↔ x ∈ B b ∧ x ≠ e := by
  obtain ⟨xs, ys, hxy⟩ := append_of_mem he
  generalize hb : bucketOf c e = b at *
  have hch := hchain b
  rw [hxy] at hch
  have hnd := hch.nodup
  have hmid := nodup_cons.mp (nodup_middle.mp hnd)
  have hex : e ∉ xs := fun hm => hmid.1 (by simp [hm])
  have hlt : xs.length < maxEntries := by
    have := hlen b
    rw [hxy, length_append, length_cons] at this
    omega
  have hrun : hashRemove c e = some (hashUnlink c b xs.getLast? e) := by
    unfold hashRemove
    rw [hb, hashRemoveFrom_eq hch hex hlt, Option.or_none]
  refine ⟨_, update B b (xs ++ ys), hrun, sameOrder_hashUnlink .., fun q => ?_, fun q x => ?_⟩
  · rw [hashUnlink_hashNext, hashUnlink_hashTable]
    by_cases hq : q = b
    · subst hq
      rw [update_self]
      have hu := hch.unlink
      cases hl : xs.getLast? with
      | none => rw [hl] at hu; dsimp only at hu ⊢; rwa [update_self]
      | some p => rw [hl] at hu; exact hu
    · -- the links changed are those of entries of the bucket `b`
      rw [update_of_ne hq]
      have hout : ∀ x ∈ B b, x ∉ B q := fun x hx hxq =>
        hq ((hhashed q x hxq).symm.trans (hhashed b x hx))
      have heb : e ∈ B b := by rw [hxy]; simp
      cases hl : xs.getLast? with
      | none =>
        dsimp only
        rw [update_of_ne hq]
        exact (hchain q).setNext_of_notMem (hout e heb)
      | some p =>
        have hp : p ∈ B b := by
          rw [hxy]
          exact mem_append_left _ (mem_of_getLast? hl)
        exact ((hchain q).setNext_of_notMem (hout p hp)).setNext_of_notMem (hout e heb)
  · by_cases hq : q = b
    · subst hq
      rw [update_self, hxy]
      have hey : e ∉ ys := fun hm => hmid.1 (by simp [hm])
      simp only [mem_append, mem_cons]
      constructor
      · rintro (hx | hx)
        · exact ⟨.inl hx, fun h => hex (h ▸ hx)⟩
        · exact ⟨.inr (.inr hx), fun h => hey (h ▸ hx)⟩
      · rintro ⟨hx | hx | hx, hne⟩
        · exact .inl hx
        · exact absurd hx hne
        · exact .inr hx
    · rw [update_of_ne hq]
      refine ⟨fun hx => ⟨hx, fun h => hq ?_⟩, fun hx => hx.1⟩
      rw [← hhashed q x hx, h, hb]

/-! ## A new sector for an entry -/

/-- All is in order but for the entry `e`, which is on no chain and not in the
list. -/
structure Detached (c : Cache δ) (e : Idx) (B : Nat → List Idx) (lru : List Idx) : Prop where
  chain : ∀ b, IsChain c.hashNext (c.hashTable b) (B b)
  hashed : ∀ b, ∀ x ∈ B b, bucketOf c x = b
  valid : ∀ x, x ≠ e → IsValid c x → x ∈ B (bucketOf c x)
  unique : ∀ x y, x ≠ e → y ≠ e → IsValid c x → IsValid c y → key c x = key c y → x = y
  order : (lruLinks c).Spells lru
  used : ∀ x, x ∈ lru ∨ x = e ↔ x < c.usedCount
  chained : ∀ b, ∀ x ∈ B b, x < c.usedCount
  count : c.usedCount ≤ maxEntries
  offChain : ∀ b, e ∉ B b
  offList : e ∉ lru

theorem key_keyed (c : Cache δ) (e : Idx) (drive : UInt8) (lba : UInt32) :
    (∀ x, key (cacheKey c e drive lba) x = if x = e then (drive, lba) else key c x) ∧
    ∀ x, ((cacheKey c e drive lba).entries x).valid = if x = e then true else (c.entries x).valid := by
  have hso : SameOrder (c.modify e fun x => { x with drive := drive, lba := lba, valid := true })
      (hashInsert (c.modify e fun x => { x with drive := drive, lba := lba, valid := true }) e) :=
    (sameOrder_setHashNext _ e _).trans (sameOrder_setBucket ..)
  have hsc := sameChains_lruPushFront
    (hashInsert (c.modify e fun x => { x with drive := drive, lba := lba, valid := true }) e) e
  refine ⟨fun x => ?_, fun x => ?_⟩
  · refine ((hsc.key x).trans (hso.key x)).trans ?_
    by_cases hx : x = e
    · subst hx; simp [key]
    · simp [key, modify_entries_ne hx, hx]
  · refine ((hsc.valid x).trans (hso.valid x)).trans ?_
    by_cases hx : x = e
    · subst hx; simp
    · simp [modify_entries_ne hx, hx]

/-- The entry heads the chain of its new bucket. -/
theorem chains_keyed (c : Cache δ) (e : Idx) (drive : UInt8) (lba : UInt32) :
    (cacheKey c e drive lba).hashNext = setNext c.hashNext e (c.hashTable (blkcacheHash drive lba)) ∧
    (cacheKey c e drive lba).hashTable =
      update c.hashTable (blkcacheHash drive lba) (some e) := by
  let c1 := c.modify e fun x => { x with drive := drive, lba := lba, valid := true }
  have hnext1 : c1.hashNext = c.hashNext := field_modify_same c e (·.hashNext) fun _ => rfl
  have hbe : bucketOf c1 e = blkcacheHash drive lba := by
    rw [bucketOf_key]
    simp [c1, key]
  have hsc := sameChains_lruPushFront (hashInsert c1 e) e
  refine ⟨hsc.hashNext.trans ?_, hsc.hashTable.trans ?_⟩
  · show (c1.setHashNext e (c1.hashTable (bucketOf c1 e))).hashNext = _
    rw [hashNext_setHashNext, hnext1, hbe]
    rfl
  · show update c.hashTable (bucketOf c1 e) (some e) = _
    rw [hbe]

theorem lru_keyed (c : Cache δ) (e : Idx) (drive : UInt8) (lba : UInt32) :
    lruLinks (cacheKey c e drive lba) = (lruLinks c).pushFront e ∧
    (cacheKey c e drive lba).usedCount = c.usedCount := by
  let c1 := c.modify e fun x => { x with drive := drive, lba := lba, valid := true }
  have hso : SameOrder c1 (hashInsert c1 e) :=
    (sameOrder_setHashNext c1 e _).trans (sameOrder_setBucket ..)
  have hlru1 : lruLinks c1 = lruLinks c := lruLinks_modify c e (fun _ => rfl) fun _ => rfl
  refine ⟨?_, (sameChains_lruPushFront (hashInsert c1 e) e).usedCount.trans hso.usedCount⟩
  show lruLinks (lruPushFront (hashInsert c1 e) e) = _
  rw [lruLinks_lruPushFront, hso.lru, hlru1]

theorem Detached.attach {c : Cache δ} {e : Idx} {B : Nat → List Idx} {lru : List Idx}
    (h : Detached c e B lru) (drive : UInt8) (lba : UInt32)
    (hnew : ∀ x, x ≠ e → IsValid c x → key c x ≠ (drive, lba)) :
    Rep (cacheKey c e drive lba)
      (update B (blkcacheHash drive lba) (e :: B (blkcacheHash drive lba))) (e :: lru) := by
  generalize hbdef : blkcacheHash drive lba = b
  obtain ⟨hkeyed, hvalid⟩ := key_keyed c e drive lba
  obtain ⟨hnext, htab⟩ := chains_keyed c e drive lba
  obtain ⟨hlru, hu⟩ := lru_keyed c e drive lba
  rw [hbdef] at hnext htab
  have hke : key (cacheKey c e drive lba) e = (drive, lba) := by rw [hkeyed, if_pos rfl]
  have hkx : ∀ x, x ≠ e → key (cacheKey c e drive lba) x = key c x := fun x hx => by
    rw [hkeyed, if_neg hx]
  have hvx : ∀ x, x ≠ e → IsValid (cacheKey c e drive lba) x → IsValid c x := fun x hx hv => by
    have := hvalid x
    rw [if_neg hx] at this
    exact this.symm.trans hv
  have hchain : ∀ q, IsChain (cacheKey c e drive lba).hashNext ((cacheKey c e drive lba).hashTable q)
      (update B b (e :: B b) q) := by
    intro q
    rw [hnext, htab]
    have hkeep := (h.chain q).setNext_of_notMem (r := c.hashTable b) (h.offChain q)
    by_cases hq : q = b
    · subst hq
      rw [update_self, update_self]
      refine ⟨rfl, ?_⟩
      rw [setNext_self]
      exact hkeep
    · rw [update_of_ne hq, update_of_ne hq]
      exact hkeep
  have hpush : (lruLinks (cacheKey c e drive lba)).Spells (e :: lru) := by
    rw [hlru]
    exact h.order.pushFront h.offList
  have hbx : ∀ x, x ≠ e → bucketOf (cacheKey c e drive lba) x = bucketOf c x := fun x hx =>
    bucketOf_congr (hkx x hx)
  have hbe2 : bucketOf (cacheKey c e drive lba) e = b := by rw [bucketOf_key, hke, hbdef]
  have hmem : ∀ q x, x ≠ e → (x ∈ update B b (e :: B b) q ↔ x ∈ B q) := by
    intro q x hx
    by_cases hq : q = b
    · subst hq; simp [hx]
    · rw [update_of_ne hq]
  have heu : e < c.usedCount := (h.used e).mp (.inr rfl)
  refine ⟨hchain, fun q x hx => ?_, fun x hx => ?_, fun x y hx hy hxy => ?_, hpush, fun x => ?_,
    fun q x hx => ?_, hu ▸ h.count⟩
  · by_cases hxe : x = e
    · subst hxe
      rw [hbe2]
      by_cases hq : q = b
      · exact hq.symm
      · rw [update_of_ne hq] at hx; exact absurd hx (h.offChain q)
    · rw [hbx x hxe]
      exact h.hashed q x ((hmem q x hxe).mp hx)
  · by_cases hxe : x = e
    · subst hxe; rw [hbe2, update_self]; simp
    · rw [hbx x hxe, hmem _ x hxe]
      exact h.valid x hxe (hvx x hxe hx)
  · -- a second valid entry of the new sector would be an old one
    by_cases hxe : x = e <;> by_cases hye : y = e
    · rw [hxe, hye]
    · rw [hxe, hke, hkx y hye] at hxy
      exact absurd hxy.symm (hnew y hye (hvx y hye hy))
    · rw [hye, hke, hkx x hxe] at hxy
      exact absurd hxy (hnew x hxe (hvx x hxe hx))
    · rw [hkx x hxe, hkx y hye] at hxy
      exact h.unique x y hxe hye (hvx x hxe hx) (hvx y hye hy) hxy
  · rw [hu, ← h.used x, mem_cons, or_comm]
  · rw [hu]
    by_cases hxe : x = e
    · rw [hxe]; exact heu
    · exact h.chained q x ((hmem q x hxe).mp hx)

end Serotonin.BlkCache
