import Serotonin.BlkCache.Runs

/-! The drives seen through the cache. As long as the device reads succeed, every
entry on a chain is valid and every valid entry holds what its drive holds, so a
caller cannot tell the cache from the drives themselves. -/

namespace Serotonin.BlkCache
open Function Option
open Chain

variable {δ : Type}

/-! ## The drives -/

/-- What the drives hold, by drive and sector. -/
abbrev Contents := UInt8 → UInt32 → Sector

/-- A driver whose drives `disk` describes. `has` are the sectors the drives have:
their reads succeed, and a write to one of them that succeeds changes it alone. A
write that fails changes nothing. -/
structure Faithful (ide : Ide δ) (has : UInt8 → UInt32 → Prop) (disk : δ → Contents) : Prop where
  read : ∀ drive lba d, has drive lba → (ide.readSector drive lba d).1 = .ok (disk d drive lba)
  readKeeps : ∀ drive lba d, disk (ide.readSector drive lba d).2 = disk d
  reads : ∀ drive lba count d, count ≠ 0 → (∀ i < count.toNat, has drive (lba + UInt32.ofNat i)) →
    ∃ buf, (ide.readSectors drive lba count d).1 = .ok buf ∧
      ∀ i < count.toNat, buf i = disk d drive (lba + UInt32.ofNat i)
  readsKeep : ∀ drive lba count d, disk (ide.readSectors drive lba count d).2 = disk d
  write : ∀ drive lba buf d, has drive lba → (ide.writeSector drive lba buf d).1 = .ok () →
    disk (ide.writeSector drive lba buf d).2 =
      update (disk d) drive (update (disk d drive) lba buf)
  writeFails : ∀ drive lba buf d r, (ide.writeSector drive lba buf d).1 = .error r →
    disk (ide.writeSector drive lba buf d).2 = disk d
  flushKeeps : ∀ drive d, disk (ide.cacheFlush drive d) = disk d

/-- The current contents of all drives, those in memory included. -/
def contents (disk : δ → Contents) (c : Cache δ) : Contents := fun drive lba =>
  if blkcacheDriveIsMem drive then
    fun i => (c.memdrives (drive - memdriveBase).toNat).base (lba.toNat * 512 + i)
  else disk c.ide drive lba

/-- A sector whose read from its drive succeeds. -/
def Readable (has : UInt8 → UInt32 → Prop) (c : Cache δ) (drive : UInt8) (lba : UInt32) : Prop :=
  if blkcacheDriveIsMem drive then ∃ d, memdriveReadSector c drive lba = .ok d else has drive lba

inductive Call where
  | readSector (drive : UInt8) (lba : UInt32)
  | readSectors (drive : UInt8) (lba : UInt32) (count : UInt8)
  | writeSector (drive : UInt8) (lba : UInt32) (buf : Sector)
  | invalidate (drive : UInt8)
  | flush (drive : UInt8)
  | registerMemdrive (slot : UInt8) (base : Option (Nat → UInt8)) (sizeBytes : Nat)

inductive Answer where
  | sector (r : Except Int Sector)
  | sectors (r : Except Int (Nat → Sector))
  | done (r : Except Int Unit)

/-- The drives without a cache: a read gives what the sectors hold, a write changes
its sector or fails, and nothing else changes anything. -/
def Serves (d : Contents) : Call → Answer → Contents → Prop
  | .readSector drive lba, .sector r, d' => r = .ok (d drive lba) ∧ d' = d
  | .readSectors drive lba count, .sectors r, d' =>
    (∃ buf, r = .ok buf ∧ ∀ i < count.toNat, buf i = d drive (lba + UInt32.ofNat i)) ∧ d' = d
  | .writeSector drive lba buf, .done r, d' =>
    (r = .ok () ∧ d' = update d drive (update (d drive) lba buf)) ∨
    (∃ e, r = .error e) ∧ d' = d
  | .invalidate _, .done r, d' => r = .ok () ∧ d' = d
  | .flush _, .done r, d' => r = .ok () ∧ d' = d
  | .registerMemdrive slot base sizeBytes, .done r, d' =>
    match base with
    | none => r = .error (-1) ∧ d' = d
    | some base =>
      if 16 ≤ slot ∨ sizeBytes < 512 then r = .error (-1) ∧ d' = d
      else r = .ok () ∧
        d' = update d (memdriveBase + slot) fun lba i => base (lba.toNat * 512 + i)
  | _, _, _ => False

/-- A call of the cache. -/
def perform (ide : Ide δ) (c : Cache δ) : Call → Option (Answer × Cache δ)
  | .readSector drive lba => (blkcacheReadSector ide c drive lba).map fun r => (.sector r.1, r.2)
  | .readSectors drive lba count =>
    (blkcacheReadSectors ide c drive lba count).map fun r => (.sectors r.1, r.2)
  | .writeSector drive lba buf => (blkcacheWriteSector ide c drive lba buf).map fun r => (.done r.1, r.2)
  | .invalidate drive => (blkcacheInvalidate c drive).map fun c => (.done (.ok ()), c)
  | .flush drive => some (.done (.ok ()), blkcacheFlush ide c drive)
  | .registerMemdrive slot base sizeBytes =>
    (blkcacheRegisterMemdrive c slot base sizeBytes).map fun r => (.done r.1, r.2)

/-- The reads of the call succeed on the drives, and a write that succeeds is to a
sector its drive has. -/
def Served (ide : Ide δ) (has : UInt8 → UInt32 → Prop) (c : Cache δ) : Call → Prop
  | .readSector drive lba => Readable has c drive lba
  | .readSectors drive lba count => ∀ i < count.toNat, Readable has c drive (lba + UInt32.ofNat i)
  | .writeSector drive lba buf => (blkdevWriteSector ide c drive lba buf).1 = .ok () → has drive lba
  | _ => True

/-- After `blkcache_init`. -/
def CacheInit (c : Cache δ) : Prop := ∃ c0, c = blkcacheInit c0

def ServedStep (ide : Ide δ) (has : UInt8 → UInt32 → Prop) (c c' : Cache δ) : Prop :=
  ∃ call a, Served ide has c call ∧ perform ide c call = some (a, c')

/-- The same call made to the drives, past the cache. -/
def direct (ide : Ide δ) (c : Cache δ) : Call → Answer × Cache δ
  | .readSector drive lba => ((blkdevReadSector ide c drive lba).map .sector id)
  | .readSectors drive lba count => (blkdevReadSectors ide c drive lba count).map .sectors id
  | .writeSector drive lba buf => (blkdevWriteSector ide c drive lba buf).map .done id
  | .invalidate _ => (.done (.ok ()), c)
  | .flush drive => (.done (.ok ()), blkdevFlush ide c drive)
  | .registerMemdrive slot base sizeBytes =>
    match base with
    | none => (.done (.error (-1)), c)
    | some base =>
      if 16 ≤ slot ∨ sizeBytes < 512 then (.done (.error (-1)), c)
      else (.done (.ok ()),
        { c with memdrives := update c.memdrives slot.toNat ⟨base, sizeBytes, true⟩ })

/-! ## What the parts of the cache leave alone -/

/-- The data of the entries, the drives in memory and the device are the same. -/
structure SameStore (c c' : Cache δ) : Prop where
  data : ∀ e, (c'.entries e).data = (c.entries e).data
  memdrives : c'.memdrives = c.memdrives
  ide : c'.ide = c.ide

theorem SameStore.refl (c : Cache δ) : SameStore c c := ⟨fun _ => rfl, rfl, rfl⟩

theorem SameStore.trans {c d e : Cache δ} (h : SameStore c d) (h' : SameStore d e) : SameStore c e :=
  ⟨fun x => (h'.data x).trans (h.data x), h'.memdrives.trans h.memdrives, h'.ide.trans h.ide⟩

theorem contents_congr {disk : δ → Contents} {c c' : Cache δ} (hm : c'.memdrives = c.memdrives)
    (hd : disk c'.ide = disk c.ide) : contents disk c' = contents disk c := by
  unfold contents
  rw [hm, hd]

theorem contents_setIde (disk : δ → Contents) (c : Cache δ) {d : δ} (hd : disk d = disk c.ide) :
    contents disk { c with ide := d } = contents disk c := by
  unfold contents
  dsimp only
  rw [hd]

theorem SameStore.contents {c c' : Cache δ} (h : SameStore c c') (disk : δ → Contents) :
    contents disk c' = contents disk c := contents_congr h.memdrives (by rw [h.ide])

theorem sameStore_modify (c : Cache δ) (e : Idx) {f : Entry → Entry} (h : ∀ x, (f x).data = x.data) :
    SameStore c (c.modify e f) :=
  ⟨fun x => congrFun (field_modify_same c e (·.data) h) x, rfl, rfl⟩

theorem sameStore_setHashNext (c : Cache δ) (e : Idx) (n : Option Idx) : SameStore c (c.setHashNext e n) :=
  sameStore_modify c e fun _ => rfl

theorem sameStore_setLru (c : Cache δ) (e : Idx) (p n : Option Idx) : SameStore c (c.setLru e p n) :=
  sameStore_modify c e fun _ => rfl

theorem sameStore_setValid (c : Cache δ) (e : Idx) (v : Bool) : SameStore c (c.setValid e v) :=
  sameStore_modify c e fun _ => rfl

theorem sameStore_setLruNext (c : Cache δ) (e : Idx) (n : Option Idx) : SameStore c (c.setLruNext e n) :=
  sameStore_modify c e fun _ => rfl

theorem sameStore_setLruPrev (c : Cache δ) (e : Idx) (n : Option Idx) : SameStore c (c.setLruPrev e n) :=
  sameStore_modify c e fun _ => rfl

theorem sameStore_setLruHead (c : Cache δ) (e : Option Idx) : SameStore c (c.setLruHead e) :=
  ⟨fun _ => rfl, rfl, rfl⟩

theorem sameStore_setLruTail (c : Cache δ) (e : Option Idx) : SameStore c (c.setLruTail e) :=
  ⟨fun _ => rfl, rfl, rfl⟩

theorem sameStore_lruRemove (c : Cache δ) (e : Idx) : SameStore c (lruRemove c e) := by
  unfold lruRemove
  dsimp only
  refine SameStore.trans ?_ (sameStore_setLru ..)
  cases c.lruPrev e <;> cases c.lruNext e
  · exact (sameStore_setLruHead ..).trans (sameStore_setLruTail ..)
  · exact (sameStore_setLruHead ..).trans (sameStore_setLruPrev ..)
  · exact (sameStore_setLruNext ..).trans (sameStore_setLruTail ..)
  · exact (sameStore_setLruNext ..).trans (sameStore_setLruPrev ..)

theorem sameStore_lruPushFront (c : Cache δ) (e : Idx) : SameStore c (lruPushFront c e) := by
  unfold lruPushFront
  dsimp only
  refine SameStore.trans ?_ (sameStore_setLruHead _ (some e))
  cases c.lruHead
  · exact (sameStore_setLru ..).trans (sameStore_setLruTail ..)
  · exact (sameStore_setLru ..).trans (sameStore_setLruPrev ..)

theorem sameStore_lruTouch (c : Cache δ) (e : Idx) : SameStore c (lruTouch c e) :=
  (sameStore_lruRemove c e).trans (sameStore_lruPushFront _ e)

theorem sameStore_hashUnlink (c : Cache δ) (b : Nat) (prev : Option Idx) (e : Idx) :
    SameStore c (hashUnlink c b prev e) := by
  unfold hashUnlink
  dsimp only
  refine SameStore.trans ?_ (sameStore_setHashNext ..)
  cases prev with
  | none => exact ⟨fun _ => rfl, rfl, rfl⟩
  | some p => exact sameStore_setHashNext ..

theorem sameStore_hashRemoveFrom {c c' : Cache δ} {e : Idx} {b : Nat} {fuel : Nat} :
    ∀ {prev cur : Option Idx}, hashRemoveFrom c e b fuel prev cur = some c' → SameStore c c' := by
  induction fuel with
  | zero =>
    intro prev cur h
    cases cur with
    | none => cases h; exact .refl c
    | some x => cases h
  | succ fuel ih =>
    intro prev cur h
    cases cur with
    | none => cases h; exact .refl c
    | some x =>
      unfold hashRemoveFrom at h
      split at h
      · cases h; exact sameStore_hashUnlink ..
      · exact ih h

theorem sameStore_evict {c c' : Cache δ} {e : Idx} (h : evict c e = some c') : SameStore c c' := by
  unfold evict at h
  dsimp only at h
  split at h
  · exact (sameStore_lruRemove c e).trans (sameStore_hashRemoveFrom h)
  · cases h; exact sameStore_lruRemove c e

theorem sameStore_hashInsert (c : Cache δ) (e : Idx) : SameStore c (hashInsert c e) :=
  (sameStore_setHashNext c e _).trans ⟨fun _ => rfl, rfl, rfl⟩

theorem sameStore_cacheKey (c : Cache δ) (e : Idx) (drive : UInt8) (lba : UInt32) :
    SameStore c (cacheKey c e drive lba) := by
  have hkey : SameStore c (c.modify e fun x => { x with drive := drive, lba := lba, valid := true }) :=
    sameStore_modify c e fun _ => rfl
  exact hkey.trans ((sameStore_hashInsert _ e).trans (sameStore_lruPushFront _ e))

theorem sameStore_cacheAlloc {c c' : Cache δ} {drive : UInt8} {lba : UInt32} {r : Option Idx}
    (h : cacheAlloc c drive lba = some (r, c')) : SameStore c c' := by
  unfold cacheAlloc at h
  split at h
  · cases h
    refine SameStore.trans ?_ (sameStore_cacheKey ..)
    have hbump : SameStore c { c with usedCount := c.usedCount + 1 } := ⟨fun _ => rfl, rfl, rfl⟩
    exact hbump.trans (sameStore_setValid ..)
  · cases ht : c.lruTail with
    | none => rw [ht] at h; cases h; exact .refl c
    | some e =>
      rw [ht] at h
      obtain ⟨c1, h1, h2⟩ := map_eq_some_iff.mp h
      cases h2
      exact (sameStore_evict h1).trans (sameStore_cacheKey ..)

/-! ## What the cache holds -/

/-- Every entry on a chain is valid, and the valid entries of the sectors `P` hold
what their drives hold. -/
structure Tracks (disk : δ → Contents) (P : UInt8 × UInt32 → Prop) (c : Cache δ) : Prop where
  chains : ∃ B lru, Rep c B lru ∧ ∀ b, ∀ e ∈ B b, IsValid c e
  data : ∀ e, IsValid c e → P (key c e) →
    (c.entries e).data = contents disk c (key c e).1 (key c e).2

variable {disk : δ → Contents} {P Q : UInt8 × UInt32 → Prop} {c c' : Cache δ}

/-- An entry that is recycled is valid or on no chain. -/
theorem Tracks.cleanRecycle (h : Tracks disk P c) : CleanRecycle c := by
  intro _ e _
  obtain ⟨B, lru, hr, hchain⟩ := h.chains
  refine (Classical.em (IsValid c e)).imp_right fun hv hon => hv ?_
  obtain ⟨b, xs, hxs, he⟩ := hon
  rw [hxs.unique (hr.chain b)] at he
  exact hchain b e he

/-- A hit changes the order of use and nothing else. -/
theorem Tracks.touch {e : Idx} (h : Tracks disk P c) (he : IsValid c e) : Tracks disk P (lruTouch c e) := by
  have hs : SameChains c (lruTouch c e) := (sameChains_lruRemove c e).trans (sameChains_lruPushFront _ e)
  have hst := sameStore_lruTouch c e
  have hv : ∀ x, IsValid (lruTouch c e) x ↔ IsValid c x := fun x => by
    unfold IsValid
    rw [hs.valid]
  obtain ⟨B, lru, hr, hchain⟩ := h.chains
  obtain ⟨lru', hr'⟩ := hr.lruTouch (hr.valid_used he)
  refine ⟨⟨B, lru', hr', fun b x hx => (hv x).mpr (hchain b x hx)⟩, fun x hx hP => ?_⟩
  rw [hs.key] at hP ⊢
  rw [hst.data, hst.contents]
  exact h.data x ((hv x).mp hx) hP

/-- The entry of a sector filled with what the drive holds there. -/
theorem tracks_setData (disk : δ → Contents) {B : Nat → List Idx} {lru : List Idx} {e : Idx} (hr : Rep c B lru)
    (hchain : ∀ b, ∀ x ∈ B b, IsValid c x)
    (hdata : ∀ x, x ≠ e → IsValid c x → Q (key c x) →
      (c.entries x).data = contents disk c (key c x).1 (key c x).2) :
    Tracks disk Q (c.setData e (contents disk c (key c e).1 (key c e).2)) := by
  generalize hd : contents disk c (key c e).1 (key c e).2 = d
  have hs := sameChains_setData c e d
  have hv : ∀ x, IsValid (c.setData e d) x ↔ IsValid c x := fun x => by
    unfold IsValid
    rw [hs.valid]
  have hcont : contents disk (c.setData e d) = contents disk c := contents_congr rfl rfl
  refine ⟨⟨B, lru, hr.setData e d, fun b x hx => (hv x).mpr (hchain b x hx)⟩, fun x hx hQ => ?_⟩
  rw [hs.key] at hQ ⊢
  rw [hcont]
  by_cases hxe : x = e
  · subst hxe
    rw [hd]
    simp [Cache.setData]
  · have hkeep : ((c.setData e d).entries x).data = (c.entries x).data := by
      unfold Cache.setData
      rw [modify_entries_ne hxe]
    rw [hkeep]
    exact hdata x hxe ((hv x).mp hx) hQ

/-- A new entry for a sector that is not in the cache: it has no data yet, the
others keep theirs. -/
theorem Tracks.alloc {drive : UInt8} {lba : UInt32} (h : Tracks disk P c)
    (hQ : ∀ k, Q k → k ≠ (drive, lba) → P k) (hnew : ∀ e, IsValid c e → key c e ≠ (drive, lba)) :
    ∃ e c' B lru, cacheAlloc c drive lba = some (some e, c') ∧ Rep c' B lru ∧
      (∀ b, ∀ x ∈ B b, IsValid c' x) ∧ key c' e = (drive, lba) ∧ SameStore c c' ∧
      ∀ x, x ≠ e → IsValid c' x → Q (key c' x) →
        (c'.entries x).data = contents disk c (key c' x).1 (key c' x).2 := by
  obtain ⟨B, lru, hr, hchain⟩ := h.chains
  obtain ⟨e, c1, B1, lru1, ha, hr1, hent⟩ := hr.alloc h.cleanRecycle hnew
  have hst := sameStore_cacheAlloc ha
  refine ⟨e, c1, B1, lru1, ha, hr1, fun b x hx => ?_, hent.key, hst, fun x hx hvx hq => ?_⟩
  · by_cases hxe : x = e
    · rw [hxe]; exact hent.valid
    · exact (hent.valids x hxe).mpr (hchain b x ((hent.chained b x hx).resolve_left hxe))
  · rw [hent.keys x hx] at hq ⊢
    have hvx := (hent.valids x hx).mp hvx
    rw [hst.data]
    exact h.data x hvx (hQ _ hq (hnew x hvx))

/-- What the loop that enters sectors, and a write, do: afterwards the sector is
in the cache as its drive holds it, whatever was there before. -/
theorem Tracks.populateSector (h : Tracks disk P c) (drive : UInt8) (lba : UInt32)
    (hQ : ∀ k, Q k → k ≠ (drive, lba) → P k) :
    ∃ c', populateSector c drive lba (contents disk c drive lba) = some c' ∧ Tracks disk Q c' ∧
      contents disk c' = contents disk c := by
  obtain ⟨B, lru, hr, hchain⟩ := h.chains
  unfold BlkCache.populateSector
  rcases hr.lookup drive lba with ⟨e, hl, hv, hk⟩ | ⟨hl, hnew⟩
  · have hset := tracks_setData disk (Q := Q) (e := e) hr hchain fun x hx hvx hq =>
      h.data x hvx (hQ _ hq fun hkx => hx (hr.unique x e hvx hv (hkx.trans hk.symm)))
    have hve := (sameChains_setData c e (contents disk c (key c e).1 (key c e).2)).valid e
    rw [hk] at hset hve
    rw [hl]
    refine ⟨_, rfl, hset.touch (hve.trans hv), ?_⟩
    exact ((sameStore_lruTouch ..).contents disk).trans (contents_congr rfl rfl)
  · obtain ⟨e, c1, B1, lru1, ha, hr1, hchain1, hk, hst, hdata⟩ := h.alloc hQ hnew
    have hcont := hst.contents disk
    rw [← hcont] at hdata
    have hset := tracks_setData disk hr1 hchain1 hdata
    rw [hk, hcont] at hset
    rw [hl]
    simp only [bind_eq_bind, bind_some, ha]
    exact ⟨_, rfl, hset, (contents_congr rfl rfl).trans hcont⟩

/-! ## Reads -/

/-- The invariant between calls. -/
abbrev Coherent (disk : δ → Contents) (c : Cache δ) : Prop := Tracks disk (fun _ => True) c

theorem Readable.of_memdrives {has : UInt8 → UInt32 → Prop} {drive : UInt8} {lba : UInt32}
    (h : Readable has c drive lba) (hm : c'.memdrives = c.memdrives) : Readable has c' drive lba := by
  unfold Readable memdriveReadSector at *
  rw [hm]
  exact h

theorem memdriveReadSector_ok (disk : δ → Contents) {has : UInt8 → UInt32 → Prop} {drive : UInt8} {lba : UInt32}
    (hm : blkcacheDriveIsMem drive = true) (hread : Readable has c drive lba) :
    memdriveReadSector c drive lba = .ok (contents disk c drive lba) := by
  unfold Readable at hread
  unfold contents
  rw [if_pos hm] at hread ⊢
  obtain ⟨x, hx⟩ := hread
  unfold memdriveReadSector at hx ⊢
  dsimp only at hx ⊢
  split at hx
  · cases hx
  split at hx
  · cases hx
  · rename_i h1 h2
    rw [if_neg h1, if_neg h2]

theorem blkdevReadSector_ok {ide : Ide δ} {has : UInt8 → UInt32 → Prop} (hf : Faithful ide has disk)
    {drive : UInt8} {lba : UInt32} (hread : Readable has c drive lba) :
    ∃ d, blkdevReadSector ide c drive lba = (.ok (contents disk c drive lba), { c with ide := d }) ∧
      disk d = disk c.ide := by
  unfold blkdevReadSector
  by_cases hm : blkcacheDriveIsMem drive = true
  · rw [if_pos hm, memdriveReadSector_ok disk hm hread]
    exact ⟨c.ide, rfl, rfl⟩
  · unfold Readable at hread
    unfold contents
    rw [if_neg hm] at hread ⊢
    rw [if_neg hm, ← hf.read drive lba c.ide hread]
    exact ⟨_, rfl, hf.readKeeps ..⟩

/-- A sector that is in the cache is read without its drive. -/
theorem Tracks.readHit (ide : Ide δ) (h : Coherent disk c) {drive : UInt8} {lba : UInt32}
    (hc : Cached c drive lba) :
    ∃ c', blkcacheReadSector ide c drive lba = some (.ok (contents disk c drive lba), c') ∧
      Coherent disk c' ∧ contents disk c' = contents disk c ∧ SameChains c c' := by
  obtain ⟨B, lru, hr, hchain⟩ := h.chains
  obtain ⟨f, hvf, hkf⟩ := hc
  unfold blkcacheReadSector
  rcases hr.lookup drive lba with ⟨e, hl, hv, hk⟩ | ⟨_, hnew⟩
  · rw [hl]
    have hd := h.data e hv trivial
    rw [hk] at hd
    refine ⟨_, by rw [← hd]; rfl, h.touch hv, (sameStore_lruTouch c e).contents disk, ?_⟩
    exact (sameChains_lruRemove c e).trans (sameChains_lruPushFront _ e)
  · exact absurd hkf (hnew f hvf)

/-- A read of a sector that its drive can read gives what the drive holds. -/
theorem Tracks.readSector {ide : Ide δ} {has : UInt8 → UInt32 → Prop} (hf : Faithful ide has disk)
    (h : Coherent disk c) {drive : UInt8} {lba : UInt32} (hread : Readable has c drive lba) :
    ∃ c', blkcacheReadSector ide c drive lba = some (.ok (contents disk c drive lba), c') ∧
      Coherent disk c' ∧ contents disk c' = contents disk c := by
  obtain ⟨B, lru, hr, hchain⟩ := h.chains
  rcases hr.lookup drive lba with ⟨e, hl, hv, hk⟩ | ⟨hl, hnew⟩
  · obtain ⟨c', hrun, hcoh, hcont, _⟩ := h.readHit ide ⟨e, hv, hk⟩
    exact ⟨c', hrun, hcoh, hcont⟩
  · obtain ⟨e, c1, B1, lru1, ha, hr1, hchain1, hk, hst, hdata⟩ := h.alloc (Q := fun _ => True)
      (fun _ _ _ => trivial) hnew
    have hcont := hst.contents disk
    obtain ⟨d, hdev, hd⟩ := blkdevReadSector_ok hf (hread.of_memdrives hst.memdrives)
    have hcont2 : contents disk { c1 with ide := d } = contents disk c := (contents_setIde disk c1 hd).trans hcont
    rw [← hcont2] at hdata
    have hset := tracks_setData disk (c := { c1 with ide := d }) (Q := fun _ => True) (e := e)
      (hr1.setIde d) hchain1 hdata
    have hke : key { c1 with ide := d } e = (drive, lba) := hk
    rw [hke, hcont2] at hset
    unfold blkcacheReadSector
    rw [hl]
    simp only [bind_eq_bind, bind_some, ha, hdev, hcont]
    exact ⟨_, rfl, hset, hcont2⟩

/-! ## Requests for several sectors -/

/-- The loop that serves a request from the cache: sectors `i` to `i + n - 1` come
out as the drive holds them, and the sectors read before stay. -/
theorem Tracks.readCached (ide : Ide δ) (drive : UInt8) (lba : UInt32) : ∀ (n : Nat) {c : Cache δ}
    (buf : Nat → Sector) (i : Nat), Coherent disk c →
    (∀ j, i ≤ j → j < i + n → Cached c drive (lba + UInt32.ofNat j)) →
    ∃ r c', readCached ide drive lba buf i n c = some (r, c') ∧ Coherent disk c' ∧
      contents disk c' = contents disk c ∧ (∀ j < i, r j = buf j) ∧
      ∀ j, i ≤ j → j < i + n → r j = contents disk c drive (lba + UInt32.ofNat j)
  | 0, c, buf, i, h, _ => ⟨buf, c, rfl, h, rfl, fun _ _ => rfl, fun j h1 h2 => absurd h1 (Nat.not_le_of_lt h2)⟩
  | n + 1, c, buf, i, h, hc => by
    obtain ⟨c1, hrun, hcoh, hcont, hs⟩ := h.readHit ide (hc i (Nat.le_refl _) (by omega))
    obtain ⟨r, c2, hrest, hcoh2, hcont2, hold, hnew⟩ := Tracks.readCached ide drive lba n
      (update buf i (contents disk c drive (lba + UInt32.ofNat i))) (i + 1) hcoh
      fun j h1 h2 => (hc j (by omega) (by omega)).of_sameChains hs
    refine ⟨r, c2, by unfold BlkCache.readCached; rw [hrun]; exact hrest, hcoh2, hcont2.trans hcont,
      fun j hj => ?_, fun j h1 h2 => ?_⟩
    · rw [hold j (Nat.lt_succ_of_lt hj), update_of_ne (Nat.ne_of_lt hj)]
    · rcases Nat.eq_or_lt_of_le h1 with rfl | h1
      · rw [hold i (Nat.lt_succ_self i), update_self]
      · rw [hnew j h1 (by omega), hcont]

/-- The loop that enters what was read from the drive. An entry that it recycles
may be one of the request itself. -/
theorem Tracks.populate (drive : UInt8) (lba : UInt32) (buf : Nat → Sector) : ∀ (n i : Nat) {c : Cache δ},
    Coherent disk c →
    (∀ j, i ≤ j → j < i + n → buf j = contents disk c drive (lba + UInt32.ofNat j)) →
    ∃ c', populate drive lba buf i n c = some c' ∧ Coherent disk c' ∧ contents disk c' = contents disk c
  | 0, i, c, h, _ => ⟨c, rfl, h, rfl⟩
  | n + 1, i, c, h, hbuf => by
    obtain ⟨c1, hrun, hcoh, hcont⟩ := h.populateSector (Q := fun _ => True) drive
      (lba + UInt32.ofNat i) fun _ _ _ => trivial
    obtain ⟨c2, hrest, hcoh2, hcont2⟩ := Tracks.populate drive lba buf n (i + 1) hcoh
      fun j h1 h2 => by rw [hcont]; exact hbuf j (by omega) (by omega)
    refine ⟨c2, ?_, hcoh2, hcont2.trans hcont⟩
    unfold BlkCache.populate
    rw [hbuf i (Nat.le_refl _) (by omega), hrun]
    exact hrest

theorem memdriveReadSectors_ok (disk : δ → Contents) {has : UInt8 → UInt32 → Prop} {drive : UInt8} {lba : UInt32}
    (hm : blkcacheDriveIsMem drive = true) : ∀ n : Nat,
    (∀ i < n, Readable has c drive (lba + UInt32.ofNat i)) →
    ∃ buf, memdriveReadSectors c drive lba n = .ok buf ∧
      ∀ i < n, buf i = contents disk c drive (lba + UInt32.ofNat i)
  | 0, _ => ⟨_, rfl, fun i hi => absurd hi (Nat.not_lt_zero i)⟩
  | n + 1, hread => by
    obtain ⟨buf, hbuf, hall⟩ := memdriveReadSectors_ok disk hm n fun i hi => hread i (Nat.lt_succ_of_lt hi)
    have hlast := memdriveReadSector_ok disk hm (hread n (Nat.lt_succ_self n))
    refine ⟨update buf n (contents disk c drive (lba + UInt32.ofNat n)), ?_, fun i hi => ?_⟩
    · unfold memdriveReadSectors
      rw [hbuf]
      dsimp only
      rw [hlast]
    · rcases Nat.lt_or_eq_of_le (Nat.le_of_lt_succ hi) with hi | rfl
      · rw [update_of_ne (Nat.ne_of_lt hi), hall i hi]
      · rw [update_self]

theorem blkdevReadSectors_ok {ide : Ide δ} {has : UInt8 → UInt32 → Prop} (hf : Faithful ide has disk)
    {drive : UInt8} {lba : UInt32} {count : UInt8}
    (hread : ∀ i < count.toNat, Readable has c drive (lba + UInt32.ofNat i)) :
    ∃ buf d, blkdevReadSectors ide c drive lba count = (.ok buf, { c with ide := d }) ∧
      disk d = disk c.ide ∧ ∀ i < count.toNat, buf i = contents disk c drive (lba + UInt32.ofNat i) := by
  unfold blkdevReadSectors
  by_cases h0 : count = 0
  · subst h0
    exact ⟨_, c.ide, rfl, rfl, fun i hi => absurd hi (Nat.not_lt_zero i)⟩
  rw [if_neg h0]
  by_cases hm : blkcacheDriveIsMem drive = true
  · obtain ⟨buf, hbuf, hall⟩ := memdriveReadSectors_ok disk hm count.toNat hread
    refine ⟨buf, c.ide, ?_, rfl, hall⟩
    rw [hm, hbuf]
    rfl
  · have hhas : ∀ i < count.toNat, has drive (lba + UInt32.ofNat i) := fun i hi => by
      have := hread i hi
      unfold Readable at this
      rwa [if_neg hm] at this
    obtain ⟨buf, hbuf, hall⟩ := hf.reads drive lba count c.ide h0 hhas
    rw [Bool.not_eq_true] at hm
    refine ⟨buf, _, ?_, hf.readsKeep drive lba count c.ide, fun i hi => ?_⟩
    · rw [hm, ← hbuf]
      rfl
    · unfold contents
      rw [hall i hi, hm]
      rfl

/-- `blkcache_read_sectors` for any number of sectors. -/
theorem Tracks.readSectors {ide : Ide δ} {has : UInt8 → UInt32 → Prop} (hf : Faithful ide has disk)
    (h : Coherent disk c) {drive : UInt8} {lba : UInt32} {count : UInt8}
    (hread : ∀ i < count.toNat, Readable has c drive (lba + UInt32.ofNat i)) :
    ∃ buf c', blkcacheReadSectors ide c drive lba count = some (.ok buf, c') ∧ Coherent disk c' ∧
      contents disk c' = contents disk c ∧
      ∀ i < count.toNat, buf i = contents disk c drive (lba + UInt32.ofNat i) := by
  unfold blkcacheReadSectors readSectorsStart
  by_cases h0 : count = 0
  · subst h0
    exact ⟨_, c, rfl, h, rfl, fun i hi => absurd hi (Nat.not_lt_zero i)⟩
  rw [if_neg h0]
  by_cases h1 : count = 1
  · subst h1
    have hone : lba + UInt32.ofNat 0 = lba := UInt32.add_zero lba
    have hread0 := hread 0 (by decide)
    rw [hone] at hread0
    obtain ⟨c', hrun, hcoh, hcont⟩ := h.readSector hf hread0
    rw [if_pos rfl, hrun]
    refine ⟨_, c', rfl, hcoh, hcont, fun i hi => ?_⟩
    cases Nat.lt_one_iff.mp hi
    rw [hone]
  rw [if_neg h1]
  obtain ⟨B, lru, hr, hchain⟩ := h.chains
  obtain ⟨b, hb, hall⟩ := Ok.allCached ⟨B, lru, hr⟩ drive lba count.toNat 0
  rw [hb]
  cases b with
  | true =>
    obtain ⟨buf, c', hrun, hcoh, hcont, _, hbuf⟩ := h.readCached ide drive lba count.toNat
      (fun _ _ => 0) 0 (hall rfl)
    simp only [bind_eq_bind, bind_some, if_true, hrun]
    exact ⟨buf, c', rfl, hcoh, hcont, fun i hi => hbuf i (Nat.zero_le i) (by omega)⟩
  | false =>
    obtain ⟨buf, d, hdev, hd, hbuf⟩ := blkdevReadSectors_ok hf hread
    have hcont := contents_setIde disk c hd
    have hcoh : Coherent disk { c with ide := d } :=
      ⟨⟨B, lru, hr.setIde d, hchain⟩, fun e he hP => by rw [hcont]; exact h.data e he hP⟩
    obtain ⟨c', hrun, hcoh', hcont'⟩ := hcoh.populate drive lba buf count.toNat 0
      fun j _ hj => by rw [hcont]; exact hbuf j (by omega)
    simp only [bind_eq_bind, bind_some, Bool.false_eq_true, if_false, hdev]
    refine ⟨buf, c', ?_, hcoh', hcont'.trans hcont, hbuf⟩
    show (BlkCache.populate drive lba buf 0 count.toNat { c with ide := d }).bind _ = _
    rw [hrun]
    rfl

/-! ## Writes -/

theorem contents_write {d : δ} {drive : UInt8} {lba : UInt32} {buf : Sector}
    (hm : ¬blkcacheDriveIsMem drive = true)
    (hd : disk d = update (disk c.ide) drive (update (disk c.ide drive) lba buf)) :
    contents disk { c with ide := d } =
      update (contents disk c) drive (update (contents disk c drive) lba buf) := by
  have hdrive : contents disk c drive = disk c.ide drive := by
    funext x
    unfold contents
    rw [if_neg hm]
  funext q x
  by_cases hq : q = drive
  · subst hq
    rw [update_self, hdrive]
    unfold contents
    rw [if_neg hm, hd, update_self]
  · rw [update_of_ne hq]
    unfold contents
    dsimp only
    rw [hd, update_of_ne hq]

/-- A write past the cache changes its sector, or fails and changes nothing. -/
theorem blkdevWriteSector_serves {ide : Ide δ} {has : UInt8 → UInt32 → Prop} (hf : Faithful ide has disk)
    {drive : UInt8} {lba : UInt32} {buf : Sector}
    (hhas : (blkdevWriteSector ide c drive lba buf).1 = .ok () → has drive lba) :
    Serves (contents disk c) (.writeSector drive lba buf) (.done (blkdevWriteSector ide c drive lba buf).1)
      (contents disk (blkdevWriteSector ide c drive lba buf).2) := by
  unfold blkdevWriteSector at hhas ⊢
  by_cases hm : blkcacheDriveIsMem drive = true
  · rw [if_pos hm]
    exact .inr ⟨⟨_, rfl⟩, rfl⟩
  rw [if_neg hm] at hhas ⊢
  cases hw : ide.writeSector drive lba buf c.ide with
  | mk r d =>
    rw [hw] at hhas
    cases r with
    | error r =>
      have hd := hf.writeFails drive lba buf c.ide r (by rw [hw])
      rw [hw] at hd
      exact .inr ⟨⟨r, rfl⟩, contents_setIde disk c hd⟩
    | ok u =>
      have hd := hf.write drive lba buf c.ide (hhas rfl) (by rw [hw])
      rw [hw] at hd
      exact .inl ⟨rfl, contents_write hm hd⟩

theorem Tracks.writeSector {ide : Ide δ} {has : UInt8 → UInt32 → Prop} (hf : Faithful ide has disk)
    (h : Coherent disk c) {drive : UInt8} {lba : UInt32} {buf : Sector}
    (hhas : (blkdevWriteSector ide c drive lba buf).1 = .ok () → has drive lba) :
    ∃ r c', blkcacheWriteSector ide c drive lba buf = some (r, c') ∧ Coherent disk c' ∧
      Serves (contents disk c) (.writeSector drive lba buf) (.done r) (contents disk c') := by
  obtain ⟨B, lru, hr, hchain⟩ := h.chains
  have hserve := blkdevWriteSector_serves hf hhas
  obtain ⟨d, hd⟩ := blkdevWriteSector_cache ide c drive lba buf
  unfold blkcacheWriteSector
  cases hw : blkdevWriteSector ide c drive lba buf with
  | mk r c1 =>
    rw [hw] at hserve hd
    dsimp only at hserve hd
    subst hd
    have hr1 := hr.setIde d
    rcases hserve with ⟨rfl, hcont⟩ | ⟨⟨r, rfl⟩, hcont⟩
    · -- every entry but that of the sector written still holds what its drive holds
      have htrack : Tracks disk (· ≠ (drive, lba)) { c with ide := d } := by
        refine ⟨⟨B, lru, hr1, hchain⟩, fun e he hP => (h.data e he trivial).trans ?_⟩
        rw [hcont]
        change contents disk c (key c e).1 (key c e).2 = (update (contents disk c) drive
          (update (contents disk c drive) lba buf) : Contents) (key c e).1 (key c e).2
        by_cases hdr : (key c e).1 = drive
        · have hlba : (key c e).2 ≠ lba := fun hl => hP (Prod.ext hdr hl)
          rw [hdr, update_self, update_of_ne hlba]
        · rw [update_of_ne hdr]
      have hbuf : contents disk { c with ide := d } drive lba = buf := by
        rw [hcont, update_self, update_self]
      obtain ⟨c', hrun, hcoh, hcont'⟩ := htrack.populateSector (Q := fun _ => True)
        drive lba fun _ _ hk => hk
      rw [hbuf] at hrun
      exact ⟨.ok (), c', by dsimp only; rw [hrun]; rfl, hcoh, .inl ⟨rfl, hcont'.trans hcont⟩⟩
    · refine ⟨_, _, rfl, ⟨⟨B, lru, hr1, hchain⟩, fun e he hP => ?_⟩, .inr ⟨⟨r, rfl⟩, hcont⟩⟩
      rw [hcont]
      exact h.data e he hP

/-! ## Invalidation -/

theorem usedCount_hashRemoveFrom {e : Idx} {b : Nat} {fuel : Nat} :
    ∀ {prev cur : Option Idx}, hashRemoveFrom c e b fuel prev cur = some c' → c'.usedCount = c.usedCount := by
  induction fuel with
  | zero =>
    intro prev cur h
    cases cur with
    | none => cases h; rfl
    | some x => cases h
  | succ fuel ih =>
    intro prev cur h
    cases cur with
    | none => cases h; rfl
    | some x =>
      unfold hashRemoveFrom at h
      split at h
      · cases h; exact (sameOrder_hashUnlink ..).usedCount
      · exact ih h

/-- One round of the loop of `blkcache_invalidate`. -/
theorem Tracks.invalidateEntry (h : Tracks disk P c) (drive : UInt8) (i : Idx) :
    ∃ c', invalidateEntry c drive i = some c' ∧ Tracks disk P c' ∧ contents disk c' = contents disk c ∧
      c'.usedCount = c.usedCount ∧
      ∀ x, IsValid c' x → IsValid c x ∧ key c' x = key c x ∧ (x = i → (key c x).1 ≠ drive) := by
  unfold BlkCache.invalidateEntry
  split
  · rename_i hi
    obtain ⟨hv, hdrive⟩ := Bool.and_eq_true_iff.mp hi
    obtain ⟨B, lru, hr, hchain⟩ := h.chains
    obtain ⟨c', B', hrun, hr', hB, hkey, hval⟩ := hr.unhash hv
    have hst : SameStore c (c'.setValid i false) :=
      (sameStore_hashRemoveFrom hrun).trans (sameStore_setValid c' i false)
    have hcont := hst.contents disk
    have hu : c'.usedCount = c.usedCount := usedCount_hashRemoveFrom hrun
    refine ⟨_, by rw [hrun]; rfl, ⟨⟨B', lru, hr', fun b x hx => ?_⟩, fun x hx hP => ?_⟩, hcont, hu,
      fun x hx => ?_⟩
    · obtain ⟨hxB, hne⟩ := hB b x hx
      exact (hval x).mpr ⟨hne, hchain b x hxB⟩
    · rw [hkey] at hP ⊢
      rw [hst.data, hcont]
      exact h.data x ((hval x).mp hx).2 hP
    · obtain ⟨hne, hx⟩ := (hval x).mp hx
      exact ⟨hx, hkey x, fun hxi => absurd hxi hne⟩
  · rename_i hi
    refine ⟨c, rfl, h, rfl, rfl, fun x hx => ⟨hx, rfl, ?_⟩⟩
    rintro rfl hdrive
    exact hi (Bool.and_eq_true_iff.mpr ⟨hx, beq_iff_eq.mpr hdrive⟩)

/-- The loop leaves no valid entry of the drive among those it has passed. -/
theorem Tracks.invalidateFrom (drive : UInt8) : ∀ (n i : Nat) {c : Cache δ}, Tracks disk P c →
    (∀ x < i, IsValid c x → (key c x).1 ≠ drive) →
    ∃ c', invalidateFrom drive i n c = some c' ∧ Tracks disk P c' ∧ contents disk c' = contents disk c ∧
      c'.usedCount = c.usedCount ∧ ∀ x < i + n, IsValid c' x → (key c' x).1 ≠ drive
  | 0, i, c, h, hpast => ⟨c, rfl, h, rfl, rfl, hpast⟩
  | n + 1, i, c, h, hpast => by
    obtain ⟨c1, hrun, h1, hcont, hu, hval⟩ := h.invalidateEntry drive i
    have hpast1 : ∀ x < i + 1, IsValid c1 x → (key c1 x).1 ≠ drive := by
      intro x hx hv
      obtain ⟨hv, hk, hi⟩ := hval x hv
      rw [hk]
      rcases Nat.lt_or_eq_of_le (Nat.le_of_lt_succ hx) with hx | hx
      · exact hpast x hx hv
      · exact hi hx
    obtain ⟨c2, hrest, h2, hcont2, hu2, hall⟩ := Tracks.invalidateFrom drive n (i + 1) h1 hpast1
    refine ⟨c2, by unfold BlkCache.invalidateFrom; rw [hrun]; exact hrest, h2, hcont2.trans hcont,
      hu2.trans hu, fun x hx => hall x (by omega)⟩

/-- Invalidation makes good for a drive whose contents have changed. -/
theorem Tracks.invalidate {drive : UInt8} (h : Tracks disk (fun k => k.1 ≠ drive) c) :
    ∃ c', blkcacheInvalidate c drive = some c' ∧ Coherent disk c' ∧
      contents disk c' = contents disk c := by
  obtain ⟨c', hrun, h', hcont, hu, hall⟩ := Tracks.invalidateFrom drive c.usedCount 0 h
    fun x hx => absurd hx (Nat.not_lt_zero x)
  obtain ⟨B, lru, hr, hchain⟩ := h'.chains
  refine ⟨c', hrun, ⟨⟨B, lru, hr, hchain⟩, fun e he _ => h'.data e he (hall e ?_ he)⟩, hcont⟩
  rw [Nat.zero_add, ← hu]
  exact hr.valid_used he

theorem memdrive_slot {drive slot : UInt8} (hd : drive ≠ memdriveBase + slot) :
    (drive - memdriveBase).toNat ≠ slot.toNat := by
  intro h
  refine hd ?_
  have := UInt8.toNat_inj.mp h
  rw [← this]
  unfold memdriveBase
  grind

theorem memdrive_isMem {slot : UInt8} (hs : slot < 16) :
    blkcacheDriveIsMem (memdriveBase + slot) = true ∧ memdriveBase + slot - memdriveBase = slot := by
  unfold blkcacheDriveIsMem memdriveBase
  rw [Bool.and_eq_true, decide_eq_true_eq, decide_eq_true_eq]
  refine ⟨⟨?_, ?_⟩, by grind⟩
  · rw [UInt8.le_iff_toNat_le, UInt8.toNat_add]
    have : slot.toNat < 16 := hs
    simp
    omega
  · rw [UInt8.lt_iff_toNat_lt, UInt8.toNat_add]
    have : slot.toNat < 16 := hs
    simp
    omega

theorem contents_register (c : Cache δ) {slot : UInt8} (hslot : slot < 16) (base : Nat → UInt8)
    (sizeBytes : Nat) :
    contents disk { c with memdrives := update c.memdrives slot.toNat ⟨base, sizeBytes, true⟩ } =
      update (contents disk c) (memdriveBase + slot) fun lba i => base (lba.toNat * 512 + i) := by
  obtain ⟨hmem, hsub⟩ := memdrive_isMem hslot
  funext drive lba
  by_cases hd : drive = memdriveBase + slot
  · subst hd
    rw [update_self]
    unfold contents
    dsimp only
    rw [if_pos hmem, hsub, update_self]
  · rw [update_of_ne hd]
    unfold contents
    dsimp only
    rw [update_of_ne (memdrive_slot hd)]

/-- A drive registered in memory: what the cache holds of it is stale until the
call has invalidated the drive. -/
theorem Tracks.registerMemdrive (h : Coherent disk c) (slot : UInt8) (base : Option (Nat → UInt8))
    (sizeBytes : Nat) :
    ∃ r c', blkcacheRegisterMemdrive c slot base sizeBytes = some (r, c') ∧ Coherent disk c' ∧
      Serves (contents disk c) (.registerMemdrive slot base sizeBytes) (.done r) (contents disk c') := by
  unfold blkcacheRegisterMemdrive
  cases base with
  | none => exact ⟨_, c, rfl, h, rfl, rfl⟩
  | some base =>
    dsimp only [Serves]
    by_cases hbad : 16 ≤ slot ∨ sizeBytes < 512
    · rw [if_pos hbad]
      exact ⟨_, c, rfl, h, by rw [if_pos hbad]; exact ⟨rfl, rfl⟩⟩
    rw [if_neg hbad]
    have hslot : slot < 16 := UInt8.not_le.mp fun hs => hbad (.inl hs)
    let c1 := { c with memdrives := update c.memdrives slot.toNat ⟨base, sizeBytes, true⟩ }
    have hcont1 : contents disk c1 =
        update (contents disk c) (memdriveBase + slot) fun lba i => base (lba.toNat * 512 + i) :=
      contents_register c hslot base sizeBytes
    have htrack : Tracks disk (fun k => k.1 ≠ memdriveBase + slot) c1 := by
      obtain ⟨B, lru, hr, hchain⟩ := h.chains
      have hr1 : Rep c1 B lru :=
        hr.of_sameChains ⟨fun _ => rfl, fun _ => rfl, rfl, rfl, rfl⟩ hr.order fun _ => Iff.rfl
      refine ⟨⟨B, lru, hr1, hchain⟩, fun e he hP => (h.data e he trivial).trans ?_⟩
      rw [hcont1, update_of_ne hP]
      rfl
    obtain ⟨c', hrun, hcoh, hcont⟩ := htrack.invalidate
    refine ⟨.ok (), c', ?_, hcoh, ?_⟩
    · show (blkcacheInvalidate c1 (memdriveBase + slot)).bind _ = _
      rw [hrun]
      rfl
    · rw [if_neg hbad]
      exact ⟨rfl, hcont.trans hcont1⟩

theorem Tracks.flush {ide : Ide δ} {has : UInt8 → UInt32 → Prop} (hf : Faithful ide has disk)
    (h : Coherent disk c) (drive : UInt8) : Coherent disk (blkcacheFlush ide c drive) ∧
      contents disk (blkcacheFlush ide c drive) = contents disk c := by
  unfold blkcacheFlush blkdevFlush
  split
  · exact ⟨h, rfl⟩
  · have hcont := contents_setIde disk c (hf.flushKeeps drive c.ide)
    obtain ⟨B, lru, hr, hchain⟩ := h.chains
    refine ⟨⟨⟨B, lru, hr.setIde _, hchain⟩, fun e he hP => ?_⟩, hcont⟩
    rw [hcont]
    exact h.data e he hP

/-! ## Without the cache -/

/-- What one call preserves: it ends, and its answer and its effect are those of
the drives. -/
theorem Tracks.perform {ide : Ide δ} {has : UInt8 → UInt32 → Prop} (hf : Faithful ide has disk)
    (h : Coherent disk c) {call : Call} (hs : Served ide has c call) :
    ∃ a c', perform ide c call = some (a, c') ∧ Coherent disk c' ∧
      Serves (contents disk c) call a (contents disk c') := by
  cases call with
  | readSector drive lba =>
    obtain ⟨c', hrun, hcoh, hcont⟩ := h.readSector hf hs
    exact ⟨.sector _, c', by dsimp only [BlkCache.perform]; rw [hrun]; rfl, hcoh, rfl, hcont⟩
  | readSectors drive lba count =>
    obtain ⟨buf, c', hrun, hcoh, hcont, hbuf⟩ := h.readSectors hf hs
    exact ⟨.sectors _, c', by dsimp only [BlkCache.perform]; rw [hrun]; rfl, hcoh, ⟨buf, rfl, hbuf⟩, hcont⟩
  | writeSector drive lba buf =>
    obtain ⟨r, c', hrun, hcoh, hserve⟩ := h.writeSector hf hs
    exact ⟨.done r, c', by dsimp only [BlkCache.perform]; rw [hrun]; rfl, hcoh, hserve⟩
  | invalidate drive =>
    have hweak : Tracks disk (fun k => k.1 ≠ drive) c := ⟨h.chains, fun e he _ => h.data e he trivial⟩
    obtain ⟨c', hrun, hcoh, hcont⟩ := hweak.invalidate
    exact ⟨.done (.ok ()), c', by dsimp only [BlkCache.perform]; rw [hrun]; rfl, hcoh, rfl, hcont⟩
  | flush drive =>
    obtain ⟨hcoh, hcont⟩ := h.flush hf drive
    exact ⟨.done (.ok ()), _, rfl, hcoh, rfl, hcont⟩
  | registerMemdrive slot base sizeBytes =>
    obtain ⟨r, c', hrun, hcoh, hserve⟩ := h.registerMemdrive slot base sizeBytes
    exact ⟨.done r, c', by dsimp only [BlkCache.perform]; rw [hrun]; rfl, hcoh, hserve⟩

theorem coherent_init (disk : δ → Contents) (c : Cache δ) : Coherent disk (blkcacheInit c) :=
  ⟨⟨_, _, rep_init c, fun _ _ hx => absurd hx List.not_mem_nil⟩,
    fun e he => absurd he (not_isValid_init c e)⟩

/-- The invariant holds in every state of a run whose device reads succeed. -/
theorem coherent_of_reachable {ide : Ide δ} {has : UInt8 → UInt32 → Prop} (hf : Faithful ide has disk)
    (h : Run.Reachable CacheInit (ServedStep ide has) c) : Coherent disk c := by
  refine h.invariant (Coherent disk) ?_ ?_
  · rintro c ⟨c0, rfl⟩
    exact coherent_init disk c0
  · rintro c c' hc ⟨call, a, hs, hrun⟩
    obtain ⟨a', c1, hrun', hcoh, _⟩ := hc.perform hf hs
    rw [hrun] at hrun'
    cases hrun'
    exact hcoh

/-- Transparency: after any calls since `blkcache_init`, whatever has been evicted,
the next call ends, and its answer and its effect on the drives are those of the
drives without a cache. -/
theorem transparent {ide : Ide δ} {has : UInt8 → UInt32 → Prop} (hf : Faithful ide has disk)
    (h : Run.Reachable CacheInit (ServedStep ide has) c) {call : Call} (hs : Served ide has c call) :
    ∃ a c', perform ide c call = some (a, c') ∧ Serves (contents disk c) call a (contents disk c') := by
  obtain ⟨a, c', hrun, _, hserve⟩ := (coherent_of_reachable hf h).perform hf hs
  exact ⟨a, c', hrun, hserve⟩

/-- A drive that never fails. -/
def perfect : Ide Contents where
  readSector drive lba d := (.ok (d drive lba), d)
  readSectors drive lba _ d := (.ok fun i => d drive (lba + UInt32.ofNat i), d)
  writeSector drive lba buf d := (.ok (), update d drive (update (d drive) lba buf))
  cacheFlush _ d := d

theorem perfect_faithful : Faithful perfect (fun _ _ => True) id where
  read _ _ _ _ := rfl
  readKeeps _ _ _ := rfl
  reads _ _ _ _ _ _ := ⟨_, rfl, fun _ _ => rfl⟩
  readsKeep _ _ _ _ := rfl
  write _ _ _ _ _ _ := rfl
  writeFails _ _ _ _ _ h := by cases h
  flushKeeps _ _ := rfl

/-- The static variables at power on, with drives that hold zeros. -/
def blank : Cache Contents :=
  ⟨fun _ => ⟨0, 0, fun _ => 0, false, none, none, none⟩, fun _ => none, none, none, 0,
    fun _ => ⟨fun _ => 0, 0, false⟩, fun _ _ _ => 0⟩

/-- A read of three sectors, the second of which has just been written. -/
theorem transparent_afterWrite : ∃ b c a c',
    perform perfect (blkcacheInit blank) (.writeSector 0 1 fun _ => 7) = some (b, c) ∧
    perform perfect c (.readSectors 0 0 3) = some (a, c') ∧
    Serves (contents id c) (.readSectors 0 0 3) a (contents id c') := by
  have hwrite : Served perfect (fun _ _ => True) (blkcacheInit blank) (.writeSector 0 1 fun _ => 7) :=
    fun _ => trivial
  obtain ⟨b, c, hrun, _⟩ := (coherent_init id blank).perform perfect_faithful hwrite
  have hreach : Run.Reachable CacheInit (ServedStep perfect fun _ _ => True) c :=
    (Run.Reachable.start ⟨_, rfl⟩).step ⟨_, b, hwrite, hrun⟩
  have hmem : blkcacheDriveIsMem 0 = false := by decide
  have hread : Served perfect (fun _ _ => True) c (.readSectors 0 0 3) := by
    intro i _
    unfold Readable
    rw [hmem]
    trivial
  obtain ⟨a, c', h, hserve⟩ := transparent perfect_faithful hreach hread
  exact ⟨b, c, a, c', hrun, h, hserve⟩

end Serotonin.BlkCache
