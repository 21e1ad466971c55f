import Mathlib.Algebra.Group.Nat.Defs
import Serotonin.BlkCache.Invariant
import Serotonin.Lib.Run
import Mathlib.Logic.Relation

/-! Sequences of calls. The loop of `blkcache_read_sectors` that enters what was
read recycles one entry after the other, so each of its rounds is a step of its
own; every other call is one step. -/

namespace Serotonin.BlkCache
open Function Option
open Chain

variable {δ : Type}

/-! ## Requests served from the cache -/

def Cached (c : Cache δ) (drive : UInt8) (lba : UInt32) : Prop :=
  ∃ e, IsValid c e ∧ key c e = (drive, lba)

theorem Cached.of_sameChains {c c' : Cache δ} {drive : UInt8} {lba : UInt32}
    (h : Cached c drive lba) (hs : SameChains c c') : Cached c' drive lba := by
  obtain ⟨e, hv, hk⟩ := h
  exact ⟨e, (hs.valid e).trans hv, (hs.key e).trans hk⟩

theorem Ok.readHit {c : Cache δ} (ide : Ide δ) {drive : UInt8} {lba : UInt32} (h : Ok c)
    (hc : Cached c drive lba) : ∃ d c', blkcacheReadSector ide c drive lba = some (.ok d, c') ∧
      Ok c' ∧ SameChains c c' := by
  obtain ⟨B, lru, hr⟩ := h
  obtain ⟨f, hvf, hkf⟩ := hc
  unfold blkcacheReadSector
  rcases hr.lookup drive lba with ⟨e, hl, hv, _⟩ | ⟨_, hnew⟩
  · rw [hl]
    obtain ⟨lru', ht⟩ := hr.lruTouch (hr.valid_used hv)
    exact ⟨_, _, rfl, ⟨B, lru', ht⟩, (sameChains_lruRemove c e).trans (sameChains_lruPushFront _ e)⟩
  · exact absurd hkf (hnew f hvf)

theorem Ok.allCached {c : Cache δ} (h : Ok c) (drive : UInt8) (lba : UInt32) : ∀ (n i : Nat),
    ∃ b, allCached c drive lba i n = some b ∧
      (b = true → ∀ j, i ≤ j → j < i + n → Cached c drive (lba + UInt32.ofNat j))
  | 0, i => ⟨true, rfl, fun _ j h1 h2 => absurd h1 (Nat.not_le_of_lt h2)⟩
  | n + 1, i => by
    obtain ⟨B, lru, hr⟩ := h
    unfold BlkCache.allCached
    rcases hr.lookup drive (lba + UInt32.ofNat i) with ⟨e, hl, hv, hk⟩ | ⟨hl, _⟩
    · obtain ⟨b, hb, hrest⟩ := Ok.allCached ⟨B, lru, hr⟩ drive lba n (i + 1)
      refine ⟨b, by rw [hl]; exact hb, fun hbt j h1 h2 => ?_⟩
      rcases Nat.eq_or_lt_of_le h1 with rfl | h1
      · exact ⟨e, hv, hk⟩
      · exact hrest hbt j h1 (by omega)
    · exact ⟨false, by rw [hl]; rfl, by simp⟩

theorem Ok.readCached (ide : Ide δ) (drive : UInt8) (lba : UInt32) : ∀ (n : Nat) {c : Cache δ}
    (buf : Nat → Sector) (i : Nat), Ok c →
    (∀ j, i ≤ j → j < i + n → Cached c drive (lba + UInt32.ofNat j)) →
    ∃ r c', readCached ide drive lba buf i n c = some (r, c') ∧ Ok c'
  | 0, c, buf, i, h, _ => ⟨buf, c, rfl, h⟩
  | n + 1, c, buf, i, h, hc => by
    obtain ⟨d, c1, hrun, hok, hs⟩ := h.readHit ide (hc i (Nat.le_refl _) (by omega))
    obtain ⟨r, c2, hrest, hok2⟩ := Ok.readCached ide drive lba n (update buf i d) (i + 1) hok
      fun j h1 h2 => (hc j (by omega) (by omega)).of_sameChains hs
    exact ⟨r, c2, by unfold BlkCache.readCached; rw [hrun]; exact hrest, hok2⟩

/-- `blkcache_read_sectors` recycles nothing before its last loop, but for a
request of one sector. -/
theorem Ok.readSectorsStart (ide : Ide δ) {c : Cache δ} {drive : UInt8} {lba : UInt32} {count : UInt8}
    (h : Ok c) (hclean : count = 1 → Misses c drive lba → CleanRecycle c) :
    ∃ r todo c', readSectorsStart ide c drive lba count = some (r, todo, c') ∧ Ok c' := by
  unfold BlkCache.readSectorsStart
  split
  · exact ⟨_, _, _, rfl, h⟩
  split
  · rename_i h1
    obtain ⟨r, c', hrun, hok⟩ := h.readSector ide (hclean h1)
    rw [hrun]
    exact ⟨_, _, _, rfl, hok⟩
  · obtain ⟨b, hb, hall⟩ := h.allCached drive lba count.toNat 0
    rw [hb]
    cases b with
    | true =>
      obtain ⟨r, c', hrun, hok⟩ := Ok.readCached ide drive lba count.toNat (fun _ _ => 0) 0 h (hall rfl)
      simp only [bind_eq_bind, bind_some, if_true, hrun]
      exact ⟨_, _, _, rfl, hok⟩
    | false =>
      obtain ⟨B, lru, hr⟩ := h
      obtain ⟨d, hd⟩ := blkdevReadSectors_cache ide c drive lba count
      have hr2 := hr.setIde d
      rw [← hd] at hr2
      simp only [bind_eq_bind, bind_some]
      cases hread : blkdevReadSectors ide c drive lba count with
      | mk r c1 =>
        rw [hread] at hr2
        cases r with
        | error r => exact ⟨_, _, _, rfl, B, lru, hr2⟩
        | ok buf => exact ⟨_, _, _, rfl, B, lru, hr2⟩

/-! ## Invalidation -/

/-- A valid entry taken off its chain and marked invalid. -/
theorem Rep.unhash {c : Cache δ} {B : Nat → List Idx} {lru : List Idx} {e : Idx} (h : Rep c B lru)
    (hv : IsValid c e) : ∃ c' B', hashRemove c e = some c' ∧ Rep (c'.setValid e false) B' lru ∧
      (∀ b, ∀ x ∈ B' b, x ∈ B b ∧ x ≠ e) ∧ (∀ x, key (c'.setValid e false) x = key c x) ∧
      ∀ x, IsValid (c'.setValid e false) x ↔ x ≠ e ∧ IsValid c x := by
  obtain ⟨c', B', hrun, hso, hchain, hmem⟩ := hashRemove_spec h.chain h.hashed h.chain_length
    (h.valid e hv)
  have hkey : ∀ x, key (c'.setValid e false) x = key c x := fun x =>
    (key_setValid ..).trans (hso.key x)
  have hval : ∀ x, IsValid (c'.setValid e false) x ↔ x ≠ e ∧ IsValid c x := fun x => by
    rw [isValid_setValid]
    unfold IsValid
    rw [hso.valid]
  refine ⟨c', B', hrun, ⟨fun b => ?_, fun b x hx => ?_, fun x hvx => ?_,
    fun x y hvx hvy hk => ?_, ?_, fun x => ?_, fun b x hx => ?_, ?_⟩, fun b x => (hmem b x).mp, hkey, hval⟩
  · rw [hashNext_setValid]; exact hchain b
  · rw [bucketOf_congr (hkey x)]; exact h.hashed b x ((hmem b x).mp hx).1
  · obtain ⟨hne, hvx⟩ := (hval x).mp hvx
    rw [bucketOf_congr (hkey x)]
    exact (hmem _ x).mpr ⟨h.valid x hvx, hne⟩
  · rw [hkey, hkey] at hk
    exact h.unique x y ((hval x).mp hvx).2 ((hval y).mp hvy).2 hk
  · rw [lruLinks_setValid, hso.lru]; exact h.order
  · show x ∈ lru ↔ x < c'.usedCount
    rw [hso.usedCount]; exact h.used x
  · show x < c'.usedCount
    rw [hso.usedCount]; exact h.chained b x ((hmem b x).mp hx).1
  · show c'.usedCount ≤ maxEntries
    rw [hso.usedCount]; exact h.count

theorem Ok.invalidateEntry {c : Cache δ} (h : Ok c) (drive : UInt8) (i : Idx) :
    ∃ c', invalidateEntry c drive i = some c' ∧ Ok c' := by
  unfold BlkCache.invalidateEntry
  split
  · rename_i hv
    obtain ⟨B, lru, hr⟩ := h
    rw [Bool.and_eq_true] at hv
    obtain ⟨c', B', hrun, hr', _⟩ := hr.unhash hv.1
    exact ⟨_, by rw [hrun]; rfl, B', lru, hr'⟩
  · exact ⟨c, rfl, h⟩

theorem Ok.invalidateFrom (drive : UInt8) : ∀ (n i : Nat) {c : Cache δ}, Ok c →
    ∃ c', invalidateFrom drive i n c = some c' ∧ Ok c'
  | 0, _, c, h => ⟨c, rfl, h⟩
  | n + 1, i, c, h => by
    obtain ⟨c1, h1, hok1⟩ := h.invalidateEntry drive i
    obtain ⟨c2, h2, hok2⟩ := Ok.invalidateFrom drive n (i + 1) hok1
    exact ⟨c2, by unfold BlkCache.invalidateFrom; rw [h1]; exact h2, hok2⟩

theorem Ok.registerMemdrive {c : Cache δ} (h : Ok c) (slot : UInt8) (base : Option (Nat → UInt8))
    (sizeBytes : Nat) : ∃ r c', blkcacheRegisterMemdrive c slot base sizeBytes = some (r, c') ∧ Ok c' := by
  unfold blkcacheRegisterMemdrive
  cases base with
  | none => exact ⟨_, _, rfl, h⟩
  | some base =>
    dsimp only
    split
    · exact ⟨_, _, rfl, h⟩
    · obtain ⟨B, lru, hr⟩ := h
      have hok : Ok { c with memdrives := update c.memdrives slot.toNat ⟨base, sizeBytes, true⟩ } :=
        ⟨B, lru, hr.of_sameChains ⟨fun _ => rfl, fun _ => rfl, rfl, rfl, rfl⟩ hr.order fun _ => Iff.rfl⟩
      obtain ⟨c', hrun, hok'⟩ := Ok.invalidateFrom (memdriveBase + slot) c.usedCount 0 hok
      refine ⟨.ok (), c', ?_, hok'⟩
      have hcall : blkcacheInvalidate
          { c with memdrives := update c.memdrives slot.toNat ⟨base, sizeBytes, true⟩ }
          (memdriveBase + slot) = some c' := hrun
      rw [hcall]
      rfl

/-! ## Steps -/

/-- The rest of a `blkcache_read_sectors` call that has read from the device:
sectors `i` to `i + left - 1` of the request are still to be entered. -/
structure Batch where
  drive : UInt8
  lba : UInt32
  buf : Nat → Sector
  i : Nat
  left : Nat

structure System (δ : Type) where
  cache : Cache δ
  batch : Option Batch

inductive Op where
  | readSector (drive : UInt8) (lba : UInt32)
  | readSectors (drive : UInt8) (lba : UInt32) (count : UInt8)
  | enterSector
  | writeSector (drive : UInt8) (lba : UInt32) (buf : Sector)
  | invalidate (drive : UInt8)
  | flush (drive : UInt8)
  | registerMemdrive (slot : UInt8) (base : Option (Nat → UInt8)) (sizeBytes : Nat)

/-- A batch is finished before the next call. -/
def Enabled (s : System δ) : Op → Prop
  | .enterSector => s.batch.isSome
  | _ => s.batch = none

/-- What a step makes of the state; `none` is a walk along a chain that never ends. -/
def step (ide : Ide δ) (s : System δ) : Op → Option (System δ)
  | .readSector drive lba => (blkcacheReadSector ide s.cache drive lba).map fun r => ⟨r.2, none⟩
  | .readSectors drive lba count =>
    (readSectorsStart ide s.cache drive lba count).map fun r =>
      match r with
      | (.ok buf, true, c) => ⟨c, some ⟨drive, lba, buf, 0, count.toNat⟩⟩
      | (_, _, c) => ⟨c, none⟩
  | .enterSector =>
    match s.batch with
    | none => some s
    | some b =>
      match b.left with
      | 0 => some ⟨s.cache, none⟩
      | n + 1 => (populateSector s.cache b.drive (b.lba + UInt32.ofNat b.i) (b.buf b.i)).map fun c =>
          ⟨c, some { b with i := b.i + 1, left := n }⟩
  | .writeSector drive lba buf => (blkcacheWriteSector ide s.cache drive lba buf).map fun r => ⟨r.2, none⟩
  | .invalidate drive => (blkcacheInvalidate s.cache drive).map fun c => ⟨c, none⟩
  | .flush drive => some ⟨blkcacheFlush ide s.cache drive, none⟩
  | .registerMemdrive slot base sizeBytes =>
    (blkcacheRegisterMemdrive s.cache slot base sizeBytes).map fun r => ⟨r.2, none⟩

/-- The state in which the cache keeps its invariant: a step that allocates an
entry recycles a clean one. -/
def Guarded (ide : Ide δ) (s : System δ) : Op → Prop
  | .readSector drive lba => Misses s.cache drive lba → CleanRecycle s.cache
  | .readSectors drive lba count => count = 1 → Misses s.cache drive lba → CleanRecycle s.cache
  | .enterSector => ∀ b, s.batch = some b → b.left ≠ 0 →
      Misses s.cache b.drive (b.lba + UInt32.ofNat b.i) → CleanRecycle s.cache
  | .writeSector drive lba buf => (blkdevWriteSector ide s.cache drive lba buf).1 = .ok () →
      Misses s.cache drive lba → CleanRecycle s.cache
  | _ => True

/-- What one step preserves; and every step ends. -/
theorem Ok.step (ide : Ide δ) {s : System δ} {op : Op} (h : Ok s.cache) (hg : Guarded ide s op) :
    ∃ s', step ide s op = some s' ∧ Ok s'.cache := by
  cases op with
  | readSector drive lba =>
    obtain ⟨r, c, hrun, hok⟩ := h.readSector ide hg
    exact ⟨_, by dsimp only [BlkCache.step]; rw [hrun]; rfl, hok⟩
  | readSectors drive lba count =>
    obtain ⟨r, todo, c, hrun, hok⟩ := h.readSectorsStart ide hg
    refine ⟨_, by dsimp only [BlkCache.step]; rw [hrun]; rfl, ?_⟩
    cases r <;> cases todo <;> exact hok
  | enterSector =>
    unfold BlkCache.step
    unfold Guarded at hg
    cases hb : s.batch with
    | none => exact ⟨s, rfl, h⟩
    | some b =>
      dsimp only
      cases hleft : b.left with
      | zero => exact ⟨_, rfl, h⟩
      | succ n =>
        obtain ⟨c, hrun, hok⟩ := h.populateSector b.drive (b.lba + UInt32.ofNat b.i) (b.buf b.i)
          (hg b hb (by rw [hleft]; exact Nat.succ_ne_zero n))
        exact ⟨_, by dsimp only; rw [hrun]; rfl, hok⟩
  | writeSector drive lba buf =>
    obtain ⟨r, c, hrun, hok⟩ := h.writeSector ide hg
    exact ⟨_, by dsimp only [BlkCache.step]; rw [hrun]; rfl, hok⟩
  | invalidate drive =>
    obtain ⟨c, hrun, hok⟩ := Ok.invalidateFrom drive s.cache.usedCount 0 h
    have hcall : blkcacheInvalidate s.cache drive = some c := hrun
    exact ⟨_, by dsimp only [BlkCache.step]; rw [hcall]; rfl, hok⟩
  | flush drive =>
    refine ⟨_, rfl, ?_⟩
    unfold blkcacheFlush blkdevFlush
    obtain ⟨B, lru, hr⟩ := h
    split
    · exact ⟨B, lru, hr⟩
    · exact ⟨B, lru, hr.setIde _⟩
  | registerMemdrive slot base sizeBytes =>
    obtain ⟨r, c, hrun, hok⟩ := h.registerMemdrive slot base sizeBytes
    exact ⟨_, by dsimp only [BlkCache.step]; rw [hrun]; rfl, hok⟩

/-- After `blkcache_init`. -/
def Init (s : System δ) : Prop := (∃ c, s.cache = blkcacheInit c) ∧ s.batch = none

theorem not_isValid_init (c : Cache δ) (e : Idx) : ¬IsValid (blkcacheInit c) e := fun he => by cases he

theorem rep_init (c : Cache δ) : Rep (blkcacheInit c) (fun _ => []) [] := by
  refine ⟨fun _ => rfl, by simp, fun e he => ?_, fun e f he => ?_, Links.spells_nil,
    fun e => ?_, by simp, Nat.zero_le _⟩
  · exact absurd he (not_isValid_init c e)
  · exact absurd he (not_isValid_init c e)
  · exact ⟨fun h => absurd h List.not_mem_nil, fun h => absurd h (Nat.not_lt_zero e)⟩

theorem blkcacheInit_ok (c : Cache δ) : Ok (blkcacheInit c) := ⟨_, _, rep_init c⟩

def Step (ide : Ide δ) (s s' : System δ) : Prop := ∃ op, Enabled s op ∧ step ide s op = some s'

def GuardedStep (ide : Ide δ) (s s' : System δ) : Prop :=
  ∃ op, Enabled s op ∧ Guarded ide s op ∧ step ide s op = some s'

/-- The loop that enters what was read, as steps. -/
theorem populate_steps (ide : Ide δ) (drive : UInt8) (lba : UInt32) (buf : Nat → Sector) :
    ∀ (n i : Nat) {c c' : Cache δ}, populate drive lba buf i n c = some c' →
      Relation.ReflTransGen (Step ide) ⟨c, some ⟨drive, lba, buf, i, n⟩⟩ ⟨c', none⟩
  | 0, i, c, c', h => by
    cases h
    exact .single ⟨.enterSector, rfl, rfl⟩
  | n + 1, i, c, c', h => by
    unfold populate at h
    obtain ⟨c1, h1, h2⟩ := bind_eq_some_iff.mp h
    refine .head ⟨.enterSector, rfl, ?_⟩ (populate_steps ide drive lba buf n (i + 1) h2)
    show (populateSector c drive (lba + UInt32.ofNat i) (buf i)).map _ = _
    rw [h1]
    rfl

/-- The representation invariant over whole runs, with any pattern of failing
devices: it holds in every state reached as long as no step recycles an entry
that is marked invalid but still chained, and every such step ends. -/
theorem wellFormed_of_guarded {ide : Ide δ} {s : System δ}
    (h : Run.Reachable Init (GuardedStep ide) s) :
    (∃ B lru, WellFormed s.cache B lru) ∧
    ∀ op, Guarded ide s op → ∃ s', step ide s op = some s' := by
  have hok : Ok s.cache := by
    refine h.invariant (fun s => Ok s.cache) ?_ ?_
    · rintro s ⟨⟨c, hc⟩, _⟩
      rw [hc]
      exact blkcacheInit_ok c
    · rintro s t hs ⟨op, _, hg, hst⟩
      obtain ⟨t', ht, hok⟩ := hs.step ide hg
      rw [ht] at hst
      cases hst
      exact hok
  obtain ⟨B, lru, hr⟩ := hok
  refine ⟨⟨B, lru, hr.wellFormed⟩, fun op hg => ?_⟩
  obtain ⟨s', hs, _⟩ := Ok.step ide ⟨B, lru, hr⟩ hg
  exact ⟨s', hs⟩

/-! ## A failed read, and then 256 others -/

/-- A drive whose sector 0 cannot be read. -/
def badSector : Ide Unit where
  readSector _ lba d := (if lba = 0 then .error (-1) else .ok fun _ => 0, d)
  readSectors _ _ _ d := (.error (-1), d)
  writeSector _ _ _ d := (.error (-1), d)
  cacheFlush _ d := d

/-- The static variables at power on. -/
def powerOn : Cache Unit :=
  ⟨fun _ => ⟨0, 0, fun _ => 0, false, none, none, none⟩, fun _ => none, none, none, 0,
    fun _ => ⟨fun _ => 0, 0, false⟩, ()⟩

/-- A first read that fails, on an empty cache. -/
theorem wellFormed_of_guarded_failedRead :
    ∃ s, step badSector ⟨blkcacheInit powerOn, none⟩ (.readSector 0 0) = some s ∧
      ∃ B lru, WellFormed s.cache B lru := by
  have hguard : Guarded badSector ⟨blkcacheInit powerOn, none⟩ (.readSector 0 0) := fun _ hfull =>
    absurd hfull (by show ¬256 ≤ 0; decide)
  obtain ⟨s, hs, _⟩ := Ok.step badSector (s := ⟨blkcacheInit powerOn, none⟩) (blkcacheInit_ok powerOn) hguard
  have hinit : Init (⟨blkcacheInit powerOn, none⟩ : System Unit) := ⟨⟨powerOn, rfl⟩, rfl⟩
  have hr : Run.Reachable Init (GuardedStep badSector) s :=
    (Run.Reachable.start hinit).step ⟨.readSector 0 0, rfl, hguard, hs⟩
  exact ⟨s, hs, (wellFormed_of_guarded hr).1⟩

/-- After the failed read of sector 0 and `n` good ones: entry 0 is marked invalid,
on its chain, and last in the order of use. -/
structure Stale (c : Cache Unit) (n : Nat) : Prop where
  rep : ∃ B lru, Rep c B lru ∧ 0 ∈ B 0 ∧ lru.getLast? = some 0
  used : c.usedCount = n + 1
  invalid : ¬IsValid c 0
  keys : ∀ e, IsValid c e → ∃ m, 1 ≤ m ∧ m ≤ n ∧ key c e = (0, UInt32.ofNat m)

/-- The next sector is not in the cache. -/
theorem Stale.misses {c : Cache Unit} {n : Nat} (h : Stale c n) (hn : n + 1 < 2 ^ 32) :
    ∀ e, IsValid c e → key c e ≠ (0, UInt32.ofNat (n + 1)) := by
  intro e hv hk
  obtain ⟨m, h1, h2, hm⟩ := h.keys e hv
  rw [hm, Prod.mk.injEq] at hk
  have := congrArg UInt32.toNat hk.2
  rw [UInt32.toNat_ofNat_of_lt' (Nat.lt_of_le_of_lt (Nat.le_succ_of_le h2) hn),
    UInt32.toNat_ofNat_of_lt' hn] at this
  omega

/-- What a read from the drive leaves, once there is an entry for it. -/
theorem read_alloc {c c' : Cache Unit} {e : Idx} {lba : UInt32} (hl : cacheLookup c 0 lba = some none)
    (ha : cacheAlloc c 0 lba = some (some e, c')) :
    ∃ r, blkcacheReadSector badSector c 0 lba = some (r,
      if lba = 0 then c'.setValid e false else c'.setData e fun _ => 0) := by
  unfold blkcacheReadSector
  simp only [hl, bind_eq_bind, bind_some, ha]
  have hmem : blkcacheDriveIsMem 0 = false := by decide
  unfold blkdevReadSector
  rw [hmem]
  by_cases h0 : lba = 0
  · subst h0; exact ⟨_, rfl⟩
  · have hread : badSector.readSector 0 lba c'.ide = (.ok fun _ => 0, ()) := by
      show (if lba = 0 then _ else _, _) = _
      rw [if_neg h0]
    rw [if_neg h0]
    simp only [Bool.false_eq_true, if_false, hread]
    exact ⟨_, rfl⟩

theorem lookup_none {c : Cache Unit} {B : Nat → List Idx} {lru : List Idx} {lba : UInt32}
    (h : Rep c B lru) (hnew : ∀ e, IsValid c e → key c e ≠ (0, lba)) :
    cacheLookup c 0 lba = some none := by
  rcases h.lookup 0 lba with ⟨e, _, hv, hk⟩ | ⟨hl, _⟩
  · exact absurd hk (hnew e hv)
  · exact hl

theorem stale_zero (c : Cache Unit) : ∃ r c', 
    blkcacheReadSector badSector (blkcacheInit c) 0 0 = some (r, c') ∧ Stale c' 0 := by
  have hinv := not_isValid_init c
  have hrep := rep_init c
  have hnew : ∀ e, IsValid (blkcacheInit c) e → key (blkcacheInit c) e ≠ (0, 0) := fun e he =>
    absurd he (hinv e)
  obtain ⟨c1, ha, hr1, hu1, hent⟩ := hrep.allocFresh (by show 0 < 256; decide) hnew
  obtain ⟨r, hread⟩ := read_alloc (lookup_none hrep hnew) ha
  have hkeep : ∀ x, ¬IsValid (c1.setValid 0 false) x := fun x hx => by
    obtain ⟨hne, hv⟩ := isValid_setValid.mp hx
    exact hinv x ((hent.valids x hne).mp hv)
  refine ⟨r, _, hread, ⟨_, _, hr1.setValid 0, ?_, rfl⟩, hu1, hkeep 0, fun e he => absurd he (hkeep e)⟩
  have hb : blkcacheHash 0 0 = 0 := by decide
  rw [hb, update_self]
  exact List.mem_cons_self

theorem Stale.next {c : Cache Unit} {n : Nat} (h : Stale c n) (hn : n < 255) :
    ∃ r c', blkcacheReadSector badSector c 0 (UInt32.ofNat (n + 1)) = some (r, c') ∧
      Stale c' (n + 1) := by
  obtain ⟨B, lru, hrep, h0, hlast⟩ := h.rep
  have hnew := h.misses (by omega)
  obtain ⟨c1, ha, hr1, hu1, hent⟩ := hrep.allocFresh
    (by rw [h.used]; show n + 1 < 256; omega) hnew
  obtain ⟨r, hread⟩ := read_alloc (lookup_none hrep hnew) ha
  rw [h.used] at hread ha hr1 hent hu1
  have hlba : UInt32.ofNat (n + 1) ≠ 0 := by
    intro hz
    have := congrArg UInt32.toNat hz
    rw [UInt32.toNat_ofNat_of_lt' (show n + 1 < 2 ^ 32 by omega)] at this
    simp at this
  rw [if_neg hlba] at hread
  have hs := sameChains_setData c1 (n + 1) fun _ => 0
  have hvalid : ∀ x, IsValid (c1.setData (n + 1) fun _ => 0) x → IsValid c1 x := fun x hx =>
    (hs.valid x).symm.trans hx
  refine ⟨r, _, hread, ⟨_, _, hr1.setData (n + 1) _, ?_, ?_⟩, hs.usedCount.trans hu1, fun hv => ?_,
    fun e he => ?_⟩
  · by_cases hb : 0 = blkcacheHash 0 (UInt32.ofNat (n + 1))
    · rw [← hb, update_self]
      exact List.mem_cons_of_mem _ h0
    · rw [update_of_ne hb]
      exact h0
  · rw [List.getLast?_cons, hlast]
    rfl
  · exact h.invalid ((hent.valids 0 (Nat.succ_ne_zero n).symm).mp (hvalid 0 hv))
  · rw [hs.key]
    by_cases hx : e = n + 1
    · exact ⟨n + 1, Nat.succ_pos n, Nat.le_refl _, hx ▸ hent.key⟩
    · obtain ⟨m, h1, h2, hm⟩ := h.keys e ((hent.valids e hx).mp (hvalid e he))
      exact ⟨m, h1, Nat.le_succ_of_le h2, (hent.keys e hx).trans hm⟩

theorem stale_reachable (c : Cache Unit) : ∀ n, n ≤ 255 →
    ∃ c', Run.Reachable Init (Step badSector) ⟨c', none⟩ ∧ Stale c' n
  | 0, _ => by
    obtain ⟨r, c', hread, hst⟩ := stale_zero c
    have hinit : Init (⟨blkcacheInit c, none⟩ : System Unit) := ⟨⟨c, rfl⟩, rfl⟩
    refine ⟨c', (Run.Reachable.start hinit).step ⟨.readSector 0 0, rfl, ?_⟩, hst⟩
    unfold step
    dsimp only
    rw [hread]
    rfl
  | n + 1, hn => by
    obtain ⟨c1, hr, hst⟩ := stale_reachable c n (Nat.le_of_succ_le hn)
    obtain ⟨r, c', hread, hst'⟩ := hst.next hn
    refine ⟨c', hr.step ⟨.readSector 0 (UInt32.ofNat (n + 1)), rfl, ?_⟩, hst'⟩
    show (blkcacheReadSector badSector c1 0 (UInt32.ofNat (n + 1))).map _ = _
    rw [hread]
    rfl

/-- With the cache full, the next read recycles the entry that failed, and its old
chain runs into a wrong bucket, or round and round. -/
theorem not_always_wellFormed :
    ¬∀ s, Run.Reachable Init (Step badSector) s → ∃ B lru, WellFormed s.cache B lru := by
  intro hall
  obtain ⟨c, hr, hst⟩ := stale_reachable powerOn 255 (Nat.le_refl _)
  obtain ⟨B, lru, hrep, h0, hlast⟩ := hst.rep
  have htail : c.lruTail = some 0 := hrep.order.tail_eq.trans hlast
  obtain ⟨c1, ha, hbad⟩ := hrep.recycle_breaks (Nat.le_of_eq hst.used.symm) htail hst.invalid h0 0 256
  have hnew : ∀ e, IsValid c e → key c e ≠ (0, 256) := hst.misses (by decide)
  obtain ⟨r, hread⟩ := read_alloc (lookup_none hrep hnew) ha
  have hs := sameChains_setData c1 0 fun _ => 0
  have hstep : Step badSector ⟨c, none⟩ ⟨c1.setData 0 fun _ => 0, none⟩ := by
    refine ⟨.readSector 0 256, rfl, ?_⟩
    show (blkcacheReadSector badSector c 0 256).map _ = _
    rw [hread]
    rfl
  obtain ⟨B', lru', hw⟩ := hall _ (hr.step hstep)
  have hchain := hw.chain
  rw [hs.hashNext, hs.hashTable] at hchain
  obtain ⟨q, x, hx, hq⟩ := hbad B' hchain
  exact hq ((bucketOf_congr (hs.key x)).symm.trans (hw.hashed q x hx))

end Serotonin.BlkCache
