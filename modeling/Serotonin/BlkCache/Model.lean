import Mathlib.Logic.Function.Basic

/-! The block cache of `kernel/filesystem/blkcache.c`: 256 entries, each in the
hash chain of its sector and in one list ordered by last use, in front of the IDE
drives and of read-only drives in memory. The IDE driver is a parameter. -/

namespace Serotonin.BlkCache

open Function

def numBuckets : Nat := 64
def maxEntries : Nat := 256
def memdriveBase : UInt8 := 0x80

/-- The index of an entry in the static array `entries`. -/
abbrev Idx := Nat

/-- The 512 bytes of a sector. -/
abbrev Sector := Fin 512 → UInt8

structure Entry where
  drive : UInt8
  lba : UInt32
  data : Sector
  valid : Bool
  lruPrev : Option Idx
  lruNext : Option Idx
  hashNext : Option Idx

structure Memdrive where
  base : Nat → UInt8
  sizeBytes : Nat
  valid : Bool

/-- The functions of the IDE driver that the cache calls. A failed transfer gives
the return code; what it leaves in the buffer is not used. -/
structure Ide (δ : Type) where
  readSector : UInt8 → UInt32 → δ → Except Int Sector × δ
  readSectors : UInt8 → UInt32 → UInt8 → δ → Except Int (Nat → Sector) × δ
  writeSector : UInt8 → UInt32 → Sector → δ → Except Int Unit × δ
  cacheFlush : UInt8 → δ → δ

/-- The static variables of the cache, and the drives behind it. -/
structure Cache (δ : Type) where
  entries : Idx → Entry
  hashTable : Nat → Option Idx
  lruHead : Option Idx
  lruTail : Option Idx
  usedCount : Nat
  memdrives : Nat → Memdrive
  ide : δ

variable {δ : Type}

namespace Cache

def modify (c : Cache δ) (e : Idx) (f : Entry → Entry) : Cache δ :=
  { c with entries := update c.entries e (f (c.entries e)) }

def hashNext (c : Cache δ) (e : Idx) : Option Idx := (c.entries e).hashNext
def lruNext (c : Cache δ) (e : Idx) : Option Idx := (c.entries e).lruNext
def lruPrev (c : Cache δ) (e : Idx) : Option Idx := (c.entries e).lruPrev

def setHashNext (c : Cache δ) (e : Idx) (n : Option Idx) : Cache δ :=
  c.modify e fun x => { x with hashNext := n }

def setLruNext (c : Cache δ) (e : Idx) (n : Option Idx) : Cache δ :=
  c.modify e fun x => { x with lruNext := n }

def setLruPrev (c : Cache δ) (e : Idx) (n : Option Idx) : Cache δ :=
  c.modify e fun x => { x with lruPrev := n }

def setLru (c : Cache δ) (e : Idx) (prev next : Option Idx) : Cache δ :=
  c.modify e fun x => { x with lruPrev := prev, lruNext := next }

def setLruHead (c : Cache δ) (e : Option Idx) : Cache δ := { c with lruHead := e }

def setLruTail (c : Cache δ) (e : Option Idx) : Cache δ := { c with lruTail := e }

def setBucket (c : Cache δ) (b : Nat) (e : Option Idx) : Cache δ :=
  { c with hashTable := update c.hashTable b e }

def setValid (c : Cache δ) (e : Idx) (v : Bool) : Cache δ :=
  c.modify e fun x => { x with valid := v }

def setData (c : Cache δ) (e : Idx) (d : Sector) : Cache δ :=
  c.modify e fun x => { x with data := d }

end Cache

/-! ## The drives -/

def blkcacheDriveIsMem (drive : UInt8) : Bool :=
  decide (memdriveBase ≤ drive) && decide (drive < memdriveBase + 16)

def memdriveReadSector (c : Cache δ) (drive : UInt8) (lba : UInt32) : Except Int Sector :=
  let slot := c.memdrives (drive - memdriveBase).toNat
  let off := lba.toNat * 512
  if !slot.valid then .error (-1)
  else if slot.sizeBytes < off + 512 then .error (-1)
  else .ok fun i => slot.base (off + i)

def blkdevReadSector (ide : Ide δ) (c : Cache δ) (drive : UInt8) (lba : UInt32) :
    Except Int Sector × Cache δ :=
  if blkcacheDriveIsMem drive then (memdriveReadSector c drive lba, c)
  else
    let (r, d) := ide.readSector drive lba c.ide
    (r, { c with ide := d })

/-- Sector after sector from a drive in memory, up to the first that fails. -/
def memdriveReadSectors (c : Cache δ) (drive : UInt8) (lba : UInt32) : Nat → Except Int (Nat → Sector)
  | 0 => .ok fun _ _ => 0
  | n + 1 =>
    match memdriveReadSectors c drive lba n with
    | .error r => .error r
    | .ok buf =>
      match memdriveReadSector c drive (lba + UInt32.ofNat n) with
      | .error _ => .error (-1)
      | .ok d => .ok (update buf n d)

def blkdevReadSectors (ide : Ide δ) (c : Cache δ) (drive : UInt8) (lba : UInt32) (count : UInt8) :
    Except Int (Nat → Sector) × Cache δ :=
  if count = 0 then (.ok fun _ _ => 0, c)
  else if !blkcacheDriveIsMem drive then
    let (r, d) := ide.readSectors drive lba count c.ide
    (r, { c with ide := d })
  else (memdriveReadSectors c drive lba count.toNat, c)

def blkdevWriteSector (ide : Ide δ) (c : Cache δ) (drive : UInt8) (lba : UInt32) (buf : Sector) :
    Except Int Unit × Cache δ :=
  if blkcacheDriveIsMem drive then (.error (-1), c)
  else
    let (r, d) := ide.writeSector drive lba buf c.ide
    (r, { c with ide := d })

def blkdevFlush (ide : Ide δ) (c : Cache δ) (drive : UInt8) : Cache δ :=
  if blkcacheDriveIsMem drive then c else { c with ide := ide.cacheFlush drive c.ide }

/-! ## The list in order of use -/

def lruRemove (c : Cache δ) (e : Idx) : Cache δ :=
  let prev := c.lruPrev e
  let next := c.lruNext e
  let c := match prev with
    | some p => c.setLruNext p next
    | none => c.setLruHead next
  let c := match next with
    | some n => c.setLruPrev n prev
    | none => c.setLruTail prev
  c.setLru e none none

def lruPushFront (c : Cache δ) (e : Idx) : Cache δ :=
  let head := c.lruHead
  let c := c.setLru e none head
  let c := match head with
    | some h => c.setLruPrev h (some e)
    | none => c.setLruTail (some e)
  c.setLruHead (some e)

/-! ## The hash chains -/

def blkcacheHash (drive : UInt8) (lba : UInt32) : Nat :=
  (drive.toUInt32 * 2654435761 + lba).toNat % numBuckets

/-- The bucket an entry's sector belongs to. -/
def bucketOf (c : Cache δ) (e : Idx) : Nat := blkcacheHash (c.entries e).drive (c.entries e).lba

/-- `*pp = e->hash_next`, where `pp` is the link of `prev`, or the bucket's own. -/
def hashUnlink (c : Cache δ) (bucket : Nat) (prev : Option Idx) (e : Idx) : Cache δ :=
  let next := c.hashNext e
  let c := match prev with
    | some p => c.setHashNext p next
    | none => c.setBucket bucket next
  c.setHashNext e none

/-- The walk along a chain to `e`, `prev` being the entry passed last. A chain that
ends has at most `maxEntries` entries, so a walk that is longer never ends. -/
def hashRemoveFrom (c : Cache δ) (e : Idx) (bucket : Nat) : Nat → Option Idx → Option Idx → Option (Cache δ)
  | _, _, none => some c
  | 0, _, some _ => none
  | fuel + 1, prev, some x =>
    if x = e then some (hashUnlink c bucket prev e)
    else hashRemoveFrom c e bucket fuel (some x) (c.hashNext x)

def hashRemove (c : Cache δ) (e : Idx) : Option (Cache δ) :=
  hashRemoveFrom c e (bucketOf c e) maxEntries none (c.hashTable (bucketOf c e))

def hashInsert (c : Cache δ) (e : Idx) : Cache δ :=
  let bucket := bucketOf c e
  (c.setHashNext e (c.hashTable bucket)).setBucket bucket (some e)

def cacheLookupFrom (c : Cache δ) (drive : UInt8) (lba : UInt32) : Nat → Option Idx → Option (Option Idx)
  | _, none => some none
  | 0, some _ => none
  | fuel + 1, some e =>
    if (c.entries e).valid && (c.entries e).drive == drive && (c.entries e).lba == lba then some (some e)
    else cacheLookupFrom c drive lba fuel (c.hashNext e)

/-- The valid entry of a sector. The outer `none` is a walk that never ends. -/
def cacheLookup (c : Cache δ) (drive : UInt8) (lba : UInt32) : Option (Option Idx) :=
  cacheLookupFrom c drive lba maxEntries (c.hashTable (blkcacheHash drive lba))

/-- The entry `e` for a new sector, in its hash chain and at the front of the list. -/
def cacheKey (c : Cache δ) (e : Idx) (drive : UInt8) (lba : UInt32) : Cache δ :=
  let c := c.modify e fun x => { x with drive := drive, lba := lba, valid := true }
  lruPushFront (hashInsert c e) e

/-- The entry `e` taken out of the list, and off its chain if it is valid. -/
def evict (c : Cache δ) (e : Idx) : Option (Cache δ) :=
  let c := lruRemove c e
  if (c.entries e).valid then hashRemove c e else some c

def cacheAlloc (c : Cache δ) (drive : UInt8) (lba : UInt32) : Option (Option Idx × Cache δ) :=
  if c.usedCount < maxEntries then
    let e := c.usedCount
    let c := { c with usedCount := c.usedCount + 1 }.setValid e false
    some (some e, cacheKey c e drive lba)
  else
    match c.lruTail with
    | none => some (none, c)
    | some e => (evict c e).map fun c => (some e, cacheKey c e drive lba)

/-- A hit moves the entry to the front. -/
def lruTouch (c : Cache δ) (e : Idx) : Cache δ := lruPushFront (lruRemove c e) e

/-! ## The calls -/

def blkcacheInit (c : Cache δ) : Cache δ :=
  { c with
    entries := fun _ => ⟨0, 0, fun _ => 0, false, none, none, none⟩
    hashTable := fun _ => none
    memdrives := fun _ => ⟨fun _ => 0, 0, false⟩
    lruHead := none, lruTail := none, usedCount := 0 }

def blkcacheReadSector (ide : Ide δ) (c : Cache δ) (drive : UInt8) (lba : UInt32) :
    Option (Except Int Sector × Cache δ) := do
  match ← cacheLookup c drive lba with
  | some e => pure (.ok (c.entries e).data, lruTouch c e)
  | none =>
    match ← cacheAlloc c drive lba with
    | (none, c) => pure (blkdevReadSector ide c drive lba)
    | (some e, c) =>
      match blkdevReadSector ide c drive lba with
      | (.error r, c) => pure (.error r, c.setValid e false)
      | (.ok d, c) => pure (.ok d, c.setData e d)

/-- Are the sectors from `i` on, `n` in number, all in the cache? -/
def allCached (c : Cache δ) (drive : UInt8) (lba : UInt32) (i : Nat) : Nat → Option Bool
  | 0 => some true
  | n + 1 => do
    match ← cacheLookup c drive (lba + UInt32.ofNat i) with
    | none => pure false
    | some _ => allCached c drive lba (i + 1) n

/-- The loop that serves a request from the cache. -/
def readCached (ide : Ide δ) (drive : UInt8) (lba : UInt32) (buf : Nat → Sector) (i : Nat) :
    Nat → Cache δ → Option ((Nat → Sector) × Cache δ)
  | 0, c => some (buf, c)
  | n + 1, c => do
    let (r, c) ← blkcacheReadSector ide c drive (lba + UInt32.ofNat i)
    let buf := match r with
      | .ok d => update buf i d
      | .error _ => buf
    readCached ide drive lba buf (i + 1) n c

/-- The body of the loop that enters what was read. -/
def populateSector (c : Cache δ) (drive : UInt8) (lba : UInt32) (d : Sector) : Option (Cache δ) := do
  match ← cacheLookup c drive lba with
  | some e => pure (lruTouch (c.setData e d) e)
  | none =>
    match ← cacheAlloc c drive lba with
    | (some e, c) => pure (c.setData e d)
    | (none, c) => pure c

def populate (drive : UInt8) (lba : UInt32) (buf : Nat → Sector) (i : Nat) :
    Nat → Cache δ → Option (Cache δ)
  | 0, c => some c
  | n + 1, c => do
    let c ← populateSector c drive (lba + UInt32.ofNat i) (buf i)
    populate drive lba buf (i + 1) n c

/-- `blkcache_read_sectors` up to the loop that enters what was read: the sectors,
and whether they are still to be entered. -/
def readSectorsStart (ide : Ide δ) (c : Cache δ) (drive : UInt8) (lba : UInt32) (count : UInt8) :
    Option (Except Int (Nat → Sector) × Bool × Cache δ) :=
  if count = 0 then some (.ok fun _ _ => 0, false, c)
  else if count = 1 then do
    let (r, c) ← blkcacheReadSector ide c drive lba
    pure (r.map fun d _ => d, false, c)
  else do
    if ← allCached c drive lba 0 count.toNat then
      let (buf, c) ← readCached ide drive lba (fun _ _ => 0) 0 count.toNat c
      pure (.ok buf, false, c)
    else
      match blkdevReadSectors ide c drive lba count with
      | (.error r, c) => pure (.error r, false, c)
      | (.ok buf, c) => pure (.ok buf, true, c)

def blkcacheReadSectors (ide : Ide δ) (c : Cache δ) (drive : UInt8) (lba : UInt32) (count : UInt8) :
    Option (Except Int (Nat → Sector) × Cache δ) := do
  match ← readSectorsStart ide c drive lba count with
  | (.ok buf, true, c) =>
    let c ← populate drive lba buf 0 count.toNat c
    pure (.ok buf, c)
  | (r, _, c) => pure (r, c)

def blkcacheWriteSector (ide : Ide δ) (c : Cache δ) (drive : UInt8) (lba : UInt32) (buf : Sector) :
    Option (Except Int Unit × Cache δ) :=
  match blkdevWriteSector ide c drive lba buf with
  | (.error r, c) => some (.error r, c)
  | (.ok _, c) => do
    let c ← populateSector c drive lba buf
    pure (.ok (), c)

/-- The body of the loop of `blkcache_invalidate`. -/
def invalidateEntry (c : Cache δ) (drive : UInt8) (i : Idx) : Option (Cache δ) :=
  if (c.entries i).valid && (c.entries i).drive == drive then
    (hashRemove c i).map fun c => c.setValid i false
  else some c

/-- The loop from entry `i` on, over `n` entries. -/
def invalidateFrom (drive : UInt8) (i : Nat) : Nat → Cache δ → Option (Cache δ)
  | 0, c => some c
  | n + 1, c => do
    let c ← invalidateEntry c drive i
    invalidateFrom drive (i + 1) n c

def blkcacheInvalidate (c : Cache δ) (drive : UInt8) : Option (Cache δ) :=
  invalidateFrom drive 0 c.usedCount c

def blkcacheFlush (ide : Ide δ) (c : Cache δ) (drive : UInt8) : Cache δ := blkdevFlush ide c drive

def blkcacheRegisterMemdrive (c : Cache δ) (slot : UInt8) (base : Option (Nat → UInt8))
    (sizeBytes : Nat) : Option (Except Int Unit × Cache δ) :=
  match base with
  | none => some (.error (-1), c)
  | some base =>
    if 16 ≤ slot ∨ sizeBytes < 512 then some (.error (-1), c)
    else do
      let c := { c with memdrives := update c.memdrives slot.toNat ⟨base, sizeBytes, true⟩ }
      let c ← blkcacheInvalidate c (memdriveBase + slot)
      pure (.ok (), c)

end Serotonin.BlkCache
