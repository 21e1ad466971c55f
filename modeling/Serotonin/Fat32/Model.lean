import Serotonin.Lib.ByteMem
import Serotonin.Lib.Prog

/-! The volume under `kernel/filesystem/fat32/fat32.c`: sectors on a device, and the window
of the FAT that the driver keeps in memory. The operations of the driver are programs over
six calls; here is what the calls do, sector by sector. -/

namespace Serotonin.Fat32

open ByteMem (Mem u32 load32 store32 blit fill)

def fat32ClusterEnd : Nat := 0x0FFFFFF8

/-- What `fat32_parse_bpb` reads from the boot sector. -/
structure Geometry where
  bytesPerSector : Nat
  sectorsPerCluster : Nat
  tableCount : Nat
  fatSize : Nat
  rootCluster : Nat
  fatStartLba : Nat
  clusterHeapStartLba : Nat
  readOnly : Bool

namespace Geometry

def clusterSize (g : Geometry) : Nat := g.bytesPerSector * g.sectorsPerCluster

/-- Directory entries in a cluster. -/
def perCluster (g : Geometry) : Nat := g.clusterSize / 32

/-- Entries of the FAT. -/
def total (g : Geometry) : Nat := u32 (g.fatSize * g.bytesPerSector) / 4

/-- The volume is one that fits its numbers, in sectors of the device. -/
structure Valid (g : Geometry) : Prop where
  bytesPerSector : g.bytesPerSector = 512
  sectorsPerCluster : 0 < g.sectorsPerCluster ∧ g.sectorsPerCluster < 256
  tableCount : 0 < g.tableCount
  fatSize : 0 < g.fatSize
  clusterHeap : g.clusterHeapStartLba = g.fatStartLba + g.tableCount * g.fatSize
  clusters : g.fatSize * 128 ≤ fat32ClusterEnd
  sectors : g.clusterHeapStartLba + g.fatSize * 128 * g.sectorsPerCluster ≤ 2 ^ 32

end Geometry

/-- The FAT window in memory. -/
structure FatCache where
  bytes : Mem
  start : Nat
  sectors : Nat
  dirty : Bool

/-- A mounted volume: the bytes of the device, and `fat_cache` if there was memory for it. -/
structure Fs where
  disk : Mem
  fatCache : Option FatCache

/-- A run that ends nowhere: an access outside a buffer or an array, a loop without end.
`lost` is for abstractions of the device only. -/
inductive Stop where
  | outOfBounds
  | overrun
  | diverges
  | lost
deriving DecidableEq

/-- The calls of the driver's operations. -/
inductive Op where
  | readFatEntry (cluster : Nat)
  | writeFatEntry (cluster value : Nat)
  | flushFatCache
  | readSectors (lba count : Nat)
  | writeSector (lba : Nat) (buf : Mem)
  | flush

def Ret : Op → Type
  | .readFatEntry _ => Nat
  | .readSectors _ _ => Mem
  | _ => Unit

abbrev FatM := Prog Ret Stop

/-! ## The FAT window -/

variable (g : Geometry)

/-- `n` sectors of the window written from the sector `base` on. -/
def writeWindow (disk : Mem) (base : Nat) (bytes : Mem) : Nat → Mem
  | 0 => disk
  | n + 1 => blit (writeWindow disk base bytes n) ((base + n) * 512) bytes (n * g.bytesPerSector) 512

/-- The window written to the first `n` copies of the FAT. -/
def writeCopies (disk : Mem) (w : FatCache) : Nat → Mem
  | 0 => disk
  | n + 1 => writeWindow g (writeCopies disk w n) (g.fatStartLba + n * g.fatSize + w.start) w.bytes w.sectors

def fat32FlushFatCache (s : Fs) : Fs :=
  match s.fatCache with
  | none => s
  | some w =>
    if w.dirty then { disk := writeCopies g s.disk w g.tableCount, fatCache := some { w with dirty := false } }
    else s

def sectorInFat (cluster : Nat) : Nat := u32 (cluster * 4) / g.bytesPerSector

def offsetInSector (cluster : Nat) : Nat := u32 (cluster * 4) % g.bytesPerSector

def FatCache.Has (w : FatCache) (sector : Nat) : Prop := w.start ≤ sector ∧ sector < w.start + w.sectors

instance (w : FatCache) (sector : Nat) : Decidable (w.Has sector) := inferInstanceAs (Decidable (_ ∧ _))

/-- Where the window goes for a sector that it does not have. -/
def newStart (sectors sector : Nat) : Nat :=
  let start := if sectors / 2 ≤ sector then sector - sectors / 2 else 0
  if g.fatSize < start + sectors then g.fatSize - sectors else start

/-- The window, moved so that it has the sector. -/
def reload (s : Fs) (w : FatCache) (sector : Nat) : Fs :=
  let s := if w.dirty then fat32FlushFatCache g s else s
  let start := newStart g w.sectors sector
  { s with
    fatCache := some
      { bytes := blit w.bytes 0 s.disk ((g.fatStartLba + start) * 512) (w.sectors * 512)
        start := start
        sectors := w.sectors
        dirty := false } }

/-- Where the entry of a cluster lies in the window. -/
def FatCache.offset (w : FatCache) (cluster : Nat) : Nat :=
  (sectorInFat g cluster - w.start) * g.bytesPerSector + offsetInSector g cluster

/-- An entry without its upper 4 bits. -/
def entryValue (word : Nat) : Nat := word % 2 ^ 28

def fat32ReadFatEntry (s : Fs) (cluster : Nat) : Except Stop (Nat × Fs) :=
  match s.fatCache with
  | none =>
    .ok (entryValue (load32 s.disk ((g.fatStartLba + sectorInFat g cluster) * 512 + offsetInSector g cluster)), s)
  | some w =>
    if w.Has (sectorInFat g cluster) then .ok (entryValue (load32 w.bytes (w.offset g cluster)), s)
    else
      let s := reload g s w (sectorInFat g cluster)
      match s.fatCache with
      | none => .error .outOfBounds
      | some w =>
        -- past the end of the FAT the window ends before the entry
        if w.offset g cluster + 4 ≤ w.sectors * 512 then .ok (entryValue (load32 w.bytes (w.offset g cluster)), s)
        else .error .outOfBounds

/-- The entry written in the first `n` copies on the device. -/
def writeEntryCopies (disk : Mem) (cluster value : Nat) : Nat → Mem
  | 0 => disk
  | n + 1 =>
    store32 (writeEntryCopies disk cluster value n)
      ((g.fatStartLba + n * g.fatSize + sectorInFat g cluster) * 512 + offsetInSector g cluster) value

/-- The entry set in the window. -/
def setInWindow (s : Fs) (w : FatCache) (cluster value : Nat) : Fs :=
  { s with fatCache := some { w with bytes := store32 w.bytes (w.offset g cluster) value, dirty := true } }

def fat32WriteFatEntry (s : Fs) (cluster value : Nat) : Except Stop (Unit × Fs) :=
  let value := entryValue value
  match s.fatCache with
  | none => .ok ((), { s with disk := writeEntryCopies g s.disk cluster value g.tableCount })
  | some w =>
    if w.Has (sectorInFat g cluster) then .ok ((), setInWindow g s w cluster value)
    else
      match fat32ReadFatEntry g s cluster with
      | .error e => .error e
      | .ok (_, s) =>
        match s.fatCache with
        | some w =>
          if w.Has (sectorInFat g cluster) then .ok ((), setInWindow g s w cluster value)
          else .ok ((), { s with disk := writeEntryCopies g s.disk cluster value g.tableCount })
        | none => .ok ((), { s with disk := writeEntryCopies g s.disk cluster value g.tableCount })

/-- The calls on a device whose accesses succeed. -/
def onDisk : Prog.Handler Ret Stop Fs
  | .readFatEntry cluster, s => fat32ReadFatEntry g s cluster
  | .writeFatEntry cluster value, s => fat32WriteFatEntry g s cluster value
  | .flushFatCache, s => .ok ((), fat32FlushFatCache g s)
  | .readSectors lba _, s => .ok (fun x => s.disk (lba * 512 + x), s)
  | .writeSector lba buf, s => .ok ((), { s with disk := blit s.disk (lba * 512) buf 0 512 })
  | .flush, s => .ok ((), s)

/-- `fat32_mount`, once the boot sector is read. -/
def fat32Mount (disk : Mem) (allocated : Bool) : Fs where
  disk := disk
  fatCache :=
    if allocated then
      let sectors := min g.fatSize 64
      some { bytes := blit (fun _ => 0) 0 disk (g.fatStartLba * 512) (sectors * 512), start := 0, sectors := sectors,
             dirty := false }
    else none

/-! ## Clusters -/

def readFatEntry (cluster : Nat) : FatM Nat := .perform (Op.readFatEntry cluster)

def writeFatEntry (cluster value : Nat) : FatM Unit := .perform (Op.writeFatEntry cluster value)

def flushFatCache : FatM Unit := .perform Op.flushFatCache

def blkcacheReadSectors (lba count : Nat) : FatM Mem := .perform (Op.readSectors lba count)

def blkcacheWriteSector (lba : Nat) (buf : Mem) : FatM Unit := .perform (Op.writeSector lba buf)

def blkcacheFlush : FatM Unit := .perform Op.flush

def firstSector (cluster : Nat) : Nat := u32 (g.clusterHeapStartLba + (cluster - 2) * g.sectorsPerCluster)

/-- Is the cluster number one of those that have data? -/
def IsCluster (cluster : Nat) : Prop := 2 ≤ cluster ∧ cluster < fat32ClusterEnd

instance (cluster : Nat) : Decidable (IsCluster cluster) := inferInstanceAs (Decidable (_ ∧ _))

/-- The buffer as `fat32_read_cluster` leaves it. -/
def fat32ReadCluster (cluster : Nat) (buffer : Mem) : FatM Mem :=
  if IsCluster cluster then do
    let data ← blkcacheReadSectors (firstSector g cluster) g.sectorsPerCluster
    return blit buffer 0 data 0 (g.sectorsPerCluster * 512)
  else return fill buffer 0 0 g.clusterSize

/-- The first `n` sectors of a cluster written. -/
def writeSectors (first : Nat) (buffer : Mem) : Nat → FatM Unit
  | 0 => return ()
  | n + 1 => do
    writeSectors first buffer n
    blkcacheWriteSector (u32 (first + n)) fun x => buffer (n * g.bytesPerSector + x)

def fat32WriteCluster (cluster : Nat) (buffer : Mem) : FatM Unit :=
  if IsCluster cluster then writeSectors g (firstSector g cluster) buffer g.sectorsPerCluster else return ()

/-- The scan of `fat32_allocate_cluster` from `cluster` on, over `n` entries. -/
def allocateFrom (cluster : Nat) : Nat → FatM Nat
  | 0 => return 0
  | n + 1 => do
    if (← readFatEntry cluster) = 0 then
      writeFatEntry cluster fat32ClusterEnd
      return cluster
    else allocateFrom (cluster + 1) n

/-- The first free cluster, marked as the end of a chain; 0 if there is none. -/
def fat32AllocateCluster : FatM Nat := allocateFrom 2 (g.total - 2)

end Serotonin.Fat32
