import Serotonin.Fat32.LongNames

/-! Any content of a device: an entry of the FAT for every number, and every sector. Nothing is
assumed of either, and a number behind the FAT has an entry, too: what the memory behind the window
is read as. -/

namespace Serotonin.Fat32

open ByteMem (Mem blit fill)

variable (g : Geometry)

/-- The calls on an image. -/
def onImage : Prog.Handler Ret Stop Volume
  | .readFatEntry cluster, v => .ok (v.fat cluster, v)
  | .writeFatEntry cluster value, v => .ok ((), { v with fat := Function.update v.fat cluster (entryValue value) })
  | .flushFatCache, v => .ok ((), v)
  | .readSectors lba _, v => .ok (fun x => v.disk (lba * 512 + x), v)
  | .writeSector lba buf, v => .ok ((), { v with disk := blit v.disk (lba * 512) buf 0 512 })
  | .flush, v => .ok ((), v)

/-- The buffer that `fat32_read_cluster` fills. -/
def Volume.read (v : Volume) (c : Nat) (buf : Mem) : Mem :=
  if IsCluster c then blit buf 0 (fun x => v.disk (firstSector g c * 512 + x)) 0 (g.sectorsPerCluster * 512)
  else fill buf 0 0 g.clusterSize

/-- The bytes that a scan looks at. -/
def Volume.look (v : Volume) (c : Nat) : Mem := v.read g c fun _ => 0

/-- The disk after `fat32_write_cluster`, over the first `n` sectors. -/
def writtenSectors (disk : Mem) (first : Nat) (buf : Mem) : Nat → Mem
  | 0 => disk
  | n + 1 => blit (writtenSectors disk first buf n) (ByteMem.u32 (first + n) * 512) (fun x => buf (n * g.bytesPerSector + x)) 0 512

def Volume.write (v : Volume) (c : Nat) (buf : Mem) : Volume :=
  if IsCluster c then { v with disk := writtenSectors g v.disk (firstSector g c) buf g.sectorsPerCluster } else v

def Volume.setFat (v : Volume) (c value : Nat) : Volume := { v with fat := Function.update v.fat c (entryValue value) }

@[simp] theorem write_fat (v : Volume) (c : Nat) (buf : Mem) : (v.write g c buf).fat = v.fat := by
  unfold Volume.write
  split <;> rfl

variable {g} {v : Volume}

section Runs

@[simp] theorem image_readFatEntry (c : Nat) : Prog.run onImage (readFatEntry c) v = .ok (v.fat c, v) := rfl

@[simp] theorem image_writeFatEntry (c value : Nat) :
    Prog.run onImage (writeFatEntry c value) v = .ok ((), v.setFat c value) := rfl

@[simp] theorem image_readCluster (c : Nat) (buf : Mem) :
    Prog.run onImage (fat32ReadCluster g c buf) v = .ok (v.read g c buf, v) := by
  unfold fat32ReadCluster Volume.read
  split <;> rfl

theorem image_writeSectors (first : Nat) (buf : Mem) : ∀ n, Prog.run onImage (writeSectors g first buf n) v =
    .ok ((), { v with disk := writtenSectors g v.disk first buf n })
  | 0 => rfl
  | n + 1 => by
    rw [writeSectors, Prog.run_bind_ok (image_writeSectors first buf n)]
    rfl

@[simp] theorem image_writeCluster (c : Nat) (buf : Mem) :
    Prog.run onImage (fat32WriteCluster g c buf) v = .ok ((), v.write g c buf) := by
  unfold fat32WriteCluster Volume.write
  split
  · exact image_writeSectors _ _ _
  · rfl

end Runs

/-! ## Free clusters -/

/-- The first free entry of the FAT from `c` on, among `n`. -/
def firstFree (fat : Nat → Nat) (c : Nat) : Nat → Option Nat
  | 0 => none
  | n + 1 => if fat c = 0 then some c else firstFree fat (c + 1) n

/-- The cluster that is allocated next. -/
def Volume.free (g : Geometry) (v : Volume) : Option Nat := firstFree v.fat 2 (g.total - 2)

theorem firstFree_spec {fat : Nat → Nat} : ∀ {n c d : Nat}, firstFree fat c n = some d →
    c ≤ d ∧ d < c + n ∧ fat d = 0 ∧ ∀ e, c ≤ e → e < d → fat e ≠ 0
  | n + 1, c, d, h => by
    unfold firstFree at h
    split at h
    · cases h
      exact ⟨Nat.le_refl _, by omega, ‹_›, fun e h1 h2 => absurd h1 (Nat.not_le.mpr h2)⟩
    · next hne =>
      obtain ⟨h1, h2, h3, h4⟩ := firstFree_spec h
      refine ⟨by omega, by omega, h3, fun e he hlt => ?_⟩
      rcases Nat.eq_or_lt_of_le he with rfl | he
      · exact hne
      · exact h4 e he hlt

theorem firstFree_eq_none {fat : Nat → Nat} : ∀ {n c : Nat}, firstFree fat c n = none ↔ ∀ e, c ≤ e → e < c + n → fat e ≠ 0
  | 0, c => by
    refine ⟨fun _ e h1 h2 => absurd h2 (by omega), fun _ => rfl⟩
  | n + 1, c => by
    unfold firstFree
    split
    · next h0 => simpa using ⟨c, Nat.le_refl _, by omega, h0⟩
    · next hne =>
      rw [firstFree_eq_none]
      constructor
      · intro h e he hlt
        rcases Nat.eq_or_lt_of_le he with rfl | he
        · exact hne
        · exact h e he (by omega)
      · intro h e he hlt
        exact h e (by omega) (by omega)

/-- The volume once the next free cluster is allocated. -/
def Volume.afterAllocate (g : Geometry) (v : Volume) : Volume :=
  match v.free g with
  | some c => v.setFat c fat32ClusterEnd
  | none => v

theorem image_allocateFrom : ∀ n c, 0 < c → Prog.run onImage (allocateFrom c n) v =
    .ok ((firstFree v.fat c n).getD 0, match firstFree v.fat c n with
      | some d => v.setFat d fat32ClusterEnd
      | none => v)
  | 0, _, _ => rfl
  | n + 1, c, hc => by
    rw [allocateFrom, Prog.run_bind_ok (image_readFatEntry c), firstFree]
    by_cases h0 : v.fat c = 0
    · rw [if_pos h0, if_pos h0]
      rfl
    · rw [if_neg h0, if_neg h0]
      exact image_allocateFrom n (c + 1) (Nat.succ_pos c)

@[simp] theorem image_allocateCluster :
    Prog.run onImage (fat32AllocateCluster g) v = .ok ((v.free g).getD 0, v.afterAllocate g) :=
  image_allocateFrom _ 2 (by decide)

end Serotonin.Fat32
