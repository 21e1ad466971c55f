import Serotonin.Fat32.Image

/-! The partition that a boot sector describes, and the clusters in it. -/

namespace Serotonin.Fat32

open ByteMem (Mem u32 u32_of_lt load16 load32 store8 store16 store32 blit)

/-- The geometry by the boot sector of the partition from `start` on. -/
def fat32ParseBpb (start : Nat) (boot : Mem) (readOnly : Bool) : Geometry where
  bytesPerSector := load16 boot 11
  sectorsPerCluster := (boot 13).toNat
  tableCount := (boot 16).toNat
  fatSize := load32 boot 36
  rootCluster := load32 boot 44
  fatStartLba := u32 (start + load16 boot 14)
  clusterHeapStartLba := u32 (u32 (start + load16 boot 14) + u32 ((boot 16).toNat * load32 boot 36))
  readOnly := readOnly

/-- `total_sectors_32`, which the driver does not read. -/
def totalSectors (boot : Mem) : Nat := load32 boot 32

/-- The reserved sectors and those of the FATs. -/
def systemSectors (boot : Mem) : Nat := load16 boot 14 + (boot 16).toNat * load32 boot 36

/-- The clusters that fit behind them. -/
def clusterCount (boot : Mem) : Nat := (totalSectors boot - systemSectors boot) / (boot 13).toNat

/-- A boot sector of FAT32 for the partition from `start` on. -/
structure ValidBoot (start : Nat) (boot : Mem) : Prop where
  sectorSize : load16 boot 11 = 512
  clusterSize : ∃ k, k < 8 ∧ (boot 13).toNat = 2 ^ k
  reserved : 0 < load16 boot 14
  tables : 0 < (boot 16).toNat
  rootEntries : load16 boot 17 = 0
  oldFields : load16 boot 19 = 0 ∧ load16 boot 22 = 0
  system : systemSectors boot ≤ totalSectors boot
  clusters : 65525 ≤ clusterCount boot ∧ clusterCount boot + 2 ≤ 0x0FFFFFF7
  table : clusterCount boot + 2 ≤ load32 boot 36 * 128
  sectors : start + totalSectors boot ≤ 2 ^ 32

variable (start : Nat) (boot : Mem)

def InPartition (lba : Nat) : Prop := start ≤ lba ∧ lba < start + totalSectors boot

/-- The sectors that the number of a cluster stands for are in the partition. -/
def ClusterInside (c : Nat) : Prop :=
  ∀ i, i < (boot 13).toNat → InPartition start boot (start + systemSectors boot + (c - 2) * (boot 13).toNat + i)

/-- The next allocation gives a cluster of the partition, and a write to the cluster changes no byte
behind the partition or before it. -/
def AllocatesInside (readOnly : Bool) (v : Volume) : Prop :=
  let g := fat32ParseBpb start boot readOnly
  ∀ c t, Prog.run onImage (fat32AllocateCluster g) v = .ok (c, t) → c ≠ 0 →
    ClusterInside start boot c ∧
      ∀ buf w, Prog.run onImage (fat32WriteCluster g c buf) t = .ok ((), w) →
        ∀ x, ¬InPartition start boot (x / 512) → w.disk x = t.disk x

variable {start boot} {v : Volume} {readOnly : Bool}

namespace ValidBoot

variable (hv : ValidBoot start boot)

include hv

theorem spc_pos : 0 < (boot 13).toNat := by
  obtain ⟨k, -, h⟩ := hv.clusterSize
  rw [h]
  exact Nat.pow_pos (by decide)

theorem system_lt : systemSectors boot < totalSectors boot := by
  have hmul := Nat.div_mul_le_self (totalSectors boot - systemSectors boot) (boot 13).toNat
  have hle := Nat.le_mul_of_pos_right (clusterCount boot) hv.spc_pos
  have hmany := hv.clusters.1
  simp only [clusterCount] at hle hmany
  omega

/-- No sum of `fat32_parse_bpb` wraps. -/
theorem heap : (fat32ParseBpb start boot readOnly).clusterHeapStartLba = start + systemSectors boot := by
  have hlt := hv.system_lt
  have hle := hv.sectors
  simp only [fat32ParseBpb]
  simp only [systemSectors] at hlt ⊢
  rw [u32_of_lt (n := start + _) (by omega), u32_of_lt (n := _ * _) (by omega), u32_of_lt (by omega)]
  omega

/-- The clusters of the partition are the first ones. -/
theorem clusterInside_iff {c : Nat} (hc : 2 ≤ c) : ClusterInside start boot c ↔ c < 2 + clusterCount boot := by
  have hpos := hv.spc_pos
  have hsys := hv.system
  have hlast : c < 2 + clusterCount boot ↔ (c - 2 + 1) * (boot 13).toNat ≤ totalSectors boot - systemSectors boot := by
    rw [← Nat.le_div_iff_mul_le hpos]
    unfold clusterCount
    omega
  rw [hlast, Nat.add_one_mul]
  constructor
  · intro hin
    have hend := (hin ((boot 13).toNat - 1) (by omega)).2
    omega
  · intro hle i hi
    exact ⟨by omega, by omega⟩

/-- The sectors that a write to such a cluster reaches. -/
theorem sector {c i : Nat} (hin : ClusterInside start boot c) (hi : i < (boot 13).toNat) :
    InPartition start boot (u32 (firstSector (fat32ParseBpb start boot readOnly) c + i)) := by
  obtain ⟨hlo, hhi⟩ := hin i hi
  have hle := hv.sectors
  have hfirst : firstSector (fat32ParseBpb start boot readOnly) c = start + systemSectors boot + (c - 2) * (boot 13).toNat := by
    unfold firstSector
    rw [hv.heap]
    exact u32_of_lt (by change _ + (c - 2) * (boot 13).toNat < _; omega)
  rw [hfirst, u32_of_lt (by omega)]
  exact ⟨hlo, hhi⟩

end ValidBoot

theorem writtenSectors_outside {g : Geometry} {disk buf : Mem} {first x : Nat} : ∀ {n : Nat},
    (∀ i, i < n → InPartition start boot (u32 (first + i))) → ¬InPartition start boot (x / 512) →
      writtenSectors g disk first buf n x = disk x
  | 0, _, _ => rfl
  | n + 1, hin, hx => by
    have hne : x / 512 ≠ u32 (first + n) := fun heq => hx (heq ▸ hin n (Nat.lt_succ_self n))
    rw [writtenSectors, blit, if_neg (by omega)]
    exact writtenSectors_outside (fun i hi => hin i (Nat.lt_succ_of_lt hi)) hx

theorem write_outside {c x : Nat} {buf : Mem} (hv : ValidBoot start boot) (hin : ClusterInside start boot c)
    (hx : ¬InPartition start boot (x / 512)) :
    (v.write (fat32ParseBpb start boot readOnly) c buf).disk x = v.disk x := by
  unfold Volume.write
  split
  · exact writtenSectors_outside (fun i hi => hv.sector hin hi) hx
  · rfl

/-- An entry that an allocation looks at, and finds free. -/
def IsFree (boot : Mem) (v : Volume) (d : Nat) : Prop :=
  2 ≤ d ∧ d < (fat32ParseBpb 0 boot false).total ∧ v.fat d = 0

theorem free_spec {d : Nat} (h : v.free (fat32ParseBpb start boot readOnly) = some d) :
    IsFree boot v d ∧ ∀ e, IsFree boot v e → d ≤ e := by
  obtain ⟨hlo, hhi, hzero, hfirst⟩ := firstFree_spec h
  change d < 2 + ((fat32ParseBpb 0 boot false).total - 2) at hhi
  refine ⟨⟨hlo, by omega, hzero⟩, fun e he => ?_⟩
  by_contra hlt
  exact hfirst e he.1 (by omega) he.2.2

theorem free_exists {e : Nat} (he : IsFree boot v e) : ∃ d, v.free (fat32ParseBpb start boot readOnly) = some d := by
  cases hfree : v.free (fat32ParseBpb start boot readOnly) with
  | some d => exact ⟨d, rfl⟩
  | none =>
    obtain ⟨hlo, hhi, hzero⟩ := he
    refine absurd hzero (firstFree_eq_none.mp hfree e hlo ?_)
    change e < 2 + ((fat32ParseBpb 0 boot false).total - 2)
    omega

/-- 70000 sectors, of which 32 are reserved and 1200 hold the two FATs. -/
def roomyBoot : Mem :=
  let boot := store8 (store16 (store8 (store16 (fun _ => 0) 11 512) 13 1) 14 32) 16 2
  store32 (store32 (store32 boot 32 70000) 36 600) 44 2

theorem roomyBoot_valid : ValidBoot 2048 roomyBoot where
  sectorSize := by decide +kernel
  clusterSize := ⟨0, by decide, by decide +kernel⟩
  reserved := by decide +kernel
  tables := by decide +kernel
  rootEntries := by decide +kernel
  oldFields := by decide +kernel
  system := by decide +kernel
  clusters := by decide +kernel
  table := by decide +kernel
  sectors := by decide +kernel

/-- Every cluster from 2 up to `last` is in use. -/
def usedUpTo (last : Nat) : Volume where
  fat d := if d ≤ last then fat32ClusterEnd else 0
  disk _ := 0

theorem isFree_usedUpTo {last d : Nat} :
    IsFree roomyBoot (usedUpTo last) d ↔ 2 ≤ d ∧ d < 76800 ∧ last < d := by
  have htotal : (fat32ParseBpb 0 roomyBoot false).total = 76800 := by decide +kernel
  unfold IsFree usedUpTo
  rw [htotal]
  by_cases hle : d ≤ last
  · simp [hle, fat32ClusterEnd]
  · simp [hle]
    omega

end Serotonin.Fat32
