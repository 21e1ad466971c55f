import Serotonin.Fat32.Refine
import Serotonin.Tmpfs.Data

/-! The ends of what a read and a write may reach, on tmpfs and on FAT32: the end of the file, and
that of the 32 bits in which offset and size are added. -/

namespace Serotonin.Files.Ranges

open ByteMem (u32 u32_of_lt)
open Padded (slice patch length_patch slice_write)
open Tmpfs.Data (Call File Holds Stop tmpfsRead tmpfsWrite load newBlock newBlock_eq moved_eq kernelHeapSize)

/-! ## tmpfs -/

/-- What a read is to give: the bytes from the offset on, as many as are asked for and the file has. -/
def ReadExact (f : File) (xs : List UInt8) (offset size : Nat) : Prop :=
  tmpfsRead f offset size = .ok ((min size (xs.length - offset) : Nat), slice xs offset size)

/-- What a write is to do: it fails, or the file is as long as it has to be and has the data at the offset. -/
def WriteSound (room : Bool) (f : File) (offset : Nat) (new : List UInt8) : Prop :=
  ∃ r f', tmpfsWrite room f offset new = .ok (r, f') ∧
    (r < 0 ∨ (offset + new.length ≤ f'.size ∧ slice f'.bytes offset new.length = new))

variable {f : File} {xs new : List UInt8} {offset size : Nat} {room : Bool}

/-- Where the sum wraps it is below the size, and the read is not cut off there. -/
theorem read_wraps (h : Holds f xs) (hin : offset < xs.length) (hsize : size < 2 ^ 32) (hsum : 2 ^ 32 ≤ offset + size) :
    tmpfsRead f offset size = .error .outOfBlock := by
  have hheap : xs.length < 2 ^ 32 := Nat.lt_of_le_of_lt h.inHeap (by decide)
  have hwrapped : u32 (offset + size) = offset + size - 2 ^ 32 := by
    unfold u32
    omega
  unfold tmpfsRead
  rw [if_neg h.file, h.size, h.bytes, if_neg (Nat.not_le.mpr hin), hwrapped, if_neg (by omega)]
  dsimp only
  have hload : load xs offset size = .error .outOfBlock := if_neg (by omega)
  rw [hload]
  rfl

theorem readExact_iff (h : Holds f xs) (hsize : size < 2 ^ 32) :
    ReadExact f xs offset size ↔ xs.length ≤ offset ∨ offset + size < 2 ^ 32 := by
  unfold ReadExact
  by_cases hsum : offset + size < 2 ^ 32
  · exact ⟨fun _ => .inr hsum, fun _ => h.read hsum⟩
  by_cases hend : xs.length ≤ offset
  · refine ⟨fun _ => .inl hend, fun _ => ?_⟩
    have hnone : xs.length - offset = 0 := by omega
    unfold tmpfsRead
    rw [if_neg h.file, h.size, if_pos hend]
    simp [hnone, slice, List.drop_eq_nil_of_le hend]
  · rw [read_wraps h (Nat.lt_of_not_le hend) hsize (Nat.le_of_not_lt hsum)]
    exact ⟨fun h => absurd h (by simp), fun hor => absurd hor (by omega)⟩

/-- Bytes for which the block has no place. -/
theorem store_outside (hnew : new ≠ []) (hout : f.bytes.length < offset + new.length) : f.store offset new = .error .outOfBlock :=
  if_neg fun hor => hor.elim hnew (Nat.not_le.mpr hout)

/-- A write whose sum wraps leaves the block, which is at most as long as the heap. -/
theorem write_wraps (h : Holds f xs) (hoffset : offset < 2 ^ 32) (hlen : new.length < 2 ^ 32) (hsum : 2 ^ 32 ≤ offset + new.length) :
    tmpfsWrite room f offset new = .error .outOfBlock := by
  have hheap : kernelHeapSize < 2 ^ 32 := by decide
  have hsome : new ≠ [] := by
    rintro rfl
    simp only [List.length_nil] at hsum
    omega
  unfold tmpfsWrite
  rw [if_neg h.file]
  dsimp only
  split
  · next hgrows =>
    cases hblock : newBlock room (u32 (offset + new.length)) with
    | none => rfl
    | some block =>
      obtain ⟨hfits, heq⟩ := newBlock_eq (fun hnone => Option.some_ne_none block (hblock.symm.trans hnone))
      have hbytes : f.bytes.take f.size = xs := by rw [h.bytes, h.size, List.take_length]
      rw [h.size] at hgrows
      cases heq.symm.trans hblock
      dsimp only
      rw [moved_eq (Nat.le_of_eq (by rw [h.size, h.bytes])), hbytes]
      simp only [bind, Except.bind, pure, Except.pure]
      rw [store_outside hsome]
      show (patch _ 0 xs).length < _
      rw [length_patch (by rw [List.length_replicate]; omega), List.length_replicate]
      omega
  · have hin := h.inHeap
    simp only [bind, Except.bind, pure, Except.pure]
    rw [store_outside hsome (by rw [h.bytes]; omega)]

theorem writeSound_iff (h : Holds f xs) (hoffset : offset < 2 ^ 32) (hlen : new.length < 2 ^ 32) :
    WriteSound room f offset new ↔ (Call.write offset new room).Fits f := by
  constructor
  · rintro ⟨r, f', hrun, -⟩
    have hsum : offset + new.length < 2 ^ 32 := by
      refine Nat.lt_of_not_le fun hwraps => ?_
      rw [write_wraps h hoffset hlen hwraps] at hrun
      cases hrun
    refine ⟨hsum, fun hgrows hnone => ?_⟩
    unfold tmpfsWrite at hrun
    rw [if_neg h.file, u32_of_lt hsum] at hrun
    dsimp only at hrun
    rw [if_pos hgrows, hnone] at hrun
    cases hrun
  · intro hfits
    obtain ⟨f', hrun, h'⟩ := h.write hfits
    refine ⟨_, f', hrun, .inr ⟨?_, ?_⟩⟩
    · rw [h'.size, Padded.length_write]
      exact Nat.le_max_right _ _
    · rw [h'.bytes, slice_write]

/-! ## Both file systems -/

open Fat32 (Geometry Volume Node FileOn Chain entryScan oneSector oneSector_valid fullVolume
  fullVolume_chain fullVolume_room
  fiveOnDisk fiveOnDisk_fileOn)

/-- A read gives exactly what the file has of it, and a write fails or leaves the file long enough and
with the data: on tmpfs, as long as the sum of offset and size does not wrap and the heap has a block;
on FAT32, as long as the sum does not wrap, the clusters of the file, or those that it may get, go as far,
and the numbers of bytes are those of an `int`. -/
theorem ranges_iff {g : Geometry} {v : Volume} {node : Node} {ch dch : List Nat} (h : Holds f xs) (hg : g.Valid)
    (hfile : FileOn g v node ch) (hdir : Chain g v.fat node.parentCluster dch) (hapart : ∀ d ∈ dch, d ∉ ch)
    (hnode : node.size < 2 ^ 32) (hoffset : offset < 2 ^ 32) (hsize : size < 2 ^ 32) (hnew : new.length < 2 ^ 32) :
    (ReadExact f xs offset size ↔ xs.length ≤ offset ∨ offset + size < 2 ^ 32) ∧
    (WriteSound room f offset new ↔
      offset + new.length < 2 ^ 32 ∧ (f.size < offset + new.length → newBlock room (offset + new.length) ≠ none)) ∧
    (Fat32.ReadExact g v node ch offset size ↔
      node.size ≤ offset ∨ size = 0 ∨ (min size (node.size - offset) < 2 ^ 31 ∧
        ((offset + size < 2 ^ 32 ∧ offset + min size (node.size - offset) ≤ ch.length * g.clusterSize) ∨
          (2 ^ 32 ≤ offset + size ∧ node.size = ch.length * g.clusterSize)))) ∧
    (Fat32.WriteSound g v node offset new ↔
      g.readOnly = true ∨ v.room g ch * g.clusterSize ≤ offset ∨ ((∃ o, entryScan g v node.name dch = .ok o) ∧
        (2 ^ 31 ≤ min new.length (v.room g ch * g.clusterSize - offset) ∨
          (offset + new.length < 2 ^ 32 ∧ offset + new.length ≤ v.room g ch * g.clusterSize)))) :=
  ⟨readExact_iff h hsize, writeSound_iff h hoffset hnew, hfile.readExact_iff hg hnode hoffset hsize,
    hfile.writeSound_iff hg hdir hapart hnode hnew⟩

/-- A file of five bytes in a block of the heap. -/
def fiveBytes : File := ⟨vfsFlagFile, 5, 5, some [1, 2, 3, 4, 5]⟩

theorem fiveBytes_holds : Holds fiveBytes [1, 2, 3, 4, 5] where
  file := by decide
  nodeSize := rfl
  size := rfl
  bytes := rfl
  inHeap := by decide

/-- The end of a file of five bytes, and of the cluster that it has. -/
theorem ranges_fiveBytes : (ReadExact fiveBytes [1, 2, 3, 4, 5] 3 10 ∧ Fat32.ReadExact oneSector fullVolume fiveOnDisk [3] 3 10) ∧
    WriteSound true fiveBytes 511 [9, 9] ∧ ¬Fat32.WriteSound oneSector fullVolume fiveOnDisk 511 [9, 9] := by
  have hroom : fullVolume.room oneSector [3] * oneSector.clusterSize = 512 := by
    rw [fullVolume_room]
    rfl
  have hdir : Chain oneSector fullVolume.fat fiveOnDisk.parentCluster [2] := fullVolume_chain (by decide) (by decide)
  have hranges := fun (offset size : Nat) (new : List UInt8) (ho : offset < 2 ^ 32) (hs : size < 2 ^ 32) (hn : new.length < 2 ^ 32) =>
    @ranges_iff fiveBytes [1, 2, 3, 4, 5] new offset size true _ _ _ _ _ fiveBytes_holds oneSector_valid fiveOnDisk_fileOn hdir
      (by decide) (by decide) ho hs hn
  obtain ⟨hread, -, hread', -⟩ := hranges 3 10 [] (by decide) (by decide) (by decide)
  obtain ⟨-, hwrite, -, hwrite'⟩ := hranges 511 0 [9, 9] (by decide) (by decide) (by decide)
  refine ⟨⟨hread.mpr (by decide), hread'.mpr (by decide)⟩, hwrite.mpr (by decide), fun hsound => ?_⟩
  have hcond := hwrite'.mp hsound
  rw [hroom] at hcond
  simp only [List.length_cons, List.length_nil] at hcond
  rcases hcond with hro | hout | ⟨-, hlong | ⟨-, hfits⟩⟩
  · cases hro
  · omega
  · omega
  · omega

/-- Two bytes at the last offset: the sum is 1, and the first of them goes before the block. -/
theorem not_ranges : ¬∀ (f : File) (xs : List UInt8) (offset : Nat) (new : List UInt8), Holds f xs → offset < 2 ^ 32 →
    new.length < 2 ^ 32 → WriteSound true f offset new := by
  intro h
  obtain ⟨r, f', hrun, -⟩ := h fiveBytes [1, 2, 3, 4, 5] (2 ^ 32 - 1) [9, 9] fiveBytes_holds (by decide) (by decide)
  have houtside : tmpfsWrite true fiveBytes (2 ^ 32 - 1) [9, 9] = .error .outOfBlock := by decide
  cases houtside.symm.trans hrun

end Serotonin.Files.Ranges
