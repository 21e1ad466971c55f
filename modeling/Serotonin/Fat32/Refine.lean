import Serotonin.Fat32.FullDisk
import Serotonin.Fat32.Write

/-! A file on FAT32 as an array of bytes: what is written is read again, and nothing else changes. -/

namespace Serotonin.Fat32

open ByteMem (Mem u32 u32_of_lt int32)

variable {g : Geometry} {v : Volume} {node : Node} {ch dch : List Nat} {offset : Nat} {data : List UInt8}

/-- Inside a file whose clusters hold all of it. -/
theorem FileOn.read_inside (hg : g.Valid) (h : FileOn g v node ch) (hcovers : node.size ≤ ch.length * g.clusterSize)
    (hnode : node.size < 2 ^ 32) {off n : Nat} (hin : off + n ≤ node.size) (buffer : Mem) : ∃ buffer',
      Filled buffer (fun x => v.byteOf g ch (off + x)) n buffer' ∧
        Prog.run (onVolume g) (fat32Read g node off n buffer) v = .ok ((int32 n, buffer'), v) := by
  by_cases hend : node.size ≤ off
  · obtain rfl : n = 0 := by omega
    refine ⟨buffer, ⟨fun x hx => absurd hx (Nat.not_lt_zero x), fun _ _ => rfl⟩, ?_⟩
    unfold fat32Read
    rw [h.file, if_neg Bool.false_ne_true, if_pos hend]
    rfl
  · obtain ⟨buffer', hfill, hrun⟩ := h.run_read hg n (Nat.lt_of_not_le hend) buffer
    have hall : min (readSize node off n) (ch.length * g.clusterSize - off) = n := by
      unfold readSize
      rw [u32_of_lt (by omega), if_neg (by omega)]
      omega
    rw [hall] at hfill hrun
    exact ⟨buffer', hfill, hrun⟩

theorem grownSize_eq (hsum : offset + data.length < 2 ^ 32) : grownSize node offset data.length = max node.size (offset + data.length) := by
  unfold grownSize
  rw [u32_of_lt hsum]
  split <;> omega

theorem Wrote.fileOn {v' : Volume} {node' : Node} {ch' : List Nat} {count : Nat} (h : FileOn g v node ch)
    (hwrote : Wrote g v node ch dch offset data count v' node' ch') : FileOn g v' node' ch' where
  file := by
    rw [hwrote.same]
    exact h.file
  chain := .inr ⟨hwrote.nonempty, hwrote.beside.file⟩

/-- A write of the whole data: the count that it returns, the size, what any read inside the file then gives,
and the chains that have no cluster in common with the file. -/
def WriteRefines (g : Geometry) (v : Volume) (node : Node) (ch dch : List Nat) (offset : Nat) (data : List UInt8) : Prop :=
  ∃ node' v', Prog.run (onVolume g) (fat32Write g (g.total + 1) node offset data) v = .ok ((data.length, node'), v') ∧
    node'.size = max node.size (offset + data.length) ∧
    (∀ off n buffer, off + n ≤ node'.size → ∃ buffer',
      Prog.run (onVolume g) (fat32Read g node' off n buffer) v' = .ok ((int32 n, buffer'), v') ∧ ∀ x, x < n →
        (offset ≤ off + x → off + x < offset + data.length → buffer' x = data.getD (off + x - offset) 0) ∧
        (off + x < node.size → off + x < offset ∨ offset + data.length ≤ off + x → buffer' x = v.byteOf g ch (off + x))) ∧
    ∀ c cs, Chain g v.fat c cs → (∀ d ∈ cs, d ∉ ch) → Chain g v'.fat c cs ∧ ∀ d ∈ cs, d ∉ dch → v'.cluster g d = v.cluster g d

/-- On a volume that may be written, and where the search for the entry of the file comes to its end, a
write with room for its data is a write to an array. -/
theorem FileOn.write_refines (hg : g.Valid) (h : FileOn g v node ch) (hdir : Chain g v.fat node.parentCluster dch)
    (hapart : ∀ d ∈ dch, d ∉ ch) (hcovers : node.size ≤ ch.length * g.clusterSize) (hnode : node.size < 2 ^ 32)
    (hdata : 0 < data.length) (hsum : offset + data.length < 2 ^ 31)
    (hroom : offset + data.length ≤ v.room g ch * g.clusterSize) (hro : g.readOnly = false)
    (hscan : ∃ o, entryScan g v node.name dch = .ok o) : WriteRefines g v node ch dch offset data := by
  obtain ⟨o, ho⟩ := hscan
  obtain ⟨node', v', ch', hrun, hwrote⟩ := ((h.run_write hg hdir hapart hro offset data).2 (by omega)).2 o ho
  have hall : min data.length (v.room g ch * g.clusterSize - offset) = data.length := by omega
  rw [hall] at hrun hwrote
  have hsize : node'.size = max node.size (offset + data.length) := by
    rw [hwrote.same]
    exact grownSize_eq (by omega)
  have hle := Nat.mul_le_mul_right g.clusterSize hwrote.chain.length_le
  have hcovers' := hwrote.covers
  refine ⟨node', v', hrun, hsize, fun off n buffer hin => ?_, fun c cs hc hother => ⟨?_, fun d hd hnot => ?_⟩⟩
  · obtain ⟨buffer', hfill, hread⟩ := (hwrote.fileOn h).read_inside hg (by omega) (by omega) hin buffer
    refine ⟨buffer', hread, fun x hx => ⟨fun hlo hhi => ?_, fun hsmall hout => ?_⟩⟩
    · rw [hfill.read x hx, ← hwrote.bytes (off + x - offset) (by omega), Nat.add_sub_cancel' hlo]
    · rw [hfill.read x hx]
      exact hwrote.old (off + x) (by omega) hout
  · exact hc.congr fun d hd => (hwrote.others d (hc.fat_ne_zero d hd) (hother d hd)).1
  · exact (hwrote.others d (hc.fat_ne_zero d hd) (hother d hd)).2 (hc.hasData d hd) hnot

/-- A file of five bytes with cluster 3, in a directory with cluster 2. -/
def fiveOnDisk : Node :=
  { name := [65], directory := false, size := 5, mode := 0, cluster := 3, parentCluster := 2 }

/-- In a full volume every cluster is a chain of its own. -/
theorem fullVolume_chain {c : Nat} (h2 : 2 ≤ c) (hlt : c < 128) : Chain oneSector fullVolume.fat c [c] :=
  .cons ⟨h2, hlt⟩ (.nil (Nat.le_refl _))

theorem fiveOnDisk_fileOn : FileOn oneSector fullVolume fiveOnDisk [3] where
  file := rfl
  chain := .inr ⟨nofun, fullVolume_chain (by decide) (by decide)⟩

theorem fullVolume_room : fullVolume.room oneSector [3] = 1 := by
  have hfull : (freeSet oneSector fullVolume).card = 0 := card_freeSet_of_none fullVolume_free
  unfold Volume.room
  rw [hfull]
  rfl

theorem fullVolume_scan : entryScan oneSector fullVolume [65] [2] = .ok none := rfl

/-- Two bytes at the end of the cluster of a file of five bytes. -/
theorem write_refines_fiveOnDisk : WriteRefines oneSector fullVolume fiveOnDisk [3] [2] 510 [9, 9] := by
  refine fiveOnDisk_fileOn.write_refines oneSector_valid (fullVolume_chain (by decide) (by decide)) (by decide) (by decide)
    (by decide) (by decide) (by decide) ?_ rfl ⟨none, fullVolume_scan⟩
  rw [fullVolume_room]
  decide

theorem not_write_refines : ¬∀ (g : Geometry) (v : Volume) (node : Node) (ch dch : List Nat) (offset : Nat) (data : List UInt8),
    g.Valid → FileOn g v node ch → Chain g v.fat node.parentCluster dch → (∀ d ∈ dch, d ∉ ch) →
    node.size ≤ ch.length * g.clusterSize → node.size < 2 ^ 32 → 0 < data.length → offset + data.length < 2 ^ 31 →
    offset + data.length ≤ v.room g ch * g.clusterSize → WriteRefines g v node ch dch offset data := by
  intro h
  have hvalid : ({ oneSector with readOnly := true } : Geometry).Valid := { oneSector_valid with }
  have hchain : ∀ {c}, 2 ≤ c → c < 128 → Chain { oneSector with readOnly := true } fullVolume.fat c [c] := fun h2 hlt =>
    .cons ⟨h2, hlt⟩ (.nil (Nat.le_refl _))
  obtain ⟨node', v', hrun, -⟩ := h { oneSector with readOnly := true } fullVolume fiveOnDisk [3] [2] 0 [9] hvalid
    ⟨rfl, .inr ⟨nofun, hchain (by decide) (by decide)⟩⟩ (hchain (by decide) (by decide)) (by decide) (by decide) (by decide)
    (by decide) (by decide) (Nat.le_trans (by decide) (Nat.mul_le_mul_right _ (Nat.le_add_right 1 _)))
  have hfail : Prog.run (onVolume { oneSector with readOnly := true })
      (fat32Write { oneSector with readOnly := true } 129 fiveOnDisk 0 [9]) fullVolume = .ok ((-1, fiveOnDisk), fullVolume) := rfl
  cases hfail.symm.trans hrun

end Serotonin.Fat32
