import Serotonin.Fat32.Refine
import Serotonin.Tmpfs.Data

/-! One file on FAT32 and one on tmpfs, with the same calls. Both are an array of bytes as long as no
call leaves a gap behind the end. -/

namespace Serotonin.Files.Agree

open List
open ByteMem (int32)
open Fat32 (Geometry Volume Node FileOn Chain entryScan onVolume fat32Read fat32Write fat32Truncate)
open Padded (slice)
open Tmpfs.Data (Call Result arrayStep arrayRun AllFit newFile)

/-! ## Calls on FAT32 -/

/-- An open file: the volume, and its node. -/
structure FatFile where
  volume : Volume
  node : Node

variable (g : Geometry)

/-- A call, with what a read leaves in a buffer of zeros. -/
def step (s : FatFile) : Call → Except Fat32.Stop (Result × FatFile)
  | .read offset size => do
    let ((ret, buffer), v) ← Prog.run (onVolume g) (fat32Read g s.node offset size fun _ => 0) s.volume
    return (⟨ret, (List.range ret.toNat).map buffer⟩, { s with volume := v })
  | .write offset new _ => do
    let ((ret, node), v) ← Prog.run (onVolume g) (fat32Write g (g.total + 1) s.node offset new) s.volume
    return (⟨ret.bmod (2 ^ 32), []⟩, ⟨v, node⟩)
  | .truncate size _ => do
    let ((ret, node), v) ← Prog.run (onVolume g) (fat32Truncate g (g.total + 1) s.node size) s.volume
    return (⟨ret, []⟩, ⟨v, node⟩)

def run (s : FatFile) : List Call → Except Fat32.Stop (List Result × FatFile)
  | [] => .ok ([], s)
  | c :: cs => do
    let (r, s) ← step g s c
    let (rs, s) ← run s cs
    return (r :: rs, s)

/-- Numbers below 2^31, and clusters for what is written; `room` bytes are those of the file and the free ones. -/
def Small (room : Nat) : Call → Prop
  | .read offset size => offset < 2 ^ 31 ∧ size < 2 ^ 31
  | .write offset new _ => offset < 2 ^ 31 ∧ new.length < 2 ^ 31 ∧ offset < room ∧ offset + new.length ≤ room
  | .truncate size _ => size < 2 ^ 31

/-- The call leaves no gap: it does not begin to write behind the end, and it does not make the file longer
without bytes of its own. -/
def NoGap (length : Nat) : Call → Prop
  | .read _ _ => True
  | .write offset _ _ => offset ≤ length
  | .truncate size _ => size ≤ length

def NoGaps (xs : List UInt8) : List Call → Prop
  | [] => True
  | c :: cs => NoGap xs.length c ∧ NoGaps (arrayStep xs c).2 cs

/-- The file holds the array. -/
structure Holds (s : FatFile) (room : Nat) (ch dch : List Nat) (xs : List UInt8) : Prop where
  fileOn : FileOn g s.volume s.node ch
  dir : Chain g s.volume.fat s.node.parentCluster dch
  apart : ∀ d ∈ dch, d ∉ ch
  room : s.volume.room g ch * g.clusterSize = room
  size : s.node.size = xs.length
  short : xs.length < 2 ^ 32
  covers : xs.length ≤ ch.length * g.clusterSize
  bytes : ∀ p, p < xs.length → s.volume.byteOf g ch p = xs.getD p 0
  scan : ∃ o, entryScan g s.volume s.node.name dch = .ok o

variable {g} {s : FatFile} {room offset size : Nat} {ch dch : List Nat} {xs new : List UInt8} {b : Bool}

namespace Holds

theorem read (hg : g.Valid) (h : Holds g s room ch dch xs) (ho : offset < 2 ^ 31) (hs : size < 2 ^ 31) :
    step g s (.read offset size) = .ok (⟨(min size (xs.length - offset) : Nat), slice xs offset size⟩, s) := by
  have hshort := h.short
  have hcovers := h.covers
  have hexact := (h.fileOn.readExact_iff hg (h.size ▸ hshort) (show offset < 2 ^ 32 by omega) (show size < 2 ^ 32 by omega)).mpr (by
    rw [h.size]
    by_cases hend : xs.length ≤ offset
    · exact .inl hend
    · exact .inr (.inr ⟨by omega, .inl ⟨by omega, by omega⟩⟩))
  obtain ⟨buffer', hfill, hrun⟩ := hexact fun _ => 0
  rw [h.size] at hfill hrun
  have hslice : (List.range (min size (xs.length - offset))).map buffer' = slice xs offset size := by
    refine ext_getElem (by simp [slice]) fun x hx hx' => ?_
    have hlt : x < min size (xs.length - offset) := by simpa using hx
    rw [getElem_map, getElem_range, hfill.read x hlt, h.bytes _ (by omega)]
    simp only [slice, getElem_take, getElem_drop]
    rw [getD_eq_getElem?_getD, List.getElem?_eq_getElem (by omega), Option.getD_some]
  rw [Agree.step, hrun]
  simp only [bind, Except.bind, pure, Except.pure, Int.toNat_natCast, hslice]

theorem write (hg : g.Valid) (hro : g.readOnly = false) (h : Holds g s room ch dch xs) (ho : offset < 2 ^ 31) (hn : new.length < 2 ^ 31)
    (hin : offset < room) (hroom : offset + new.length ≤ room) (hgap : offset ≤ xs.length) :
    ∃ s' ch', step g s (.write offset new b) = .ok (⟨new.length, []⟩, s') ∧ Holds g s' room ch' dch (Padded.write 0 xs offset new) := by
  obtain ⟨o, hscan⟩ := h.scan
  have hshort := h.short
  obtain ⟨node', v', ch', hrun, hwrote⟩ := ((h.fileOn.run_write hg h.dir h.apart hro offset new).2 (by rw [h.room]; exact hin)).2 o hscan
  have hall : min new.length (s.volume.room g ch * g.clusterSize - offset) = new.length := by
    rw [h.room]
    omega
  rw [hall] at hrun hwrote
  have hparent : node'.parentCluster = s.node.parentCluster := by rw [hwrote.same]
  have hname : node'.name = s.node.name := by rw [hwrote.same]
  have hlen : (Padded.write 0 xs offset new).length = max xs.length (offset + new.length) := Padded.length_write
  have hle := Nat.mul_le_mul_right g.clusterSize hwrote.chain.length_le
  have hcovers := h.covers
  have hcovers' := hwrote.covers
  refine ⟨⟨v', node'⟩, ch', ?_, hwrote.fileOn h.fileOn, ?_, hwrote.beside.apart, ?_, ?_, by omega, by omega, fun p hp => ?_, ?_⟩
  · have hint : (new.length : Int).bmod (2 ^ 32) = new.length := by
      rw [Int.bmod_def]
      split <;> omega
    rw [Agree.step, hrun]
    simp only [bind, Except.bind, pure, Except.pure, hint]
  · rw [hparent]
    exact hwrote.beside.dir
  · rw [hwrote.room]
    exact h.room
  · rw [hlen, hwrote.same]
    exact (Fat32.grownSize_eq (by omega)).trans (by rw [h.size])
  · rw [Padded.getD_write hgap]
    dsimp only
    split
    · next hp =>
      rw [← hwrote.bytes (p - offset) (by omega), Nat.add_sub_cancel' hp.1]
    · next hp =>
      rw [hwrote.old p (by omega) (by omega)]
      exact h.bytes p (by omega)
  · rw [hname]
    exact hwrote.scan

theorem truncate (hg : g.Valid) (hro : g.readOnly = false) (h : Holds g s room ch dch xs) (hgap : size ≤ xs.length) :
    ∃ s', step g s (.truncate size b) = .ok (⟨0, []⟩, s') ∧ Holds g s' room ch dch (Padded.resize 0 xs size) := by
  obtain ⟨o, hscan⟩ := h.scan
  obtain ⟨v', hrun, hfat, hsame, hagain⟩ := (Fat32.run_updateDirEntry hg { s.node with size := size } h.dir size).1 o hscan
  have hshort := h.short
  have hcovers := h.covers
  have hlen : (xs.take size).length = size := length_take_of_le hgap
  rw [Padded.resize_of_le hgap]
  refine ⟨⟨v', { s.node with size := size }⟩, ?_, ⟨h.fileOn.file, ?_⟩, ?_, h.apart, ?_, hlen.symm, by omega, by omega, fun p hp => ?_, hagain⟩
  · rw [Agree.step]
    unfold fat32Truncate
    rw [h.fileOn.file, hro, if_neg Bool.false_ne_true, if_neg Bool.false_ne_true]
    dsimp only
    rw [← h.fileOn.file, Prog.run_bind_ok hrun]
    rfl
  · rw [hfat]
    exact h.fileOn.chain
  · rw [hfat]
    exact h.dir
  · rw [← h.room]
    unfold Volume.room Fat32.freeSet
    rw [hfat]
  · rw [hlen] at hp
    have hchain : ∀ d ∈ ch, Fat32.HasData g d := by
      obtain ⟨rfl, -⟩ | ⟨-, hch⟩ := h.fileOn.chain
      · exact fun d hd => absurd hd not_mem_nil
      · exact hch.hasData
    rw [Fat32.byteOf_congr (fun d hd => hsame d (hchain d hd) fun hin => h.apart d hin hd) (by omega), h.bytes p (by omega),
      getD_eq_getElem?_getD, getD_eq_getElem?_getD, List.getElem?_take_of_lt hp]

/-- A call on the file is a call on the array. -/
theorem step {c : Call} (hg : g.Valid) (hro : g.readOnly = false) (h : Holds g s room ch dch xs) (hsmall : Small room c)
    (hgap : NoGap xs.length c) :
    ∃ s' ch', Agree.step g s c = .ok ((arrayStep xs c).1, s') ∧ Holds g s' room ch' dch (arrayStep xs c).2 := by
  cases c with
  | read offset size => exact ⟨s, ch, h.read hg hsmall.1 hsmall.2, h⟩
  | write offset new b =>
    obtain ⟨ho, hn, hin, hroom⟩ := hsmall
    exact h.write hg hro ho hn hin hroom hgap
  | truncate size b =>
    obtain ⟨s', hrun, h'⟩ := h.truncate hg hro hgap
    exact ⟨s', ch, hrun, h'⟩

end Holds

theorem run_eq_arrayRun (hg : g.Valid) (hro : g.readOnly = false) : ∀ {cs : List Call} {s : FatFile} {ch : List Nat} {xs : List UInt8},
    Holds g s room ch dch xs → (∀ c ∈ cs, Small room c) → NoGaps xs cs → ∃ s', run g s cs = .ok ((arrayRun xs cs).1, s')
  | [], s, _, _, _, _, _ => ⟨s, rfl⟩
  | c :: cs, s, ch, xs, h, hsmall, hgaps => by
    obtain ⟨s₁, ch₁, hstep, h₁⟩ := h.step hg hro (hsmall c mem_cons_self) hgaps.1
    obtain ⟨s₂, hrun⟩ := run_eq_arrayRun hg hro h₁ (fun d hd => hsmall d (mem_cons_of_mem _ hd)) hgaps.2
    refine ⟨s₂, ?_⟩
    rw [run, hstep]
    simp only [bind, Except.bind, hrun]
    rfl

/-- As long as no call leaves a gap, a file on FAT32 and one on tmpfs give the same counts and bytes. -/
theorem runs_agree {cs : List Call} (hg : g.Valid) (hro : g.readOnly = false) (h : Holds g s room ch dch [])
    (hsmall : ∀ c ∈ cs, Small room c) (hfit : AllFit newFile cs) (hgaps : NoGaps [] cs) :
    ∃ rs s' f', run g s cs = .ok (rs, s') ∧ Tmpfs.Data.run newFile cs = .ok (rs, f') := by
  obtain ⟨s', hrun⟩ := run_eq_arrayRun hg hro h hsmall hgaps
  obtain ⟨f', hrun', -⟩ := Tmpfs.Data.run_refines_array Tmpfs.Data.newFile_holds hfit
  exact ⟨_, s', f', hrun, hrun'⟩

/-! ## Old data -/

open Fat32 (oneSector oneSector_valid fat32ClusterEnd)

/-- Sevens are left of what was in cluster 3; the directory in cluster 2 is empty. -/
def staleVolume : Volume := ⟨fun _ => fat32ClusterEnd, fun x => if x < 1024 then 0 else 7⟩

/-- An empty file with cluster 3. -/
def staleFile : FatFile := ⟨staleVolume, { Fat32.fiveOnDisk with size := 0 }⟩

theorem staleFile_holds : Holds oneSector staleFile 512 [3] [2] [] := by
  have hchain : ∀ {c}, 2 ≤ c → c < 128 → Chain oneSector staleVolume.fat c [c] := fun h2 hlt =>
    .cons ⟨h2, hlt⟩ (.nil (Nat.le_refl _))
  have hfull : (Fat32.freeSet oneSector staleVolume).card = 0 := Fat32.card_freeSet_of_none (Fat32.firstFree_eq_none.mpr
    fun _ _ _ => show fat32ClusterEnd ≠ 0 by decide)
  refine ⟨⟨rfl, .inr ⟨nofun, hchain (by decide) (by decide)⟩⟩, hchain (by decide) (by decide), by decide, ?_, rfl, by decide,
    by decide, fun p hp => absurd hp (Nat.not_lt_zero p), none, rfl⟩
  show ([3].length + (Fat32.freeSet oneSector staleVolume).card) * oneSector.clusterSize = 512
  rw [hfull]
  rfl

/-- Two bytes, and a read past the end. -/
theorem runs_agree_staleFile : ∃ rs s' f', run oneSector staleFile [.write 0 [97, 98] true, .read 1 8] = .ok (rs, s') ∧
    Tmpfs.Data.run newFile [.write 0 [97, 98] true, .read 1 8] = .ok (rs, f') := by
  have hwrite : Tmpfs.Data.step newFile (.write 0 [97, 98] true) = .ok (⟨2, []⟩, ⟨vfsFlagFile, 2, 2, some [97, 98]⟩) := by decide
  have hread : Tmpfs.Data.step ⟨vfsFlagFile, 2, 2, some [97, 98]⟩ (.read 1 8) =
      .ok (⟨1, [98]⟩, ⟨vfsFlagFile, 2, 2, some [97, 98]⟩) := by decide
  have hsum : (Call.read 1 8).Fits ⟨vfsFlagFile, 2, 2, some [97, 98]⟩ := show 1 + 8 < 2 ^ 32 by decide
  refine runs_agree oneSector_valid rfl staleFile_holds (fun c hc => ?_) (.cons ⟨by decide, fun _ => by decide⟩ hwrite
    (.cons hsum hread trivial)) ⟨Nat.le_refl 0, trivial, trivial⟩
  rcases List.mem_cons.mp hc with rfl | hc
  · exact ⟨by decide, by decide, by decide, by decide⟩
  · obtain rfl := List.mem_singleton.mp hc
    exact ⟨by decide, by decide⟩

/-- One byte at offset 1: before it tmpfs has a zero, and FAT32 what was in the cluster. -/
theorem not_runs_agree : ¬∀ (g : Geometry) (s : FatFile) (room : Nat) (ch dch : List Nat) (cs : List Call), g.Valid →
    g.readOnly = false → Holds g s room ch dch [] → (∀ c ∈ cs, Small room c) → AllFit newFile cs →
      ∃ rs s' f', run g s cs = .ok (rs, s') ∧ Tmpfs.Data.run newFile cs = .ok (rs, f') := by
  intro h
  have hwrite : Tmpfs.Data.step newFile (.write 1 [9] true) = .ok (⟨1, []⟩, ⟨vfsFlagFile, 2, 2, some [0, 9]⟩) := by decide
  have hread : Tmpfs.Data.step ⟨vfsFlagFile, 2, 2, some [0, 9]⟩ (.read 0 1) =
      .ok (⟨1, [0]⟩, ⟨vfsFlagFile, 2, 2, some [0, 9]⟩) := by decide
  have hsum : (Call.read 0 1).Fits ⟨vfsFlagFile, 2, 2, some [0, 9]⟩ := show 0 + 1 < 2 ^ 32 by decide
  have hsmall : ∀ c ∈ ([.write 1 [9] true, .read 0 1] : List Call), Small 512 c := by
    intro c hc
    rcases List.mem_cons.mp hc with rfl | hc
    · exact ⟨by decide, by decide, by decide, by decide⟩
    · obtain rfl := List.mem_singleton.mp hc
      exact ⟨by decide, by decide⟩
  obtain ⟨rs, s', f', hfat, htmpfs⟩ := h oneSector staleFile 512 [3] [2] [.write 1 [9] true, .read 0 1] oneSector_valid rfl
    staleFile_holds hsmall (.cons ⟨by decide, fun _ => by decide⟩ hwrite (.cons hsum hread trivial))
  have hsevens : (run oneSector staleFile [.write 1 [9] true, .read 0 1]).map Prod.fst = .ok [⟨1, []⟩, ⟨1, [7]⟩] := by
    decide +kernel
  have hzeros : (Tmpfs.Data.run newFile [.write 1 [9] true, .read 0 1]).map Prod.fst = .ok [⟨1, []⟩, ⟨1, [0]⟩] := by decide
  rw [hfat] at hsevens
  rw [htmpfs] at hzeros
  have hseven : rs = [⟨1, []⟩, ⟨1, [7]⟩] := Except.ok.inj hsevens
  have hzero : rs = [⟨1, []⟩, ⟨1, [0]⟩] := Except.ok.inj hzeros
  exact absurd (hseven.symm.trans hzero) (by decide)

end Serotonin.Files.Agree
