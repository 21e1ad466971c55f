import Mathlib.Data.List.Basic
import Serotonin.Fat32.Window
import Serotonin.Lib.Run

/-! Where the FAT window is touched. The window never leaves the FAT, but the entry that is looked up in
it can lie behind it: the number of a cluster comes from a directory entry or from the FAT itself. -/

namespace Serotonin.Fat32

open List
open ByteMem (Mem u32)

variable (g : Geometry)

/-- Bytes of the window's buffer, or a sector of the device that is written. -/
inductive Access
  | buffer (offset len sectors : Nat)
  | write (lba : Nat)

/-- The sector belongs to one of the copies of the FAT. -/
def InCopy (lba : Nat) : Prop := ∃ k < g.tableCount, ∃ i < g.fatSize, lba = u32 (g.fatStartLba + k * g.fatSize + i)

def Access.Inside : Access → Prop
  | .buffer offset len sectors => offset + len ≤ sectors * 512
  | .write lba => InCopy g lba

/-! ## What the functions touch -/

/-- `fat32_flush_fat_cache` -/
def flushAccesses (w : FatCache) : List Access :=
  if w.dirty then
    (List.range g.tableCount).flatMap fun copy => (List.range w.sectors).flatMap fun i =>
      [.buffer (i * g.bytesPerSector) 512 w.sectors, .write (u32 (g.fatStartLba + copy * g.fatSize + w.start + i))]
  else []

/-- The entry of a cluster in a window. -/
def entryAccess (w : FatCache) (cluster : Nat) : Access := .buffer (w.offset g cluster) 4 w.sectors

/-- The window where a reload puts it. -/
def FatCache.moved (w : FatCache) (cluster : Nat) : FatCache :=
  { w with start := newStart g w.sectors (sectorInFat g cluster) }

/-- `fat32_read_fat_entry` -/
def readAccesses (s : Fs) (cluster : Nat) : List Access :=
  match s.fatCache with
  | none => []
  | some w =>
    if w.Has (sectorInFat g cluster) then [entryAccess g w cluster]
    else flushAccesses g w ++ [.buffer 0 (w.sectors * 512) w.sectors, entryAccess g (w.moved g cluster) cluster]

/-- The writes of `fat32_write_fat_entry` past the window. -/
def directAccesses (cluster : Nat) : List Access :=
  (List.range g.tableCount).map fun copy => .write (u32 (g.fatStartLba + copy * g.fatSize + sectorInFat g cluster))

/-- `fat32_write_fat_entry` -/
def writeAccesses (s : Fs) (cluster : Nat) : List Access :=
  match s.fatCache with
  | none => directAccesses g cluster
  | some w =>
    if w.Has (sectorInFat g cluster) then [entryAccess g w cluster]
    else readAccesses g s cluster ++
      if (w.moved g cluster).Has (sectorInFat g cluster) then [entryAccess g (w.moved g cluster) cluster]
      else directAccesses g cluster

def accesses (s : Fs) : FatCall → List Access
  | .read cluster => readAccesses g s cluster
  | .write cluster _ => writeAccesses g s cluster
  | .flush => (s.fatCache.map (flushAccesses g)).getD []

/-- The FAT has the entry, on a volume with the sectors of the device. -/
def Covered : FatCall → Prop
  | .read cluster => g.bytesPerSector = 512 ∧ sectorInFat g cluster < g.fatSize
  | .write cluster _ => g.bytesPerSector = 512 ∧ sectorInFat g cluster < g.fatSize
  | .flush => g.bytesPerSector = 512

/-! ## The window stays in the FAT -/

/-- All of the window lies in the FAT. -/
structure FatCache.Placed (w : FatCache) : Prop where
  sectors : w.sectors = min g.fatSize 64
  inside : w.start + w.sectors ≤ g.fatSize

def Placed (s : Fs) : Prop := ∃ w, s.fatCache = some w ∧ w.Placed g

variable {g} {s t : Fs} {w : FatCache} {cluster : Nat}

theorem newStart_le {sectors : Nat} (h : sectors ≤ g.fatSize) (sector : Nat) : newStart g sectors sector + sectors ≤ g.fatSize := by
  unfold newStart
  dsimp only
  split <;> split <;> omega

theorem FatCache.Placed.moved (h : w.Placed g) (cluster : Nat) : (w.moved g cluster).Placed g :=
  ⟨h.sectors, newStart_le (Nat.le_trans (Nat.le_add_left ..) h.inside) _⟩

theorem flush_window (hs : s.fatCache = some w) : ∃ w', (fat32FlushFatCache g s).fatCache = some w' ∧ w'.start = w.start ∧
    w'.sectors = w.sectors := by
  unfold fat32FlushFatCache
  rw [hs]
  dsimp only
  split
  · exact ⟨_, rfl, rfl, rfl⟩
  · exact ⟨w, hs, rfl, rfl⟩

theorem reload_window (s : Fs) (w : FatCache) (sector : Nat) : ∃ w', (reload g s w sector).fatCache = some w' ∧
    w'.start = newStart g w.sectors sector ∧ w'.sectors = w.sectors := ⟨_, rfl, rfl, rfl⟩

theorem Placed.read (h : Placed g s) {v : Nat} (hr : fat32ReadFatEntry g s cluster = .ok (v, t)) : Placed g t := by
  obtain ⟨w, hs, hw⟩ := h
  unfold fat32ReadFatEntry at hr
  rw [hs] at hr
  dsimp only at hr
  split at hr
  · cases hr
    exact ⟨w, hs, hw⟩
  · obtain ⟨w', hw', hstart, hsectors⟩ := reload_window (g := g) s w (sectorInFat g cluster)
    rw [hw'] at hr
    dsimp only at hr
    split at hr
    · cases hr
      refine ⟨w', hw', hsectors.trans hw.sectors, ?_⟩
      rw [hstart, hsectors]
      exact (hw.moved cluster).inside
    · cases hr

theorem Placed.setInWindow (hw : w.Placed g) (cluster value : Nat) :
    Placed g (setInWindow g s w cluster value) := ⟨_, rfl, hw.sectors, hw.inside⟩

theorem Placed.write (h : Placed g s) {value : Nat} {u : Unit} (hr : fat32WriteFatEntry g s cluster value = .ok (u, t)) :
    Placed g t := by
  obtain ⟨w, hs, hw⟩ := h
  unfold fat32WriteFatEntry at hr
  rw [hs] at hr
  dsimp only at hr
  split at hr
  · cases hr
    exact .setInWindow hw _ _
  split at hr
  · cases hr
  next hread =>
  obtain ⟨w1, hs1, hw1⟩ := Placed.read ⟨w, hs, hw⟩ hread
  rw [hs1] at hr
  dsimp only at hr
  split at hr
  · cases hr
    exact .setInWindow hw1 _ _
  · cases hr
    exact ⟨w1, rfl, hw1⟩

theorem Placed.call (h : Placed g s) {call : FatCall} {r : Option Nat} (hr : fatCall g s call = .ok (r, t)) : Placed g t := by
  cases call with
  | read cluster =>
    dsimp only [fatCall] at hr
    cases hread : fat32ReadFatEntry g s cluster with
    | error e =>
      rw [hread] at hr
      cases hr
    | ok x =>
      rw [hread] at hr
      cases hr
      exact h.read hread
  | write cluster value =>
    dsimp only [fatCall] at hr
    cases hwrite : fat32WriteFatEntry g s cluster value with
    | error e =>
      rw [hwrite] at hr
      cases hr
    | ok x =>
      rw [hwrite] at hr
      cases hr
      exact h.write hwrite
  | flush =>
    cases hr
    obtain ⟨w, hs, hw⟩ := h
    obtain ⟨w', hw', hstart, hsectors⟩ := flush_window (g := g) hs
    exact ⟨w', hw', hsectors.trans hw.sectors, by rw [hstart, hsectors]; exact hw.inside⟩

/-! ## Inside -/

theorem flush_inside (hb : g.bytesPerSector = 512) (hw : w.Placed g) :
    ∀ a ∈ flushAccesses g w, a.Inside g := by
  intro a ha
  unfold flushAccesses at ha
  split at ha
  · obtain ⟨copy, hcopy, ha⟩ := mem_flatMap.mp ha
    obtain ⟨i, hi, ha⟩ := mem_flatMap.mp ha
    have hi := mem_range.mp hi
    simp only [mem_cons, not_mem_nil, or_false] at ha
    rcases ha with rfl | rfl
    · show i * g.bytesPerSector + 512 ≤ w.sectors * 512
      rw [hb]
      omega
    · exact ⟨copy, mem_range.mp hcopy, w.start + i, by have := hw.inside; omega, by rw [Nat.add_assoc _ w.start]⟩
  · cases ha

theorem offset_add (hb : g.bytesPerSector = 512) (cluster : Nat) :
    offsetInSector g cluster + 4 ≤ 512 ∧ ∀ w : FatCache, w.offset g cluster = (sectorInFat g cluster - w.start) * 512 + offsetInSector g cluster := by
  refine ⟨?_, fun w => by unfold FatCache.offset; rw [hb]⟩
  unfold offsetInSector u32
  rw [hb]
  omega

/-- An entry is inside the window that has its sector. -/
theorem entry_inside (hb : g.bytesPerSector = 512) (hhas : w.Has (sectorInFat g cluster)) : (entryAccess g w cluster).Inside g := by
  obtain ⟨hoff, heq⟩ := offset_add hb cluster
  show w.offset g cluster + 4 ≤ w.sectors * 512
  rw [heq]
  unfold FatCache.Has at hhas
  omega

theorem entry_outside (hb : g.bytesPerSector = 512) (hw : w.Placed g)
    (hs : g.fatSize ≤ sectorInFat g cluster) : ¬(entryAccess g w cluster).Inside g := by
  intro hin
  obtain ⟨-, heq⟩ := offset_add hb cluster
  have hle : w.offset g cluster + 4 ≤ w.sectors * 512 := hin
  rw [heq] at hle
  have hw := hw.inside
  omega

/-- A reload gives the window the sector, if the FAT has it. -/
theorem moved_has (hw : w.Placed g) (hs : sectorInFat g cluster < g.fatSize) : (w.moved g cluster).Has (sectorInFat g cluster) := by
  have hsectors := hw.sectors
  have hinside := hw.inside
  obtain ⟨h1, h2, -⟩ := @newStart_spec g w.sectors _ (by omega) (by omega) hs
  exact ⟨h1, h2⟩

theorem read_inside_iff (hb : g.bytesPerSector = 512) (h : Placed g s) (cluster : Nat) :
    (∀ a ∈ readAccesses g s cluster, a.Inside g) ↔ sectorInFat g cluster < g.fatSize := by
  obtain ⟨w, hs, hw⟩ := h
  unfold readAccesses
  rw [hs]
  dsimp only
  split
  · next hhas =>
    refine ⟨fun _ => Nat.lt_of_lt_of_le hhas.2 hw.inside, fun _ a ha => ?_⟩
    obtain rfl := mem_singleton.mp ha
    exact entry_inside hb hhas
  · constructor
    · intro hall
      by_contra hlt
      exact entry_outside hb (hw.moved cluster) (Nat.le_of_not_lt hlt) (hall _ (by simp))
    · intro hlt a ha
      rcases mem_append.mp ha with ha | ha
      · exact flush_inside hb hw a ha
      simp only [mem_cons, not_mem_nil, or_false] at ha
      rcases ha with rfl | rfl
      · show 0 + w.sectors * 512 ≤ w.sectors * 512
        omega
      · exact entry_inside hb (moved_has hw hlt)

theorem write_inside_iff (hb : g.bytesPerSector = 512) (h : Placed g s) (cluster : Nat) :
    (∀ a ∈ writeAccesses g s cluster, a.Inside g) ↔ sectorInFat g cluster < g.fatSize := by
  have hread := read_inside_iff hb h cluster
  obtain ⟨w, hs, hw⟩ := h
  unfold writeAccesses
  rw [hs]
  dsimp only
  split
  · next hhas =>
    refine ⟨fun _ => Nat.lt_of_lt_of_le hhas.2 hw.inside, fun _ a ha => ?_⟩
    obtain rfl := mem_singleton.mp ha
    exact entry_inside hb hhas
  · constructor
    · intro hall
      exact hread.mp fun a ha => hall a (mem_append_left _ ha)
    · intro hlt a ha
      rw [if_pos (moved_has hw hlt)] at ha
      rcases mem_append.mp ha with ha | ha
      · exact hread.mpr hlt a ha
      · obtain rfl := mem_singleton.mp ha
        exact entry_inside hb (moved_has hw hlt)

theorem flush_accesses_inside (hb : g.bytesPerSector = 512) (h : Placed g s) : ∀ a ∈ accesses g s .flush, a.Inside g := by
  obtain ⟨w, hs, hw⟩ := h
  unfold accesses
  rw [hs]
  exact flush_inside hb hw

/-! ## Runs -/

/-- A volume with any content, just mounted. -/
def JustMounted (g : Geometry) (s : Fs) : Prop := ∃ disk, s = fat32Mount g disk true

/-- A call with an entry that the FAT has, or anything else that is written on the device. -/
def CoveredStep (g : Geometry) (s t : Fs) : Prop :=
  (∃ call r, Covered g call ∧ fatCall g s call = .ok (r, t)) ∨ ∃ disk, t = { s with disk := disk }

theorem Placed.reachable (h : Run.Reachable (JustMounted g) (CoveredStep g) s) : Placed g s := by
  refine h.invariant (Placed g) ?_ ?_
  · rintro s ⟨disk, rfl⟩
    exact ⟨_, rfl, rfl, by show 0 + min g.fatSize 64 ≤ g.fatSize; omega⟩
  · rintro s t hs (⟨call, r, -, hr⟩ | ⟨disk, rfl⟩)
    · exact hs.call hr
    · exact hs

/-- In every run in which the FAT has the entries that are asked for, all accesses of the next call are
inside the window and inside the copies of the FAT if the FAT has its entry, and on a volume with the
sectors of the device only then. -/
theorem fat_accesses_inside (h : Run.Reachable (JustMounted g) (CoveredStep g) s) (call : FatCall) :
    (Covered g call → ∀ a ∈ accesses g s call, a.Inside g) ∧
    (g.bytesPerSector = 512 → (∀ a ∈ accesses g s call, a.Inside g) → Covered g call) := by
  have hs := Placed.reachable h
  cases call with
  | read cluster => exact ⟨fun hc => (read_inside_iff hc.1 hs cluster).mpr hc.2, fun hb hall => ⟨hb, (read_inside_iff hb hs cluster).mp hall⟩⟩
  | write cluster value => exact ⟨fun hc => (write_inside_iff hc.1 hs cluster).mpr hc.2, fun hb hall => ⟨hb, (write_inside_iff hb hs cluster).mp hall⟩⟩
  | flush => exact ⟨fun hb => flush_accesses_inside hb hs, fun hb _ => hb⟩

/-- The last entry of a FAT of 65 sectors is read through a window of 64. -/
theorem fat_accesses_inside_longFat :
    (accesses longFat (fat32Mount longFat (fun _ => 0) true) (.read 8319)).Forall fun a => a.Inside longFat :=
  List.forall_iff_forall_mem.mpr <| (fat_accesses_inside (.start ⟨_, rfl⟩) (.read 8319)).1 ⟨rfl, by decide⟩

/-! ## A chain that leaves the FAT -/

/-- `fat32_resolve_chain`: what its reads of the FAT touch. -/
def resolveAccesses (g : Geometry) : Nat → Fs → Nat → List Access
  | 0, _, _ => []
  | n + 1, s, cl =>
    if IsCluster cl then
      readAccesses g s cl ++
        match fat32ReadFatEntry g s cl with
        | .ok (v, s) => resolveAccesses g n s v
        | .error _ => []
    else []

/-- The first cluster in a directory entry can be any number below `FAT32_CLUSTER_END`. -/
theorem not_fat_accesses_inside : ¬∀ (g : Geometry) (disk : Mem) (start : Nat), g.Valid → start < 2 ^ 32 →
    ∀ a ∈ resolveAccesses g 128 (fat32Mount g disk true) start, a.Inside g := by
  intro h
  have hvalid : longFat.Valid := ⟨rfl, by decide, by decide, by decide, rfl, by decide, by norm_num [longFat]⟩
  have hall := h longFat (fun _ => 0) 0x0FFFFFF0 hvalid (by norm_num)
  have hread : ∀ a ∈ readAccesses longFat (fat32Mount longFat (fun _ => 0) true) 0x0FFFFFF0, a.Inside longFat := by
    intro a ha
    refine hall a ?_
    rw [resolveAccesses, if_pos (by decide)]
    exact List.mem_append_left _ ha
  have hplaced : Placed longFat (fat32Mount longFat (fun _ => 0) true) := .reachable (.start ⟨_, rfl⟩)
  exact absurd ((read_inside_iff rfl hplaced 0x0FFFFFF0).mp hread) (by decide)

end Serotonin.Fat32
