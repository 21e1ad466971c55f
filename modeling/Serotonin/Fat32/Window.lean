import Serotonin.Fat32.Model
import Mathlib.Tactic.NormNum

/-! The FAT through its window. Whatever part of it the window has, the driver sees one
array of entries, and after a flush every copy on the device holds that array. -/

namespace Serotonin.Fat32

open Function
open ByteMem (Mem u32 load32 store32 store16 blit AgreeOn)

variable (g : Geometry)

/-- A FAT in sectors of the device. -/
structure FatOnDevice : Prop where
  bytesPerSector : g.bytesPerSector = 512
  fatSize : 0 < g.fatSize
  tableCount : 0 < g.tableCount
  sectors : g.fatStartLba + g.tableCount * g.fatSize ≤ 2 ^ 32

/-- Where copy `k` of the FAT starts on the device. -/
def copyStart (k : Nat) : Nat := (g.fatStartLba + k * g.fatSize) * 512

/-- A cluster number that has an entry in the FAT. Entries have 28 bits, so cluster
numbers do; the offsets of the driver are right for two more. -/
def InFat (cluster : Nat) : Prop := cluster < g.fatSize * 128 ∧ cluster < 2 ^ 30

/-- The entry of a cluster in copy `k`. -/
def diskEntry (disk : Mem) (k cluster : Nat) : Nat := entryValue (load32 disk (copyStart g k + 4 * cluster))

def CopiesEqual (disk : Mem) : Prop :=
  ∀ k < g.tableCount, ∀ x < g.fatSize * 512, disk (copyStart g k + x) = disk (copyStart g 0 + x)

/-- The bytes of the FAT as the driver sees them: those in the window, and around it those
of the first copy. -/
def fatByte (s : Fs) : Mem := fun x =>
  match s.fatCache with
  | some w => if w.Has (x / 512) then w.bytes (x - w.start * 512) else s.disk (copyStart g 0 + x)
  | none => s.disk (copyStart g 0 + x)

structure WindowOk (disk : Mem) (w : FatCache) : Prop where
  pos : 0 < w.sectors
  inside : w.start + w.sectors ≤ g.fatSize
  clean : w.dirty = false → ∀ x < w.sectors * 512, w.bytes x = disk (copyStart g 0 + (w.start * 512 + x))

structure Windowed (s : Fs) : Prop where
  copies : CopiesEqual g s.disk
  window : ∀ w, s.fatCache = some w → WindowOk g s.disk w

/-! ## Stores -/

theorem store32_apply (m : Mem) (a v x : Nat) :
    store32 m a v x = if a ≤ x ∧ x < a + 4 then store32 (fun _ => 0) 0 v (x - a) else m x := by
  by_cases h : a ≤ x ∧ x < a + 4
  · obtain ⟨i, rfl⟩ := Nat.exists_eq_add_of_le h.1
    rw [if_pos h, Nat.add_sub_cancel_left]
    simp only [store32, store16, Nat.add_assoc, Nat.add_eq_left, Nat.add_left_cancel_iff, Nat.zero_add]
    split
    · rfl
    split
    · rfl
    split
    · rfl
    split
    · rfl
    · omega
  · rw [if_neg h]
    exact ByteMem.store32_apply_disjoint (by omega)

/-- Two stores of the same word, at places that correspond. -/
theorem store32_shift {m m' : Mem} {a b v x y : Nat} (hm : m x = m' y) (hxy : a + y = b + x) :
    store32 m a v x = store32 m' b v y := by
  rw [store32_apply m, store32_apply m', hm]
  have hiff : (a ≤ x ∧ x < a + 4) ↔ (b ≤ y ∧ y < b + 4) := by omega
  have hsub : x - a = y - b := by omega
  simp only [hiff, hsub]

theorem load32_shift (m : Mem) (a b : Nat) : load32 (fun x => m (a + x)) b = load32 m (a + b) := by
  simp only [load32, ByteMem.load16, Nat.add_assoc]

/-! ## Flushes -/

variable {g}

theorem writeWindow_apply (hg : g.bytesPerSector = 512) (disk : Mem) (base : Nat) (bytes : Mem) (x : Nat) :
    ∀ n, writeWindow g disk base bytes n x =
      if base * 512 ≤ x ∧ x < (base + n) * 512 then bytes (x - base * 512) else disk x
  | 0 => by rw [if_neg (by omega)]; rfl
  | n + 1 => by
    unfold writeWindow
    by_cases h : (base + n) * 512 ≤ x ∧ x < (base + n) * 512 + 512
    · have hin : base * 512 ≤ x ∧ x < (base + (n + 1)) * 512 :=
        ⟨by omega, by omega⟩
      have hat : n * 512 + (x - (base + n) * 512) = x - base * 512 := by omega
      rw [ByteMem.blit_inside h.1 h.2, if_pos hin, hg, hat]
    · rw [ByteMem.blit_outside (by omega), writeWindow_apply hg disk base bytes x n]
      have hiff : (base * 512 ≤ x ∧ x < (base + n) * 512) ↔ (base * 512 ≤ x ∧ x < (base + (n + 1)) * 512) :=
        ⟨fun h => ⟨h.1, by omega⟩, fun h => ⟨h.1, by omega⟩⟩
      simp only [hiff]

/-- Bytes of different copies of the FAT lie apart. -/
theorem copyStart_apart {k n x y : Nat} (h : k < n) (hx : x < g.fatSize * 512) :
    copyStart g k + x < copyStart g n + y := by
  have hmul : (k + 1) * g.fatSize ≤ n * g.fatSize := Nat.mul_le_mul_right _ h
  rw [Nat.add_mul, Nat.one_mul] at hmul
  unfold copyStart
  omega

theorem writeCopies_apply (hg : g.bytesPerSector = 512) (disk : Mem) {w : FatCache}
    (hw : w.start + w.sectors ≤ g.fatSize) (k : Nat) {x : Nat} (hx : x < g.fatSize * 512) :
    ∀ n, writeCopies g disk w n (copyStart g k + x) =
      if k < n ∧ w.Has (x / 512) then w.bytes (x - w.start * 512) else disk (copyStart g k + x)
  | 0 => by rw [if_neg (by omega)]; rfl
  | n + 1 => by
    have ih := writeCopies_apply hg disk hw k hx n
    unfold writeCopies
    rw [writeWindow_apply hg]
    have hbase : (g.fatStartLba + n * g.fatSize + w.start) * 512 = copyStart g n + w.start * 512 := by
      unfold copyStart
      exact Nat.add_mul _ _ 512
    have hend : (g.fatStartLba + n * g.fatSize + w.start + w.sectors) * 512 =
        copyStart g n + (w.start + w.sectors) * 512 := by
      unfold copyStart
      rw [← Nat.add_mul, Nat.add_assoc (g.fatStartLba + n * g.fatSize)]
    rw [hbase, hend]
    rcases Nat.lt_trichotomy k n with hk | hk | hk
    · have hapart := copyStart_apart (g := g) (y := w.start * 512) hk hx
      rw [if_neg (by omega), ih]
      simp only [hk, Nat.lt_succ_of_lt hk]
    · subst hk
      have hiff : (copyStart g k + w.start * 512 ≤ copyStart g k + x ∧
          copyStart g k + x < copyStart g k + (w.start + w.sectors) * 512) ↔ w.Has (x / 512) := by
        unfold FatCache.Has
        omega
      simp only [hiff, Nat.lt_succ_self, true_and]
      by_cases hhas : w.Has (x / 512)
      · have hat : copyStart g k + x - (copyStart g k + w.start * 512) = x - w.start * 512 := by omega
        rw [if_pos hhas, if_pos hhas, hat]
      · rw [if_neg hhas, if_neg hhas, ih, if_neg (by omega)]
    · have hapart : copyStart g n + (w.start + w.sectors) * 512 ≤ copyStart g k + x := by
        have hmul : (n + 1) * g.fatSize ≤ k * g.fatSize := Nat.mul_le_mul_right _ hk
        rw [Nat.add_mul, Nat.one_mul] at hmul
        unfold copyStart
        omega
      rw [if_neg (by omega), ih, if_neg (by omega), if_neg (by omega)]

/-- A flush leaves the FAT as the driver sees it, now on every copy. -/
theorem fat32FlushFatCache_spec (hg : FatOnDevice g) {s : Fs} (h : Windowed g s) :
    Windowed g (fat32FlushFatCache g s) ∧
    (∀ x < g.fatSize * 512, fatByte g (fat32FlushFatCache g s) x = fatByte g s x) ∧
    ∀ k < g.tableCount, ∀ x < g.fatSize * 512,
      (fat32FlushFatCache g s).disk (copyStart g k + x) = fatByte g s x := by
  unfold fat32FlushFatCache
  cases hc : s.fatCache with
  | none =>
    refine ⟨h, fun x _ => rfl, fun k hk x hx => ?_⟩
    unfold fatByte
    rw [hc]
    exact h.copies k hk x hx
  | some w =>
    have hw := h.window w hc
    dsimp only
    split
    · rename_i hd
      have hcopy := fun k x hx => writeCopies_apply hg.bytesPerSector s.disk hw.inside k (x := x) hx g.tableCount
      have hbyte : ∀ k < g.tableCount, ∀ x < g.fatSize * 512,
          writeCopies g s.disk w g.tableCount (copyStart g k + x) = fatByte g s x := by
        intro k hk x hx
        rw [hcopy k x hx]
        unfold fatByte
        rw [hc]
        by_cases hhas : w.Has (x / 512)
        · rw [if_pos ⟨hk, hhas⟩]
          exact (if_pos hhas).symm
        · rw [if_neg fun h => hhas h.2, h.copies k hk x hx]
          exact (if_neg hhas).symm
      have hsees : ∀ x < g.fatSize * 512,
          fatByte g ⟨writeCopies g s.disk w g.tableCount, some { w with dirty := false }⟩ x = fatByte g s x := by
        intro x hx
        rw [← hbyte 0 hg.tableCount x hx]
        by_cases hhas : w.Has (x / 512)
        · rw [hcopy 0 x hx, if_pos ⟨hg.tableCount, hhas⟩]
          exact if_pos hhas
        · exact if_neg hhas
      refine ⟨⟨fun k hk x hx => ?_, fun w' hw' => ?_⟩, hsees, hbyte⟩
      · exact (hbyte k hk x hx).trans (hbyte 0 hg.tableCount x hx).symm
      · cases hw'
        refine ⟨hw.pos, hw.inside, fun _ x hx => ?_⟩
        have hin := hw.inside
        dsimp only at hx
        have hhas : w.Has ((w.start * 512 + x) / 512) := ⟨by omega, by omega⟩
        dsimp only
        rw [hcopy 0 _ (by omega), if_pos ⟨hg.tableCount, hhas⟩, Nat.add_sub_cancel_left]
    · rename_i hd
      have hclean := hw.clean (by simpa using hd)
      refine ⟨h, fun x _ => rfl, fun k hk x hx => ?_⟩
      rw [h.copies k hk x hx]
      unfold fatByte
      rw [hc]
      dsimp only
      split
      · rename_i hhas
        unfold FatCache.Has at hhas
        have hat : w.start * 512 + (x - w.start * 512) = x := by omega
        rw [hclean _ (by omega), hat]
      · rfl

/-! ## Reads -/

theorem sectorInFat_eq (hg : g.bytesPerSector = 512) {cluster : Nat} (hc : InFat g cluster) :
    sectorInFat g cluster = 4 * cluster / 512 ∧ offsetInSector g cluster = 4 * cluster % 512 := by
  have hu : u32 (cluster * 4) = 4 * cluster := by
    rw [Nat.mul_comm]
    exact ByteMem.u32_of_lt (by have := hc.2; omega)
  unfold sectorInFat offsetInSector
  rw [hg, hu]
  exact ⟨rfl, rfl⟩

/-- A new place of the window has the sector and lies in the FAT. -/
theorem newStart_spec {sectors sector : Nat} (hpos : 0 < sectors) (hle : sectors ≤ g.fatSize)
    (hs : sector < g.fatSize) :
    newStart g sectors sector ≤ sector ∧ sector < newStart g sectors sector + sectors ∧
      newStart g sectors sector + sectors ≤ g.fatSize := by
  unfold newStart
  dsimp only
  split <;> split <;> omega

/-- Where the entry of a cluster lies in a window that has its sector. -/
theorem offset_eq (hg : g.bytesPerSector = 512) {w : FatCache} {cluster : Nat} (hc : InFat g cluster)
    (hw : w.start ≤ sectorInFat g cluster) : w.offset g cluster = 4 * cluster - w.start * 512 := by
  obtain ⟨hs, ho⟩ := sectorInFat_eq hg hc
  unfold FatCache.offset
  rw [hg, ho]
  rw [hs] at hw ⊢
  omega

/-- The word in the window is that of the FAT. -/
theorem load32_window {s : Fs} {w : FatCache} {cluster : Nat} (hg : g.bytesPerSector = 512)
    (hc : InFat g cluster) (hs : s.fatCache = some w) (hw : w.Has (sectorInFat g cluster)) :
    load32 w.bytes (w.offset g cluster) = load32 (fatByte g s) (4 * cluster) := by
  have hsec := (sectorInFat_eq hg hc).1
  rw [offset_eq hg hc hw.1]
  rw [hsec] at hw
  unfold FatCache.Has at hw
  have hbyte : ∀ i < 4, fatByte g s (4 * cluster + i) = w.bytes (4 * cluster - w.start * 512 + i) := by
    intro i hi
    have hhas : w.Has ((4 * cluster + i) / 512) := ⟨by omega, by omega⟩
    have hat : 4 * cluster + i - w.start * 512 = 4 * cluster - w.start * 512 + i := by omega
    unfold fatByte
    rw [hs]
    dsimp only
    rw [if_pos hhas, hat]
  have h0 := hbyte 0 (by omega)
  have h1 := hbyte 1 (by omega)
  have h2 := hbyte 2 (by omega)
  have h3 := hbyte 3 (by omega)
  simp only [load32, ByteMem.load16, Nat.add_zero, Nat.add_assoc] at h0 h1 h2 h3 ⊢
  rw [h0, h1, h2, h3]

/-- Moving the window does not change the FAT as the driver sees it. -/
theorem reload_spec (hg : FatOnDevice g) {s : Fs} (h : Windowed g s) {w : FatCache}
    (hs : s.fatCache = some w) {sector : Nat} (hsec : sector < g.fatSize) :
    Windowed g (reload g s w sector) ∧
    (∀ x < g.fatSize * 512, fatByte g (reload g s w sector) x = fatByte g s x) ∧
    ∃ w', (reload g s w sector).fatCache = some w' ∧ w'.Has sector ∧ w'.sectors = w.sectors := by
  have hw := h.window w hs
  have hle : w.sectors ≤ g.fatSize := Nat.le_trans (Nat.le_add_left ..) hw.inside
  obtain ⟨h1, h2, h3⟩ := newStart_spec hw.pos hle hsec
  obtain ⟨hflush, hsame, hdisk⟩ := fat32FlushFatCache_spec hg h
  -- what is read is on the device, flushed or never changed
  have hread : ∃ t : Fs, reload g s w sector = { t with fatCache := some ⟨blit w.bytes 0 t.disk
        ((g.fatStartLba + newStart g w.sectors sector) * 512) (w.sectors * 512),
      newStart g w.sectors sector, w.sectors, false⟩ } ∧ CopiesEqual g t.disk ∧
      ∀ x < g.fatSize * 512, t.disk (copyStart g 0 + x) = fatByte g s x := by
    unfold reload
    split
    · exact ⟨_, rfl, hflush.copies, hdisk 0 hg.tableCount⟩
    · rename_i hd
      refine ⟨s, rfl, h.copies, fun x hx => ?_⟩
      have hclean : fat32FlushFatCache g s = s := by
        unfold fat32FlushFatCache
        rw [hs]
        exact if_neg hd
      rw [hclean] at hdisk
      exact hdisk 0 hg.tableCount x hx
  obtain ⟨t, ht, hcopies, hbytes⟩ := hread
  rw [ht]
  have hfrom : ∀ x < w.sectors * 512,
      blit w.bytes 0 t.disk ((g.fatStartLba + newStart g w.sectors sector) * 512) (w.sectors * 512) x =
        t.disk (copyStart g 0 + (newStart g w.sectors sector * 512 + x)) := by
    intro x hx
    have hat : (g.fatStartLba + newStart g w.sectors sector) * 512 + (x - 0) =
        copyStart g 0 + (newStart g w.sectors sector * 512 + x) := by
      unfold copyStart
      omega
    rw [ByteMem.blit_inside (Nat.zero_le x) (by omega), hat]
  refine ⟨⟨hcopies, fun w' hw' => ?_⟩, fun x hx => ?_, _, rfl, ⟨h1, h2⟩, rfl⟩
  · cases hw'
    exact ⟨hw.pos, h3, fun _ => hfrom⟩
  · rw [← hbytes x hx]
    show (if _ then _ else _) = _
    split
    · rename_i hhas
      unfold FatCache.Has at hhas
      dsimp only at hhas ⊢
      have hat : newStart g w.sectors sector * 512 + (x - newStart g w.sectors sector * 512) = x := by omega
      rw [hfrom _ (by omega), hat]
    · rfl

theorem fat32ReadFatEntry_spec (hg : FatOnDevice g) {s : Fs} (h : Windowed g s) {cluster : Nat}
    (hc : InFat g cluster) :
    ∃ s', fat32ReadFatEntry g s cluster = .ok (entryValue (load32 (fatByte g s) (4 * cluster)), s') ∧
      Windowed g s' ∧ (∀ x < g.fatSize * 512, fatByte g s' x = fatByte g s x) ∧
      ∀ w, s'.fatCache = some w → w.Has (sectorInFat g cluster) := by
  obtain ⟨hsec, hoff⟩ := sectorInFat_eq hg.bytesPerSector hc
  unfold fat32ReadFatEntry
  cases hs : s.fatCache with
  | none =>
    have hat : (g.fatStartLba + sectorInFat g cluster) * 512 + offsetInSector g cluster =
        copyStart g 0 + 4 * cluster := by
      unfold copyStart
      rw [hsec, hoff]
      omega
    have hfat : fatByte g s = fun x => s.disk (copyStart g 0 + x) := by
      funext x
      unfold fatByte
      rw [hs]
    refine ⟨s, ?_, h, fun _ _ => rfl, fun w hw => by rw [hs] at hw; cases hw⟩
    dsimp only
    rw [hat, hfat, load32_shift]
  | some w =>
    dsimp only
    split
    · rename_i hhas
      refine ⟨s, by rw [load32_window hg.bytesPerSector hc hs hhas], h, fun _ _ => rfl, fun w' hw' => ?_⟩
      rw [hs] at hw'
      cases hw'
      exact hhas
    · have hin : sectorInFat g cluster < g.fatSize := by
        have := hc.1
        rw [hsec]
        omega
      obtain ⟨hwin, hsame, w', hs', hhas, _⟩ := reload_spec hg h hs hin
      have hroom : w'.offset g cluster + 4 ≤ w'.sectors * 512 := by
        rw [offset_eq hg.bytesPerSector hc hhas.1]
        rw [hsec] at hhas
        unfold FatCache.Has at hhas
        omega
      rw [hs']
      dsimp only
      rw [if_pos hroom, load32_window hg.bytesPerSector hc hs' hhas]
      have hword : AgreeOn (fatByte g s) (fatByte g (reload g s w (sectorInFat g cluster)))
          (4 * cluster) (4 * cluster + 4) := by
        intro x _ hx
        have := hc.1
        exact hsame x (by omega)
      rw [hword.load32 (Nat.le_refl _) (Nat.le_refl _)]
      refine ⟨_, rfl, hwin, hsame, fun w'' hw'' => ?_⟩
      rw [hs'] at hw''
      cases hw''
      exact hhas

/-! ## Writes -/

theorem writeEntryCopies_apply (hg : g.bytesPerSector = 512) (disk : Mem) {cluster : Nat} (value : Nat)
    (hc : InFat g cluster) (k : Nat) {x : Nat} (hx : x < g.fatSize * 512) :
    ∀ n, writeEntryCopies g disk cluster value n (copyStart g k + x) =
      if k < n then store32 (fun y => disk (copyStart g k + y)) (4 * cluster) value x
      else disk (copyStart g k + x)
  | 0 => by rw [if_neg (Nat.not_lt_zero k)]; rfl
  | n + 1 => by
    have ih := writeEntryCopies_apply hg disk value hc k hx n
    obtain ⟨hsec, hoff⟩ := sectorInFat_eq hg hc
    have hin := hc.1
    have hat : (g.fatStartLba + n * g.fatSize + sectorInFat g cluster) * 512 + offsetInSector g cluster =
        copyStart g n + 4 * cluster := by
      unfold copyStart
      rw [hsec, hoff]
      omega
    unfold writeEntryCopies
    rw [hat]
    rcases Nat.lt_trichotomy k n with hk | hk | hk
    · have hapart := copyStart_apart (g := g) (y := 4 * cluster) hk hx
      rw [ByteMem.store32_apply_disjoint (by omega), ih, if_pos hk, if_pos (Nat.lt_succ_of_lt hk)]
    · subst hk
      rw [if_neg (Nat.lt_irrefl k)] at ih
      rw [if_pos (Nat.lt_succ_self k)]
      exact store32_shift ih (by omega)
    · have hapart := copyStart_apart (g := g) (x := 4 * cluster + 3) (y := x) hk (by omega)
      rw [ByteMem.store32_apply_disjoint (by omega), ih, if_neg (by omega), if_neg (by omega)]

/-- An entry written to a window that has its sector. -/
theorem setInWindow_spec (hg : g.bytesPerSector = 512) {s : Fs} (h : Windowed g s) {w : FatCache}
    (hs : s.fatCache = some w) {cluster : Nat} (hc : InFat g cluster) (hw : w.Has (sectorInFat g cluster))
    (value : Nat) :
    Windowed g (setInWindow g s w cluster value) ∧
    ∀ x, fatByte g (setInWindow g s w cluster value) x = store32 (fatByte g s) (4 * cluster) value x := by
  have hok := h.window w hs
  refine ⟨⟨h.copies, fun w' hw' => ?_⟩, fun x => ?_⟩
  · cases hw'
    exact ⟨hok.pos, hok.inside, fun hd => by cases hd⟩
  · have hsec := (sectorInFat_eq hg hc).1
    have hoff := offset_eq hg hc hw.1
    rw [hsec] at hw
    unfold FatCache.Has at hw
    have hbyte : fatByte g s x = if w.Has (x / 512) then w.bytes (x - w.start * 512)
        else s.disk (copyStart g 0 + x) := by
      unfold fatByte
      rw [hs]
    show (if w.Has (x / 512) then store32 w.bytes (w.offset g cluster) value (x - w.start * 512)
      else s.disk (copyStart g 0 + x)) = _
    by_cases hhas : w.Has (x / 512)
    · rw [if_pos hhas] at hbyte ⊢
      rw [hoff]
      unfold FatCache.Has at hhas
      exact (store32_shift hbyte (by omega)).symm
    · rw [if_neg hhas] at hbyte ⊢
      unfold FatCache.Has at hhas
      rw [ByteMem.store32_apply_disjoint (by omega), hbyte]

/-- An entry written without a window goes to every copy. -/
theorem writeEntry_spec (hg : FatOnDevice g) {s : Fs} (h : Windowed g s) (hs : s.fatCache = none)
    {cluster : Nat} (hc : InFat g cluster) (value : Nat) :
    Windowed g { s with disk := writeEntryCopies g s.disk cluster value g.tableCount } ∧
    ∀ x < g.fatSize * 512, fatByte g { s with disk := writeEntryCopies g s.disk cluster value g.tableCount } x =
      store32 (fatByte g s) (4 * cluster) value x := by
  have hcopy := fun k x hx => writeEntryCopies_apply hg.bytesPerSector s.disk value hc k (x := x) hx g.tableCount
  have hbyte : ∀ t : Fs, t.fatCache = none → fatByte g t = fun x => t.disk (copyStart g 0 + x) := by
    intro t ht
    funext x
    unfold fatByte
    rw [ht]
  refine ⟨⟨fun k hk x hx => ?_, fun w hw => ?_⟩, fun x hx => ?_⟩
  · dsimp only
    rw [hcopy k x hx, hcopy 0 x hx, if_pos hk, if_pos hg.tableCount]
    exact store32_shift (h.copies k hk x hx) rfl
  · have hnone : s.fatCache = some w := hw
    rw [hs] at hnone
    cases hnone
  · rw [hbyte s hs, hbyte { s with disk := writeEntryCopies g s.disk cluster value g.tableCount } hs]
    dsimp only
    rw [hcopy 0 x hx, if_pos hg.tableCount]

/-- An entry written is written in the FAT as the driver sees it. -/
theorem fat32WriteFatEntry_spec (hg : FatOnDevice g) {s : Fs} (h : Windowed g s) {cluster : Nat}
    (hc : InFat g cluster) (value : Nat) :
    ∃ s', fat32WriteFatEntry g s cluster value = .ok ((), s') ∧ Windowed g s' ∧
      ∀ x < g.fatSize * 512, fatByte g s' x = store32 (fatByte g s) (4 * cluster) (entryValue value) x := by
  unfold fat32WriteFatEntry
  dsimp only
  cases hs : s.fatCache with
  | none =>
    obtain ⟨hwin, hbyte⟩ := writeEntry_spec hg h hs hc (entryValue value)
    rw [hs] at hwin hbyte
    exact ⟨_, rfl, hwin, hbyte⟩
  | some w =>
    dsimp only
    split
    · rename_i hhas
      obtain ⟨hwin, hbyte⟩ := setInWindow_spec hg.bytesPerSector h hs hc hhas (entryValue value)
      exact ⟨_, rfl, hwin, fun x _ => hbyte x⟩
    · obtain ⟨s1, hread, h1, hsame, hhas⟩ := fat32ReadFatEntry_spec hg h hc
      rw [hread]
      dsimp only
      cases hs1 : s1.fatCache with
      | none =>
        obtain ⟨hwin, hbyte⟩ := writeEntry_spec hg h1 hs1 hc (entryValue value)
        rw [hs1] at hwin hbyte
        exact ⟨_, rfl, hwin, fun x hx => (hbyte x hx).trans (store32_shift (hsame x hx) rfl)⟩
      | some w1 =>
        dsimp only
        rw [if_pos (hhas w1 hs1)]
        obtain ⟨hwin, hbyte⟩ := setInWindow_spec hg.bytesPerSector h1 hs1 hc (hhas w1 hs1) (entryValue value)
        exact ⟨_, rfl, hwin, fun x hx => (hbyte x).trans (store32_shift (hsame x hx) rfl)⟩

/-! ## The array -/

inductive FatCall where
  | read (cluster : Nat)
  | write (cluster value : Nat)
  | flush

/-- The cluster number of the call has an entry. -/
def FatCall.Inside (g : Geometry) : FatCall → Prop
  | .read cluster => InFat g cluster
  | .write cluster _ => InFat g cluster
  | .flush => True

/-- A call of the driver; a read gives the entry. -/
def fatCall (g : Geometry) (s : Fs) : FatCall → Except Stop (Option Nat × Fs)
  | .read cluster => (fat32ReadFatEntry g s cluster).map fun r => (some r.1, r.2)
  | .write cluster value => (fat32WriteFatEntry g s cluster value).map fun r => (none, r.2)
  | .flush => .ok (none, fat32FlushFatCache g s)

/-- Calls in turn, with what the reads give. -/
def fatCalls (g : Geometry) (s : Fs) : List FatCall → Except Stop (List (Option Nat) × Fs)
  | [] => .ok ([], s)
  | call :: calls =>
    match fatCall g s call with
    | .error e => .error e
    | .ok (r, s) =>
      match fatCalls g s calls with
      | .error e => .error e
      | .ok (rs, s) => .ok (r :: rs, s)

/-- The same call on a flat array of entries. -/
def arrayCall (a : Nat → Nat) : FatCall → Option Nat × (Nat → Nat)
  | .read cluster => (some (a cluster), a)
  | .write cluster value => (none, update a cluster (entryValue value))
  | .flush => (none, a)

def arrayCalls (a : Nat → Nat) : List FatCall → List (Option Nat) × (Nat → Nat)
  | [] => ([], a)
  | call :: calls =>
    let (r, a) := arrayCall a call
    let (rs, a) := arrayCalls a calls
    (r :: rs, a)

/-- The array is what the driver sees of the FAT. -/
structure Shows (g : Geometry) (s : Fs) (a : Nat → Nat) : Prop where
  windowed : Windowed g s
  entries : ∀ cluster, InFat g cluster → entryValue (load32 (fatByte g s) (4 * cluster)) = a cluster

theorem Shows.same {s s' : Fs} {a : Nat → Nat} (h : Shows g s a) (hw : Windowed g s')
    (hsame : ∀ x < g.fatSize * 512, fatByte g s' x = fatByte g s x) : Shows g s' a := by
  refine ⟨hw, fun cluster hc => ?_⟩
  have hword : AgreeOn (fatByte g s) (fatByte g s') (4 * cluster) (4 * cluster + 4) := fun x _ hx =>
    hsame x (by have := hc.1; omega)
  rw [hword.load32 (Nat.le_refl _) (Nat.le_refl _)]
  exact h.entries cluster hc

theorem entryValue_idem (value : Nat) : entryValue (entryValue value % 2 ^ 32) = entryValue value := by
  unfold entryValue
  omega

/-- What one call preserves. -/
theorem Shows.call (hg : FatOnDevice g) {s : Fs} {a : Nat → Nat} (h : Shows g s a) {call : FatCall}
    (hin : call.Inside g) :
    ∃ s', fatCall g s call = .ok ((arrayCall a call).1, s') ∧ Shows g s' (arrayCall a call).2 := by
  cases call with
  | read cluster =>
    obtain ⟨s', hrun, hwin, hsame, _⟩ := fat32ReadFatEntry_spec hg h.windowed hin
    refine ⟨s', ?_, h.same hwin hsame⟩
    rw [h.entries cluster hin] at hrun
    dsimp only [fatCall]
    rw [hrun]
    rfl
  | write cluster value =>
    obtain ⟨s', hrun, hwin, hbyte⟩ := fat32WriteFatEntry_spec hg h.windowed hin value
    refine ⟨s', by dsimp only [fatCall]; rw [hrun]; rfl, hwin, fun c hc => ?_⟩
    have hword : AgreeOn (store32 (fatByte g s) (4 * cluster) (entryValue value)) (fatByte g s')
        (4 * c) (4 * c + 4) := fun x _ hx => hbyte x (by have := hc.1; omega)
    rw [hword.load32 (Nat.le_refl _) (Nat.le_refl _)]
    show _ = update a cluster (entryValue value) c
    by_cases hcc : c = cluster
    · subst hcc
      rw [update_self, ByteMem.load32_store32, entryValue_idem]
    · rw [update_of_ne hcc, ByteMem.load32_store32_disjoint (by omega)]
      exact h.entries c hc
  | flush =>
    obtain ⟨hwin, hsame, _⟩ := fat32FlushFatCache_spec hg h.windowed
    exact ⟨_, rfl, h.same hwin hsame⟩

/-- And a whole run. -/
theorem Shows.calls (hg : FatOnDevice g) {calls : List FatCall} : ∀ {s : Fs} {a : Nat → Nat}, Shows g s a →
    (∀ call ∈ calls, call.Inside g) →
    ∃ s', fatCalls g s calls = .ok ((arrayCalls a calls).1, s') ∧ Shows g s' (arrayCalls a calls).2 := by
  induction calls with
  | nil => intro s a h _; exact ⟨s, rfl, h⟩
  | cons call calls ih =>
    intro s a h hin
    obtain ⟨s1, hrun, h1⟩ := h.call hg (hin call List.mem_cons_self)
    obtain ⟨s2, hrest, h2⟩ := ih h1 fun c hc => hin c (List.mem_cons_of_mem _ hc)
    refine ⟨s2, ?_, h2⟩
    unfold fatCalls
    rw [hrun]
    dsimp only
    rw [hrest]
    rfl

theorem copyStart_zero (g : Geometry) : copyStart g 0 = g.fatStartLba * 512 := by
  unfold copyStart
  rw [Nat.zero_mul, Nat.add_zero]

/-- The window at mount has the first sectors of the FAT, as they are on the device. -/
theorem shows_mount (hg : FatOnDevice g) {disk : Mem} (heq : CopiesEqual g disk) (allocated : Bool) :
    Shows g (fat32Mount g disk allocated) (diskEntry g disk 0) := by
  have hwindow : ∀ w, (fat32Mount g disk allocated).fatCache = some w → w.start = 0 ∧
      w.sectors = min g.fatSize 64 ∧ ∀ x < w.sectors * 512, w.bytes x = disk (copyStart g 0 + x) := by
    intro w hw
    cases allocated with
    | false => cases hw
    | true =>
      cases hw
      refine ⟨rfl, rfl, fun x hx => ?_⟩
      have hx' : x < 0 + min g.fatSize 64 * 512 := by
        rw [Nat.zero_add]
        exact hx
      rw [copyStart_zero]
      dsimp only
      rw [ByteMem.blit_inside (Nat.zero_le x) hx', Nat.sub_zero]
  refine ⟨⟨heq, fun w hw => ?_⟩, fun cluster hc => ?_⟩
  · obtain ⟨hstart, hsectors, hbytes⟩ := hwindow w hw
    have hfat := hg.fatSize
    refine ⟨by omega, by omega, fun _ x hx => ?_⟩
    rw [hbytes x hx, hstart, Nat.zero_mul, Nat.zero_add]
    rfl
  · have hbyte : fatByte g (fat32Mount g disk allocated) = fun x => disk (copyStart g 0 + x) := by
      funext x
      unfold fatByte
      cases hs : (fat32Mount g disk allocated).fatCache with
      | none => rfl
      | some w =>
        obtain ⟨hstart, hsectors, hbytes⟩ := hwindow w hs
        dsimp only
        split
        · rename_i hhas
          unfold FatCache.Has at hhas
          rw [hstart] at hhas ⊢
          rw [Nat.zero_mul, Nat.sub_zero]
          exact hbytes x (by omega)
        · rfl
    rw [hbyte, load32_shift]
    rfl

/-- The window refines a flat array: after the mount every sequence of calls gives
what it gives on the array that the device holds at mount, and a flush afterwards
puts the array on every copy. -/
theorem fatWindow_refines (hg : FatOnDevice g) {disk : Mem} (heq : CopiesEqual g disk) (allocated : Bool)
    {calls : List FatCall} (hin : ∀ call ∈ calls, call.Inside g) :
    ∃ s, fatCalls g (fat32Mount g disk allocated) calls =
        .ok ((arrayCalls (diskEntry g disk 0) calls).1, s) ∧
      ∀ k < g.tableCount, ∀ cluster, InFat g cluster →
        diskEntry g (fat32FlushFatCache g s).disk k cluster =
          (arrayCalls (diskEntry g disk 0) calls).2 cluster := by
  obtain ⟨s, hrun, hs⟩ := (shows_mount hg heq allocated).calls hg hin
  refine ⟨s, hrun, fun k hk cluster hc => ?_⟩
  obtain ⟨_, _, hdisk⟩ := fat32FlushFatCache_spec hg hs.windowed
  have hword : AgreeOn (fatByte g s) (fun x => (fat32FlushFatCache g s).disk (copyStart g k + x))
      (4 * cluster) (4 * cluster + 4) := fun x _ hx => hdisk k hk x (by have := hc.1; omega)
  rw [← hs.entries cluster hc, ← hword.load32 (Nat.le_refl _) (Nat.le_refl _), load32_shift]
  rfl

/-- Two copies of a FAT that is one sector longer than the window. -/
def longFat : Geometry where
  bytesPerSector := 512
  sectorsPerCluster := 1
  tableCount := 2
  fatSize := 65
  rootCluster := 2
  fatStartLba := 32
  clusterHeapStartLba := 162
  readOnly := false

/-- An entry of the last sector written, read after the window has been elsewhere. -/
theorem fatWindow_refines_longFat : ∃ s,
    fatCalls longFat (fat32Mount longFat (fun _ => 0) true) [.write 8300 7, .read 2, .read 8300] =
        .ok ((arrayCalls (diskEntry longFat (fun _ => 0) 0) [.write 8300 7, .read 2, .read 8300]).1, s) ∧
      ∀ k < 2, ∀ cluster, InFat longFat cluster →
        diskEntry longFat (fat32FlushFatCache longFat s).disk k cluster =
          (arrayCalls (diskEntry longFat (fun _ => 0) 0) [.write 8300 7, .read 2, .read 8300]).2 cluster := by
  have hin : ∀ cluster, cluster < 8320 → InFat longFat cluster := by
    intro cluster hc
    have hfat : cluster < longFat.fatSize * 128 := by
      show cluster < 65 * 128
      omega
    exact ⟨hfat, by omega⟩
  have hdevice : FatOnDevice longFat := ⟨rfl, by decide, by decide, by norm_num [longFat]⟩
  have hequal : CopiesEqual longFat fun _ => 0 := fun _ _ _ _ => rfl
  refine fatWindow_refines hdevice hequal true ?_
  intro call hcall
  simp only [List.mem_cons, List.not_mem_nil, or_false] at hcall
  rcases hcall with rfl | rfl | rfl
  · exact hin 8300 (by omega)
  · exact hin 2 (by omega)
  · exact hin 8300 (by omega)

end Serotonin.Fat32
