import Serotonin.Fat32.Window
import Mathlib.Data.List.Perm.Subperm

/-! A mounted volume as the operations of the driver see it: an array for the FAT, and the
sectors behind it. What the window does to the device does not show. -/

namespace Serotonin.Fat32

open Function List
open ByteMem (Mem u32 load32 store32 blit AgreeOn)
open ByteMem (blit_outside u32_of_lt blit_inside)

variable {g : Geometry}

/-- The sectors of the FAT itself are not read here. -/
structure Volume where
  fat : Nat → Nat
  disk : Mem

instance (g : Geometry) (cluster : Nat) : Decidable (InFat g cluster) := inferInstanceAs (Decidable (_ ∧ _))

/-- The calls on a volume; calls outside the array or into its sectors are not covered. -/
def onVolume (g : Geometry) : Prog.Handler Ret Stop Volume
  | .readFatEntry cluster, v => if InFat g cluster then .ok (v.fat cluster, v) else .error .lost
  | .writeFatEntry cluster value, v =>
    if InFat g cluster then .ok ((), { v with fat := update v.fat cluster (entryValue value) })
    else .error .lost
  | .flushFatCache, v => .ok ((), v)
  | .readSectors lba _, v =>
    if g.clusterHeapStartLba ≤ lba then .ok (fun x => v.disk (lba * 512 + x), v) else .error .lost
  | .writeSector lba buf, v =>
    if g.clusterHeapStartLba ≤ lba then .ok ((), { v with disk := blit v.disk (lba * 512) buf 0 512 })
    else .error .lost
  | .flush, v => .ok ((), v)

theorem Geometry.Valid.onDevice (hg : g.Valid) : FatOnDevice g := by
  refine ⟨hg.bytesPerSector, hg.fatSize, hg.tableCount, ?_⟩
  have h := hg.sectors
  rw [hg.clusterHeap] at h
  omega

/-! ## Behind the FAT -/

/-- The sectors behind the FAT are as they were. -/
def SameHeap (g : Geometry) (s s' : Fs) : Prop := ∀ x, g.clusterHeapStartLba * 512 ≤ x → s'.disk x = s.disk x

theorem SameHeap.refl (s : Fs) : SameHeap g s s := fun _ _ => rfl

theorem SameHeap.trans {s s' s'' : Fs} (h : SameHeap g s s') (h' : SameHeap g s' s'') : SameHeap g s s'' :=
  fun x hx => (h' x hx).trans (h x hx)

/-- A sector of a copy of the FAT comes before the clusters. -/
theorem Geometry.Valid.copy_lt (hg : g.Valid) {k sector : Nat} (hk : k < g.tableCount) (hs : sector < g.fatSize) :
    g.fatStartLba + k * g.fatSize + sector < g.clusterHeapStartLba := by
  have hmul : (k + 1) * g.fatSize ≤ g.tableCount * g.fatSize := Nat.mul_le_mul_right _ hk
  rw [Nat.add_mul, Nat.one_mul] at hmul
  rw [hg.clusterHeap]
  omega

theorem writeCopies_heap (hg : g.Valid) (disk : Mem) {w : FatCache} (hpos : 0 < w.sectors)
    (hw : w.start + w.sectors ≤ g.fatSize) {x : Nat} (hx : g.clusterHeapStartLba * 512 ≤ x) :
    ∀ n ≤ g.tableCount, writeCopies g disk w n x = disk x := by
  intro n
  induction n with
  | zero => exact fun _ => rfl
  | succ n ih =>
    intro hn
    have hlt := hg.copy_lt hn (show w.start + w.sectors - 1 < g.fatSize by omega)
    unfold writeCopies
    rw [writeWindow_apply hg.bytesPerSector, if_neg (by omega)]
    exact ih (Nat.le_of_succ_le hn)

theorem writeEntryCopies_heap (hg : g.Valid) (disk : Mem) {cluster : Nat} (value : Nat) (hc : InFat g cluster)
    {x : Nat} (hx : g.clusterHeapStartLba * 512 ≤ x) :
    ∀ n ≤ g.tableCount, writeEntryCopies g disk cluster value n x = disk x := by
  obtain ⟨hsec, hoff⟩ := sectorInFat_eq hg.bytesPerSector hc
  have hin := hc.1
  intro n
  induction n with
  | zero => exact fun _ => rfl
  | succ n ih =>
    intro hn
    have hlt := hg.copy_lt hn (show sectorInFat g cluster < g.fatSize by omega)
    unfold writeEntryCopies
    rw [ByteMem.store32_apply_disjoint (by omega)]
    exact ih (Nat.le_of_succ_le hn)

theorem flush_heap (hg : g.Valid) {s : Fs} (h : Windowed g s) : SameHeap g s (fat32FlushFatCache g s) := by
  intro x hx
  unfold fat32FlushFatCache
  cases hs : s.fatCache with
  | none => rfl
  | some w =>
    have hw := h.window w hs
    dsimp only
    split
    · exact writeCopies_heap hg s.disk hw.pos hw.inside hx g.tableCount (Nat.le_refl _)
    · rfl

theorem reload_heap (hg : g.Valid) {s : Fs} (h : Windowed g s) (w : FatCache) (sector : Nat) :
    SameHeap g s (reload g s w sector) := by
  intro x hx
  unfold reload
  dsimp only
  split
  · exact flush_heap hg h x hx
  · rfl

theorem readFatEntry_heap (hg : g.Valid) {s s' : Fs} (h : Windowed g s) {cluster r : Nat}
    (hrun : fat32ReadFatEntry g s cluster = .ok (r, s')) : SameHeap g s s' := by
  unfold fat32ReadFatEntry at hrun
  cases hs : s.fatCache with
  | none =>
    rw [hs] at hrun
    cases hrun
    exact .refl s
  | some w =>
    rw [hs] at hrun
    dsimp only at hrun
    split at hrun
    · cases hrun
      exact .refl s
    · have hheap := reload_heap hg h w (sectorInFat g cluster)
      cases hs' : (reload g s w (sectorInFat g cluster)).fatCache with
      | none =>
        rw [hs'] at hrun
        cases hrun
      | some w' =>
        rw [hs'] at hrun
        dsimp only at hrun
        split at hrun
        · cases hrun
          exact hheap
        · cases hrun

theorem writeFatEntry_heap (hg : g.Valid) {s s' : Fs} (h : Windowed g s) {cluster value : Nat} {u : Unit}
    (hc : InFat g cluster) (hrun : fat32WriteFatEntry g s cluster value = .ok (u, s')) : SameHeap g s s' := by
  have hcopies : ∀ (t : Fs) (c : Option FatCache), SameHeap g t
      { disk := writeEntryCopies g t.disk cluster (entryValue value) g.tableCount, fatCache := c } := fun t _ x hx =>
    writeEntryCopies_heap hg t.disk _ hc hx g.tableCount (Nat.le_refl _)
  unfold fat32WriteFatEntry at hrun
  cases hs : s.fatCache with
  | none =>
    rw [hs] at hrun
    cases hrun
    exact hcopies s _
  | some w =>
    rw [hs] at hrun
    dsimp only at hrun
    split at hrun
    · cases hrun
      exact .refl s
    · cases hread : fat32ReadFatEntry g s cluster with
      | error e =>
        rw [hread] at hrun
        cases hrun
      | ok r =>
        obtain ⟨r, s₁⟩ := r
        rw [hread] at hrun
        dsimp only at hrun
        have hheap := readFatEntry_heap hg h hread
        cases hs₁ : s₁.fatCache with
        | none =>
          rw [hs₁] at hrun
          cases hrun
          exact hheap.trans (hcopies s₁ _)
        | some w₁ =>
          rw [hs₁] at hrun
          dsimp only at hrun
          split at hrun
          · cases hrun
            exact hheap
          · cases hrun
            exact hheap.trans (hcopies s₁ _)

/-! ## The machine and the volume -/

/-- The volume that a machine state shows. -/
structure Mounted (g : Geometry) (s : Fs) (v : Volume) : Prop where
  shows : Shows g s v.fat
  heap : ∀ x, g.clusterHeapStartLba * 512 ≤ x → s.disk x = v.disk x

theorem Shows.writeSector (hg : g.Valid) {s : Fs} {a : Nat → Nat} (h : Shows g s a) {lba : Nat}
    (hlba : g.clusterHeapStartLba ≤ lba) (buf : Mem) :
    Shows g { s with disk := blit s.disk (lba * 512) buf 0 512 } a := by
  have hsame : ∀ k < g.tableCount, ∀ x < g.fatSize * 512,
      blit s.disk (lba * 512) buf 0 512 (copyStart g k + x) = s.disk (copyStart g k + x) := by
    intro k hk x hx
    have hlt := hg.copy_lt hk (show x / 512 < g.fatSize by omega)
    unfold copyStart
    exact blit_outside (by omega)
  have hbyte : ∀ x < g.fatSize * 512, fatByte g { s with disk := blit s.disk (lba * 512) buf 0 512 } x = fatByte g s x := by
    intro x hx
    unfold fatByte
    dsimp only
    rw [hsame 0 hg.tableCount x hx]
  refine h.same ⟨fun k hk x hx => ?_, fun w hw => ?_⟩ hbyte
  · dsimp only
    rw [hsame k hk x hx, hsame 0 hg.tableCount x hx]
    exact h.windowed.copies k hk x hx
  · obtain ⟨hpos, hin, hclean⟩ := h.windowed.window w hw
    refine ⟨hpos, hin, fun hd x hx => ?_⟩
    dsimp only
    rw [hsame 0 hg.tableCount _ (by omega)]
    exact hclean hd x hx

/-- Every call on the machine is the call on the volume. -/
theorem Mounted.call (hg : g.Valid) (o : Op) (s : Fs) (v : Volume) (h : Mounted g s v) :
    Prog.Follows .lost (Mounted g) (onDisk g o s) (onVolume g o v) := by
  have hlost : ∀ {α : Type} {x : Except Stop (α × Fs)}, Prog.Follows .lost (Mounted g) x (.error .lost) :=
    fun hne => absurd rfl hne
  cases o with
  | readFatEntry cluster =>
    by_cases hc : InFat g cluster
    · obtain ⟨_, hread, hwin, hsame, _⟩ := fat32ReadFatEntry_spec hg.onDevice h.shows.windowed hc
      rw [h.shows.entries cluster hc] at hread
      rw [show onVolume g (.readFatEntry cluster) v = .ok (v.fat cluster, v) from if_pos hc]
      refine ⟨_, hread, h.shows.same hwin hsame, fun x hx => ?_⟩
      exact (readFatEntry_heap hg h.shows.windowed hread x hx).trans (h.heap x hx)
    · rw [show onVolume g (.readFatEntry cluster) v = .error .lost from if_neg hc]
      exact hlost
  | writeFatEntry cluster value =>
    by_cases hc : InFat g cluster
    · obtain ⟨s', hrun, hs'⟩ := h.shows.call hg.onDevice (show FatCall.Inside g (.write cluster value) from hc)
      obtain ⟨⟨_, r⟩, hwrite, hr⟩ : ∃ r, fat32WriteFatEntry g s cluster value = .ok r ∧ r.2 = s' := by
        dsimp only [fatCall] at hrun
        cases hw : fat32WriteFatEntry g s cluster value with
        | error e =>
          rw [hw] at hrun
          cases hrun
        | ok r =>
          rw [hw] at hrun
          exact ⟨r, rfl, congrArg Prod.snd (Except.ok.inj hrun)⟩
      subst hr
      rw [show onVolume g (.writeFatEntry cluster value) v =
        .ok ((), { v with fat := update v.fat cluster (entryValue value) }) from if_pos hc]
      refine ⟨r, hwrite, hs', fun x hx => ?_⟩
      exact (writeFatEntry_heap hg h.shows.windowed hc hwrite x hx).trans (h.heap x hx)
    · rw [show onVolume g (.writeFatEntry cluster value) v = .error .lost from if_neg hc]
      exact hlost
  | flushFatCache =>
    obtain ⟨hwin, hsame, _⟩ := fat32FlushFatCache_spec hg.onDevice h.shows.windowed
    exact ⟨_, rfl, h.shows.same hwin hsame, fun x hx => (flush_heap hg h.shows.windowed x hx).trans (h.heap x hx)⟩
  | readSectors lba count =>
    by_cases hlba : g.clusterHeapStartLba ≤ lba
    · rw [show onVolume g (.readSectors lba count) v = .ok (fun x => v.disk (lba * 512 + x), v) from if_pos hlba]
      have hdata : (fun x => s.disk (lba * 512 + x)) = fun x => v.disk (lba * 512 + x) :=
        funext fun x => h.heap _ (by omega)
      exact ⟨s, congrArg (fun m => Except.ok (m, s)) hdata, h⟩
    · rw [show onVolume g (.readSectors lba count) v = .error .lost from if_neg hlba]
      exact hlost
  | writeSector lba buf =>
    by_cases hlba : g.clusterHeapStartLba ≤ lba
    · rw [show onVolume g (.writeSector lba buf) v =
        .ok ((), { v with disk := blit v.disk (lba * 512) buf 0 512 }) from if_pos hlba]
      refine ⟨_, rfl, h.shows.writeSector hg hlba buf, fun x hx => ?_⟩
      show blit s.disk (lba * 512) buf 0 512 x = blit v.disk (lba * 512) buf 0 512 x
      unfold blit
      rw [h.heap x hx]
    · rw [show onVolume g (.writeSector lba buf) v = .error .lost from if_neg hlba]
      exact hlost
  | flush => exact ⟨s, rfl, h⟩

/-- What a program does on the volume it does on the machine. -/
theorem Mounted.run (hg : g.Valid) {α : Type} {p : FatM α} {s : Fs} {v v' : Volume} {a : α} (h : Mounted g s v)
    (hrun : Prog.run (onVolume g) p v = .ok (a, v')) :
    ∃ s', Prog.run (onDisk g) p s = .ok (a, s') ∧ Mounted g s' v' :=
  Prog.run_follows_ok (fun o s v hm => hm.call hg o s v) h hrun

theorem mounted_mount (hg : g.Valid) {disk : Mem} (heq : CopiesEqual g disk) (allocated : Bool) :
    Mounted g (fat32Mount g disk allocated) ⟨diskEntry g disk 0, disk⟩ :=
  ⟨shows_mount hg.onDevice heq allocated, fun _ _ => rfl⟩

/-! ## Clusters -/

/-- The numbers of the clusters that the FAT has entries for. -/
def HasData (g : Geometry) (cluster : Nat) : Prop := 2 ≤ cluster ∧ cluster < g.fatSize * 128

instance (g : Geometry) (cluster : Nat) : Decidable (HasData g cluster) := inferInstanceAs (Decidable (_ ∧ _))

section Data

variable {c c' : Nat}

theorem HasData.isCluster (hg : g.Valid) (hc : HasData g c) : IsCluster c :=
  ⟨hc.1, Nat.lt_of_lt_of_le hc.2 hg.clusters⟩

theorem HasData.inFat (hg : g.Valid) (hc : HasData g c) : InFat g c := by
  have h := hg.clusters
  have hlt := hc.2
  unfold fat32ClusterEnd at h
  exact ⟨hlt, by omega⟩

theorem Geometry.Valid.clusterSize_eq (hg : g.Valid) : g.clusterSize = g.sectorsPerCluster * 512 := by
  unfold Geometry.clusterSize
  rw [hg.bytesPerSector, Nat.mul_comm]

/-- The sectors of a cluster are behind the FAT and on the device. -/
theorem HasData.firstSector (hg : g.Valid) (hc : HasData g c) :
    Fat32.firstSector g c = g.clusterHeapStartLba + (c - 2) * g.sectorsPerCluster ∧
      Fat32.firstSector g c + g.sectorsPerCluster ≤ 2 ^ 32 := by
  have hmul : (c - 2 + 1) * g.sectorsPerCluster ≤ g.fatSize * 128 * g.sectorsPerCluster :=
    Nat.mul_le_mul_right _ (by have := hc.1; have := hc.2; omega)
  rw [Nat.add_mul, Nat.one_mul] at hmul
  have hsec := hg.sectors
  have hspc := hg.sectorsPerCluster.1
  have heq : Fat32.firstSector g c = g.clusterHeapStartLba + (c - 2) * g.sectorsPerCluster :=
    u32_of_lt (by omega)
  exact ⟨heq, by omega⟩

/-- Sectors of different clusters lie apart. -/
theorem HasData.apart (hg : g.Valid) (hc : HasData g c) (hc' : HasData g c') (hlt : c < c') :
    Fat32.firstSector g c + g.sectorsPerCluster ≤ Fat32.firstSector g c' := by
  rw [(hc.firstSector hg).1, (hc'.firstSector hg).1]
  have hmul : (c - 2 + 1) * g.sectorsPerCluster ≤ (c' - 2) * g.sectorsPerCluster :=
    Nat.mul_le_mul_right _ (by have := hc.1; omega)
  rw [Nat.add_mul, Nat.one_mul] at hmul
  omega

/-- The bytes of a cluster, as the driver reads them into a buffer. -/
def Volume.cluster (g : Geometry) (v : Volume) (c : Nat) : Mem :=
  blit (fun _ => 0) 0 (fun x => v.disk (Fat32.firstSector g c * 512 + x)) 0 g.clusterSize

def Volume.setCluster (g : Geometry) (v : Volume) (c : Nat) (buf : Mem) : Volume :=
  { v with disk := blit v.disk (Fat32.firstSector g c * 512) buf 0 g.clusterSize }

theorem Volume.cluster_apply (v : Volume) (c : Nat) {x : Nat} (hx : x < g.clusterSize) :
    v.cluster g c x = v.disk (Fat32.firstSector g c * 512 + x) := by
  unfold Volume.cluster
  rw [blit_inside (Nat.zero_le x) (by omega), Nat.sub_zero, Nat.zero_add]

theorem Volume.cluster_outside (v : Volume) (c : Nat) {x : Nat} (hx : g.clusterSize ≤ x) : v.cluster g c x = 0 :=
  blit_outside (by omega)

@[simp] theorem Volume.setCluster_fat (v : Volume) (c : Nat) (buf : Mem) : (v.setCluster g c buf).fat = v.fat := rfl

theorem Volume.cluster_setCluster (v : Volume) (c : Nat) (buf : Mem) {x : Nat} (hx : x < g.clusterSize) :
    (v.setCluster g c buf).cluster g c x = buf x := by
  rw [Volume.cluster_apply _ _ hx]
  show blit v.disk (Fat32.firstSector g c * 512) buf 0 g.clusterSize _ = buf x
  rw [blit_inside (by omega) (by omega), Nat.zero_add, Nat.add_sub_cancel_left]

theorem Volume.cluster_setCluster_of_ne (hg : g.Valid) (v : Volume) (hc : HasData g c) (hc' : HasData g c') (hne : c' ≠ c)
    (buf : Mem) : (v.setCluster g c buf).cluster g c' = v.cluster g c' := by
  funext x
  by_cases hx : x < g.clusterSize
  · rw [Volume.cluster_apply _ _ hx, Volume.cluster_apply _ _ hx]
    rw [hg.clusterSize_eq] at hx
    unfold Volume.setCluster
    rw [hg.clusterSize_eq]
    rcases Nat.lt_or_gt_of_ne hne with hlt | hlt
    · have hapart := hc'.apart hg hc hlt
      exact blit_outside (by omega)
    · have hapart := hc.apart hg hc' hlt
      exact blit_outside (by omega)
  · rw [Volume.cluster_outside _ _ (Nat.not_lt.mp hx), Volume.cluster_outside _ _ (Nat.not_lt.mp hx)]

end Data

section Runs

variable {c : Nat} {v : Volume} {buf : Mem}

theorem run_readFatEntry (hg : g.Valid) (hc : HasData g c) :
    Prog.run (onVolume g) (readFatEntry c) v = .ok (v.fat c, v) :=
  (Prog.run_perform (h := onVolume g) (Op.readFatEntry c) v).trans (if_pos (hc.inFat hg))

theorem run_writeFatEntry (hg : g.Valid) (hc : HasData g c) (value : Nat) :
    Prog.run (onVolume g) (writeFatEntry c value) v =
      .ok ((), { v with fat := update v.fat c (entryValue value) }) :=
  (Prog.run_perform (h := onVolume g) (Op.writeFatEntry c value) v).trans (if_pos (hc.inFat hg))

theorem run_readSectors {lba : Nat} (hlba : g.clusterHeapStartLba ≤ lba) (count : Nat) :
    Prog.run (onVolume g) (blkcacheReadSectors lba count) v = .ok (fun x => v.disk (lba * 512 + x), v) :=
  (Prog.run_perform (h := onVolume g) (Op.readSectors lba count) v).trans (if_pos hlba)

theorem run_writeSector {lba : Nat} (hlba : g.clusterHeapStartLba ≤ lba) (buf : Mem) :
    Prog.run (onVolume g) (blkcacheWriteSector lba buf) v =
      .ok ((), { v with disk := blit v.disk (lba * 512) buf 0 512 }) :=
  (Prog.run_perform (h := onVolume g) (Op.writeSector lba buf) v).trans (if_pos hlba)

theorem run_readCluster (hg : g.Valid) (hc : HasData g c) (buf : Mem) :
    Prog.run (onVolume g) (fat32ReadCluster g c buf) v = .ok (blit buf 0 (v.cluster g c) 0 g.clusterSize, v) := by
  obtain ⟨hfirst, _⟩ := hc.firstSector hg
  unfold fat32ReadCluster
  rw [if_pos (hc.isCluster hg), Prog.run_bind_ok (run_readSectors (by omega) _), Prog.run_pure, ← hg.clusterSize_eq]
  congr 2
  funext x
  by_cases hx : x < g.clusterSize
  · rw [blit_inside (Nat.zero_le x) (by omega), blit_inside (Nat.zero_le x) (by omega), Nat.zero_add,
      Nat.sub_zero, Volume.cluster_apply _ _ hx]
  · rw [blit_outside (by omega), blit_outside (by omega)]

/-- Into a buffer of zeros. -/
theorem run_readCluster_zero (hg : g.Valid) (hc : HasData g c) :
    Prog.run (onVolume g) (fat32ReadCluster g c fun _ => 0) v = .ok (v.cluster g c, v) := by
  rw [run_readCluster hg hc]
  congr 2
  funext x
  by_cases hx : x < g.clusterSize
  · rw [blit_inside (Nat.zero_le x) (by omega), Nat.zero_add, Nat.sub_zero]
  · rw [blit_outside (by omega), Volume.cluster_outside _ _ (by omega)]

theorem run_writeSectors (hg : g.Valid) {first : Nat} (hfirst : g.clusterHeapStartLba ≤ first) (buf : Mem) :
    ∀ n, first + n ≤ 2 ^ 32 → Prog.run (onVolume g) (writeSectors g first buf n) v =
      .ok ((), { v with disk := blit v.disk (first * 512) buf 0 (n * 512) }) := by
  intro n
  induction n with
  | zero =>
    intro _
    rw [Nat.zero_mul, ByteMem.blit_zero]
    rfl
  | succ n ih =>
    intro hn
    have hu : u32 (first + n) = first + n := u32_of_lt (Nat.lt_of_succ_le hn)
    rw [writeSectors, Prog.run_bind_ok (ih (Nat.le_of_succ_le hn)), hu, run_writeSector (Nat.le_add_right_of_le hfirst),
      hg.bytesPerSector, Nat.add_mul first n 512, ByteMem.blit_append, Nat.succ_mul]

theorem run_writeCluster (hg : g.Valid) (hc : HasData g c) (buf : Mem) :
    Prog.run (onVolume g) (fat32WriteCluster g c buf) v = .ok ((), v.setCluster g c buf) := by
  obtain ⟨hfirst, hroom⟩ := hc.firstSector hg
  unfold fat32WriteCluster
  rw [if_pos (hc.isCluster hg), run_writeSectors hg (by omega) buf _ hroom, ← hg.clusterSize_eq]
  rfl

end Runs

/-! ## Chains -/

/-- The clusters from `c` on, to the end mark. -/
inductive Chain (g : Geometry) (fat : Nat → Nat) : Nat → List Nat → Prop
  | nil {c : Nat} : fat32ClusterEnd ≤ c → Chain g fat c []
  | cons {c : Nat} {cs : List Nat} : HasData g c → Chain g fat (fat c) cs → Chain g fat c (c :: cs)

namespace Chain

variable {fat fat' : Nat → Nat} {c : Nat} {cs cs' : List Nat}

theorem hasData (h : Chain g fat c cs) : ∀ d ∈ cs, HasData g d := by
  induction h with
  | nil _ => exact fun d hd => absurd hd not_mem_nil
  | cons hc _ ih =>
    intro d hd
    rcases mem_cons.mp hd with rfl | hd
    · exact hc
    · exact ih d hd

theorem unique (hg : g.Valid) (h : Chain g fat c cs) (h' : Chain g fat c cs') : cs = cs' := by
  induction h generalizing cs' with
  | nil hc =>
    cases h' with
    | nil _ => rfl
    | cons hd _ => exact absurd hc (Nat.not_le.mpr (hd.isCluster hg).2)
  | cons hc _ ih =>
    cases h' with
    | nil hend => exact absurd hend (Nat.not_le.mpr (hc.isCluster hg).2)
    | cons _ ht => rw [ih ht]

/-- The part of a chain from one of its clusters on. -/
theorem suffix {pre post : List Nat} {d : Nat} (h : Chain g fat c (pre ++ d :: post)) : Chain g fat d (d :: post) := by
  induction pre generalizing c with
  | nil =>
    cases h with
    | cons hc ht => exact .cons hc ht
  | cons e pre ih =>
    cases h with
    | cons _ ht => exact ih ht

theorem nodup (hg : g.Valid) (h : Chain g fat c cs) : cs.Nodup := by
  induction h with
  | nil _ => exact nodup_nil
  | @cons c cs hc ht ih =>
    refine nodup_cons.mpr ⟨fun hin => ?_, ih⟩
    -- a cluster that comes again has a chain that is longer than itself
    obtain ⟨pre, post, rfl⟩ := append_of_mem hin
    have heq := (Chain.cons hc ht).unique hg ht.suffix
    have hlen := congrArg List.length heq
    simp only [length_cons, length_append] at hlen
    omega

theorem length_le (hg : g.Valid) (h : Chain g fat c cs) : cs.length ≤ g.fatSize * 128 := by
  have hsub : cs.length ≤ (List.range (g.fatSize * 128)).length :=
    (subperm_of_subset (h.nodup hg) fun d hd => mem_range.mpr (h.hasData d hd).2).length_le
  rwa [length_range] at hsub

/-- A chain is there as long as its entries are. -/
theorem congr (h : Chain g fat c cs) (hsame : ∀ d ∈ cs, fat' d = fat d) : Chain g fat' c cs := by
  induction h with
  | nil hc => exact .nil hc
  | @cons c cs hc _ ih =>
    have ht := ih fun d hd => hsame d (mem_cons_of_mem _ hd)
    rw [← hsame c mem_cons_self] at ht
    exact .cons hc ht

end Chain

theorem Geometry.Valid.total_eq (hg : g.Valid) : g.total = g.fatSize * 128 := by
  have h := hg.clusters
  unfold fat32ClusterEnd at h
  unfold Geometry.total
  rw [hg.bytesPerSector, u32_of_lt (by omega)]
  omega

end Serotonin.Fat32
