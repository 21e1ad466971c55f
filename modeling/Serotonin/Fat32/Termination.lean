import Serotonin.Fat32.Circles

/-! When the driver's scans of a directory return: `fat32_readdir`, `fat32_finddir`, `fat32_unlink`,
`fat32_rmdir`, `fat32_dir_is_empty`, `fat32_generate_short_name` and `fat32_find_free_slots`. -/

namespace Serotonin.Fat32

open Prog (Ends Steady ends_bind ends_const steady_const)

variable {g : Geometry} {v : Volume}

/-! ## The functions, for any number of rounds -/

section Functions

variable (g)

def finddirIn (rounds : Nat) (dir : Node) (name : List UInt8) : FatM (Option Node) := do
  match ← scanChain g (finddirScan name) rounds dir.cluster 0 .init with
  | none => return none
  | some h => return some (nodeOf name h)

def readdirIn (rounds : Nat) (dir : Node) (index : Nat) : FatM (Option Node) := do
  match ← scanChain g (readdirScan index) rounds dir.cluster 0 .init with
  | none => return none
  | some h => return some (nodeOf (shownName h) h)

def unlinkIn (rounds : Nat) (parent : Node) (name : List UInt8) : FatM Int := do
  if !parent.directory then return -1
  else if g.readOnly then return -1
  else match ← scanChain g (removeScan name) rounds parent.cluster 0 .init with
  | none => return -1
  | some h =>
    if h.entry.isDirectory then return -1
    else
      removeHit g h
      return 0

def rmdirIn (rounds : Nat) (parent : Node) (name : List UInt8) : FatM Int := do
  if !parent.directory then return -1
  else if g.readOnly then return -1
  else match ← scanChain g (removeScan name) rounds parent.cluster 0 .init with
  | none => return -1
  | some h =>
    if !h.entry.isDirectory then return -1
    else if !(← dirIsEmptyFrom g rounds h.entry.firstCluster) then return -1
    else
      removeHit g h
      return 0

end Functions

/-- The scans of a directory, as the driver's functions make them. -/
inductive DirCall
  | readdir (dir : Node) (index : Nat)
  | finddir (dir : Node) (name : List UInt8)
  | unlink (parent : Node) (name : List UInt8)
  | rmdir (parent : Node) (name : List UInt8)
  | dirIsEmpty (cluster : Nat)
  | generateShortName (fname : List UInt8) (dirCluster : Nat)
  | findFreeSlots (dirCluster need : Nat)

def Returns {α : Type} (P : Nat → FatM α) (v : Volume) : Prop := ∃ a t, Ends onImage P v a t

/-- The call returns after some number of rounds. -/
def DirCall.Returns (g : Geometry) (v : Volume) : DirCall → Prop
  | .readdir dir index => Fat32.Returns (fun n => readdirIn g n dir index) v
  | .finddir dir name => Fat32.Returns (fun n => finddirIn g n dir name) v
  | .unlink parent name => Fat32.Returns (fun n => unlinkIn g n parent name) v
  | .rmdir parent name => Fat32.Returns (fun n => rmdirIn g n parent name) v
  | .dirIsEmpty cluster => Fat32.Returns (fun n => dirIsEmptyFrom g n cluster) v
  | .generateShortName fname dirCluster => Fat32.Returns (fun n => fat32GenerateShortName g n fname dirCluster) v
  | .findFreeSlots dirCluster need => Fat32.Returns (fun n => fat32FindFreeSlots g n dirCluster need) v

/-! ## Where they end -/

/-- An entry that shows that a directory is not empty. -/
def Entry.InUse (e : Entry) : Prop :=
  ¬(e.first = 0xE5 ∨ e.isVolumeId = true ∨ e.isLfn = true ∨ e.first = 32) ∧ ¬(e.first = 46 ∧ (e.byte 1 = 32 ∨ e.byte 1 = 46))

def EmptyEnds (g : Geometry) (v : Volume) (c : Nat) : Prop :=
  ChainEnds v c ∨ OnChain g v c fun e => e.first = 0 ∨ e.InUse

/-- Either every search ends, or each name that is tried is there, and so is tried the next one. -/
def ShortNameEnds (g : Geometry) (v : Volume) (parts : List UInt8 × List UInt8) (c : Nat) : Prop :=
  (ChainEnds v c ∨ OnChain g v c fun e => e.first = 0) ∨
    ∀ tail, 1 ≤ tail → tail ≤ 9999 → OnChain g v c (Entry.HasKey (tailedKey parts tail))

/-- The chain of the directory comes to its end, or an entry on it ends the scan before. -/
def DirCall.Ends (g : Geometry) (v : Volume) : DirCall → Prop
  | .readdir dir index => ∃ o, ScanEnds g v (readdirScan index) dir.cluster o
  | .finddir dir name => ∃ o, ScanEnds g v (finddirScan name) dir.cluster o
  | .unlink parent name =>
    parent.directory = true → g.readOnly = false → ∃ o, ScanEnds g v (removeScan name) parent.cluster o
  | .rmdir parent name =>
    parent.directory = true → g.readOnly = false → ∃ o, ScanEnds g v (removeScan name) parent.cluster o ∧
      ∀ h ∈ o, h.entry.isDirectory = true → EmptyEnds g v h.entry.firstCluster
  | .dirIsEmpty cluster => EmptyEnds g v cluster
  | .generateShortName fname dirCluster => ShortNameEnds g v (shortNameParts fname) dirCluster
  | .findFreeSlots dirCluster need =>
    (∃ k, fat32ClusterEnd ≤ along v.fat dirCluster (k + 1)) ∨
      ∃ k p, Round.scan (freeStep need) ⟨0, dirCluster, 0⟩ (slotsAlong g v dirCluster k) = .done p

/-! ## Each of them -/

/-- A scan and then a part without loops that returns from every answer. -/
theorem returns_scan {α : Type} {sc : Scanner} {c : Nat} {f : Option Hit → FatM α}
    (hf : ∀ o, ∃ a t, Prog.run onImage (f o) v = .ok (a, t)) :
    Returns (fun n => scanChain g sc n c 0 .init >>= f) v ↔ ∃ o, ScanEnds g v sc c o := by
  constructor
  · rintro ⟨a, t, hends⟩
    obtain ⟨o, t', hscan, -⟩ := (ends_bind (scanChain_steady sc c) fun o => steady_const (f o)).mp hends
    exact ⟨o, (scanChain_ends.mp hscan).1⟩
  · rintro ⟨o, hscan⟩
    obtain ⟨a, t, hrun⟩ := hf o
    exact ⟨a, t, (ends_bind (scanChain_steady sc c) fun o => steady_const (f o)).mpr
      ⟨o, v, scanChain_ends.mpr ⟨hscan, rfl⟩, ends_const.mpr hrun⟩⟩

theorem returns_const {α : Type} (a : α) : Returns (fun _ => pure a) v := ⟨a, v, 0, rfl⟩

theorem image_removeHit (h : Hit) : ∃ a t, Prog.run onImage (do removeHit g h; return (0 : Int)) v = .ok (a, t) := by
  unfold removeHit
  exact ⟨_, _, Prog.run_bind_ok (image_writeCluster _ _)⟩

theorem unlink_returns_iff {parent : Node} {name : List UInt8} :
    (DirCall.unlink parent name).Returns g v ↔ (DirCall.unlink parent name).Ends g v := by
  unfold DirCall.Returns DirCall.Ends unlinkIn
  dsimp only
  cases hdir : parent.directory with
  | false => simpa using returns_const _
  | true =>
    cases hro : g.readOnly with
    | true => simpa using returns_const _
    | false =>
      simp only [Bool.not_true, Bool.false_eq_true, if_false, true_implies]
      refine returns_scan fun o => ?_
      cases o with
      | none => exact ⟨-1, v, rfl⟩
      | some h =>
        dsimp only
        split
        · exact ⟨-1, v, rfl⟩
        · exact image_removeHit h

theorem emptyStep_ne_next {x : Slot} : emptyStep () x ≠ .next () ↔ x.entry.first = 0 ∨ x.entry.InUse := by
  unfold emptyStep Entry.InUse
  dsimp only
  split
  · next h0 => simp [h0]
  · next h0 =>
    split
    · next hskip => simp [h0, hskip]
    · next hskip =>
      split
      · next hdot => simp [hdot]
      · next hdot => simp only [ne_eq, reduceCtorEq, not_false_eq_true, h0, hskip, hdot, and_self, or_true]

theorem dirIsEmpty_returns_iff {c : Nat} : Returns (fun n => dirIsEmptyFrom g n c) v ↔ EmptyEnds g v c := by
  have hloop : ∀ b t, Ends onImage (fun n => dirIsEmptyFrom g n c) v b t ↔
      LoopEnds g emptyStep (fun v b => .ok (b, v)) (fun v _ => .ok (true, v)) v c () b t :=
    fun b t => (dirIsEmpty_isLoop g).ends_iff (s := ())
  unfold Returns
  simp only [hloop]
  exact (loopEnds_stateless id true c).trans (ends_or_onChain fun x => emptyStep_ne_next)

theorem dirIsEmpty_steady (c : Nat) : Steady onImage fun n => dirIsEmptyFrom g n c :=
  (dirIsEmpty_isLoop g).steady c ()

/-- What `fat32_rmdir` does with the entry that it finds. -/
def rmdirHit (g : Geometry) (o : Option Hit) (rounds : Nat) : FatM Int :=
  match o with
  | none => return -1
  | some h =>
    if !h.entry.isDirectory then return -1
    else do
      if !(← dirIsEmptyFrom g rounds h.entry.firstCluster) then return -1
      else
        removeHit g h
        return 0

theorem rmdirHit_steady (o : Option Hit) : Steady onImage (rmdirHit g o) := by
  cases o with
  | none => exact steady_const _
  | some h => exact (steady_const _).ite ((dirIsEmpty_steady _).bind fun b => steady_const _)

theorem rmdirHit_returns_iff {o : Option Hit} : Returns (rmdirHit g o) v ↔
    ∀ h ∈ o, h.entry.isDirectory = true → EmptyEnds g v h.entry.firstCluster := by
  cases o with
  | none => exact ⟨fun _ h hh => (Option.not_mem_none h hh).elim, fun _ => returns_const (-1)⟩
  | some h =>
    simp only [Option.mem_some_iff, forall_eq']
    cases hdir : h.entry.isDirectory with
    | false =>
      refine ⟨fun _ hne => absurd hne Bool.false_ne_true, fun _ => ⟨-1, v, 0, ?_⟩⟩
      simp [rmdirHit, hdir]
    | true =>
      rw [← dirIsEmpty_returns_iff]
      have hhit : rmdirHit g (some h) = fun n => dirIsEmptyFrom g n h.entry.firstCluster >>= fun b =>
          if !b then return -1 else do removeHit g h; return 0 := by
        funext n
        simp [rmdirHit, hdir]
      rw [hhit]
      simp only [true_implies]
      constructor
      · rintro ⟨a, t, hends⟩
        obtain ⟨b, t', hempty, -⟩ := (ends_bind (dirIsEmpty_steady _) fun b => steady_const _).mp hends
        exact ⟨b, t', hempty⟩
      · rintro ⟨b, t, hempty⟩
        obtain ⟨a, t', hrun⟩ : ∃ a t', Prog.run onImage
            (if !b then return -1 else do removeHit g h; return (0 : Int)) t = .ok (a, t') := by
          cases b with
          | false => exact ⟨-1, t, rfl⟩
          | true => exact image_removeHit h
        exact ⟨a, t', (ends_bind (dirIsEmpty_steady _) fun b => steady_const _).mpr ⟨b, t, hempty, ends_const.mpr hrun⟩⟩

theorem rmdir_returns_iff {parent : Node} {name : List UInt8} :
    (DirCall.rmdir parent name).Returns g v ↔ (DirCall.rmdir parent name).Ends g v := by
  unfold DirCall.Returns DirCall.Ends rmdirIn
  dsimp only
  cases hdir : parent.directory with
  | false => simpa using returns_const _
  | true =>
    cases hro : g.readOnly with
    | true => simpa using returns_const _
    | false =>
      simp only [Bool.not_true, Bool.false_eq_true, if_false, true_implies]
      show Returns (fun n => scanChain g (removeScan name) n parent.cluster 0 .init >>= fun o => rmdirHit g o n) v ↔ _
      constructor
      · rintro ⟨a, t, hends⟩
        obtain ⟨o, t', hscan, hrest⟩ := (ends_bind (scanChain_steady _ _) rmdirHit_steady).mp hends
        obtain ⟨hscan, rfl⟩ := scanChain_ends.mp hscan
        exact ⟨o, hscan, rmdirHit_returns_iff.mp ⟨a, t, hrest⟩⟩
      · rintro ⟨o, hscan, hrest⟩
        obtain ⟨a, t, hrest⟩ := rmdirHit_returns_iff.mpr hrest
        exact ⟨a, t, (ends_bind (scanChain_steady _ _) rmdirHit_steady).mpr ⟨o, v, scanChain_ends.mpr ⟨hscan, rfl⟩, hrest⟩⟩

/-! ## Short names -/

section Tails

variable {parts : List UInt8 × List UInt8} {c : Nat}

theorem taken_steady (key : List UInt8) (c : Nat) : Steady onImage fun n => takenFrom g key n c :=
  (taken_isLoop g key).steady c ()

theorem tryTails_steady (parts : List UInt8 × List UInt8) (c : Nat) : ∀ left tail,
    Steady onImage fun n => tryTails g n parts c left tail
  | 0, _ => steady_const _
  | left + 1, tail => by
    refine (taken_steady (tailedKey parts tail) c).bind fun b => ?_
    exact Steady.ite (tryTails_steady parts c left (tail + 1)) (steady_const _)

/-- One tail after the other. -/
theorem tryTails_succ (left tail : Nat) : Returns (fun n => tryTails g n parts c (left + 1) tail) v ↔
    ∃ b t, TakenEnds g v (tailedKey parts tail) c b t ∧
      (b = true → Returns (fun n => tryTails g n parts c left (tail + 1)) v) := by
  have hsteady : ∀ b : Bool, Steady onImage fun n =>
      if b then tryTails g n parts c left (tail + 1) else return tailedKey parts tail := fun b =>
    Steady.ite (tryTails_steady parts c left (tail + 1)) (steady_const _)
  constructor
  · rintro ⟨a, t, hends⟩
    obtain ⟨b, t', htaken, hrest⟩ := (ends_bind (taken_steady (tailedKey parts tail) c) hsteady).mp hends
    obtain ⟨rfl, -⟩ := TakenEnds.spec htaken
    refine ⟨b, t', htaken, ?_⟩
    rintro rfl
    exact ⟨a, t, hrest⟩
  · rintro ⟨b, t, htaken, hrest⟩
    obtain ⟨rfl, -⟩ := TakenEnds.spec htaken
    cases b with
    | false => exact ⟨_, t, (ends_bind (taken_steady (tailedKey parts tail) c) hsteady).mpr ⟨false, t, htaken, 0, rfl⟩⟩
    | true =>
      obtain ⟨a, t', hrest⟩ := hrest rfl
      exact ⟨a, t', (ends_bind (taken_steady (tailedKey parts tail) c) hsteady).mpr ⟨true, t, htaken, hrest⟩⟩

/-- On a chain that ends the tails end, however many of them are tried. -/
theorem tryTails_of_settled (h : ChainEnds v c ∨ OnChain g v c fun e => e.first = 0) : ∀ left tail,
    Returns (fun n => tryTails g n parts c left tail) v
  | 0, _ => returns_const _
  | left + 1, tail => by
    have hends : ChainEnds v c ∨ OnChain g v c fun e => e.first = 0 ∨ e.HasKey (tailedKey parts tail) :=
      h.imp_right fun ⟨k, x, hx, h0⟩ => ⟨k, x, hx, .inl h0⟩
    obtain ⟨b, t, htaken⟩ := taken_ends_iff.mpr hends
    exact (tryTails_succ left tail).mpr ⟨b, t, htaken, fun _ => tryTails_of_settled h left (tail + 1)⟩

/-- On a chain that does not end every name that is tried has to be there. -/
theorem tryTails_of_circle (h : ¬(ChainEnds v c ∨ OnChain g v c fun e => e.first = 0)) : ∀ left tail,
    Returns (fun n => tryTails g n parts c left tail) v ↔
      ∀ i < left, OnChain g v c (Entry.HasKey (tailedKey parts (tail + i)))
  | 0, tail => ⟨fun _ i hi => absurd hi (Nat.not_lt_zero i), fun _ => returns_const _⟩
  | left + 1, tail => by
    rw [tryTails_succ]
    have ih := tryTails_of_circle h left (tail + 1)
    constructor
    · rintro ⟨b, t, htaken, hrest⟩ i hi
      obtain ⟨rfl, hb⟩ := TakenEnds.spec htaken
      cases b with
      | false => exact absurd hb h
      | true =>
        cases i with
        | zero => exact hb
        | succ i =>
          have hkey := ih.mp (hrest rfl) i (Nat.lt_of_succ_lt_succ hi)
          rwa [Nat.add_right_comm, Nat.add_assoc] at hkey
    · intro hall
      have hends : ChainEnds v c ∨ OnChain g v c fun e => e.first = 0 ∨ e.HasKey (tailedKey parts tail) := by
        obtain ⟨k, x, hx, hkey⟩ := hall 0 (Nat.succ_pos left)
        exact .inr ⟨k, x, hx, .inr hkey⟩
      obtain ⟨b, t, htaken⟩ := taken_ends_iff.mpr hends
      refine ⟨b, t, htaken, fun _ => ih.mpr fun i hi => ?_⟩
      rw [Nat.add_right_comm, Nat.add_assoc]
      exact hall (i + 1) (Nat.succ_lt_succ hi)

theorem shortName_returns_iff : Returns (fun n => tryTails g n parts c 9999 1) v ↔ ShortNameEnds g v parts c := by
  by_cases h : ChainEnds v c ∨ OnChain g v c fun e => e.first = 0
  · exact ⟨fun _ => .inl h, fun _ => tryTails_of_settled h 9999 1⟩
  · rw [tryTails_of_circle h]
    constructor
    · intro hall
      refine .inr fun tail h1 h2 => ?_
      obtain ⟨i, rfl⟩ := Nat.exists_eq_add_of_le h1
      exact hall i (by omega)
    · intro hends i hi
      exact (hends.resolve_left h) (1 + i) (by omega) (by omega)

end Tails

/-- Each scan of a directory returns if and only if its chain comes to an end, or an entry on it ends the
scan before: with any content of the FAT and of the directory. -/
theorem scans_return_iff (htotal : g.total ≤ fat32ClusterEnd) (v : Volume) (call : DirCall) :
    call.Returns g v ↔ call.Ends g v := by
  cases call with
  | readdir dir index =>
    refine returns_scan fun o => ?_
    cases o <;> exact ⟨_, _, rfl⟩
  | finddir dir name =>
    refine returns_scan fun o => ?_
    cases o <;> exact ⟨_, _, rfl⟩
  | unlink parent name => exact unlink_returns_iff
  | rmdir parent name => exact rmdir_returns_iff
  | dirIsEmpty cluster => exact dirIsEmpty_returns_iff
  | generateShortName fname dirCluster => exact shortName_returns_iff
  | findFreeSlots dirCluster need => exact freeSlots_ends_iff htotal

/-- A directory of one cluster that is empty: it ends after that. -/
theorem scans_return_iff_root : (DirCall.dirIsEmpty 2).Returns oneSector (rootVolume []) := by
  refine (scans_return_iff ?_ (rootVolume []) (.dirIsEmpty 2)).mpr (.inl ⟨1, ?_⟩)
  · decide +kernel
  · exact Nat.le_of_eq (rootVolume_fat []).symm

/-- A cluster of deleted entries that is its own successor. -/
def circle : Volume := ⟨fun _ => 3, fun _ => 0xE5⟩

theorem along_circle (k : Nat) : along circle.fat 3 k = 3 := by
  induction k with
  | zero => rfl
  | succ k ih => exact ih

theorem entryAt_first (buf : ByteMem.Mem) (i : Nat) : (entryAt buf i).first = buf (32 * i) := by
  simp [Entry.first, Entry.byte, entryAt]

theorem circle_deleted {x : Slot} (hx : x ∈ slotsAt oneSector circle 3) : x.entry.first = 0xE5 := by
  obtain ⟨i, hi, rfl⟩ := List.mem_map.mp hx
  have hlt : i < 16 := by
    have := (List.mem_range'_1.mp hi).2
    have hper : oneSector.perCluster = 16 := by decide
    omega
  have hroom : 32 * i < 0 + oneSector.sectorsPerCluster * 512 := by
    show _ < 0 + 1 * 512
    omega
  unfold Slot.entry
  rw [entryAt_first]
  dsimp only
  unfold Volume.look Volume.read
  rw [if_pos (by decide), ByteMem.blit_inside (Nat.zero_le _) hroom]
  rfl

theorem not_scans_return : ¬∀ (g : Geometry) (v : Volume) (call : DirCall), call.Returns g v := by
  intro h
  obtain ⟨k, hk⟩ | ⟨k, x, hx, hentry⟩ := dirIsEmpty_returns_iff.mp (h oneSector circle (.dirIsEmpty 3))
  · rw [along_circle] at hk
    exact absurd hk (by decide)
  · rw [along_circle] at hx
    have hfirst := circle_deleted hx
    rcases hentry with h0 | huse
    · rw [hfirst] at h0
      exact absurd h0 (by decide)
    · exact huse.1 (.inl hfirst)

end Serotonin.Fat32
