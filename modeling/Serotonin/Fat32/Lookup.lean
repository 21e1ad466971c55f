import Serotonin.Fat32.Select

/-! Which entries a name leads to. A search compares the long name of an entry, and the 11 bytes of its
short name with a key that has only the first 8 and 3 characters of what was asked for. -/

namespace Serotonin.Fat32

open Prog (run run_bind_ok run_bind_eq_ok)

variable {g : Geometry} {v : Volume} {s : Fs} {dir : Nat} {cs : List Nat} {name : List UInt8}

/-- The entry has the name as its long or as its short one, ignoring case. -/
def Bears (name : List UInt8) (h : Hit) : Prop :=
  (∃ long, h.state.longName h.entry = some long ∧ fat32Strcasecmp name long = 0) ∨
    fat32Strcasecmp name (fat32NameFromEntry h.entry.name) = 0

/-- The name comes back from its own key: nothing of it is cut off. -/
def Faithful (name : List UInt8) : Prop := fat32Strcasecmp name (fat32NameFromEntry (fat32BuildNameKey name)) = 0

instance (name : List UInt8) : Decidable (Faithful name) := inferInstanceAs (Decidable (_ = _))

/-- The entry matches by its long name. -/
def LongNamed (name : List UInt8) (p : Slot × LfnState) : Prop :=
  ∃ long, p.2.longName p.1.entry = some long ∧ fat32Strcasecmp name long = 0

/-- The first entry that a search does not skip and takes for the name. -/
def firstNamed (g : Geometry) (v : Volume) (cs : List Nat) (sc : Scanner) (name : List UInt8) : Option (Slot × LfnState) :=
  (shorts .init (dirSlots g v cs)).find? fun q => !sc.skips q.1.entry && named name q

theorem named_of_firstNamed {sc : Scanner} {p : Slot × LfnState} (h : firstNamed g v cs sc name = some p) : named name p = true := by
  have hp := List.find?_some h
  simp only [Bool.and_eq_true] at hp
  exact hp.2

/-- Among the entries that match. -/
theorem bears_iff {p : Slot × LfnState} (h : named name p = true) : Bears name (p.1.hit p.2) ↔ Faithful name ∨ LongNamed name p := by
  have hmatch : LongNamed name p ∨ p.1.entry.name = fat32BuildNameKey name := by
    unfold named nameMatches at h
    rcases Bool.or_eq_true_iff.mp h with hlong | hkey
    · left
      cases hl : p.2.longName p.1.entry with
      | none =>
        rw [hl] at hlong
        cases hlong
      | some long =>
        rw [hl] at hlong
        exact ⟨long, hl, by simpa using hlong⟩
    · exact .inr (by simpa using hkey)
  constructor
  · rintro (hlong | hshort)
    · exact .inr hlong
    · rcases hmatch with hlong | hkey
      · exact .inr hlong
      · left
        unfold Faithful
        rw [← hkey]
        exact hshort
  · rintro (hfaithful | hlong)
    · rcases hmatch with hlong | hkey
      · exact .inl hlong
      · right
        show fat32Strcasecmp name (fat32NameFromEntry p.1.entry.name) = 0
        rw [hkey]
        exact hfaithful
    · exact .inl hlong

/-- A search of the machine stops at the first entry that it takes for the name. -/
theorem scan_some_iff (hg : g.Valid) (hs : Mounted g s v) (hc : Chain g v.fat dir cs) (sc : Scanner)
    (hsc : ∀ count, sc.accept count = nameMatches name) {h : Hit} :
    (∃ s', run (onDisk g) (scanDir g sc dir) s = .ok (some h, s')) ↔
      ∃ p, firstNamed g v cs sc name = some p ∧ h = p.1.hit p.2 := by
  constructor
  · rintro ⟨s', hrun⟩
    obtain ⟨hfind, -⟩ := (scanSlots_named_ok sc hsc _ _).mp (scan_ok hg hs hc hrun).1
    obtain ⟨p, hp, rfl⟩ := Option.map_eq_some_iff.mp hfind
    exact ⟨p, hp, rfl⟩
  · rintro ⟨p, hp, rfl⟩
    unfold firstNamed at hp
    have hscan : scanSlots sc 0 .init (dirSlots g v cs) = .ok (some (p.1.hit p.2)) :=
      (scanSlots_named_ok sc hsc _ _).mpr ⟨by rw [hp]; rfl, nofun⟩
    have hf := scan_follows hg hs hc sc
    rw [hscan] at hf
    obtain ⟨s', hrun, -⟩ := hf
    exact ⟨s', hrun⟩

/-- Each entry that only the key finds and that is `bad` comes after another that the name finds. -/
def Shadowed (g : Geometry) (v : Volume) (cs : List Nat) (sc : Scanner) (name : List UInt8) (bad : Slot × LfnState → Prop) : Prop :=
  ∀ pre p post, shorts .init (dirSlots g v cs) = pre ++ p :: post → sc.skips p.1.entry = false →
    p.1.entry.name = fat32BuildNameKey name → ¬LongNamed name p → bad p → ∃ q ∈ pre, sc.skips q.1.entry = false ∧ named name q

theorem named_iff {p : Slot × LfnState} : named name p = true ↔ LongNamed name p ∨ p.1.entry.name = fat32BuildNameKey name := by
  unfold named nameMatches LongNamed
  cases p.2.longName p.1.entry <;> simp

theorem shadowed_iff {sc : Scanner} {bad : Slot × LfnState → Prop} :
    (∀ p, firstNamed g v cs sc name = some p → bad p → LongNamed name p) ↔ Shadowed g v cs sc name bad := by
  constructor
  · intro hall pre p post hps hskip hkey hlong hbad
    by_contra hnone
    have hfirst : firstNamed g v cs sc name = some p := by
      refine List.find?_eq_some_iff_append.mpr ⟨?_, pre, post, hps, fun q hq => ?_⟩
      · simp [hskip, named_iff.mpr (.inr hkey)]
      · have hq' := fun hs hn => hnone ⟨q, hq, hs, hn⟩
        cases hs : sc.skips q.1.entry <;> simp_all
    exact hlong (hall p hfirst hbad)
  · intro hshadow p hp hbad
    by_contra hlong
    obtain ⟨hp, pre, post, hps, hpre⟩ := List.find?_eq_some_iff_append.mp hp
    simp only [Bool.and_eq_true, Bool.not_eq_true'] at hp
    have hkey := (named_iff.mp hp.2).resolve_left hlong
    obtain ⟨q, hq, hs, hn⟩ := hshadow pre p post hps hp.1 hkey hlong hbad
    have := hpre q hq
    simp [hs, hn] at this

theorem shadowed_congr {sc : Scanner} {bad bad' : Slot × LfnState → Prop}
    (h : ∀ p, firstNamed g v cs sc name = some p → (bad p ↔ bad' p)) :
    Shadowed g v cs sc name bad ↔ Shadowed g v cs sc name bad' := by
  rw [← shadowed_iff, ← shadowed_iff]
  refine forall_congr' fun p => imp_congr_right fun hp => ?_
  rw [h p hp]

/-! ## Soundness -/

/-- What is found has the name. -/
def LookupSound (g : Geometry) (s : Fs) (parent : Node) (name : List UInt8) : Prop :=
  ∀ node s', run (onDisk g) (fat32Finddir g parent name) s = .ok (some node, s') →
    ∃ h s₁, run (onDisk g) (scanDir g (finddirScan name) parent.cluster) s = .ok (some h, s₁) ∧ node = nodeOf name h ∧
      Bears name h

/-- What is removed has the name. -/
def RemoveSound (g : Geometry) (s : Fs) (parent : Node) (name : List UInt8) (remove : FatM Int) : Prop :=
  ∀ s', run (onDisk g) remove s = .ok (0, s') →
    ∃ h s₁ s₂, run (onDisk g) (scanDir g (removeScan name) parent.cluster) s = .ok (some h, s₁) ∧
      run (onDisk g) (removeHit g h) s₂ = .ok ((), s') ∧ Bears name h

theorem writeCluster_ok (c : Nat) (buf : ByteMem.Mem) : ∃ s', run (onDisk g) (fat32WriteCluster g c buf) s = .ok ((), s') := by
  have hsectors : ∀ (first n : Nat), ∃ s', run (onDisk g) (writeSectors g first buf n) s = .ok ((), s') := by
    intro first n
    induction n with
    | zero => exact ⟨s, rfl⟩
    | succ n ih =>
      obtain ⟨s₁, hrun⟩ := ih
      rw [writeSectors, run_bind_ok hrun]
      exact ⟨_, Prog.run_perform (h := onDisk g) (Op.writeSector _ _) s₁⟩
  unfold fat32WriteCluster
  split
  · exact hsectors _ _
  · exact ⟨s, rfl⟩

section Sound

variable {parent : Node}

theorem lookupSound_iff (hg : g.Valid) (hs : Mounted g s v) (hc : Chain g v.fat parent.cluster cs) : LookupSound g s parent name ↔
    Faithful name ∨ Shadowed g v cs (finddirScan name) name fun _ => True := by
  rw [← shadowed_iff, ← forall_or_left]
  have hscan := fun h => scan_some_iff (h := h) hg hs hc (finddirScan name) fun _ => rfl
  constructor
  · intro hsound p
    by_cases hfaithful : Faithful name
    · exact .inl hfaithful
    refine .inr fun hp _ => ?_
    obtain ⟨s', hrun⟩ := (hscan _).mpr ⟨p, hp, rfl⟩
    obtain ⟨h, s₁, hrun', -, hbears⟩ := hsound (nodeOf name (p.1.hit p.2)) s' (run_bind_ok hrun)
    rw [hrun] at hrun'
    cases hrun'
    exact ((bears_iff (named_of_firstNamed hp)).mp hbears).resolve_left hfaithful
  · intro hall node s' hrun
    obtain ⟨o, s₁, hrun₁, hnode⟩ := run_bind_eq_ok.mp hrun
    cases o with
    | none => cases hnode
    | some h =>
      cases hnode
      obtain ⟨p, hp, rfl⟩ := (hscan h).mp ⟨s', hrun₁⟩
      have hnamed := named_of_firstNamed hp
      exact ⟨_, s', hrun₁, rfl, (bears_iff hnamed).mpr ((hall p).imp_right fun h => h hp trivial)⟩

/-- A removal that goes to its end where `cond` holds, and `goes` for what it finds. -/
theorem removeSound_iff (hg : g.Valid) (hs : Mounted g s v) (hc : Chain g v.fat parent.cluster cs) {remove : FatM Int} {cond : Prop}
    {goes : Hit → Fs → Fs → Prop} (hok : ∀ s', run (onDisk g) remove s = .ok (0, s') ↔
      cond ∧ ∃ h s₁ s₂, run (onDisk g) (scanDir g (removeScan name) parent.cluster) s = .ok (some h, s₁) ∧ goes h s₁ s₂ ∧
        run (onDisk g) (removeHit g h) s₂ = .ok ((), s')) :
    RemoveSound g s parent name remove ↔ (cond → Faithful name ∨ Shadowed g v cs (removeScan name) name fun p =>
      ∃ s₁ s₂, run (onDisk g) (scanDir g (removeScan name) parent.cluster) s = .ok (some (p.1.hit p.2), s₁) ∧
        goes (p.1.hit p.2) s₁ s₂) := by
  have hscan := fun h => scan_some_iff (h := h) hg hs hc (removeScan name) fun _ => rfl
  rw [← shadowed_iff]
  constructor
  · intro hsound hcond
    by_cases hfaithful : Faithful name
    · exact .inl hfaithful
    refine .inr fun p hp ⟨s₁, s₂, hrun, hgoes⟩ => ?_
    obtain ⟨s', hremove⟩ := writeCluster_ok (g := g) (s := s₂) (p.1.hit p.2).cluster
      (ByteMem.store32 (fat32DeleteLfnChain (p.1.hit p.2).buf (p.1.hit p.2).index) (32 * (p.1.hit p.2).index + 28) 0)
    obtain ⟨h, s₁', -, hrun', -, hbears⟩ := hsound s' ((hok s').mpr ⟨hcond, _, s₁, s₂, hrun, hgoes, hremove⟩)
    rw [hrun] at hrun'
    cases hrun'
    exact ((bears_iff (named_of_firstNamed hp)).mp hbears).resolve_left hfaithful
  · intro hall s' hrun
    obtain ⟨hcond, h, s₁, s₂, hrun₁, hgoes, hremove⟩ := (hok s').mp hrun
    refine ⟨h, s₁, s₂, hrun₁, hremove, ?_⟩
    obtain ⟨p, hp, rfl⟩ := (hscan h).mp ⟨s₁, hrun₁⟩
    exact (bears_iff (named_of_firstNamed hp)).mpr ((hall hcond).imp_right fun h => h p hp ⟨s₁, s₂, hrun₁, hgoes⟩)

theorem not_pure_neg {s s' : Fs} : run (onDisk g) (pure (-1) : FatM Int) s ≠ .ok (0, s') := by
  intro h
  cases h

theorem unlink_ok_iff {s' : Fs} : run (onDisk g) (fat32Unlink g parent name) s = .ok (0, s') ↔
    (parent.directory = true ∧ g.readOnly = false) ∧ ∃ h s₁ s₂,
      run (onDisk g) (scanDir g (removeScan name) parent.cluster) s = .ok (some h, s₁) ∧
        (h.entry.isDirectory = false ∧ s₂ = s₁) ∧ run (onDisk g) (removeHit g h) s₂ = .ok ((), s') := by
  constructor
  · intro hrun
    unfold fat32Unlink at hrun
    split at hrun
    · exact absurd hrun not_pure_neg
    rename_i hdir
    split at hrun
    · exact absurd hrun not_pure_neg
    rename_i hro
    obtain ⟨o, s₁, hscan, hrest⟩ := run_bind_eq_ok.mp hrun
    cases o with
    | none => exact absurd hrest not_pure_neg
    | some h =>
      dsimp only at hrest
      split at hrest
      · exact absurd hrest not_pure_neg
      rename_i hfile
      obtain ⟨_, s₂, hremove, hpure⟩ := run_bind_eq_ok.mp hrest
      cases hpure
      exact ⟨⟨by simpa using hdir, by simpa using hro⟩, h, s₁, s₁, hscan, ⟨by simpa using hfile, rfl⟩, hremove⟩
  · rintro ⟨⟨hdir, hro⟩, h, s₁, s₂, hscan, ⟨hfile, rfl⟩, hremove⟩
    unfold fat32Unlink
    simp only [hdir, hro, Bool.not_true, Bool.false_eq_true, if_false]
    rw [run_bind_ok hscan]
    simp only [hfile, Bool.false_eq_true, if_false]
    exact run_bind_ok hremove

theorem rmdir_ok_iff {s' : Fs} : run (onDisk g) (fat32Rmdir g parent name) s = .ok (0, s') ↔
    (parent.directory = true ∧ g.readOnly = false) ∧ ∃ h s₁ s₂,
      run (onDisk g) (scanDir g (removeScan name) parent.cluster) s = .ok (some h, s₁) ∧
        (h.entry.isDirectory = true ∧ run (onDisk g) (fat32DirIsEmpty g h.entry.firstCluster) s₁ = .ok (true, s₂)) ∧
          run (onDisk g) (removeHit g h) s₂ = .ok ((), s') := by
  constructor
  · intro hrun
    unfold fat32Rmdir at hrun
    split at hrun
    · exact absurd hrun not_pure_neg
    rename_i hdir
    split at hrun
    · exact absurd hrun not_pure_neg
    rename_i hro
    obtain ⟨o, s₁, hscan, hrest⟩ := run_bind_eq_ok.mp hrun
    cases o with
    | none => exact absurd hrest not_pure_neg
    | some h =>
      dsimp only at hrest
      split at hrest
      · exact absurd hrest not_pure_neg
      rename_i hfile
      obtain ⟨b, s₂, hempty, hrest⟩ := run_bind_eq_ok.mp hrest
      cases b with
      | false => exact absurd hrest not_pure_neg
      | true =>
        obtain ⟨_, s₃, hremove, hpure⟩ := run_bind_eq_ok.mp hrest
        cases hpure
        exact ⟨⟨by simpa using hdir, by simpa using hro⟩, h, s₁, s₂, hscan, ⟨by simpa using hfile, hempty⟩, hremove⟩
  · rintro ⟨⟨hdir, hro⟩, h, s₁, s₂, hscan, ⟨hfile, hempty⟩, hremove⟩
    unfold fat32Rmdir
    simp only [hdir, hro, Bool.not_true, Bool.false_eq_true, if_false]
    rw [run_bind_ok hscan]
    simp only [hfile, Bool.not_true, Bool.false_eq_true, if_false]
    rw [run_bind_ok hempty]
    exact run_bind_ok hremove

/-- After the search of the parent, the directory reads as empty. -/
def ReadsEmpty (g : Geometry) (s : Fs) (parent : Node) (name : List UInt8) (c : Nat) : Prop :=
  ∃ o s₁ s₂, run (onDisk g) (scanDir g (removeScan name) parent.cluster) s = .ok (o, s₁) ∧
    run (onDisk g) (fat32DirIsEmpty g c) s₁ = .ok (true, s₂)

/-- What is found or removed under a name has the name. -/
structure NameSound (g : Geometry) (s : Fs) (parent : Node) (name : List UInt8) : Prop where
  lookup : LookupSound g s parent name
  unlink : RemoveSound g s parent name (fat32Unlink g parent name)
  rmdir : RemoveSound g s parent name (fat32Rmdir g parent name)

/-- Nothing of the name is cut off, or every entry that only its key finds comes after another that the name finds;
removal has this to fear from files in `fat32_unlink`, and from empty directories in `fat32_rmdir`. -/
structure Distinct (g : Geometry) (s : Fs) (v : Volume) (cs : List Nat) (parent : Node) (name : List UInt8) : Prop where
  lookup : Faithful name ∨ Shadowed g v cs (finddirScan name) name fun _ => True
  unlink : parent.directory = true ∧ g.readOnly = false → Faithful name ∨
    Shadowed g v cs (removeScan name) name fun p => p.1.entry.isDirectory = false
  rmdir : parent.directory = true ∧ g.readOnly = false → Faithful name ∨
    Shadowed g v cs (removeScan name) name fun p => p.1.entry.isDirectory = true ∧ ReadsEmpty g s parent name p.1.entry.firstCluster

end Sound

/-! ## A name that is cut off -/

def rootNode : Node where
  name := [47]
  directory := true
  size := 0
  mode := sIfdir + 0o755
  cluster := 2
  parentCluster := 2

/-- `longfile.txt`. -/
def cutFile : List UInt8 := plainEntry [76, 79, 78, 71, 70, 73, 76, 69, 84, 88, 84] 0x20 3

/-- `longfilename.txt`. -/
def uncutName : List UInt8 := [108, 111, 110, 103, 102, 105, 108, 101, 110, 97, 109, 101, 46, 116, 120, 116]

end Serotonin.Fat32
