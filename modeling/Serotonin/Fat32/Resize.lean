import Serotonin.Fat32.Growth
import Serotonin.Fat32.Select

/-! The entry of a file gets a new size: the search for it in its directory, and what that search
finds afterwards. -/

namespace Serotonin.Fat32

open List
open ByteMem (Mem AgreeOn load16 load32 store32 store32_apply_disjoint load32_store32)

variable {g : Geometry} {v : Volume}

/-! ## Scans of the same names -/

/-- A scan stops at a short entry. -/
theorem scanSlots_hit {sc : Scanner} {hit : Hit} : ∀ {xs : List Slot} {count : Nat} {st : LfnState},
    scanSlots sc count st xs = .ok (some hit) → ∃ x ∈ xs, ∃ st, hit = x.hit st ∧ x.entry.isLfn = false
  | [], _, _, h => by cases h
  | x :: xs, count, st, h => by
    have hlater : ∀ {count st}, scanSlots sc count st xs = .ok (some hit) →
        ∃ y ∈ x :: xs, ∃ st, hit = y.hit st ∧ y.entry.isLfn = false := by
      intro count st hrest
      obtain ⟨y, hy, hhit⟩ := scanSlots_hit hrest
      exact ⟨y, mem_cons_of_mem _ hy, hhit⟩
    unfold scanSlots at h
    dsimp only at h
    split at h
    · cases h
    · split at h
      · exact hlater h
      · split at h
        · split at h
          · cases h
          · exact hlater h
        · next hlfn =>
          split at h
          · exact hlater h
          · split at h
            · cases h
              exact ⟨x, mem_cons_self, st, rfl, Bool.eq_false_iff.mpr hlfn⟩
            · exact hlater h

theorem dirSlots_congr {v' : Volume} : ∀ {cs : List Nat}, (∀ c ∈ cs, v'.cluster g c = v.cluster g c) → dirSlots g v' cs = dirSlots g v cs
  | [], _ => rfl
  | c :: cs, h => by
    rw [dirSlots_cons, dirSlots_cons, clusterSlots, clusterSlots, h c mem_cons_self,
      dirSlots_congr fun d hd => h d (mem_cons_of_mem _ hd)]

/-- The slot as it is on a volume. -/
def Slot.on (g : Geometry) (v : Volume) (x : Slot) : Slot := { x with buf := v.cluster g x.cluster }

theorem dirSlots_eq_map (v v' : Volume) (cs : List Nat) : dirSlots g v' cs = (dirSlots g v cs).map (Slot.on g v') := by
  induction cs with
  | nil => rfl
  | cons c cs ih =>
    have hcluster : clusterSlots g v' c = (clusterSlots g v c).map (Slot.on g v') := by
      unfold clusterSlots slotsFrom
      rw [map_map]
      rfl
    rw [dirSlots_cons, dirSlots_cons, map_append, ih, hcluster]

/-- What a scan stopped at, as it is on a volume. -/
def Hit.on (g : Geometry) (v : Volume) (h : Hit) : Hit := { h with buf := v.cluster g h.cluster }

/-- Two entries that differ in no more than the size. -/
structure SameEntry (e e' : Entry) : Prop where
  first : e'.first = e.first
  attr : e'.attr = e.attr
  piece : e.isLfn = true → e' = e
  name : e'.name = e.name
  cluster : e'.firstCluster = e.firstCluster

theorem SameEntry.refl (e : Entry) : SameEntry e e := ⟨rfl, rfl, fun _ => rfl, rfl, rfl⟩

theorem SameEntry.isLfn {e e' : Entry} (h : SameEntry e e') : e'.isLfn = e.isLfn := by
  unfold Entry.isLfn
  rw [h.attr]

theorem byte_entryAt (buf : Mem) {i j : Nat} (hj : j < 32) : (entryAt buf i).byte j = buf (32 * i + j) := by
  simp [entryAt, Entry.byte, hj]

/-- A short entry of which only the last four bytes change. -/
theorem sameEntry_entryAt {buf buf' : Mem} {i : Nat} (hshort : (entryAt buf i).isLfn = false)
    (hsame : ∀ j, j < 28 → buf' (32 * i + j) = buf (32 * i + j)) : SameEntry (entryAt buf i) (entryAt buf' i) := by
  have hbyte : ∀ j, j < 28 → (entryAt buf' i).byte j = (entryAt buf i).byte j := fun j hj => by
    rw [byte_entryAt _ (by omega), byte_entryAt _ (by omega), hsame j hj]
  refine ⟨hbyte 0 (by decide), hbyte 11 (by decide), fun hlfn => absurd (hshort.symm.trans hlfn) Bool.false_ne_true, ?_, ?_⟩
  · unfold Entry.name entryAt
    rw [← map_take, ← map_take, take_range]
    exact map_congr_left fun j hj => hsame j (by have := mem_range.mp hj; omega)
  · unfold Entry.firstCluster Entry.word16
    rw [hbyte 20 (by decide), hbyte 21 (by decide), hbyte 26 (by decide), hbyte 27 (by decide)]

theorem nameMatches_congr {e e' : Entry} (h : e'.name = e.name) (name : List UInt8) (st : LfnState) :
    nameMatches name st e' = nameMatches name st e := by
  unfold nameMatches LfnState.longName
  rw [h]

/-- A search by name goes the same way over the same names. -/
theorem scanSlots_on {sc : Scanner} {name : List UInt8} (hsc : ∀ count, sc.accept count = nameMatches name) {v' : Volume} :
    ∀ {xs : List Slot} {count : Nat} {st : LfnState}, (∀ x ∈ xs, SameEntry x.entry (x.on g v').entry) →
      scanSlots sc count st (xs.map (Slot.on g v')) = (scanSlots sc count st xs).map (Option.map (Hit.on g v'))
  | [], _, _, _ => rfl
  | x :: xs, count, st, hsame => by
    have hx := hsame x mem_cons_self
    have hlater : ∀ {count st}, scanSlots sc count st (xs.map (Slot.on g v')) =
        (scanSlots sc count st xs).map (Option.map (Hit.on g v')) :=
      scanSlots_on hsc fun y hy => hsame y (mem_cons_of_mem _ hy)
    have haccept : sc.accept count st (x.on g v').entry = sc.accept count st x.entry := by
      rw [hsc]
      exact nameMatches_congr hx.name name st
    have hskips : sc.skips (x.on g v').entry = sc.skips x.entry := by
      unfold Scanner.skips Entry.isVolumeId
      rw [hx.attr, hx.first]
    rw [map_cons, scanSlots, scanSlots, hx.first, hx.isLfn, haccept, hskips]
    split
    · rfl
    · split
      · exact hlater
      · split
        · next hlfn =>
          rw [hx.piece hlfn]
          cases st.collect x.entry with
          | none => rfl
          | some st' => exact hlater
        · split
          · exact hlater
          · split
            · rfl
            · exact hlater

/-! ## The entry of the file -/

/-- The search for the entry of a file in its directory. -/
def entryScan (g : Geometry) (v : Volume) (name : List UInt8) (dch : List Nat) : Except Stop (Option Hit) :=
  scanSlots (updateScan name) 0 .init (dirSlots g v dch)

theorem mem_dirSlots {cs : List Nat} {x : Slot} (h : x ∈ dirSlots g v cs) :
    x.cluster ∈ cs ∧ x.buf = v.cluster g x.cluster ∧ x.index < g.perCluster := by
  obtain ⟨c, hc, hx⟩ := mem_flatMap.mp h
  obtain ⟨i, hi, rfl⟩ := mem_map.mp hx
  exact ⟨hc, rfl, by simpa using (List.mem_range'_1.mp hi).2⟩

/-- A short entry of the directory, as a search has come to it. -/
structure Located (g : Geometry) (v : Volume) (cs : List Nat) (h : Hit) : Prop where
  cluster : h.cluster ∈ cs
  buf : h.buf = v.cluster g h.cluster
  index : h.index < g.perCluster
  short : h.entry.isLfn = false

theorem located {sc : Scanner} {cs : List Nat} {count : Nat} {st : LfnState} {h : Hit}
    (hscan : scanSlots sc count st (dirSlots g v cs) = .ok (some h)) : Located g v cs h := by
  obtain ⟨x, hx, st, rfl, hshort⟩ := scanSlots_hit hscan
  obtain ⟨hc, hbuf, hi⟩ := mem_dirSlots hx
  exact ⟨hc, hbuf, hi, hshort⟩

/-- The size of the entry that a search stopped at, if it did. -/
def Volume.setSize (g : Geometry) (v : Volume) (o : Option Hit) (newSize : Nat) : Volume :=
  match o with
  | none => v
  | some h => v.setCluster g h.cluster (store32 h.buf (32 * h.index + 28) newSize)

section SetSize

variable {cs : List Nat} {h : Hit} {c i newSize : Nat}

theorem cluster_setSize_of_ne (hg : g.Valid) (hdata : ∀ d ∈ cs, HasData g d) (hh : Located g v cs h) (hc : HasData g c)
    (hne : c ≠ h.cluster) : (v.setSize g (some h) newSize).cluster g c = v.cluster g c :=
  Volume.cluster_setCluster_of_ne hg v (hdata _ hh.cluster) hc hne _

theorem cluster_setSize_self (hh : Located g v cs h) {x : Nat} (hx : x < g.clusterSize) :
    (v.setSize g (some h) newSize).cluster g h.cluster x = store32 (v.cluster g h.cluster) (32 * h.index + 28) newSize x := by
  rw [← hh.buf]
  exact Volume.cluster_setCluster _ _ _ hx

theorem entry_setSize_of_ne (hg : g.Valid) (hdata : ∀ d ∈ cs, HasData g d) (hh : Located g v cs h) (hc : HasData g c)
    (hi : i < g.perCluster) (hne : (c, i) ≠ h.place) :
    entryAt ((v.setSize g (some h) newSize).cluster g c) i = entryAt (v.cluster g c) i := by
  by_cases hcl : c = h.cluster
  · subst hcl
    have hidx : i ≠ h.index := fun heq => hne (congrArg _ heq)
    have hroom : 32 * g.perCluster ≤ g.clusterSize := Nat.mul_div_le g.clusterSize 32
    refine map_congr_left fun j hj => ?_
    have hj' := mem_range.mp hj
    rw [cluster_setSize_self hh (by omega), store32_apply_disjoint (by omega)]
  · rw [cluster_setSize_of_ne hg hdata hh hc hcl]

theorem sameEntry_setSize_self (hh : Located g v cs h) :
    SameEntry (entryAt (v.cluster g h.cluster) h.index) (entryAt ((v.setSize g (some h) newSize).cluster g h.cluster) h.index) := by
  have hroom : 32 * g.perCluster ≤ g.clusterSize := Nat.mul_div_le g.clusterSize 32
  have hi := hh.index
  have hshort := hh.short
  unfold Hit.entry at hshort
  rw [hh.buf] at hshort
  refine sameEntry_entryAt hshort fun j hj => ?_
  rw [cluster_setSize_self hh (by omega), store32_apply_disjoint (by omega)]

/-- With another size in an entry the names of the directory are the same. -/
theorem sameEntry_setSize (hg : g.Valid) {o : Option Hit} (hdata : ∀ d ∈ cs, HasData g d) (ho : ∀ h, o = some h → Located g v cs h)
    (hc : HasData g c) (hi : i < g.perCluster) :
    SameEntry (entryAt (v.cluster g c) i) (entryAt ((v.setSize g o newSize).cluster g c) i) := by
  cases o with
  | none => exact .refl _
  | some h =>
    by_cases hplace : (c, i) = h.place
    · cases hplace
      exact sameEntry_setSize_self (ho h rfl)
    · rw [entry_setSize_of_ne hg hdata (ho h rfl) hc hi hplace]
      exact .refl _

/-- The names of another directory of the volume, too. -/
theorem sameEntry_dirSlots (hg : g.Valid) {o : Option Hit} (hdata : ∀ d ∈ cs, HasData g d) (ho : ∀ h, o = some h → Located g v cs h)
    {ds : List Nat} (hds : ∀ d ∈ ds, HasData g d) :
    ∀ x ∈ dirSlots g v ds, SameEntry x.entry (x.on g (v.setSize g o newSize)).entry := by
  intro x hx
  obtain ⟨hc, hbuf, hi⟩ := mem_dirSlots hx
  unfold Slot.entry Slot.on
  dsimp only
  rw [hbuf]
  exact sameEntry_setSize hg hdata ho (hds _ hc) hi

end SetSize

theorem scan_updateDirEntry (hg : g.Valid) (node : Node) {dch : List Nat} (hdir : Chain g v.fat node.parentCluster dch) (newSize : Nat) :
    Prog.run (onVolume g) (updateDirEntry g (g.total + 1) node newSize) v =
      (entryScan g v node.name dch).map fun o => ((), v.setSize g o newSize) := by
  have hlen : dch.length < g.total + 1 := by
    rw [hg.total_eq]
    exact Nat.lt_succ_of_le (hdir.length_le hg)
  have hscan := run_scanChain hg (updateScan node.name) hdir (g.total + 1) hlen 0 .init
  unfold updateDirEntry entryScan
  cases ho : scanSlots (updateScan node.name) 0 .init (dirSlots g v dch) with
  | error e =>
    rw [ho] at hscan
    exact Prog.run_bind_error hscan
  | ok o =>
    rw [ho] at hscan
    rw [Prog.run_bind_ok hscan]
    cases o with
    | none => rfl
    | some h => exact run_writeCluster hg (hdir.hasData _ (located ho).cluster) _

/-- The new size goes into a cluster of the directory, if there is an entry for it; no other cluster
changes, and the search comes to its end again. -/
theorem run_updateDirEntry (hg : g.Valid) (node : Node) {dch : List Nat} (hdir : Chain g v.fat node.parentCluster dch) (newSize : Nat) :
    (∀ o, entryScan g v node.name dch = .ok o → ∃ v', Prog.run (onVolume g) (updateDirEntry g (g.total + 1) node newSize) v =
      .ok ((), v') ∧ v'.fat = v.fat ∧ (∀ d, HasData g d → d ∉ dch → v'.cluster g d = v.cluster g d) ∧
        ∃ o', entryScan g v' node.name dch = .ok o') ∧
    (∀ e, entryScan g v node.name dch = .error e →
      Prog.run (onVolume g) (updateDirEntry g (g.total + 1) node newSize) v = .error e) := by
  rw [scan_updateDirEntry hg node hdir newSize]
  refine ⟨fun o ho => ?_, fun e he => by rw [he]; rfl⟩
  rw [ho]
  have hlocated : ∀ h, o = some h → Located g v dch h := by
    rintro h rfl
    exact located ho
  refine ⟨_, rfl, ?_, fun d hd hnot => ?_, ?_⟩
  · cases o <;> rfl
  · cases o with
    | none => rfl
    | some h =>
      refine cluster_setSize_of_ne hg hdir.hasData (hlocated h rfl) hd ?_
      rintro rfl
      exact hnot (hlocated h rfl).cluster
  · unfold entryScan at ho ⊢
    rw [dirSlots_eq_map v, scanSlots_on (fun _ => rfl) (sameEntry_dirSlots hg hdir.hasData hlocated hdir.hasData), ho]
    exact ⟨_, rfl⟩

end Serotonin.Fat32
