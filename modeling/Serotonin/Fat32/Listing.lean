import Serotonin.Fat32.Select
import Mathlib.Data.List.TakeWhile

/-! `fat32_readdir` shows the live entries one after another; `fat32_finddir` finds an entry
again by the name it is shown under, unless the key made of that name is the short name of
another entry, or not that of its own. -/

namespace Serotonin.Fat32

open List

variable {g : Geometry} {v : Volume}

/-- The live entries of a directory, in order. -/
def liveEntries (g : Geometry) (v : Volume) (cs : List Nat) : List (Slot × LfnState) :=
  (shorts .init (dirSlots g v cs)).filter fun p => p.1.isLive

/-- The long name of an entry, if it has one. -/
def longOf (p : Slot × LfnState) : Option (List UInt8) := p.2.longName p.1.entry

/-- The name that an entry is shown under. -/
def shownOf (p : Slot × LfnState) : List UInt8 := (longOf p).getD (fat32NameFromEntry p.1.entry.name)

/-- The node that `fat32_readdir` makes of an entry. -/
def listedNode (p : Slot × LfnState) : Node := nodeOf (shownOf p) (p.1.hit p.2)

/-! ## Listing -/

/-- The calls with the indices 0, 1, .. give these nodes, and then none. -/
def Enumerates (g : Geometry) (dir : Node) (s : Fs) (nodes : List Node) : Prop :=
  ∀ i, ∃ s', Prog.run (onDisk g) (fat32Readdir g dir i) s = .ok (nodes[i]?, s')

theorem readdir_skips (i : Nat) (x : Slot) : (!(readdirScan i).skips x.entry) = x.isLive := by
  simp [Scanner.skips, readdirScan, Slot.isLive, bne]

theorem scanSlots_readdir {xs : List Slot} (hover : overruns .init xs = false) (i : Nat) :
    scanSlots (readdirScan i) 0 .init xs =
      .ok ((((shorts .init xs).filter fun p => p.1.isLive)[i]?).map fun p => p.1.hit p.2) := by
  rw [scanSlots_eq_walk, walk_eq_getElem (readdirScan i) i (fun _ _ _ => rfl) _ 0 (Nat.zero_le i)]
  simp only [readdir_skips, Nat.sub_zero]
  cases ((shorts .init xs).filter fun p => p.1.isLive)[i]? with
  | none => rw [hover]; rfl
  | some p => rfl

section Machine

variable {s : Fs} {dir : Node} {cs : List Nat}

theorem run_readdir (hg : g.Valid) (hs : Mounted g s v) (hc : Chain g v.fat dir.cluster cs)
    (hover : overruns .init (dirSlots g v cs) = false) : Enumerates g dir s ((liveEntries g v cs).map listedNode) := by
  intro i
  have hf := scan_follows hg hs hc (readdirScan i)
  rw [scanSlots_readdir hover] at hf
  obtain ⟨s', hrun, _⟩ := hf
  refine ⟨s', ?_⟩
  rw [fat32Readdir, Prog.run_bind_ok hrun, List.getElem?_map]
  unfold liveEntries
  cases ((shorts .init (dirSlots g v cs)).filter fun p => p.1.isLive)[i]? with
  | none => rfl
  | some p => rfl

/-- A lookup that returns a node for the same data. -/
def Finds (g : Geometry) (dir : Node) (s : Fs) (node : Node) : Prop :=
  ∃ found s', Prog.run (onDisk g) (fat32Finddir g dir node.name) s = .ok (some found, s') ∧
    found.cluster = node.cluster ∧ found.size = node.size ∧ found.directory = node.directory

/-- The same cluster, size and kind. -/
def Alike (p q : Slot × LfnState) : Prop :=
  p.1.entry.firstCluster = q.1.entry.firstCluster ∧ p.1.entry.fileSize = q.1.entry.fileSize ∧
    p.1.entry.isDirectory = q.1.entry.isDirectory

theorem Alike.refl (p : Slot × LfnState) : Alike p p := ⟨rfl, rfl, rfl⟩

theorem longOf_length {p : Slot × LfnState} {long : List UInt8} (h : longOf p = some long) : long.length ≤ 255 := by
  unfold longOf LfnState.longName at h
  split at h
  · cases h
    exact length_take_le ..
  · cases h

theorem fat32NameFromEntry_length (raw : List UInt8) (hraw : raw.length ≤ 11) : (fat32NameFromEntry raw).length ≤ 12 := by
  have hbase : ((raw.take 8).takeWhile (· ≠ 32)).length ≤ 8 :=
    Nat.le_trans ( List.takeWhile_prefix _).length_le (length_take_le ..)
  have hext : ((raw.drop 8).takeWhile (· ≠ 32)).length ≤ 3 := by
    have h := ( List.takeWhile_prefix (l := raw.drop 8) (· ≠ 32)).length_le
    rw [length_drop] at h
    omega
  unfold fat32NameFromEntry
  dsimp only
  rw [length_append, length_map]
  split
  · simp only [length_nil]
    omega
  · simp only [length_cons, length_map]
    omega

theorem shownOf_length (p : Slot × LfnState) : (shownOf p).length ≤ 255 := by
  unfold shownOf
  cases hl : longOf p with
  | none => exact Nat.le_trans (fat32NameFromEntry_length _ (length_take_le ..)) (by decide)
  | some long => exact longOf_length hl

/-- The node is shown under the whole name. -/
theorem listedNode_name (p : Slot × LfnState) : (listedNode p).name = shownOf p := take_of_length_le (shownOf_length p)

theorem finds_iff (hg : g.Valid) (hs : Mounted g s v) (hc : Chain g v.fat dir.cluster cs) (p : Slot × LfnState) :
    Finds g dir s (listedNode p) ↔
      ∃ q, (liveEntries g v cs).find? (named (shownOf p)) = some q ∧ Alike q p := by
  have hfind : ∀ o, scanSlots (finddirScan (shownOf p)) 0 .init (dirSlots g v cs) = .ok (some o) ↔
      ∃ q, (liveEntries g v cs).find? (named (shownOf p)) = some q ∧ q.1.hit q.2 = o := by
    intro o
    rw [scanSlots_named_ok (finddirScan _) (fun _ => rfl)]
    simp only [finddir_skips, reduceCtorEq, false_imp_iff, and_true, liveEntries, List.find?_filter, Option.map_eq_some_iff,
      Bool.decide_and, Bool.decide_eq_true]
  unfold Finds
  rw [listedNode_name]
  constructor
  · rintro ⟨found, s', hrun, hsame⟩
    rw [fat32Finddir] at hrun
    obtain ⟨o, s₁, hscan, hrest⟩ := Prog.run_bind_eq_ok.mp hrun
    cases o with
    | none => cases hrest
    | some h =>
      cases hrest
      obtain ⟨q, hq, rfl⟩ := (hfind h).mp (scan_ok hg hs hc hscan).1
      exact ⟨q, hq, hsame⟩
  · rintro ⟨q, hq, hsame⟩
    have hf := scan_follows hg hs hc (finddirScan (shownOf p))
    rw [(hfind _).mpr ⟨q, hq, rfl⟩] at hf
    obtain ⟨s', hrun, _⟩ := hf
    refine ⟨nodeOf (shownOf p) (q.1.hit q.2), s', ?_, hsame⟩
    rw [fat32Finddir, Prog.run_bind_ok hrun]
    rfl

end Machine

/-! ## Well-formed directories -/

/-- Runs of pieces are not too long, and no two live entries have a name in common: neither the
short one, nor one that they are shown under. -/
structure WellFormed (g : Geometry) (v : Volume) (cs : List Nat) : Prop where
  runs : overruns .init (dirSlots g v cs) = false
  short : ((liveEntries g v cs).map fun p => p.1.entry.name).Nodup
  long : ∀ p ∈ liveEntries g v cs, ∀ q ∈ liveEntries g v cs, ∀ long, longOf q = some long →
    fat32Strcasecmp (shownOf p) long = 0 → q = p

/-- The key of the name that an entry is shown under leads to that entry, or to one that is no
different: an entry with a long name must not come after another that has the key, one
without must have it itself. -/
def KeyLeads (ps pre : List (Slot × LfnState)) (p : Slot × LfnState) : Prop :=
  if (longOf p).isSome then ∀ q ∈ pre, q.1.entry.name = fat32BuildNameKey (shownOf p) → Alike q p
  else ∃ q ∈ ps, q.1.entry.name = fat32BuildNameKey (shownOf p) ∧ Alike q p

theorem fat32Strcasecmp_self (name : List UInt8) : fat32Strcasecmp name name = 0 := by
  induction name with
  | nil => rfl
  | cons c name ih =>
    rw [fat32Strcasecmp, if_neg (not_not.mpr rfl)]
    exact ih

/-- Which entries have a name that is shown. -/
theorem named_shown {cs : List Nat} (hw : WellFormed g v cs) {p q : Slot × LfnState} (hp : p ∈ liveEntries g v cs)
    (hq : q ∈ liveEntries g v cs) : named (shownOf p) q = true ↔
      q = p ∧ (longOf p).isSome = true ∨ q.1.entry.name = fat32BuildNameKey (shownOf p) := by
  unfold named nameMatches
  rw [Bool.or_eq_true, beq_iff_eq]
  refine or_congr_left ?_
  have hlongOf : q.2.longName q.1.entry = longOf q := rfl
  rw [hlongOf]
  constructor
  · intro h
    cases hl : longOf q with
    | none =>
      rw [hl] at h
      cases h
    | some long =>
      rw [hl] at h
      have heq := hw.long p hp q hq long hl (beq_iff_eq.mp h)
      exact ⟨heq, by rw [← heq, hl]; rfl⟩
  · rintro ⟨rfl, hl⟩
    obtain ⟨long, hlong⟩ := Option.isSome_iff_exists.mp hl
    have hshown : shownOf q = long := by rw [shownOf, hlong]; rfl
    rw [hlong, hshown]
    exact beq_iff_eq.mpr (fat32Strcasecmp_self long)

/-- The search for a shown name stops at the entry with its key if that comes first. -/
theorem find_shown {cs : List Nat} (hw : WellFormed g v cs) {pre post : List (Slot × LfnState)} {p : Slot × LfnState}
    (hps : liveEntries g v cs = pre ++ p :: post) :
    (∃ q, (liveEntries g v cs).find? (named (shownOf p)) = some q ∧ Alike q p) ↔ KeyLeads (liveEntries g v cs) pre p := by
  have hp : p ∈ liveEntries g v cs := by rw [hps]; simp
  have hunique : ∀ q ∈ liveEntries g v cs, ∀ r ∈ liveEntries g v cs, q.1.entry.name = r.1.entry.name → q = r :=
    fun q hq r hr h => inj_on_of_nodup_map hw.short hq hr h
  have hnamed := fun q hq => named_shown hw hp (q := q) hq
  have hpre : ∀ q ∈ pre, q ∈ liveEntries g v cs ∧ q ≠ p := by
    intro q hq
    refine ⟨by rw [hps]; exact mem_append_left _ hq, ?_⟩
    rintro rfl
    have hnd := hw.short
    rw [hps, map_append] at hnd
    exact (nodup_append.mp hnd).2.2 _ (mem_map_of_mem hq) _ mem_cons_self rfl
  unfold KeyLeads
  split
  · rename_i hl
    have hself : named (shownOf p) p = true := (hnamed p hp).mpr (.inl ⟨rfl, hl⟩)
    have hfind : (liveEntries g v cs).find? (named (shownOf p)) = (pre.find? (named (shownOf p))).getD p := by
      rw [hps, List.find?_append, List.find?_cons, hself]
      cases pre.find? (named (shownOf p)) <;> rfl
    rw [hfind]
    constructor
    · rintro ⟨q, hq, halike⟩ r hr hkey
      have hrnamed : named (shownOf p) r = true := (hnamed r (hpre r hr).1).mpr (.inr hkey)
      cases hfirst : pre.find? (named (shownOf p)) with
      | none => exact absurd hrnamed (List.find?_eq_none.mp hfirst r hr)
      | some q' =>
        rw [hfirst] at hq
        cases hq
        obtain ⟨hq', hne⟩ := hpre q' (mem_of_find?_eq_some hfirst)
        have hkey' := ((hnamed q' hq').mp (List.find?_some hfirst)).resolve_left fun h => hne h.1
        rw [hunique r (hpre r hr).1 q' hq' (hkey.trans hkey'.symm)]
        exact halike
    · intro h
      cases hfirst : pre.find? (named (shownOf p)) with
      | none => exact ⟨p, rfl, .refl p⟩
      | some q =>
        have hq := mem_of_find?_eq_some hfirst
        have hqkey := ((hnamed q (hpre q hq).1).mp (List.find?_some hfirst)).resolve_left fun h => (hpre q hq).2 h.1
        exact ⟨q, rfl, h q hq hqkey⟩
  · rename_i hl
    constructor
    · rintro ⟨q, hq, halike⟩
      have hmem := mem_of_find?_eq_some hq
      exact ⟨q, hmem, ((hnamed q hmem).mp (List.find?_some hq)).resolve_left fun h => hl h.2, halike⟩
    · rintro ⟨q, hmem, hkey, halike⟩
      cases hfirst : (liveEntries g v cs).find? (named (shownOf p)) with
      | none => exact absurd ((hnamed q hmem).mpr (.inr hkey)) (List.find?_eq_none.mp hfirst q hmem)
      | some r =>
        have hr := mem_of_find?_eq_some hfirst
        have hrkey := ((hnamed r hr).mp (List.find?_some hfirst)).resolve_left fun h => hl h.2
        exact ⟨r, rfl, hunique q hmem r hr (hkey.trans hrkey.symm) ▸ halike⟩

/-! ## Short names -/

/-- A short name with blanks at the end of its parts only, and without lower case and dots. -/
def PlainName (raw : List UInt8) : Prop :=
  ∃ base ext : List UInt8, raw = padTo 8 base ++ padTo 3 ext ∧ base.length ≤ 8 ∧ ext.length ≤ 3 ∧
    ∀ c ∈ base ++ ext, c ≠ 32 ∧ c ≠ 46 ∧ toupper c = c

theorem toupper_tolower (c : UInt8) (h : toupper c = c) : toupper (tolower c) = c := by
  have hall : ∀ i : Fin 256, toupper (.ofNat i) = .ofNat i → toupper (tolower (.ofNat i)) = .ofNat i := by decide +kernel
  simpa using hall ⟨c.toNat, c.toNat_lt⟩ (by simpa using h)

theorem tolower_ne (c : UInt8) (h : c ≠ 46) : tolower c ≠ 46 := by
  have hall : ∀ i : Fin 256, UInt8.ofNat i ≠ 46 → tolower (.ofNat i) ≠ 46 := by decide +kernel
  simpa using hall ⟨c.toNat, c.toNat_lt⟩ (by simpa using h)

theorem padTo_of_le {n : Nat} {bytes : List UInt8} (h : bytes.length ≤ n) :
    padTo n bytes = bytes ++ List.replicate (n - bytes.length) 32 := by
  rw [padTo, take_of_length_le h]

theorem takeWhile_padTo {n : Nat} {bytes : List UInt8} (h : bytes.length ≤ n) (hb : ∀ c ∈ bytes, c ≠ 32) :
    (padTo n bytes).takeWhile (fun c => c ≠ 32) = bytes := by
  rw [padTo_of_le h, takeWhile_append_of_pos (by simpa using hb)]
  simp

/-- The key of the shown form of a short name is that short name. -/
theorem buildNameKey_nameFromEntry {raw : List UInt8} (h : PlainName raw) :
    fat32BuildNameKey (fat32NameFromEntry raw) = raw := by
  obtain ⟨base, ext, rfl, hbase, hext, hchar⟩ := h
  have hpad8 : (padTo 8 base).length = 8 := by
    rw [padTo_of_le hbase, length_append, length_replicate]
    omega
  have htake : (padTo 8 base ++ padTo 3 ext).take 8 = padTo 8 base := by
    rw [take_append_of_le_length (by omega), take_of_length_le (by omega)]
  have hdrop : (padTo 8 base ++ padTo 3 ext).drop 8 = padTo 3 ext := by
    rw [drop_append_of_le_length (by omega), drop_of_length_le (by omega), nil_append]
  have hb : ∀ c ∈ base, c ≠ 32 := fun c hc => (hchar c (mem_append_left _ hc)).1
  have he : ∀ c ∈ ext, c ≠ 32 := fun c hc => (hchar c (mem_append_right _ hc)).1
  have hupper : ∀ l : List UInt8, (∀ c ∈ l, toupper c = c) → (l.map tolower).map toupper = l := fun l hl => by
    rw [map_map]
    exact (map_congr_left fun c hc => toupper_tolower c (hl c hc)).trans (map_id l)
  have hlower : ∀ c ∈ base.map tolower, c ≠ 46 := fun c hc => by
    obtain ⟨d, hd, rfl⟩ := mem_map.mp hc
    exact tolower_ne d (hchar d (mem_append_left _ hd)).2.1
  have hubase := hupper base fun c hc => (hchar c (mem_append_left _ hc)).2.2
  have huext := hupper ext fun c hc => (hchar c (mem_append_right _ hc)).2.2
  unfold fat32NameFromEntry
  dsimp only
  rw [htake, hdrop, takeWhile_padTo hbase hb, takeWhile_padTo hext he]
  have hdropWhile : ∀ rest, (base.map tolower ++ 46 :: rest).dropWhile (fun c => c ≠ 46) = 46 :: rest := fun rest => by
    rw [dropWhile_append_of_pos (by simpa using hlower)]
    rfl
  have htakeWhile : ∀ rest, (base.map tolower ++ 46 :: rest).takeWhile (fun c => c ≠ 46) = base.map tolower := fun rest => by
    rw [takeWhile_append_of_pos (by simpa using hlower)]
    simp
  cases ext with
  | nil =>
    have hblank : (padTo 3 []).all (· == 32) = true := rfl
    have hsplit : splitAtDot (base.map tolower) = (base.map tolower, none) := by
      unfold splitAtDot
      rw [dropWhile_eq_nil_iff.mpr (by simpa using hlower)]
    rw [hblank, if_pos rfl, append_nil, fat32BuildNameKey, hsplit]
    simp only [hubase, Option.getD_none, map_nil]
  | cons e ext =>
    have hblank : (padTo 3 (e :: ext)).all (· == 32) = false := by
      rw [padTo_of_le hext]
      simp [he e mem_cons_self]
    have hsplit : splitAtDot (base.map tolower ++ 46 :: (e :: ext).map tolower) =
        (base.map tolower, some ((e :: ext).map tolower)) := by
      unfold splitAtDot
      rw [hdropWhile, htakeWhile]
    rw [hblank, if_neg Bool.false_ne_true, fat32BuildNameKey, hsplit]
    simp only [hubase, huext, Option.getD_some]

/-- An entry that shows a plain short name is found by it. -/
theorem keyLeads_of_plain {ps pre : List (Slot × LfnState)} {p : Slot × LfnState} (hp : p ∈ ps) (hlong : longOf p = none)
    (hplain : PlainName p.1.entry.name) : KeyLeads ps pre p := by
  unfold KeyLeads
  rw [if_neg (by rw [hlong]; exact Bool.false_ne_true)]
  refine ⟨p, hp, ?_, .refl p⟩
  rw [shownOf, hlong]
  exact (buildNameKey_nameFromEntry hplain).symm

def dot : List UInt8 := [46]

def dotdot : List UInt8 := [46, 46]

/-- In a well-formed directory the listing shows every live entry once, and the lookup agrees
with it for every shown name exactly if the keys of these names lead back. -/
theorem readdir_finddir_agree {s : Fs} {dir : Node} {cs : List Nat} (hg : g.Valid) (hs : Mounted g s v)
    (hc : Chain g v.fat dir.cluster cs) (hw : WellFormed g v cs) :
    (Enumerates g dir s ((liveEntries g v cs).map listedNode) ∧
      ∀ node ∈ (liveEntries g v cs).map listedNode, node.name ≠ dot → node.name ≠ dotdot → Finds g dir s node) ↔
    ∀ pre p post, liveEntries g v cs = pre ++ p :: post → shownOf p ≠ dot → shownOf p ≠ dotdot →
      KeyLeads (liveEntries g v cs) pre p := by
  rw [and_iff_right (run_readdir hg hs hc hw.runs)]
  constructor
  · intro h pre p post hps hdot hdotdot
    have hp : p ∈ liveEntries g v cs := by rw [hps]; simp
    have hfinds := h _ (List.mem_map_of_mem hp) (listedNode_name p ▸ hdot) (listedNode_name p ▸ hdotdot)
    exact (find_shown hw hps).mp ((finds_iff hg hs hc p).mp hfinds)
  · intro h node hnode hdot hdotdot
    obtain ⟨p, hp, rfl⟩ := List.mem_map.mp hnode
    rw [listedNode_name] at hdot hdotdot
    obtain ⟨pre, post, hps⟩ := List.append_of_mem hp
    exact (finds_iff hg hs hc p).mpr ((find_shown hw hps).mpr (h pre p post hps hdot hdotdot))

/-! ## A long name that is cut to a short one -/

def longfileKey : List UInt8 := [76, 79, 78, 71, 70, 73, 76, 69, 84, 88, 84]

/-- `longfilename.txt` -/
def longfilename : List UInt8 := [108, 111, 110, 103, 102, 105, 108, 101, 110, 97, 109, 101, 46, 116, 120, 116]

/-- `LONGFI~1.TXT` -/
def longfileAlias : List UInt8 := tailedKey (shortNameParts longfilename) 1

/-- `LONGFILE.TXT` in cluster 3, and after it `longfilename.txt` in cluster 4. -/
def twoFiles : List UInt8 :=
  plainEntry longfileKey 0x20 3 ++ lfnEntry 0x42 (fat32LfnChecksum longfileAlias) longfilename 13 ++
    lfnEntry 0x01 (fat32LfnChecksum longfileAlias) longfilename 0 ++ plainEntry longfileAlias 0x20 4

/-- Of each live entry its short and its long name, and its first cluster. -/
def summary (p : Slot × LfnState) : List UInt8 × Option (List UInt8) × Nat :=
  (p.1.entry.name, longOf p, p.1.entry.firstCluster)

/-- `longfilename.txt` is shown, and a lookup of it finds `LONGFILE.TXT`. -/
theorem not_always_found : ¬∀ (g : Geometry) (s : Fs) (v : Volume) (dir : Node) (cs : List Nat), g.Valid → Mounted g s v →
    Chain g v.fat dir.cluster cs → WellFormed g v cs →
      Enumerates g dir s ((liveEntries g v cs).map listedNode) ∧
        ∀ node ∈ (liveEntries g v cs).map listedNode, node.name ≠ dot → node.name ≠ dotdot → Finds g dir s node := by
  intro hall
  have hs := mounted_root twoFiles
  have hc := chain_root twoFiles
  have hruns : overruns .init (dirSlots oneSector (rootVolume twoFiles) [2]) = false := by decide +kernel
  have hlist : (liveEntries oneSector (rootVolume twoFiles) [2]).map summary =
      [(longfileKey, none, 3), (longfileAlias, some longfilename, 4)] := by decide +kernel
  obtain ⟨p, ps, hps, hp, htail⟩ := List.map_eq_cons_iff.mp hlist
  obtain ⟨q, qs, rfl, hq, hnil⟩ := List.map_eq_cons_iff.mp htail
  obtain rfl := List.map_eq_nil_iff.mp hnil
  simp only [summary, Prod.mk.injEq] at hp hq
  obtain ⟨hpname, hplong, hpcluster⟩ := hp
  obtain ⟨hqname, hqlong, hqcluster⟩ := hq
  have hpshown : shownOf p = fat32NameFromEntry longfileKey := by rw [shownOf, hplong, hpname]; rfl
  have hqshown : shownOf q = longfilename := by rw [shownOf, hqlong]; rfl
  have hw : WellFormed oneSector (rootVolume twoFiles) [2] := by
    refine ⟨hruns, ?_, fun a ha b hb long hlong hcmp => ?_⟩
    · rw [hps, List.map_cons, List.map_cons, List.map_nil, hpname, hqname]
      decide
    · rw [hps] at ha hb
      rcases List.mem_pair.mp hb with rfl | rfl
      · rw [hplong] at hlong
        cases hlong
      · rw [hqlong] at hlong
        cases hlong
        rcases List.mem_pair.mp ha with rfl | rfl
        · rw [hpshown] at hcmp
          exact absurd hcmp (by decide)
        · rfl
  let dir : Node := { name := [47], directory := true, size := 0, mode := 0, cluster := 2, parentCluster := 0 }
  have hq : q ∈ liveEntries oneSector (rootVolume twoFiles) [2] := by rw [hps]; simp
  have hfinds := (hall _ _ _ dir _ oneSector_valid hs hc hw).2 _ (List.mem_map_of_mem hq)
    (by rw [listedNode_name, hqshown]; decide) (by rw [listedNode_name, hqshown]; decide)
  obtain ⟨r, hr, halike⟩ := (finds_iff oneSector_valid hs hc q).mp hfinds
  have hnamed : named (shownOf q) p = true :=
    (named_shown hw hq (by rw [hps]; simp)).mpr (.inr (by rw [hpname, hqshown]; decide))
  rw [hps, List.find?_cons, hnamed] at hr
  cases hr
  have hcluster := halike.1
  rw [hpcluster, hqcluster] at hcluster
  cases hcluster

/-- The one file of a directory is listed and found. -/
theorem readdir_finddir_agree_oneFile :
    Enumerates oneSector ⟨[47], true, 0, 0, 2, 0⟩ (fat32Mount oneSector (rootDisk oneFile) true)
      ((liveEntries oneSector (rootVolume oneFile) [2]).map listedNode) ∧
    ∀ node ∈ (liveEntries oneSector (rootVolume oneFile) [2]).map listedNode, node.name ≠ dot → node.name ≠ dotdot →
      Finds oneSector ⟨[47], true, 0, 0, 2, 0⟩ (fat32Mount oneSector (rootDisk oneFile) true) node := by
  have hlist : (liveEntries oneSector (rootVolume oneFile) [2]).map summary = [(padTo 8 [65] ++ padTo 3 [], none, 3)] := by
    decide +kernel
  obtain ⟨p, ps, hps, hp, hnil⟩ := List.map_eq_cons_iff.mp hlist
  obtain rfl := List.map_eq_nil_iff.mp hnil
  simp only [summary, Prod.mk.injEq] at hp
  have hruns : overruns .init (dirSlots oneSector (rootVolume oneFile) [2]) = false := by decide +kernel
  have hw : WellFormed oneSector (rootVolume oneFile) [2] := by
    refine ⟨hruns, by rw [hps]; exact List.nodup_singleton _, fun a ha b hb _ _ _ => ?_⟩
    rw [hps, List.mem_singleton] at ha hb
    rw [ha, hb]
  refine (readdir_finddir_agree oneSector_valid (mounted_root oneFile) (chain_root oneFile) hw).mpr fun pre q post hq _ _ => ?_
  have hmem : q ∈ liveEntries oneSector (rootVolume oneFile) [2] := by rw [hq]; simp
  have hqp : q = p := List.mem_singleton.mp (hps ▸ hmem)
  subst hqp
  exact keyLeads_of_plain hmem hp.2.1 ⟨[65], [], hp.1, by decide, by decide, by decide +kernel⟩

end Serotonin.Fat32
