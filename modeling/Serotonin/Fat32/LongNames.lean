import Serotonin.Fat32.Listing
import Mathlib.Tactic.IntervalCases

/-! `fat32_write_dir_entries`, and what the scans make of the entries that it has written: the
pieces of the name, put together again, are the name of the short entry behind them. -/

namespace Serotonin.Fat32

open List
open ByteMem (Mem blit)

variable {g : Geometry}

/-! ## The entries -/

def le16 (x : Nat) : List UInt8 := [.ofNat x, .ofNat (x / 256)]

/-- `fat_dir_entry_t` with zeros in the fields that are not set. -/
def shortEntry (key : List UInt8) (attr : UInt8) (dataCluster fileSize : Nat) : Entry :=
  key ++ [attr] ++ List.replicate 8 0 ++ le16 (dataCluster / 65536) ++ List.replicate 4 0 ++ le16 dataCluster ++
    le16 fileSize ++ le16 (fileSize / 65536)

def lfnCount (name : List UInt8) : Nat := if fat32NameIs8dot3 name then 0 else (name.length + 12) / 13

/-- The piece `e` in the order of the directory, the last one of the name first. -/
def pieceEntry (name key : List UInt8) (e : Nat) : Entry :=
  let seq := lfnCount name - e
  let order : UInt8 := .ofNat seq ||| if e = 0 then 0x40 else 0
  lfnEntry order (fat32LfnChecksum key) name ((seq - 1) * 13)

def newEntries (name key : List UInt8) (attr : UInt8) (dataCluster fileSize : Nat) : List Entry :=
  (List.range (lfnCount name)).map (pieceEntry name key) ++ [shortEntry key attr dataCluster fileSize]

/-! ## Writing them -/

def setEntry (buf : Mem) (i : Nat) (e : Entry) : Mem := blit buf (32 * i) (fun j => e.getD j 0) 0 32

variable (g) in
/-- The loop of `fat32_write_dir_entries` from the slot `idx` on. It returns the cluster of the last entry. -/
def writeEntries : List Entry → Nat → Nat → Mem → FatM Nat
  | [], cluster, _, buf => do
    fat32WriteCluster g cluster buf
    return cluster
  | e :: es, cluster, idx, buf =>
    if g.perCluster ≤ idx then do
      fat32WriteCluster g cluster buf
      let cluster ← readFatEntry cluster
      let buf ← fat32ReadCluster g cluster buf
      writeEntries es cluster 1 (setEntry buf 0 e)
    else writeEntries es cluster (idx + 1) (setEntry buf idx e)

variable (g) in
def fat32WriteDirEntries (slotCluster slotIndex : Nat) (name key : List UInt8) (attr : UInt8) (dataCluster fileSize : Nat) :
    FatM Nat := do
  let buf ← fat32ReadCluster g slotCluster fun _ => 0
  writeEntries g (newEntries name key attr dataCluster fileSize) slotCluster slotIndex buf

/-! ## A piece and its characters -/

section Pieces

variable {name : List UInt8}

/-- What the unit `i` of a long name is read as. -/
def charAt (name : List UInt8) (i : Nat) : UInt8 := if i < name.length then name.getD i 0 else 0

def unitLow (name : List UInt8) (i : Nat) : UInt8 :=
  if i < name.length then name.getD i 0 else if i = name.length then 0 else 0xFF

def unitHigh (name : List UInt8) (i : Nat) : UInt8 := if i ≤ name.length then 0 else 0xFF

theorem lfnUnit_eq (name : List UInt8) (i : Nat) : lfnUnit name i = [unitLow name i, unitHigh name i] := by
  unfold lfnUnit unitLow unitHigh
  rcases Nat.lt_trichotomy i name.length with hlt | heq | hgt
  · simp [hlt, Nat.le_of_lt hlt]
  · simp [heq]
  · simp [Nat.lt_asymm hgt, Nat.ne_of_gt hgt, Nat.not_le.mpr hgt]

theorem lfnChar_unit (name : List UInt8) (i : Nat) : lfnChar (unitLow name i) (unitHigh name i) = charAt name i := by
  unfold unitLow unitHigh charAt lfnChar
  rcases Nat.lt_trichotomy i name.length with hlt | heq | hgt
  · simp only [hlt, Nat.le_of_lt hlt, if_true]
    split
    · rename_i h
      rcases h with ⟨-, h⟩ | ⟨h, -⟩
      · cases h
      · exact h.symm
    · rfl
  · simp [heq]
  · simp [Nat.lt_asymm hgt, Nat.ne_of_gt hgt, Nat.not_le.mpr hgt]

/-- The 32 bytes of a piece. -/
theorem lfnEntry_eq (order checksum : UInt8) (name : List UInt8) (o : Nat) : lfnEntry order checksum name o =
    [order, unitLow name o, unitHigh name o, unitLow name (o + 1), unitHigh name (o + 1), unitLow name (o + 2),
      unitHigh name (o + 2), unitLow name (o + 3), unitHigh name (o + 3), unitLow name (o + 4), unitHigh name (o + 4),
      0x0F, 0, checksum, unitLow name (o + 5), unitHigh name (o + 5), unitLow name (o + 6), unitHigh name (o + 6),
      unitLow name (o + 7), unitHigh name (o + 7), unitLow name (o + 8), unitHigh name (o + 8), unitLow name (o + 9),
      unitHigh name (o + 9), unitLow name (o + 10), unitHigh name (o + 10), 0, 0, unitLow name (o + 11),
      unitHigh name (o + 11), unitLow name (o + 12), unitHigh name (o + 12)] := by
  simp only [lfnEntry, lfnUnits, lfnUnit_eq]
  rfl

/-- The characters of a piece are those of the name from its place on. -/
theorem extractChars_lfnEntry (order checksum : UInt8) (name : List UInt8) (o : Nat) :
    fat32LfnExtractChars (lfnEntry order checksum name o) = (List.range 13).map fun k => charAt name (o + k) := by
  rw [lfnEntry_eq]
  simp only [fat32LfnExtractChars, lfnPlaces, map_cons, map_nil, Entry.byte, ← lfnChar_unit]
  rfl

theorem lfnEntry_isLfn (order checksum : UInt8) (name : List UInt8) (o : Nat) : (lfnEntry order checksum name o).isLfn = true := by
  rw [lfnEntry_eq]
  show ((0x0F : UInt8) &&& 0x0F == 0x0F) = true
  decide

theorem lfnEntry_first (order checksum : UInt8) (name : List UInt8) (o : Nat) : (lfnEntry order checksum name o).first = order := by
  rw [lfnEntry_eq]
  rfl

theorem lfnEntry_checksum (order checksum : UInt8) (name : List UInt8) (o : Nat) :
    (lfnEntry order checksum name o).checksum = checksum := by
  rw [lfnEntry_eq]
  rfl

theorem lfnEntry_length (order checksum : UInt8) (name : List UInt8) (o : Nat) : (lfnEntry order checksum name o).length = 32 := by
  rw [lfnEntry_eq]
  rfl

/-! ## The name from its pieces -/

/-- The characters of `n` pieces from the piece `q` on. -/
def chunks (name : List UInt8) (q n : Nat) : List (List UInt8) :=
  (List.range' q n).map fun p => (List.range 13).map fun k => charAt name (p * 13 + k)

theorem chunks_flatten (name : List UInt8) : ∀ n q, (chunks name q n).flatten = (List.range' (q * 13) (n * 13)).map (charAt name)
  | 0, _ => by simp [chunks]
  | n + 1, q => by
    have hsplit : List.range' (q * 13) ((n + 1) * 13) = List.range' (q * 13) 13 ++ List.range' ((q + 1) * 13) (n * 13) := by
      rw [Nat.add_mul, Nat.add_mul, Nat.add_comm (n * 13), ← List.range'_append_1, Nat.one_mul]
    rw [hsplit, map_append, ← chunks_flatten name n (q + 1)]
    unfold chunks
    rw [List.range'_succ, map_cons, flatten_cons]
    congr 1

theorem range_charAt (name : List UInt8) : ∀ n, name.length ≤ n →
    (List.range n).map (charAt name) = name ++ List.replicate (n - name.length) 0 := by
  intro n hn
  refine ext_getElem (by simp [hn]) fun i h1 h2 => ?_
  simp only [getElem_map, getElem_range, charAt]
  by_cases hi : i < name.length
  · rw [if_pos hi, getElem_append_left hi, getD_eq_getElem?_getD, List.getElem?_eq_getElem hi]
    rfl
  · rw [if_neg hi, getElem_append_right (Nat.not_lt.mp hi), getElem_replicate]

/-- Put together, and cut at the first zero, the pieces are the name. -/
theorem name_of_chunks (hnul : 0 ∉ name) (hlen : name.length ≤ 255) {n : Nat} (hn : name.length ≤ n * 13) :
    (((chunks name 0 n).flatten.takeWhile (· ≠ 0)).take 255) = name := by
  rw [chunks_flatten, Nat.zero_mul, ← range_eq_range', range_charAt name _ hn]
  have htake : (name ++ List.replicate (n * 13 - name.length) 0).takeWhile (· ≠ 0) = name := by
    rw [takeWhile_append_of_pos]
    · have hzeros : (List.replicate (n * 13 - name.length) (0 : UInt8)).takeWhile (· ≠ 0) = [] := by
        cases n * 13 - name.length <;> simp [replicate_succ]
      rw [hzeros, append_nil]
    · intro c hc
      have hne : c ≠ 0 := fun h => hnul (h ▸ hc)
      simpa using hne
  rw [htake, take_of_length_le hlen]

/-! ## The pieces as a scan collects them -/

/-- The pieces before the first `m` of a name are collected. -/
structure Collected (name key : List UInt8) (m : Nat) (st : LfnState) : Prop where
  valid : st.valid = true
  checksum : st.checksum = fat32LfnChecksum key
  fragments : st.fragments = chunks name m (lfnCount name - m)

theorem lfnCount_spec (h8 : fat32NameIs8dot3 name = false) (hpos : 0 < name.length) (hlen : name.length ≤ 255) :
    0 < lfnCount name ∧ lfnCount name ≤ 20 ∧ name.length ≤ lfnCount name * 13 := by
  unfold lfnCount
  rw [h8, if_neg Bool.false_ne_true]
  omega

/-- The order of a piece marks no slot as free, and has the bit of the last piece of the name only in that. -/
theorem order_spec : ∀ seq : Nat, seq < 21 → 0 < seq → ∀ last : Bool,
    let order : UInt8 := UInt8.ofNat seq ||| if last then 0x40 else 0
    order ≠ 0 ∧ order ≠ 0xE5 ∧ (order &&& 0x40 ≠ 0 ↔ last = true) := by decide

theorem Collected.pass (key : List UInt8) {m : Nat} {st : LfnState} (h20 : lfnCount name ≤ 20) (hm : m < lfnCount name)
    (hst : m + 1 < lfnCount name → Collected name key (m + 1) st) :
    ∃ st', st.pass (pieceEntry name key (lfnCount name - (m + 1))) = some st' ∧ Collected name key m st' := by
  have hseq : lfnCount name - (lfnCount name - (m + 1)) = m + 1 := by omega
  have hlast : lfnCount name - (m + 1) = 0 ↔ m + 1 = lfnCount name := by omega
  have hspec := order_spec (m + 1) (by omega) (Nat.succ_pos m) (decide (m + 1 = lfnCount name))
  unfold pieceEntry
  dsimp only at hspec ⊢
  rw [hseq, Nat.add_sub_cancel]
  simp only [hlast, decide_eq_true_eq] at hspec ⊢
  generalize (UInt8.ofNat (m + 1) ||| if m + 1 = lfnCount name then 0x40 else 0) = order at hspec ⊢
  obtain ⟨h0, hdel, hbit⟩ := hspec
  unfold LfnState.pass
  rw [lfnEntry_first, if_neg h0, if_neg hdel, if_pos (lfnEntry_isLfn ..)]
  unfold LfnState.collect
  have horder : (lfnEntry order (fat32LfnChecksum key) name (m * 13)).order = order := lfnEntry_first ..
  rw [horder, lfnEntry_checksum, extractChars_lfnEntry]
  by_cases hend : m + 1 = lfnCount name
  · rw [if_pos (hbit.mpr hend)]
    dsimp only
    rw [if_pos ⟨rfl, rfl⟩, if_pos (by decide)]
    refine ⟨_, rfl, ⟨rfl, rfl, ?_⟩⟩
    rw [← hend, Nat.add_sub_cancel_left]
    rfl
  · rw [if_neg fun h => hend (hbit.mp h)]
    have hcol := hst (by omega)
    have hlen : st.fragments.length < 20 := by
      rw [hcol.fragments]
      simp only [chunks, length_map, length_range']
      omega
    dsimp only
    rw [if_pos ⟨hcol.valid, hcol.checksum.symm⟩, if_pos hlen]
    refine ⟨_, rfl, hcol.valid, hcol.checksum, ?_⟩
    have hsucc : lfnCount name - m = (lfnCount name - (m + 1)) + 1 := by omega
    rw [hcol.fragments, hsucc]
    rfl

/-- The pieces from the piece `e` of the directory on. -/
def pieceEntries (name key : List UInt8) (e n : Nat) : List Entry := (List.range' e n).map (pieceEntry name key)

/-- A scan that comes to the first of the pieces has them all when it comes to the short entry. -/
theorem pieces_collected (key : List UInt8) (h20 : lfnCount name ≤ 20) : ∀ (xs : List Slot) (m : Nat) (st : LfnState),
    xs.length = m → m ≤ lfnCount name → xs.map Slot.entry = pieceEntries name key (lfnCount name - m) m →
      (m < lfnCount name → Collected name key m st) → (m = 0 → 0 < lfnCount name) →
      ∃ st', pieces st xs = some st' ∧ Collected name key 0 st'
  | [], _, st, rfl, _, _, hst, hpos => ⟨st, rfl, hst (hpos rfl)⟩
  | x :: xs, _, st, rfl, hm, hxs, hst, _ => by
    rw [length_cons] at hm hxs hst
    unfold pieceEntries at hxs
    rw [List.range'_succ, map_cons, map_cons] at hxs
    obtain ⟨hx, hrest⟩ := List.cons.inj hxs
    obtain ⟨st', hpass, hcol⟩ := Collected.pass key h20 (Nat.lt_of_succ_le hm) hst
    rw [← hx] at hpass
    have hnext : lfnCount name - (xs.length + 1) + 1 = lfnCount name - xs.length := by omega
    rw [hnext] at hrest
    obtain ⟨st'', hpieces, hdone⟩ := pieces_collected key h20 xs xs.length st' rfl (Nat.le_of_succ_le hm) hrest
      (fun _ => hcol) fun _ => by omega
    refine ⟨st'', ?_, hdone⟩
    rw [pieces, hpass]
    exact hpieces

/-- The name of the short entry whose checksum the pieces have. -/
theorem Collected.longName {key : List UInt8} {st : LfnState} (h : Collected name key 0 st) (hnul : 0 ∉ name)
    (hlen : name.length ≤ 255) (hpos : 0 < lfnCount name) (hcount : name.length ≤ lfnCount name * 13) {e : Entry}
    (he : e.name = key) : st.longName e = some name := by
  have hne : st.fragments ≠ [] := by
    rw [h.fragments]
    intro hnil
    have hzero := congrArg List.length hnil
    simp only [chunks, length_map, length_range', length_nil] at hzero
    omega
  unfold LfnState.longName
  rw [if_pos ⟨h.valid, hne, by rw [he, h.checksum]⟩, h.fragments, Nat.sub_zero]
  exact congrArg some (name_of_chunks hnul hlen hcount)

end Pieces

/-! ## What the writes leave -/

section Writing

/-- The entries `es` in place of those from the place `i` on. -/
def overwrite {α : Type} (l : List α) (i : Nat) (es : List α) : List α := l.take i ++ es ++ l.drop (i + es.length)

theorem overwrite_nil {α : Type} (l : List α) (i : Nat) : overwrite l i [] = l := by simp [overwrite]

theorem overwrite_append {α : Type} (l l' es : List α) (i : Nat) : overwrite (l ++ l') (l.length + i) es = l ++ overwrite l' i es := by
  unfold overwrite
  rw [Nat.add_assoc, take_length_add_append, drop_length_add_append, append_assoc, append_assoc,
    append_assoc]

theorem overwrite_set {α : Type} {l : List α} {i : Nat} (hi : i < l.length) (e : α) (es : List α) :
    overwrite (l.set i e) (i + 1) es = overwrite l i (e :: es) := by
  have htake : (l.set i e).take (i + 1) = l.take i ++ [e] := by
    rw [take_add_one, take_set_of_le (Nat.le_refl i), List.getElem?_set_self hi]
    rfl
  have hdrop : (l.set i e).drop (i + 1 + es.length) = l.drop (i + (e :: es).length) := by
    rw [drop_set_of_lt (by omega), length_cons, Nat.add_right_comm, Nat.add_assoc]
  simp [overwrite, htake, hdrop]

def bufEntries (g : Geometry) (buf : Mem) : List Entry := (List.range g.perCluster).map (entryAt buf)

/-- The entries of a directory. -/
def dirEntries (g : Geometry) (v : Volume) (cs : List Nat) : List Entry := (dirSlots g v cs).map Slot.entry

theorem dirEntries_cons (v : Volume) (c : Nat) (cs : List Nat) :
    dirEntries g v (c :: cs) = bufEntries g (v.cluster g c) ++ dirEntries g v cs := by
  unfold dirEntries bufEntries
  rw [dirSlots_cons, map_append]
  congr 1
  rw [clusterSlots, slotsFrom, map_map, range_eq_range']
  rfl

theorem bufEntries_length (buf : Mem) : (bufEntries g buf).length = g.perCluster := by simp [bufEntries]

theorem entryAt_congr {buf buf' : Mem} {i : Nat} (h : ∀ x, 32 * i ≤ x → x < 32 * i + 32 → buf x = buf' x) :
    entryAt buf i = entryAt buf' i := by
  refine map_congr_left fun j hj => h _ (Nat.le_add_right ..) ?_
  have := mem_range.mp hj
  omega

/-- The bytes of a cluster decide on its entries. -/
theorem bufEntries_congr {buf buf' : Mem} (h : ∀ x < g.clusterSize, buf x = buf' x) : bufEntries g buf = bufEntries g buf' := by
  refine map_congr_left fun i hi => entryAt_congr fun x _ hx => h x ?_
  have hlt := mem_range.mp hi
  have hper : g.perCluster * 32 ≤ g.clusterSize := Nat.div_mul_le_self _ _
  omega

theorem bufEntries_setEntry (buf : Mem) (i : Nat) {e : Entry} (he : e.length = 32) :
    bufEntries g (setEntry buf i e) = (bufEntries g buf).set i e := by
  refine ext_getElem (by simp [bufEntries]) fun j h1 h2 => ?_
  simp only [bufEntries, getElem_map, getElem_range, getElem_set]
  by_cases hij : i = j
  · subst hij
    rw [if_pos rfl]
    refine ext_getElem (by simp [entryAt, he]) fun k h3 h4 => ?_
    simp only [entryAt, getElem_map, getElem_range, setEntry]
    rw [ByteMem.blit_inside (Nat.le_add_right ..) (by omega), Nat.zero_add, Nat.add_sub_cancel_left,
      getD_eq_getElem?_getD, List.getElem?_eq_getElem h4]
    rfl
  · rw [if_neg hij]
    exact entryAt_congr fun x hlo hhi => ByteMem.blit_outside (by omega)

theorem dirEntries_congr {v v' : Volume} {cs : List Nat} (h : ∀ d ∈ cs, v'.cluster g d = v.cluster g d) :
    dirEntries g v' cs = dirEntries g v cs := by
  induction cs with
  | nil => rfl
  | cons c cs ih =>
    rw [dirEntries_cons, dirEntries_cons, h c mem_cons_self, ih fun d hd => h d (mem_cons_of_mem c hd)]

theorem dirEntries_append (v : Volume) (cs cs' : List Nat) :
    dirEntries g v (cs ++ cs') = dirEntries g v cs ++ dirEntries g v cs' := by
  unfold dirEntries
  rw [dirSlots_append, map_append]

/-- A cluster is written: its entries are those of the buffer. -/
theorem dirEntries_setCluster (hg : g.Valid) {v : Volume} {c : Nat} {post : List Nat} (hchain : Chain g v.fat c (c :: post))
    (buf : Mem) : dirEntries g (v.setCluster g c buf) (c :: post) = bufEntries g buf ++ dirEntries g v post := by
  have hdata := hchain.hasData
  have hnotin := (nodup_cons.mp (hchain.nodup hg)).1
  rw [dirEntries_cons]
  congr 1
  · exact bufEntries_congr fun x hx => Volume.cluster_setCluster v c buf hx
  · refine dirEntries_congr fun d hd => ?_
    exact Volume.cluster_setCluster_of_ne hg v (hdata c mem_cons_self) (hdata d (mem_cons_of_mem c hd))
      (fun h => hnotin (h ▸ hd)) buf

theorem perCluster_pos (hg : g.Valid) : 0 < g.perCluster := by
  have hsize := hg.clusterSize_eq
  have hspc := hg.sectorsPerCluster.1
  unfold Geometry.perCluster
  omega

theorem Chain.next {fat : Nat → Nat} {c d : Nat} {post : List Nat} (h : Chain g fat c (c :: d :: post)) :
    fat c = d ∧ Chain g fat d (d :: post) := by
  cases h with
  | cons _ ht =>
    generalize fat c = next at ht
    cases ht with
    | cons hd ht => exact ⟨rfl, .cons hd ht⟩

/-- The loop puts the entries one after the other along the chain, and changes nothing else. -/
theorem run_writeEntries (hg : g.Valid) : ∀ (es : List Entry) (v : Volume) (c i : Nat) (post : List Nat) (buf : Mem),
    (∀ e ∈ es, e.length = 32) → Chain g v.fat c (c :: post) → i ≤ g.perCluster →
    i + es.length ≤ g.perCluster + post.length * g.perCluster →
    ∃ r v', Prog.run (onVolume g) (writeEntries g es c i buf) v = .ok (r, v') ∧ v'.fat = v.fat ∧
      (∀ d, HasData g d → d ∉ c :: post → v'.cluster g d = v.cluster g d) ∧
      dirEntries g v' (c :: post) = overwrite (bufEntries g buf ++ dirEntries g v post) i es
  | [], v, c, i, post, buf, _, hchain, _, _ => by
    have hc : HasData g c := hchain.hasData c mem_cons_self
    refine ⟨c, v.setCluster g c buf, ?_, rfl, fun d hd hne => ?_, ?_⟩
    · rw [writeEntries, Prog.run_bind_ok (run_writeCluster hg hc buf)]
      rfl
    · exact Volume.cluster_setCluster_of_ne hg v hc hd (fun h => hne (h ▸ mem_cons_self)) buf
    · rw [overwrite_nil, dirEntries_setCluster hg hchain]
  | e :: es, v, c, i, post, buf, hes, hchain, hi, hroom => by
    have hc : HasData g c := hchain.hasData c mem_cons_self
    have he : e.length = 32 := hes e mem_cons_self
    have hrest : ∀ x ∈ es, x.length = 32 := fun x hx => hes x (mem_cons_of_mem e hx)
    rw [length_cons] at hroom
    unfold writeEntries
    by_cases hfull : g.perCluster ≤ i
    · rw [if_pos hfull]
      obtain rfl : i = g.perCluster := Nat.le_antisymm hi hfull
      cases post with
      | nil =>
        simp only [length_nil, Nat.zero_mul] at hroom
        omega
      | cons d post =>
        obtain ⟨hnext, htail⟩ := hchain.next
        have hd : HasData g d := htail.hasData d mem_cons_self
        have hapart : c ∉ d :: post := (nodup_cons.mp (hchain.nodup hg)).1
        have hcd : d ≠ c := fun h => hapart (h ▸ mem_cons_self)
        -- the next cluster is read into the buffer of the one that was written
        have hread : bufEntries g (blit buf 0 ((v.setCluster g c buf).cluster g d) 0 g.clusterSize) =
            bufEntries g (v.cluster g d) := by
          refine bufEntries_congr fun x hx => ?_
          rw [ByteMem.blit_inside (Nat.zero_le x) (by omega), Nat.sub_zero, Nat.zero_add,
            Volume.cluster_setCluster_of_ne hg v hc hd hcd]
        obtain ⟨r, v', hrun, hfat, hframe, hent⟩ := run_writeEntries hg es (v.setCluster g c buf) d 1 post
          (setEntry (blit buf 0 ((v.setCluster g c buf).cluster g d) 0 g.clusterSize) 0 e) hrest htail (perCluster_pos hg)
          (by rw [length_cons, Nat.add_mul] at hroom; omega)
        refine ⟨r, v', ?_, hfat, fun x hx hne => ?_, ?_⟩
        · rw [Prog.run_bind_ok (run_writeCluster hg hc buf), Prog.run_bind_ok (run_readFatEntry hg hc),
            Volume.setCluster_fat, hnext, Prog.run_bind_ok (run_readCluster hg hd buf)]
          exact hrun
        · rw [hframe x hx fun h => hne (mem_cons_of_mem c h)]
          exact Volume.cluster_setCluster_of_ne hg v hc hx (fun h => hne (h ▸ mem_cons_self)) buf
        · have hkept : bufEntries g (v'.cluster g c) = bufEntries g buf := by
            rw [hframe c hc hapart]
            exact bufEntries_congr fun x hx => Volume.cluster_setCluster v c buf hx
          have hpost : dirEntries g (v.setCluster g c buf) post = dirEntries g v post := by
            refine dirEntries_congr fun x hx => ?_
            exact Volume.cluster_setCluster_of_ne hg v hc (htail.hasData x (mem_cons_of_mem d hx))
              (fun h => hapart (h ▸ mem_cons_of_mem d hx)) buf
          have hset : (bufEntries g (v.cluster g d)).set 0 e ++ dirEntries g v post = (dirEntries g v (d :: post)).set 0 e := by
            rw [dirEntries_cons, set_append_left _ _ (by rw [bufEntries_length]; exact perCluster_pos hg)]
          have hlen : (bufEntries g buf).length + 0 = g.perCluster := bufEntries_length buf
          rw [dirEntries_cons, hkept, hent, bufEntries_setEntry _ _ he, hread, hpost, hset, overwrite_set, ← hlen,
            overwrite_append]
          rw [dirEntries_cons, length_append, bufEntries_length]
          exact Nat.lt_of_lt_of_le (perCluster_pos hg) (Nat.le_add_right ..)
    · rw [if_neg hfull]
      obtain ⟨r, v', hrun, hfat, hframe, hent⟩ := run_writeEntries hg es v c (i + 1) post (setEntry buf i e) hrest hchain
        (by omega) (by omega)
      refine ⟨r, v', hrun, hfat, hframe, hent.trans ?_⟩
      have hset : (bufEntries g buf).set i e ++ dirEntries g v post = (bufEntries g buf ++ dirEntries g v post).set i e := by
        rw [set_append_left _ _ (by rw [bufEntries_length]; omega)]
      rw [bufEntries_setEntry buf i he, hset, overwrite_set]
      rw [length_append, bufEntries_length]
      omega

theorem clusterSlots_length (v : Volume) (c : Nat) : (clusterSlots g v c).length = g.perCluster := by
  simp [clusterSlots, slotsFrom]

theorem dirSlots_length (v : Volume) (cs : List Nat) : (dirSlots g v cs).length = cs.length * g.perCluster := by
  induction cs with
  | nil => simp [dirSlots]
  | cons c cs ih => rw [dirSlots_cons, length_append, clusterSlots_length, ih, length_cons, Nat.succ_mul, Nat.add_comm]

/-- The slot `k` of a directory by its cluster and its index there. -/
theorem slot_place {v : Volume} {cs : List Nat} {k : Nat} {x : Slot} (hx : (dirSlots g v cs)[k]? = some x) :
    ∃ pre post, cs = pre ++ x.cluster :: post ∧ x.index < g.perCluster ∧ k = pre.length * g.perCluster + x.index := by
  obtain ⟨hk, hget⟩ := List.getElem?_eq_some_iff.mp hx
  have hsplit : dirSlots g v cs = (dirSlots g v cs).take k ++ x :: (dirSlots g v cs).drop (k + 1) := by
    rw [← hget, getElem_cons_drop, take_append_drop]
  obtain ⟨pre, post, rest, hcs, htake, hcluster⟩ := dirSlots_split cs _ hsplit
  refine ⟨pre, post, hcs, ?_, ?_⟩
  · have hlen := congrArg List.length hcluster
    rw [clusterSlots_length] at hlen
    simp only [slotsFrom, length_append, length_map, length_range', length_cons] at hlen
    omega
  · have hlen := congrArg List.length htake
    rw [length_take_of_le (Nat.le_of_lt hk), length_append, dirSlots_length] at hlen
    simpa [slotsFrom] using hlen

/-- The entries of the directory after the call: from the slot on, the new ones in place of the old. -/
theorem run_writeDirEntries (hg : g.Valid) {v : Volume} {dir : Nat} {cs : List Nat} (hchain : Chain g v.fat dir cs) {k : Nat}
    {x : Slot} (hx : (dirSlots g v cs)[k]? = some x) (name : List UInt8) {key : List UInt8} (hkey : key.length = 11)
    (attr : UInt8) (dataCluster fileSize : Nat)
    (hroom : k + (newEntries name key attr dataCluster fileSize).length ≤ (dirSlots g v cs).length) :
    ∃ r v', Prog.run (onVolume g) (fat32WriteDirEntries g x.cluster x.index name key attr dataCluster fileSize) v = .ok (r, v') ∧
      v'.fat = v.fat ∧ dirEntries g v' cs = overwrite (dirEntries g v cs) k (newEntries name key attr dataCluster fileSize) := by
  obtain ⟨pre, post, rfl, hindex, rfl⟩ := slot_place hx
  have hes : ∀ e ∈ newEntries name key attr dataCluster fileSize, e.length = 32 := by
    intro e he
    unfold newEntries at he
    rcases mem_append.mp he with he | he
    · obtain ⟨i, -, rfl⟩ := mem_map.mp he
      exact lfnEntry_length ..
    · rw [mem_singleton.mp he]
      simp [shortEntry, le16, hkey]
  rw [dirSlots_length, length_append, length_cons, Nat.add_mul, Nat.add_mul, Nat.one_mul] at hroom
  have hc : HasData g x.cluster := hchain.hasData _ (by simp)
  obtain ⟨r, v', hrun, hfat, hframe, hent⟩ := run_writeEntries hg _ v x.cluster x.index post (v.cluster g x.cluster) hes
    hchain.suffix (Nat.le_of_lt hindex) (by omega)
  refine ⟨r, v', ?_, hfat, ?_⟩
  · unfold fat32WriteDirEntries
    rw [Prog.run_bind_ok (run_readCluster_zero hg hc)]
    exact hrun
  · have hnodup := nodup_append.mp (hchain.nodup hg)
    have hpre : dirEntries g v' pre = dirEntries g v pre := by
      refine dirEntries_congr fun d hd => hframe d (hchain.hasData d (mem_append_left _ hd)) fun hin => ?_
      exact hnodup.2.2 d hd d hin rfl
    have hlen : (dirEntries g v pre).length = pre.length * g.perCluster := by
      unfold dirEntries
      rw [length_map, dirSlots_length]
    rw [dirEntries_append, dirEntries_append, hpre, hent, ← dirEntries_cons, ← hlen, overwrite_append]

end Writing

/-! ## What the scans find -/

/-- `fat32_readdir` comes to the slot `j`, where `e` is, with this name for it, and `fat32_finddir`,
looking for the name, does too, unless a slot before is another entry for it. -/
structure Decodes (g : Geometry) (s : Fs) (dir : Nat) (places : List (Nat × Nat)) (j : Nat) (e : Entry) (name : List UInt8) :
    Prop where
  readdir : ∃ i h s', Prog.run (onDisk g) (scanDir g (readdirScan i) dir) s = .ok (some h, s') ∧
    places[j]? = some h.place ∧ h.entry = e ∧ h.state.longName h.entry = some name
  finddir : ∃ h s', Prog.run (onDisk g) (scanDir g (finddirScan name) dir) s = .ok (some h, s') ∧
    ((∃ i < j, places[i]? = some h.place) ∨
      places[j]? = some h.place ∧ h.entry = e ∧ h.state.longName h.entry = some name)

section Scans

variable {v : Volume} {s : Fs} {dir : Nat} {cs : List Nat} {name : List UInt8}

theorem pieces_congr : ∀ {xs ys : List Slot}, xs.map Slot.entry = ys.map Slot.entry → ∀ st, pieces st xs = pieces st ys
  | [], [], _, _ => rfl
  | x :: xs, y :: ys, h, st => by
    obtain ⟨hxy, hrest⟩ := List.cons.inj h
    unfold pieces
    rw [show x.entry = y.entry from hxy]
    congr 1
    funext st'
    exact pieces_congr hrest st'

/-- The places do not change. -/
theorem dirSlots_places (v v' : Volume) (cs : List Nat) :
    (dirSlots g v' cs).map Slot.place = (dirSlots g v cs).map Slot.place := by
  induction cs with
  | nil => rfl
  | cons c cs ih =>
    rw [dirSlots_cons, dirSlots_cons, map_append, map_append, ih]
    simp only [clusterSlots, slotsFrom, map_map]
    rfl

/-- A live short entry behind slots that a scan goes past is found, with the pieces before it. -/
theorem decodes_of_pieces (hg : g.Valid) (hs : Mounted g s v) (hc : Chain g v.fat dir cs) {xs ys : List Slot} {x : Slot}
    {st : LfnState} (hslots : dirSlots g v cs = xs ++ x :: ys) (hpieces : pieces .init xs = some st)
    (hshort : x.entry.isShort = true) (hlive : x.isLive = true) (hname : st.longName x.entry = some name) :
    Decodes g s dir ((dirSlots g v cs).map Slot.place) xs.length x.entry name := by
  obtain ⟨after, hafter⟩ := shorts_cons_short hshort st ys
  have hlist : shorts .init (dirSlots g v cs) = shorts .init xs ++ (x, st) :: after := by
    rw [hslots, shorts_append, hpieces]
    exact congrArg _ hafter
  have hplace : ((dirSlots g v cs).map Slot.place)[xs.length]? = some x.place := by simp [hslots]
  constructor
  · have hscan : scanSlots (readdirScan ((shorts .init xs).filter fun p => p.1.isLive).length) 0 .init (dirSlots g v cs) =
        .ok (some (x.hit st)) := by
      rw [scanSlots_eq_walk, walk_eq_getElem (readdirScan _) _ (fun _ _ _ => rfl) _ 0 (Nat.zero_le _), hlist]
      simp [readdir_skips, hlive]
    have hf := scan_follows hg hs hc (readdirScan ((shorts .init xs).filter fun p => p.1.isLive).length)
    rw [hscan] at hf
    obtain ⟨s', hrun, -⟩ := hf
    exact ⟨_, _, s', hrun, hplace, rfl, hname⟩
  · have hnamed : (x.isLive && named name (x, st)) = true := by
      simp [hlive, named, nameMatches, hname, fat32Strcasecmp_self]
    have hscan := scanSlots_named (finddirScan name) (fun _ => rfl) (dirSlots g v cs)
    simp only [finddir_skips, hlist, List.find?_append] at hscan
    have hf := scan_follows hg hs hc (finddirScan name)
    rw [hscan] at hf
    cases hfirst : (shorts .init xs).find? fun q => q.1.isLive && named name q with
    | some q =>
      rw [hfirst] at hf
      obtain ⟨s', hrun, -⟩ := hf
      refine ⟨_, s', hrun, .inl ?_⟩
      have hq : q.1 ∈ xs := (shorts_sublist xs .init).subset (mem_map_of_mem (mem_of_find?_eq_some hfirst))
      obtain ⟨i, hi, hget⟩ := getElem_of_mem hq
      refine ⟨i, hi, ?_⟩
      rw [hslots, map_append, List.getElem?_append_left (by simpa using hi), List.getElem?_map,
        List.getElem?_eq_getElem hi, hget]
      rfl
    | none =>
      rw [hfirst] at hf
      simp only [Option.none_or, List.find?_cons, hnamed] at hf
      obtain ⟨s', hrun, -⟩ := hf
      exact ⟨_, s', hrun, .inr ⟨hplace, rfl, hname⟩⟩

/-- What `fat32_readdir` comes to is a live short entry, behind slots that a scan goes past. -/
theorem pieces_of_decodes (hg : g.Valid) (hs : Mounted g s v) (hc : Chain g v.fat dir cs) {xs ys : List Slot} {x : Slot}
    {e : Entry} (hslots : dirSlots g v cs = xs ++ x :: ys)
    (h : Decodes g s dir ((dirSlots g v cs).map Slot.place) xs.length e name) :
    (pieces .init xs).isSome = true ∧ x.entry.isShort = true ∧ x.isLive = true := by
  obtain ⟨i, h, s', hrun, hplace, -, -⟩ := h.readdir
  have hscan := (scan_ok hg hs hc hrun).1
  rw [scanSlots_eq_walk, walk_eq_getElem (readdirScan i) i (fun _ _ _ => rfl) _ 0 (Nat.zero_le i)] at hscan
  simp only [readdir_skips, Nat.sub_zero] at hscan
  cases hfound : ((shorts .init (dirSlots g v cs)).filter fun p => p.1.isLive)[i]? with
  | none =>
    rw [hfound] at hscan
    dsimp only at hscan
    split at hscan <;> cases hscan
  | some p =>
    rw [hfound] at hscan
    cases hscan
    obtain ⟨hmem, hlive⟩ := mem_filter.mp (mem_of_getElem? hfound)
    obtain ⟨pre, post, hsplit⟩ := append_of_mem hmem
    obtain ⟨ys', zs', hslots', hpieces, -, hshort⟩ := shorts_split hsplit
    have hnodup := nodup_places (g := g) (v := v) (hc.nodup hg)
    -- the place tells where in the list the entry is
    have hlen : ys'.length = xs.length := by
      have hat : ((dirSlots g v cs).map Slot.place)[ys'.length]? = some p.1.place := by simp [hslots']
      have hlt : ys'.length < ((dirSlots g v cs).map Slot.place).length := by simp [hslots']
      exact (List.getElem?_inj hlt hnodup).mp (hat.trans hplace.symm)
    rw [hslots] at hslots'
    obtain ⟨rfl, hcons⟩ := append_inj hslots' hlen.symm
    obtain ⟨rfl, -⟩ := List.cons.inj hcons
    exact ⟨by rw [hpieces]; rfl, hshort, hlive⟩

/-- The slots after the call: those before the first new entry, the pieces, the short entry, the rest. -/
theorem slots_of_overwrite {v' : Volume} {k : Nat} {key : List UInt8} {attr : UInt8} {dataCluster fileSize : Nat}
    (hk : k ≤ (dirSlots g v cs).length)
    (hent : dirEntries g v' cs = overwrite (dirEntries g v cs) k (newEntries name key attr dataCluster fileSize)) :
    ∃ xs run x ys, dirSlots g v' cs = xs ++ run ++ x :: ys ∧ xs.length = k ∧ run.length = lfnCount name ∧
      xs.map Slot.entry = ((dirSlots g v cs).take k).map Slot.entry ∧
      run.map Slot.entry = pieceEntries name key 0 (lfnCount name) ∧ x.entry = shortEntry key attr dataCluster fileSize := by
  unfold dirEntries overwrite newEntries at hent
  rw [append_assoc, append_assoc] at hent
  obtain ⟨xs, rest, hslots, hxs, hrest⟩ := map_eq_append_iff.mp hent
  obtain ⟨run, rest, rfl, hrun, hrest⟩ := map_eq_append_iff.mp hrest
  obtain ⟨x, ys, rfl, hx, -⟩ := map_eq_cons_iff.mp hrest
  refine ⟨xs, run, x, ys, by rw [hslots, append_assoc], ?_, ?_, ?_, ?_, hx⟩
  · have hlen := congrArg List.length hxs
    simpa [hk] using hlen
  · have hlen := congrArg List.length hrun
    simpa using hlen
  · rw [hxs, map_take]
  · rw [hrun, pieceEntries, range_eq_range']

/-- A file or a directory that is no label and no piece. -/
def Ordinary (attr : UInt8) : Prop := attr &&& 0x08 = 0

instance (attr : UInt8) : Decidable (Ordinary attr) := inferInstanceAs (Decidable (_ = _))

theorem Ordinary.not_lfn {attr : UInt8} (h : Ordinary attr) : (attr &&& 0x0F == 0x0F) = false := by
  rw [beq_eq_false_iff_ne]
  intro heq
  have hbit : attr &&& 0x08 = (attr &&& 0x0F) &&& 0x08 := by
    rw [UInt8.and_assoc]
    rfl
  rw [Ordinary, hbit, heq] at h
  cases h

/-- The marks that the first byte of an entry can be: the end, a free slot, a blank. -/
def MarkFree (key : List UInt8) : Prop := key.headD 0 ≠ 0 ∧ key.headD 0 ≠ 0xE5 ∧ key.headD 0 ≠ 32

theorem shortEntry_spec {key : List UInt8} (hkey : key.length = 11) {attr : UInt8} (hattr : Ordinary attr)
    (dataCluster fileSize : Nat) {x : Slot} (hx : x.entry = shortEntry key attr dataCluster fileSize) :
    x.entry.name = key ∧ (x.entry.isShort = true ∧ x.isLive = true ↔ MarkFree key) := by
  obtain ⟨a, key', rfl⟩ := exists_cons_of_length_eq_add_one hkey
  have hname : x.entry.name = a :: key' := by
    rw [hx, Entry.name, shortEntry]
    simp only [append_assoc]
    rw [take_append_of_le_length (by rw [hkey]), take_of_length_le (by rw [hkey])]
  have hfirst : x.entry.first = a := by rw [hx]; rfl
  have hat : x.entry.attr = attr := by
    rw [hx]
    unfold Entry.attr Entry.byte shortEntry
    simp only [append_assoc]
    rw [getD_eq_getElem?_getD, List.getElem?_append_right (by rw [hkey]), hkey]
    rfl
  refine ⟨hname, ?_⟩
  unfold Entry.isShort Slot.isLive Entry.isLfn Entry.isVolumeId MarkFree
  rw [hat, hfirst, hattr.not_lfn, show attr &&& 0x08 = 0 from hattr]
  simp [and_assoc]

/-- The directory after the call, on the machine: `xs` has the entries of the first `k` slots. -/
structure Written (g : Geometry) (s' : Fs) (v : Volume) (dir : Nat) (cs : List Nat) (k : Nat) (name key : List UInt8)
    (e : Entry) (xs run : List Slot) (y : Slot) (ys : List Slot) : Prop where
  volume : ∃ v', Mounted g s' v' ∧ Chain g v'.fat dir cs ∧ dirSlots g v' cs = xs ++ run ++ y :: ys
  before : xs.length = k ∧ xs.map Slot.entry = ((dirSlots g v cs).take k).map Slot.entry
  pieces : run.length = lfnCount name ∧ run.map Slot.entry = pieceEntries name key 0 (lfnCount name)
  short : y.entry = e

theorem writes (hg : g.Valid) (hs : Mounted g s v) (hc : Chain g v.fat dir cs) (name : List UInt8) {key : List UInt8}
    (hkey : key.length = 11) (attr : UInt8) (dataCluster fileSize : Nat) {k : Nat} {x : Slot}
    (hx : (dirSlots g v cs)[k]? = some x) (hroom : k + lfnCount name < (dirSlots g v cs).length) :
    ∃ r s' xs run y ys,
      Prog.run (onDisk g) (fat32WriteDirEntries g x.cluster x.index name key attr dataCluster fileSize) s = .ok (r, s') ∧
      Written g s' v dir cs k name key (shortEntry key attr dataCluster fileSize) xs run y ys := by
  obtain ⟨r, v', hrun, hfat, hent⟩ := run_writeDirEntries hg hc hx name hkey attr dataCluster fileSize
    (by simp only [newEntries, length_append, length_map, length_range, length_singleton]; omega)
  obtain ⟨s', hrun', hs'⟩ := hs.run hg hrun
  obtain ⟨xs, run, y, ys, hslots, hxs, hrunlen, hbefore, hpieces, hy⟩ := slots_of_overwrite (by omega) hent
  exact ⟨r, s', xs, run, y, ys, hrun', ⟨v', hs', by rwa [hfat], hslots⟩, ⟨hxs, hbefore⟩, ⟨hrunlen, hpieces⟩, hy⟩

section Decoding

variable {s' : Fs} {k : Nat} {key : List UInt8} {e : Entry} {xs run : List Slot} {y : Slot} {ys : List Slot}

theorem Written.length (h : Written g s' v dir cs k name key e xs run y ys) : (xs ++ run).length = k + lfnCount name := by
  rw [length_append, h.before.1, h.pieces.1]

theorem Written.decodes_live (hg : g.Valid) (h : Written g s' v dir cs k name key e xs run y ys) {name' : List UInt8}
    (hdec : Decodes g s' dir ((dirSlots g v cs).map Slot.place) (k + lfnCount name) e name') :
    (Fat32.pieces .init (xs ++ run)).isSome = true ∧ y.entry.isShort = true ∧ y.isLive = true := by
  obtain ⟨v', hs', hc', hslots⟩ := h.volume
  rw [← dirSlots_places v v' cs, ← h.length] at hdec
  exact pieces_of_decodes hg hs' hc' hslots hdec

theorem Written.decodes (hg : g.Valid) (h : Written g s' v dir cs k name key e xs run y ys) (h20 : lfnCount name ≤ 20)
    (hcount : 0 < lfnCount name) (hcover : name.length ≤ lfnCount name * 13) (hlen : name.length ≤ 255) (hnul : 0 ∉ name)
    (hname : y.entry.name = key) (hshort : y.entry.isShort = true) (hlive : y.isLive = true)
    (hreach : (Fat32.pieces .init xs).isSome = true) :
    Decodes g s' dir ((dirSlots g v cs).map Slot.place) (k + lfnCount name) e name := by
  obtain ⟨v', hs', hc', hslots⟩ := h.volume
  obtain ⟨st₀, hst₀⟩ := Option.isSome_iff_exists.mp hreach
  obtain ⟨st, hst, hcol⟩ := pieces_collected key h20 run (lfnCount name) st₀ h.pieces.1 (Nat.le_refl _)
    (by rw [Nat.sub_self]; exact h.pieces.2) (fun hlt => absurd hlt (Nat.lt_irrefl _)) fun _ => hcount
  rw [← dirSlots_places v v' cs, ← h.length, ← h.short]
  refine decodes_of_pieces hg hs' hc' hslots ?_ hshort hlive (hcol.longName hnul hlen hcount hcover hname)
  rw [pieces_append, hst₀]
  exact hst

end Decoding

/-- The name is decoded for the short entry just if that does not begin with one of the marks, and the
scans come to the first slot at all. -/
theorem long_name_decoded_iff (hg : g.Valid) (hs : Mounted g s v) (hc : Chain g v.fat dir cs) (hpos : 0 < name.length)
    (hlen : name.length ≤ 255) (hnul : 0 ∉ name) (h8 : fat32NameIs8dot3 name = false) {key : List UInt8}
    (hkey : key.length = 11) {attr : UInt8} (hattr : Ordinary attr) (dataCluster fileSize : Nat) {k : Nat} {x : Slot}
    (hx : (dirSlots g v cs)[k]? = some x) (hroom : k + lfnCount name < (dirSlots g v cs).length) :
    ∃ r s', Prog.run (onDisk g) (fat32WriteDirEntries g x.cluster x.index name key attr dataCluster fileSize) s = .ok (r, s') ∧
      (Decodes g s' dir ((dirSlots g v cs).map Slot.place) (k + lfnCount name) (shortEntry key attr dataCluster fileSize) name ↔
        MarkFree key ∧ (pieces .init ((dirSlots g v cs).take k)).isSome = true) := by
  obtain ⟨hcount, h20, hcover⟩ := lfnCount_spec h8 hpos hlen
  obtain ⟨r, s', xs, run, y, ys, hrun, hw⟩ := writes hg hs hc name hkey attr dataCluster fileSize hx hroom
  obtain ⟨hname, hmark⟩ := shortEntry_spec hkey hattr dataCluster fileSize hw.short
  have hsame : pieces .init xs = pieces .init ((dirSlots g v cs).take k) := pieces_congr hw.before.2 .init
  refine ⟨r, s', hrun, ?_⟩
  rw [← hmark, ← hsame]
  constructor
  · intro hdec
    obtain ⟨hreach, hshort, hlive⟩ := hw.decodes_live hg hdec
    refine ⟨⟨hshort, hlive⟩, ?_⟩
    rw [pieces_append] at hreach
    cases hp : pieces .init xs with
    | none =>
      rw [hp] at hreach
      cases hreach
    | some st => rfl
  · rintro ⟨⟨hshort, hlive⟩, hreach⟩
    exact hw.decodes hg h20 hcount hcover hlen hnul hname hshort hlive hreach

end Scans

/-! ## A name that begins with the mark of a free slot -/

/-- `\xE5ngstrom.txt`, and the short name that is made of it. -/
def angstrom : List UInt8 := [0xE5, 110, 103, 115, 116, 114, 111, 109, 46, 116, 120, 116]

def angstromKey : List UInt8 := tailedKey (shortNameParts angstrom) 1

/-- In the empty root directory its entries are not found: the short one counts as a free slot. -/
theorem not_long_name_decoded : ¬∀ (g : Geometry) (s : Fs) (v : Volume) (dir : Nat) (cs : List Nat) (k : Nat) (x : Slot)
    (name key : List UInt8) (attr : UInt8) (dataCluster fileSize : Nat), g.Valid → Mounted g s v → Chain g v.fat dir cs →
      0 < name.length → name.length ≤ 255 → 0 ∉ name → fat32NameIs8dot3 name = false → key.length = 11 → Ordinary attr →
      (dirSlots g v cs)[k]? = some x → k + lfnCount name < (dirSlots g v cs).length →
      (pieces .init ((dirSlots g v cs).take k)).isSome = true →
      ∃ r s', Prog.run (onDisk g) (fat32WriteDirEntries g x.cluster x.index name key attr dataCluster fileSize) s = .ok (r, s') ∧
        Decodes g s' dir ((dirSlots g v cs).map Slot.place) (k + lfnCount name) (shortEntry key attr dataCluster fileSize) name := by
  intro h
  have hs := mounted_root []
  have hc := chain_root []
  have hkey : angstromKey.length = 11 := by decide
  have hattr : Ordinary 0x20 := by decide
  have hx : (dirSlots oneSector (rootVolume []) [2])[0]? = some ⟨2, (rootVolume []).cluster oneSector 2, 0⟩ := rfl
  have hroom : 0 + lfnCount angstrom < (dirSlots oneSector (rootVolume []) [2]).length := by decide
  obtain ⟨r, s', hrun, hdec⟩ := h oneSector _ _ 2 [2] 0 _ angstrom angstromKey 0x20 3 0 oneSector_valid hs hc (by decide)
    (by decide) (by decide) (by decide) hkey hattr hx hroom rfl
  obtain ⟨r', s'', xs, run, y, ys, hrun', hw⟩ := writes oneSector_valid hs hc angstrom hkey 0x20 3 0 hx hroom
  rw [hrun] at hrun'
  obtain ⟨rfl, rfl⟩ := Prod.mk.inj (Except.ok.inj hrun')
  have hlive := (hw.decodes_live oneSector_valid hdec).2
  have hmark := (shortEntry_spec hkey hattr 3 0 hw.short).2.mp hlive
  exact hmark.2.1 (by decide)

/-- `a long name.txt` takes two pieces. -/
def longName : List UInt8 := [97, 32, 108, 111, 110, 103, 32, 110, 97, 109, 101, 46, 116, 120, 116]

theorem long_name_decoded_root : ∃ r s', Prog.run (onDisk oneSector)
      (fat32WriteDirEntries oneSector 2 0 longName (tailedKey (shortNameParts longName) 1) 0x20 3 0)
      (fat32Mount oneSector (rootDisk []) true) = .ok (r, s') ∧
    Decodes oneSector s' 2 ((dirSlots oneSector (rootVolume []) [2]).map Slot.place) 2
      (shortEntry (tailedKey (shortNameParts longName) 1) 0x20 3 0) longName := by
  have hx : (dirSlots oneSector (rootVolume []) [2])[0]? = some ⟨2, (rootVolume []).cluster oneSector 2, 0⟩ := rfl
  have hkey : (tailedKey (shortNameParts longName) 1).length = 11 := by decide
  have hattr : Ordinary 0x20 := by decide
  obtain ⟨r, s', hrun, hdec⟩ := long_name_decoded_iff oneSector_valid (mounted_root []) (chain_root [])
    (by decide : 0 < longName.length) (by decide) (by decide) (by decide) hkey hattr 3 0 hx (by decide)
  exact ⟨r, s', hrun, hdec.mpr ⟨by unfold MarkFree; decide, rfl⟩⟩

end Serotonin.Fat32
