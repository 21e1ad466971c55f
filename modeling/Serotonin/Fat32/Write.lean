import Serotonin.Fat32.Read
import Serotonin.Fat32.Resize

/-! `fat32_write`: the data is in the file as far as there are clusters for it, and the directory is
as it was but for the size of the file. -/

namespace Serotonin.Fat32

open List
open ByteMem (Mem u32 u32_of_lt blit blit_inside blit_outside)
open Prog (run run_bind_ok)

variable {g : Geometry} {v : Volume}

theorem Volume.cluster_congr {v' : Volume} (h : v'.disk = v.disk) (c : Nat) : v'.cluster g c = v.cluster g c := by
  unfold Volume.cluster
  rw [h]

/-- In a chain that keeps its first clusters the bytes of these stay where they are. -/
theorem byteOf_extended {v' : Volume} {ch ch' : List Nat} (hdisk : v'.disk = v.disk) (hpre : ch <+: ch') {p : Nat}
    (hp : p < ch.length * g.clusterSize) : v'.byteOf g ch' p = v.byteOf g ch p := by
  obtain ⟨post, rfl⟩ := hpre
  have hk : p / g.clusterSize < ch.length := Nat.div_lt_of_lt_mul (by rwa [Nat.mul_comm])
  unfold Volume.byteOf
  rw [Volume.cluster_congr hdisk, getD_eq_getElem?_getD, List.getElem?_append_left hk, ← getD_eq_getElem?_getD]

theorem byteOf_setCluster (hg : g.Valid) {ch : List Nat} {k d : Nat} (hdata : ∀ e ∈ ch, HasData g e) (hnodup : ch.Nodup)
    (hd : ch[k]? = some d) (buf : Mem) {p : Nat} (hp : p < ch.length * g.clusterSize) :
    (v.setCluster g d buf).byteOf g ch p = if p / g.clusterSize = k then buf (p % g.clusterSize) else v.byteOf g ch p := by
  obtain ⟨hk, rfl⟩ := List.getElem?_eq_some_iff.mp hd
  have hlt : p / g.clusterSize < ch.length := Nat.div_lt_of_lt_mul (by rwa [Nat.mul_comm])
  have hget : ch.getD (p / g.clusterSize) 0 = ch[p / g.clusterSize] := by
    rw [getD_eq_getElem?_getD, List.getElem?_eq_getElem hlt, Option.getD_some]
  unfold Volume.byteOf
  rw [hget]
  split
  · next heq =>
    subst heq
    exact Volume.cluster_setCluster _ _ _ (Nat.mod_lt _ hg.clusterSize_pos)
  · next hne =>
    have hother : ch[p / g.clusterSize] ≠ ch[k] := fun heq => hne ((hnodup.getElem_inj_iff).mp heq)
    rw [Volume.cluster_setCluster_of_ne hg v (hdata _ (getElem_mem hk)) (hdata _ (getElem_mem hlt)) hother]

/-! ## The loop -/

/-- The volume once the first `count` bytes of the data are written: the file has them, and else what it
had; all other clusters that were taken are as they were. -/
structure Stored (g : Geometry) (v₀ : Volume) (ch₀ : List Nat) (offset : Nat) (data : List UInt8) (c parent : Nat)
    (dch : List Nat) (count : Nat) (v : Volume) (ch : List Nat) : Prop where
  beside : Beside g v c ch parent dch
  chain : ch₀ <+: ch
  room : v.room g ch = v₀.room g ch₀
  fresh : ∀ e ∈ ch, e ∈ ch₀ ∨ v₀.fat e = 0
  covers : offset + count ≤ ch.length * g.clusterSize
  bytes : ∀ j, j < count → v.byteOf g ch (offset + j) = data.getD j 0
  old : ∀ p, p < ch₀.length * g.clusterSize → p < offset ∨ offset + count ≤ p → v.byteOf g ch p = v₀.byteOf g ch₀ p
  others : ∀ e, v₀.fat e ≠ 0 → e ∉ ch₀ → v.fat e = v₀.fat e ∧ (HasData g e → v.cluster g e = v₀.cluster g e)

section Loop

variable {v₀ : Volume} {offset c parent : Nat} {data : List UInt8} {ch₀ dch : List Nat}

/-- Before the first byte. -/
theorem Grown.stored {ch : List Nat} (h : Grown g v₀ ch₀ v ch) (hbeside : Beside g v c ch parent dch)
    (hcovers : offset ≤ ch.length * g.clusterSize) : Stored g v₀ ch₀ offset data c parent dch 0 v ch where
  beside := hbeside
  chain := h.chain
  room := h.room
  fresh := h.fresh
  covers := hcovers
  bytes := fun j hj => absurd hj (Nat.not_lt_zero j)
  old := fun _ hp _ => byteOf_extended h.disk h.chain hp
  others := fun e hne hnot => ⟨h.others e hne hnot, fun _ => Volume.cluster_congr h.disk e⟩

theorem Stored.grown {v' : Volume} {ch ch' : List Nat} {count : Nat} (h : Stored g v₀ ch₀ offset data c parent dch count v ch)
    (hbeside : Beside g v' c ch' parent dch) (hgrown : Grown g v ch v' ch') :
    Stored g v₀ ch₀ offset data c parent dch count v' ch' where
  beside := hbeside
  chain := h.chain.trans hgrown.chain
  room := hgrown.room.trans h.room
  fresh := fun e he => by
    rcases hgrown.fresh e he with hin | h0
    · exact h.fresh e hin
    · by_contra hnot
      obtain ⟨hnot, hne⟩ := not_or.mp hnot
      exact hne ((h.others e hne hnot).1.symm.trans h0)
  covers := Nat.le_trans h.covers (Nat.mul_le_mul_right _ hgrown.chain.length_le)
  bytes := fun j hj => by
    have hin := h.covers
    rw [byteOf_extended hgrown.disk hgrown.chain (by omega)]
    exact h.bytes j hj
  old := fun p hp hout => by
    have hle := Nat.mul_le_mul_right g.clusterSize h.chain.length_le
    rw [byteOf_extended hgrown.disk hgrown.chain (Nat.lt_of_lt_of_le hp hle)]
    exact h.old p hp hout
  others := fun e hne hnot => by
    obtain ⟨hfat, hcluster⟩ := h.others e hne hnot
    have hnot' : e ∉ ch := fun hin => (h.fresh e hin).elim hnot hne
    exact ⟨(hgrown.others e (hfat ▸ hne) hnot').trans hfat, fun he => (Volume.cluster_congr hgrown.disk e).trans (hcluster he)⟩

/-- The directory is among the other clusters. -/
theorem Stored.dir {ch : List Nat} {count : Nat} (h : Stored g v₀ ch₀ offset data c parent dch count v ch)
    (hdir : Chain g v₀.fat parent dch) (hapart : ∀ d ∈ dch, d ∉ ch₀) : ∀ d ∈ dch, v.cluster g d = v₀.cluster g d := fun d hd =>
  (h.others d (hdir.fat_ne_zero d hd) (hapart d hd)).2 (hdir.hasData d hd)

/-- The buffer of a round: the data in its place, and what the cluster has around it. -/
theorem run_roundBuffer (hg : g.Valid) (v : Volume) (data : List UInt8) (w : Nat) {d cofs : Nat} (hd : HasData g d) (hcofs : cofs < g.clusterSize) (clusbuf : Mem) :
    ∃ buf, (∀ f : Mem → FatM Nat, run (onVolume g) (if cofs ≠ 0 ∨ data.length - w < g.clusterSize then
        fat32ReadCluster g d clusbuf >>= f else pure clusbuf >>= f) v = run (onVolume g) (f buf) v) ∧
      ∀ y, y < g.clusterSize → blit buf cofs (fun x => data.getD x 0) w (min (g.clusterSize - cofs) (data.length - w)) y =
        if cofs ≤ y ∧ y < cofs + min (g.clusterSize - cofs) (data.length - w) then data.getD (w + (y - cofs)) 0
        else v.cluster g d y := by
  by_cases hpart : cofs ≠ 0 ∨ data.length - w < g.clusterSize
  · refine ⟨blit clusbuf 0 (v.cluster g d) 0 g.clusterSize, fun f => ?_, fun y hy => ?_⟩
    · rw [if_pos hpart, run_bind_ok (run_readCluster hg hd clusbuf)]
    split
    · next hin => rw [blit_inside hin.1 hin.2]
    · next hout =>
      rw [blit_outside (by omega), blit_inside (Nat.zero_le y) (by omega), Nat.zero_add, Nat.sub_zero]
  · refine ⟨clusbuf, fun f => ?_, fun y hy => ?_⟩
    · rw [if_neg hpart]
      rfl
    rw [if_pos (by omega), blit_inside (by omega) (by omega)]

/-- One cluster of the file gets its part of the data. -/
theorem Stored.round (hg : g.Valid) {ch : List Nat} {k d cofs w count : Nat} {buf : Mem}
    (h : Stored g v₀ ch₀ offset data c parent dch w v ch) (hd : ch[k]? = some d) (hpos : offset + w = k * g.clusterSize + cofs)
    (hcount : cofs + count ≤ g.clusterSize)
    (hbuf : ∀ y, y < g.clusterSize → buf y = if cofs ≤ y ∧ y < cofs + count then data.getD (w + (y - cofs)) 0 else v.cluster g d y) :
    Stored g v₀ ch₀ offset data c parent dch (w + count) (v.setCluster g d buf) ch := by
  have hK := hg.clusterSize_pos
  obtain ⟨hk, hget⟩ := List.getElem?_eq_some_iff.mp hd
  have hmem : d ∈ ch := hget ▸ getElem_mem hk
  have hcovers : (k + 1) * g.clusterSize ≤ ch.length * g.clusterSize := Nat.mul_le_mul_right _ hk
  rw [Nat.succ_mul] at hcovers
  -- a byte of the file is one of the data, or is what it was
  have hbyte : ∀ p, p < ch.length * g.clusterSize → (v.setCluster g d buf).byteOf g ch p =
      if offset + w ≤ p ∧ p < offset + w + count then data.getD (p - offset) 0 else v.byteOf g ch p := by
    intro p hp
    have hsplit : p / g.clusterSize * g.clusterSize + p % g.clusterSize = p := by
      rw [Nat.mul_comm]
      exact Nat.div_add_mod _ _
    have hmod := Nat.mod_lt p hK
    rw [byteOf_setCluster hg h.beside.file.hasData (h.beside.file.nodup hg) hd buf hp]
    by_cases hat : p / g.clusterSize = k
    · rw [hat] at hsplit
      have hold : v.byteOf g ch (k * g.clusterSize + p % g.clusterSize) = v.cluster g (ch.getD k 0) _ := Volume.byteOf_eq hmod
      rw [hsplit, getD_eq_getElem?_getD, hd, Option.getD_some] at hold
      rw [if_pos hat, hbuf _ hmod, hold]
      by_cases hin : cofs ≤ p % g.clusterSize ∧ p % g.clusterSize < cofs + count
      · rw [if_pos hin, if_pos (by omega)]
        congr 1
        omega
      · rw [if_neg hin, if_neg (by omega)]
    · have hout : ¬(offset + w ≤ p ∧ p < offset + w + count) := by
        rintro ⟨hlo, hhi⟩
        refine hat (Nat.le_antisymm (Nat.lt_succ_iff.mp (Nat.div_lt_of_lt_mul ?_)) ((Nat.le_div_iff_mul_le hK).mpr (by omega)))
        rw [Nat.mul_comm, Nat.succ_mul]
        omega
      rw [if_neg hat, if_neg hout]
  refine ⟨⟨h.beside.file, h.beside.dir, h.beside.apart⟩, h.chain, h.room, h.fresh, by omega, fun j hj => ?_, fun p hp hout => ?_,
    fun e hne hnot => ?_⟩
  · rw [hbyte _ (by omega)]
    split
    · rw [Nat.add_sub_cancel_left]
    · exact h.bytes j (by omega)
  · have hle := Nat.mul_le_mul_right g.clusterSize h.chain.length_le
    rw [hbyte p (Nat.lt_of_lt_of_le hp hle), if_neg (by omega)]
    exact h.old p hp (by omega)
  · obtain ⟨hfat, hcluster⟩ := h.others e hne hnot
    have hother : e ≠ d := by
      rintro rfl
      exact (h.fresh e hmem).elim hnot hne
    refine ⟨hfat, fun he => ?_⟩
    rw [Volume.cluster_setCluster_of_ne hg v (h.beside.file.hasData d hmem) he hother]
    exact hcluster he

/-- The rounds write all of the data, or as much of it as there are clusters for. -/
theorem run_writeLoop (hg : g.Valid) : ∀ (n k d cofs w : Nat) (clusbuf : Mem) (v : Volume) (ch : List Nat),
    Stored g v₀ ch₀ offset data c parent dch w v ch → ch[k]? = some d → data.length ≤ w + n → w ≤ data.length →
    offset + w = k * g.clusterSize + cofs → cofs < g.clusterSize →
    ∃ v' ch', run (onVolume g) (writeLoop g data n d cofs w clusbuf) v =
        .ok (max w (min data.length (v₀.room g ch₀ * g.clusterSize - offset)), v') ∧
      Stored g v₀ ch₀ offset data c parent dch (max w (min data.length (v₀.room g ch₀ * g.clusterSize - offset))) v' ch'
  | n, k, d, cofs, w, clusbuf, v, ch, h, hd, hn, hw, hpos, hcofs => by
    have hsum := h.room
    obtain ⟨room, hroom₀⟩ : ∃ room, v₀.room g ch₀ = room := ⟨_, rfl⟩
    rw [hroom₀] at hsum ⊢
    obtain ⟨total, htotal⟩ : ∃ total, max w (min data.length (room * g.clusterSize - offset)) = total := ⟨_, rfl⟩
    rw [htotal]
    by_cases hmore : w < data.length
    · obtain ⟨n, rfl⟩ : ∃ m, n = m + 1 := ⟨n - 1, by omega⟩
      obtain ⟨hk, hget⟩ := List.getElem?_eq_some_iff.mp hd
      have hdata : HasData g d := h.beside.file.hasData d (hget ▸ getElem_mem hk)
      obtain ⟨buf, hfill, hbuf⟩ := run_roundBuffer hg v data w hdata hcofs clusbuf
      obtain ⟨chunk, hchunk⟩ : ∃ chunk, min (g.clusterSize - cofs) (data.length - w) = chunk := ⟨_, rfl⟩
      rw [hchunk] at hbuf
      have hround := h.round hg hd hpos (by omega) hbuf
      have hroom : (k + 1) * g.clusterSize ≤ room * g.clusterSize := Nat.mul_le_mul_right _ (by
        unfold Volume.room at hsum
        omega)
      rw [Nat.succ_mul] at hroom
      unfold writeLoop
      rw [if_pos hmore]
      dsimp only
      rw [hfill, hchunk, run_bind_ok (run_writeCluster hg hdata _)]
      by_cases hlast : w + chunk < data.length
      · rw [if_pos hlast]
        obtain ⟨hnext, hnone⟩ := run_nextOrNew hg hround.beside hd
        rw [hround.room, hroom₀] at hnext hnone
        by_cases hfull : k + 1 < room
        · obtain ⟨e, v₁, ch₁, hrun, hbeside, he, hgrown⟩ := hnext hfull
          have hroom' : (k + 2) * g.clusterSize ≤ room * g.clusterSize := Nat.mul_le_mul_right _ hfull
          rw [Nat.add_mul] at hroom'
          obtain ⟨v', ch', hloop, hstored⟩ := run_writeLoop hg n (k + 1) e 0 (w + chunk)
            (blit buf cofs (fun x => data.getD x 0) w chunk) v₁ ch₁
            (hround.grown hbeside hgrown) he (by omega) (by omega) (by rw [Nat.succ_mul]; omega) hg.clusterSize_pos
          rw [hroom₀] at hloop hstored
          have hsame : max (w + chunk) (min data.length (room * g.clusterSize - offset)) = total := by omega
          rw [hsame] at hloop hstored
          rw [run_bind_ok hrun]
          exact ⟨v', ch', hloop, hstored⟩
        · have hle : room * g.clusterSize ≤ (k + 1) * g.clusterSize := Nat.mul_le_mul_right _ (Nat.le_of_not_lt hfull)
          rw [Nat.succ_mul] at hle
          have hstop : w + chunk = total := by omega
          rw [run_bind_ok (hnone (Nat.le_of_not_lt hfull))]
          exact ⟨_, _, congrArg (fun t => Except.ok (t, _)) hstop, hstop ▸ hround⟩
      · rw [if_neg hlast]
        have hstop : w + chunk = total := by omega
        exact ⟨_, _, congrArg (fun t => Except.ok (t, _)) hstop, hstop ▸ hround⟩
    · have hstop : w = total := by omega
      refine ⟨v, ch, ?_, hstop ▸ h⟩
      rw [← hstop]
      cases n with
      | zero => rfl
      | succ n =>
        unfold writeLoop
        rw [if_neg hmore]
        rfl

end Loop

/-! ## The write -/

theorem run_flushFatCache : run (onVolume g) flushFatCache v = .ok ((), v) := rfl

theorem run_flush : run (onVolume g) blkcacheFlush v = .ok ((), v) := rfl

section Call

variable {node : Node} {ch dch : List Nat} {offset : Nat} {data : List UInt8}

/-- The file has a first cluster, or gets one if one is free. -/
theorem FileOn.first (hg : g.Valid) (h : FileOn g v node ch) (hdir : Chain g v.fat node.parentCluster dch)
    (hapart : ∀ d ∈ dch, d ∉ ch) :
    (v.room g ch = 0 ∧ ∀ f : Nat → FatM (Int × Node), run (onVolume g) (if node.cluster < 2 then
      fat32AllocateCluster g >>= f else pure node.cluster >>= f) v = run (onVolume g) (f 0) v) ∨
    ∃ c v' ch', c ≠ 0 ∧ (ch ≠ [] → c = node.cluster) ∧ Beside g v' c ch' node.parentCluster dch ∧ ch'[0]? = some c ∧
      Grown g v ch v' ch' ∧ ∀ f : Nat → FatM (Int × Node), run (onVolume g) (if node.cluster < 2 then
        fat32AllocateCluster g >>= f else pure node.cluster >>= f) v = run (onVolume g) (f c) v' := by
  obtain ⟨rfl, hlow, -⟩ | ⟨hne, hch⟩ := h.chain
  · obtain ⟨hfull, hrun⟩ | ⟨new, hfree, hnew, h0, hrun⟩ := run_allocate (v := v) hg
    · refine .inl ⟨?_, fun f => ?_⟩
      · unfold Volume.room
        rw [card_freeSet_of_none hfull]
        rfl
      · rw [if_pos hlow, run_bind_ok hrun]
    · obtain ⟨hbeside, hgrown⟩ := Beside.first hdir hfree hnew h0
      have h2 := hnew.1
      refine .inr ⟨new, _, _, by omega, fun hne => absurd rfl hne, hbeside, rfl, hgrown, fun f => ?_⟩
      rw [if_pos hlow, run_bind_ok hrun]
  · cases hch with
    | nil => exact absurd rfl hne
    | cons hc ht =>
      have h2 := hc.1
      refine .inr ⟨node.cluster, v, _, by omega, fun _ => rfl, ⟨.cons hc ht, hdir, hapart⟩, rfl, .refl _, fun f => ?_⟩
      rw [if_neg (by omega)]
      rfl

/-- What a write leaves of which the first `count` bytes are stored: the file has them, and else what it had;
of all other clusters that were taken only those of the directory may have changed. -/
structure Wrote (g : Geometry) (v : Volume) (node : Node) (ch dch : List Nat) (offset : Nat) (data : List UInt8) (count : Nat)
    (v' : Volume) (node' : Node) (ch' : List Nat) : Prop where
  same : node' = { node with size := grownSize node offset data.length, cluster := node'.cluster }
  beside : Beside g v' node'.cluster ch' node.parentCluster dch
  chain : ch <+: ch'
  nonempty : ch' ≠ []
  room : v'.room g ch' = v.room g ch
  covers : offset + count ≤ ch'.length * g.clusterSize
  bytes : ∀ j, j < count → v'.byteOf g ch' (offset + j) = data.getD j 0
  old : ∀ p, p < ch.length * g.clusterSize → p < offset ∨ offset + count ≤ p → v'.byteOf g ch' p = v.byteOf g ch p
  others : ∀ e, v.fat e ≠ 0 → e ∉ ch → v'.fat e = v.fat e ∧ (HasData g e → e ∉ dch → v'.cluster g e = v.cluster g e)
  scan : ∃ o, entryScan g v' node.name dch = .ok o

/-- The bytes of a chain are those of its clusters. -/
theorem byteOf_congr {v' : Volume} {ch : List Nat} (hsame : ∀ d ∈ ch, v'.cluster g d = v.cluster g d) {p : Nat}
    (hp : p < ch.length * g.clusterSize) : v'.byteOf g ch p = v.byteOf g ch p := by
  have hk : p / g.clusterSize < ch.length := Nat.div_lt_of_lt_mul (by rwa [Nat.mul_comm])
  unfold Volume.byteOf
  rw [getD_eq_getElem?_getD, List.getElem?_eq_getElem hk, Option.getD_some, hsame _ (getElem_mem hk)]

/-- The file stays as it is when the directory gets its new size. -/
theorem Stored.wrote {v₁ v' : Volume} {ch' : List Nat} {c count : Nat}
    (h : Stored g v ch offset data c node.parentCluster dch count v₁ ch') (hne : ch' ≠ []) (hfat : v'.fat = v₁.fat)
    (hsame : ∀ d, HasData g d → d ∉ dch → v'.cluster g d = v₁.cluster g d) (hscan : ∃ o, entryScan g v' node.name dch = .ok o) :
    Wrote g v node ch dch offset data count v' { node with size := grownSize node offset data.length, cluster := c } ch' := by
  have hfile : ∀ {p}, p < ch'.length * g.clusterSize → v'.byteOf g ch' p = v₁.byteOf g ch' p := fun hp =>
    byteOf_congr (fun d hd => hsame d (h.beside.file.hasData d hd) fun hin => h.beside.apart d hin hd) hp
  have hcovers := h.covers
  have hle := Nat.mul_le_mul_right g.clusterSize h.chain.length_le
  refine ⟨rfl, ⟨hfat ▸ h.beside.file, hfat ▸ h.beside.dir, h.beside.apart⟩, h.chain, hne, ?_, hcovers, fun j hj => ?_,
    fun p hp hout => ?_, fun e hne hnot => ?_, hscan⟩
  · rw [← h.room]
    unfold Volume.room freeSet
    rw [hfat]
  · rw [hfile (by omega)]
    exact h.bytes j hj
  · rw [hfile (Nat.lt_of_lt_of_le hp hle)]
    exact h.old p hp hout
  · obtain ⟨hentry, hcluster⟩ := h.others e hne hnot
    exact ⟨hfat ▸ hentry, fun he hin => (hsame e he hin).trans (hcluster he)⟩

/-- What a write comes to before the directory gets the new size: nothing where the offset is out of reach, and
else as much of the data as there are clusters for. -/
theorem FileOn.run_stores (hg : g.Valid) (h : FileOn g v node ch) (hdir : Chain g v.fat node.parentCluster dch)
    (hapart : ∀ d ∈ dch, d ∉ ch) (hro : g.readOnly = false) (offset : Nat) (data : List UInt8) :
    (v.room g ch * g.clusterSize ≤ offset →
      ∃ node' v', run (onVolume g) (fat32Write g (g.total + 1) node offset data) v = .ok ((-1, node'), v')) ∧
    (offset < v.room g ch * g.clusterSize → ∃ c v₁ ch', (ch ≠ [] → c = node.cluster) ∧ ch' ≠ [] ∧
      Stored g v ch offset data c node.parentCluster dch (min data.length (v.room g ch * g.clusterSize - offset)) v₁ ch' ∧
      run (onVolume g) (fat32Write g (g.total + 1) node offset data) v = run (onVolume g)
        (updateDirEntry g (g.total + 1) { node with size := grownSize node offset data.length, cluster := c }
          (grownSize node offset data.length) >>= fun _ => (pure (((min data.length (v.room g ch * g.clusterSize - offset) : Nat) : Int),
            { node with size := grownSize node offset data.length, cluster := c }) : FatM (Int × Node))) v₁) := by
  have hpos := hg.clusterSize_pos
  have hoffset : offset / g.clusterSize * g.clusterSize + offset % g.clusterSize = offset := by
    rw [Nat.mul_comm]
    exact Nat.div_add_mod offset _
  have hmod := Nat.mod_lt offset hpos
  unfold fat32Write
  rw [h.file, hro, if_neg Bool.false_ne_true, if_neg Bool.false_ne_true]
  dsimp only
  obtain ⟨hzero, hfirst⟩ | ⟨c, v₁, ch₁, hc, hsame, hbeside, hstart, hgrown, hfirst⟩ := h.first hg hdir hapart
  · rw [hfirst, if_pos rfl, hzero, Nat.zero_mul]
    exact ⟨fun _ => ⟨_, _, rfl⟩, fun hlt => absurd hlt (Nat.not_lt_zero _)⟩
  · rw [hfirst, if_neg hc]
    obtain ⟨hreach, hout⟩ := run_skipClusters hg (offset / g.clusterSize) 0 c v₁ ch₁ hbeside hstart
    rw [Nat.zero_add, hgrown.room] at hreach hout
    refine ⟨fun hle => ?_, fun hlt => ?_⟩
    · obtain ⟨v₂, hskip⟩ := hout ((Nat.le_div_iff_mul_le hpos).mpr hle)
      rw [run_bind_ok hskip]
      exact ⟨_, _, rfl⟩
    · obtain ⟨start, v₂, ch₂, hskip, hbeside₂, hat, hgrown₂⟩ := hreach (Nat.div_lt_of_lt_mul (by rwa [Nat.mul_comm]))
      have hgrown' := hgrown.trans hgrown₂
      obtain ⟨hk, -⟩ := List.getElem?_eq_some_iff.mp hat
      have hcovers : (offset / g.clusterSize + 1) * g.clusterSize ≤ ch₂.length * g.clusterSize := Nat.mul_le_mul_right _ hk
      rw [Nat.succ_mul] at hcovers
      have hnone : Stored g v ch offset data c node.parentCluster dch 0 v₂ ch₂ := hgrown'.stored hbeside₂ (by omega)
      obtain ⟨v₃, ch₃, hloop, hstored⟩ := run_writeLoop hg data.length (offset / g.clusterSize) start (offset % g.clusterSize) 0
        (fun _ => 0) v₂ ch₂ hnone hat (by omega) (Nat.zero_le _) (by omega) hmod
      rw [Nat.zero_max] at hloop hstored
      have hne := hstored.beside.file.ne_nil hg (hbeside.file.hasData c (mem_of_getElem? hstart))
      rw [run_bind_ok hskip]
      dsimp only
      rw [run_bind_ok hloop, run_bind_ok run_flushFatCache, run_bind_ok run_flush]
      exact ⟨c, v₃, ch₃, hsame, hne, hstored, rfl⟩

/-- The search for the entry of the file is that of before. -/
theorem Stored.scan {v₁ : Volume} {ch' : List Nat} {c count : Nat} (h : Stored g v ch offset data c node.parentCluster dch count v₁ ch')
    (hdir : Chain g v.fat node.parentCluster dch) (hapart : ∀ d ∈ dch, d ∉ ch) :
    entryScan g v₁ node.name dch = entryScan g v node.name dch := by
  unfold entryScan
  rw [dirSlots_congr (h.dir hdir hapart)]

theorem FileOn.run_write (hg : g.Valid) (h : FileOn g v node ch) (hdir : Chain g v.fat node.parentCluster dch)
    (hapart : ∀ d ∈ dch, d ∉ ch) (hro : g.readOnly = false) (offset : Nat) (data : List UInt8) :
    (v.room g ch * g.clusterSize ≤ offset →
      ∃ node' v', run (onVolume g) (fat32Write g (g.total + 1) node offset data) v = .ok ((-1, node'), v')) ∧
    (offset < v.room g ch * g.clusterSize →
      (∀ e, entryScan g v node.name dch = .error e →
        run (onVolume g) (fat32Write g (g.total + 1) node offset data) v = .error e) ∧
      (∀ o, entryScan g v node.name dch = .ok o → ∃ node' v' ch',
        run (onVolume g) (fat32Write g (g.total + 1) node offset data) v =
          .ok (((min data.length (v.room g ch * g.clusterSize - offset) : Nat), node'), v') ∧
        Wrote g v node ch dch offset data (min data.length (v.room g ch * g.clusterSize - offset)) v' node' ch')) := by
  obtain ⟨hout, hin⟩ := h.run_stores hg hdir hapart hro offset data
  refine ⟨hout, fun hlt => ?_⟩
  obtain ⟨c, v₁, ch', -, hne, hstored, hrun⟩ := hin hlt
  have hscan := hstored.scan hdir hapart
  obtain ⟨hentry, herror⟩ := run_updateDirEntry hg { node with size := grownSize node offset data.length, cluster := c }
    hstored.beside.dir (grownSize node offset data.length)
  rw [hrun]
  refine ⟨fun e he => ?_, fun o ho => ?_⟩
  · exact Prog.run_bind_error (herror e (hscan.trans he))
  · obtain ⟨v', hupdate, hfat, hsame, hagain⟩ := hentry o (hscan.trans ho)
    rw [run_bind_ok hupdate]
    exact ⟨_, v', ch', rfl, hstored.wrote hne hfat hsame hagain⟩

/-- What a write is to do: it fails, or the file has the data at the offset and a size that goes as far. -/
def WriteSound (g : Geometry) (v : Volume) (node : Node) (offset : Nat) (data : List UInt8) : Prop :=
  ∃ r node' v', run (onVolume g) (fat32Write g (g.total + 1) node offset data) v = .ok ((r, node'), v') ∧
    (r.bmod (2 ^ 32) < 0 ∨ (offset + data.length ≤ node'.size ∧ ∃ ch', Chain g v'.fat node'.cluster ch' ∧
      offset + data.length ≤ ch'.length * g.clusterSize ∧ ∀ j, j < data.length → v'.byteOf g ch' (offset + j) = data.getD j 0))

theorem bmod_neg_iff {n : Nat} (hn : n < 2 ^ 32) : (n : Int).bmod (2 ^ 32) < 0 ↔ 2 ^ 31 ≤ n := by
  rw [Int.bmod_def]
  split <;> omega

/-- A write fails where the volume is read-only or the offset is out of reach, and where the number of
bytes is not one of an `int`. Else it is sound if and only if the sum of offset and size does not wrap
and there are clusters for all of the data. -/
theorem FileOn.writeSound_iff (hg : g.Valid) (h : FileOn g v node ch) (hdir : Chain g v.fat node.parentCluster dch)
    (hapart : ∀ d ∈ dch, d ∉ ch) (hnode : node.size < 2 ^ 32) (hlen : data.length < 2 ^ 32) : WriteSound g v node offset data ↔
      g.readOnly = true ∨ v.room g ch * g.clusterSize ≤ offset ∨ ((∃ o, entryScan g v node.name dch = .ok o) ∧
        (2 ^ 31 ≤ min data.length (v.room g ch * g.clusterSize - offset) ∨
          (offset + data.length < 2 ^ 32 ∧ offset + data.length ≤ v.room g ch * g.clusterSize))) := by
  cases hro : g.readOnly with
  | true =>
    refine ⟨fun _ => .inl rfl, fun _ => ⟨-1, node, v, ?_, .inl (by decide)⟩⟩
    unfold fat32Write
    rw [h.file, hro]
    rfl
  | false =>
    obtain ⟨hout, hin⟩ := h.run_write hg hdir hapart hro offset data
    obtain ⟨cap, hcap⟩ : ∃ cap, v.room g ch * g.clusterSize = cap := ⟨_, rfl⟩
    rw [hcap] at hout hin
    rw [hcap]
    by_cases hle : cap ≤ offset
    · obtain ⟨node', v', hrun⟩ := hout hle
      exact ⟨fun _ => .inr (.inl hle), fun _ => ⟨-1, node', v', hrun, .inl (by decide)⟩⟩
    obtain ⟨herror, hok⟩ := hin (Nat.lt_of_not_le hle)
    have hcases : ∀ {P : Prop}, (false = true ∨ cap ≤ offset ∨ P) ↔ P := by simp [hle]
    rw [hcases]
    cases hscan : entryScan g v node.name dch with
    | error e =>
      constructor
      · rintro ⟨r, node', v', hrun, -⟩
        exact absurd ((herror e hscan).symm.trans hrun) nofun
      · rintro ⟨⟨o, ho⟩, -⟩
        cases ho
    | ok o =>
      obtain ⟨node', v', ch', hrun, hwrote⟩ := hok o hscan
      have hsize : node'.size = grownSize node offset data.length := by rw [hwrote.same]
      have hchain := hwrote.beside.file
      have hwhole : ch'.length * g.clusterSize ≤ cap := hcap ▸ Nat.mul_le_mul_right _ (by
        rw [← hwrote.room]
        exact Nat.le_add_right _ _)
      have hgrown : offset + data.length ≤ grownSize node offset data.length ↔ offset + data.length < 2 ^ 32 := by
        unfold grownSize u32
        split <;> omega
      constructor
      · rintro ⟨r, node'', v'', hrun', hsound⟩
        rw [hrun] at hrun'
        cases hrun'
        refine ⟨⟨o, rfl⟩, ?_⟩
        rw [bmod_neg_iff (by omega), hsize, hgrown] at hsound
        rcases hsound with hneg | ⟨hsum, ch'', hchain', hlong, -⟩
        · exact .inl hneg
        · rw [hchain'.unique hg hchain] at hlong
          exact .inr ⟨hsum, Nat.le_trans hlong hwhole⟩
      · rintro ⟨-, hcond⟩
        refine ⟨_, node', v', hrun, ?_⟩
        rw [bmod_neg_iff (by omega), hsize, hgrown]
        rcases hcond with hneg | ⟨hsum, hfits⟩
        · exact .inl hneg
        · have hall : min data.length (cap - offset) = data.length := by omega
          rw [hall] at hwrote
          exact .inr ⟨hsum, ch', hchain, hwrote.covers, hwrote.bytes⟩

end Call

end Serotonin.Fat32
