import Mathlib.Tactic.Ring
import Serotonin.Fat32.Create

/-! `fat32_read`: the chain of a file is taken 128 clusters at a time, and neighbours in it are read at
once. -/

namespace Serotonin.Fat32

open List
open ByteMem (Mem u32 u32_of_lt int32 int32_of_lt int32_neg blit blit_inside blit_outside)
open Prog (run run_bind_ok)

variable (g : Geometry)

def fat32ResolveChain : Nat → Nat → FatM (List Nat)
  | 0, _ => return []
  | n + 1, cl =>
    if IsCluster cl then do
      let next ← readFatEntry cl
      let chain ← fat32ResolveChain n next
      return cl :: chain
    else return []

/-- How many of the clusters follow the first one directly, `n` at most. -/
def neighbours : Nat → Nat → List Nat → Nat
  | n + 1, prev, c :: cs => if c = prev + 1 then neighbours n c cs + 1 else 0
  | _, _, _ => 0

/-- `run_len`: the number of sectors has to fit in a byte. -/
def runLength (c : Nat) (cs : List Nat) : Nat := neighbours (max (255 / g.sectorsPerCluster) 1 - 1) c cs + 1

/-- The loop over a part of the chain, with `read_total` and the buffer as it leaves them. -/
def readRuns (size : Nat) : Nat → List Nat → Nat → Nat → Mem → FatM (Nat × Mem)
  | n + 1, c :: cs, readTotal, cofs, buffer =>
    if readTotal < size then do
      let runLen := runLength g c cs
      let runBytes := min (runLen * g.clusterSize - cofs) (size - readTotal)
      let totalSectors := runLen * g.sectorsPerCluster % 256
      let data ← blkcacheReadSectors (firstSector g c) totalSectors
      let buffer :=
        if cofs = 0 ∧ runBytes = runLen * g.clusterSize then blit buffer readTotal data 0 (totalSectors * 512)
        else blit buffer readTotal data cofs runBytes
      readRuns size n (cs.drop (runLen - 1)) (readTotal + runBytes) 0 buffer
    else return (readTotal, buffer)
  | _, _, readTotal, _, buffer => return (readTotal, buffer)

/-- A round reads a byte at least, so the size bounds the rounds. -/
def readLoop (size : Nat) : Nat → Nat → Nat → Nat → Mem → FatM (Nat × Mem)
  | 0, _, readTotal, _, buffer => return (readTotal, buffer)
  | n + 1, cur, readTotal, cofs, buffer =>
    if readTotal < size then do
      let chain ← fat32ResolveChain 128 cur
      match chain.getLast? with
      | none => return (readTotal, buffer)
      | some last => do
        let (readTotal, buffer) ← readRuns g size chain.length chain readTotal cofs buffer
        let cur ← readFatEntry last
        readLoop size n cur readTotal 0 buffer
    else return (readTotal, buffer)

/-- The walk to the cluster that has the offset. -/
def walkChain : Nat → Nat → FatM (Option Nat)
  | 0, c => return some c
  | n + 1, c => do
    let next ← readFatEntry c
    if IsCluster next then walkChain n next else return none

/-- The result, and the buffer. -/
def fat32Read (node : Node) (offset size : Nat) (buffer : Mem) : FatM (Int × Mem) :=
  if node.directory then return (-1, buffer)
  else if node.size ≤ offset then return (0, buffer)
  else do
    let size := if node.size < u32 (offset + size) then node.size - offset else size
    match ← walkChain (offset / g.clusterSize) node.cluster with
    | none => return (0, buffer)
    | some start => do
      let (readTotal, buffer) ← readLoop g size size start 0 (offset % g.clusterSize) buffer
      return (int32 readTotal, buffer)

variable {g} {v : Volume}

/-! ## Files -/

/-- A file with its clusters. One that has none begins with a number that is no cluster's. -/
structure FileOn (g : Geometry) (v : Volume) (node : Node) (ch : List Nat) : Prop where
  file : node.directory = false
  chain : (ch = [] ∧ node.cluster < 2 ∧ fat32ClusterEnd ≤ v.fat node.cluster) ∨ (ch ≠ [] ∧ Chain g v.fat node.cluster ch)

/-- The byte at a position of a chain. -/
def Volume.byteOf (g : Geometry) (v : Volume) (ch : List Nat) (k : Nat) : UInt8 :=
  v.cluster g (ch.getD (k / g.clusterSize) 0) (k % g.clusterSize)

/-- The buffer has `n` bytes of `f`, and is as it was behind them. -/
structure Filled (buffer : Mem) (f : Nat → UInt8) (n : Nat) (buffer' : Mem) : Prop where
  read : ∀ x, x < n → buffer' x = f x
  rest : ∀ x, n ≤ x → buffer' x = buffer x

theorem Geometry.Valid.clusterSize_pos (hg : g.Valid) : 0 < g.clusterSize := by
  rw [hg.clusterSize_eq]
  have hpos := hg.sectorsPerCluster.1
  omega

theorem Volume.byteOf_eq {ch : List Nat} {j y : Nat} (hy : y < g.clusterSize) :
    v.byteOf g ch (j * g.clusterSize + y) = v.cluster g (ch.getD j 0) y := by
  have hdiv : (j * g.clusterSize + y) / g.clusterSize = j := by
    rw [Nat.mul_comm, Nat.mul_add_div (by omega), Nat.div_eq_of_lt hy, Nat.add_zero]
  have hmod : (j * g.clusterSize + y) % g.clusterSize = y := by rw [Nat.mul_comm, Nat.mul_add_mod, Nat.mod_eq_of_lt hy]
  unfold Volume.byteOf
  rw [hdiv, hmod]

/-- The rest of a chain behind its first part. -/
theorem Chain.drop {fat : Nat → Nat} : ∀ {n c last : Nat} {cs : List Nat}, Chain g fat c cs → (cs.take n).getLast? = some last →
    Chain g fat (fat last) (cs.drop n)
  | 0, _, _, _, _, h => by cases h
  | n + 1, c, last, [], _, h => by cases h
  | n + 1, c, last, d :: cs, hch, h => by
    cases hch with
    | cons hc ht =>
      rw [take_succ_cons, List.getLast?_cons] at h
      cases hlast : (cs.take n).getLast? with
      | none =>
        rw [hlast] at h
        cases h
        have hnil := List.getLast?_eq_none_iff.mp hlast
        cases n with
        | zero => exact ht
        | succ n =>
          cases cs with
          | nil => exact ht
          | cons => cases hnil
      | some l =>
        rw [hlast] at h
        cases h
        exact ht.drop hlast

/-! ## Runs of neighbours -/

theorem run_resolveChain (hg : g.Valid) : ∀ {n c : Nat} {cs : List Nat}, Chain g v.fat c cs →
    run (onVolume g) (fat32ResolveChain n c) v = .ok (cs.take n, v)
  | 0, _, _, _ => rfl
  | n + 1, c, [], h => by
    cases h with
    | nil hend =>
      unfold fat32ResolveChain
      rw [if_neg fun hc => absurd hend (Nat.not_le.mpr hc.2)]
      rfl
  | n + 1, c, _ :: cs, h => by
    cases h with
    | cons hc ht =>
      unfold fat32ResolveChain
      rw [if_pos (hc.isCluster hg), run_bind_ok (run_readFatEntry hg hc), run_bind_ok (run_resolveChain hg ht)]
      rfl

theorem neighbours_spec : ∀ (n prev : Nat) (cs : List Nat), neighbours n prev cs ≤ cs.length ∧ neighbours n prev cs ≤ n ∧
    ∀ j, j < neighbours n prev cs → cs.getD j 0 = prev + 1 + j
  | 0, _, _ => ⟨Nat.zero_le _, Nat.le_refl _, fun j hj => absurd hj (Nat.not_lt_zero j)⟩
  | n + 1, _, [] => ⟨Nat.zero_le _, Nat.zero_le _, fun j hj => absurd hj (Nat.not_lt_zero j)⟩
  | n + 1, prev, c :: cs => by
    unfold neighbours
    split
    · next heq =>
      obtain ⟨hlen, hn, hrun⟩ := neighbours_spec n c cs
      refine ⟨Nat.succ_le_succ hlen, Nat.succ_le_succ hn, fun j hj => ?_⟩
      cases j with
      | zero => exact heq
      | succ j =>
        rw [getD_cons_succ, hrun j (Nat.lt_of_succ_lt_succ hj)]
        omega
    · exact ⟨Nat.zero_le _, Nat.zero_le _, fun j hj => absurd hj (Nat.not_lt_zero j)⟩

/-- A run is no longer than the rest of the chain, its clusters are numbered one after the other, and its
sectors are fewer than 256. -/
theorem runLength_spec (hg : g.Valid) (c : Nat) (cs : List Nat) : runLength g c cs ≤ (c :: cs).length ∧
    (∀ j, j < runLength g c cs → (c :: cs).getD j 0 = c + j) ∧ runLength g c cs * g.sectorsPerCluster < 256 := by
  obtain ⟨hlen, hn, hrun⟩ := neighbours_spec (max (255 / g.sectorsPerCluster) 1 - 1) c cs
  obtain ⟨hpos, hlt⟩ := hg.sectorsPerCluster
  refine ⟨Nat.succ_le_succ hlen, fun j hj => ?_, ?_⟩
  · cases j with
    | zero => rfl
    | succ j =>
      rw [getD_cons_succ, hrun j (Nat.lt_of_succ_lt_succ hj)]
      omega
  · have hle : runLength g c cs ≤ 255 / g.sectorsPerCluster := by
      have hone : 1 ≤ 255 / g.sectorsPerCluster := (Nat.one_le_div_iff hpos).mpr (by omega)
      unfold runLength
      omega
    have hmul := Nat.mul_le_mul_right g.sectorsPerCluster hle
    have hdiv := Nat.div_mul_le_self 255 g.sectorsPerCluster
    omega

/-- Neighbours in number are neighbours on the device. -/
theorem neighbour_byte (hg : g.Valid) {c j y : Nat} (hc : HasData g c) (hj : HasData g (c + j)) (hy : y < g.clusterSize) :
    v.disk (firstSector g c * 512 + (j * g.clusterSize + y)) = v.cluster g (c + j) y := by
  have h2 := hc.1
  have hsplit : c + j - 2 = c - 2 + j := by omega
  have hplace : firstSector g c * 512 + (j * g.clusterSize + y) = firstSector g (c + j) * 512 + y := by
    rw [(hc.firstSector hg).1, (hj.firstSector hg).1, hsplit, hg.clusterSize_eq]
    ring
  rw [Volume.cluster_apply _ _ hy, hplace]

theorem readRuns_done {size n readTotal cofs : Nat} {cs : List Nat} {buffer : Mem} (h : size ≤ readTotal) :
    run (onVolume g) (readRuns g size n cs readTotal cofs buffer) v = .ok ((readTotal, buffer), v) := by
  cases n with
  | zero => rfl
  | succ n =>
    cases cs with
    | nil => rfl
    | cons c cs =>
      unfold readRuns
      rw [if_neg (Nat.not_lt.mpr h)]
      rfl

/-- The next bytes, out of what was read from the device. -/
theorem Filled.blit {buffer buffer' data : Mem} {f : Nat → UInt8} {n cofs count : Nat} (h : Filled buffer f n buffer')
    (hdata : ∀ x, x < count → data (cofs + x) = f (n + x)) :
    Filled buffer f (n + count) (ByteMem.blit buffer' n data cofs count) := by
  refine ⟨fun x hx => ?_, fun x hx => ?_⟩
  · by_cases hlo : x < n
    · rw [blit_outside (.inl hlo)]
      exact h.read x hlo
    · rw [blit_inside (Nat.le_of_not_lt hlo) hx, hdata _ (by omega), Nat.add_sub_cancel' (Nat.le_of_not_lt hlo)]
  · rw [blit_outside (.inr hx)]
    exact h.rest x (by omega)

/-- The clusters of the list have the bytes of `f`, which begin at `offset`; the first one is number `i`. -/
def BytesOf (g : Geometry) (v : Volume) (offset : Nat) (f : Nat → UInt8) (i : Nat) (cs : List Nat) : Prop :=
  ∀ j y x, j < cs.length → y < g.clusterSize → offset + x = (i + j) * g.clusterSize + y → f x = v.cluster g (cs.getD j 0) y

theorem BytesOf.drop {offset i : Nat} {f : Nat → UInt8} {cs : List Nat} (h : BytesOf g v offset f i cs) (n : Nat) :
    BytesOf g v offset f (i + n) (cs.drop n) := by
  intro j y x hj hy hx
  rw [length_drop] at hj
  rw [getD_eq_getElem?_getD, List.getElem?_drop, ← getD_eq_getElem?_getD]
  exact h (n + j) y x (by omega) hy (by rw [hx, Nat.add_assoc])

theorem BytesOf.take {offset i : Nat} {f : Nat → UInt8} {cs : List Nat} (h : BytesOf g v offset f i cs) (n : Nat) :
    BytesOf g v offset f i (cs.take n) := by
  intro j y x hj hy hx
  rw [length_take] at hj
  rw [getD_eq_getElem?_getD, List.getElem?_take_of_lt (by omega), ← getD_eq_getElem?_getD]
  exact h j y x (by omega) hy hx

/-- Behind the first part, which may be all of the list. -/
theorem BytesOf.behind {offset i : Nat} {f : Nat → UInt8} {cs : List Nat} (h : BytesOf g v offset f i cs) (n : Nat) :
    BytesOf g v offset f (i + (cs.take n).length) (cs.drop n) := by
  rw [length_take]
  rcases Nat.le_total n cs.length with hle | hle
  · rw [Nat.min_eq_left hle]
    exact h.drop n
  · rw [drop_eq_nil_of_le hle]
    exact fun j _ _ hj => absurd hj (Nat.not_lt_zero j)

/-- A run of neighbours has the bytes of its clusters. -/
theorem BytesOf.run (hg : g.Valid) {offset i c x y : Nat} {f : Nat → UInt8} {cs : List Nat} (h : BytesOf g v offset f i (c :: cs))
    (hdata : ∀ d ∈ c :: cs, HasData g d) (hy : y < runLength g c cs * g.clusterSize) (hx : offset + x = i * g.clusterSize + y) :
    v.disk (firstSector g c * 512 + y) = f x := by
  have hpos := hg.clusterSize_pos
  obtain ⟨hlen, hrun, -⟩ := runLength_spec hg c cs
  have hdiv : y / g.clusterSize < runLength g c cs := Nat.div_lt_of_lt_mul (by rwa [Nat.mul_comm])
  have hmod := Nat.mod_lt y hpos
  have hy' : y = y / g.clusterSize * g.clusterSize + y % g.clusterSize := by rw [Nat.mul_comm]; exact (Nat.div_add_mod y _).symm
  have hd : HasData g (c + y / g.clusterSize) := by
    rw [← hrun _ hdiv]
    have hin := Nat.lt_of_lt_of_le hdiv hlen
    rw [getD_eq_getElem?_getD, List.getElem?_eq_getElem hin, Option.getD_some]
    exact hdata _ (getElem_mem hin)
  rw [h _ _ x (Nat.lt_of_lt_of_le hdiv hlen) hmod (by rw [hx, Nat.add_mul, Nat.add_assoc, ← hy']), hrun _ hdiv]
  conv_lhs => rw [hy']
  exact neighbour_byte hg (hdata c mem_cons_self) hd hmod

/-- The loop reads up to the size, or to the end of the list. -/
theorem run_readRuns (hg : g.Valid) (size : Nat) {offset : Nat} {f : Nat → UInt8} {buffer : Mem} :
    ∀ (n i readTotal cofs : Nat) (cs : List Nat) (buffer' : Mem), cs.length ≤ n → (∀ d ∈ cs, HasData g d) →
      BytesOf g v offset f i cs → offset + readTotal = i * g.clusterSize + cofs → cofs < g.clusterSize →
      Filled buffer f readTotal buffer' →
      ∃ buffer'', Filled buffer f (max readTotal (min size ((i + cs.length) * g.clusterSize - offset))) buffer'' ∧
        run (onVolume g) (readRuns g size n cs readTotal cofs buffer') v =
          .ok ((max readTotal (min size ((i + cs.length) * g.clusterSize - offset)), buffer''), v)
  | n, i, readTotal, cofs, [], buffer', _, _, _, hpos, _, hfill => by
    have hmax : max readTotal (min size ((i + ([] : List Nat).length) * g.clusterSize - offset)) = readTotal := by
      rw [length_nil, Nat.add_zero]
      omega
    rw [hmax]
    refine ⟨buffer', hfill, ?_⟩
    cases n <;> rfl
  | 0, _, _, _, _ :: _, _, hn, _, _, _, _, _ => absurd hn (Nat.not_succ_le_zero _)
  | n + 1, i, readTotal, cofs, c :: cs, buffer', hn, hdata, hbytes, hpos, hcofs, hfill => by
    by_cases hmore : readTotal < size
    · obtain ⟨hlen, -, hsectors⟩ := runLength_spec hg c cs
      have hrun1 : 1 ≤ runLength g c cs := Nat.succ_le_succ (Nat.zero_le _)
      have hsec := ((hdata c mem_cons_self).firstSector hg).1
      have hmul := Nat.mul_le_mul_right g.clusterSize hlen
      have hone := Nat.mul_le_mul_right g.clusterSize hrun1
      rw [Nat.one_mul] at hone
      -- what this round reads, with the number of its bytes in the shape that the code has
      obtain ⟨count, hcount⟩ : ∃ count, min (runLength g c cs * g.clusterSize - cofs) (size - readTotal) = count := ⟨_, rfl⟩
      have hread : Filled buffer f (readTotal + count)
          (blit buffer' readTotal (fun x => v.disk (firstSector g c * 512 + x)) cofs count) :=
        hfill.blit fun x hx => hbytes.run hg hdata (by omega) (by omega)
      have htotal : runLength g c cs * g.sectorsPerCluster % 256 = runLength g c cs * g.sectorsPerCluster :=
        Nat.mod_eq_of_lt hsectors
      have hsize : runLength g c cs * g.sectorsPerCluster * 512 = runLength g c cs * g.clusterSize := by
        rw [hg.clusterSize_eq, Nat.mul_assoc]
      have hbuffer : (if cofs = 0 ∧ count = runLength g c cs * g.clusterSize then
            blit buffer' readTotal (fun x => v.disk (firstSector g c * 512 + x)) 0 (runLength g c cs * g.sectorsPerCluster * 512)
          else blit buffer' readTotal (fun x => v.disk (firstSector g c * 512 + x)) cofs count) =
          blit buffer' readTotal (fun x => v.disk (firstSector g c * 512 + x)) cofs count := by
        split
        · next h => rw [hsize, ← h.2, h.1]
        · rfl
      unfold readRuns
      rw [if_pos hmore]
      dsimp only
      rw [htotal, hcount, run_bind_ok (run_readSectors (by omega) _), hbuffer]
      obtain ⟨total, htotal⟩ : ∃ total, (i + (c :: cs).length) * g.clusterSize = total := ⟨_, rfl⟩
      rw [Nat.add_mul] at htotal
      by_cases hdone : size - readTotal ≤ runLength g c cs * g.clusterSize - cofs
      · have hall : readTotal + count = size := by omega
        have hmax : max readTotal (min size ((i + (c :: cs).length) * g.clusterSize - offset)) = size := by
          rw [Nat.add_mul, htotal]
          omega
        rw [hall] at hread
        rw [hmax, hall, readRuns_done (Nat.le_refl _)]
        exact ⟨_, hread, rfl⟩
      · have hnext : offset + (readTotal + count) = (i + runLength g c cs) * g.clusterSize + 0 := by
          rw [Nat.add_mul]
          omega
        have hrest : cs.drop (runLength g c cs - 1) = (c :: cs).drop (runLength g c cs) := by
          obtain ⟨m, hm⟩ : ∃ m, runLength g c cs = m + 1 := ⟨runLength g c cs - 1, by omega⟩
          rw [hm]
          rfl
        have hlen' : ((c :: cs).drop (runLength g c cs)).length = (c :: cs).length - runLength g c cs := length_drop
        have hend : i + runLength g c cs + ((c :: cs).drop (runLength g c cs)).length = i + (c :: cs).length := by
          rw [hlen', Nat.add_assoc, Nat.add_sub_cancel' hlen]
        obtain ⟨buffer'', hfill', hrun⟩ := run_readRuns hg size n _ _ 0 _ _ (by rw [hlen']; simp only [length_cons] at hn ⊢; omega)
          (fun d hd => hdata d (mem_of_mem_drop hd)) (hbytes.drop _) hnext hg.clusterSize_pos hread
        have hmax : max (readTotal + count) (min size ((i + (c :: cs).length) * g.clusterSize - offset)) =
            max readTotal (min size ((i + (c :: cs).length) * g.clusterSize - offset)) := by
          rw [Nat.add_mul, htotal]
          omega
        rw [hend, hmax] at hfill' hrun
        rw [hrest]
        exact ⟨buffer'', hfill', hrun⟩
    · have hmax : max readTotal (min size ((i + (c :: cs).length) * g.clusterSize - offset)) = readTotal := by omega
      rw [hmax, readRuns_done (Nat.le_of_not_lt hmore)]
      exact ⟨buffer', hfill, rfl⟩

theorem readLoop_done {size n cur readTotal cofs : Nat} {buffer : Mem} (h : size ≤ readTotal) :
    run (onVolume g) (readLoop g size n cur readTotal cofs buffer) v = .ok ((readTotal, buffer), v) := by
  cases n with
  | zero => rfl
  | succ n =>
    unfold readLoop
    rw [if_neg (Nat.not_lt.mpr h)]
    rfl

/-- All rounds read up to the size, or to the end of the chain. -/
theorem run_readLoop (hg : g.Valid) (size : Nat) {offset : Nat} {f : Nat → UInt8} {buffer : Mem} :
    ∀ (n i cur readTotal cofs : Nat) (suf : List Nat) (buffer' : Mem), size ≤ readTotal + n → Chain g v.fat cur suf →
      BytesOf g v offset f i suf → offset + readTotal = i * g.clusterSize + cofs → cofs < g.clusterSize →
      Filled buffer f readTotal buffer' →
      ∃ buffer'', Filled buffer f (max readTotal (min size ((i + suf.length) * g.clusterSize - offset))) buffer'' ∧
        run (onVolume g) (readLoop g size n cur readTotal cofs buffer') v =
          .ok ((max readTotal (min size ((i + suf.length) * g.clusterSize - offset)), buffer''), v)
  | n, i, cur, readTotal, cofs, suf, buffer', hn, hch, hbytes, hpos, hcofs, hfill => by
    by_cases hmore : readTotal < size
    · obtain ⟨n, rfl⟩ : ∃ m, n = m + 1 := ⟨n - 1, by omega⟩
      unfold readLoop
      rw [if_pos hmore, run_bind_ok (run_resolveChain hg hch)]
      cases hlast : (suf.take 128).getLast? with
      | none =>
        have hnil : suf = [] := by
          cases suf with
          | nil => rfl
          | cons => exact absurd (List.getLast?_eq_none_iff.mp hlast) nofun
        subst hnil
        have hmax : max readTotal (min size ((i + ([] : List Nat).length) * g.clusterSize - offset)) = readTotal := by
          rw [length_nil, Nat.add_zero]
          omega
        rw [hmax]
        exact ⟨buffer', hfill, rfl⟩
      | some last =>
        have hmem : last ∈ suf := mem_of_mem_take (mem_of_getLast? hlast)
        obtain ⟨buffer₁, hfill₁, hrun₁⟩ := run_readRuns hg size (suf.take 128).length i readTotal cofs (suf.take 128) buffer'
          (Nat.le_refl _) (fun d hd => hch.hasData d (mem_of_mem_take hd)) (hbytes.take 128) hpos hcofs hfill
        dsimp only
        rw [run_bind_ok hrun₁]
        dsimp only
        rw [run_bind_ok (run_readFatEntry hg (hch.hasData last hmem))]
        have hsome : 1 ≤ (suf.take 128).length := length_pos_iff.mpr fun hnil => by
          rw [hnil] at hlast
          cases hlast
        have hlen : (suf.take 128).length + (suf.drop 128).length = suf.length := by
          rw [← length_append, take_append_drop]
        have hone := Nat.mul_le_mul_right g.clusterSize hsome
        have hsub : (i + (suf.take 128).length) * g.clusterSize ≤ (i + suf.length) * g.clusterSize :=
          Nat.mul_le_mul_right _ (by omega)
        have hmid : (i + (suf.take 128).length) * g.clusterSize = i * g.clusterSize + (suf.take 128).length * g.clusterSize :=
          Nat.add_mul ..
        by_cases hdone : size ≤ (i + (suf.take 128).length) * g.clusterSize - offset
        · have hmax₁ : max readTotal (min size ((i + (suf.take 128).length) * g.clusterSize - offset)) = size := by omega
          have hmax : max readTotal (min size ((i + suf.length) * g.clusterSize - offset)) = size := by omega
          rw [hmax₁] at hfill₁ ⊢
          rw [hmax, readLoop_done (Nat.le_refl _)]
          exact ⟨buffer₁, hfill₁, rfl⟩
        · have hmax₁ : max readTotal (min size ((i + (suf.take 128).length) * g.clusterSize - offset)) =
              (i + (suf.take 128).length) * g.clusterSize - offset := by omega
          rw [hmax₁] at hfill₁ ⊢
          obtain ⟨buffer'', hfill', hrun⟩ := run_readLoop hg size n (i + (suf.take 128).length) _
            ((i + (suf.take 128).length) * g.clusterSize - offset) 0 _ buffer₁ (by omega) (hch.drop hlast)
            (hbytes.behind 128) (by omega) hg.clusterSize_pos hfill₁
          have hend : i + (suf.take 128).length + (suf.drop 128).length = i + suf.length := by omega
          have hmax : max ((i + (suf.take 128).length) * g.clusterSize - offset) (min size ((i + suf.length) * g.clusterSize - offset)) =
              max readTotal (min size ((i + suf.length) * g.clusterSize - offset)) := by omega
          rw [hend, hmax] at hfill' hrun
          exact ⟨buffer'', hfill', hrun⟩
    · have hmax : max readTotal (min size ((i + suf.length) * g.clusterSize - offset)) = readTotal := by omega
      rw [hmax, readLoop_done (Nat.le_of_not_lt hmore)]
      exact ⟨buffer', hfill, rfl⟩

/-! ## The read -/

theorem run_walkChain (hg : g.Valid) : ∀ (k c : Nat) (cs : List Nat), Chain g v.fat c cs → cs ≠ [] →
    (k < cs.length → ∃ d, run (onVolume g) (walkChain k c) v = .ok (some d, v) ∧ Chain g v.fat d (cs.drop k)) ∧
      (cs.length ≤ k → run (onVolume g) (walkChain k c) v = .ok (none, v))
  | _, _, [], _, hne => absurd rfl hne
  | 0, c, _ :: _, h, _ => ⟨fun _ => ⟨c, rfl, h⟩, fun hle => absurd hle (Nat.not_succ_le_zero _)⟩
  | k + 1, c, _ :: cs, h, _ => by
    cases h with
    | cons hc ht =>
      unfold walkChain
      rw [run_bind_ok (run_readFatEntry hg hc)]
      cases ht with
      | nil hend =>
        rw [if_neg fun hin => absurd hend (Nat.not_le.mpr hin.2)]
        exact ⟨fun hlt => absurd hlt (by simp), fun _ => rfl⟩
      | cons hd ht =>
        rw [if_pos (hd.isCluster hg)]
        obtain ⟨hin, hout⟩ := run_walkChain hg k _ _ (.cons hd ht) nofun
        exact ⟨fun hlt => hin (Nat.lt_of_succ_lt_succ hlt), fun hle => hout (Nat.le_of_succ_le_succ hle)⟩

/-- The number of bytes that `fat32_read` goes for. -/
def readSize (node : Node) (offset size : Nat) : Nat := if node.size < u32 (offset + size) then node.size - offset else size

/-- The bytes that are read begin at the offset, and end where the chain does at the latest. -/
theorem FileOn.run_read (hg : g.Valid) {node : Node} {ch : List Nat} (h : FileOn g v node ch) {offset : Nat} (size : Nat)
    (hin : offset < node.size) (buffer : Mem) : ∃ buffer',
      Filled buffer (fun x => v.byteOf g ch (offset + x)) (min (readSize node offset size) (ch.length * g.clusterSize - offset))
        buffer' ∧
      run (onVolume g) (fat32Read g node offset size buffer) v =
        .ok ((int32 (min (readSize node offset size) (ch.length * g.clusterSize - offset)), buffer'), v) := by
  have hpos := hg.clusterSize_pos
  have hoffset : offset / g.clusterSize * g.clusterSize + offset % g.clusterSize = offset := by
    rw [Nat.mul_comm]
    exact Nat.div_add_mod offset _
  have hnothing : ch.length ≤ offset / g.clusterSize →
      min (readSize node offset size) (ch.length * g.clusterSize - offset) = 0 := by
    intro hle
    have hmul := Nat.mul_le_mul_right g.clusterSize hle
    omega
  unfold fat32Read
  rw [h.file, if_neg Bool.false_ne_true, if_neg (Nat.not_le.mpr hin)]
  dsimp only
  rw [show (if node.size < u32 (offset + size) then node.size - offset else size) = readSize node offset size from rfl]
  obtain ⟨rfl, hlow, hend⟩ | ⟨hne, hch⟩ := h.chain
  · refine ⟨buffer, ?_⟩
    rw [hnothing (Nat.zero_le _)]
    refine ⟨⟨fun x hx => absurd hx (Nat.not_lt_zero x), fun _ _ => rfl⟩, ?_⟩
    cases offset / g.clusterSize with
    | zero =>
      rw [walkChain, run_bind_ok (Prog.run_pure _ _)]
      dsimp only
      have hnone : ∀ n, run (onVolume g) (fat32ResolveChain n node.cluster) v = .ok ([], v) := by
        intro n
        cases n with
        | zero => rfl
        | succ n =>
          rw [fat32ResolveChain, if_neg fun hc => absurd hc.1 (Nat.not_le.mpr hlow)]
          rfl
      have hloop : ∀ n, run (onVolume g) (readLoop g (readSize node offset size) n node.cluster 0 (offset % g.clusterSize) buffer) v =
          .ok ((0, buffer), v) := by
        intro n
        cases n with
        | zero => rfl
        | succ n =>
          unfold readLoop
          split
          · rw [run_bind_ok (hnone 128)]
            rfl
          · rfl
      rw [run_bind_ok (hloop _)]
      rfl
    | succ k =>
      have hfat : InFat g node.cluster := by
        have hsize := hg.fatSize
        exact ⟨by omega, by omega⟩
      have hread : run (onVolume g) (readFatEntry node.cluster) v = .ok (v.fat node.cluster, v) :=
        (Prog.run_perform (h := onVolume g) (Op.readFatEntry node.cluster) v).trans (if_pos hfat)
      have hwalk : run (onVolume g) (walkChain (k + 1) node.cluster) v = .ok (none, v) := by
        unfold walkChain
        rw [run_bind_ok hread, if_neg fun hc => absurd hend (Nat.not_le.mpr hc.2)]
        rfl
      rw [run_bind_ok hwalk]
      rfl
  · obtain ⟨hwalk, hgone⟩ := run_walkChain hg (offset / g.clusterSize) node.cluster ch hch hne
    by_cases hlt : offset / g.clusterSize < ch.length
    · obtain ⟨start, hrun, hsuf⟩ := hwalk hlt
      have hbytes : BytesOf g v offset (fun x => v.byteOf g ch (offset + x)) 0 ch := by
        intro j y x _ hy hx
        rw [Nat.zero_add] at hx
        dsimp only
        rw [hx, Volume.byteOf_eq hy]
      obtain ⟨buffer', hfill, hloop⟩ := run_readLoop hg (readSize node offset size) (readSize node offset size)
        (offset / g.clusterSize) start 0 (offset % g.clusterSize) _ buffer (by omega) hsuf
        (by simpa only [Nat.zero_add] using hbytes.drop (offset / g.clusterSize)) (by omega) (Nat.mod_lt _ hpos)
        ⟨fun x hx => absurd hx (Nat.not_lt_zero x), fun _ _ => rfl⟩
      have hend : offset / g.clusterSize + (ch.drop (offset / g.clusterSize)).length = ch.length := by
        rw [length_drop]
        omega
      rw [hend, Nat.zero_max] at hfill hloop
      refine ⟨buffer', hfill, ?_⟩
      rw [run_bind_ok hrun]
      dsimp only
      rw [run_bind_ok hloop]
      rfl
    · refine ⟨buffer, ?_⟩
      rw [hnothing (Nat.le_of_not_lt hlt)]
      refine ⟨⟨fun x hx => absurd hx (Nat.not_lt_zero x), fun _ _ => rfl⟩, ?_⟩
      rw [run_bind_ok (hgone (Nat.le_of_not_lt hlt))]
      rfl

/-- What a read is to give: the bytes from the offset on, as many as are asked for and the file has, and
nothing behind them in the buffer. -/
def ReadExact (g : Geometry) (v : Volume) (node : Node) (ch : List Nat) (offset size : Nat) : Prop :=
  ∀ buffer, ∃ buffer', Filled buffer (fun x => v.byteOf g ch (offset + x)) (min size (node.size - offset)) buffer' ∧
    run (onVolume g) (fat32Read g node offset size buffer) v = .ok (((min size (node.size - offset) : Nat), buffer'), v)

theorem int32_eq_natCast {n m : Nat} (hn : n < 2 ^ 32) : int32 n = m ↔ n = m ∧ n < 2 ^ 31 := by
  unfold int32
  split <;> omega

/-- A read behind the end, or of no bytes, is exact. Any other one is if it is not too long for an `int`
and the chain has all its bytes; where the sum of offset and size wraps it goes on to the end of the
chain, which has to be that of the file. -/
theorem FileOn.readExact_iff (hg : g.Valid) {node : Node} {ch : List Nat} (h : FileOn g v node ch) (hnode : node.size < 2 ^ 32)
    {offset size : Nat} (hoffset : offset < 2 ^ 32) (hsize : size < 2 ^ 32) : ReadExact g v node ch offset size ↔
      node.size ≤ offset ∨ size = 0 ∨ (min size (node.size - offset) < 2 ^ 31 ∧
        ((offset + size < 2 ^ 32 ∧ offset + min size (node.size - offset) ≤ ch.length * g.clusterSize) ∨
          (2 ^ 32 ≤ offset + size ∧ node.size = ch.length * g.clusterSize))) := by
  by_cases hend : node.size ≤ offset
  · refine ⟨fun _ => .inl hend, fun _ buffer => ⟨buffer, ?_⟩⟩
    have hzero : min size (node.size - offset) = 0 := by omega
    rw [hzero]
    refine ⟨⟨fun x hx => absurd hx (Nat.not_lt_zero x), fun _ _ => rfl⟩, ?_⟩
    unfold fat32Read
    rw [h.file, if_neg Bool.false_ne_true, if_pos hend]
    rfl
  · have hin : offset < node.size := Nat.lt_of_not_le hend
    obtain ⟨count, hcount⟩ : ∃ count, min (readSize node offset size) (ch.length * g.clusterSize - offset) = count := ⟨_, rfl⟩
    have hread := fun buffer => h.run_read hg size hin buffer
    rw [hcount] at hread
    have hsmall : readSize node offset size < 2 ^ 32 := by
      unfold readSize
      split <;> omega
    have hexact : ReadExact g v node ch offset size ↔ count = min size (node.size - offset) ∧ count < 2 ^ 31 := by
      rw [← int32_eq_natCast (by omega)]
      constructor
      · intro hall
        obtain ⟨_, -, hrun⟩ := hall fun _ => 0
        obtain ⟨_, -, hrun'⟩ := hread fun _ => 0
        rw [hrun] at hrun'
        simp only [Except.ok.injEq, Prod.mk.injEq] at hrun'
        exact hrun'.1.1.symm
      · intro heq buffer
        obtain ⟨buffer', hfill, hrun⟩ := hread buffer
        rw [heq] at hrun
        rw [((int32_eq_natCast (by omega)).mp heq).1] at hfill
        exact ⟨buffer', hfill, hrun⟩
    rw [hexact, ← hcount]
    unfold readSize u32
    split <;> omega

end Serotonin.Fat32
