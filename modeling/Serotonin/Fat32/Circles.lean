import Mathlib.Data.Finset.Card
import Mathlib.Order.Interval.Finset.Nat
import Serotonin.Fat32.Create
import Serotonin.Lib.Rounds

/-! Loops over the clusters of a directory, on an image with anything in its FAT. They follow the FAT
until an end mark or an entry that ends the search, and go round in circles if there is neither. -/

namespace Serotonin.Fat32

open Function
open ByteMem (Mem)
open Prog (Ends Steady ends_bind ends_const steady_const)
open Round (scan scan_append scan_next_iff)

variable {g : Geometry} {v : Volume}

/-! ## Along the FAT -/

/-- The number that is reached after `k` steps. -/
def along (fat : Nat → Nat) (c : Nat) : Nat → Nat
  | 0 => c
  | k + 1 => along fat (fat c) k

variable (g) in
/-- What a scan sees of a cluster. -/
def slotsAt (v : Volume) (c : Nat) : List Slot := slotsFrom c (v.look g c) 0 g.perCluster

variable (g) in
/-- What a scan sees of the first `k` clusters. -/
def slotsAlong (v : Volume) (c : Nat) : Nat → List Slot
  | 0 => []
  | k + 1 => slotsAt g v c ++ slotsAlong v (v.fat c) k

/-- No end mark among the first `k`. -/
def OpenFor (v : Volume) (c k : Nat) : Prop := ∀ j < k, along v.fat c j < fat32ClusterEnd

theorem openFor_zero (v : Volume) (c : Nat) : OpenFor v c 0 := fun _ h => absurd h (Nat.not_lt_zero _)

theorem openFor_succ {c k : Nat} : OpenFor v c (k + 1) ↔ c < fat32ClusterEnd ∧ OpenFor v (v.fat c) k := by
  constructor
  · intro h
    exact ⟨h 0 (Nat.succ_pos k), fun j hj => h (j + 1) (Nat.succ_lt_succ hj)⟩
  · rintro ⟨h0, h⟩ j hj
    cases j with
    | zero => exact h0
    | succ j => exact h j (Nat.lt_of_succ_lt_succ hj)

theorem mem_slotsAlong {x : Slot} : ∀ {k : Nat} {c : Nat}, x ∈ slotsAlong g v c k ↔ ∃ j < k, x ∈ slotsAt g v (along v.fat c j)
  | 0, c => by simp [slotsAlong]
  | k + 1, c => by
    rw [slotsAlong, List.mem_append, mem_slotsAlong]
    constructor
    · rintro (hx | ⟨j, hj, hx⟩)
      · exact ⟨0, Nat.succ_pos k, hx⟩
      · exact ⟨j + 1, Nat.succ_lt_succ hj, hx⟩
    · rintro ⟨j, hj, hx⟩
      cases j with
      | zero => exact .inl hx
      | succ j => exact .inr ⟨j, Nat.lt_of_succ_lt_succ hj, hx⟩

/-! ## The loops -/

section Loop

variable {α ρ σ : Type} {P : Nat → Nat → σ → FatM α} {step : σ → Slot → Round ρ σ}
  {fin : Volume → ρ → Except Stop (α × Volume)} {eof : Volume → σ → Except Stop (α × Volume)}

variable (g) in
/-- A loop that looks at every entry of a cluster with `step`, and then goes to the next cluster. -/
structure IsLoop (P : Nat → Nat → σ → FatM α) (step : σ → Slot → Round ρ σ) (fin : Volume → ρ → Except Stop (α × Volume))
    (eof : Volume → σ → Except Stop (α × Volume)) : Prop where
  zero : ∀ c s, P 0 c s = .halt .diverges
  succ : ∀ v n c s, Prog.run onImage (P (n + 1) c s) v =
    if c < fat32ClusterEnd then
      match scan step s (slotsAt g v c) with
      | .done r => fin v r
      | .next s => Prog.run onImage (P n (v.fat c) s) v
    else eof v s

theorem IsLoop.steady (h : IsLoop g P step fin eof) (c : Nat) (s : σ) : Steady onImage fun n => P n c s := by
  intro n
  induction n generalizing c s with
  | zero =>
    intro v a t hrun
    dsimp only at hrun
    rw [h.zero] at hrun
    cases hrun
  | succ n ih =>
    intro v a t hrun
    dsimp only at hrun ⊢
    rw [h.succ] at hrun ⊢
    split
    · next hc =>
      rw [if_pos hc] at hrun
      cases hs : scan step s (slotsAt g v c) with
      | done r => rwa [hs] at hrun
      | next s' =>
        rw [hs] at hrun
        exact ih _ _ _ _ _ hrun
    · next hc => rwa [if_neg hc] at hrun

/-- The loop is done among the entries of the first clusters, or comes to an end mark behind them. -/
def LoopEnds (g : Geometry) (step : σ → Slot → Round ρ σ) (fin : Volume → ρ → Except Stop (α × Volume))
    (eof : Volume → σ → Except Stop (α × Volume)) (v : Volume) (c : Nat) (s : σ) (a : α) (t : Volume) : Prop :=
  ∃ k, OpenFor v c k ∧ match scan step s (slotsAlong g v c k) with
    | .done r => fin v r = .ok (a, t)
    | .next s' => fat32ClusterEnd ≤ along v.fat c k ∧ eof v s' = .ok (a, t)

theorem IsLoop.ends_iff (h : IsLoop g P step fin eof) {c : Nat} {s : σ} {a : α} {t : Volume} :
    Ends onImage (fun n => P n c s) v a t ↔ LoopEnds g step fin eof v c s a t := by
  constructor
  · rintro ⟨n, hrun⟩
    induction n generalizing c s with
    | zero =>
      dsimp only at hrun
      rw [h.zero] at hrun
      cases hrun
    | succ n ih =>
      dsimp only at hrun
      rw [h.succ] at hrun
      split at hrun
      · next hc =>
        cases hs : scan step s (slotsAt g v c) with
        | done r =>
          rw [hs] at hrun
          refine ⟨1, openFor_succ.mpr ⟨hc, openFor_zero v _⟩, ?_⟩
          rw [slotsAlong, scan_append, hs]
          exact hrun
        | next s' =>
          rw [hs] at hrun
          obtain ⟨k, hopen, hk⟩ := ih hrun
          refine ⟨k + 1, openFor_succ.mpr ⟨hc, hopen⟩, ?_⟩
          rw [slotsAlong, scan_append, hs]
          exact hk
      · next hc => exact ⟨0, openFor_zero v c, Nat.not_lt.mp hc, hrun⟩
  · rintro ⟨k, hopen, hk⟩
    induction k generalizing c s with
    | zero =>
      have hc : ¬c < fat32ClusterEnd := Nat.not_lt.mpr hk.1
      refine ⟨1, ?_⟩
      dsimp only
      rw [h.succ, if_neg hc]
      exact hk.2
    | succ k ih =>
      obtain ⟨hc, hopen⟩ := openFor_succ.mp hopen
      rw [slotsAlong, scan_append] at hk
      cases hs : scan step s (slotsAt g v c) with
      | done r =>
        rw [hs] at hk
        refine ⟨1, ?_⟩
        dsimp only
        rw [h.succ, if_pos hc, hs]
        exact hk
      | next s' =>
        rw [hs] at hk
        obtain ⟨n, hrun⟩ := ih hopen hk
        refine ⟨n + 1, ?_⟩
        dsimp only
        rw [h.succ, if_pos hc, hs]
        exact hrun

end Loop

/-- Where the scan keeps no state, it ends where the chain does or where some entry on it ends it. -/
theorem loopEnds_stateless {α ρ : Type} {step : Unit → Slot → Round ρ Unit} (fin : ρ → α) (eof : α) (c : Nat) :
    (∃ a t, LoopEnds g step (fun v r => .ok (fin r, v)) (fun v _ => .ok (eof, v)) v c () a t) ↔
      ∃ k, fat32ClusterEnd ≤ along v.fat c k ∨ ∃ x ∈ slotsAt g v (along v.fat c k), step () x ≠ .next () := by
  constructor
  · rintro ⟨a, t, k, -, hk⟩
    cases hs : scan step () (slotsAlong g v c k) with
    | next s =>
      rw [hs] at hk
      exact ⟨k, .inl hk.1⟩
    | done r =>
      have hnot : ¬∀ x ∈ slotsAlong g v c k, step () x = .next () := by
        rw [← scan_next_iff, hs]
        nofun
      push Not at hnot
      obtain ⟨x, hx, hstep⟩ := hnot
      obtain ⟨j, -, hx⟩ := mem_slotsAlong.mp hx
      exact ⟨j, .inr ⟨x, hx, hstep⟩⟩
  · intro h
    classical
    -- the first cluster at which the loop ends
    obtain ⟨hk, hmin⟩ := And.intro (Nat.find_spec h) (fun j => Nat.find_min (H := h) (m := j))
    generalize Nat.find h = k at hk hmin
    have hopen : OpenFor v c k := fun j hj => Nat.lt_of_not_le fun hle => hmin j hj (.inl hle)
    have hbefore : scan step () (slotsAlong g v c k) = .next () := by
      rw [scan_next_iff]
      intro x hx
      obtain ⟨j, hj, hx⟩ := mem_slotsAlong.mp hx
      by_contra hne
      exact hmin j hj (.inr ⟨x, hx, hne⟩)
    by_cases hend : fat32ClusterEnd ≤ along v.fat c k
    · refine ⟨eof, v, k, hopen, ?_⟩
      rw [hbefore]
      exact ⟨hend, rfl⟩
    · obtain ⟨x, hx, hstep⟩ := hk.resolve_left hend
      have hopen' : OpenFor v c (k + 1) := by
        intro j hj
        rcases Nat.lt_succ_iff_lt_or_eq.mp hj with hj | rfl
        · exact hopen j hj
        · exact Nat.lt_of_not_le hend
      cases hs : scan step () (slotsAlong g v c (k + 1)) with
      | next s => exact absurd (scan_next_iff.mp hs x (mem_slotsAlong.mpr ⟨k, Nat.lt_succ_self k, hx⟩)) hstep
      | done r =>
        refine ⟨fin r, v, k + 1, hopen', ?_⟩
        rw [hs]

/-! ## Scans -/

/-- One entry of a scan for something. -/
def scanStep (sc : Scanner) (s : Nat × LfnState) (x : Slot) : Round (Except Stop (Option Hit)) (Nat × LfnState) :=
  let e := x.entry
  if e.first = 0 then .done (.ok none)
  else if e.first = 0xE5 then .next (s.1, s.2.reset)
  else if e.isLfn then
    match s.2.collect e with
    | none => .done (.error .overrun)
    | some st => .next (s.1, st)
  else if sc.skips e then .next (s.1, s.2.reset)
  else if sc.accept s.1 s.2 e then .done (.ok (some (x.hit s.2)))
  else .next (s.1 + 1, s.2.reset)

theorem scan_scanStep (sc : Scanner) (c : Nat) (buf : Mem) : ∀ n i count st,
    scan (scanStep sc) (count, st) (slotsFrom c buf i n) =
      match scanCluster sc buf i count st n with
      | .endMark => .done (.ok none)
      | .overrun => .done (.error .overrun)
      | .found j st => .done (.ok (some { cluster := c, buf := buf, index := j, state := st }))
      | .next count st => .next (count, st)
  | 0, _, _, _ => rfl
  | n + 1, i, count, st => by
    have ih := scan_scanStep sc c buf n (i + 1)
    have hentry : (Slot.mk c buf i).entry = entryAt buf i := rfl
    rw [slotsFrom_succ, scan, scanStep, scanCluster, hentry]
    dsimp only
    by_cases h0 : (entryAt buf i).first = 0
    · rw [if_pos h0, if_pos h0]
    rw [if_neg h0, if_neg h0]
    by_cases hdel : (entryAt buf i).first = 0xE5
    · rw [if_pos hdel, if_pos hdel]
      exact ih count st.reset
    rw [if_neg hdel, if_neg hdel]
    by_cases hlfn : (entryAt buf i).isLfn
    · rw [if_pos hlfn, if_pos hlfn]
      cases st.collect (entryAt buf i) with
      | none => rfl
      | some st' => exact ih count st'
    rw [if_neg hlfn, if_neg hlfn]
    have hskips : ((sc.skipVolumeId && (entryAt buf i).isVolumeId) || (sc.skipBlank && (entryAt buf i).first == 32)) =
      sc.skips (entryAt buf i) := rfl
    rw [hskips]
    cases sc.skips (entryAt buf i) with
    | true => exact ih count st.reset
    | false =>
      cases sc.accept count st (entryAt buf i) with
      | true => rfl
      | false => exact ih (count + 1) st.reset

theorem scanChain_isLoop (g : Geometry) (sc : Scanner) : IsLoop g (fun n c s => scanChain g sc n c s.1 s.2) (scanStep sc)
    (fun v r => r.map fun o => (o, v)) (fun v _ => .ok (none, v)) where
  zero _ _ := rfl
  succ v n c s := by
    rw [scanChain]
    split
    · rw [Prog.run_bind_ok (image_readCluster c _)]
      obtain ⟨count, st⟩ := s
      unfold slotsAt
      rw [scan_scanStep, Volume.look]
      cases scanCluster sc (v.read g c fun _ => 0) 0 count st g.perCluster with
      | endMark => rfl
      | overrun => rfl
      | found j st => rfl
      | next count st => exact Prog.run_bind_ok (image_readFatEntry c)
    · rfl

/-- The scan of a directory comes to its end: `none` at an end mark, or the entry that it looks for. -/
def ScanEnds (g : Geometry) (v : Volume) (sc : Scanner) (c : Nat) (o : Option Hit) : Prop :=
  ∃ k, OpenFor v c k ∧ match scan (scanStep sc) (0, .init) (slotsAlong g v c k) with
    | .done r => r = .ok o
    | .next _ => fat32ClusterEnd ≤ along v.fat c k ∧ o = none

theorem scanChain_ends {sc : Scanner} {c : Nat} {o : Option Hit} {t : Volume} :
    Ends onImage (fun n => scanChain g sc n c 0 .init) v o t ↔ ScanEnds g v sc c o ∧ t = v := by
  refine ((scanChain_isLoop g sc).ends_iff (s := (0, .init))).trans ?_
  constructor
  · rintro ⟨k, hopen, hk⟩
    cases hs : scan (scanStep sc) (0, .init) (slotsAlong g v c k) with
    | done r =>
      rw [hs] at hk
      cases r with
      | error e => cases hk
      | ok o' =>
        cases hk
        exact ⟨⟨k, hopen, by rw [hs]⟩, rfl⟩
    | next s =>
      rw [hs] at hk
      obtain ⟨hend, heof⟩ := hk
      cases heof
      exact ⟨⟨k, hopen, by rw [hs]; exact ⟨hend, rfl⟩⟩, rfl⟩
  · rintro ⟨⟨k, hopen, hk⟩, rfl⟩
    refine ⟨k, hopen, ?_⟩
    cases hs : scan (scanStep sc) (0, .init) (slotsAlong g t c k) with
    | done r =>
      rw [hs] at hk
      dsimp only at hk
      rw [hk]
      rfl
    | next s =>
      rw [hs] at hk
      exact ⟨hk.1, by rw [hk.2]⟩

theorem scanChain_steady (sc : Scanner) (c : Nat) : Steady onImage fun n => scanChain g sc n c 0 .init :=
  (scanChain_isLoop g sc).steady c (0, .init)

/-! ## Empty directories -/

def emptyStep (_ : Unit) (x : Slot) : Round Bool Unit :=
  let e := x.entry
  if e.first = 0 then .done true
  else if e.first = 0xE5 ∨ e.isVolumeId ∨ e.isLfn ∨ e.first = 32 then .next ()
  else if e.first = 46 ∧ (e.byte 1 = 32 ∨ e.byte 1 = 46) then .next ()
  else .done false

theorem scan_emptyStep (c : Nat) (buf : Mem) : ∀ n i, scan emptyStep () (slotsFrom c buf i n) =
    match emptyCluster buf i n with
    | some b => .done b
    | none => .next ()
  | 0, _ => rfl
  | n + 1, i => by
    have ih := scan_emptyStep c buf n (i + 1)
    have hentry : (Slot.mk c buf i).entry = entryAt buf i := rfl
    rw [slotsFrom_succ, scan, emptyStep, emptyCluster, hentry]
    generalize entryAt buf i = e
    by_cases h0 : e.first = 0
    · rw [if_pos h0, if_pos h0]
    rw [if_neg h0, if_neg h0]
    by_cases hskip : e.first = 0xE5 ∨ e.isVolumeId ∨ e.isLfn ∨ e.first = 32
    · rw [if_pos hskip, if_pos hskip]
      exact ih
    rw [if_neg hskip, if_neg hskip]
    by_cases hdot : e.first = 46 ∧ (e.byte 1 = 32 ∨ e.byte 1 = 46)
    · rw [if_pos hdot, if_pos hdot]
      exact ih
    · rw [if_neg hdot, if_neg hdot]

theorem dirIsEmpty_isLoop (g : Geometry) : IsLoop g (fun n c _ => dirIsEmptyFrom g n c) emptyStep
    (fun v b => .ok (b, v)) (fun v _ => .ok (true, v)) where
  zero _ _ := rfl
  succ v n c s := by
    rw [dirIsEmptyFrom]
    split
    · rw [Prog.run_bind_ok (image_readCluster c _)]
      unfold slotsAt
      rw [scan_emptyStep, Volume.look]
      cases emptyCluster (v.read g c fun _ => 0) 0 g.perCluster with
      | some b => rfl
      | none => exact Prog.run_bind_ok (image_readFatEntry c)
    · rfl

/-! ## Short names -/

def takenStep (key : List UInt8) (_ : Unit) (x : Slot) : Round Bool Unit :=
  let e := x.entry
  if e.first = 0 then .done false
  else if e.first = 0xE5 ∨ e.isLfn then .next ()
  else if e.name = key then .done true
  else .next ()

theorem scan_takenStep (key : List UInt8) (c : Nat) (buf : Mem) : ∀ n i,
    scan (takenStep key) () (slotsFrom c buf i n) =
      match takenCluster key buf i n with
      | some b => .done b
      | none => .next ()
  | 0, _ => rfl
  | n + 1, i => by
    have ih := scan_takenStep key c buf n (i + 1)
    have hentry : (Slot.mk c buf i).entry = entryAt buf i := rfl
    rw [slotsFrom_succ, scan, takenStep, takenCluster, hentry]
    generalize entryAt buf i = e
    by_cases h0 : e.first = 0
    · rw [if_pos h0, if_pos h0]
    rw [if_neg h0, if_neg h0]
    by_cases hskip : e.first = 0xE5 ∨ e.isLfn
    · rw [if_pos hskip, if_pos hskip]
      exact ih
    rw [if_neg hskip, if_neg hskip]
    by_cases hkey : e.name = key
    · rw [if_pos hkey, if_pos hkey]
    · rw [if_neg hkey, if_neg hkey]
      exact ih

theorem taken_isLoop (g : Geometry) (key : List UInt8) : IsLoop g (fun n c _ => takenFrom g key n c) (takenStep key)
    (fun v b => .ok (b, v)) (fun v _ => .ok (false, v)) where
  zero _ _ := rfl
  succ v n c s := by
    rw [takenFrom]
    split
    · rw [Prog.run_bind_ok (image_readCluster c _)]
      unfold slotsAt
      rw [scan_takenStep, Volume.look]
      cases takenCluster key (v.read g c fun _ => 0) 0 g.perCluster with
      | none => exact Prog.run_bind_ok (image_readFatEntry c)
      | some b =>
        cases b with
        | false => rfl
        | true => rfl
    · rfl

/-! ## Free slots -/

def freeStep (need : Nat) (r : FreeRun) (x : Slot) : Round (Nat × Nat) FreeRun :=
  if x.entry.isFree then
    let r := r.add x.cluster x.index
    if need ≤ r.length then .done (r.cluster, r.index) else .next r
  else .next { r with length := 0 }

theorem scan_freeStep (need c : Nat) (buf : Mem) : ∀ n i r, scan (freeStep need) r (slotsFrom c buf i n) =
    match freeCluster need c buf i r n with
    | .found c i => .done (c, i)
    | .next r => .next r
  | 0, _, _ => rfl
  | n + 1, i, r => by
    have ih := scan_freeStep need c buf n (i + 1)
    have hentry : (Slot.mk c buf i).entry = entryAt buf i := rfl
    rw [slotsFrom_succ, scan, freeStep, freeCluster, hentry]
    dsimp only
    by_cases hfree : (entryAt buf i).isFree
    · rw [if_pos hfree, if_pos hfree]
      by_cases hneed : need ≤ (r.add c i).length
      · rw [if_pos hneed, if_pos hneed]
      · rw [if_neg hneed, if_neg hneed]
        exact ih (r.add c i)
    · rw [if_neg hfree, if_neg hfree]
      exact ih { r with length := 0 }

/-- The numbers of the clusters that are free. -/
def freeSet (g : Geometry) (v : Volume) : Finset Nat := {c ∈ Finset.Ico 2 g.total | v.fat c = 0}

/-- The chain with a new cluster at its end. -/
def extended (g : Geometry) (v : Volume) (c new : Nat) : Volume :=
  ((v.setFat new fat32ClusterEnd).setFat c new).write g new fun _ => 0

theorem extended_fat (c new : Nat) : (extended g v c new).fat =
    update (update v.fat new (entryValue fat32ClusterEnd)) c (entryValue new) :=
  write_fat g _ new _

/-- A free cluster is used up, as long as its number is one of those that the FAT can hold. -/
theorem freeSet_extended (htotal : g.total ≤ fat32ClusterEnd) {c new : Nat} (hc : fat32ClusterEnd ≤ v.fat c)
    (hnew : v.free g = some new) : (freeSet g (extended g v c new)).card < (freeSet g v).card := by
  obtain ⟨h2, hlt, h0, -⟩ := firstFree_spec hnew
  have hend : fat32ClusterEnd = 0x0FFFFFF8 := rfl
  have hvalue : entryValue new ≠ 0 := by
    unfold entryValue
    omega
  refine Finset.card_lt_card (Finset.ssubset_iff.mpr ⟨new, ?_, ?_⟩)
  · intro hmem
    have hfree := (Finset.mem_filter.mp hmem).2
    rw [extended_fat] at hfree
    by_cases hcn : new = c
    · subst hcn
      omega
    · rw [update_of_ne hcn, update_self] at hfree
      exact absurd hfree (by decide)
  · intro d hd
    rcases Finset.mem_insert.mp hd with rfl | hd
    · exact Finset.mem_filter.mpr ⟨Finset.mem_Ico.mpr ⟨h2, by omega⟩, h0⟩
    · obtain ⟨hrange, hfree⟩ := Finset.mem_filter.mp hd
      refine Finset.mem_filter.mpr ⟨hrange, ?_⟩
      rw [extended_fat] at hfree
      by_cases hdc : d = c
      · subst hdc
        rw [update_self] at hfree
        exact absurd hfree hvalue
      · rw [update_of_ne hdc] at hfree
        by_cases hdn : d = new
        · rw [hdn]
          exact h0
        · rwa [update_of_ne hdn] at hfree

theorem extended_end {c new : Nat} (hc : fat32ClusterEnd ≤ v.fat c) (hnew : v.free g = some new) :
    fat32ClusterEnd ≤ (extended g v c new).fat new := by
  obtain ⟨-, -, h0, -⟩ := firstFree_spec hnew
  have hne : new ≠ c := by
    rintro rfl
    exact absurd (h0 ▸ hc) (by decide)
  rw [extended_fat, update_of_ne hne, update_self]
  decide

theorem image_extendWith (c new : Nat) : Prog.run onImage (extendWith g c new) v =
    .ok ((), (v.setFat c new).write g new fun _ => 0) := by
  unfold extendWith
  rw [Prog.run_bind_ok (image_writeFatEntry c new), image_writeCluster]

/-- One round of the search. -/
theorem image_freeSlotsFrom (need n c : Nat) (r : FreeRun) : Prog.run onImage (freeSlotsFrom g need (n + 1) c r) v =
    match scan (freeStep need) r (slotsAt g v c) with
    | .done p => .ok (some p, v)
    | .next r =>
      if v.fat c < fat32ClusterEnd then Prog.run onImage (freeSlotsFrom g need n (v.fat c) r) v
      else match v.free g with
        | none => .ok (none, v)
        | some new => Prog.run onImage (freeSlotsFrom g need n new r) (extended g v c new) := by
  rw [freeSlotsFrom, Prog.run_bind_ok (image_readCluster c _)]
  unfold slotsAt
  rw [scan_freeStep, Volume.look]
  cases freeCluster need c (v.read g c fun _ => 0) 0 r g.perCluster with
  | found c i => rfl
  | next r =>
    dsimp only
    rw [Prog.run_bind_ok (image_readFatEntry c)]
    split
    · rfl
    · rw [Prog.run_bind_ok image_allocateCluster]
      unfold Volume.afterAllocate
      cases hfree : v.free g with
      | none => rfl
      | some new =>
        have hpos : new ≠ 0 := by
          have := (firstFree_spec hfree).1
          omega
        dsimp only [Option.getD_some]
        rw [if_neg hpos, Prog.run_bind_ok (image_extendWith c new)]
        rfl

/-- Past the end of a chain the search takes clusters until it has its slots or none is free. -/
theorem freeSlots_past_end (htotal : g.total ≤ fat32ClusterEnd) (need : Nat) : ∀ (m : Nat) (v : Volume) (c : Nat) (r : FreeRun),
    (freeSet g v).card < m → fat32ClusterEnd ≤ v.fat c → ∃ o t, Prog.run onImage (freeSlotsFrom g need m c r) v = .ok (o, t)
  | 0, _, _, _, hcard, _ => absurd hcard (Nat.not_lt_zero _)
  | m + 1, v, c, r, hcard, hend => by
    rw [image_freeSlotsFrom]
    cases scan (freeStep need) r (slotsAt g v c) with
    | done p => exact ⟨_, _, rfl⟩
    | next r =>
      dsimp only
      rw [if_neg (Nat.not_lt.mpr hend)]
      cases hfree : v.free g with
      | none => exact ⟨_, _, rfl⟩
      | some new =>
        have hless := freeSet_extended htotal hend hfree
        exact freeSlots_past_end htotal need m _ new r (by omega) (extended_end hend hfree)

/-- The search ends where the chain does or where it has its slots. -/
theorem freeSlots_ends_iff (htotal : g.total ≤ fat32ClusterEnd) {need c : Nat} {r : FreeRun} :
    (∃ o t, Ends onImage (fun n => freeSlotsFrom g need n c r) v o t) ↔
      (∃ k, fat32ClusterEnd ≤ along v.fat c (k + 1)) ∨ ∃ k p, scan (freeStep need) r (slotsAlong g v c k) = .done p := by
  have hpast : ∀ (c : Nat) (r : FreeRun), fat32ClusterEnd ≤ v.fat c →
      ∃ o t, Ends onImage (fun n => freeSlotsFrom g need n c r) v o t := by
    intro c r hend
    obtain ⟨o, t, hrun⟩ := freeSlots_past_end htotal need _ v c r (Nat.lt_succ_self _) hend
    exact ⟨o, t, _, hrun⟩
  -- one more cluster before a search that ends
  have hstep : ∀ (c : Nat) (r : FreeRun), (∀ r', scan (freeStep need) r (slotsAt g v c) = .next r' →
      ∃ o t, Ends onImage (fun n => freeSlotsFrom g need n (v.fat c) r') v o t) →
      ∃ o t, Ends onImage (fun n => freeSlotsFrom g need n c r) v o t := by
    intro c r hnext
    by_cases hend : v.fat c < fat32ClusterEnd
    · cases hs : scan (freeStep need) r (slotsAt g v c) with
      | done p => exact ⟨some p, v, 1, by rw [image_freeSlotsFrom, hs]⟩
      | next r' =>
        obtain ⟨o, t, n, hrun⟩ := hnext r' hs
        refine ⟨o, t, n + 1, ?_⟩
        dsimp only
        rw [image_freeSlotsFrom, hs]
        dsimp only
        rw [if_pos hend]
        exact hrun
    · exact hpast c r (Nat.not_lt.mp hend)
  constructor
  · rintro ⟨o, t, n, hrun⟩
    induction n generalizing c r with
    | zero => cases hrun
    | succ n ih =>
      dsimp only at hrun
      rw [image_freeSlotsFrom] at hrun
      cases hs : scan (freeStep need) r (slotsAt g v c) with
      | done p =>
        refine .inr ⟨1, p, ?_⟩
        rw [slotsAlong, scan_append, hs]
      | next r' =>
        rw [hs] at hrun
        dsimp only at hrun
        by_cases hend : v.fat c < fat32ClusterEnd
        · rw [if_pos hend] at hrun
          rcases ih hrun with ⟨k, hk⟩ | ⟨k, p, hk⟩
          · exact .inl ⟨k + 1, hk⟩
          · refine .inr ⟨k + 1, p, ?_⟩
            rw [slotsAlong, scan_append, hs]
            exact hk
        · exact .inl ⟨0, Nat.not_lt.mp hend⟩
  · rintro (⟨k, hk⟩ | ⟨k, p, hk⟩)
    · induction k generalizing c r with
      | zero => exact hpast c r hk
      | succ k ih => exact hstep c r fun r' _ => ih hk
    · induction k generalizing c r with
      | zero => cases hk
      | succ k ih =>
        refine hstep c r fun r' hs => ih ?_
        rw [slotsAlong, scan_append, hs] at hk
        exact hk

/-! ## Short names that are free -/

/-- Somewhere on the chain there is an entry of a kind. -/
def OnChain (g : Geometry) (v : Volume) (c : Nat) (p : Entry → Prop) : Prop :=
  ∃ k, ∃ x ∈ slotsAt g v (along v.fat c k), p x.entry

def ChainEnds (v : Volume) (c : Nat) : Prop := ∃ k, fat32ClusterEnd ≤ along v.fat c k

/-- An entry with the short name. -/
def Entry.HasKey (key : List UInt8) (e : Entry) : Prop := e.isShort = true ∧ e.name = key

theorem ends_or_onChain {c : Nat} {p : Slot → Prop} {q : Entry → Prop} (hpq : ∀ x, p x ↔ q x.entry) :
    (∃ k, fat32ClusterEnd ≤ along v.fat c k ∨ ∃ x ∈ slotsAt g v (along v.fat c k), p x) ↔
      ChainEnds v c ∨ OnChain g v c q := by
  constructor
  · rintro ⟨k, hk | ⟨x, hx, hp⟩⟩
    · exact .inl ⟨k, hk⟩
    · exact .inr ⟨k, x, hx, (hpq x).mp hp⟩
  · rintro (⟨k, hk⟩ | ⟨k, x, hx, hq⟩)
    · exact ⟨k, .inl hk⟩
    · exact ⟨k, .inr ⟨x, hx, (hpq x).mpr hq⟩⟩

theorem takenStep_ne_next {key : List UInt8} {x : Slot} :
    takenStep key () x ≠ .next () ↔ x.entry.first = 0 ∨ x.entry.HasKey key := by
  unfold takenStep Entry.HasKey Entry.isShort
  by_cases h0 : x.entry.first = 0
  · simp [h0]
  by_cases hdel : x.entry.first = 0xE5
  · simp [hdel]
  cases hlfn : x.entry.isLfn with
  | true => simp [h0, hdel, hlfn]
  | false => by_cases hkey : x.entry.name = key <;> simp [h0, hdel, hlfn, hkey]

theorem takenStep_done {key : List UInt8} {x : Slot} {b : Bool} (h : takenStep key () x = .done b) :
    if b then x.entry.HasKey key else x.entry.first = 0 := by
  unfold takenStep at h
  by_cases h0 : x.entry.first = 0
  · rw [if_pos h0] at h
    cases h
    exact h0
  rw [if_neg h0] at h
  by_cases hskip : x.entry.first = 0xE5 ∨ x.entry.isLfn
  · rw [if_pos hskip] at h
    cases h
  rw [if_neg hskip] at h
  split at h
  · next hkey =>
    cases h
    rw [not_or] at hskip
    exact ⟨by simp [Entry.isShort, h0, hskip.1, hskip.2], hkey⟩
  · cases h

theorem scan_done_mem {ι ρ : Type} {step : Unit → ι → Round ρ Unit} {r : ρ} : ∀ {xs : List ι},
    scan step () xs = .done r → ∃ x ∈ xs, step () x = .done r
  | x :: xs, h => by
    rw [scan] at h
    cases hx : step () x with
    | done r' =>
      rw [hx] at h
      cases h
      exact ⟨x, List.mem_cons_self, hx⟩
    | next s =>
      rw [hx] at h
      obtain ⟨y, hy, hstep⟩ := scan_done_mem h
      exact ⟨y, List.mem_cons_of_mem x hy, hstep⟩

def TakenEnds (g : Geometry) (v : Volume) (key : List UInt8) (c : Nat) (b : Bool) (t : Volume) : Prop :=
  Ends onImage (fun n => takenFrom g key n c) v b t

theorem taken_ends_iff {key : List UInt8} {c : Nat} : (∃ b t, TakenEnds g v key c b t) ↔
    ChainEnds v c ∨ OnChain g v c fun e => e.first = 0 ∨ e.HasKey key := by
  have hloop : ∀ b t, TakenEnds g v key c b t ↔ LoopEnds g (takenStep key) (fun v b => .ok (b, v)) (fun v _ => .ok (false, v)) v c () b t :=
    fun b t => (taken_isLoop g key).ends_iff (s := ())
  simp only [hloop]
  exact (loopEnds_stateless id false c).trans (ends_or_onChain fun x => takenStep_ne_next)

/-- What the answer of the search says. -/
theorem TakenEnds.spec {key : List UInt8} {c : Nat} {b : Bool} {t : Volume} (h : TakenEnds g v key c b t) :
    t = v ∧ if b then OnChain g v c (Entry.HasKey key) else ChainEnds v c ∨ OnChain g v c fun e => e.first = 0 := by
  obtain ⟨k, -, hk⟩ := ((taken_isLoop g key).ends_iff (s := ())).mp h
  cases hs : scan (takenStep key) () (slotsAlong g v c k) with
  | next s =>
    rw [hs] at hk
    obtain ⟨hend, heq⟩ := hk
    cases heq
    exact ⟨rfl, .inl ⟨k, hend⟩⟩
  | done r =>
    rw [hs] at hk
    cases hk
    obtain ⟨x, hx, hstep⟩ := scan_done_mem hs
    obtain ⟨j, -, hx⟩ := mem_slotsAlong.mp hx
    have hentry := takenStep_done hstep
    cases b with
    | true => exact ⟨rfl, j, x, hx, hentry⟩
    | false => exact ⟨rfl, .inr ⟨j, x, hx, hentry⟩⟩

end Serotonin.Fat32
