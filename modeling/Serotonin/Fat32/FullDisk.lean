import Serotonin.Fat32.Termination

/-! What is left behind where `fat32_create`, `fat32_mkdir` and `fat32_write` find no free cluster. -/

namespace Serotonin.Fat32

open ByteMem (Mem u32)
open Prog (run run_bind_eq_ok run_bind_ok)

variable {g : Geometry} {v t : Volume}

/-- An allocation fails only where no cluster is free, and changes nothing then. -/
theorem allocate_cases : (v.free g = none ∧ run onImage (fat32AllocateCluster g) v = .ok (0, v)) ∨
    ∃ new, new ≠ 0 ∧ v.free g = some new ∧ run onImage (fat32AllocateCluster g) v = .ok (new, v.setFat new fat32ClusterEnd) := by
  have hrun := image_allocateCluster (g := g) (v := v)
  unfold Volume.afterAllocate at hrun
  cases hfree : v.free g with
  | none =>
    rw [hfree] at hrun
    exact .inl ⟨rfl, hrun⟩
  | some new =>
    rw [hfree] at hrun
    have hpos := (firstFree_spec hfree).1
    exact .inr ⟨new, by omega, rfl, hrun⟩

/-! ## Searches -/

theorem tryTails_keeps {n c : Nat} {parts : List UInt8 × List UInt8} {key : List UInt8} : ∀ {left tail : Nat} {v : Volume},
    run onImage (tryTails g n parts c left tail) v = .ok (key, t) → t = v
  | 0, _, _, h => by
    cases h
    rfl
  | left + 1, tail, v, h => by
    obtain ⟨b, v', htaken, hrest⟩ := run_bind_eq_ok.mp h
    obtain ⟨rfl, -⟩ := TakenEnds.spec ⟨n, htaken⟩
    cases b with
    | false =>
      cases hrest
      rfl
    | true => exact tryTails_keeps hrest

/-- The search for a short name only reads. -/
theorem shortNameFor_keeps {n c : Nat} {name key : List UInt8} (h : run onImage (shortNameFor g n name c) v = .ok (key, t)) :
    t = v := by
  unfold shortNameFor at h
  split at h
  · cases h
    rfl
  · exact tryTails_keeps h

/-- Without a free cluster the search for slots only reads, too. -/
theorem freeSlots_keeps (hfull : v.free g = none) {need : Nat} {o : Option (Nat × Nat)} : ∀ {n c : Nat} {r : FreeRun},
    run onImage (freeSlotsFrom g need n c r) v = .ok (o, t) → t = v
  | 0, _, _, h => by cases h
  | n + 1, c, r, h => by
    rw [image_freeSlotsFrom] at h
    cases hs : Round.scan (freeStep need) r (slotsAt g v c) with
    | done p =>
      rw [hs] at h
      cases h
      rfl
    | next r' =>
      rw [hs, hfull] at h
      dsimp only at h
      split at h
      · exact freeSlots_keeps hfull h
      · cases h
        rfl

/-- It fails only once no cluster is free. -/
theorem freeSlots_full {need : Nat} : ∀ {n c : Nat} {r : FreeRun} {v : Volume},
    run onImage (freeSlotsFrom g need n c r) v = .ok (none, t) → t.free g = none
  | 0, _, _, _, h => by cases h
  | n + 1, c, r, v, h => by
    rw [image_freeSlotsFrom] at h
    cases hs : Round.scan (freeStep need) r (slotsAt g v c) with
    | done p =>
      rw [hs] at h
      cases h
    | next r' =>
      rw [hs] at h
      dsimp only at h
      split at h
      · exact freeSlots_full h
      · cases hfree : v.free g with
        | none =>
          rw [hfree] at h
          cases h
          exact hfree
        | some new =>
          rw [hfree] at h
          exact freeSlots_full h

/-! ## New entries -/

/-- A failure leaves a full volume. So if the volume was not full before, something has changed. -/
theorem unchanged_iff_full {failed : Prop} (hfull : t.free g = none) (hkeeps : v.free g = none → t = v) (hnot : ¬failed) :
    t = v ↔ failed ∨ v.free g = none :=
  ⟨fun h => .inr (h ▸ hfull), fun h => hkeeps (h.resolve_left hnot)⟩

theorem create_none {n : Nat} {parent : Node} {name : List UInt8} (hro : g.readOnly = false)
    (h : run onImage (fat32Create g n parent name) v = .ok (none, t)) : t.free g = none ∧ (v.free g = none → t = v) := by
  unfold fat32Create at h
  rw [hro, if_neg Bool.false_ne_true] at h
  obtain ⟨key, v₁, hkey, hfind⟩ := run_bind_eq_ok.mp h
  obtain rfl := shortNameFor_keeps hkey
  obtain ⟨o, v₂, hslots, hmake⟩ := run_bind_eq_ok.mp hfind
  cases o with
  | none =>
    cases hmake
    exact ⟨freeSlots_full hslots, fun hfull => freeSlots_keeps hfull hslots⟩
  | some place =>
    dsimp only at hmake
    obtain ⟨hfull, hrun⟩ | ⟨new, hnew, -, hrun⟩ := allocate_cases (g := g) (v := v₂)
    · rw [run_bind_ok hrun, if_pos rfl] at hmake
      cases hmake
      exact ⟨hfull, fun hfull => freeSlots_keeps hfull hslots⟩
    · rw [run_bind_ok hrun, if_neg hnew] at hmake
      obtain ⟨c, v₃, -, hret⟩ := run_bind_eq_ok.mp hmake
      cases hret

theorem mkdir_none {n : Nat} {parent : Node} {name : List UInt8} (hro : g.readOnly = false)
    (h : run onImage (fat32Mkdir g n parent name) v = .ok (none, t)) : t.free g = none ∧ (v.free g = none → t = v) := by
  unfold fat32Mkdir at h
  rw [hro, if_neg Bool.false_ne_true] at h
  obtain ⟨hfull, hrun⟩ | ⟨new, hnew, hfree, hrun⟩ := allocate_cases (g := g) (v := v)
  · rw [run_bind_ok hrun, if_pos rfl] at h
    cases h
    exact ⟨hfull, fun _ => rfl⟩
  · rw [run_bind_ok hrun, if_neg hnew] at h
    obtain ⟨u, v₁, -, h⟩ := run_bind_eq_ok.mp h
    obtain ⟨key, v₂, -, h⟩ := run_bind_eq_ok.mp h
    obtain ⟨o, v₃, hslots, h⟩ := run_bind_eq_ok.mp h
    cases o with
    | none =>
      cases h
      exact ⟨freeSlots_full hslots, fun hfull => absurd (hfull.symm.trans hfree) nofun⟩
    | some place =>
      obtain ⟨c, v₄, -, h⟩ := run_bind_eq_ok.mp h
      cases h

/-! ## Data -/

theorem nextOrNew_none {c : Nat} (h : run onImage (nextOrNew g c) v = .ok (none, t)) : t = v ∧ v.free g = none := by
  unfold nextOrNew at h
  rw [run_bind_ok (image_readFatEntry c)] at h
  split at h
  · cases h
  · obtain ⟨hfull, hrun⟩ | ⟨new, hnew, -, hrun⟩ := allocate_cases (g := g) (v := v)
    · rw [run_bind_ok hrun, if_pos rfl] at h
      cases h
      exact ⟨rfl, hfull⟩
    · rw [run_bind_ok hrun, if_neg hnew] at h
      cases h

theorem nextOrNew_full {c d : Nat} (hfull : v.free g = none) (h : run onImage (nextOrNew g c) v = .ok (some d, t)) :
    t = v := by
  unfold nextOrNew at h
  rw [run_bind_ok (image_readFatEntry c)] at h
  split at h
  · cases h
    rfl
  · obtain ⟨-, hrun⟩ | ⟨new, -, hfree, -⟩ := allocate_cases (g := g) (v := v)
    · rw [run_bind_ok hrun, if_pos rfl] at h
      cases h
    · exact absurd (hfull.symm.trans hfree) nofun

theorem skipClusters_none : ∀ {n c : Nat} {v : Volume}, run onImage (skipClusters g n c) v = .ok (none, t) →
    t.free g = none ∧ (v.free g = none → t = v)
  | 0, _, _, h => by cases h
  | n + 1, c, v, h => by
    obtain ⟨o, v₁, hnext, h⟩ := run_bind_eq_ok.mp h
    cases o with
    | none =>
      cases h
      obtain ⟨rfl, hfull⟩ := nextOrNew_none hnext
      exact ⟨hfull, fun _ => rfl⟩
    | some d =>
      obtain ⟨hfull, hkeeps⟩ := skipClusters_none h
      refine ⟨hfull, fun hv => ?_⟩
      obtain rfl := nextOrNew_full hv hnext
      exact hkeeps hv

theorem grownSize_eq_iff {node : Node} {offset size : Nat} : grownSize node offset size = node.size ↔ u32 (offset + size) ≤ node.size := by
  unfold grownSize
  split <;> omega

/-- The end of a write that has a cluster to begin with. -/
def finishWrite (g : Geometry) (rounds : Nat) (node : Node) (offset : Nat) (data : List UInt8) : Option Nat → FatM (Int × Node)
  | none => return (-1, node)
  | some start => do
    let written ← writeLoop g data data.length start (offset % g.clusterSize) 0 fun _ => 0
    flushFatCache
    blkcacheFlush
    updateDirEntry g rounds node node.size
    return (written, node)

theorem finishWrite_result {n offset : Nat} {node node' : Node} {data : List UInt8} {o : Option Nat} {r : Int}
    (h : run onImage (finishWrite g n node offset data o) v = .ok ((r, node'), t)) :
    node' = node ∧ (r = -1 → o = none ∧ t = v) ∧ (0 ≤ r → o ≠ none) := by
  cases o with
  | none =>
    cases h
    exact ⟨rfl, fun _ => ⟨rfl, rfl⟩, fun hr => absurd hr (by decide)⟩
  | some start =>
    obtain ⟨written, v₁, -, h⟩ := run_bind_eq_ok.mp h
    obtain ⟨-, v₂, -, h⟩ := run_bind_eq_ok.mp h
    obtain ⟨-, v₃, -, h⟩ := run_bind_eq_ok.mp h
    obtain ⟨-, v₄, -, h⟩ := run_bind_eq_ok.mp h
    cases h
    refine ⟨rfl, fun hr => ?_, fun _ => nofun⟩
    omega

/-- A write that is let through: without a first cluster at the start, or with one from which it goes on. -/
theorem write_cases {n offset : Nat} {node node' : Node} {data : List UInt8} {r : Int} (hdir : node.directory = false)
    (hro : g.readOnly = false) (h : run onImage (fat32Write g n node offset data) v = .ok ((r, node'), t)) :
    node'.size = grownSize node offset data.length ∧
      (r = -1 → t.free g = none ∧ (v.free g = none → t = v ∧ node' = { node with size := grownSize node offset data.length })) := by
  unfold fat32Write at h
  rw [hdir, hro, if_neg Bool.false_ne_true, if_neg Bool.false_ne_true] at h
  dsimp only at h
  by_cases hlow : node.cluster < 2
  · rw [if_pos hlow] at h
    obtain ⟨hfull, hrun⟩ | ⟨new, hnew, hfree, hrun⟩ := allocate_cases (g := g) (v := v)
    · rw [run_bind_ok hrun, if_pos rfl] at h
      cases h
      exact ⟨rfl, fun _ => ⟨hfull, fun _ => ⟨rfl, by rw [hdir]⟩⟩⟩
    · rw [run_bind_ok hrun, if_neg hnew] at h
      obtain ⟨o, v₁, hskip, hfinish⟩ := run_bind_eq_ok.mp h
      obtain ⟨rfl, hfail, -⟩ := finishWrite_result hfinish
      refine ⟨rfl, fun hr => ?_⟩
      obtain ⟨rfl, rfl⟩ := hfail hr
      exact ⟨(skipClusters_none hskip).1, fun hfull => absurd (hfull.symm.trans hfree) nofun⟩
  · have hpos : node.cluster ≠ 0 := by omega
    rw [if_neg hlow, run_bind_ok (Prog.run_pure node.cluster v), if_neg hpos] at h
    obtain ⟨o, v₁, hskip, hfinish⟩ := run_bind_eq_ok.mp h
    obtain ⟨rfl, hfail, -⟩ := finishWrite_result hfinish
    refine ⟨rfl, fun hr => ?_⟩
    obtain ⟨rfl, rfl⟩ := hfail hr
    obtain ⟨hfull, hkeeps⟩ := skipClusters_none hskip
    exact ⟨hfull, fun hv => ⟨hkeeps hv, by rw [hdir]⟩⟩

/-- Where `fat32_create` or `fat32_mkdir` fail, the volume is as before if and only if it was full before
(or is read-only); a write that fails leaves volume and node alone if and only if, besides, it does not
reach behind the size; and where it comes to less than it was given, the size grows too far if it grows. -/
theorem failure_atomic_iff (v t : Volume) (n : Nat) :
    (∀ parent name, Prog.run onImage (fat32Create g n parent name) v = .ok (none, t) →
      (t = v ↔ g.readOnly = true ∨ v.free g = none)) ∧
    (∀ parent name, Prog.run onImage (fat32Mkdir g n parent name) v = .ok (none, t) →
      (t = v ↔ g.readOnly = true ∨ v.free g = none)) ∧
    (∀ node offset data r node', offset < 2 ^ 32 → data.length < 2 ^ 32 →
      Prog.run onImage (fat32Write g n node offset data) v = .ok ((r, node'), t) →
      (r = -1 → (t = v ∧ node' = node ↔ node.directory = true ∨ g.readOnly = true ∨
        (v.free g = none ∧ u32 (offset + data.length) ≤ node.size))) ∧
      (0 ≤ r → r < data.length → (node'.size ≤ max node.size (offset + r.toNat) ↔
        offset + data.length ≤ node.size ∨ 2 ^ 32 ≤ offset + data.length))) := by
  refine ⟨fun parent name h => ?_, fun parent name h => ?_, fun node offset data r node' ho hlen h => ?_⟩
  · cases hro : g.readOnly with
    | true =>
      unfold fat32Create at h
      rw [hro, if_pos rfl] at h
      cases h
      simp
    | false =>
      obtain ⟨hfull, hkeeps⟩ := create_none hro h
      exact unchanged_iff_full hfull hkeeps Bool.false_ne_true
  · cases hro : g.readOnly with
    | true =>
      unfold fat32Mkdir at h
      rw [hro, if_pos rfl] at h
      cases h
      simp
    | false =>
      obtain ⟨hfull, hkeeps⟩ := mkdir_none hro h
      exact unchanged_iff_full hfull hkeeps Bool.false_ne_true
  · cases hdir : node.directory with
    | true =>
      unfold fat32Write at h
      rw [hdir, if_pos rfl] at h
      cases h
      exact ⟨fun _ => by simp, fun hr => absurd hr (by decide)⟩
    | false =>
      cases hro : g.readOnly with
      | true =>
        unfold fat32Write at h
        rw [hdir, hro, if_neg Bool.false_ne_true, if_pos rfl] at h
        cases h
        exact ⟨fun _ => by simp, fun hr => absurd hr (by decide)⟩
      | false =>
        obtain ⟨hsize, hfail⟩ := write_cases hdir hro h
        refine ⟨fun hr => ?_, fun hpos hshort => ?_⟩
        · obtain ⟨hfull, hkeeps⟩ := hfail hr
          simp only [Bool.false_eq_true, false_or]
          rw [← grownSize_eq_iff]
          constructor
          · rintro ⟨rfl, rfl⟩
            exact ⟨hfull, hsize.symm⟩
          · rintro ⟨hv, hgrown⟩
            obtain ⟨ht, hnode⟩ := hkeeps hv
            refine ⟨ht, ?_⟩
            rw [hnode, hgrown]
        · clear hfail h
          rw [hsize, le_max_iff]
          unfold grownSize u32
          split <;> omega

/-- A volume without free clusters. -/
def fullVolume : Volume := ⟨fun _ => fat32ClusterEnd, fun _ => 0⟩

/-- A file without clusters. -/
def emptyFile : Node :=
  { name := [65], directory := false, size := 0, mode := sIfreg + 0o644, cluster := 0, parentCluster := 2 }

theorem fullVolume_free : fullVolume.free oneSector = none :=
  firstFree_eq_none.mpr fun _ _ _ => by
    show fat32ClusterEnd ≠ 0
    decide

theorem write_fullVolume (n : Nat) : run onImage (fat32Write oneSector n emptyFile 0 [1]) fullVolume =
    .ok ((-1, { emptyFile with size := 1 }), fullVolume) := by
  have hrun : run onImage (fat32AllocateCluster oneSector) fullVolume = .ok (0, fullVolume) := by
    obtain ⟨-, hrun⟩ | ⟨new, -, hfree, -⟩ := allocate_cases (g := oneSector) (v := fullVolume)
    · exact hrun
    · exact absurd (fullVolume_free.symm.trans hfree) nofun
  unfold fat32Write
  rw [if_neg (by decide), if_neg (by decide)]
  dsimp only
  rw [if_pos (by decide), run_bind_ok hrun, if_pos rfl]
  rfl

/-- A byte that a full volume has no room for: the file has it in its size, since it reaches behind it. -/
theorem failure_atomic_fullVolume : ¬(fullVolume = fullVolume ∧ { emptyFile with size := 1 } = emptyFile) := by
  obtain ⟨hfail, -⟩ := (failure_atomic_iff fullVolume fullVolume 1).2.2 emptyFile 0 [1] (-1) _ (by decide) (by decide)
    (write_fullVolume 1)
  rw [hfail rfl]
  rintro (h | h | ⟨-, h⟩) <;> exact absurd h (by decide)

theorem not_failure_atomic : ¬∀ (g : Geometry) (v t : Volume) (n offset : Nat) (node node' : Node) (data : List UInt8),
    Prog.run onImage (fat32Write g n node offset data) v = .ok ((-1, node'), t) →
      t = v ∧ node'.size = node.size ∧ node'.cluster = node.cluster := by
  intro h
  have hsize := (h oneSector _ _ 1 0 emptyFile _ [1] (write_fullVolume 1)).2.1
  exact absurd hsize (by decide)

end Serotonin.Fat32
