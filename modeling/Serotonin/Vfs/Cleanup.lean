import Serotonin.Vfs.Resolve

/-! Which of the nodes that `vfs_resolve_path` makes are in memory when it returns. It notes the first 64 of
them, and frees those but the one that it returns. -/

namespace Serotonin.Vfs

open List

variable {ν : Type} (T : Tree ν)

/-- The loop of `vfs_resolve_path`, before anything is freed. -/
def walked (path : Name) : Option (Obj ν) × Walk ν :=
  if path.head? = some slash then resolveTokens T (Paths.parts slash (path.take (pathMax - 1))) (Walk.start T)
  else (none, Walk.start T)

/-- Of the nodes that are made, the one that is returned is in memory then, and every other one has been
freed once: to free one again would be a fault. -/
def FreesOthers (path : Name) : Prop :=
  ∃ r live, vfsResolvePath T path = .ok (r, live) ∧ live.Nodup ∧ ∀ k, k ∈ live ↔ r.bind Obj.number = some k

variable {T} {w : Walk ν} {path : Name}

/-- The number of a node is that of one that has been made. -/
def Made (n : Nat) (o : Obj ν) : Prop := ∀ k, o.number = some k → k < n

/-- What is noted are the first nodes that were made. -/
structure Noted (w : Walk ν) : Prop where
  allocs : w.allocs = List.range (min w.made allocsMax)
  current : Made w.made w.current
  stack : ∀ o ∈ w.stack, Made w.made o

theorem start_noted : Noted (Walk.start T) where
  allocs := rfl
  current := nofun
  stack := forall_mem_singleton.mpr nofun

namespace Noted

variable (h : Noted w)

include h

theorem up : Noted w.up := by
  unfold Walk.up
  split
  · next d below hstack =>
    have hbelow : ∀ o ∈ d :: below, Made w.made o := fun o ho => h.stack o (hstack ▸ mem_cons_of_mem _ ho)
    exact ⟨h.allocs, hbelow d mem_cons_self, hbelow⟩
  · exact h

theorem enter {o : Obj ν} (next : Name) (ho : Made w.made o) : Noted (w.enter o next) := by
  refine ⟨h.allocs, ho, ?_⟩
  unfold Walk.enter
  dsimp only
  split
  · exact forall_mem_cons.mpr ⟨ho, h.stack⟩
  · exact h.stack

theorem take (child : ν) (next : Name) : Noted (w.take T child next) := by
  unfold Walk.take
  split
  · have hmono : ∀ o : Obj ν, Made w.made o → Made (w.made + 1) o := fun o ho k hk => Nat.lt_succ_of_lt (ho k hk)
    have hlen : w.allocs.length = min w.made allocsMax := by rw [h.allocs, length_range]
    apply Noted.enter
    · refine ⟨?_, hmono _ h.current, fun o ho => hmono o (h.stack o ho)⟩
      dsimp only
      rw [hlen, h.allocs]
      by_cases hroom : w.made < allocsMax
      · have hmin : min w.made allocsMax = w.made := Nat.min_eq_left (Nat.le_of_lt hroom)
        rw [hmin, if_pos hroom, Nat.min_eq_left (Nat.succ_le_of_lt hroom), range_succ]
      · have hle := Nat.le_of_not_lt hroom
        rw [Nat.min_eq_right hle, if_neg (Nat.lt_irrefl _), Nat.min_eq_right (Nat.le_succ_of_le hle)]
    · intro k hk
      cases hk
      exact Nat.lt_succ_self _
  · exact h.enter next nofun

theorem component {w' : Walk ν} {token : Name} (hrun : w.component T token = some w') : Noted w' := by
  unfold Walk.component at hrun
  split at hrun
  · cases hrun
    exact h
  split at hrun
  · cases hrun
    exact h.up
  unfold Walk.down at hrun
  split at hrun
  · split at hrun
    · cases hrun
    · next next _ =>
      split at hrun
      · cases hrun
        exact h.enter next nofun
      · split at hrun
        · cases hrun
        · cases hrun
          exact h.take _ next
  · cases hrun

end Noted

theorem noted_resolveTokens : ∀ {tokens : List Name} {w : Walk ν}, Noted w →
    Noted (resolveTokens T tokens w).2 ∧ ∀ o, (resolveTokens T tokens w).1 = some o → Made (resolveTokens T tokens w).2.made o
  | [], w, h => ⟨h, fun o ho => by
      cases ho
      exact h.current⟩
  | token :: tokens, w, h => by
    unfold resolveTokens
    cases hrun : w.component T token with
    | none => exact ⟨h, nofun⟩
    | some w' => exact noted_resolveTokens (h.component hrun)

theorem noted_walked : Noted (walked T path).2 ∧ ∀ o, (walked T path).1 = some o → Made (walked T path).2.made o := by
  unfold walked
  split
  · exact noted_resolveTokens start_noted
  · exact ⟨start_noted, nofun⟩

/-- Each node that is noted is freed, but for the one to keep. -/
theorem resolveCleanup_spec (keep : Option Nat) : ∀ {allocs live : List Nat}, allocs.Nodup → live.Nodup →
    (∀ k ∈ allocs, k ∈ live) →
      ∃ live', resolveCleanup keep allocs live = .ok live' ∧ live'.Nodup ∧
        ∀ k, k ∈ live' ↔ k ∈ live ∧ (k ∈ allocs → some k = keep)
  | [], live, _, hlive, _ => ⟨live, rfl, hlive, fun k => by simp⟩
  | number :: allocs, live, hallocs, hlive, hsub => by
    obtain ⟨hnot, hallocs⟩ := nodup_cons.mp hallocs
    obtain ⟨hhead, hsub⟩ := forall_mem_cons.mp hsub
    unfold resolveCleanup
    by_cases hkeep : some number = keep
    · obtain ⟨live', hrun, hnodup, hmem⟩ := resolveCleanup_spec keep hallocs hlive hsub
      rw [if_pos hkeep]
      refine ⟨live', hrun, hnodup, fun k => ?_⟩
      rw [hmem, mem_cons]
      by_cases hk : k = number
      · subst hk
        simp [hkeep]
      · simp [hk]
    · have herase : ∀ k, k ∈ live.erase number ↔ k ≠ number ∧ k ∈ live := fun k => hlive.mem_erase_iff
      obtain ⟨live', hrun, hnodup, hmem⟩ := resolveCleanup_spec keep hallocs
        (hlive.erase number) fun k hk => (herase k).mpr ⟨fun heq => hnot (heq ▸ hk), hsub k hk⟩
      rw [if_neg hkeep, vfsPut, if_pos hhead]
      refine ⟨live', hrun, hnodup, fun k => ?_⟩
      rw [hmem, herase, mem_cons]
      by_cases hk : k = number
      · subst hk
        simp [hkeep]
      · simp [hk]

/-- What `vfs_resolve_path` returns and leaves in memory. It never frees a node twice. -/
theorem vfsResolvePath_spec (T : Tree ν) (path : Name) : ∃ live, vfsResolvePath T path = .ok ((walked T path).1, live) ∧
    live.Nodup ∧ ∀ k, k ∈ live ↔ k < (walked T path).2.made ∧
      (k < allocsMax → (walked T path).1.bind Obj.number = some k) := by
  have hnoted : Noted (walked T path).2 := noted_walked.1
  have hlt : ∀ k, k ∈ (walked T path).2.allocs ↔ k < (walked T path).2.made ∧ k < allocsMax := by
    intro k
    rw [hnoted.allocs, mem_range, Nat.lt_min]
  obtain ⟨live, hrun, hnodup, hmem⟩ := resolveCleanup_spec ((walked T path).1.bind Obj.number)
    (hnoted.allocs ▸ nodup_range) nodup_range fun k hk => mem_range.mpr ((hlt k).mp hk).1
  refine ⟨live, ?_, hnodup, fun k => ?_⟩
  · unfold vfsResolvePath
    unfold walked at hrun ⊢
    split
    · next habs =>
      rw [if_pos habs] at hrun
      dsimp only
      rw [hrun]
      rfl
    · next habs =>
      rw [if_neg habs] at hrun
      cases hrun
      rfl
  · rw [hmem, hlt, mem_range]
    constructor
    · rintro ⟨hk, hkeep⟩
      exact ⟨hk, fun h64 => (hkeep ⟨hk, h64⟩).symm⟩
    · rintro ⟨hk, hkeep⟩
      exact ⟨hk, fun h => (hkeep h.2).symm⟩

/-- A node that is made after the first 64 is freed by nobody. -/
theorem FreesOthers.few (h : FreesOthers T path) : (walked T path).2.made ≤ 64 ∨
    ((walked T path).2.made = 65 ∧ (walked T path).1.bind Obj.number = some 64) := by
  obtain ⟨live, hrun, hnodup, hmem⟩ := vfsResolvePath_spec T path
  obtain ⟨r, live', hrun', -, hmem'⟩ := h
  cases hrun.symm.trans hrun'
  by_cases hle : (walked T path).2.made ≤ 64
  · exact .inl hle
  · have hlate : ∀ k, 64 ≤ k → k < (walked T path).2.made → (walked T path).1.bind Obj.number = some k :=
      fun k h64 hk => (hmem' k).mp ((hmem k).mpr ⟨hk, fun hlt => absurd hlt (Nat.not_lt.mpr h64)⟩)
    have h64 := hlate 64 (Nat.le_refl _) (by omega)
    refine .inr ⟨?_, h64⟩
    by_contra hne
    have h65 := hlate 65 (by decide) (by omega)
    cases h64.symm.trans h65

/-- A disk with a directory `a` in every directory. -/
def nested : Tree Nat where
  root := 0
  isDirectory _ := true
  isDisk _ := true
  finddir n name := if name = [97] then some (n + 1) else none
  mounts := []

/-- The path of the directory at a depth. -/
def deepPath (depth : Nat) : Name := Paths.text slash (List.replicate depth [97])

theorem made_deepPath : (walked nested (deepPath 66)).2.made = 66 := by decide +kernel

end Serotonin.Vfs
