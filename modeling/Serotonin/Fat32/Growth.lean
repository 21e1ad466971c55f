import Serotonin.Fat32.Circles

/-! A chain that gets another cluster at its end, beside the chain of the directory, which stays as
it is. -/

namespace Serotonin.Fat32

open Function List

variable {g : Geometry} {v : Volume}

/-! ## Allocation -/

theorem run_allocateFrom (hg : g.Valid) : ∀ n c, 2 ≤ c → c + n ≤ g.total →
    Prog.run (onVolume g) (allocateFrom c n) v = .ok ((firstFree v.fat c n).getD 0, match firstFree v.fat c n with
      | some d => v.setFat d fat32ClusterEnd
      | none => v)
  | 0, _, _, _ => rfl
  | n + 1, c, hc, hn => by
    have hdata : HasData g c := ⟨hc, by rw [← hg.total_eq]; omega⟩
    rw [allocateFrom, Prog.run_bind_ok (run_readFatEntry hg hdata), firstFree]
    by_cases h0 : v.fat c = 0
    · rw [if_pos h0, if_pos h0, Prog.run_bind_ok (run_writeFatEntry hg hdata _)]
      rfl
    · rw [if_neg h0, if_neg h0]
      exact run_allocateFrom hg n (c + 1) (by omega) (by omega)

/-- Nothing is free, or the first free cluster is taken. -/
theorem run_allocate (hg : g.Valid) : (v.free g = none ∧ Prog.run (onVolume g) (fat32AllocateCluster g) v = .ok (0, v)) ∨
    ∃ new, v.free g = some new ∧ HasData g new ∧ v.fat new = 0 ∧
      Prog.run (onVolume g) (fat32AllocateCluster g) v = .ok (new, v.setFat new fat32ClusterEnd) := by
  have htotal := hg.total_eq
  have hsize := hg.fatSize
  have hrun := run_allocateFrom (v := v) hg (g.total - 2) 2 (Nat.le_refl 2) (by omega)
  unfold fat32AllocateCluster
  rw [hrun]
  cases hfree : firstFree v.fat 2 (g.total - 2) with
  | none => exact .inl ⟨hfree, rfl⟩
  | some new =>
    obtain ⟨h2, hlt, h0, -⟩ := firstFree_spec hfree
    exact .inr ⟨new, hfree, ⟨h2, by omega⟩, h0, rfl⟩

theorem mem_freeSet {d : Nat} : d ∈ freeSet g v ↔ (2 ≤ d ∧ d < g.total) ∧ v.fat d = 0 := by
  rw [freeSet, Finset.mem_filter, Finset.mem_Ico]

theorem freeSet_setFat {c value : Nat} (hvalue : entryValue value ≠ 0) : freeSet g (v.setFat c value) = (freeSet g v).erase c := by
  ext d
  rw [Finset.mem_erase, mem_freeSet, mem_freeSet]
  by_cases hd : d = c
  · subst hd
    simp [Volume.setFat, hvalue]
  · simp [Volume.setFat, hd]

theorem free_mem_freeSet {new : Nat} (h : v.free g = some new) : new ∈ freeSet g v := by
  obtain ⟨h2, hlt, h0, -⟩ := firstFree_spec h
  exact mem_freeSet.mpr ⟨⟨h2, by omega⟩, h0⟩

theorem card_freeSet_of_none (h : v.free g = none) : (freeSet g v).card = 0 := by
  rw [Finset.card_eq_zero, Finset.eq_empty_iff_forall_notMem]
  intro d hd
  obtain ⟨⟨h2, hlt⟩, h0⟩ := mem_freeSet.mp hd
  exact firstFree_eq_none.mp h d h2 (by omega) h0

/-! ## Chains -/

namespace Chain

variable {fat fat' : Nat → Nat} {c last : Nat} {pre cs : List Nat}

theorem fat_ne_zero (h : Chain g fat c cs) : ∀ d ∈ cs, fat d ≠ 0 := by
  induction h with
  | nil _ => exact fun d hd => absurd hd not_mem_nil
  | @cons c cs _ ht ih =>
    intro d hd
    rcases mem_cons.mp hd with rfl | hd
    · cases ht with
      | nil hend =>
        unfold fat32ClusterEnd at hend
        omega
      | cons hnext _ =>
        have h2 := hnext.1
        omega
    · exact ih d hd

theorem ne_nil (hg : g.Valid) (h : Chain g fat c cs) (hc : HasData g c) : cs ≠ [] := by
  rintro rfl
  cases h with
  | nil hend => exact absurd hend (Nat.not_le.mpr (hc.isCluster hg).2)

theorem end_of_last (h : Chain g fat c (pre ++ [last])) : fat32ClusterEnd ≤ fat last := by
  cases h.suffix with
  | cons _ ht =>
    cases ht with
    | nil hend => exact hend

/-- Behind its last cluster a chain goes on where the new entry of that leads. -/
theorem extend (h : Chain g fat c (pre ++ [last])) (hsame : ∀ d ∈ pre, fat' d = fat d) (hnext : Chain g fat' (fat' last) cs) :
    Chain g fat' c (pre ++ last :: cs) := by
  induction pre generalizing c with
  | nil =>
    cases h with
    | cons hc _ => exact .cons hc hnext
  | cons d pre ih =>
    cases h with
    | cons hc ht =>
      have hrest := ih ht fun e he => hsame e (mem_cons_of_mem _ he)
      rw [← hsame d mem_cons_self] at hrest
      exact .cons hc hrest

end Chain

theorem entryValue_end : entryValue fat32ClusterEnd = fat32ClusterEnd := by decide

theorem HasData.entryValue (hg : g.Valid) {c : Nat} (hc : HasData g c) : entryValue c = c := by
  have h := hg.clusters
  have hlt := hc.2
  unfold fat32ClusterEnd at h
  exact Nat.mod_eq_of_lt (by omega)

/-! ## Growth -/

/-- The chain of a file and that of a directory, which have no cluster in common. -/
structure Beside (g : Geometry) (v : Volume) (c : Nat) (ch : List Nat) (parent : Nat) (dch : List Nat) : Prop where
  file : Chain g v.fat c ch
  dir : Chain g v.fat parent dch
  apart : ∀ d ∈ dch, d ∉ ch

/-- The clusters that a file has and may get. -/
def Volume.room (g : Geometry) (v : Volume) (ch : List Nat) : Nat := ch.length + (freeSet g v).card

/-- A chain that got free clusters at its end, on a volume with the same data. The entries of all other
clusters that are taken are as they were. -/
structure Grown (g : Geometry) (v : Volume) (ch : List Nat) (v' : Volume) (ch' : List Nat) : Prop where
  disk : v'.disk = v.disk
  chain : ch <+: ch'
  room : v'.room g ch' = v.room g ch
  fresh : ∀ e ∈ ch', e ∈ ch ∨ v.fat e = 0
  others : ∀ e, v.fat e ≠ 0 → e ∉ ch → v'.fat e = v.fat e

theorem Grown.refl (ch : List Nat) : Grown g v ch v ch :=
  ⟨rfl, prefix_rfl, rfl, fun _ he => .inl he, fun _ _ _ => rfl⟩

/-- What is free later was free before. -/
theorem Grown.was_free {v' : Volume} {ch ch' : List Nat} (h : Grown g v ch v' ch') {e : Nat} (he : e ∉ ch) (h0 : v'.fat e = 0) :
    v.fat e = 0 := by
  by_contra hne
  exact hne ((h.others e hne he).symm.trans h0)

theorem Grown.trans {v' v'' : Volume} {ch ch' ch'' : List Nat} (h : Grown g v ch v' ch') (h' : Grown g v' ch' v'' ch'') :
    Grown g v ch v'' ch'' where
  disk := h'.disk.trans h.disk
  chain := h.chain.trans h'.chain
  room := h'.room.trans h.room
  fresh := fun e he => by
    rcases h'.fresh e he with hin | h0
    · exact h.fresh e hin
    · by_cases hin : e ∈ ch
      · exact .inl hin
      · exact .inr (h.was_free hin h0)
  others := fun e hne hnot => by
    have hsame := h.others e hne hnot
    have hnot' : e ∉ ch' := fun hin => (h.fresh e hin).elim hnot hne
    rw [← hsame]
    exact h'.others e (hsame ▸ hne) hnot'

variable {c parent : Nat} {ch dch : List Nat}

/-- A first cluster for a file that has none. -/
theorem Beside.first {new : Nat} (hdir : Chain g v.fat parent dch) (hfree : v.free g = some new)
    (hnew : HasData g new) (h0 : v.fat new = 0) :
    Beside g (v.setFat new fat32ClusterEnd) new [new] parent dch ∧ Grown g v [] (v.setFat new fat32ClusterEnd) [new] := by
  have hself : (v.setFat new fat32ClusterEnd).fat new = fat32ClusterEnd := by
    simp only [Volume.setFat, update_self, entryValue_end]
  refine ⟨⟨.cons hnew (.nil (Nat.le_of_eq hself.symm)), hdir.congr fun d hd => ?_, fun d hd hin => ?_⟩, rfl, nil_prefix, ?_,
    fun e he => .inr (mem_singleton.mp he ▸ h0), fun e hne _ => update_of_ne (fun heq : e = new => hne (heq ▸ h0)) _ _⟩
  · refine update_of_ne ?_ _ _
    rintro rfl
    exact hdir.fat_ne_zero d hd h0
  · obtain rfl := mem_singleton.mp hin
    exact hdir.fat_ne_zero d hd h0
  · have hcard := Finset.card_erase_add_one (free_mem_freeSet hfree)
    unfold Volume.room
    rw [freeSet_setFat (by decide)]
    simp only [length_cons, length_nil]
    omega

/-- One more cluster at the end of a chain. -/
theorem Beside.extend (hg : g.Valid) {pre : List Nat} {last new : Nat} (h : Beside g v c (pre ++ [last]) parent dch)
    (hfree : v.free g = some new) (hnew : HasData g new) (h0 : v.fat new = 0) :
    Beside g ((v.setFat new fat32ClusterEnd).setFat last new) c (pre ++ [last, new]) parent dch ∧
      Grown g v (pre ++ [last]) ((v.setFat new fat32ClusterEnd).setFat last new) (pre ++ [last, new]) := by
  have hlast : last ∈ pre ++ [last] := mem_append_right _ (mem_singleton_self last)
  have hnot : ∀ {d : Nat}, v.fat d ≠ 0 → d ≠ new := fun hd heq => hd (heq ▸ h0)
  have hne : new ≠ last := (hnot (h.file.fat_ne_zero last hlast)).symm
  have hkeep : ∀ d, d ≠ last → v.fat d ≠ 0 → ((v.setFat new fat32ClusterEnd).setFat last new).fat d = v.fat d := fun d hd hd0 =>
    (update_of_ne hd _ _).trans (update_of_ne (hnot hd0) _ _)
  have hto : ((v.setFat new fat32ClusterEnd).setFat last new).fat last = new := by
    simp only [Volume.setFat, update_self, hnew.entryValue hg]
  have hend : ((v.setFat new fat32ClusterEnd).setFat last new).fat new = fat32ClusterEnd := by
    simp only [Volume.setFat, update_of_ne hne, update_self, entryValue_end]
  have hpre : ∀ d ∈ pre, d ≠ last := by
    rintro d hd rfl
    have hnodup := nodup_append.mp (h.file.nodup hg)
    exact hnodup.2.2 d hd d (mem_singleton_self d) rfl
  refine ⟨⟨h.file.extend (fun d hd => hkeep d (hpre d hd) (h.file.fat_ne_zero d (mem_append_left _ hd))) ?_,
    h.dir.congr fun d hd => hkeep d ?_ (h.dir.fat_ne_zero d hd), fun d hd hin => ?_⟩, rfl, ⟨[new], by simp⟩, ?_, fun e he => ?_,
    fun e hne hin => hkeep e (fun heq => hin (heq ▸ hlast)) hne⟩
  · rw [hto]
    exact .cons hnew (.nil (Nat.le_of_eq hend.symm))
  · rintro rfl
    exact h.apart d hd hlast
  · rw [append_cons] at hin
    rcases mem_append.mp hin with hin | hin
    · exact h.apart d hd hin
    · exact hnot (h.dir.fat_ne_zero d hd) (mem_singleton.mp hin)
  · have hcard := Finset.card_erase_add_one (free_mem_freeSet hfree)
    have hused : last ∉ (freeSet g v).erase new := fun hin =>
      h.file.fat_ne_zero last hlast (mem_freeSet.mp (Finset.mem_of_mem_erase hin)).2
    have hvalue : entryValue new ≠ 0 := by
      rw [hnew.entryValue hg]
      have h2 := hnew.1
      omega
    unfold Volume.room
    rw [freeSet_setFat hvalue, freeSet_setFat (by decide), Finset.erase_eq_of_notMem hused]
    simp only [length_append, length_cons, length_nil]
    omega
  · rw [append_cons] at he
    rcases mem_append.mp he with he | he
    · exact .inl he
    · exact .inr (mem_singleton.mp he ▸ h0)

/-! ## Steps along the chain -/

/-- The next cluster is there, or is made as long as one is free. -/
theorem run_nextOrNew (hg : g.Valid) {k d : Nat} (h : Beside g v c ch parent dch) (hd : ch[k]? = some d) :
    (k + 1 < v.room g ch → ∃ e v' ch', Prog.run (onVolume g) (nextOrNew g d) v = .ok (some e, v') ∧
      Beside g v' c ch' parent dch ∧ ch'[k + 1]? = some e ∧ Grown g v ch v' ch') ∧
    (v.room g ch ≤ k + 1 → Prog.run (onVolume g) (nextOrNew g d) v = .ok (none, v)) := by
  obtain ⟨hk, hget⟩ := List.getElem?_eq_some_iff.mp hd
  have hdata : HasData g d := h.file.hasData d (hget ▸ getElem_mem hk)
  have hsplit : ch = ch.take k ++ d :: ch.drop (k + 1) := by
    rw [← hget, getElem_cons_drop, take_append_drop]
  unfold nextOrNew
  rw [Prog.run_bind_ok (run_readFatEntry hg hdata)]
  cases hrest : ch.drop (k + 1) with
  | cons e post =>
    have hlt : k + 1 < ch.length := by
      have hlen := congrArg List.length hrest
      simp only [length_drop, length_cons] at hlen
      omega
    have hnext : HasData g (v.fat d) ∧ v.fat d = e := by
      have hsuf := h.file
      rw [hsplit, hrest] at hsuf
      cases hsuf.suffix with
      | cons _ ht =>
        cases ht with
        | cons hnext _ => exact ⟨hnext, rfl⟩
    refine ⟨fun _ => ⟨e, v, ch, ?_, h, ?_, .refl ch⟩, fun hroom => ?_⟩
    · rw [if_pos (hnext.1.isCluster hg).2, hnext.2]
      rfl
    · have hhead : (ch.drop (k + 1)).head? = some e := by
        rw [hrest]
        rfl
      rwa [List.head?_drop] at hhead
    · unfold Volume.room at hroom
      omega
  | nil =>
    rw [hrest] at hsplit
    have hlen : ch.length = k + 1 := by
      have hle := drop_eq_nil_iff.mp hrest
      omega
    have hend : fat32ClusterEnd ≤ v.fat d := by
      have hfile := h.file
      rw [hsplit] at hfile
      exact hfile.end_of_last
    rw [if_neg (Nat.not_lt.mpr hend)]
    obtain ⟨hfull, hrun⟩ | ⟨new, hfree, hnew, h0, hrun⟩ := run_allocate (v := v) hg
    · rw [Prog.run_bind_ok hrun, if_pos rfl]
      have hzero := card_freeSet_of_none hfull
      refine ⟨fun hroom => ?_, fun _ => rfl⟩
      unfold Volume.room at hroom
      omega
    · have hpos : new ≠ 0 := by
        have h2 := hnew.1
        omega
      rw [Prog.run_bind_ok hrun, if_neg hpos, Prog.run_bind_ok (run_writeFatEntry hg hdata new)]
      rw [hsplit] at h
      obtain ⟨hbeside, hgrown⟩ := h.extend hg hfree hnew h0
      rw [← hsplit] at hgrown
      refine ⟨fun _ => ⟨new, _, _, rfl, hbeside, ?_, hgrown⟩, fun hroom => ?_⟩
      · have htake : (ch.take k).length = k := length_take_of_le (by omega)
        rw [List.getElem?_append_right (by omega), htake]
        simp
      · have hcard := Finset.card_pos.mpr ⟨new, free_mem_freeSet hfree⟩
        unfold Volume.room at hroom
        omega

/-- The loop that skips comes to the cluster of the offset, if the file may have so many. -/
theorem run_skipClusters (hg : g.Valid) : ∀ (n k d : Nat) (v : Volume) (ch : List Nat), Beside g v c ch parent dch →
    ch[k]? = some d →
    (k + n < v.room g ch → ∃ e v' ch', Prog.run (onVolume g) (skipClusters g n d) v = .ok (some e, v') ∧
      Beside g v' c ch' parent dch ∧ ch'[k + n]? = some e ∧ Grown g v ch v' ch') ∧
    (v.room g ch ≤ k + n → ∃ v', Prog.run (onVolume g) (skipClusters g n d) v = .ok (none, v'))
  | 0, k, d, v, ch, h, hd => by
    obtain ⟨hk, -⟩ := List.getElem?_eq_some_iff.mp hd
    refine ⟨fun _ => ⟨d, v, ch, rfl, h, hd, .refl ch⟩, fun hroom => ?_⟩
    unfold Volume.room at hroom
    omega
  | n + 1, k, d, v, ch, h, hd => by
    obtain ⟨hnext, hnone⟩ := run_nextOrNew hg h hd
    unfold skipClusters
    by_cases hk : k + 1 < v.room g ch
    · obtain ⟨e, v₁, ch₁, hrun, h₁, he, hgrown⟩ := hnext hk
      obtain ⟨hin, hout⟩ := run_skipClusters hg n (k + 1) e v₁ ch₁ h₁ he
      rw [hgrown.room, Nat.add_assoc, Nat.add_comm 1 n] at hin hout
      rw [Prog.run_bind_ok hrun]
      refine ⟨fun hroom => ?_, hout⟩
      obtain ⟨e', v', ch', hskip, h', he', hgrown'⟩ := hin hroom
      exact ⟨e', v', ch', hskip, h', he', hgrown.trans hgrown'⟩
    · rw [Prog.run_bind_ok (hnone (Nat.le_of_not_lt hk))]
      exact ⟨fun hroom => absurd hroom (by omega), fun _ => ⟨v, rfl⟩⟩

end Serotonin.Fat32
