import Serotonin.Vmm.Structure

/-! What `map_page` and `unmap_page` do to the page maps, and to the frames of page
tables: a table of a user slot exists exactly as long as it maps something, and for
every frame the times it was taken for a table, less the times it was given back,
less its use as a table now, never changes. -/

namespace Serotonin.Vmm

variable {α : Type}

/-- A frame in use as a table that one directory owns. -/
def Owned (L : Layout) (s : Machine α) (f : UInt32) : Prop :=
  ∃ d i, L.dirs d ∧ i < kmapPdeBase ∧ ¬L.shared i ∧ table s.mem d i = some f

open Classical in
noncomputable def ownedCount (L : Layout) (s : Machine α) (f : UInt32) : Int :=
  if Owned L s f then 1 else 0

/-- Taken, not given back, and not in use: always as many. -/
noncomputable def balance (L : Layout) (s : Machine α) (f : UInt32) : Int :=
  s.log.count (.allocTable f) - s.log.count (.freeTable f) - ownedCount L s f

theorem ownedCount_pos {L : Layout} {s : Machine α} {f : UInt32} (h : Owned L s f) :
    ownedCount L s f = 1 := if_pos h

theorem ownedCount_neg {L : Layout} {s : Machine α} {f : UInt32} (h : ¬Owned L s f) :
    ownedCount L s f = 0 := if_neg h

theorem ownedCount_congr {L : Layout} {s s' : Machine α} {f : UInt32}
    (h : Owned L s' f ↔ Owned L s f) : ownedCount L s' f = ownedCount L s f := by
  by_cases hs : Owned L s f
  · rw [ownedCount_pos hs, ownedCount_pos (h.mpr hs)]
  · rw [ownedCount_neg hs, ownedCount_neg fun hs' => hs (h.mp hs')]

/-- The layout, and no user slot has a table that maps nothing. -/
structure Good (L : Layout) (avail : α → UInt32 → Prop) (s : Machine α) : Prop where
  struct : Struct L avail s
  used : ∀ d i t, L.dirs d → i < kernelPdeBase → ¬L.shared i → table s.mem d i = some t →
    ¬EmptyTable (s.mem t)

/-- The page maps after one page of one directory was set. -/
structure SetsPage (L : Layout) (s s' : Machine α) (d : UInt32) (pdi pti : Nat) (v : Option UInt32) :
    Prop where
  page : view s'.mem d pdi pti = v
  others : ∀ d' i j, L.dirs d' → i < kmapPdeBase → j < pageEntries → (d' ≠ d ∨ i ≠ pdi ∨ j ≠ pti) →
    view s'.mem d' i j = view s.mem d' i j

section
variable {L : Layout} {A : FrameAlloc α} {avail : α → UInt32 → Prop} {s s' : Machine α}
  {d t : UInt32} {pdi pti : Nat}

theorem view_of_table {m : Memory} {j : Nat} (h : table m d pdi = some t) :
    view m d pdi j = table m t j := by
  unfold view
  rw [h]
  rfl

theorem view_none {m : Memory} {j : Nat} (h : table m d pdi = none) : view m d pdi j = none := by
  unfold view
  rw [h]
  rfl

/-- A view depends on the directory entry and on the table. -/
theorem view_congr {m m' : Memory} {j : Nat} (h : table m' d pdi = table m d pdi)
    (hk : ∀ t, table m d pdi = some t → m' t = m t) : view m' d pdi j = view m d pdi j := by
  cases ht : table m d pdi with
  | none => rw [view_none ht, view_none (h.trans ht)]
  | some t =>
    rw [view_of_table ht, view_of_table (h.trans ht)]
    unfold table
    rw [hk t ht]

theorem Struct.table_poke (h : Struct L avail s) (hd : L.dirs d) (hi : pdi < kmapPdeBase)
    (ht : table s.mem d pdi = some t) (j : Nat) (x : UInt32) {d' : UInt32} (hd' : L.dirs d') (i : Nat) :
    table (s.poke t j x).mem d' i = table s.mem d' i :=
  table_set_ne (.inl fun he : d' = t => (h.apart d pdi t hd hi ht).1 (he ▸ hd')) x

/-- An entry set in a table that one directory owns changes that page only. -/
theorem Struct.setsPage (h : Struct L avail s) (hd : L.dirs d) (hi : pdi < kmapPdeBase)
    (hs : ¬L.shared pdi) (ht : table s.mem d pdi = some t) (pti : Nat) (x : UInt32) :
    SetsPage L s (s.poke t pti x) d pdi pti (if present x then some (frameOf x) else none) := by
  have htab : ∀ {d'} i, L.dirs d' → table (s.poke t pti x).mem d' i = table s.mem d' i :=
    fun i hd' => h.table_poke hd hi ht pti x hd' i
  refine ⟨?_, fun d' i j hd' hi' _ hne => ?_⟩
  · have hset : (s.poke t pti x).mem t pti = x := set_self ..
    rw [view_of_table ((htab pdi hd).trans ht)]
    unfold table
    rw [hset]
  · by_cases hslot : d' = d ∧ i = pdi
    · obtain ⟨rfl, rfl⟩ := hslot
      rw [view_of_table ((htab i hd).trans ht), view_of_table ht]
      exact table_set_ne (.inr (by simpa using hne)) x
    · refine view_congr (htab i hd') fun t' ht' => ?_
      funext k
      refine set_ne (.inl fun he => hslot ?_) x
      subst he
      exact h.own d pdi d' i t' hd hd' hi hi' hs ht ht'

theorem owned_congr {f : UInt32} (h : ∀ d i, L.dirs d → table s'.mem d i = table s.mem d i) :
    Owned L s' f ↔ Owned L s f := by
  constructor
  · rintro ⟨d, i, hd, hi, hs, ht⟩
    exact ⟨d, i, hd, hi, hs, by rw [← h d i hd]; exact ht⟩
  · rintro ⟨d, i, hd, hi, hs, ht⟩
    exact ⟨d, i, hd, hi, hs, by rw [h d i hd]; exact ht⟩

theorem balance_congr {f : UInt32} (h : ∀ d i, L.dirs d → table s'.mem d i = table s.mem d i)
    (hlog : s'.log = s.log) : balance L s' f = balance L s f := by
  unfold balance
  rw [hlog, ownedCount_congr (owned_congr h)]

/-! ## map_page -/

theorem MadeTable.view_eq (h : MadeTable L s s' d pdi t) {d' : UInt32} {i j : Nat} (hd' : L.dirs d')
    (hi : i < kmapPdeBase) (hj : j < pageEntries) : view s'.mem d' i j = view s.mem d' i j := by
  by_cases hslot : d' = d ∧ i = pdi
  · obtain ⟨rfl, rfl⟩ := hslot
    cases ht : table s.mem d' i with
    | none =>
      rw [view_none ht, view_of_table h.made]
      exact table_eq_none.mpr ((h.fresh ht).1 j hj)
    | some t0 => rw [h.found (by rw [ht]; simp)]
  · exact view_congr (h.others d' i hd' (not_and_or.mp hslot)) fun t' ht' =>
      h.keep d' i t' hd' hi ht'

theorem MadeTable.balance_eq (h : MadeTable L s s' d pdi t) (hd : L.dirs d) (hi : pdi < kmapPdeBase)
    (hs : ¬L.shared pdi) (f : UInt32) : balance L s' f = balance L s f := by
  cases ht : table s.mem d pdi with
  | some t0 => rw [h.found (by rw [ht]; simp)]
  | none =>
    obtain ⟨_, hap, hlog⟩ := h.fresh ht
    have hother : f ≠ t → (Owned L s' f ↔ Owned L s f) := by
      intro hf
      constructor
      · rintro ⟨d', i, hd', hi', hs', ht'⟩
        refine ⟨d', i, hd', hi', hs', ?_⟩
        by_cases hslot : d' = d ∧ i = pdi
        · obtain ⟨rfl, rfl⟩ := hslot
          rw [h.made] at ht'
          exact absurd (Option.some.inj ht').symm hf
        · rw [← h.others d' i hd' (not_and_or.mp hslot)]
          exact ht'
      · rintro ⟨d', i, hd', hi', hs', ht'⟩
        refine ⟨d', i, hd', hi', hs', ?_⟩
        rw [h.others d' i hd']
        · exact ht'
        · refine not_and_or.mp fun hslot => ?_
          obtain ⟨rfl, rfl⟩ := hslot
          rw [ht] at ht'
          cases ht'
    unfold balance
    rw [hlog, List.count_cons, List.count_cons]
    by_cases hf : f = t
    · subst hf
      have hnew : Owned L s' f := ⟨d, pdi, hd, hi, hs, h.made⟩
      have hold : ¬Owned L s f := fun ⟨d', i, hd', hi', _, ht'⟩ => hap.tables d' i hd' hi' ht'
      rw [ownedCount_pos hnew, ownedCount_neg hold, if_pos (beq_self_eq_true _), if_neg (by simp)]
      push_cast
      omega
    · rw [ownedCount_congr (hother hf), if_neg (by simpa using Ne.symm hf), if_neg (by simp)]
      rfl

theorem Good.mapIn (h : Good L avail s) (hA : Lawful A avail) (hd : L.dirs d) (hi : pdi < kmapPdeBase)
    (hs : ¬L.shared pdi) (hpti : pti < pageEntries) {flags entry : UInt32} {overwrite : Bool}
    (hentry : present entry = true)
    (hrun : Vmm.mapIn A s d pdi pti (pdeFlagsOf flags) entry overwrite = .ok s') :
    Good L avail s' ∧ SetsPage L s s' d pdi pti (some (frameOf entry)) ∧
    (∀ f, balance L s' f = balance L s f) ∧
    ∀ f, s'.log.count (.freeTable f) = s.log.count (.freeTable f) := by
  unfold Vmm.mapIn at hrun
  cases htf : tableFor A s d pdi (pdeFlagsOf flags) with
  | error e => rw [htf] at hrun; cases hrun
  | ok r =>
    obtain ⟨t, s1⟩ := r
    rw [htf] at hrun
    obtain ⟨h1, hm⟩ := h.struct.tableFor hA hd hi flags htf
    simp only [ok_bind] at hrun
    split at hrun
    · cases hrun
    cases hrun
    have hsets := h1.setsPage hd hi hs hm.made pti entry
    rw [if_pos hentry] at hsets
    have htab : ∀ d' i, L.dirs d' → table (s1.poke t pti entry).mem d' i = table s1.mem d' i :=
      fun d' i hd' => h1.table_poke hd hi hm.made pti entry hd' i
    refine ⟨⟨h1.pokeTable hd hi hm.made pti entry, fun d' i t' hd' hi' hs' ht' hempty => ?_⟩,
      ⟨hsets.page, fun d' i j hd' hi' hj hne =>
        (hsets.others d' i j hd' hi' hj hne).trans (hm.view_eq hd' hi' hj)⟩,
      fun f => (balance_congr htab rfl).trans (hm.balance_eq hd hi hs f), fun f => ?_⟩
    · -- the table just written has the new entry, every other one what it had
      have hi'' : i < kmapPdeBase := Nat.lt_trans hi' (by decide)
      rw [htab d' i hd'] at ht'
      by_cases hslot : d' = d ∧ i = pdi
      · obtain ⟨rfl, rfl⟩ := hslot
        rw [hm.made] at ht'
        cases ht'
        have hset : (s1.poke t pti entry).mem t pti = entry := set_self ..
        have := hempty pti hpti
        rw [hset, hentry] at this
        cases this
      · have htt : t' ≠ t := by
          rintro rfl
          exact hslot (h1.own d pdi d' i t' hd hd' hi hi'' hs hm.made ht')
        rw [hm.others d' i hd' (not_and_or.mp hslot)] at ht'
        refine h.used d' i t' hd' hi' hs' ht' fun j hj => ?_
        have := hempty j hj
        rw [show (s1.poke t pti entry).mem t' j = s1.mem t' j from set_ne (.inl htt) entry,
          hm.keep d' i t' hd' hi'' ht'] at this
        exact this
    · show s1.log.count _ = _
      cases ht : table s.mem d pdi with
      | some t0 => rw [hm.found (by rw [ht]; simp)]
      | none => rw [(hm.fresh ht).2.2, List.count_cons, if_neg (by simp), Nat.add_zero]

/-! ## unmap_page -/

/-- A mapped page given back is none of the frames the directories are made of. -/
theorem Good.freeMapped (h : Good L avail s) (hA : Lawful A avail) {entry : UInt32} {fr : Bool}
    (hfr : fr = true → Apart L s (frameOf entry) ∧ ¬avail s.frames (frameOf entry)) :
    Good L avail (freeMapped A s entry fr) := by
  obtain ⟨hm, hc, hk⟩ := freeMapped_frame A s entry fr
  refine ⟨h.struct.congr (fun _ _ => by rw [hm]) hc hk fun f hf => ?_, fun d i t hd hi hs ht => ?_⟩
  · unfold Vmm.freeMapped at hf
    split at hf
    · rename_i hfr'
      obtain ⟨hap, hnot⟩ := hfr hfr'
      rcases hA.free hnot f hf with hold | rfl
      · exact h.struct.avail f hold
      · exact hap
    · exact h.struct.avail f hf
  · rw [hm] at ht ⊢
    exact h.used d i t hd hi hs ht

/-- When the last entry of a user table goes, and only then, the table goes back. -/
theorem Good.removeEntry (h : Good L avail s) (hA : Lawful A avail) (hd : L.dirs d)
    (hi : pdi < kmapPdeBase) (hs : ¬L.shared pdi) (ht : table s.mem d pdi = some t) :
    Good L avail (removeEntry A s d pdi pti t) ∧
    SetsPage L s (removeEntry A s d pdi pti t) d pdi pti none ∧
    (∀ f, balance L (removeEntry A s d pdi pti t) f = balance L s f) ∧
    (removeEntry A s d pdi pti t).log =
      if pdi < kernelPdeBase ∧ EmptyTable ((s.poke t pti 0).mem t) then .freeTable t :: s.log
      else s.log := by
  have h1 := h.struct.pokeTable hd hi ht pti 0
  have hsets := h.struct.setsPage hd hi hs ht pti 0
  rw [if_neg (by rw [present_zero]; exact Bool.false_ne_true)] at hsets
  have htab : ∀ d' i, L.dirs d' → table (s.poke t pti 0).mem d' i = table s.mem d' i :=
    fun d' i hd' => h.struct.table_poke hd hi ht pti 0 hd' i
  -- the tables of other slots keep their entries
  have hused : ∀ d' i t', L.dirs d' → i < kernelPdeBase → ¬L.shared i → ¬(d' = d ∧ i = pdi) →
      table s.mem d' i = some t' → ¬EmptyTable ((s.poke t pti 0).mem t') := by
    intro d' i t' hd' hi' hs' hslot ht' hempty
    have htt : t' ≠ t := by
      rintro rfl
      exact hslot (h.struct.own d pdi d' i t' hd hd' hi (Nat.lt_trans hi' (by decide)) hs ht ht')
    refine h.used d' i t' hd' hi' hs' ht' fun j hj => ?_
    rw [← show (s.poke t pti 0).mem t' j = s.mem t' j from set_ne (.inl htt) 0]
    exact hempty j hj
  unfold Vmm.removeEntry
  dsimp only
  by_cases hgone : pdi < kernelPdeBase ∧ EmptyTable ((s.poke t pti 0).mem t)
  · rw [if_pos hgone]
    have h2 := h1.pokeDir hd hi 0 fun hp => by rw [present_zero] at hp; cases hp
    have hnot : ¬avail s.frames t := fun hav => (h.struct.avail t hav).tables d pdi hd hi ht
    have hgoneTab : table ((s.poke t pti 0).poke d pdi 0).mem d pdi = none := by
      refine table_eq_none.mpr ?_
      rw [show ((s.poke t pti 0).poke d pdi 0).mem d pdi = 0 from set_self ..]
      exact present_zero
    have hother : ∀ d' i, L.dirs d' → ¬(d' = d ∧ i = pdi) →
        table ((s.poke t pti 0).poke d pdi 0).mem d' i = table s.mem d' i := fun d' i hd' hslot =>
      (table_set_ne (not_and_or.mp hslot) 0).trans (htab d' i hd')
    have hkeep : ∀ d' i t', L.dirs d' → i < kmapPdeBase → table s.mem d' i = some t' →
        ((s.poke t pti 0).poke d pdi 0).mem t' = (s.poke t pti 0).mem t' := by
      intro d' i t' hd' hi' ht'
      funext j
      exact set_ne (.inl fun he : t' = d => (h.struct.apart d' i t' hd' hi' ht').1 (he ▸ hd)) 0
    refine ⟨⟨h2.congr (fun _ _ => rfl) rfl rfl fun f hf => ?_, fun d' i t' hd' hi' hs' ht' => ?_⟩,
      ⟨view_none hgoneTab, fun d' i j hd' hi' hj hne => ?_⟩, fun f => ?_, (if_pos hgone).symm⟩
    · rcases hA.free hnot f hf with hold | rfl
      · exact h2.avail f hold
      · obtain ⟨ha1, ha2⟩ := h.struct.apart d pdi f hd hi ht
        refine ⟨ha1, ha2, fun d' i hd' hi' ht' => ?_⟩
        by_cases hslot : d' = d ∧ i = pdi
        · obtain ⟨rfl, rfl⟩ := hslot
          rw [hgoneTab] at ht'
          cases ht'
        · rw [hother d' i hd' hslot] at ht'
          exact hslot (h.struct.own d pdi d' i f hd hd' hi hi' hs ht ht')
    · have hslot : ¬(d' = d ∧ i = pdi) := by
        rintro ⟨rfl, rfl⟩
        have hnone : some t' = none := ht'.symm.trans hgoneTab
        cases hnone
      have ht0 : table s.mem d' i = some t' := (hother d' i hd' hslot).symm.trans ht'
      intro hempty
      refine hused d' i t' hd' hi' hs' hslot ht0 ?_
      rw [← hkeep d' i t' hd' (Nat.lt_trans hi' (by decide)) ht0]
      exact hempty
    · show view ((s.poke t pti 0).poke d pdi 0).mem d' i j = _
      rw [← hsets.others d' i j hd' hi' hj hne]
      by_cases hslot : d' = d ∧ i = pdi
      · obtain ⟨rfl, rfl⟩ := hslot
        rw [view_none hgoneTab, view_of_table ((htab d' i hd').trans ht)]
        exact (table_eq_none.mpr (hgone.2 j hj)).symm
      · refine view_congr (table_set_ne (not_and_or.mp hslot) 0) fun t' ht' => ?_
        exact hkeep d' i t' hd' hi' ((htab d' i hd').symm.trans ht')
    · have hown : Owned L (((s.poke t pti 0).poke d pdi 0).freeTable A t) f ↔ Owned L s f ∧ f ≠ t := by
        constructor
        · rintro ⟨d', i, hd', hi', hs', ht'⟩
          have hslot : ¬(d' = d ∧ i = pdi) := by
            rintro ⟨rfl, rfl⟩
            have hnone : some f = none := ht'.symm.trans hgoneTab
            cases hnone
          have ht0 : table s.mem d' i = some f := (hother d' i hd' hslot).symm.trans ht'
          refine ⟨⟨d', i, hd', hi', hs', ht0⟩, ?_⟩
          rintro rfl
          exact hslot (h.struct.own d pdi d' i f hd hd' hi hi' hs ht ht0)
        · rintro ⟨⟨d', i, hd', hi', hs', ht'⟩, hf⟩
          refine ⟨d', i, hd', hi', hs', (hother d' i hd' ?_).trans ht'⟩
          rintro ⟨rfl, rfl⟩
          exact hf (Option.some.inj (ht'.symm.trans ht))
      unfold balance
      show (List.count (.allocTable f) (.freeTable t :: s.log) : Int) -
        List.count (.freeTable f) (.freeTable t :: s.log) - _ = _
      rw [List.count_cons, List.count_cons, if_neg (by simp)]
      by_cases hf : f = t
      · subst hf
        have hold : Owned L s f := ⟨d, pdi, hd, hi, hs, ht⟩
        rw [if_pos (beq_self_eq_true _), ownedCount_pos hold, ownedCount_neg fun h => (hown.mp h).2 rfl]
        push_cast
        omega
      · rw [if_neg (by simpa using Ne.symm hf), ownedCount_congr (hown.trans (and_iff_left hf))]
        rfl
  · rw [if_neg hgone]
    refine ⟨⟨h1, fun d' i t' hd' hi' hs' ht' => ?_⟩, hsets, fun f => balance_congr htab rfl,
      (if_neg hgone).symm⟩
    rw [htab d' i hd'] at ht'
    by_cases hslot : d' = d ∧ i = pdi
    · obtain ⟨rfl, rfl⟩ := hslot
      rw [ht] at ht'
      cases ht'
      exact fun hempty => hgone ⟨hi', hempty⟩
    · exact hused d' i t' hd' hi' hs' hslot ht'

end

end Serotonin.Vmm
