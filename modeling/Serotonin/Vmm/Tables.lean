import Serotonin.Vmm.Windows

/-! The operations on physical memory: what `map_page`, `unmap_page` and
`get_mapping` do to the tables of a directory, with no window in between. The path
through the current directory does exactly this; the path through the window of
`kmap` does this and leaves the window closed. -/

namespace Serotonin.Vmm

variable {α : Type}

/-- The table of a directory entry, made if there is none. -/
def tableFor (A : FrameAlloc α) (s : Machine α) (d : UInt32) (pdi : Nat) (pdeFlags : UInt32) :
    Except Stop (UInt32 × Machine α) :=
  match table s.mem d pdi with
  | some t => .ok (t, s)
  | none => do
    let (f, s) ← allocTable A s
    .ok (frameOf f, (s.poke d pdi (tableEntry f pdeFlags)).clear (frameOf f) pageEntries)

def mapIn (A : FrameAlloc α) (s : Machine α) (d : UInt32) (pdi pti : Nat) (pdeFlags entry : UInt32)
    (overwrite : Bool) : Except Stop (Machine α) := do
  let (t, s) ← tableFor A s d pdi pdeFlags
  if present (s.mem t pti) && !overwrite then .error .panic else .ok (s.poke t pti entry)

/-- The entry removed, and the table with it if it was the last of a user slot. -/
def removeEntry (A : FrameAlloc α) (s : Machine α) (d : UInt32) (pdi pti : Nat) (t : UInt32) : Machine α :=
  let s := s.poke t pti 0
  if pdi < kernelPdeBase ∧ EmptyTable (s.mem t) then (s.poke d pdi 0).freeTable A t else s

def unmapIn (A : FrameAlloc α) (s : Machine α) (d : UInt32) (pdi pti : Nat) (freeFrameFlag : Bool) :
    Machine α :=
  match table s.mem d pdi with
  | none => s
  | some t =>
    if present (s.mem t pti) then
      removeEntry A (freeMapped A s (s.mem t pti) freeFrameFlag) d pdi pti t
    else s

/-- The page mapped at an entry of a directory and an entry of its table. -/
def view (m : Memory) (d : UInt32) (pdi pti : Nat) : Option UInt32 :=
  (table m d pdi).bind fun t => table m t pti

/-- What an operation on a slot of a directory takes for granted. -/
structure SlotOk (A : FrameAlloc α) (s : Machine α) (d : UInt32) (pdi : Nat) : Prop where
  windows : Windows s
  aligned : frameOf d = d
  dir : d ≠ s.kmapPt
  table : ∀ t, table s.mem d pdi = some t → t ≠ s.pd ∧ t ≠ s.kmapPt
  fresh : ∀ f a, A.allocFrame s.frames = some (f, a) →
    frameOf f ≠ s.pd ∧ frameOf f ≠ s.kmapPt ∧ frameOf f ≠ d
  slot : pdi < kmapPdeBase

@[simp] theorem ok_bind {β γ : Type} (a : β) (f : β → Except Stop γ) : (Except.ok a >>= f) = f a := rfl

/-! ## The allocator -/

theorem allocTable_ok {A : FrameAlloc α} {s s' : Machine α} {f : UInt32}
    (h : allocTable A s = .ok (f, s')) : ∃ a, A.allocFrame s.frames = some (f, a) ∧ f ≠ 0 ∧
      s' = { s with frames := a, log := .allocTable f :: s.log } := by
  unfold allocTable at h
  cases ha : A.allocFrame s.frames with
  | none => rw [ha] at h; cases h
  | some r =>
    obtain ⟨g, a⟩ := r
    rw [ha] at h
    dsimp only at h
    split at h
    · cases h
    · rename_i hg
      cases h
      exact ⟨a, rfl, hg, rfl⟩

theorem allocTable_slot (A : FrameAlloc α) (s : Machine α) (w : UInt32) :
    allocTable A (s.slot w) = (allocTable A s).map fun r => (r.1, r.2.slot w) := by
  unfold allocTable
  have hframes : (s.slot w).frames = s.frames := rfl
  rw [hframes]
  cases A.allocFrame s.frames with
  | none => rfl
  | some r =>
    obtain ⟨f, a⟩ := r
    dsimp only
    split <;> rfl

/-- The allocator does not touch the tables. -/
theorem Windows.alloc {A : FrameAlloc α} {s s' : Machine α} {f : UInt32} (h : Windows s)
    (ha : allocTable A s = .ok (f, s')) : Windows s' := by
  obtain ⟨a, _, _, rfl⟩ := allocTable_ok ha
  exact ⟨h.self, h.slot, h.ready, h.apart⟩

theorem table_clear_ne {s : Machine α} {p d : UInt32} {i n : Nat} (h : d ≠ p) :
    table (s.clear p n).mem d i = table s.mem d i := by
  have hkeep : (s.clear p n).mem d i = s.mem d i := by
    rw [Machine.clear_mem]
    exact if_neg fun hc => h hc.1
  unfold table
  rw [hkeep]

/-! ## map_page -/

theorem setEntry_eq {s : Machine α} {pt t : UInt32} {pti : Nat}
    (h : translate s.mem s.cr3 (word pt pti) = some (t, pti)) (entry : UInt32) (overwrite : Bool) :
    setEntry s pt pti entry overwrite =
      if present (s.mem t pti) && !overwrite then .error .panic else .ok (s.poke t pti entry) := by
  unfold setEntry
  rw [load_of h, store_of h]
  rfl

/-- The entry just made points to its table. -/
theorem table_made {s : Machine α} {d f flags : UInt32} {pdi n : Nat} (hf : frameOf f ≠ d) :
    table ((s.poke d pdi (tableEntry f (pdeFlagsOf flags))).clear (frameOf f) n).mem d pdi =
      some (frameOf f) := by
  rw [table_clear_ne fun he => hf he.symm]
  have hset : (s.poke d pdi (tableEntry f (pdeFlagsOf flags))).mem d pdi =
      tableEntry f (pdeFlagsOf flags) := set_self ..
  refine table_eq_some.mpr ⟨?_, ?_⟩
  · rw [hset]; exact present_tableEntry ..
  · rw [hset]; exact frameOf_tableEntry ..

theorem mapCurrent_eq {A : FrameAlloc α} {s : Machine α} {pdi pti : Nat} {flags : UInt32}
    (h : SlotOk A s s.pd pdi) (hpti : pti < 1024) (entry : UInt32) (overwrite : Bool) :
    mapCurrent A s pdi pti (pdeFlagsOf flags) entry overwrite =
      mapIn A s s.pd pdi pti (pdeFlagsOf flags) entry overwrite := by
  have hw := h.windows
  have hpdi : pdi < 1024 := Nat.lt_trans h.slot (by decide)
  unfold mapCurrent needTable mapIn tableFor
  rw [hw.load_pd hpdi, ok_bind]
  cases ht : table s.mem s.pd pdi with
  | some t =>
    rw [if_pos (table_eq_some.mp ht).1, ok_bind]
    dsimp only
    rw [ok_bind, setEntry_eq (hw.translate_pt ht hpdi hpti)]
  | none =>
    have hp := table_eq_none.mp ht
    rw [if_neg (by rw [hp]; exact Bool.false_ne_true)]
    dsimp only
    cases ha : allocTable A s with
    | error e => rfl
    | ok r =>
      obtain ⟨f, s1⟩ := r
      have hw1 := hw.alloc ha
      obtain ⟨a, hal, _, hs1⟩ := allocTable_ok ha
      have hpd : s1.pd = s.pd := by rw [hs1]; rfl
      have hfd := (h.fresh f a hal).1
      rw [← hpd] at hfd ⊢
      have hw2 := hw1.poke (tableEntry f (pdeFlagsOf flags)) (.inr h.slot) (p := s1.pd)
      have hset : memset (ptVa pdi) pageEntries (s1.poke s1.pd pdi (tableEntry f (pdeFlagsOf flags))) =
          .ok ((s1.poke s1.pd pdi (tableEntry f (pdeFlagsOf flags))).clear (frameOf f) pageEntries) :=
        hw2.memset_pt (table_made (n := 0) hfd) hpdi hfd pageEntries (Nat.le_refl _)
      have hclear : ((s1.poke s1.pd pdi (tableEntry f (pdeFlagsOf flags))).clear (frameOf f) pageEntries).pd =
          s1.pd := congrArg frameOf (Machine.clear_frame ..).1
      have hmade : table ((s1.poke s1.pd pdi (tableEntry f (pdeFlagsOf flags))).clear (frameOf f)
          pageEntries).mem ((s1.poke s1.pd pdi (tableEntry f (pdeFlagsOf flags))).clear (frameOf f)
          pageEntries).pd pdi = some (frameOf f) := by
        rw [hclear]
        exact table_made hfd
      simp only [ok_bind]
      rw [store_of (hw1.translate_pd hpdi), ok_bind, hset, ok_bind]
      exact setEntry_eq ((hw2.clear hfd pageEntries).translate_pt hmade hpdi hpti) entry overwrite

/-- The table found or made through the window. -/
theorem needTableForeign_eq {A : FrameAlloc α} {s : Machine α} {d : UInt32} {pdi : Nat}
    (h : SlotOk A s d pdi) (flags : UInt32) :
    (∃ e, needTableForeign A s d pdi (pdeFlagsOf flags) = .error e ∧
      tableFor A s d pdi (pdeFlagsOf flags) = .error e) ∨
    ∃ pde s', needTableForeign A s d pdi (pdeFlagsOf flags) = .ok (pde, s'.slot 0) ∧
      tableFor A s d pdi (pdeFlagsOf flags) = .ok (frameOf pde, s') ∧ Windows s' ∧
      frameOf pde ≠ s'.kmapPt ∧ frameOf pde ≠ s'.pd := by
  have hw := h.windows
  have hpdi : pdi < 1024 := Nat.lt_trans h.slot (by decide)
  have hdir : frameOf d ≠ s.kmapPt := by rw [h.aligned]; exact h.dir
  unfold needTableForeign tableFor
  rw [hw.kmap, ok_bind, hw.load_window hdir hpdi, h.aligned, ok_bind]
  cases ht : table s.mem d pdi with
  | some t =>
    obtain ⟨hp, rfl⟩ := table_eq_some.mp ht
    rw [if_pos hp, hw.kunmap_slot]
    exact .inr ⟨_, s, rfl, rfl, hw, (h.table _ ht).2, (h.table _ ht).1⟩
  | none =>
    have hp := table_eq_none.mp ht
    rw [if_neg (by rw [hp]; exact Bool.false_ne_true), allocTable_slot]
    cases ha : allocTable A s with
    | error e => exact .inl ⟨e, rfl, rfl⟩
    | ok r =>
      obtain ⟨f, s1⟩ := r
      have hw1 := hw.alloc ha
      obtain ⟨a, hal, _, hs1⟩ := allocTable_ok ha
      have hpd : s1.pd = s.pd := by rw [hs1]; rfl
      have hkp : s1.kmapPt = s.kmapPt := by rw [hs1]; rfl
      obtain ⟨hfd, hfk, _⟩ := h.fresh f a hal
      rw [← hpd] at hfd
      rw [← hkp] at hfk hdir
      refine .inr ⟨tableEntry f (pdeFlagsOf flags), _, ?_,
        by simp only [ok_bind]; rw [frameOf_tableEntry], ?_, ?_, ?_⟩
      · have hw2 := hw1.poke (tableEntry f (pdeFlagsOf flags)) (.inr h.slot) (p := d)
        have hstore := hw1.store_window hdir hpdi (tableEntry f (pdeFlagsOf flags))
        have hset : memset kmapBase pageEntries
            ((s1.poke d pdi (tableEntry f (pdeFlagsOf flags))).slot (windowEntry f)) = .ok
            (((s1.poke d pdi (tableEntry f (pdeFlagsOf flags))).clear (frameOf f) pageEntries).slot
              (windowEntry f)) := hw2.memset_window hfk hfd pageEntries (Nat.le_refl _)
        rw [h.aligned] at hstore
        simp only [Except.map, ok_bind]
        rw [hstore, ok_bind, hw2.kunmap_slot, ok_bind, hw2.kmap_slot, ok_bind, hset, ok_bind,
          (hw2.clear hfd pageEntries).kunmap_slot, ok_bind]
      · exact (hw1.poke _ (.inr h.slot)).clear hfd pageEntries
      · rw [frameOf_tableEntry, Machine.kmapPt, (Machine.clear_frame _ _ _).2.1]
        exact hfk
      · rw [frameOf_tableEntry, Machine.pd, (Machine.clear_frame _ _ _).1]
        exact hfd

theorem mapForeign_eq {A : FrameAlloc α} {s : Machine α} {d flags : UInt32} {pdi pti : Nat}
    (h : SlotOk A s d pdi) (hpti : pti < 1024) (entry : UInt32) (overwrite : Bool) :
    mapForeign A s d pdi pti (pdeFlagsOf flags) entry overwrite =
      (mapIn A s d pdi pti (pdeFlagsOf flags) entry overwrite).map (·.slot 0) := by
  unfold mapForeign mapIn
  rcases needTableForeign_eq h flags with ⟨e, h1, h2⟩ | ⟨pde, s', h1, h2, hw, hk, hd⟩
  · rw [h1, h2]
    rfl
  · rw [h1, h2]
    simp only [ok_bind]
    rw [hw.kmap_slot, ok_bind, setEntry_eq (hw.translate_window hpti), frameOf_frameOf,
      Machine.slot_mem hk]
    split
    · rfl
    · rw [ok_bind, Machine.slot_poke hk]
      exact (hw.poke entry (.inl hd)).kunmap_slot _

/-! ## unmap_page -/

/-- Freeing a mapped page is a call of the allocator. -/
theorem freeMapped_frame (A : FrameAlloc α) (s : Machine α) (entry : UInt32) (fr : Bool) :
    (freeMapped A s entry fr).mem = s.mem ∧ (freeMapped A s entry fr).cr3 = s.cr3 ∧
    (freeMapped A s entry fr).kmapPtPhys = s.kmapPtPhys := by
  unfold freeMapped
  split <;> exact ⟨rfl, rfl, rfl⟩

theorem Windows.freeMapped {s : Machine α} (h : Windows s) (A : FrameAlloc α) (entry : UInt32)
    (fr : Bool) : Windows (freeMapped A s entry fr) := by
  unfold Vmm.freeMapped
  split
  · exact ⟨h.self, h.slot, h.ready, h.apart⟩
  · exact h

theorem reclaimCurrent_eq {A : FrameAlloc α} {s : Machine α} {pdi : Nat} {t : UInt32} (hw : Windows s)
    (ht : table s.mem s.pd pdi = some t) (hpdi : pdi < 1024) :
    reclaimCurrent A s pdi = .ok (if pdi < kernelPdeBase ∧ EmptyTable (s.mem t) then
      (s.poke s.pd pdi 0).freeTable A t else s) := by
  unfold reclaimCurrent
  by_cases hu : pdi < kernelPdeBase
  · have hscan := isEmpty_eq fun i hi => load_of (hw.translate_pt ht hpdi hi)
    rw [if_pos hu, hscan, ok_bind]
    by_cases he : EmptyTable (s.mem t)
    · rw [if_pos (decide_eq_true he), if_pos ⟨hu, he⟩, hw.load_pd hpdi, ok_bind,
        store_of (hw.translate_pd hpdi), ok_bind, (table_eq_some.mp ht).2]
    · rw [if_neg (by simpa using he), if_neg fun h => he h.2]
  · rw [if_neg hu, if_neg fun h => hu h.1]

theorem unmapCurrent_eq {A : FrameAlloc α} {s : Machine α} {pdi pti : Nat} (h : SlotOk A s s.pd pdi)
    (hpti : pti < 1024) (fr : Bool) :
    unmapCurrent A s pdi pti fr = .ok (unmapIn A s s.pd pdi pti fr) := by
  have hw := h.windows
  have hpdi : pdi < 1024 := Nat.lt_trans h.slot (by decide)
  unfold unmapCurrent unmapIn
  rw [hw.load_pd hpdi, ok_bind]
  cases ht : table s.mem s.pd pdi with
  | none =>
    have hp := table_eq_none.mp ht
    rw [if_neg (by rw [hp]; exact Bool.false_ne_true)]
  | some t =>
    obtain ⟨htd, _⟩ := h.table t ht
    rw [if_pos (table_eq_some.mp ht).1, load_of (hw.translate_pt ht hpdi hpti), ok_bind]
    dsimp only
    by_cases hp : present (s.mem t pti) = true
    · rw [if_pos hp, if_pos hp]
      obtain ⟨hm, hc, _⟩ := freeMapped_frame A s (s.mem t pti) fr
      have hpd : (freeMapped A s (s.mem t pti) fr).pd = s.pd := congrArg frameOf hc
      have hw1 := hw.freeMapped A (s.mem t pti) fr
      have ht1 : table (freeMapped A s (s.mem t pti) fr).mem (freeMapped A s (s.mem t pti) fr).pd pdi =
          some t := by rw [hm, hpd, ht]
      rw [store_of (hw1.translate_pt ht1 hpdi hpti), ok_bind]
      rw [← hpd] at htd ⊢
      refine reclaimCurrent_eq (hw1.poke 0 (.inl htd)) ?_ hpdi
      exact (table_set_ne (.inl htd.symm) 0).trans ht1
    · rw [if_neg hp, if_neg hp]

theorem reclaimForeign_eq {A : FrameAlloc α} {s : Machine α} {d t : UInt32} {pdi : Nat} (hw : Windows s)
    (hd : frameOf d = d) (hdk : d ≠ s.kmapPt) (htk : t ≠ s.kmapPt) (hta : frameOf t = t)
    (hpdi : pdi < kmapPdeBase) :
    reclaimForeign A (s.slot (windowEntry t)) d pdi t =
      .ok (Machine.slot (if pdi < kernelPdeBase ∧ EmptyTable (s.mem t) then
        (s.poke d pdi 0).freeTable A t else s) 0) := by
  have hpdi' : pdi < 1024 := Nat.lt_trans hpdi (by decide)
  unfold reclaimForeign
  by_cases hu : pdi < kernelPdeBase
  · have hscan : isEmpty (s.slot (windowEntry t)) kmapBase 0 pageEntries =
        .ok (decide (EmptyTable (s.mem t))) := isEmpty_eq fun i hi => by
      have hload := hw.load_window (p := t) (by rwa [hta]) hi
      rwa [hta] at hload
    rw [if_pos hu, hscan, ok_bind, hw.kunmap_slot, ok_bind]
    by_cases he : EmptyTable (s.mem t)
    · have hstore := hw.store_window (p := d) (by rwa [hd]) hpdi' 0
      rw [hd] at hstore
      rw [if_pos (decide_eq_true he), if_pos ⟨hu, he⟩, hw.kmap_slot, ok_bind, hstore, ok_bind,
        (hw.poke 0 (.inr hpdi)).kunmap_slot, ok_bind]
      rfl
    · rw [if_neg (by simpa using he), if_neg fun h => he h.2]
  · rw [if_neg hu, if_neg fun h => hu h.1, hw.kunmap_slot]

theorem unmapForeign_eq {A : FrameAlloc α} {s : Machine α} {d : UInt32} {pdi pti : Nat}
    (h : SlotOk A s d pdi) (hpti : pti < 1024) (fr : Bool) :
    unmapForeign A s d pdi pti fr = .ok ((unmapIn A s d pdi pti fr).slot 0) := by
  have hw := h.windows
  have hpdi : pdi < 1024 := Nat.lt_trans h.slot (by decide)
  have hdir : frameOf d ≠ s.kmapPt := by rw [h.aligned]; exact h.dir
  unfold unmapForeign unmapIn
  rw [hw.kmap, ok_bind, hw.load_window hdir hpdi, h.aligned, ok_bind, hw.kunmap_slot, ok_bind]
  cases ht : table s.mem d pdi with
  | none =>
    have hp := table_eq_none.mp ht
    rw [if_neg (by rw [hp]; exact Bool.false_ne_true)]
  | some t =>
    obtain ⟨htd, htk⟩ := h.table t ht
    obtain ⟨hp, htf⟩ := table_eq_some.mp ht
    have hta : frameOf t = t := by rw [← htf, frameOf_frameOf]
    rw [if_pos hp, htf, hw.kmap_slot, ok_bind, hw.load_window (by rwa [hta]) hpti, hta, ok_bind]
    dsimp only
    by_cases hp : present (s.mem t pti) = true
    · rw [if_pos hp, if_pos hp]
      obtain ⟨_, hc, hk⟩ := freeMapped_frame A s (s.mem t pti) fr
      have hpd : (freeMapped A s (s.mem t pti) fr).pd = s.pd := congrArg frameOf hc
      have hkp : (freeMapped A s (s.mem t pti) fr).kmapPt = s.kmapPt := congrArg frameOf hk
      have hw1 := hw.freeMapped A (s.mem t pti) fr
      have hslot : freeMapped A (s.slot (windowEntry t)) (s.mem t pti) fr =
          (freeMapped A s (s.mem t pti) fr).slot (windowEntry t) := by
        unfold freeMapped
        split <;> rfl
      have hstore := hw1.store_window (p := t) (by rwa [hta, hkp]) hpti 0
      rw [hta] at hstore
      rw [hslot, hstore, ok_bind]
      exact reclaimForeign_eq (hw1.poke 0 (.inl (by rwa [hpd]))) h.aligned (hkp ▸ h.dir) (hkp ▸ htk) hta
        h.slot
    · rw [if_neg hp, if_neg hp, hw.kunmap_slot]

/-! ## get_mapping -/

theorem entryFrame_eq (m : Memory) (t : UInt32) (i : Nat) : entryFrame (m t i) = (table m t i).getD 0 := by
  unfold entryFrame table
  split <;> rfl

theorem getCurrent_eq {A : FrameAlloc α} {s : Machine α} {pdi pti : Nat} (h : SlotOk A s s.pd pdi)
    (hpti : pti < 1024) : getCurrent s pdi pti = .ok ((view s.mem s.pd pdi pti).getD 0, s) := by
  have hw := h.windows
  have hpdi : pdi < 1024 := Nat.lt_trans h.slot (by decide)
  unfold getCurrent view
  rw [hw.load_pd hpdi, ok_bind]
  cases ht : table s.mem s.pd pdi with
  | none =>
    have hp := table_eq_none.mp ht
    rw [if_neg (by rw [hp]; exact Bool.false_ne_true)]
    rfl
  | some t =>
    rw [if_pos (table_eq_some.mp ht).1, load_of (hw.translate_pt ht hpdi hpti), ok_bind, entryFrame_eq]
    rfl

theorem getForeign_eq {A : FrameAlloc α} {s : Machine α} {d : UInt32} {pdi pti : Nat}
    (h : SlotOk A s d pdi) (hpti : pti < 1024) :
    getForeign s d pdi pti = .ok ((view s.mem d pdi pti).getD 0, s.slot 0) := by
  have hw := h.windows
  have hpdi : pdi < 1024 := Nat.lt_trans h.slot (by decide)
  have hdir : frameOf d ≠ s.kmapPt := by rw [h.aligned]; exact h.dir
  unfold getForeign view
  rw [hw.kmap, ok_bind, hw.load_window hdir hpdi, h.aligned, ok_bind, hw.kunmap_slot, ok_bind]
  cases ht : table s.mem d pdi with
  | none =>
    have hp := table_eq_none.mp ht
    rw [if_neg (by rw [hp]; exact Bool.false_ne_true)]
    rfl
  | some t =>
    obtain ⟨_, htk⟩ := h.table t ht
    obtain ⟨hp, htf⟩ := table_eq_some.mp ht
    have hta : frameOf t = t := by rw [← htf, frameOf_frameOf]
    rw [if_pos hp, htf, hw.kmap_slot, ok_bind, hw.load_window (by rwa [hta]) hpti, hta, ok_bind,
      hw.kunmap_slot, ok_bind, entryFrame_eq]
    rfl

end Serotonin.Vmm
