import Serotonin.Vmm.Tables

/-! How the directories and their tables lie in memory, and what the parts of
`map_page` and `unmap_page` do to that. Every directory shows itself in its last
entry and the table of the window in the one before; every other table is apart
from directories and free frames, and a table of a slot that is not shared is in
one directory, at one entry. -/

namespace Serotonin.Vmm

variable {α : Type}

/-- What the code relies on: a frame handed out was available and is not any more;
a frame given back may become available, and no other does. -/
structure Lawful (A : FrameAlloc α) (avail : α → UInt32 → Prop) : Prop where
  aligned : ∀ {a f}, avail a f → frameOf f = f
  alloc : ∀ {a a' f}, A.allocFrame a = some (f, a') → avail a f ∧ ∀ g, avail a' g → avail a g ∧ g ≠ f
  free : ∀ {a f}, ¬avail a f → ∀ g, avail (A.freeFrame f a) g → avail a g ∨ g = f

/-- The directories, and the slots whose tables directories share. -/
structure Layout where
  dirs : UInt32 → Prop
  shared : Nat → Prop

/-- A frame that the directories of `L` are not made of. -/
structure Apart (L : Layout) (s : Machine α) (f : UInt32) : Prop where
  dirs : ¬L.dirs f
  window : f ≠ s.kmapPt
  tables : ∀ d i, L.dirs d → i < kmapPdeBase → table s.mem d i ≠ some f

structure Struct (L : Layout) (avail : α → UInt32 → Prop) (s : Machine α) : Prop where
  cr3 : L.dirs s.pd
  aligned : ∀ d, L.dirs d → frameOf d = d
  self : ∀ d, L.dirs d → table s.mem d selfPdeBase = some d
  window : ∀ d, L.dirs d → table s.mem d kmapPdeBase = some s.kmapPt
  ready : s.kmapPtPhys ≠ 0
  kmapPt : ¬L.dirs s.kmapPt
  apart : ∀ d i t, L.dirs d → i < kmapPdeBase → table s.mem d i = some t → ¬L.dirs t ∧ t ≠ s.kmapPt
  own : ∀ d i d' i' t, L.dirs d → L.dirs d' → i < kmapPdeBase → i' < kmapPdeBase → ¬L.shared i →
    table s.mem d i = some t → table s.mem d' i' = some t → d' = d ∧ i' = i
  avail : ∀ f, avail s.frames f → Apart L s f

section
variable {L : Layout} {A : FrameAlloc α} {avail : α → UInt32 → Prop} {s s' : Machine α}
  {d t : UInt32} {pdi pti : Nat}

theorem Struct.windows (h : Struct L avail s) : Windows s :=
  ⟨h.self _ h.cr3, h.window _ h.cr3, h.ready, fun he => h.kmapPt (he ▸ h.cr3)⟩

theorem Struct.slotOk (h : Struct L avail s) (hA : Lawful A avail) (hd : L.dirs d)
    (hi : pdi < kmapPdeBase) : SlotOk A s d pdi := by
  refine ⟨h.windows, h.aligned d hd, fun he => h.kmapPt (he ▸ hd), fun t ht => ?_, fun f a hf => ?_, hi⟩
  · obtain ⟨h1, h2⟩ := h.apart d pdi t hd hi ht
    exact ⟨fun he => h1 (he ▸ h.cr3), h2⟩
  · have hav := (hA.alloc hf).1
    obtain ⟨h1, h2, _⟩ := h.avail f hav
    rw [hA.aligned hav]
    exact ⟨fun he => h1 (he ▸ h.cr3), h2, fun he => h1 (he ▸ hd)⟩

/-- The layout depends on the directories, not on the tables and pages. -/
theorem Struct.congr (h : Struct L avail s) (hmem : ∀ d, L.dirs d → s'.mem d = s.mem d)
    (hcr3 : s'.cr3 = s.cr3) (hk : s'.kmapPtPhys = s.kmapPtPhys)
    (hav : ∀ f, avail s'.frames f → Apart L s f) : Struct L avail s' := by
  have hpd : s'.pd = s.pd := congrArg frameOf hcr3
  have hkp : s'.kmapPt = s.kmapPt := congrArg frameOf hk
  have htab : ∀ d i, L.dirs d → table s'.mem d i = table s.mem d i := fun d i hd => by
    unfold table
    rw [hmem d hd]
  refine ⟨hpd ▸ h.cr3, h.aligned, fun d hd => ?_, fun d hd => ?_, hk ▸ h.ready, hkp ▸ h.kmapPt,
    fun d i t hd hi ht => ?_, fun d i d' i' t hd hd' hi hi' hs ht ht' => ?_, fun f hf => ?_⟩
  · rw [htab d _ hd]; exact h.self d hd
  · rw [htab d _ hd, hkp]; exact h.window d hd
  · rw [htab d i hd] at ht
    rw [hkp]
    exact h.apart d i t hd hi ht
  · rw [htab d i hd] at ht
    rw [htab d' i' hd'] at ht'
    exact h.own d i d' i' t hd hd' hi hi' hs ht ht'
  · obtain ⟨h1, h2, h3⟩ := hav f hf
    exact ⟨h1, hkp ▸ h2, fun d i hd hi => by rw [htab d i hd]; exact h3 d i hd hi⟩

/-- The window is not part of the layout. -/
theorem Struct.inSlot (h : Struct L avail s) (w : UInt32) : Struct L avail (s.slot w) :=
  h.congr (fun _ hd => Machine.slot_mem (fun he => h.kmapPt (he ▸ hd)) w) rfl rfl h.avail

theorem Struct.pokeTable (h : Struct L avail s) (hd : L.dirs d) (hi : pdi < kmapPdeBase)
    (ht : table s.mem d pdi = some t) (j : Nat) (x : UInt32) : Struct L avail (s.poke t j x) := by
  refine h.congr (fun d' hd' => ?_) rfl rfl h.avail
  funext k
  exact set_ne (.inl fun he : d' = t => (h.apart d pdi t hd hi ht).1 (he ▸ hd')) x

/-- An entry of a directory emptied, or pointed to a frame that is not in use. -/
theorem Struct.pokeDir (h : Struct L avail s) (hd : L.dirs d) (hi : pdi < kmapPdeBase) (x : UInt32)
    (hx : present x = true → Apart L s (frameOf x) ∧ ¬avail s.frames (frameOf x)) :
    Struct L avail (s.poke d pdi x) := by
  have hold : ∀ d' i, (d' ≠ d ∨ i ≠ pdi) → table (s.poke d pdi x).mem d' i = table s.mem d' i :=
    fun d' i hne => table_set_ne hne x
  have hnew : ∀ t, table (s.poke d pdi x).mem d pdi = some t → present x = true ∧ frameOf x = t := by
    intro t ht
    have hset : (s.poke d pdi x).mem d pdi = x := set_self ..
    have := table_eq_some.mp ht
    rwa [hset] at this
  have hge : ∀ i, kmapPdeBase ≤ i → i ≠ pdi := fun i hk he => Nat.not_lt.mpr hk (he ▸ hi)
  refine ⟨h.cr3, h.aligned, fun d' hd' => ?_, fun d' hd' => ?_, h.ready, h.kmapPt,
    fun d' i t hd' hi' ht => ?_, fun d1 i1 d2 i2 t hd1 hd2 hi1 hi2 hs ht1 ht2 => ?_, fun f hf => ?_⟩
  · rw [hold _ _ (.inr (hge _ (by decide)))]; exact h.self d' hd'
  · rw [hold _ _ (.inr (hge _ (Nat.le_refl _)))]; exact h.window d' hd'
  · by_cases he : d' = d ∧ i = pdi
    · obtain ⟨rfl, rfl⟩ := he
      obtain ⟨hp, rfl⟩ := hnew t ht
      exact ⟨(hx hp).1.dirs, (hx hp).1.window⟩
    · rw [hold _ _ (not_and_or.mp he)] at ht
      exact h.apart d' i t hd' hi' ht
  · by_cases h1 : d1 = d ∧ i1 = pdi <;> by_cases h2 : d2 = d ∧ i2 = pdi
    · exact ⟨h2.1.trans h1.1.symm, h2.2.trans h1.2.symm⟩
    · obtain ⟨rfl, rfl⟩ := h1
      obtain ⟨hp, rfl⟩ := hnew t ht1
      rw [hold _ _ (not_and_or.mp h2)] at ht2
      exact absurd ht2 ((hx hp).1.tables d2 i2 hd2 hi2)
    · obtain ⟨rfl, rfl⟩ := h2
      obtain ⟨hp, rfl⟩ := hnew t ht2
      rw [hold _ _ (not_and_or.mp h1)] at ht1
      exact absurd ht1 ((hx hp).1.tables d1 i1 hd1 hi1)
    · rw [hold _ _ (not_and_or.mp h1)] at ht1
      rw [hold _ _ (not_and_or.mp h2)] at ht2
      exact h.own d1 i1 d2 i2 t hd1 hd2 hi1 hi2 hs ht1 ht2
  · obtain ⟨h1, h2, h3⟩ := h.avail f hf
    refine ⟨h1, h2, fun d' i hd' hi' ht => ?_⟩
    by_cases he : d' = d ∧ i = pdi
    · obtain ⟨rfl, rfl⟩ := he
      obtain ⟨hp, hfx⟩ := hnew f ht
      exact (hx hp).2 (hfx ▸ hf)
    · rw [hold _ _ (not_and_or.mp he)] at ht
      exact h3 d' i hd' hi' ht

/-! ## A table for a slot -/

/-- What making room for an entry leaves: the table of the slot, empty if it is new,
and every other table as it was. -/
structure MadeTable (L : Layout) (s s' : Machine α) (d : UInt32) (pdi : Nat) (t : UInt32) : Prop where
  made : table s'.mem d pdi = some t
  others : ∀ d' i, L.dirs d' → (d' ≠ d ∨ i ≠ pdi) → table s'.mem d' i = table s.mem d' i
  keep : ∀ d' i t', L.dirs d' → i < kmapPdeBase → table s.mem d' i = some t' → s'.mem t' = s.mem t'
  fresh : table s.mem d pdi = none → EmptyTable (s'.mem t) ∧ Apart L s t ∧
    s'.log = .allocTable t :: s.log
  found : table s.mem d pdi ≠ none → s' = s

theorem Struct.tableFor (h : Struct L avail s) (hA : Lawful A avail) (hd : L.dirs d)
    (hi : pdi < kmapPdeBase) (flags : UInt32)
    (hrun : tableFor A s d pdi (pdeFlagsOf flags) = .ok (t, s')) :
    Struct L avail s' ∧ MadeTable L s s' d pdi t := by
  unfold Vmm.tableFor at hrun
  cases ht : table s.mem d pdi with
  | some t0 =>
    rw [ht] at hrun
    cases hrun
    exact ⟨h, ht, fun _ _ _ _ => rfl, fun _ _ _ _ _ _ => rfl, fun hn => absurd (ht.symm.trans hn) (by simp),
      fun _ => rfl⟩
  | none =>
    rw [ht] at hrun
    dsimp only at hrun
    cases ha : allocTable A s with
    | error e => rw [ha] at hrun; cases hrun
    | ok r =>
      obtain ⟨f, s1⟩ := r
      rw [ha] at hrun
      obtain ⟨a, hal, _, hs1⟩ := allocTable_ok ha
      obtain ⟨hav, hrest⟩ := hA.alloc hal
      have hfa : frameOf f = f := hA.aligned hav
      have hap := h.avail f hav
      have hrun' := Except.ok.inj hrun
      obtain ⟨rfl, rfl⟩ := Prod.mk.inj hrun'
      rw [hfa]
      have hst1 : Struct L avail s1 := by
        subst hs1
        exact h.congr (fun _ _ => rfl) rfl rfl fun g hg => h.avail g (hrest g hg).1
      have hmem1 : s1.mem = s.mem := by rw [hs1]
      have hfd : f ≠ d := fun he => hap.dirs (he ▸ hd)
      have hapart1 : Apart L s1 f := by
        subst hs1
        exact ⟨hap.dirs, hap.window, hap.tables⟩
      have hst2 : Struct L avail (s1.poke d pdi (tableEntry f (pdeFlagsOf flags))) := by
        refine hst1.pokeDir hd hi _ fun _ => ?_
        rw [frameOf_tableEntry, hfa]
        refine ⟨hapart1, fun hg => ?_⟩
        subst hs1
        exact (hrest f hg).2 rfl
      have hclear : ∀ q, q ≠ f → ((s1.poke d pdi (tableEntry f (pdeFlagsOf flags))).clear f pageEntries).mem q =
          (s1.poke d pdi (tableEntry f (pdeFlagsOf flags))).mem q := by
        intro q hq
        funext j
        rw [Machine.clear_mem]
        exact if_neg fun hc => hq hc.1
      obtain ⟨hc1, hc2, hc3, hc4⟩ :=
        Machine.clear_frame (s1.poke d pdi (tableEntry f (pdeFlagsOf flags))) f pageEntries
      refine ⟨hst2.congr (fun d' hd' => hclear d' fun he => hap.dirs (he ▸ hd')) hc1 hc2
        fun g hg => hst2.avail g (hc3 ▸ hg), ?_, ?_, ?_, fun _ => ⟨?_, hap, ?_⟩, fun hn => absurd ht hn⟩
      · have hfd' : frameOf f ≠ d := by rw [hfa]; exact hfd
        have hm := @table_made _ s1 d f flags pdi pageEntries hfd'
        rwa [hfa] at hm
      · intro d' i hd' hne
        unfold table
        rw [hclear d' fun he => hap.dirs (he ▸ hd')]
        show (if present (s1.mem.set d pdi _ d' i) = true then some (frameOf (s1.mem.set d pdi _ d' i)) else none) = _
        rw [set_ne hne, hmem1]
      · intro d' i t' hd' hi' ht'
        rw [hclear t' fun he => hap.tables d' i hd' hi' (he ▸ ht')]
        funext j
        have htd : t' ≠ d := fun he => (h.apart d' i t' hd' hi' ht').1 (he ▸ hd)
        show s1.mem.set d pdi _ t' j = _
        rw [set_ne (.inl htd), hmem1]
      · intro j hj
        rw [Machine.clear_mem, if_pos ⟨rfl, hj⟩]
        exact present_zero
      · rw [hc4, hs1]
        rfl

end

end Serotonin.Vmm
