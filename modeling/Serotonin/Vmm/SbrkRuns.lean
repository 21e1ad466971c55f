import Serotonin.Vmm.Sbrk

/-! The heap of a task, over every run of its calls of `sys_sbrk` and its stores. A break
inside a page is fine as long as the next call goes back to a page boundary: the loops start
at the break itself, so they take the page it lies in for one that is new or not used. -/

namespace Serotonin.Vmm

open Function

variable {α : Type}

/-! ## The pages of the heap -/

def heapLo : Nat := 0x20000
def heapHi : Nat := 0x60000

def InHeap (q : Nat) : Prop := heapLo ≤ q ∧ q < heapHi

/-- The frame a directory shows at a page number. -/
def viewPage (s : Machine α) (d : UInt32) (q : Nat) : Option UInt32 := view s.mem d (q / 1024) (q % 1024)

theorem vmmPdi_page (va : UInt32) : vmmPdi va = va.toNat / 4096 / 1024 := by
  have h := vmmPdi_toNat va
  omega

theorem vmmPti_page (va : UInt32) : vmmPti va = va.toNat / 4096 % 1024 := by
  have h := vmmPti_toNat va
  omega

theorem view_va (s : Machine α) (d va : UInt32) :
    view s.mem d (vmmPdi va) (vmmPti va) = viewPage s d (va.toNat / 4096) := by
  unfold viewPage
  rw [vmmPdi_page, vmmPti_page]

theorem InHeap.pdi {q : Nat} (h : InHeap q) : q / 1024 < kmapPdeBase := by
  obtain ⟨-, h⟩ := h
  unfold heapHi at h
  unfold kmapPdeBase
  omega

/-- Exactly the pages in `P` are mapped, each to a frame of its own. -/
structure Heap (L : Layout) (avail : α → UInt32 → Prop) (d : UInt32) (P : Nat → Prop) (s : Machine α) :
    Prop where
  good : Good L avail s
  pd : s.pd = d
  owned : ∀ q, InHeap q → ¬L.shared (q / 1024)
  mapped : ∀ q, InHeap q → ((viewPage s d q).isSome ↔ P q)
  outside : ∀ q f, InHeap q → viewPage s d q = some f → Outside L avail s f
  inj : ∀ q q' f, InHeap q → InHeap q' → viewPage s d q = some f → viewPage s d q' = some f → q = q'

section
variable {L : Layout} {A : FrameAlloc α} {avail : α → UInt32 → Prop} {s s' : Machine α}
  {d as va : UInt32} {P P' : Nat → Prop} {q : Nat}

theorem Heap.congr (h : Heap L avail d P s) (hP : ∀ q, InHeap q → (P' q ↔ P q)) : Heap L avail d P' s :=
  ⟨h.good, h.pd, h.owned, fun q hq => (h.mapped q hq).trans (hP q hq).symm, h.outside, h.inj⟩

theorem Heap.dir (h : Heap L avail d P s) : L.dirs d := h.pd ▸ h.good.struct.cr3

/-- One page set, seen by page numbers. -/
theorem SetsPage.viewPage {v : Option UInt32} (h : SetsPage L s s' d (q / 1024) (q % 1024) v) (hd : L.dirs d)
    {r : Nat} (hr : InHeap r) : viewPage s' d r = if r = q then v else viewPage s d r := by
  by_cases hrq : r = q
  · rw [if_pos hrq, hrq]
    exact h.page
  · rw [if_neg hrq]
    refine h.others d _ _ hd hr.pdi (Nat.mod_lt _ (by decide)) (.inr ?_)
    omega

theorem mapIn_sameCr3 {pdi pti : Nat} {flags entry : UInt32} {overwrite : Bool}
    (hrun : mapIn A s d pdi pti flags entry overwrite = .ok s') : s'.cr3 = s.cr3 := by
  have h : mapIn A { s with cr3 := s.cr3 } d pdi pti flags entry overwrite = _ :=
    mapIn_cr3 s s.cr3 flags entry overwrite
  rw [show ({ s with cr3 := s.cr3 } : Machine α) = s from rfl, hrun] at h
  have hs : s' = { s' with cr3 := s.cr3 } := Except.ok.inj h
  rw [hs]

theorem unmapIn_sameCr3 {pdi pti : Nat} (fr : Bool) : (unmapIn A s d pdi pti fr).cr3 = s.cr3 := by
  have h : unmapIn A { s with cr3 := s.cr3 } d pdi pti fr = _ := unmapIn_cr3 s s.cr3 fr
  have hc := congrArg Machine.cr3 h
  exact hc

/-- What a step on one page leaves alone. -/
structure Spares (L : Layout) (avail : α → UInt32 → Prop) (d : UInt32) (R : Nat → Prop) (s s' : Machine α) :
    Prop where
  view : ∀ r, InHeap r → ¬R r → viewPage s' d r = viewPage s d r
  mem : ∀ g, Outside L avail s g → (∀ r, InHeap r → R r → viewPage s d r ≠ some g) →
    Outside L avail s' g ∧ s'.mem g = s.mem g

theorem Spares.refl (R : Nat → Prop) (s : Machine α) : Spares L avail d R s s :=
  ⟨fun _ _ _ => rfl, fun _ hg _ => ⟨hg, rfl⟩⟩

/-! ## One page -/

theorem Heap.grow {f : UInt32} {a : α} (h : Heap L avail d P s) (hA : Lawful A avail) (has : frameOf as = d)
    (hva : va.toNat / 4096 = q) (hq : InHeap q) (ha : A.allocFrame s.frames = some (f, a))
    (hrun : mapPage A { s with frames := a } as va f userPageFlags true = .ok s') :
    Heap L avail d (fun r => P r ∨ r = q) s' ∧ Spares L avail d (· = q) s s' := by
  have hd := h.dir
  obtain ⟨hgood, hf⟩ := h.good.alloc hA ha
  have hfa : frameOf f = f := hA.aligned (hA.alloc ha).1
  have hpdi : vmmPdi va = q / 1024 := by rw [vmmPdi_page, hva]
  have hpti : vmmPti va = q % 1024 := by rw [vmmPti_page, hva]
  have hslot : SlotOk A { s with frames := a } d (vmmPdi va) := hgood.struct.slotOk hA hd (hpdi ▸ hq.pdi)
  rw [mapPage_eq (has ▸ hslot), has, hpdi, hpti] at hrun
  have hleave : leave ({ s with frames := a } : Machine α) d = id := by
    funext x
    exact if_pos h.pd
  rw [hleave] at hrun
  cases hm : mapIn A { s with frames := a } d (q / 1024) (q % 1024) (pdeFlagsOf userPageFlags)
      (pageEntry (f &&& pageMask) userPageFlags) true with
  | error e => rw [hm] at hrun; cases hrun
  | ok s1 =>
    rw [hm] at hrun
    have hs1 : s1 = s' := Except.ok.inj hrun
    subst hs1
    obtain ⟨hgood', hset, -⟩ := hgood.mapIn hA hd hq.pdi (h.owned q hq) (Nat.mod_lt _ (by decide))
      (present_pageEntry ..) hm
    rw [frameOf_pageEntry, hfa] at hset
    have hview : ∀ r, InHeap r → viewPage s1 d r = if r = q then some f else viewPage s d r := fun r hr =>
      hset.viewPage hd hr
    have hkeep : ∀ g, Outside L avail { s with frames := a } g → Outside L avail s1 g ∧ s1.mem g = s.mem g :=
      fun g hg => hg.mapIn hA hgood.struct hd hq.pdi hm
    have hold : ∀ r g, InHeap r → viewPage s d r = some g → g ≠ f := fun r g hr hg he =>
      (h.outside r g hr hg).taken (he ▸ (hA.alloc ha).1)
    refine ⟨⟨hgood', ?_, h.owned, fun r hr => ?_, fun r g hr hg => ?_, fun r r' g hr hr' hg hg' => ?_⟩,
      fun r hr hne => ?_, fun g hg _ => ?_⟩
    · exact (congrArg frameOf (mapIn_sameCr3 hm)).trans h.pd
    · rw [hview r hr]
      by_cases hrq : r = q
      · rw [if_pos hrq]
        exact iff_of_true rfl (.inr hrq)
      · rw [if_neg hrq, h.mapped r hr]
        exact (or_iff_left hrq).symm
    · rw [hview r hr] at hg
      by_cases hrq : r = q
      · rw [if_pos hrq] at hg
        cases hg
        exact (hkeep f hf).1
      · rw [if_neg hrq] at hg
        exact (hkeep g ((h.outside r g hr hg).alloc hA ha)).1
    · rw [hview r hr] at hg
      rw [hview r' hr'] at hg'
      by_cases hrq : r = q
      · rw [if_pos hrq] at hg
        cases hg
        by_cases hrq' : r' = q
        · exact hrq.trans hrq'.symm
        · rw [if_neg hrq'] at hg'
          exact absurd rfl (hold r' _ hr' hg')
      · rw [if_neg hrq] at hg
        by_cases hrq' : r' = q
        · rw [if_pos hrq'] at hg'
          cases hg'
          exact absurd rfl (hold r _ hr hg)
        · rw [if_neg hrq'] at hg'
          exact h.inj r r' g hr hr' hg hg'
    · rw [hview r hr, if_neg hne]
    · exact hkeep g (hg.alloc hA ha)

theorem Heap.shrink (h : Heap L avail d P s) (hA : Lawful A avail) (has : frameOf as = d)
    (hva : va.toNat / 4096 = q) (hq : InHeap q) (hrun : unmapPage A s as va true = .ok s') :
    Heap L avail d (fun r => P r ∧ r ≠ q) s' ∧ Spares L avail d (· = q) s s' ∧ viewPage s' d q = none ∧
      (∀ f, viewPage s d q = some f → s.log.count (.freePage f) < s'.log.count (.freePage f)) ∧
        ∀ e, s.log.count e ≤ s'.log.count e := by
  have hd := h.dir
  have hpdi : vmmPdi va = q / 1024 := by rw [vmmPdi_page, hva]
  have hpti : vmmPti va = q % 1024 := by rw [vmmPti_page, hva]
  have hslot : SlotOk A s d (vmmPdi va) := h.good.struct.slotOk hA hd (hpdi ▸ hq.pdi)
  rw [unmapPage_eq (has ▸ hslot), has, hpdi, hpti] at hrun
  rw [show leave s d (unmapIn A s d (q / 1024) (q % 1024) true) = unmapIn A s d (q / 1024) (q % 1024) true
    from if_pos h.pd] at hrun
  cases hrun
  have hfr : ∀ f, view s.mem d (q / 1024) (q % 1024) = some f → Outside L avail s f := fun f hf =>
    h.outside q f hq hf
  have hfree : true = true → ∀ f, view s.mem d (q / 1024) (q % 1024) = some f →
      Apart L s f ∧ ¬avail s.frames f := fun _ f hf => ⟨(hfr f hf).apart, (hfr f hf).taken⟩
  obtain ⟨hgood', hset, -⟩ := h.good.unmapIn hA hd hq.pdi (h.owned q hq) hfree
  have hview : ∀ r, InHeap r → viewPage (unmapIn A s d (q / 1024) (q % 1024) true) d r =
      if r = q then none else viewPage s d r := fun r hr => hset.viewPage hd hr
  have hkeep : ∀ g, Outside L avail s g → viewPage s d q ≠ some g →
      Outside L avail (unmapIn A s d (q / 1024) (q % 1024) true) g ∧
        (unmapIn A s d (q / 1024) (q % 1024) true).mem g = s.mem g := fun g hg hne =>
    hg.unmapIn hA h.good hd hq.pdi hne hfr
  refine ⟨⟨hgood', ?_, h.owned, fun r hr => ?_, fun r g hr hg => ?_, fun r r' g hr hr' hg hg' => ?_⟩,
    ⟨fun r hr hne => ?_, fun g hg hne => hkeep g hg (hne q hq rfl)⟩, ?_, fun f hf => unmapIn_freed hf,
    fun e => unmapIn_log_mono e⟩
  · exact (congrArg frameOf (unmapIn_sameCr3 true)).trans h.pd
  · rw [hview r hr]
    by_cases hrq : r = q
    · rw [if_pos hrq]
      exact iff_of_false Bool.false_ne_true fun hp => hp.2 hrq
    · rw [if_neg hrq, h.mapped r hr]
      exact (and_iff_left hrq).symm
  · rw [hview r hr] at hg
    by_cases hrq : r = q
    · rw [if_pos hrq] at hg
      cases hg
    · rw [if_neg hrq] at hg
      exact (hkeep g (h.outside r g hr hg) fun hg' => hrq (h.inj r q g hr hq hg hg')).1
  · rw [hview r hr] at hg
    rw [hview r' hr'] at hg'
    by_cases hrq : r = q
    · rw [if_pos hrq] at hg
      cases hg
    by_cases hrq' : r' = q
    · rw [if_pos hrq'] at hg'
      cases hg'
    rw [if_neg hrq] at hg
    rw [if_neg hrq'] at hg'
    exact h.inj r r' g hr hr' hg hg'
  · rw [hview r hr, if_neg hne]
  · rw [hview q hq, if_pos rfl]

/-! ## The loops -/

theorem Spares.trans {R R1 R2 : Nat → Prop} {t : Machine α} (h : Spares L avail d R1 s s')
    (h' : Spares L avail d R2 s' t) (h1 : ∀ r, R1 r → R r) (h2 : ∀ r, R2 r → R r) (hd : ∀ r, R2 r → ¬R1 r) :
    Spares L avail d R s t := by
  refine ⟨fun r hr hR => ?_, fun g hg hne => ?_⟩
  · rw [h'.view r hr fun hc => hR (h2 r hc), h.view r hr fun hc => hR (h1 r hc)]
  · obtain ⟨hg1, hm1⟩ := h.mem g hg fun r hr hc => hne r hr (h1 r hc)
    obtain ⟨hg2, hm2⟩ := h'.mem g hg1 fun r hr hc => by
      rw [h.view r hr (hd r hc)]
      exact hne r hr (h2 r hc)
    exact ⟨hg2, hm2.trans hm1⟩

/-- The pages from the one of `va` up to an address. -/
def pagesFrom (va limit : UInt32) (r : Nat) : Prop := va.toNat / 4096 ≤ r ∧ r * 4096 < limit.toNat

theorem pagesFrom_empty {limit : UInt32} (ha : va.toNat % 4096 = 0) (h : ¬va < limit) (r : Nat) :
    ¬pagesFrom va limit r := by
  rintro ⟨h1, h2⟩
  rw [UInt32.lt_iff_toNat_lt] at h
  omega

theorem pagesFrom_step {limit next : UInt32} (hn : next.toNat = va.toNat + 4096) (r : Nat)
    (ha : va.toNat % 4096 = 0) (h : va < limit) :
    pagesFrom va limit r ↔ r = va.toNat / 4096 ∨ pagesFrom next limit r := by
  unfold pagesFrom
  rw [UInt32.lt_iff_toNat_lt] at h
  omega

theorem next_toNat (h : va.toNat < heapHi * 4096) : (va + pageSize).toNat = va.toNat + 4096 := by
  unfold heapHi at h
  rw [UInt32.toNat_add]
  exact Nat.mod_eq_of_lt (show va.toNat + 4096 < 2 ^ 32 by omega)

/-- From a page boundary on, the loop maps each page up to the new break once. -/
theorem Heap.growLoop (hA : Lawful A avail) (has : frameOf as = d) {newBrk : UInt32}
    (hmax : newBrk.toNat ≤ heapHi * 4096) : ∀ (n : Nat) {va : UInt32} {s : Machine α} {P : Nat → Prop},
      Heap L avail d P s → va.toNat % 4096 = 0 → heapLo ≤ va.toNat / 4096 → newBrk.toNat ≤ va.toNat + 4096 * n →
        growLoop A as newBrk n va s = .ok s' →
          Heap L avail d (fun r => P r ∨ pagesFrom va newBrk r) s' ∧ Spares L avail d (pagesFrom va newBrk) s s'
  | 0, va, s, P, h, ha, _, hn, hrun => by
    cases hrun
    have hlt : ¬va < newBrk := by
      rw [UInt32.lt_iff_toNat_lt]
      omega
    exact ⟨h.congr fun r _ => or_iff_left (pagesFrom_empty ha hlt r), .refl _ _⟩
  | n + 1, va, s, P, h, ha, hlo, hn, hrun => by
    unfold Vmm.growLoop at hrun
    by_cases hlt : va < newBrk
    · rw [if_pos hlt] at hrun
      have hltn : va.toNat < newBrk.toNat := hlt
      cases hal : A.allocFrame s.frames with
      | none => rw [hal] at hrun; cases hrun
      | some r =>
        obtain ⟨f, a⟩ := r
        rw [hal] at hrun
        dsimp only at hrun
        cases hmap : mapPage A { s with frames := a } as va f userPageFlags true with
        | error e => rw [hmap] at hrun; cases hrun
        | ok s1 =>
          rw [hmap, ok_bind] at hrun
          have hq : InHeap (va.toNat / 4096) := ⟨hlo, by omega⟩
          have hnext : (va + pageSize).toNat = va.toNat + 4096 := next_toNat (Nat.lt_of_lt_of_le hltn hmax)
          obtain ⟨h1, hs1⟩ := h.grow hA has rfl hq hal hmap
          obtain ⟨h2, hs2⟩ := Heap.growLoop hA has hmax n h1 (by omega) (by omega) (by omega) hrun
          refine ⟨h2.congr fun r _ => ?_, hs1.trans hs2 (fun r hr => ?_) (fun r hr => ?_) fun r hr he => ?_⟩
          · rw [pagesFrom_step hnext r ha hlt, or_assoc]
          · exact (pagesFrom_step hnext r ha hlt).mpr (.inl hr)
          · exact (pagesFrom_step hnext r ha hlt).mpr (.inr hr)
          · have hge := hr.1
            omega
    · rw [if_neg hlt] at hrun
      cases hrun
      exact ⟨h.congr fun r _ => or_iff_left (pagesFrom_empty ha hlt r), .refl _ _⟩

/-- The frames of the pages in `R` were given back. -/
structure Returns (d : UInt32) (R : Nat → Prop) (s s' : Machine α) : Prop where
  unmapped : ∀ r, InHeap r → R r → viewPage s' d r = none
  freed : ∀ r f, InHeap r → R r → viewPage s d r = some f →
    s.log.count (.freePage f) < s'.log.count (.freePage f)
  mono : ∀ e, s.log.count e ≤ s'.log.count e

theorem Returns.empty {R : Nat → Prop} (hR : ∀ r, ¬R r) (s : Machine α) : Returns d R s s :=
  ⟨fun r _ h => absurd h (hR r), fun r _ _ h => absurd h (hR r), fun _ => Nat.le_refl _⟩

/-- From a page boundary on, the loop gives back each page up to the old break. -/
theorem Heap.shrinkLoop (hA : Lawful A avail) (has : frameOf as = d) {oldBrk : UInt32}
    (hmax : oldBrk.toNat ≤ heapHi * 4096) : ∀ (n : Nat) {va : UInt32} {s : Machine α} {P : Nat → Prop},
      Heap L avail d P s → va.toNat % 4096 = 0 → heapLo ≤ va.toNat / 4096 → oldBrk.toNat ≤ va.toNat + 4096 * n →
        shrinkLoop A as oldBrk n va s = .ok s' →
          Heap L avail d (fun r => P r ∧ ¬pagesFrom va oldBrk r) s' ∧
            Spares L avail d (pagesFrom va oldBrk) s s' ∧ Returns d (pagesFrom va oldBrk) s s'
  | 0, va, s, P, h, ha, _, hn, hrun => by
    cases hrun
    have hlt : ¬va < oldBrk := by
      rw [UInt32.lt_iff_toNat_lt]
      omega
    exact ⟨h.congr fun r _ => and_iff_left (pagesFrom_empty ha hlt r), .refl _ _, .empty (pagesFrom_empty ha hlt) _⟩
  | n + 1, va, s, P, h, ha, hlo, hn, hrun => by
    unfold Vmm.shrinkLoop at hrun
    by_cases hlt : va < oldBrk
    · rw [if_pos hlt] at hrun
      have hltn : va.toNat < oldBrk.toNat := hlt
      cases hun : unmapPage A s as va true with
      | error e => rw [hun] at hrun; cases hrun
      | ok s1 =>
        rw [hun, ok_bind] at hrun
        have hq : InHeap (va.toNat / 4096) := ⟨hlo, by omega⟩
        have hnext : (va + pageSize).toNat = va.toNat + 4096 := next_toNat (Nat.lt_of_lt_of_le hltn hmax)
        have hstep : ∀ r, pagesFrom va oldBrk r ↔ r = va.toNat / 4096 ∨ pagesFrom (va + pageSize) oldBrk r :=
          fun r => pagesFrom_step hnext r ha hlt
        obtain ⟨h1, hs1, hnone, hfreed, hmono⟩ := h.shrink hA has rfl hq hun
        obtain ⟨h2, hs2, hret⟩ := Heap.shrinkLoop hA has hmax n h1 (by omega) (by omega) (by omega) hrun
        have hapart : ∀ r, pagesFrom (va + pageSize) oldBrk r → r ≠ va.toNat / 4096 := by
          intro r hr he
          have hge := hr.1
          omega
        refine ⟨h2.congr fun r _ => ?_, hs1.trans hs2 (fun r hr => (hstep r).mpr (.inl hr))
          (fun r hr => (hstep r).mpr (.inr hr)) hapart, ⟨fun r hr hR => ?_, fun r f hr hR hf => ?_,
            fun e => Nat.le_trans (hmono e) (hret.mono e)⟩⟩
        · rw [hstep r, not_or, and_assoc]
        · rcases (hstep r).mp hR with he | hR
          · rw [hs2.view r hr fun hc => hapart r hc he, he]
            exact hnone
          · exact hret.unmapped r hr hR
        · rcases (hstep r).mp hR with he | hR
          · subst he
            exact Nat.lt_of_lt_of_le (hfreed f hf) (hret.mono _)
          · refine Nat.lt_of_le_of_lt (hmono _) (hret.freed r f hr hR ?_)
            rw [hs1.view r hr (hapart r hR)]
            exact hf
    · rw [if_neg hlt] at hrun
      cases hrun
      exact ⟨h.congr fun r _ => and_iff_left (pagesFrom_empty ha hlt r), .refl _ _,
        .empty (pagesFrom_empty ha hlt) _⟩

/-! ## A store -/

/-- A word of a page of the heap changes, and nothing of the page maps. -/
theorem Heap.poke {f : UInt32} (h : Heap L avail d P s) (hf : Outside L avail s f) (i : Nat) (x : UInt32) :
    Heap L avail d P (s.poke f i x) ∧ ∀ r, InHeap r → viewPage (s.poke f i x) d r = viewPage s d r := by
  have hmem : ∀ g, g ≠ f → (s.poke f i x).mem g = s.mem g := fun g hg => by
    funext j
    exact set_ne (.inl hg) x
  have hdir : ∀ d', L.dirs d' → (s.poke f i x).mem d' = s.mem d' := fun d' hd' =>
    hmem d' fun he => hf.apart.dirs (he ▸ hd')
  have htab : ∀ d' j, L.dirs d' → table (s.poke f i x).mem d' j = table s.mem d' j := fun d' j hd' => by
    unfold table
    rw [hdir d' hd']
  have hview : ∀ r, InHeap r → viewPage (s.poke f i x) d r = viewPage s d r := fun r hr =>
    view_congr (htab d _ h.dir) fun t ht => hmem t fun he => hf.apart.tables d _ h.dir hr.pdi (he ▸ ht)
  have hgood : Good L avail (s.poke f i x) := by
    refine ⟨h.good.struct.congr hdir rfl rfl h.good.struct.avail, fun d' j t hd' hj hs ht => ?_⟩
    rw [htab d' j hd'] at ht
    have hj' : j < kmapPdeBase := Nat.lt_trans hj (by decide)
    rw [hmem t fun he => hf.apart.tables d' j hd' hj' (he ▸ ht)]
    exact h.good.used d' j t hd' hj hs ht
  have hout : ∀ g, Outside L avail s g → Outside L avail (s.poke f i x) g := fun g hg =>
    hg.congr rfl (fun d' j hd' hj => by rw [htab d' j hd']; exact hg.apart.tables d' j hd' hj) hg.taken
  refine ⟨⟨hgood, h.pd, h.owned, fun r hr => ?_, fun r g hr hg => ?_, fun r r' g hr hr' hg hg' => ?_⟩, hview⟩
  · rw [hview r hr]
    exact h.mapped r hr
  · rw [hview r hr] at hg
    exact hout g (h.outside r g hr hg)
  · rw [hview r hr] at hg
    rw [hview r' hr'] at hg'
    exact h.inj r r' g hr hr' hg hg'

theorem byteAt_view (hpd : s.pd = d) (va : UInt32) : byteAt s va =
    (viewPage s d (va.toNat / 4096)).map fun f => getByte (s.mem f (vmmWord va)) (va.toNat % 4) := by
  unfold byteAt
  rw [translate_view, show frameOf s.cr3 = d from hpd, view_va, Option.map_map]
  rfl

theorem inHeap_va {lo hi : UInt32} (hlo : userHeapStart ≤ lo) (hhi : hi < userHeapMax) (h1 : lo ≤ va)
    (h2 : va < hi) : InHeap (va.toNat / 4096) := by
  rw [UInt32.le_iff_toNat_le] at hlo h1
  rw [UInt32.lt_iff_toNat_lt] at hhi h2
  have e1 : userHeapStart.toNat = 0x20000000 := rfl
  have e2 : userHeapMax.toNat = 0x5FFFFFFF := rfl
  unfold InHeap heapLo heapHi
  omega

end

/-! ## Runs -/

/-- The bytes written so far and not given back are no part of the kernel. -/
structure HeapRun (α : Type) where
  proc : Proc α
  written : UInt32 → Option UInt8

inductive HeapOp where
  | sbrk (increment : UInt32)
  | store (va : UInt32) (b : UInt8)

/-- The task stores to its heap only. -/
def heapStep (A : FrameAlloc α) (r : HeapRun α) : HeapOp → Option (HeapRun α)
  | .sbrk increment =>
    match sysSbrk A r.proc increment with
    | .ok p => some { proc := p, written := fun va => if va < p.brkEnd then r.written va else none }
    | .error _ => none
  | .store va b =>
    if r.proc.brkStart ≤ va ∧ va < r.proc.brkEnd then
      (writeByte r.proc.machine va b).map fun s =>
        { proc := { r.proc with machine := s }, written := update r.written va (some b) }
    else none

/-- A new task, with no page in the range of the heap. -/
structure HeapInit (L : Layout) (avail : α → UInt32 → Prop) (r : HeapRun α) : Prop where
  good : Good L avail r.proc.machine
  pd : r.proc.machine.pd = frameOf r.proc.as
  owned : ∀ q, InHeap q → ¬L.shared (q / 1024)
  brkStart : r.proc.brkStart = userHeapStart
  brkEnd : r.proc.brkEnd = userHeapStart
  empty : ∀ q, InHeap q → viewPage r.proc.machine (frameOf r.proc.as) q = none
  written : ∀ va, r.written va = none

structure HeapKept (r : HeapRun α) : Prop where
  mapped : ∀ va, r.proc.brkStart ≤ va → va < r.proc.brkEnd → (byteAt r.proc.machine va).isSome
  written : ∀ va b, r.proc.brkStart ≤ va → va < r.proc.brkEnd → r.written va = some b →
    byteAt r.proc.machine va = some b
  above : ∀ q, InHeap q → r.proc.brkEnd.toNat ≤ q * 4096 →
    viewPage r.proc.machine (frameOf r.proc.as) q = none

/-- The old break is returned, and a frame that was mapped stays at its page or, with the
page above the new break, is given back. -/
structure CallOk (p p' : Proc α) : Prop where
  value : p'.errno = signed p.brkEnd
  frames : ∀ q f, InHeap q → viewPage p.machine (frameOf p.as) q = some f →
    viewPage p'.machine (frameOf p.as) q = some f ∨
      (p'.brkEnd.toNat ≤ q * 4096 ∧ viewPage p'.machine (frameOf p.as) q = none ∧
        p.machine.log.count (.freePage f) < p'.machine.log.count (.freePage f))

/-- The heap grows from a page boundary and shrinks to one. -/
def Aligned (p : Proc α) (increment : UInt32) : Prop :=
  outOfRange p increment ∨
    ((0 < signed increment → p.brkEnd.toNat % 4096 = 0) ∧
      (signed increment < 0 → (p.brkEnd + increment).toNat % 4096 = 0))

def HeapGuarded (r : HeapRun α) : HeapOp → Prop
  | .sbrk increment => Aligned r.proc increment
  | .store _ _ => True

structure HeapInv (L : Layout) (avail : α → UInt32 → Prop) (r : HeapRun α) : Prop where
  heap : Heap L avail (frameOf r.proc.as) (fun q => q * 4096 < r.proc.brkEnd.toNat) r.proc.machine
  start : r.proc.brkStart = userHeapStart
  low : userHeapStart ≤ r.proc.brkEnd
  high : r.proc.brkEnd < userHeapMax
  written : ∀ va b, userHeapStart ≤ va → va < r.proc.brkEnd → r.written va = some b →
    byteAt r.proc.machine va = some b
  below : ∀ va b, r.written va = some b → va < r.proc.brkEnd

section
variable {L : Layout} {A : FrameAlloc α} {avail : α → UInt32 → Prop} {r r' : HeapRun α}

theorem HeapInit.inv (h : HeapInit L avail r) : HeapInv L avail r := by
  have hstart : r.proc.brkEnd.toNat = 0x20000000 := by rw [h.brkEnd]; rfl
  refine ⟨⟨h.good, h.pd, h.owned, fun q hq => ?_, fun q f hq hf => ?_, fun q _ f hq _ hf => ?_⟩, h.brkStart,
    by rw [h.brkEnd]; decide, by rw [h.brkEnd]; decide, fun va b _ _ hw => ?_, fun va b hw => ?_⟩
  · rw [h.empty q hq, hstart]
    refine iff_of_false Bool.false_ne_true fun hlt => ?_
    have hlo := hq.1
    unfold heapLo at hlo
    omega
  · rw [h.empty q hq] at hf
    cases hf
  · rw [h.empty q hq] at hf
    cases hf
  · rw [h.written va] at hw
    cases hw
  · rw [h.written va] at hw
    cases hw

theorem HeapInv.inHeap (h : HeapInv L avail r) {va : UInt32} (h1 : userHeapStart ≤ va) (h2 : va < r.proc.brkEnd) :
    InHeap (va.toNat / 4096) :=
  inHeap_va (UInt32.le_refl _) h.high h1 h2

theorem HeapInv.kept (h : HeapInv L avail r) : HeapKept r := by
  refine ⟨fun va h1 h2 => ?_, fun va b h1 h2 hw => h.written va b (h.start ▸ h1) h2 hw, fun q hq hle => ?_⟩
  · have hq := h.inHeap (h.start ▸ h1) h2
    have hm := (h.heap.mapped _ hq).mpr (by
      rw [UInt32.lt_iff_toNat_lt] at h2
      omega)
    rw [byteAt_view h.heap.pd, Option.isSome_map]
    exact hm
  · have hm := mt (h.heap.mapped q hq).mp (Nat.not_lt.mpr hle)
    exact Option.not_isSome_iff_eq_none.mp hm

theorem signed_pos {x : UInt32} (h : 0 < signed x) : 0 < x.toNat ∧ x.toNat < 2 ^ 31 := by
  unfold signed at h
  rw [BitVec.toInt_eq_toNat_cond] at h
  have hx : x.toBitVec.toNat = x.toNat := rfl
  rw [hx] at h
  split at h
  · omega
  · have := x.toNat_lt
    omega

theorem signed_neg {x : UInt32} (h : signed x < 0) : 2 ^ 31 ≤ x.toNat := by
  unfold signed at h
  rw [BitVec.toInt_eq_toNat_cond] at h
  have hx : x.toBitVec.toNat = x.toNat := rfl
  rw [hx] at h
  split at h
  · omega
  · omega

theorem signed_zero {x : UInt32} (h1 : ¬0 < signed x) (h2 : ¬signed x < 0) : x = 0 := by
  have h : signed x = 0 := by omega
  unfold signed at h
  rw [BitVec.toInt_eq_toNat_cond] at h
  have hx : x.toBitVec.toNat = x.toNat := rfl
  rw [hx] at h
  have := x.toNat_lt
  refine UInt32.toNat_inj.mp ?_
  show x.toNat = 0
  split at h
  · omega
  · omega

/-- The break moved: pages below the new one keep their frames and what is in them, the
others are given back. -/
structure Moved (L : Layout) (avail : α → UInt32 → Prop) (p p' : Proc α) : Prop where
  as : p'.as = p.as
  brkStart : p'.brkStart = p.brkStart
  low : userHeapStart ≤ p'.brkEnd
  high : p'.brkEnd < userHeapMax
  heap : Heap L avail (frameOf p.as) (fun q => q * 4096 < p'.brkEnd.toNat) p'.machine
  kept : ∀ q f, InHeap q → q * 4096 < p'.brkEnd.toNat → viewPage p.machine (frameOf p.as) q = some f →
    viewPage p'.machine (frameOf p.as) q = some f ∧ p'.machine.mem f = p.machine.mem f
  gone : ∀ q f, InHeap q → p'.brkEnd.toNat ≤ q * 4096 → viewPage p.machine (frameOf p.as) q = some f →
    viewPage p'.machine (frameOf p.as) q = none ∧
      p.machine.log.count (.freePage f) < p'.machine.log.count (.freePage f)

theorem Moved.callOk {p p' : Proc α} (h : Moved L avail p p') (hv : p'.errno = signed p.brkEnd) : CallOk p p' := by
  refine ⟨hv, fun q f hq hf => ?_⟩
  by_cases hle : p'.brkEnd.toNat ≤ q * 4096
  · obtain ⟨h1, h2⟩ := h.gone q f hq hle hf
    exact .inr ⟨hle, h1, h2⟩
  · exact .inl (h.kept q f hq (Nat.not_le.mp hle) hf).1

theorem HeapInv.moved_self (h : HeapInv L avail r) (e : Int) :
    Moved L avail r.proc { r.proc with errno := e } := by
  refine ⟨rfl, rfl, h.low, h.high, h.heap, fun q f _ _ hf => ⟨hf, rfl⟩, fun q f hq hle hf => ?_⟩
  have hm := (h.heap.mapped q hq).mp (by rw [hf]; rfl)
  exact absurd hm (Nat.not_lt.mpr hle)

theorem HeapInv.grow (h : HeapInv L avail r) (hA : Lawful A avail) {newBrk : UInt32} {s : Machine α} {e : Int}
    (ha : r.proc.brkEnd.toNat % 4096 = 0) (hle : r.proc.brkEnd.toNat ≤ newBrk.toNat) (hmax : newBrk < userHeapMax)
    (hs : growLoop A r.proc.as newBrk heapPages r.proc.brkEnd r.proc.machine = .ok s) :
    Moved L avail r.proc { r.proc with machine := s, brkEnd := newBrk, errno := e } := by
  have hlow := h.low
  rw [UInt32.le_iff_toNat_le] at hlow
  have hhigh : newBrk.toNat < 0x5FFFFFFF := hmax
  have e1 : userHeapStart.toNat = 0x20000000 := rfl
  obtain ⟨hheap, hspares⟩ := Heap.growLoop hA rfl
    (show newBrk.toNat ≤ heapHi * 4096 by unfold heapHi; omega) heapPages h.heap ha
    (by unfold heapLo; omega) (by unfold heapPages; omega) hs
  have hout : ∀ q, q * 4096 < r.proc.brkEnd.toNat → ¬pagesFrom r.proc.brkEnd newBrk q := by
    rintro q hq ⟨h1, -⟩
    omega
  refine ⟨rfl, rfl, ?_, hmax, hheap.congr fun q _ => ?_, fun q f hq _ hf => ?_, fun q f hq hge hf => ?_⟩
  · rw [UInt32.le_iff_toNat_le]
    exact Nat.le_trans hlow hle
  · show q * 4096 < newBrk.toNat ↔ _
    unfold pagesFrom
    omega
  · have hm := (h.heap.mapped q hq).mp (by rw [hf]; rfl)
    refine ⟨(hspares.view q hq (hout q hm)).trans hf, (hspares.mem f (h.heap.outside q f hq hf) ?_).2⟩
    intro q' hq' hR hf'
    have hsame := h.heap.inj q q' f hq hq' hf hf'
    exact hout q hm (hsame ▸ hR)
  · have hm := (h.heap.mapped q hq).mp (by rw [hf]; rfl)
    dsimp only at hge
    omega

theorem HeapInv.shrink (h : HeapInv L avail r) (hA : Lawful A avail) {newBrk : UInt32} {s : Machine α} {e : Int}
    (ha : newBrk.toNat % 4096 = 0) (hle : newBrk.toNat ≤ r.proc.brkEnd.toNat) (hlow : userHeapStart ≤ newBrk)
    (hs : shrinkLoop A r.proc.as r.proc.brkEnd heapPages newBrk r.proc.machine = .ok s) :
    Moved L avail r.proc { r.proc with machine := s, brkEnd := newBrk, errno := e } := by
  have hlown : 0x20000000 ≤ newBrk.toNat := hlow
  have hhigh : r.proc.brkEnd.toNat < 0x5FFFFFFF := h.high
  obtain ⟨hheap, hspares, hret⟩ := Heap.shrinkLoop hA rfl
    (show r.proc.brkEnd.toNat ≤ heapHi * 4096 by unfold heapHi; omega) heapPages h.heap ha
    (by unfold heapLo; omega) (by unfold heapPages; omega) hs
  refine ⟨rfl, rfl, hlow, ?_, hheap.congr fun q _ => ?_, fun q f hq hlt hf => ?_, fun q f hq hge hf => ?_⟩
  · rw [UInt32.lt_iff_toNat_lt]
    exact Nat.lt_of_le_of_lt hle hhigh
  · show q * 4096 < newBrk.toNat ↔ _
    unfold pagesFrom
    omega
  · have hout : ∀ q', q' * 4096 < newBrk.toNat → ¬pagesFrom newBrk r.proc.brkEnd q' := by
      rintro q' hq' ⟨h1, -⟩
      omega
    refine ⟨(hspares.view q hq (hout q hlt)).trans hf, (hspares.mem f (h.heap.outside q f hq hf) ?_).2⟩
    intro q' hq' hR hf'
    have hsame := h.heap.inj q q' f hq hq' hf hf'
    exact hout q hlt (hsame ▸ hR)
  · have hm := (h.heap.mapped q hq).mp (by rw [hf]; rfl)
    dsimp only at hge
    have hR : pagesFrom newBrk r.proc.brkEnd q := by
      unfold pagesFrom
      omega
    exact ⟨hret.unmapped q hq hR, hret.freed q f hq hR hf⟩

/-- One call, as long as it grows from a page boundary or shrinks to one. -/
theorem HeapInv.sbrk (h : HeapInv L avail r) (hA : Lawful A avail) {increment : UInt32} {p' : Proc α}
    (hg : Aligned r.proc increment) (hs : sysSbrk A r.proc increment = .ok p') :
    Moved L avail r.proc p' ∧ (¬outOfRange r.proc increment → CallOk r.proc p') := by
  unfold sysSbrk at hs
  by_cases hrange : outOfRange r.proc increment
  · dsimp only at hs
    rw [if_pos hrange] at hs
    cases hs
    exact ⟨h.moved_self _, fun hn => absurd hrange hn⟩
  dsimp only at hs
  rw [if_neg hrange] at hs
  obtain ⟨hgrow, hshrink⟩ := hg.resolve_left hrange
  obtain ⟨hstart, hmax⟩ := not_or.mp hrange
  have hmaxn : (r.proc.brkEnd + increment).toNat < 0x5FFFFFFF := by
    rw [UInt32.le_iff_toNat_le] at hmax
    exact Nat.not_le.mp hmax
  have hmaxu : r.proc.brkEnd + increment < userHeapMax := hmaxn
  have hlow : userHeapStart ≤ r.proc.brkEnd + increment := by
    rw [h.start, UInt32.lt_iff_toNat_lt] at hstart
    exact Nat.not_lt.mp hstart
  have hhigh : r.proc.brkEnd.toNat < 0x5FFFFFFF := h.high
  have hadd := UInt32.toNat_add r.proc.brkEnd increment
  have hinc := increment.toNat_lt
  have hmoved : Moved L avail r.proc p' ∧ p'.errno = signed r.proc.brkEnd := by
    by_cases hpos : 0 < signed increment
    · obtain ⟨h0, h31⟩ := signed_pos hpos
      rw [if_pos hpos] at hs
      cases hloop : growLoop A r.proc.as (r.proc.brkEnd + increment) heapPages r.proc.brkEnd r.proc.machine with
      | error e => rw [hloop] at hs; cases hs
      | ok s =>
        rw [hloop] at hs
        cases hs
        exact ⟨h.grow hA (hgrow hpos) (by omega) hmaxu hloop, rfl⟩
    · rw [if_neg hpos] at hs
      by_cases hneg : signed increment < 0
      · have h31 := signed_neg hneg
        rw [if_pos hneg] at hs
        cases hloop : shrinkLoop A r.proc.as r.proc.brkEnd heapPages (r.proc.brkEnd + increment) r.proc.machine with
        | error e => rw [hloop] at hs; cases hs
        | ok s =>
          rw [hloop] at hs
          cases hs
          exact ⟨h.shrink hA (hshrink hneg) (by omega) hlow hloop, rfl⟩
      · rw [if_neg hneg, signed_zero hpos hneg] at hs
        cases hs
        have hzero : r.proc.brkEnd + 0 = r.proc.brkEnd := UInt32.add_zero _
        rw [hzero]
        exact ⟨h.moved_self _, rfl⟩
  exact ⟨hmoved.1, fun _ => hmoved.1.callOk hmoved.2⟩

theorem HeapInv.afterSbrk (h : HeapInv L avail r) {p' : Proc α} (hm : Moved L avail r.proc p') :
    HeapInv L avail { proc := p', written := fun va => if va < p'.brkEnd then r.written va else none } := by
  have hheap : Heap L avail (frameOf p'.as) (fun q => q * 4096 < p'.brkEnd.toNat) p'.machine := by
    rw [hm.as]
    exact hm.heap
  refine ⟨hheap, hm.brkStart.trans h.start, hm.low, hm.high, fun va b h1 h2 hw => ?_, fun va b hw => ?_⟩
  · dsimp only at h2 hw ⊢
    rw [if_pos h2] at hw
    have hold := h.written va b h1 (h.below va b hw) hw
    have hq := inHeap_va (UInt32.le_refl _) hm.high h1 h2
    rw [byteAt_view h.heap.pd] at hold
    obtain ⟨f, hf, hbyte⟩ := Option.map_eq_some_iff.mp hold
    obtain ⟨hf', hmem⟩ := hm.kept _ f hq (by rw [UInt32.lt_iff_toNat_lt] at h2; omega) hf
    rw [byteAt_view hm.heap.pd, hf', Option.map_some, hmem, hbyte]
  · dsimp only at hw ⊢
    by_cases hlt : va < p'.brkEnd
    · exact hlt
    · rw [if_neg hlt] at hw
      cases hw

theorem HeapInv.store (h : HeapInv L avail r) {va : UInt32} {b : UInt8} (h1 : userHeapStart ≤ va)
    (h2 : va < r.proc.brkEnd) {s : Machine α} (hs : writeByte r.proc.machine va b = some s) :
    HeapInv L avail { proc := { r.proc with machine := s }, written := update r.written va (some b) } := by
  obtain ⟨⟨f, i⟩, htr, hpoke⟩ := Option.map_eq_some_iff.mp hs
  have hpd := h.heap.pd
  have hq := h.inHeap h1 h2
  rw [translate_view, show frameOf r.proc.machine.cr3 = frameOf r.proc.as from hpd, view_va] at htr
  obtain ⟨g, hg, heq⟩ := Option.map_eq_some_iff.mp htr
  obtain ⟨rfl, rfl⟩ := Prod.mk.inj heq
  dsimp only at hpoke
  obtain ⟨hheap, hview⟩ := h.heap.poke (h.heap.outside _ g hq hg) (vmmWord va)
    (setByte (r.proc.machine.mem g (vmmWord va)) (va.toNat % 4) b)
  rw [hpoke] at hheap hview
  refine ⟨hheap, h.start, h.low, h.high, fun w c hw1 hw2 hwc => ?_, fun w c hwc => ?_⟩
  · have hqw := h.inHeap hw1 hw2
    dsimp only at hwc ⊢
    rw [byteAt_view hheap.pd, hview _ hqw, ← hpoke]
    by_cases hwv : w = va
    · subst hwv
      rw [update_self] at hwc
      cases hwc
      rw [hg, Option.map_some]
      show some (getByte (Memory.set _ _ _ _ _ _) _) = _
      rw [set_self, getByte_setByte _ _ (Nat.mod_lt _ (by decide)) (Nat.mod_lt _ (by decide)), if_pos rfl]
    · rw [update_of_ne hwv] at hwc
      have hold := h.written w c hw1 hw2 hwc
      rw [byteAt_view hpd] at hold
      obtain ⟨k, hk, hbyte⟩ := Option.map_eq_some_iff.mp hold
      rw [hk, Option.map_some]
      show some (getByte (Memory.set _ _ _ _ _ _) _) = _
      by_cases hsame : k = g ∧ vmmWord w = vmmWord va
      · -- another byte of the word that was stored to
        obtain ⟨rfl, hword⟩ := hsame
        have hpage := h.heap.inj _ _ k hqw hq hk hg
        rw [vmmWord_toNat, vmmWord_toNat] at hword
        have hne : w.toNat ≠ va.toNat := fun he => hwv (UInt32.toNat_inj.mp he)
        have hlane : w.toNat % 4 ≠ va.toNat % 4 := by omega
        rw [vmmWord_toNat w, hword, ← vmmWord_toNat, set_self,
          getByte_setByte _ _ (Nat.mod_lt _ (by decide)) (Nat.mod_lt _ (by decide)), if_neg hlane, ← hbyte,
          vmmWord_toNat w, hword, ← vmmWord_toNat]
      · rw [set_ne (not_and_or.mp hsame), hbyte]
  · dsimp only at hwc ⊢
    by_cases hwv : w = va
    · exact hwv ▸ h2
    · rw [update_of_ne hwv] at hwc
      exact h.below w c hwc

theorem HeapInv.step (h : HeapInv L avail r) (hA : Lawful A avail) {op : HeapOp} (hg : HeapGuarded r op)
    (hs : heapStep A r op = some r') : HeapInv L avail r' := by
  unfold heapStep at hs
  cases op with
  | sbrk increment =>
    dsimp only at hs
    cases hcall : sysSbrk A r.proc increment with
    | error e => rw [hcall] at hs; cases hs
    | ok p =>
      rw [hcall] at hs
      cases hs
      exact h.afterSbrk (h.sbrk hA hg hcall).1
  | store va b =>
    obtain ⟨⟨h1, h2⟩, hs⟩ := Option.ite_none_right_eq_some.mp hs
    obtain ⟨s, hstore, rfl⟩ := Option.map_eq_some_iff.mp hs
    exact h.store (h.start ▸ h1) h2 hstore

def HeapStep (A : FrameAlloc α) (r r' : HeapRun α) : Prop := ∃ op, heapStep A r op = some r'

def HeapGuardedStep (A : FrameAlloc α) (r r' : HeapRun α) : Prop :=
  ∃ op, HeapGuarded r op ∧ heapStep A r op = some r'

/-- As long as the heap grows from page boundaries and shrinks to them, it is mapped up to
the break, it keeps what was written, and every call accounts for the frames. -/
theorem heapKept_of_aligned (hA : Lawful A avail)
    (h : Run.Reachable (HeapInit L avail) (HeapGuardedStep A) r) :
    HeapKept r ∧ ∀ increment p', Aligned r.proc increment → ¬outOfRange r.proc increment →
      sysSbrk A r.proc increment = .ok p' → CallOk r.proc p' := by
  have hinv := h.invariant (HeapInv L avail) (fun _ hi => hi.inv) fun _ _ hi ⟨_, hg, hs⟩ => hi.step hA hg hs
  exact ⟨hinv.kept, fun increment p' hg hin hs => (hinv.sbrk hA hg hs).2 hin⟩

end

/-! ## A break inside a page -/

/-- Three free frames, and the task of the first directory. -/
def newTask : HeapRun FreeList where
  proc :=
    { machine := { twoDirs with frames :=
        ⟨[0x104000, 0x105000, 0x106000], by decide, List.forall_mem_cons.mpr ⟨by decide,
          List.forall_mem_cons.mpr ⟨by decide, List.forall_mem_singleton.mpr (by decide)⟩⟩⟩ }
      as := 0x100000
      brkStart := userHeapStart
      brkEnd := userHeapStart
      errno := 0 }
  written := fun _ => none

theorem newTask_init : HeapInit twoDirsLayout (fun l f => f ∈ l.1) newTask := by
  have hgood : Good twoDirsLayout (fun l f => f ∈ l.1) newTask.proc.machine := by
    refine ⟨twoDirs_good.struct.congr (fun _ _ => rfl) rfl rfl fun f hf => ?_, twoDirs_good.used⟩
    have hcases : f = 0x104000 ∨ f = 0x105000 ∨ f = 0x106000 := by
      have hf' : f ∈ [0x104000, 0x105000, 0x106000] := hf
      simpa using hf'
    refine ⟨?_, ?_, fun d i hd hi ht => ?_⟩
    · rcases hcases with rfl | rfl | rfl <;> exact fun h => h.elim (by decide) (by decide)
    · rcases hcases with rfl | rfl | rfl <;> decide
    · have ht' := (twoDirs_table hd hi ht).2.2
      rcases hcases with rfl | rfl | rfl <;> exact absurd ht' (by decide)
  refine ⟨hgood, by decide, fun _ _ h => h, rfl, rfl, fun q hq => ?_, fun _ => rfl⟩
  refine view_none ?_
  cases ht : table newTask.proc.machine.mem (frameOf newTask.proc.as) (q / 1024) with
  | none => rfl
  | some t =>
    have hd := (twoDirs_table (d := frameOf newTask.proc.as) (.inl (by decide)) hq.pdi ht).1
    exact absurd hd (by decide)

/-- The grow loop with the directory in hand. -/
def growIn (A : FrameAlloc α) (d newBrk : UInt32) : Nat → UInt32 → Machine α → Except Stop (Machine α)
  | 0, _, s => .ok s
  | n + 1, va, s =>
    if va < newBrk then
      match A.allocFrame s.frames with
      | none => .error .panic
      | some (frame, a) => do
        let s ← mapIn A { s with frames := a } d (vmmPdi va) (vmmPti va) (pdeFlagsOf userPageFlags)
          (pageEntry (frame &&& pageMask) userPageFlags) true
        growIn A d newBrk n (va + pageSize) s
    else .ok s

theorem Heap.growLoop_eq {L : Layout} {A : FrameAlloc α} {avail : α → UInt32 → Prop} (hA : Lawful A avail)
    {as newBrk : UInt32} (hmax : newBrk.toNat ≤ heapHi * 4096) : ∀ (n : Nat) {va : UInt32} {s : Machine α}
      {P : Nat → Prop}, Heap L avail (frameOf as) P s → heapLo ≤ va.toNat / 4096 →
        Vmm.growLoop A as newBrk n va s = growIn A (frameOf as) newBrk n va s
  | 0, _, _, _, _, _ => rfl
  | n + 1, va, s, P, h, hlo => by
    unfold Vmm.growLoop growIn
    by_cases hlt : va < newBrk
    · rw [if_pos hlt, if_pos hlt]
      have hltn : va.toNat < newBrk.toNat := hlt
      have hq : InHeap (va.toNat / 4096) := ⟨hlo, by omega⟩
      cases hal : A.allocFrame s.frames with
      | none => rfl
      | some r =>
        obtain ⟨f, a⟩ := r
        have hpdi : vmmPdi va < kmapPdeBase := by
          rw [vmmPdi_page]
          exact hq.pdi
        have hslot : SlotOk A { s with frames := a } (frameOf as) (vmmPdi va) :=
          (h.good.alloc hA hal).1.struct.slotOk hA h.dir hpdi
        have hmap : mapPage A { s with frames := a } as va f userPageFlags true =
            mapIn A { s with frames := a } (frameOf as) (vmmPdi va) (vmmPti va) (pdeFlagsOf userPageFlags)
              (pageEntry (f &&& pageMask) userPageFlags) true := by
          rw [mapPage_eq hslot, show leave ({ s with frames := a } : Machine α) (frameOf as) = id from
            funext fun _ => if_pos h.pd]
          exact congrFun Except.map_id _
        dsimp only
        rw [← hmap]
        cases hs1 : mapPage A { s with frames := a } as va f userPageFlags true with
        | error e => rfl
        | ok s1 =>
          have hnext : (va + pageSize).toNat = va.toNat + 4096 := next_toNat (Nat.lt_of_lt_of_le hltn hmax)
          rw [ok_bind, ok_bind]
          exact Heap.growLoop_eq hA hmax n (h.grow hA rfl rfl hq hal hs1).1 (by omega)
    · rw [if_neg hlt, if_neg hlt]

/-- A call that grows the heap, with the directory in hand. -/
def sbrkIn (A : FrameAlloc α) (p : Proc α) (increment : UInt32) : Option (Proc α) :=
  (growIn A (frameOf p.as) (p.brkEnd + increment) heapPages p.brkEnd p.machine).toOption.map fun s =>
    { p with machine := s, brkEnd := p.brkEnd + increment, errno := signed p.brkEnd }

theorem HeapInv.sbrk_eq {L : Layout} {A : FrameAlloc α} {avail : α → UInt32 → Prop} {r : HeapRun α}
    (h : HeapInv L avail r) (hA : Lawful A avail) {increment : UInt32} (hin : ¬outOfRange r.proc increment)
    (hpos : 0 < signed increment) {p : Proc α} (hp : sbrkIn A r.proc increment = some p) :
    sysSbrk A r.proc increment = .ok p := by
  have hlow : 0x20000000 ≤ r.proc.brkEnd.toNat := h.low
  have hmax : (r.proc.brkEnd + increment).toNat ≤ heapHi * 4096 := by
    have hge := (not_or.mp hin).2
    rw [UInt32.le_iff_toNat_le] at hge
    have e2 : userHeapMax.toNat = 0x5FFFFFFF := rfl
    unfold heapHi
    omega
  unfold sysSbrk
  dsimp only
  rw [if_neg hin, if_pos hpos, Heap.growLoop_eq hA hmax heapPages h.heap (by unfold heapLo; omega)]
  unfold sbrkIn at hp
  cases hg : growIn A (frameOf r.proc.as) (r.proc.brkEnd + increment) heapPages r.proc.brkEnd r.proc.machine with
  | error e => rw [hg] at hp; cases hp
  | ok s =>
    rw [hg] at hp
    cases hp
    rfl

/-- The new task grows its heap, writes to its first byte, and grows it again. -/
def growTwice (n : UInt32) : Option (Proc FreeList × Machine FreeList × Proc FreeList) := do
  let p ← sbrkIn freeListAlloc newTask.proc n
  let s ← writeByte p.machine 0x20000000 7
  let p' ← sbrkIn freeListAlloc { p with machine := s } n
  some (p, s, p')

/-- The steps up to the last call are guarded, and the byte counts as written after it. -/
theorem growTwice_run {n : UInt32} {p p' : Proc FreeList} {s : Machine FreeList}
    (h : growTwice n = some (p, s, p')) (hpos : 0 < signed n) (hin : ¬outOfRange newTask.proc n)
    (hin' : ¬outOfRange { newTask.proc with brkEnd := userHeapStart + n } n)
    (hlt : 0x20000000 < userHeapStart + n ∧ 0x20000000 < userHeapStart + n + n) :
    ∃ r r', Run.Reachable (HeapInit twoDirsLayout fun l f => f ∈ l.1) (HeapGuardedStep freeListAlloc) r ∧
      r.proc.brkEnd = userHeapStart + n ∧ ¬outOfRange r.proc n ∧ sysSbrk freeListAlloc r.proc n = .ok p' ∧
        heapStep freeListAlloc r (.sbrk n) = some r' ∧ r'.proc = p' ∧ r'.written 0x20000000 = some 7 := by
  obtain ⟨q, hp, h⟩ := Option.bind_eq_some_iff.mp h
  obtain ⟨t, hs, h⟩ := Option.bind_eq_some_iff.mp h
  obtain ⟨q', hp', h⟩ := Option.bind_eq_some_iff.mp h
  obtain ⟨rfl, hrest⟩ := Prod.mk.inj (Option.some.inj h)
  obtain ⟨rfl, rfl⟩ := Prod.mk.inj hrest
  have hinv := newTask_init.inv
  have hcall := hinv.sbrk_eq freeListAlloc_lawful hin hpos hp
  obtain ⟨s1, -, hq⟩ := Option.map_eq_some_iff.mp hp
  have hend : q.brkEnd = userHeapStart + n := by rw [← hq]; rfl
  have hstart : q.brkStart = userHeapStart := by rw [← hq]; rfl
  let r1 : HeapRun FreeList := { proc := q, written := fun va => if va < q.brkEnd then newTask.written va else none }
  have hst1 : heapStep freeListAlloc newTask (.sbrk n) = some r1 := by
    unfold heapStep
    dsimp only
    rw [hcall]
  have hg1 : HeapGuarded newTask (.sbrk n) := .inr ⟨fun _ => rfl, fun hneg =>
    absurd hneg (Int.not_lt.mpr (Int.le_of_lt hpos))⟩
  have hinv1 := hinv.step freeListAlloc_lawful hg1 hst1
  let r2 : HeapRun FreeList :=
    { proc := { q with machine := t }, written := update r1.written 0x20000000 (some 7) }
  have hst2 : heapStep freeListAlloc r1 (.store 0x20000000 7) = some r2 := by
    unfold heapStep
    have hok : r1.proc.brkStart ≤ 0x20000000 ∧ 0x20000000 < r1.proc.brkEnd := by
      refine ⟨?_, ?_⟩
      · show q.brkStart ≤ _
        rw [hstart]
        decide
      · show _ < q.brkEnd
        rw [hend]
        exact hlt.1
    dsimp only
    rw [if_pos hok, show writeByte r1.proc.machine 0x20000000 7 = some t from hs]
    rfl
  have hinv2 := hinv1.step freeListAlloc_lawful (show HeapGuarded r1 (.store 0x20000000 7) from trivial) hst2
  have hnot : ¬outOfRange r2.proc n := by
    unfold outOfRange at hin' ⊢
    show ¬(q.brkEnd + n < q.brkStart ∨ userHeapMax ≤ q.brkEnd + n)
    rw [hend, hstart]
    exact hin'
  have hcall2 := hinv2.sbrk_eq freeListAlloc_lawful hnot hpos hp'
  obtain ⟨s3, -, hq'⟩ := Option.map_eq_some_iff.mp hp'
  have hend' : q'.brkEnd = q.brkEnd + n := by rw [← hq']
  refine ⟨r2, { proc := q', written := fun va => if va < q'.brkEnd then r2.written va else none },
    ((Run.Reachable.start newTask_init).step ⟨_, hg1, hst1⟩).step ⟨.store 0x20000000 7, trivial, hst2⟩, hend,
    hnot, hcall2, ?_, rfl, ?_⟩
  · unfold heapStep
    dsimp only
    rw [hcall2]
  · dsimp only
    rw [hend', hend, if_pos hlt.2]
    show update r1.written 0x20000000 (some 7) 0x20000000 = some 7
    exact update_self ..

/-- The second byte of the heap costs the task the first. -/
theorem not_always_heapKept : ¬∀ r, Run.Reachable (HeapInit twoDirsLayout fun l f => f ∈ l.1)
    (HeapStep freeListAlloc) r → HeapKept r := by
  intro h
  have hrun : (growTwice 1).map (fun x => (x.2.2.brkStart, x.2.2.brkEnd, byteAt x.2.2.machine 0x20000000)) =
      some (0x20000000, 0x20000002, some 0) := by decide +kernel
  obtain ⟨⟨p, s, p'⟩, hgrow, heq⟩ := Option.map_eq_some_iff.mp hrun
  obtain ⟨hstart, heq⟩ := Prod.mk.inj heq
  obtain ⟨hend, hbyte⟩ := Prod.mk.inj heq
  obtain ⟨r, r', hr, -, -, -, hst, rfl, hwritten⟩ :=
    growTwice_run hgrow (by decide) (by decide) (by decide) (by decide)
  have hreach : Run.Reachable (HeapInit twoDirsLayout fun l f => f ∈ l.1) (HeapStep freeListAlloc) r :=
    hr.mono fun _ _ ⟨op, _, hs⟩ => ⟨op, hs⟩
  have hkept := (h r' (hreach.step ⟨_, hst⟩)).written 0x20000000 7 (hstart ▸ UInt32.le_refl _)
    (by rw [hend]; decide) hwritten
  rw [hbyte] at hkept
  cases hkept

/-- Whole pages: the first one keeps its byte. -/
theorem heapKept_of_aligned_pages : ∃ r p', Run.Reachable (HeapInit twoDirsLayout fun l f => f ∈ l.1)
    (HeapGuardedStep freeListAlloc) r ∧ HeapKept r ∧ sysSbrk freeListAlloc r.proc 4096 = .ok p' ∧
      CallOk r.proc p' := by
  have hrun : (growTwice 4096).isSome = true := by decide +kernel
  obtain ⟨⟨p, s, p'⟩, hgrow⟩ := Option.isSome_iff_exists.mp hrun
  obtain ⟨r, r', hr, hend, hin, hcall, -, -, -⟩ :=
    growTwice_run hgrow (by decide) (by decide) (by decide) (by decide)
  have hgood := heapKept_of_aligned freeListAlloc_lawful hr
  refine ⟨r, p', hr, hgood.1, hcall, hgood.2 4096 p' ?_ hin hcall⟩
  refine .inr ⟨fun _ => ?_, fun hneg => absurd hneg (by decide)⟩
  rw [hend]
  decide

end Serotonin.Vmm
