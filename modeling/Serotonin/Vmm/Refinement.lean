import Serotonin.Vmm.Effects
import Serotonin.Lib.Run
import Mathlib.Data.List.Nodup

/-! The page directories as partial maps. The abstract state gives for every
directory and page a frame or nothing, and an operation sets one page. Every run
of `map_page`, `unmap_page`, `get_mapping` and switches between directories has
the page maps of the abstract run, whichever directory is in CR3 at each step. -/

namespace Serotonin.Vmm

open List

variable {α : Type}

/-! ## The abstract maps -/

/-- Per directory, entry and entry of the table: the frame, if one is mapped. -/
abbrev PageMaps := UInt32 → Nat → Nat → Option UInt32

def PageMaps.set (M : PageMaps) (d : UInt32) (pdi pti : Nat) (v : Option UInt32) : PageMaps :=
  fun d' i j => if d' = d ∧ i = pdi ∧ j = pti then v else M d' i j

inductive Op where
  | map (as vaddr paddr flags : UInt32) (overwrite : Bool)
  | unmap (as vaddr : UInt32) (freeFrameFlag : Bool)
  | get (as vaddr : UInt32)
  | switch (as : UInt32)

def PageMaps.apply (M : PageMaps) : Op → PageMaps
  | .map as vaddr paddr _ _ => M.set (frameOf as) (vmmPdi vaddr) (vmmPti vaddr) (some (frameOf paddr))
  | .unmap as vaddr _ => M.set (frameOf as) (vmmPdi vaddr) (vmmPti vaddr) none
  | .get _ _ | .switch _ => M

/-! ## The operations -/

def step (A : FrameAlloc α) (s : Machine α) : Op → Except Stop (Machine α)
  | .map as vaddr paddr flags overwrite => mapPage A s as vaddr paddr flags overwrite
  | .unmap as vaddr freeFrameFlag => unmapPage A s as vaddr freeFrameFlag
  | .get as vaddr => (getMapping s as vaddr).map (·.2)
  | .switch as => .ok (switchAddressSpace s as)

/-- What the callers see to: an operation is on a directory, maps and unmaps pages
whose table one directory owns, and gives a page's frame back only if it is the
caller's to give. The two last slots are the kernel's own windows. -/
def Allowed (L : Layout) (avail : α → UInt32 → Prop) (s : Machine α) : Op → Prop
  | .map as vaddr _ _ _ => L.dirs (frameOf as) ∧ vmmPdi vaddr < kmapPdeBase ∧ ¬L.shared (vmmPdi vaddr)
  | .unmap as vaddr freeFrameFlag =>
    L.dirs (frameOf as) ∧ vmmPdi vaddr < kmapPdeBase ∧ ¬L.shared (vmmPdi vaddr) ∧
    (freeFrameFlag = true → ∀ f, view s.mem (frameOf as) (vmmPdi vaddr) (vmmPti vaddr) = some f →
      Apart L s f ∧ ¬avail s.frames f)
  | .get as vaddr => L.dirs (frameOf as) ∧ vmmPdi vaddr < kmapPdeBase
  | .switch as => L.dirs (frameOf as)

/-- The machine but for what is in CR3 and in the window. -/
def Machine.closed (s : Machine α) : Machine α := { s.slot 0 with cr3 := 0 }

section
variable {L : Layout} {A : FrameAlloc α} {avail : α → UInt32 → Prop} {s s' : Machine α}
  {d t : UInt32} {pdi pti : Nat}

theorem vmmPdi_mask (va : UInt32) : vmmPdi (va &&& pageMask) = vmmPdi va := by
  rw [vmmPdi_toNat, vmmPdi_toNat, UInt32.toNat_and, ← Nat.shiftRight_eq_div_pow,
    Nat.shiftRight_and_distrib, ← Nat.shiftRight_eq_div_pow]
  have hlt : va.toNat >>> 22 < 2 ^ 10 := by
    rw [Nat.shiftRight_eq_div_pow]
    have := va.toNat_lt
    omega
  have hm := Nat.and_two_pow_sub_one_eq_mod (va.toNat >>> 22) 10
  rw [Nat.mod_eq_of_lt hlt] at hm
  exact hm

theorem vmmPti_mask (va : UInt32) : vmmPti (va &&& pageMask) = vmmPti va := by
  rw [vmmPti_toNat, vmmPti_toNat, UInt32.toNat_and, ← Nat.shiftRight_eq_div_pow,
    Nat.shiftRight_and_distrib, ← Nat.shiftRight_eq_div_pow]
  have hlt : va.toNat >>> 12 < 2 ^ 20 := by
    rw [Nat.shiftRight_eq_div_pow]
    have := va.toNat_lt
    omega
  have hm := Nat.and_two_pow_sub_one_eq_mod (va.toNat >>> 12) 20
  rw [Nat.mod_eq_of_lt hlt] at hm
  exact congrArg (· % 1024) hm

/-- The window is left closed if it was used. -/
def leave (s : Machine α) (d : UInt32) (s' : Machine α) : Machine α :=
  if s.pd = d then s' else s'.slot 0

theorem mapPage_eq {as vaddr : UInt32} (h : SlotOk A s (frameOf as) (vmmPdi vaddr))
    (paddr flags : UInt32) (overwrite : Bool) :
    mapPage A s as vaddr paddr flags overwrite =
      (mapIn A s (frameOf as) (vmmPdi vaddr) (vmmPti vaddr) (pdeFlagsOf flags)
        (pageEntry (paddr &&& pageMask) flags) overwrite).map (leave s (frameOf as)) := by
  unfold mapPage leave
  dsimp only
  rw [vmmPdi_mask, vmmPti_mask]
  by_cases hcur : frameOf s.cr3 = frameOf as
  · have hpd : s.pd = frameOf as := hcur
    rw [← hpd] at h ⊢
    rw [if_pos (show frameOf s.cr3 = s.pd from rfl), mapCurrent_eq h (vmmPti_lt vaddr)]
    simp only [if_true]
    cases mapIn A s s.pd (vmmPdi vaddr) (vmmPti vaddr) (pdeFlagsOf flags)
      (pageEntry (paddr &&& pageMask) flags) overwrite <;> rfl
  · rw [if_neg hcur, mapForeign_eq h (vmmPti_lt vaddr)]
    have hpd : ¬s.pd = frameOf as := hcur
    simp only [if_neg hpd]

theorem unmapPage_eq {as vaddr : UInt32} (h : SlotOk A s (frameOf as) (vmmPdi vaddr)) (fr : Bool) :
    unmapPage A s as vaddr fr =
      .ok (leave s (frameOf as) (unmapIn A s (frameOf as) (vmmPdi vaddr) (vmmPti vaddr) fr)) := by
  unfold unmapPage leave
  dsimp only
  rw [vmmPdi_mask, vmmPti_mask]
  by_cases hcur : frameOf s.cr3 = frameOf as
  · have hpd : s.pd = frameOf as := hcur
    rw [← hpd] at h ⊢
    rw [if_pos (show frameOf s.cr3 = s.pd from rfl), if_pos rfl, unmapCurrent_eq h (vmmPti_lt vaddr)]
  · have hpd : ¬s.pd = frameOf as := hcur
    rw [if_neg hcur, if_neg hpd, unmapForeign_eq h (vmmPti_lt vaddr)]

theorem getMapping_eq {as vaddr : UInt32} (h : SlotOk A s (frameOf as) (vmmPdi vaddr)) :
    getMapping s as vaddr =
      .ok ((view s.mem (frameOf as) (vmmPdi vaddr) (vmmPti vaddr)).getD 0, leave s (frameOf as) s) := by
  unfold getMapping leave
  dsimp only
  rw [vmmPdi_mask, vmmPti_mask]
  by_cases hcur : frameOf s.cr3 = frameOf as
  · have hpd : s.pd = frameOf as := hcur
    rw [← hpd] at h ⊢
    rw [if_pos (show frameOf s.cr3 = s.pd from rfl), if_pos rfl, getCurrent_eq h (vmmPti_lt vaddr)]
  · have hpd : ¬s.pd = frameOf as := hcur
    rw [if_neg hcur, if_neg hpd, getForeign_eq h (vmmPti_lt vaddr)]

/-! ## What a step preserves -/

theorem Struct.table_slot (h : Struct L avail s) (w : UInt32) (hd : L.dirs d) (i : Nat) :
    table (s.slot w).mem d i = table s.mem d i :=
  table_set_ne (.inl fun he : d = s.kmapPt => h.kmapPt (he ▸ hd)) w

theorem Good.inSlot (h : Good L avail s) (w : UInt32) : Good L avail (s.slot w) := by
  refine ⟨h.struct.inSlot w, fun d i t hd hi hs ht => ?_⟩
  rw [h.struct.table_slot w hd i] at ht
  have hk := (h.struct.apart d i t hd (Nat.lt_trans hi (by decide)) ht).2
  rw [Machine.slot_mem hk]
  exact h.used d i t hd hi hs ht

theorem Struct.view_slot (h : Struct L avail s) (w : UInt32) {j : Nat} (hd : L.dirs d)
    (hi : pdi < kmapPdeBase) : view (s.slot w).mem d pdi j = view s.mem d pdi j :=
  view_congr (h.table_slot w hd pdi) fun t ht =>
    Machine.slot_mem (h.apart d pdi t hd hi ht).2 w

theorem Struct.balance_slot (h : Struct L avail s) (w f : UInt32) :
    balance L (s.slot w) f = balance L s f :=
  balance_congr (fun _ i hd => h.table_slot w hd i) rfl

/-- What a step leaves: the layout, one page set as the abstract step sets it, and
the frames of tables balanced. -/
structure StepOk (L : Layout) (avail : α → UInt32 → Prop) (s s' : Machine α) (op : Op) : Prop where
  good : Good L avail s'
  maps : ∀ M : PageMaps, (∀ d i j, L.dirs d → i < kmapPdeBase → j < pageEntries → view s.mem d i j = M d i j) →
    ∀ d i j, L.dirs d → i < kmapPdeBase → j < pageEntries → view s'.mem d i j = M.apply op d i j
  balanced : ∀ f, balance L s' f = balance L s f

/-- Setting one page is what the abstract step does. -/
theorem SetsPage.refines {v : Option UInt32} (h : SetsPage L s s' d pdi pti v) {M : PageMaps}
    (hM : ∀ d i j, L.dirs d → i < kmapPdeBase → j < pageEntries → view s.mem d i j = M d i j)
    {d' : UInt32} {i j : Nat} (hd' : L.dirs d') (hi : i < kmapPdeBase) (hj : j < pageEntries) :
    view s'.mem d' i j = M.set d pdi pti v d' i j := by
  unfold PageMaps.set
  by_cases hp : d' = d ∧ i = pdi ∧ j = pti
  · obtain ⟨rfl, rfl, rfl⟩ := hp
    rw [if_pos ⟨rfl, rfl, rfl⟩, h.page]
  · rw [if_neg hp, ← hM d' i j hd' hi hj]
    refine h.others d' i j hd' hi hj ?_
    rcases not_and_or.mp hp with h1 | h1
    · exact .inl h1
    · exact .inr (not_and_or.mp h1)

theorem StepOk.leave {op : Op} (h : StepOk L avail s s' op) (r : Machine α) (d : UInt32) :
    StepOk L avail s (Vmm.leave r d s') op := by
  unfold Vmm.leave
  split
  · exact h
  · refine ⟨h.good.inSlot 0, fun M hM d i j hd hi hj => ?_, fun f => ?_⟩
    · rw [h.good.struct.view_slot 0 hd hi]
      exact h.maps M hM d i j hd hi hj
    · rw [h.good.struct.balance_slot]
      exact h.balanced f

theorem unmapIn_unmapped (h : view s.mem d pdi pti = none) (fr : Bool) : unmapIn A s d pdi pti fr = s := by
  unfold unmapIn
  cases ht : table s.mem d pdi with
  | none => rfl
  | some t =>
    rw [view_of_table ht] at h
    exact if_neg (by rw [table_eq_none.mp h]; exact Bool.false_ne_true)

theorem unmapIn_mapped {f : UInt32} (ht : table s.mem d pdi = some t) (h : view s.mem d pdi pti = some f)
    (fr : Bool) : unmapIn A s d pdi pti fr = removeEntry A (freeMapped A s (s.mem t pti) fr) d pdi pti t ∧
      frameOf (s.mem t pti) = f := by
  rw [view_of_table ht] at h
  obtain ⟨hp, hf⟩ := table_eq_some.mp h
  unfold unmapIn
  rw [ht]
  exact ⟨if_pos hp, hf⟩

theorem balance_freeMapped (entry : UInt32) (fr : Bool) (f : UInt32) :
    balance L (freeMapped A s entry fr) f = balance L s f := by
  unfold freeMapped
  split
  · have hown : ownedCount L (s.freePage A (frameOf entry)) f = ownedCount L s f :=
      ownedCount_congr Iff.rfl
    unfold balance
    rw [hown]
    show (List.count (.allocTable f) (.freePage _ :: s.log) : Int) -
      List.count (.freeTable f) (.freePage _ :: s.log) - _ = _
    rw [count_cons, count_cons, if_neg (by simp), if_neg (by simp)]
    rfl
  · rfl

theorem Good.unmapIn (h : Good L avail s) (hA : Lawful A avail) (hd : L.dirs d)
    (hi : pdi < kmapPdeBase) (hs : ¬L.shared pdi) {fr : Bool}
    (hfr : fr = true → ∀ f, view s.mem d pdi pti = some f → Apart L s f ∧ ¬avail s.frames f) :
    Good L avail (Vmm.unmapIn A s d pdi pti fr) ∧
    SetsPage L s (Vmm.unmapIn A s d pdi pti fr) d pdi pti none ∧
    ∀ f, balance L (Vmm.unmapIn A s d pdi pti fr) f = balance L s f := by
  cases hv : view s.mem d pdi pti with
  | none =>
    rw [unmapIn_unmapped hv]
    exact ⟨h, ⟨hv, fun _ _ _ _ _ _ _ => rfl⟩, fun _ => rfl⟩
  | some f =>
    cases ht : table s.mem d pdi with
    | none =>
      rw [view_none ht] at hv
      cases hv
    | some t =>
      obtain ⟨hrun, hf⟩ := unmapIn_mapped (A := A) ht hv fr
      have h1 : Good L avail (Vmm.freeMapped A s (s.mem t pti) fr) :=
        h.freeMapped hA fun hfr' => hf ▸ hfr hfr' f hv
      have hm := (freeMapped_frame A s (s.mem t pti) fr).1
      have ht1 : table (Vmm.freeMapped A s (s.mem t pti) fr).mem d pdi = some t := by rw [hm]; exact ht
      obtain ⟨hgood, hset, hbal, _⟩ := @Good.removeEntry _ L A avail _ d t pdi pti h1 hA hd hi hs ht1
      rw [hrun]
      refine ⟨hgood, ⟨hset.page, fun d' i j hd' hi' hj hne => ?_⟩, fun g => ?_⟩
      · rw [hset.others d' i j hd' hi' hj hne, hm]
      · rw [hbal g, balance_freeMapped]

theorem Good.step (h : Good L avail s) (hA : Lawful A avail) {op : Op} (hop : Allowed L avail s op)
    (hrun : step A s op = .ok s') : StepOk L avail s s' op := by
  cases op with
  | map as vaddr paddr flags overwrite =>
    obtain ⟨hd, hi, hs⟩ := hop
    have hslot := h.struct.slotOk hA hd hi
    dsimp only [Vmm.step] at hrun
    rw [mapPage_eq hslot] at hrun
    cases hm : Vmm.mapIn A s (frameOf as) (vmmPdi vaddr) (vmmPti vaddr) (pdeFlagsOf flags)
        (pageEntry (paddr &&& pageMask) flags) overwrite with
    | error e => rw [hm] at hrun; cases hrun
    | ok s1 =>
      rw [hm] at hrun
      cases hrun
      obtain ⟨hgood, hset, hbal, _⟩ := h.mapIn hA hd hi hs (vmmPti_lt vaddr) (present_pageEntry ..) hm
      rw [frameOf_pageEntry] at hset
      have hok : StepOk L avail s s1 (.map as vaddr paddr flags overwrite) :=
        ⟨hgood, fun M hM d i j hd hi hj => hset.refines hM hd hi hj, hbal⟩
      exact hok.leave s (frameOf as)
  | unmap as vaddr fr =>
    obtain ⟨hd, hi, hs, hfr⟩ := hop
    have hslot := h.struct.slotOk hA hd hi
    dsimp only [Vmm.step] at hrun
    rw [unmapPage_eq hslot] at hrun
    cases hrun
    obtain ⟨hgood, hset, hbal⟩ := h.unmapIn hA hd hi hs hfr
    have hok : StepOk L avail s (Vmm.unmapIn A s (frameOf as) (vmmPdi vaddr) (vmmPti vaddr) fr)
        (.unmap as vaddr fr) := ⟨hgood, fun M hM d i j hd hi hj => hset.refines hM hd hi hj, hbal⟩
    exact hok.leave s (frameOf as)
  | get as vaddr =>
    obtain ⟨hd, hi⟩ := hop
    dsimp only [Vmm.step] at hrun
    rw [getMapping_eq (h.struct.slotOk hA hd hi)] at hrun
    cases hrun
    have hok : StepOk L avail s s (.get as vaddr) := ⟨h, fun M hM => hM, fun _ => rfl⟩
    exact hok.leave s (frameOf as)
  | switch as =>
    cases hrun
    unfold switchAddressSpace
    split
    · have hmove : Struct L avail { s with cr3 := frameOf as } := by
        refine ⟨?_, h.struct.aligned, h.struct.self, h.struct.window, h.struct.ready, h.struct.kmapPt,
          h.struct.apart, h.struct.own, fun f hf => ?_⟩
        · show L.dirs (frameOf (frameOf as))
          rw [frameOf_frameOf]
          exact hop
        · obtain ⟨h1, h2, h3⟩ := h.struct.avail f hf
          exact ⟨h1, h2, h3⟩
      exact ⟨⟨hmove, h.used⟩, fun M hM => hM, fun f => balance_congr (fun _ _ _ => rfl) rfl⟩
    · exact ⟨h, fun M hM => hM, fun _ => rfl⟩

/-! ## What a step needs, and which directory is in CR3 -/

/-- An operation panics over a mapped page that it must not replace, or because
there is no frame for the table it needs. -/
theorem mapIn_error {flags entry : UInt32} {overwrite : Bool} {e : Stop} (hpti : pti < pageEntries)
    (h : mapIn A s d pdi pti flags entry overwrite = .error e) : e = .panic ∧
    ((overwrite = false ∧ view s.mem d pdi pti ≠ none) ∨
      (table s.mem d pdi = none ∧ ∀ f a, A.allocFrame s.frames = some (f, a) → f = 0)) := by
  unfold mapIn tableFor at h
  cases ht : table s.mem d pdi with
  | some t =>
    rw [ht] at h
    simp only [ok_bind] at h
    split at h
    · rename_i hp
      rw [Bool.and_eq_true, Bool.not_eq_true'] at hp
      cases h
      refine ⟨rfl, .inl ⟨hp.2, ?_⟩⟩
      rw [view_of_table ht, table_eq_some.mpr ⟨hp.1, rfl⟩]
      exact Option.some_ne_none _
    · cases h
  | none =>
    rw [ht] at h
    cases ha : allocTable A s with
    | error e' =>
      rw [ha] at h
      cases h
      unfold allocTable at ha
      cases hf : A.allocFrame s.frames with
      | none =>
        rw [hf] at ha
        cases ha
        exact ⟨rfl, .inr ⟨rfl, fun f a hfa => by cases hfa⟩⟩
      | some r =>
        obtain ⟨f, a⟩ := r
        rw [hf] at ha
        dsimp only at ha
        split at ha
        · rename_i h0
          cases ha
          refine ⟨rfl, .inr ⟨rfl, fun f' a' hfa => ?_⟩⟩
          cases hfa
          exact h0
        · cases ha
    | ok r =>
      -- the table just made is empty
      obtain ⟨f, s1⟩ := r
      rw [ha] at h
      have hzero : ((s1.poke d pdi (tableEntry f flags)).clear (frameOf f) pageEntries).mem (frameOf f) pti =
          0 := by
        rw [Machine.clear_mem]
        exact if_pos ⟨rfl, hpti⟩
      simp only [ok_bind] at h
      rw [hzero, present_zero, Bool.false_and] at h
      cases h

theorem clear_cr3 (s : Machine α) (c p : UInt32) : ∀ n,
    Machine.clear { s with cr3 := c } p n = { s.clear p n with cr3 := c }
  | 0 => rfl
  | n + 1 => by
    unfold Machine.clear
    rw [clear_cr3 s c p n]
    rfl

/-- The tables are changed without a look at CR3. -/
theorem mapIn_cr3 (s : Machine α) (c : UInt32) (flags entry : UInt32) (overwrite : Bool) :
    mapIn A { s with cr3 := c } d pdi pti flags entry overwrite =
      (mapIn A s d pdi pti flags entry overwrite).map fun s' => { s' with cr3 := c } := by
  unfold mapIn tableFor
  dsimp only
  cases table s.mem d pdi with
  | some t =>
    simp only [ok_bind]
    split <;> rfl
  | none =>
    have ha : allocTable A { s with cr3 := c } =
        (allocTable A s).map fun r => (r.1, { r.2 with cr3 := c }) := by
      unfold allocTable
      dsimp only
      cases A.allocFrame s.frames with
      | none => rfl
      | some r =>
        obtain ⟨f, a⟩ := r
        dsimp only
        split <;> rfl
    dsimp only
    rw [ha]
    cases allocTable A s with
    | error e => rfl
    | ok r =>
      obtain ⟨f, s1⟩ := r
      have hclear : Machine.clear (Machine.poke { s1 with cr3 := c } d pdi (tableEntry f flags)) (frameOf f)
          pageEntries = { (s1.poke d pdi (tableEntry f flags)).clear (frameOf f) pageEntries with cr3 := c } :=
        clear_cr3 (s1.poke d pdi (tableEntry f flags)) c (frameOf f) pageEntries
      simp only [Except.map, ok_bind]
      rw [hclear]
      dsimp only
      split <;> rfl

theorem unmapIn_cr3 (s : Machine α) (c : UInt32) (fr : Bool) :
    unmapIn A { s with cr3 := c } d pdi pti fr = { unmapIn A s d pdi pti fr with cr3 := c } := by
  unfold unmapIn
  dsimp only
  cases table s.mem d pdi with
  | none => rfl
  | some t =>
    have hfree : freeMapped A { s with cr3 := c } (s.mem t pti) fr =
        { freeMapped A s (s.mem t pti) fr with cr3 := c } := by
      unfold freeMapped
      split <;> rfl
    dsimp only
    split
    · rw [hfree]
      unfold removeEntry
      dsimp only
      generalize freeMapped A s (s.mem t pti) fr = s1
      show (if pdi < kernelPdeBase ∧ EmptyTable ((s1.poke t pti 0).mem t) then _ else _) = _
      split <;> rfl
    · rfl

theorem closed_leave (s s' : Machine α) (d : UInt32) : (leave s d s').closed = s'.closed := by
  unfold leave
  split
  · rfl
  · unfold Machine.closed
    rw [Machine.slot_slot]

/-- The directory in CR3 makes no difference but in CR3 and in the window. -/
theorem Struct.step_cr3 (h : Struct L avail s) (hA : Lawful A avail) {op : Op} {c : UInt32}
    (hop : Allowed L avail s op) (hc : L.dirs (frameOf c)) :
    (step A { s with cr3 := c } op).map Machine.closed = (step A s op).map Machine.closed := by
  have h' : Struct L avail { s with cr3 := c } := by
    refine ⟨hc, h.aligned, h.self, h.window, h.ready, h.kmapPt, h.apart, h.own, fun f hf => ?_⟩
    obtain ⟨h1, h2, h3⟩ := h.avail f hf
    exact ⟨h1, h2, h3⟩
  have hclosed : ∀ x : Machine α, Machine.closed { x with cr3 := c } = x.closed := fun _ => rfl
  cases op with
  | map as vaddr paddr flags overwrite =>
    obtain ⟨hd, hi, _⟩ := hop
    dsimp only [Vmm.step]
    rw [mapPage_eq (h.slotOk hA hd hi), mapPage_eq (h'.slotOk hA hd hi), mapIn_cr3]
    cases mapIn A s (frameOf as) (vmmPdi vaddr) (vmmPti vaddr) (pdeFlagsOf flags)
      (pageEntry (paddr &&& pageMask) flags) overwrite with
    | error e => rfl
    | ok s' =>
      simp only [Except.map]
      rw [closed_leave, closed_leave, hclosed]
  | unmap as vaddr fr =>
    obtain ⟨hd, hi, _⟩ := hop
    dsimp only [Vmm.step]
    rw [unmapPage_eq (h.slotOk hA hd hi), unmapPage_eq (h'.slotOk hA hd hi), unmapIn_cr3]
    simp only [Except.map]
    rw [closed_leave, closed_leave, hclosed]
  | get as vaddr =>
    obtain ⟨hd, hi⟩ := hop
    dsimp only [Vmm.step]
    rw [getMapping_eq (h.slotOk hA hd hi), getMapping_eq (h'.slotOk hA hd hi)]
    simp only [Except.map]
    rw [closed_leave, closed_leave, hclosed]
  | switch as =>
    have hsw : ∀ x : Machine α, (switchAddressSpace x as).closed = x.closed := by
      intro x
      unfold switchAddressSpace
      split <;> rfl
    dsimp only [Vmm.step, Except.map]
    rw [hsw, hsw, hclosed]

/-- The last entry of a user table, and no other, takes the table with it. -/
theorem unmapIn_log (ht : table s.mem d pdi = some t) (fr : Bool) :
    (unmapIn A s d pdi pti fr).log.count (.freeTable t) = s.log.count (.freeTable t) +
      if pdi < kernelPdeBase ∧ view s.mem d pdi pti ≠ none ∧
        (∀ j, j < pageEntries → j ≠ pti → view s.mem d pdi j = none) then 1 else 0 := by
  cases hv : view s.mem d pdi pti with
  | none =>
    rw [unmapIn_unmapped hv, if_neg fun hc => hc.2.1 rfl]
    rfl
  | some f =>
    rw [(unmapIn_mapped (A := A) ht hv fr).1]
    have hm := (freeMapped_frame A s (s.mem t pti) fr).1
    have hlog : (freeMapped A s (s.mem t pti) fr).log.count (.freeTable t) =
        s.log.count (.freeTable t) := by
      unfold freeMapped
      split
      · show List.count _ (_ :: _) = _
        rw [count_cons, if_neg (by simp), Nat.add_zero]
      · rfl
    have hempty : EmptyTable (((freeMapped A s (s.mem t pti) fr).poke t pti 0).mem t) ↔
        ∀ j, j < pageEntries → j ≠ pti → view s.mem d pdi j = none := by
      show EmptyTable ((freeMapped A s (s.mem t pti) fr).mem.set t pti 0 t) ↔ _
      rw [hm]
      constructor
      · intro he j hj hne
        have hp := he j hj
        rw [set_ne (.inr hne)] at hp
        rw [view_of_table ht]
        exact table_eq_none.mpr hp
      · intro hall j hj
        by_cases hne : j = pti
        · subst hne
          rw [set_self]
          exact present_zero
        · have hn := hall j hj hne
          rw [view_of_table ht] at hn
          rw [set_ne (.inr hne)]
          exact table_eq_none.mp hn
    have hsome : some f ≠ none := Option.some_ne_none f
    unfold removeEntry
    dsimp only
    by_cases hlast : pdi < kernelPdeBase ∧ EmptyTable (((freeMapped A s (s.mem t pti) fr).poke t pti 0).mem t)
    · rw [if_pos hlast, if_pos ⟨hlast.1, hsome, hempty.mp hlast.2⟩]
      show List.count _ (Event.freeTable t :: _) = _
      rw [count_cons, if_pos (beq_self_eq_true _)]
      exact congrArg (· + 1) hlog
    · rw [if_neg hlast, if_neg fun hc => hlast ⟨hc.1, hempty.mpr hc.2.2⟩]
      exact hlog

end

/-! ## Runs -/

def AllowedStep (A : FrameAlloc α) (L : Layout) (avail : α → UInt32 → Prop) (s : Machine α) (op : Op)
    (s' : Machine α) : Prop := Allowed L avail s op ∧ step A s op = .ok s'

/-- The machine shows the maps `M`. -/
def Shows (L : Layout) (s : Machine α) (M : PageMaps) : Prop :=
  ∀ d i j, L.dirs d → i < kmapPdeBase → j < pageEntries → view s.mem d i j = M d i j

section
variable {L : Layout} {A : FrameAlloc α} {avail : α → UInt32 → Prop} {s0 s : Machine α}

/-- The page directories are partial maps, over every run of operations on any of
them: a lookup gives what was mapped last, an operation on one page changes that
page only, it does the same whichever directory is in CR3, and it fails only by a
panic of its own; the table of a user slot exists as long as the slot maps a page,
and goes back when the last entry goes, once for each time it was taken. -/
theorem pageMap_refines (hA : Lawful A avail) (h0 : Good L avail s0) {ops : List Op}
    (hrun : Run.Trace (AllowedStep A L avail) s0 ops s) :
    let M := ops.foldl PageMaps.apply fun d i j => view s0.mem d i j
    (∀ as vaddr, L.dirs (frameOf as) → vmmPdi vaddr < kmapPdeBase → ∃ s', getMapping s as vaddr =
      .ok ((M (frameOf as) (vmmPdi vaddr) (vmmPti vaddr)).getD 0, s')) ∧
    (∀ op, Allowed L avail s op → (∃ s', step A s op = .ok s') ∨
      ∃ as vaddr paddr flags overwrite, op = .map as vaddr paddr flags overwrite ∧
        step A s op = .error .panic ∧
        ((overwrite = false ∧ M (frameOf as) (vmmPdi vaddr) (vmmPti vaddr) ≠ none) ∨
          ∀ f a, A.allocFrame s.frames = some (f, a) → f = 0)) ∧
    (∀ op c, Allowed L avail s op → L.dirs (frameOf c) →
      (step A { s with cr3 := c } op).map Machine.closed = (step A s op).map Machine.closed) ∧
    (∀ d i, L.dirs d → i < kernelPdeBase → ¬L.shared i →
      (table s.mem d i ≠ none ↔ ∃ j, j < pageEntries ∧ M d i j ≠ none)) ∧
    (∀ as vaddr fr t s', Allowed L avail s (.unmap as vaddr fr) → unmapPage A s as vaddr fr = .ok s' →
      table s.mem (frameOf as) (vmmPdi vaddr) = some t →
      s'.log.count (.freeTable t) = s.log.count (.freeTable t) +
        if vmmPdi vaddr < kernelPdeBase ∧ M (frameOf as) (vmmPdi vaddr) (vmmPti vaddr) ≠ none ∧
          (∀ j, j < pageEntries → j ≠ vmmPti vaddr → M (frameOf as) (vmmPdi vaddr) j = none)
        then 1 else 0) ∧
    ∀ f, balance L s f = balance L s0 f := by
  intro M
  obtain ⟨hgood, hM, hbal⟩ : Good L avail s ∧ Shows L s M ∧ ∀ f, balance L s f = balance L s0 f := by
    refine hrun.simulates (fun s M => Good L avail s ∧ Shows L s M ∧ ∀ f, balance L s f = balance L s0 f)
      PageMaps.apply ?_ ⟨h0, fun _ _ _ _ _ _ => rfl, fun _ => rfl⟩
    rintro s s' M op ⟨hg, hm, hb⟩ ⟨hop, hst⟩
    have hok := hg.step hA hop hst
    exact ⟨hok.good, hok.maps M hm, fun f => (hok.balanced f).trans (hb f)⟩
  refine ⟨fun as vaddr hd hi => ?_, fun op hop => ?_, fun op c hop hc => hgood.struct.step_cr3 hA hop hc,
    fun d i hd hi hs => ?_, fun as vaddr fr t s' hop hst ht => ?_, hbal⟩
  · rw [getMapping_eq (hgood.struct.slotOk hA hd hi), hM _ _ _ hd hi (vmmPti_lt vaddr)]
    exact ⟨_, rfl⟩
  · cases op with
    | map as vaddr paddr flags overwrite =>
      obtain ⟨hd, hi, _⟩ := hop
      have hrun := mapPage_eq (hgood.struct.slotOk hA hd hi) paddr flags overwrite
      dsimp only [Vmm.step]
      cases hm : mapIn A s (frameOf as) (vmmPdi vaddr) (vmmPti vaddr) (pdeFlagsOf flags)
          (pageEntry (paddr &&& pageMask) flags) overwrite with
      | ok s' => exact .inl ⟨_, by rw [hrun, hm]; rfl⟩
      | error e =>
        obtain ⟨rfl, hwhy⟩ := mapIn_error (vmmPti_lt vaddr) hm
        refine .inr ⟨as, vaddr, paddr, flags, overwrite, rfl, by rw [hrun, hm]; rfl, ?_⟩
        rw [← hM _ _ _ hd hi (vmmPti_lt vaddr)]
        exact hwhy.imp_right fun h => h.2
    | unmap as vaddr fr => exact .inl ⟨_, unmapPage_eq (hgood.struct.slotOk hA hop.1 hop.2.1) fr⟩
    | get as vaddr =>
      refine .inl ⟨leave s (frameOf as) s, ?_⟩
      dsimp only [Vmm.step]
      rw [getMapping_eq (hgood.struct.slotOk hA hop.1 hop.2)]
      rfl
    | switch as => exact .inl ⟨_, rfl⟩
  · have hi' : i < kmapPdeBase := Nat.lt_trans hi (by decide)
    cases ht : table s.mem d i with
    | none =>
      refine iff_of_false (fun h => h rfl) ?_
      rintro ⟨j, hj, hne⟩
      rw [← hM d i j hd hi' hj, view_none ht] at hne
      exact hne rfl
    | some t =>
      refine iff_of_true (Option.some_ne_none t) (not_forall_not.mp fun hall => ?_)
      refine hgood.used d i t hd hi hs ht fun j hj => table_eq_none.mp ?_
      rw [← view_of_table (j := j) ht, hM d i j hd hi' hj]
      exact not_not.mp fun hne => hall j ⟨hj, hne⟩
  · obtain ⟨hd, hi, _⟩ := hop
    rw [unmapPage_eq (hgood.struct.slotOk hA hd hi)] at hst
    cases hst
    have hlog : ∀ x : Machine α, (leave s (frameOf as) x).log = x.log := by
      intro x
      unfold leave
      split <;> rfl
    rw [hlog, unmapIn_log ht]
    congr 1
    rw [← hM _ _ _ hd hi (vmmPti_lt vaddr)]
    refine if_congr (and_congr_right fun _ => and_congr_right fun _ => ?_) rfl rfl
    exact forall_congr' fun j => imp_congr_right fun hj => by rw [hM _ _ j hd hi hj]

end

/-! ## Two directories -/

/-- Free frames, each once. -/
abbrev FreeList := { l : List UInt32 // l.Nodup ∧ ∀ f ∈ l, frameOf f = f }

def freeListAlloc : FrameAlloc FreeList where
  allocFrame
    | ⟨[], _⟩ => none
    | ⟨f :: l, h⟩ => some (f, ⟨l, (nodup_cons.mp h.1).2, fun g hg => h.2 g (mem_cons_of_mem f hg)⟩)
  freeFrame f l :=
    if h : f ∉ l.1 ∧ frameOf f = f then
      ⟨f :: l.1, nodup_cons.mpr ⟨h.1, l.2.1⟩, forall_mem_cons.mpr ⟨h.2, l.2.2⟩⟩
    else l

theorem freeListAlloc_lawful : Lawful freeListAlloc fun l f => f ∈ l.1 := by
  refine ⟨fun {a f} hf => a.2.2 f hf, fun {a a' f} h => ?_, fun {a f} hf g hg => ?_⟩
  · obtain ⟨l, hl⟩ := a
    cases l with
    | nil => cases h
    | cons x l =>
      cases h
      refine ⟨mem_cons_self, fun g hg => ⟨mem_cons_of_mem _ hg, ?_⟩⟩
      rintro rfl
      exact (nodup_cons.mp hl.1).1 hg
  · dsimp only [freeListAlloc] at hg
    split at hg
    · exact (mem_cons.mp hg).symm
    · exact .inl hg

/-- The current directory, empty, and a second one that maps one page. -/
def twoDirs : Machine FreeList where
  mem p i :=
    if p = 0x100000 then if i = 1023 then 0x100003 else if i = 1022 then 0x102003 else 0
    else if p = 0x101000 then
      if i = 1023 then 0x101003 else if i = 1022 then 0x102003 else if i = 1 then 0x103007 else 0
    else if p = 0x103000 then if i = 0 then 0x600007 else 0
    else 0
  cr3 := 0x100000
  kmapPtPhys := 0x102000
  frames := ⟨[0x104000], nodup_singleton _, forall_mem_singleton.mpr (by decide)⟩
  log := []

def twoDirsLayout : Layout := ⟨fun d => d = 0x100000 ∨ d = 0x101000, fun _ => False⟩

theorem twoDirs_table {d t : UInt32} {i : Nat} (hd : twoDirsLayout.dirs d) (hi : i < kmapPdeBase)
    (ht : table twoDirs.mem d i = some t) : d = 0x101000 ∧ i = 1 ∧ t = 0x103000 := by
  have h1 : i ≠ 1023 := by unfold kmapPdeBase at hi; omega
  have h2 : i ≠ 1022 := Nat.ne_of_lt hi
  obtain ⟨hp, hf⟩ := table_eq_some.mp ht
  rcases hd with rfl | rfl
  · have h0 : twoDirs.mem 0x100000 i = 0 := by
      unfold twoDirs
      simp [h1, h2]
    rw [h0] at hp
    cases hp
  · by_cases h3 : i = 1
    · subst h3
      exact ⟨rfl, rfl, hf.symm⟩
    · have h0 : twoDirs.mem 0x101000 i = 0 := by
        unfold twoDirs
        simp [h1, h2, h3]
      rw [h0] at hp
      cases hp

theorem twoDirs_good : Good twoDirsLayout (fun l f => f ∈ l.1) twoDirs := by
  have hk : ¬twoDirsLayout.dirs twoDirs.kmapPt := by
    rintro (h | h) <;> exact absurd h (by decide)
  refine ⟨⟨.inl rfl, ?_, ?_, ?_, by decide, hk, fun d i t hd hi ht => ?_,
    fun d i d' i' t hd hd' hi hi' _ ht ht' => ?_, fun f hf => ⟨?_, ?_, fun d i hd hi ht => ?_⟩⟩,
    fun d i t hd hi _ ht hempty => ?_⟩
  · rintro d (rfl | rfl) <;> decide
  · rintro d (rfl | rfl) <;> decide +kernel
  · rintro d (rfl | rfl) <;> decide +kernel
  · obtain ⟨rfl, rfl, rfl⟩ := twoDirs_table hd hi ht
    exact ⟨by rintro (h | h) <;> exact absurd h (by decide), by decide⟩
  · obtain ⟨rfl, rfl, rfl⟩ := twoDirs_table hd hi ht
    obtain ⟨h1, h2, _⟩ := twoDirs_table hd' hi' ht'
    exact ⟨h1, h2⟩
  · cases mem_singleton.mp hf
    rintro (h | h) <;> exact absurd h (by decide)
  · cases mem_singleton.mp hf
    decide
  · cases mem_singleton.mp hf
    exact absurd (twoDirs_table hd hi ht).2.2 (by decide)
  · obtain ⟨rfl, rfl, rfl⟩ := twoDirs_table hd (Nat.lt_trans hi (by decide)) ht
    exact absurd (hempty 0 (by decide)) (by decide +kernel)

/-- A page mapped in the directory that is not in CR3, and looked up. -/
theorem pageMap_refines_foreign : ∃ s s',
    step freeListAlloc twoDirs (.map 0x101000 0x401000 0x500000 0x7 false) = .ok s ∧
    getMapping s 0x101000 0x401000 = .ok (0x500000, s') := by
  have hallowed : Allowed twoDirsLayout (fun l f => f ∈ l.1) twoDirs
      (.map 0x101000 0x401000 0x500000 0x7 false) := ⟨.inr (by decide), by decide, fun h => h⟩
  have hok : (step freeListAlloc twoDirs (.map 0x101000 0x401000 0x500000 0x7 false)).isOk = true := by
    decide +kernel
  cases hs : step freeListAlloc twoDirs (.map 0x101000 0x401000 0x500000 0x7 false) with
  | error e => rw [hs] at hok; cases hok
  | ok s =>
    have hget := (pageMap_refines freeListAlloc_lawful twoDirs_good
      (Run.Trace.snoc .nil ⟨hallowed, hs⟩)).1 0x101000 0x401000 (.inr (by decide)) (by decide)
    obtain ⟨s', hs'⟩ := hget
    exact ⟨s, s', rfl, hs'⟩

end Serotonin.Vmm
