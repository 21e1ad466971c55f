import Serotonin.Vmm.Refinement

/-! `sys_sbrk` over the page directories. The break counts bytes and the loops of the call
map and unmap pages, one for each step of a page from the old break or from the new one. -/

namespace Serotonin.Vmm

variable {α : Type}

def userHeapStart : UInt32 := 0x20000000
def userHeapMax : UInt32 := 0x5FFFFFFF
def userPageFlags : UInt32 := 0x7
def pageSize : UInt32 := 4096
def enomem : Int := 12

/-- A user task at work: the machine, and of its control block the address space and the
break. -/
structure Proc (α : Type) where
  machine : Machine α
  as : UInt32
  brkStart : UInt32
  brkEnd : UInt32
  errno : Int

/-- More rounds than the heap has pages. -/
def heapPages : Nat := 2 ^ 20

/-- The loop that grows the heap. `alloc_frame` panics when there is no frame. -/
def growLoop (A : FrameAlloc α) (as newBrk : UInt32) : Nat → UInt32 → Machine α → Except Stop (Machine α)
  | 0, _, s => .ok s
  | n + 1, va, s =>
    if va < newBrk then
      match A.allocFrame s.frames with
      | none => .error .panic
      | some (frame, a) => do
        let s ← mapPage A { s with frames := a } as va frame userPageFlags true
        growLoop A as newBrk n (va + pageSize) s
    else .ok s

def shrinkLoop (A : FrameAlloc α) (as oldBrk : UInt32) : Nat → UInt32 → Machine α → Except Stop (Machine α)
  | 0, _, s => .ok s
  | n + 1, va, s =>
    if va < oldBrk then do
      let s ← unmapPage A s as va true
      shrinkLoop A as oldBrk n (va + pageSize) s
    else .ok s

/-- Is the new break one the call refuses? -/
def outOfRange (p : Proc α) (increment : UInt32) : Prop :=
  p.brkEnd + increment < p.brkStart ∨ userHeapMax ≤ p.brkEnd + increment

instance (p : Proc α) (increment : UInt32) : Decidable (outOfRange p increment) :=
  inferInstanceAs (Decidable (_ ∨ _))

/-- `(int)arg2`. -/
def signed (x : UInt32) : Int := x.toBitVec.toInt

def sysSbrk (A : FrameAlloc α) (p : Proc α) (increment : UInt32) : Except Stop (Proc α) :=
  let oldBrk := p.brkEnd
  let newBrk := oldBrk + increment
  if outOfRange p increment then .ok { p with errno := -enomem }
  else do
    let s ←
      if 0 < signed increment then growLoop A p.as newBrk heapPages oldBrk p.machine
      else if signed increment < 0 then shrinkLoop A p.as oldBrk heapPages newBrk p.machine
      else .ok p.machine
    .ok { p with machine := s, brkEnd := newBrk, errno := signed oldBrk }

/-! ## Bytes -/

/-- The byte `k` of a word. -/
def getByte (w : UInt32) (k : Nat) : UInt8 := .ofNat (w.toNat / 256 ^ k)

def setByte (w : UInt32) (k : Nat) (b : UInt8) : UInt32 :=
  .ofNat (w.toNat % 256 ^ k + 256 ^ k * (b.toNat + 256 * (w.toNat / 256 ^ (k + 1))))

/-- What user code reads at an address, if a page is mapped there. -/
def byteAt (s : Machine α) (va : UInt32) : Option UInt8 :=
  (translate s.mem s.cr3 va).map fun r => getByte (s.mem r.1 r.2) (va.toNat % 4)

/-- What user code that writes a byte does to memory. -/
def writeByte (s : Machine α) (va : UInt32) (b : UInt8) : Option (Machine α) :=
  (translate s.mem s.cr3 va).map fun r => s.poke r.1 r.2 (setByte (s.mem r.1 r.2) (va.toNat % 4) b)

theorem getByte_setByte (w : UInt32) (b : UInt8) {k j : Nat} (hk : k < 4) (hj : j < 4) :
    getByte (setByte w k b) j = if j = k then b else getByte w j := by
  have hw := w.toNat_lt
  have hb := b.toNat_lt
  have hset : (setByte w k b).toNat = w.toNat % 256 ^ k + 256 ^ k * (b.toNat + 256 * (w.toNat / 256 ^ (k + 1))) := by
    unfold setByte
    rw [UInt32.toNat_ofNat']
    refine Nat.mod_eq_of_lt ?_
    match k, hk with
    | 0, _ | 1, _ | 2, _ | 3, _ => omega
  unfold getByte
  rw [hset]
  have hnat : (w.toNat % 256 ^ k + 256 ^ k * (b.toNat + 256 * (w.toNat / 256 ^ (k + 1)))) / 256 ^ j % 256 =
      if j = k then b.toNat else w.toNat / 256 ^ j % 256 := by
    match k, hk, j, hj with
    | 0, _, 0, _ | 1, _, 1, _ | 2, _, 2, _ | 3, _, 3, _ => rw [if_pos rfl]; omega
    | 0, _, 1, _ | 0, _, 2, _ | 0, _, 3, _ | 1, _, 0, _ | 1, _, 2, _ | 1, _, 3, _ | 2, _, 0, _ | 2, _, 1, _
    | 2, _, 3, _ | 3, _, 0, _ | 3, _, 1, _ | 3, _, 2, _ => rw [if_neg (by decide)]; omega
  refine UInt8.toNat_inj.mp ?_
  rw [UInt8.toNat_ofNat']
  by_cases hjk : j = k
  · rw [if_pos hjk] at hnat ⊢
    exact hnat
  · rw [if_neg hjk] at hnat ⊢
    rw [UInt8.toNat_ofNat']
    exact hnat

/-- The processor finds what the page map shows. -/
theorem translate_view (m : Memory) (cr3 va : UInt32) :
    translate m cr3 va = (view m (frameOf cr3) (vmmPdi va) (vmmPti va)).map fun f => (f, vmmWord va) := by
  unfold translate view table
  dsimp only
  split
  · rw [Option.bind_some]
    split
    · rfl
    · rfl
  · rfl

/-! ## Frames that are not the kernel's -/

section
variable {L : Layout} {A : FrameAlloc α} {avail : α → UInt32 → Prop} {s s' : Machine α}
  {d t g : UInt32} {pdi pti : Nat}

/-- A frame that is neither free nor part of the directories. -/
structure Outside (L : Layout) (avail : α → UInt32 → Prop) (s : Machine α) (g : UInt32) : Prop where
  apart : Apart L s g
  taken : ¬avail s.frames g

theorem Outside.congr (h : Outside L avail s g) (hk : s'.kmapPtPhys = s.kmapPtPhys)
    (htab : ∀ d i, L.dirs d → i < kmapPdeBase → table s'.mem d i ≠ some g)
    (hav : ¬avail s'.frames g) : Outside L avail s' g :=
  ⟨⟨h.apart.dirs, fun he => h.apart.window (he.trans (congrArg frameOf hk)), htab⟩, hav⟩

/-- A frame is taken; the others stay what they were. -/
theorem Outside.alloc (h : Outside L avail s g) (hA : Lawful A avail) {f : UInt32} {a : α}
    (ha : A.allocFrame s.frames = some (f, a)) : Outside L avail { s with frames := a } g :=
  h.congr rfl h.apart.tables fun hg => h.taken ((hA.alloc ha).2 g hg).1

theorem Good.alloc (h : Good L avail s) (hA : Lawful A avail) {f : UInt32} {a : α}
    (ha : A.allocFrame s.frames = some (f, a)) :
    Good L avail { s with frames := a } ∧ Outside L avail { s with frames := a } f := by
  obtain ⟨hav, hrest⟩ := hA.alloc ha
  refine ⟨⟨h.struct.congr (fun _ _ => rfl) rfl rfl fun g hg => h.struct.avail g (hrest g hg).1, h.used⟩, ?_, ?_⟩
  · obtain ⟨h1, h2, h3⟩ := h.struct.avail f hav
    exact ⟨h1, h2, h3⟩
  · exact fun hf => (hrest f hf).2 rfl

/-- Making room for an entry touches no such frame. -/
theorem Outside.tableFor (h : Outside L avail s g) (hA : Lawful A avail) (hd : L.dirs d) {flags : UInt32}
    (hrun : Vmm.tableFor A s d pdi flags = .ok (t, s')) (hst : Struct L avail s) (hi : pdi < kmapPdeBase)
    (hflags : ∃ f, flags = pdeFlagsOf f) : Outside L avail s' g ∧ s'.mem g = s.mem g ∧ t ≠ g := by
  obtain ⟨f0, rfl⟩ := hflags
  have hmade := (hst.tableFor hA hd hi f0 hrun).2
  unfold Vmm.tableFor at hrun
  cases ht : table s.mem d pdi with
  | some t0 =>
    rw [ht] at hrun
    cases hrun
    exact ⟨h, rfl, fun he => h.apart.tables d pdi hd hi (he ▸ ht)⟩
  | none =>
    rw [ht] at hrun
    dsimp only at hrun
    cases ha : allocTable A s with
    | error e => rw [ha] at hrun; cases hrun
    | ok r =>
      obtain ⟨f, s1⟩ := r
      rw [ha] at hrun
      obtain ⟨a, hal, _, hs1⟩ := allocTable_ok ha
      obtain ⟨hav, hrest⟩ := hA.alloc hal
      have hfa : frameOf f = f := hA.aligned hav
      obtain ⟨rfl, rfl⟩ := Prod.mk.inj (Except.ok.inj hrun)
      have hfg : frameOf f ≠ g := fun he => h.taken (he ▸ hfa.symm ▸ hav)
      have hgd : g ≠ d := fun he => h.apart.dirs (he ▸ hd)
      obtain ⟨-, hc2, hc3, -⟩ :=
        Machine.clear_frame (s1.poke d pdi (tableEntry f (pdeFlagsOf f0))) (frameOf f) pageEntries
      refine ⟨h.congr ?_ (fun d' i hd' hi' ht' => ?_) ?_, ?_, hfg⟩
      · rw [hc2, hs1]
        rfl
      · by_cases hslot : d' = d ∧ i = pdi
        · obtain ⟨rfl, rfl⟩ := hslot
          rw [hmade.made] at ht'
          exact hfg (Option.some.inj ht')
        · rw [hmade.others d' i hd' (not_and_or.mp hslot)] at ht'
          exact h.apart.tables d' i hd' hi' ht'
      · rw [hc3, hs1]
        exact fun hg => h.taken (hrest g hg).1
      · funext j
        rw [Machine.clear_mem, if_neg fun hc => hfg hc.1.symm]
        show s1.mem.set d pdi _ g j = _
        rw [set_ne (.inl hgd), hs1]

theorem Outside.mapIn (h : Outside L avail s g) (hA : Lawful A avail) (hst : Struct L avail s) (hd : L.dirs d)
    (hi : pdi < kmapPdeBase) {flags entry : UInt32} {overwrite : Bool}
    (hrun : Vmm.mapIn A s d pdi pti (pdeFlagsOf flags) entry overwrite = .ok s') :
    Outside L avail s' g ∧ s'.mem g = s.mem g := by
  unfold Vmm.mapIn at hrun
  cases htf : Vmm.tableFor A s d pdi (pdeFlagsOf flags) with
  | error e => rw [htf] at hrun; cases hrun
  | ok r =>
    obtain ⟨t, s1⟩ := r
    rw [htf] at hrun
    obtain ⟨h1, hm⟩ := hst.tableFor hA hd hi flags htf
    obtain ⟨hout, hmem, htg⟩ := h.tableFor hA hd htf hst hi ⟨flags, rfl⟩
    simp only [ok_bind] at hrun
    split at hrun
    · cases hrun
    cases hrun
    refine ⟨hout.congr rfl (fun d' i hd' hi' => ?_) hout.taken, ?_⟩
    · rw [h1.table_poke hd hi hm.made pti entry hd' i]
      exact hout.apart.tables d' i hd' hi'
    · rw [← hmem]
      funext j
      exact set_ne (.inl htg.symm) entry

theorem Outside.removeEntry (h : Outside L avail s g) (hA : Lawful A avail) (hst : Struct L avail s)
    (hd : L.dirs d) (hi : pdi < kmapPdeBase) (ht : table s.mem d pdi = some t) :
    Outside L avail (removeEntry A s d pdi pti t) g ∧ (removeEntry A s d pdi pti t).mem g = s.mem g := by
  have hgt : g ≠ t := fun he => h.apart.tables d pdi hd hi (he ▸ ht)
  have hgd : g ≠ d := fun he => h.apart.dirs (he ▸ hd)
  have hpoke : (s.poke t pti 0).mem g = s.mem g := by
    funext j
    exact set_ne (.inl hgt) 0
  have htab : ∀ d' i, L.dirs d' → i < kmapPdeBase → table (s.poke t pti 0).mem d' i ≠ some g := fun d' i hd' hi' => by
    rw [hst.table_poke hd hi ht pti 0 hd' i]
    exact h.apart.tables d' i hd' hi'
  unfold Vmm.removeEntry
  dsimp only
  split
  · have hnot : ¬avail s.frames t := fun hav => (hst.avail t hav).tables d pdi hd hi ht
    refine ⟨h.congr rfl (fun d' i hd' hi' ht' => ?_) fun hav => ?_, ?_⟩
    · by_cases hslot : d' = d ∧ i = pdi
      · obtain ⟨rfl, rfl⟩ := hslot
        have hzero : ((s.poke t pti 0).poke d' i 0).mem d' i = 0 := set_self ..
        have hp : present (((s.poke t pti 0).poke d' i 0).mem d' i) = true := (table_eq_some.mp ht').1
        rw [hzero] at hp
        cases hp
      · exact htab d' i hd' hi' ((table_set_ne (not_and_or.mp hslot) 0).symm.trans ht')
    · exact (hA.free hnot g hav).elim h.taken hgt
    · rw [← hpoke]
      funext j
      exact set_ne (.inl hgd) 0
  · exact ⟨h.congr rfl htab h.taken, hpoke⟩

/-- A page is unmapped and its frame given back; another frame stays what it was. -/
theorem Outside.unmapIn (h : Outside L avail s g) (hA : Lawful A avail) (hgood : Good L avail s)
    (hd : L.dirs d) (hi : pdi < kmapPdeBase) (hview : view s.mem d pdi pti ≠ some g)
    (hfr : ∀ f, view s.mem d pdi pti = some f → Outside L avail s f) :
    Outside L avail (unmapIn A s d pdi pti true) g ∧ (unmapIn A s d pdi pti true).mem g = s.mem g := by
  cases hv : view s.mem d pdi pti with
  | none =>
    rw [unmapIn_unmapped hv]
    exact ⟨h, rfl⟩
  | some f =>
    cases ht : table s.mem d pdi with
    | none =>
      rw [view_none ht] at hv
      cases hv
    | some t =>
      obtain ⟨hrun, hf⟩ := unmapIn_mapped (A := A) ht hv true
      have hout := hfr f hv
      have hfg : g ≠ f := fun he => hview (he ▸ hv)
      have h1 : Good L avail (freeMapped A s (s.mem t pti) true) :=
        hgood.freeMapped hA fun _ => hf ▸ ⟨hout.apart, hout.taken⟩
      have h2 : Outside L avail (freeMapped A s (s.mem t pti) true) g := by
        refine h.congr rfl h.apart.tables fun hav => ?_
        have hnot : ¬avail s.frames (frameOf (s.mem t pti)) := hf ▸ hout.taken
        rcases hA.free hnot g hav with hav | he
        · exact h.taken hav
        · exact hfg (he.trans hf)
      rw [hrun]
      exact h2.removeEntry hA h1.struct hd hi ht

/-- The frame of a mapped page is noted as given back. -/
theorem unmapIn_freed {f : UInt32} (hv : view s.mem d pdi pti = some f) :
    s.log.count (.freePage f) < (unmapIn A s d pdi pti true).log.count (.freePage f) := by
  cases ht : table s.mem d pdi with
  | none =>
    rw [view_none ht] at hv
    cases hv
  | some t =>
    obtain ⟨hrun, hf⟩ := unmapIn_mapped (A := A) ht hv true
    rw [hrun]
    have hfree : (freeMapped A s (s.mem t pti) true).log = .freePage f :: s.log := by rw [← hf]; rfl
    have hcount : s.log.count (.freePage f) < (freeMapped A s (s.mem t pti) true).log.count (.freePage f) := by
      rw [hfree, List.count_cons_self]
      exact Nat.lt_succ_self _
    unfold removeEntry
    dsimp only
    split
    · refine Nat.lt_of_lt_of_le hcount ?_
      exact List.count_le_count_cons
    · exact hcount

theorem unmapIn_log_mono (e : Event) : s.log.count e ≤ (unmapIn A s d pdi pti true).log.count e := by
  unfold unmapIn
  cases ht : table s.mem d pdi with
  | none => exact Nat.le_refl _
  | some t =>
    dsimp only
    split
    · refine Nat.le_trans (List.count_le_count_cons (b := Event.freePage (frameOf (s.mem t pti)))) ?_
      unfold removeEntry
      dsimp only
      split
      · exact List.count_le_count_cons
      · exact Nat.le_refl _
    · exact Nat.le_refl _

end

end Serotonin.Vmm
