import Mathlib.Algebra.Group.Nat.Defs
import Serotonin.Vmm.Model
import Mathlib.Tactic.Common

/-! What the virtual addresses of the code reach: the tables of the current
directory through its own last entry, any one page through the window of `kmap`. -/

namespace Serotonin.Vmm

open Function

variable {α : Type}

/-! ## Entries and addresses -/

theorem or_and (x y z : UInt32) : (x ||| y) &&& z = x &&& z ||| y &&& z := by
  apply UInt32.toNat_inj.mp
  rw [UInt32.toNat_and, UInt32.toNat_or, UInt32.toNat_or, UInt32.toNat_and, UInt32.toNat_and,
    Nat.and_or_distrib_right]

@[simp] theorem frameOf_frameOf (x : UInt32) : frameOf (frameOf x) = frameOf x := by
  unfold frameOf
  rw [UInt32.and_assoc, UInt32.and_self]

/-- Flags do not reach the page address. -/
theorem frameOf_or (x : UInt32) {f : UInt32} (hf : f &&& pageMask = 0) :
    frameOf (x ||| f) = frameOf x := by
  unfold frameOf
  rw [or_and, hf, UInt32.or_zero]

theorem present_or (x : UInt32) : present (x ||| pagePresent) = true := by
  unfold present
  rw [bne_iff_ne, or_and, UInt32.and_self]
  intro h
  exact absurd (UInt32.or_eq_zero_iff.mp h).2 (by decide)

theorem present_zero : present 0 = false := by decide

theorem frameOf_tableEntry (t flags : UInt32) : frameOf (tableEntry t (pdeFlagsOf flags)) = frameOf t := by
  have hflags : pdeFlagsOf flags &&& pageMask = 0 := by
    unfold pdeFlagsOf
    split <;> decide
  unfold tableEntry
  rw [frameOf_or _ (by decide), frameOf_or _ hflags, frameOf_frameOf]

theorem frameOf_pageEntry (p flags : UInt32) : frameOf (pageEntry (p &&& pageMask) flags) = frameOf p := by
  have hflags : flags &&& 0xFFF &&& pageMask = 0 := by
    rw [UInt32.and_assoc]
    exact UInt32.and_zero
  unfold pageEntry
  rw [frameOf_or _ (by decide), frameOf_or _ hflags]
  exact frameOf_frameOf p

theorem present_tableEntry (t flags : UInt32) : present (tableEntry t flags) = true := present_or _

theorem present_pageEntry (p flags : UInt32) : present (pageEntry p flags) = true := present_or _

/-- The entry of `kmap` for a page. -/
def windowEntry (phys : UInt32) : UInt32 := frameOf phys ||| pageFlags

theorem frameOf_windowEntry (p : UInt32) : frameOf (windowEntry p) = frameOf p := by
  unfold windowEntry
  rw [frameOf_or _ (by decide), frameOf_frameOf]

theorem present_windowEntry (p : UInt32) : present (windowEntry p) = true := by
  have hflags : pageFlags = 0x2 ||| pagePresent := by decide
  unfold windowEntry
  rw [hflags, ← UInt32.or_assoc]
  exact present_or _

theorem vmmPdi_toNat (va : UInt32) : vmmPdi va = va.toNat / 2 ^ 22 := by
  unfold vmmPdi
  rw [UInt32.toNat_shiftRight, Nat.shiftRight_eq_div_pow]
  rfl

theorem vmmPti_toNat (va : UInt32) : vmmPti va = va.toNat / 2 ^ 12 % 1024 := by
  unfold vmmPti
  rw [UInt32.toNat_and, UInt32.toNat_shiftRight, Nat.shiftRight_eq_div_pow]
  exact Nat.and_two_pow_sub_one_eq_mod _ 10

theorem vmmWord_toNat (va : UInt32) : vmmWord va = va.toNat / 2 ^ 2 % 1024 := by
  unfold vmmWord
  rw [UInt32.toNat_and, UInt32.toNat_shiftRight, Nat.shiftRight_eq_div_pow]
  exact Nat.and_two_pow_sub_one_eq_mod _ 10

theorem vmmPti_lt (va : UInt32) : vmmPti va < 1024 := by
  rw [vmmPti_toNat]
  exact Nat.mod_lt _ (by decide)

theorem word_toNat (base : UInt32) {i : Nat} (hi : i < 1024) :
    (word base i).toNat = (base.toNat + 4 * i) % 2 ^ 32 := by
  unfold word
  rw [UInt32.toNat_add, UInt32.toNat_mul, UInt32.toNat_ofNat_of_lt' (by omega : i < 2 ^ 32)]
  simp
  omega

theorem ptVa_toNat {pdi : Nat} (h : pdi < 1024) : (ptVa pdi).toNat = 0xFFC00000 + 4096 * pdi := by
  unfold ptVa selfPtBaseVa
  rw [UInt32.toNat_add, UInt32.toNat_mul, UInt32.toNat_ofNat_of_lt' (by omega : pdi < 2 ^ 32)]
  simp
  omega

theorem selfPdVa_eq : selfPdVa = ptVa selfPdeBase := by decide

/-! ## Walks -/

/-- The page a directory entry points to, if it is present. -/
def table (m : Memory) (d : UInt32) (i : Nat) : Option UInt32 :=
  if present (m d i) then some (frameOf (m d i)) else none

theorem table_eq_some {m : Memory} {d t : UInt32} {i : Nat} :
    table m d i = some t ↔ present (m d i) = true ∧ frameOf (m d i) = t := by
  unfold table
  split
  · rename_i h; simp [h]
  · rename_i h; simp [h]

theorem table_eq_none {m : Memory} {d : UInt32} {i : Nat} :
    table m d i = none ↔ present (m d i) = false := by
  unfold table
  split
  · rename_i h; simp [h]
  · rename_i h; simpa using h

theorem translate_of {m : Memory} {cr3 va d : UInt32} {i j k : Nat} (h1 : vmmPdi va = i)
    (h2 : vmmPti va = j) (h3 : vmmWord va = k) (hd : table m (frameOf cr3) i = some d) :
    translate m cr3 va = (table m d j).map fun t => (t, k) := by
  obtain ⟨hp, rfl⟩ := table_eq_some.mp hd
  unfold translate table
  rw [h1, h2, h3]
  dsimp only
  rw [if_pos hp]
  split <;> rfl

/-- The last entry of a directory that points to itself shows its tables. -/
theorem translate_ptVa {m : Memory} {cr3 : UInt32} {pdi i : Nat}
    (h : table m (frameOf cr3) selfPdeBase = some (frameOf cr3)) (hp : pdi < 1024) (hi : i < 1024) :
    translate m cr3 (word (ptVa pdi) i) = (table m (frameOf cr3) pdi).map fun t => (t, i) := by
  have hva : (word (ptVa pdi) i).toNat = 0xFFC00000 + 4096 * pdi + 4 * i := by
    rw [word_toNat _ hi, ptVa_toNat hp, Nat.mod_eq_of_lt (by omega)]
  have h1 : vmmPdi (word (ptVa pdi) i) = selfPdeBase := by
    rw [vmmPdi_toNat, hva]
    show _ = 1023
    omega
  have h2 : vmmPti (word (ptVa pdi) i) = pdi := by rw [vmmPti_toNat, hva]; omega
  have h3 : vmmWord (word (ptVa pdi) i) = i := by rw [vmmWord_toNat, hva]; omega
  exact translate_of h1 h2 h3 h

theorem translate_kmapBase {m : Memory} {cr3 k : UInt32} {i : Nat}
    (h : table m (frameOf cr3) kmapPdeBase = some k) (hi : i < 1024) :
    translate m cr3 (word kmapBase i) = (table m k kmapPteBase).map fun t => (t, i) := by
  have hva : (word kmapBase i).toNat = 0xFF800000 + 4 * i := by
    rw [word_toNat _ hi]
    show (0xFF800000 + 4 * i) % 2 ^ 32 = _
    rw [Nat.mod_eq_of_lt (by omega)]
  have h1 : vmmPdi (word kmapBase i) = kmapPdeBase := by
    rw [vmmPdi_toNat, hva]
    show _ = 1022
    omega
  have h2 : vmmPti (word kmapBase i) = kmapPteBase := by
    rw [vmmPti_toNat, hva]
    show _ = 0
    omega
  have h3 : vmmWord (word kmapBase i) = i := by rw [vmmWord_toNat, hva]; omega
  exact translate_of h1 h2 h3 h

/-! ## Memory -/

theorem set_self (m : Memory) (p : UInt32) (i : Nat) (x : UInt32) : m.set p i x p i = x := by
  simp [Memory.set]

theorem set_ne {m : Memory} {p q : UInt32} {i j : Nat} (h : q ≠ p ∨ j ≠ i) (x : UInt32) :
    m.set p i x q j = m q j := by
  unfold Memory.set
  by_cases hq : q = p
  · subst hq
    rw [update_self, update_of_ne (h.resolve_left fun hn => hn rfl)]
  · rw [update_of_ne hq]

theorem set_set (m : Memory) (p : UInt32) (i : Nat) (x y : UInt32) :
    (m.set p i x).set p i y = m.set p i y := by
  simp [Memory.set]

theorem set_comm {m : Memory} {p q : UInt32} (h : p ≠ q) (i j : Nat) (x y : UInt32) :
    (m.set p i x).set q j y = (m.set q j y).set p i x := by
  unfold Memory.set
  rw [update_of_ne h.symm, update_of_ne h, update_comm h]

theorem table_set_ne {m : Memory} {p d : UInt32} {i j : Nat} (h : d ≠ p ∨ j ≠ i) (x : UInt32) :
    table (m.set p i x) d j = table m d j := by
  unfold table
  rw [set_ne h]

namespace Machine

/-- The page table of `kmap`. -/
def kmapPt (s : Machine α) : UInt32 := frameOf s.kmapPtPhys

/-- The directory in CR3. -/
def pd (s : Machine α) : UInt32 := frameOf s.cr3

/-- The word that says which page the window shows. -/
def slot (s : Machine α) (x : UInt32) : Machine α := s.poke s.kmapPt kmapPteBase x

/-- The first `n` words of a page set to zero. -/
def clear (s : Machine α) (page : UInt32) : Nat → Machine α
  | 0 => s
  | n + 1 => (s.clear page n).poke page n 0

theorem slot_slot (s : Machine α) (x y : UInt32) : (s.slot x).slot y = s.slot y := by
  unfold slot poke kmapPt
  simp only [set_set]

theorem slot_poke {s : Machine α} {p : UInt32} (h : p ≠ s.kmapPt) (w : UInt32) (i : Nat) (x : UInt32) :
    (s.slot w).poke p i x = (s.poke p i x).slot w := by
  have hc := set_comm (m := s.mem) h.symm kmapPteBase i w x
  unfold slot poke kmapPt
  unfold kmapPt at hc
  simp only [hc]

theorem slot_mem {s : Machine α} {p : UInt32} (h : p ≠ s.kmapPt) (w : UInt32) :
    (s.slot w).mem p = s.mem p := by
  funext j
  exact set_ne (.inl h) w

theorem clear_mem (s : Machine α) (p q : UInt32) (n j : Nat) :
    (s.clear p n).mem q j = if q = p ∧ j < n then 0 else s.mem q j := by
  induction n with
  | zero => rw [if_neg (by simp)]; rfl
  | succ n ih =>
    show ((s.clear p n).mem.set p n 0) q j = _
    by_cases hq : q = p ∧ j = n
    · obtain ⟨rfl, rfl⟩ := hq
      rw [set_self, if_pos ⟨rfl, Nat.lt_succ_self _⟩]
    · rw [set_ne (not_and_or.mp hq), ih]
      by_cases hjn : q = p ∧ j < n
      · rw [if_pos hjn, if_pos ⟨hjn.1, Nat.lt_succ_of_lt hjn.2⟩]
      · rw [if_neg hjn, if_neg]
        rintro ⟨hp, hlt⟩
        rcases Nat.lt_succ_iff_lt_or_eq.mp hlt with hlt | heq
        · exact hjn ⟨hp, hlt⟩
        · exact hq ⟨hp, heq⟩

/-- Clearing touches memory only. -/
theorem clear_frame (s : Machine α) (p : UInt32) : ∀ n, (s.clear p n).cr3 = s.cr3 ∧
    (s.clear p n).kmapPtPhys = s.kmapPtPhys ∧ (s.clear p n).frames = s.frames ∧
    (s.clear p n).log = s.log
  | 0 => ⟨rfl, rfl, rfl, rfl⟩
  | n + 1 => clear_frame s p n

end Machine

/-! ## Accesses -/

/-- The current directory shows itself and the table of the window. -/
structure Windows (s : Machine α) : Prop where
  self : table s.mem s.pd selfPdeBase = some s.pd
  slot : table s.mem s.pd kmapPdeBase = some s.kmapPt
  ready : s.kmapPtPhys ≠ 0
  apart : s.pd ≠ s.kmapPt

theorem Windows.poke {s : Machine α} (h : Windows s) {p : UInt32} {i : Nat} (x : UInt32)
    (hp : p ≠ s.pd ∨ i < kmapPdeBase) : Windows (s.poke p i x) := by
  have hne : ∀ j, kmapPdeBase ≤ j → table (s.mem.set p i x) s.pd j = table s.mem s.pd j := by
    intro j hj
    refine table_set_ne ?_ x
    rcases hp with hp | hp
    · exact .inl fun he => hp he.symm
    · exact .inr (Nat.ne_of_gt (Nat.lt_of_lt_of_le hp hj))
  exact ⟨(hne _ (by decide)).trans h.self, (hne _ (Nat.le_refl _)).trans h.slot, h.ready, h.apart⟩

theorem Windows.inSlot {s : Machine α} (h : Windows s) (w : UInt32) : Windows (s.slot w) :=
  h.poke w (.inl fun he => h.apart he.symm)

theorem Windows.clear {s : Machine α} (h : Windows s) {p : UInt32} (hp : p ≠ s.pd) :
    ∀ n, Windows (s.clear p n)
  | 0 => h
  | n + 1 => by
    refine (h.clear hp n).poke 0 (.inl ?_)
    rw [Machine.pd, (Machine.clear_frame s p n).1]
    exact hp

theorem load_of {s : Machine α} {va t : UInt32} {i : Nat} (h : translate s.mem s.cr3 va = some (t, i)) :
    load s va = .ok (s.mem t i) := by
  unfold load
  rw [h]

theorem store_of {s : Machine α} {va t : UInt32} {i : Nat} (h : translate s.mem s.cr3 va = some (t, i))
    (x : UInt32) : store s va x = .ok (s.poke t i x) := by
  unfold store
  rw [h]

section Current
variable {s : Machine α} {t : UInt32} {pdi i : Nat}

theorem Windows.translate_pd (h : Windows s) (hi : i < 1024) :
    translate s.mem s.cr3 (word selfPdVa i) = some (s.pd, i) := by
  rw [selfPdVa_eq, translate_ptVa h.self (by decide) hi, show table s.mem (frameOf s.cr3) _ = _ from h.self]
  rfl

theorem Windows.translate_pt (h : Windows s) (ht : table s.mem s.pd pdi = some t) (hp : pdi < 1024)
    (hi : i < 1024) : translate s.mem s.cr3 (word (ptVa pdi) i) = some (t, i) := by
  rw [translate_ptVa h.self hp hi, show table s.mem (frameOf s.cr3) _ = _ from ht]
  rfl

theorem Windows.load_pd (h : Windows s) (hi : i < 1024) :
    load s (word selfPdVa i) = .ok (s.mem s.pd i) := load_of (h.translate_pd hi)

theorem Windows.memset_pt (h : Windows s) (ht : table s.mem s.pd pdi = some t) (hp : pdi < 1024)
    (htd : t ≠ s.pd) : ∀ n, n ≤ 1024 → memset (ptVa pdi) n s = .ok (s.clear t n)
  | 0, _ => rfl
  | n + 1, hn => by
    have ih := h.memset_pt ht hp htd n (Nat.le_of_succ_le hn)
    have hpd : (s.clear t n).pd = s.pd := congrArg frameOf (Machine.clear_frame s t n).1
    have ht' : table (s.clear t n).mem (s.clear t n).pd pdi = some t := by
      have hkeep : (s.clear t n).mem s.pd pdi = s.mem s.pd pdi := by
        rw [Machine.clear_mem]
        exact if_neg fun hc => htd hc.1.symm
      rw [← ht, hpd]
      unfold table
      rw [hkeep]
    unfold memset
    rw [ih]
    exact store_of ((h.clear htd n).translate_pt ht' hp hn) 0

end Current

section Foreign
variable {s : Machine α} {p : UInt32} {i : Nat}

theorem Windows.translate_slot (h : Windows s) :
    translate s.mem s.cr3 (word (ptVa kmapPdeBase) kmapPteBase) = some (s.kmapPt, kmapPteBase) :=
  h.translate_pt h.slot (by decide) (by decide)

theorem Windows.kmap (h : Windows s) (phys : UInt32) :
    kmap s phys = .ok (s.slot (windowEntry phys)) := by
  unfold Vmm.kmap
  rw [if_neg h.ready]
  exact store_of h.translate_slot _

theorem Windows.kmap_slot (h : Windows s) (w phys : UInt32) :
    Vmm.kmap (s.slot w) phys = .ok (s.slot (windowEntry phys)) := by
  rw [(h.inSlot w).kmap, Machine.slot_slot]

theorem Windows.kunmap_slot (h : Windows s) (w : UInt32) : kunmap (s.slot w) = .ok (s.slot 0) := by
  have hs := store_of (h.inSlot w).translate_slot 0
  unfold kunmap
  rw [hs]
  exact congrArg Except.ok (Machine.slot_slot s w 0)

theorem Windows.translate_window (h : Windows s) (hi : i < 1024) :
    translate (s.slot (windowEntry p)).mem (s.slot (windowEntry p)).cr3 (word kmapBase i) =
      some (frameOf p, i) := by
  rw [translate_kmapBase (h.inSlot _).slot hi]
  have hw : (s.slot (windowEntry p)).mem (s.slot (windowEntry p)).kmapPt kmapPteBase = windowEntry p :=
    set_self ..
  have ht : table (s.slot (windowEntry p)).mem (s.slot (windowEntry p)).kmapPt kmapPteBase =
      some (frameOf p) := by
    refine table_eq_some.mpr ⟨?_, ?_⟩
    · rw [hw]; exact present_windowEntry p
    · rw [hw]; exact frameOf_windowEntry p
  rw [ht]
  rfl

theorem Windows.load_window (h : Windows s) (hp : frameOf p ≠ s.kmapPt) (hi : i < 1024) :
    load (s.slot (windowEntry p)) (word kmapBase i) = .ok (s.mem (frameOf p) i) := by
  rw [load_of (h.translate_window hi), Machine.slot_mem hp]

theorem Windows.store_window (h : Windows s) (hp : frameOf p ≠ s.kmapPt) (hi : i < 1024) (x : UInt32) :
    store (s.slot (windowEntry p)) (word kmapBase i) x =
      .ok ((s.poke (frameOf p) i x).slot (windowEntry p)) := by
  rw [store_of (h.translate_window hi), Machine.slot_poke hp]

theorem Windows.memset_window (h : Windows s) (hp : frameOf p ≠ s.kmapPt) (hd : frameOf p ≠ s.pd) :
    ∀ n, n ≤ 1024 → memset kmapBase n (s.slot (windowEntry p)) =
      .ok ((s.clear (frameOf p) n).slot (windowEntry p))
  | 0, _ => rfl
  | n + 1, hn => by
    have hk : (s.clear (frameOf p) n).kmapPt = s.kmapPt :=
      congrArg frameOf (Machine.clear_frame s (frameOf p) n).2.1
    unfold memset
    rw [h.memset_window hp hd n (Nat.le_of_succ_le hn)]
    exact (h.clear hd n).store_window (by rwa [hk]) hn 0

end Foreign

/-- No entry of a table is present. -/
def EmptyTable (entries : Nat → UInt32) : Prop := ∀ j, j < pageEntries → present (entries j) = false

instance (entries : Nat → UInt32) : Decidable (EmptyTable entries) :=
  inferInstanceAs (Decidable (∀ j, j < pageEntries → present (entries j) = false))

/-- The scan over a table, whichever way it is read. -/
theorem isEmpty_from {s : Machine α} {base : UInt32} {f : Nat → UInt32}
    (hl : ∀ i, i < 1024 → load s (word base i) = .ok (f i)) : ∀ n i, i + n = 1024 →
    ∃ b, isEmpty s base i n = .ok b ∧ (b = true ↔ ∀ j, i ≤ j → j < 1024 → present (f j) = false)
  | 0, i, h => ⟨true, rfl, iff_of_true rfl fun j h1 h2 => by omega⟩
  | n + 1, i, h => by
    have hi : load s (word base i) = .ok (f i) := hl i (by omega)
    have hstep : isEmpty s base i (n + 1) =
        if present (f i) = true then .ok false else isEmpty s base (i + 1) n := by
      rw [isEmpty, hi]
      rfl
    rw [hstep]
    by_cases hp : present (f i) = true
    · rw [if_pos hp]
      refine ⟨false, rfl, iff_of_false (by simp) fun hall => ?_⟩
      rw [hall i (Nat.le_refl i) (by omega)] at hp
      cases hp
    · rw [if_neg hp]
      obtain ⟨b, hb, hiff⟩ := isEmpty_from hl n (i + 1) (by omega)
      refine ⟨b, hb, hiff.trans ⟨fun hall j h1 h2 => ?_, fun hall j h1 h2 => hall j (by omega) h2⟩⟩
      rcases Nat.eq_or_lt_of_le h1 with rfl | h1
      · simpa using hp
      · exact hall j h1 h2

theorem isEmpty_eq {s : Machine α} {base : UInt32} {f : Nat → UInt32}
    (hl : ∀ i, i < 1024 → load s (word base i) = .ok (f i)) :
    isEmpty s base 0 pageEntries = .ok (decide (EmptyTable f)) := by
  obtain ⟨b, hb, hiff⟩ := isEmpty_from hl 1024 0 rfl
  have hdec : b = decide (EmptyTable f) := by
    rw [Bool.eq_iff_iff, decide_eq_true_iff, hiff]
    exact ⟨fun h j hj => h j (Nat.zero_le j) hj, fun h j _ hj => h j hj⟩
  rw [← hdec]
  exact hb

end Serotonin.Vmm
