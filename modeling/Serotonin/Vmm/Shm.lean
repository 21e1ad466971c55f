import Serotonin.Lib.ByteMem
import Serotonin.Lib.Run
import Mathlib.Logic.Function.Basic

/-! Shared memory of an address space. The mappings are kept in a list by address; a new one goes to
the first gap that takes it. -/

namespace Serotonin.Shm

open List
open ByteMem (u32 u32_of_lt)

def shmemStart : Nat := 0x60000000
def shmemEnd : Nat := 0x9FFFFFFF
def pageSize : Nat := 4096
def maxShmObjects : Nat := 256
def eNoMem : Int := 12
def eInval : Int := 22

/-- `(v + PAGE_SIZE - 1) & ~(PAGE_SIZE - 1)` -/
def roundUp (v : Nat) : Nat := u32 (v + (pageSize - 1)) / pageSize * pageSize

theorem roundUp_mod (v : Nat) : roundUp v % pageSize = 0 := Nat.mul_mod_left ..

theorem roundUp_lt (v : Nat) : roundUp v < 2 ^ 32 := by
  unfold roundUp u32 pageSize
  omega

theorem roundUp_of_aligned {v : Nat} (hv : v % pageSize = 0) (hlt : v < 2 ^ 32) : roundUp v = v := by
  unfold roundUp u32 pageSize at *
  omega

/-- A size in whole pages. -/
structure ShmObject where
  size : Nat
  npages : Nat
  whole : size % pageSize = 0
  size_lt : size < 2 ^ 32

def shmCreate (size : UInt32) : ShmObject where
  size := roundUp size.toNat
  npages := roundUp size.toNat / pageSize
  whole := roundUp_mod _
  size_lt := roundUp_lt _

structure ShmemMap where
  start : Nat
  size : Nat
deriving DecidableEq

def ShmemMap.stop (m : ShmemMap) : Nat := m.start + m.size

/-- The walk of `shm_find_free_region` from `base` on; 0 where there is no room. -/
def freeFrom (size : Nat) : Nat → List ShmemMap → Nat
  | base, [] => if u32 (base + size) ≤ shmemEnd then base else 0
  | base, m :: maps => if u32 (base + size) ≤ m.start then base else freeFrom size (roundUp m.stop) maps

def shmFindFreeRegion (maps : List ShmemMap) (size : Nat) : Nat := freeFrom (roundUp size) shmemStart maps

def insertMap (m : ShmemMap) : List ShmemMap → List ShmemMap
  | [] => [m]
  | x :: maps => if x.start < m.start then x :: insertMap m maps else m :: x :: maps

/-- The address and the new list. It has no result where the kernel panics. -/
def shmMap (maps : List ShmemMap) (shm : ShmObject) : Option (Nat × List ShmemMap) :=
  let va := shmFindFreeRegion maps shm.size
  if va = 0 then none else some (va, insertMap ⟨va, shm.size⟩ maps)

def shmUnmap (maps : List ShmemMap) (vaddr : Nat) : List ShmemMap := maps.eraseP (·.start = vaddr)

/-- The objects by number, which all tasks share, and the mappings of one address space. -/
structure State where
  shmTable : Fin maxShmObjects → Option ShmObject
  shmemList : List ShmemMap

def shmAllocId (table : Fin maxShmObjects → Option ShmObject) : Option (Fin maxShmObjects) :=
  (List.finRange maxShmObjects).find? fun i => (table i).isNone

def sysShmCreate (s : State) (size : UInt32) : Int × State :=
  match shmAllocId s.shmTable with
  | none => (-eNoMem, s)
  | some id => (id, { s with shmTable := Function.update s.shmTable id (some (shmCreate size)) })

def sysShmMap (s : State) (shmId : Int) : Option (Int × State) :=
  match if h : 0 ≤ shmId ∧ shmId.toNat < maxShmObjects then s.shmTable ⟨shmId.toNat, h.2⟩ else none with
  | none => some (-eInval, s)
  | some shm => (shmMap s.shmemList shm).map fun r => (Int.bmod r.1 (2 ^ 32), { s with shmemList := r.2 })

def sysShmUnmap (s : State) (vaddr : Nat) : Int × State :=
  if vaddr < shmemStart ∨ shmemEnd ≤ vaddr then (-eInval, s)
  else (0, { s with shmemList := shmUnmap s.shmemList vaddr })

/-- What changes the state: the calls of any task, and the mappings the kernel makes for the buffers of
layers and removes with them. -/
inductive Op
  | create (size : UInt32)
  | map (shmId : Int)
  | unmap (vaddr : Nat)
  | mapLayer (alloc : UInt32)
  | unmapLayer (vaddr : Nat)

def next (s : State) : Op → Option State
  | .create size => some (sysShmCreate s size).2
  | .map shmId => (sysShmMap s shmId).map (·.2)
  | .unmap vaddr => some (sysShmUnmap s vaddr).2
  | .mapLayer alloc => (shmMap s.shmemList (shmCreate alloc)).map fun r => { s with shmemList := r.2 }
  | .unmapLayer vaddr => some { s with shmemList := shmUnmap s.shmemList vaddr }

/-! ## Placement -/

def Sorted (maps : List ShmemMap) : Prop := maps.Pairwise fun a b => a.start ≤ b.start

/-- What a placement promises: of the address, and of the list with the new mapping. -/
structure Placed (maps : List ShmemMap) (size va : Nat) (maps' : List ShmemMap) : Prop where
  aligned : va % pageSize = 0
  above : shmemStart ≤ va
  below : va + size ≤ shmemEnd + 1
  apart : ∀ m ∈ maps, m.stop ≤ va ∨ va + size ≤ m.start
  fresh : ∀ m ∈ maps, m.start ≠ va
  sorted : Sorted maps'

/-- Where the first gap of the list ends. -/
def limit : List ShmemMap → Nat
  | [] => shmemEnd
  | m :: _ => m.start

/-- Nothing is placed where an empty mapping begins or an empty object meets a mapping. -/
def Alone (size : Nat) : List ShmemMap → Prop
  | [] => True
  | m :: maps => m.start = shmemStart → size ≠ 0 ∧ (m.size = 0 → limit maps < shmemStart + size)

/-- No end of a mapping wraps around with the size added, and no start is shared. -/
structure Clear (maps : List ShmemMap) (size : Nat) : Prop where
  start : shmemStart + size < 2 ^ 32
  ends : ∀ m ∈ maps, m.stop + size < 2 ^ 32
  alone : Alone size maps

/-- Is the object that the operation maps clear? -/
def Op.Clear (s : State) : Op → Prop
  | .map shmId => ∀ (id : Fin maxShmObjects) shm, (id.val : Int) = shmId → s.shmTable id = some shm →
    Shm.Clear s.shmemList shm.size
  | .mapLayer alloc => Shm.Clear s.shmemList (shmCreate alloc).size
  | _ => True

/-- One operation that maps nothing but clear objects. -/
def ClearStep (s t : State) : Prop := ∃ op : Op, op.Clear s ∧ next s op = some t

/-- What holds of the mappings: they lie in the window one after the other, and only the first can be empty. -/
structure Good (maps : List ShmemMap) : Prop where
  order : maps.Pairwise fun a b => a.start < b.start ∧ a.stop ≤ b.start
  within : ∀ m ∈ maps, shmemStart ≤ m.start ∧ m.stop ≤ shmemEnd
  whole : ∀ m ∈ maps, m.start % pageSize = 0 ∧ m.size % pageSize = 0
  empty : ∀ m ∈ maps, m.size = 0 → m.start = shmemStart

/-- A gap of the list that takes a mapping at `va`. -/
structure Gap (maps : List ShmemMap) (size va : Nat) (p q : List ShmemMap) : Prop where
  split : maps = p ++ q
  before : ∀ m ∈ p, m.start < va ∧ m.stop ≤ va
  after : ∀ m ∈ q, va < m.start ∧ va + size ≤ m.start

theorem insertMap_append {m : ShmemMap} {q : List ShmemMap} : ∀ {p : List ShmemMap}, (∀ x ∈ p, x.start < m.start) →
    (∀ x ∈ q, m.start < x.start) → insertMap m (p ++ q) = p ++ m :: q
  | [], _, hq => by
    cases q with
    | nil => rfl
    | cons x q =>
      have hx := hq x mem_cons_self
      exact if_neg (Nat.not_lt.mpr (Nat.le_of_lt hx))
  | x :: p, hp, hq => by
    have hx := hp x mem_cons_self
    have htail := insertMap_append (p := p) (fun y hy => hp y (mem_cons_of_mem _ hy)) hq
    simp [insertMap, hx, htail]

variable {maps p q : List ShmemMap} {base size va : Nat}

theorem le_start_of_limit (horder : q.Pairwise fun a b => a.start < b.start ∧ a.stop ≤ b.start)
    (h : va ≤ limit q) : ∀ m ∈ q, va ≤ m.start := by
  intro m hm
  cases q with
  | nil => cases hm
  | cons x q =>
    rcases mem_cons.mp hm with rfl | hm
    · exact h
    · exact Nat.le_trans h (Nat.le_of_lt ((pairwise_cons.mp horder).1 m hm).1)

namespace Good

theorem nil : Good [] := ⟨.nil, nofun, nofun, nofun⟩

theorem sublist (h : Good maps) (hsub : p.Sublist maps) : Good p where
  order := h.order.sublist hsub
  within m hm := h.within m (hsub.subset hm)
  whole m hm := h.whole m (hsub.subset hm)
  empty m hm := h.empty m (hsub.subset hm)

/-- What starts where the window does is the first mapping. -/
theorem first (h : Good maps) {m : ShmemMap} (hm : m ∈ maps) (hstart : m.start = shmemStart) : ∃ rest, maps = m :: rest := by
  cases maps with
  | nil => cases hm
  | cons x rest =>
    rcases mem_cons.mp hm with rfl | hrest
    · exact ⟨rest, rfl⟩
    · have hlt := ((pairwise_cons.mp h.order).1 m hrest).1
      have hge := (h.within x mem_cons_self).1
      omega

theorem sorted (h : Good maps) : Sorted maps := h.order.imp fun hab => Nat.le_of_lt hab.1

theorem insert (h : Good maps) (hgap : Gap maps size va p q) (haligned : va % pageSize = 0) (hwhole : size % pageSize = 0)
    (hlo : shmemStart ≤ va) (hhi : va + size ≤ shmemEnd) (hempty : size = 0 → va = shmemStart) :
    Good (insertMap ⟨va, size⟩ maps) := by
  obtain ⟨rfl, hbefore, hafter⟩ := hgap
  rw [insertMap_append (fun x hx => (hbefore x hx).1) fun x hx => (hafter x hx).1]
  obtain ⟨hp, hq, hpq⟩ := pairwise_append.mp h.order
  have hmem : ∀ {P : ShmemMap → Prop}, P ⟨va, size⟩ → (∀ m ∈ p ++ q, P m) → ∀ m ∈ p ++ ⟨va, size⟩ :: q, P m := by
    intro P hnew hold m hm
    rcases mem_append.mp hm with hm | hm
    · exact hold m (mem_append_left _ hm)
    · rcases mem_cons.mp hm with rfl | hm
      · exact hnew
      · exact hold m (mem_append_right _ hm)
  refine ⟨pairwise_append.mpr ⟨hp, pairwise_cons.mpr ⟨hafter, hq⟩, ?_⟩, hmem ⟨hlo, hhi⟩ h.within,
    hmem ⟨haligned, hwhole⟩ h.whole, hmem hempty h.empty⟩
  intro a ha b hb
  rcases mem_cons.mp hb with rfl | hb
  · exact hbefore a ha
  · exact hpq a ha b hb

end Good

/-! ## The walk -/

/-- Where no sum wraps around, the walk ends at the first gap that is large enough. -/
theorem freeFrom_gap : ∀ {maps : List ShmemMap} {base : Nat}, Good maps → base % pageSize = 0 → base + size < 2 ^ 32 →
    (∀ m ∈ maps, m.stop + size < 2 ^ 32) → freeFrom size base maps ≠ 0 →
    ∃ p q, maps = p ++ q ∧ (∀ m ∈ p, m.stop ≤ freeFrom size base maps) ∧
      (freeFrom size base maps = base ∨ ∃ m ∈ p, freeFrom size base maps = m.stop) ∧
      freeFrom size base maps % pageSize = 0 ∧ freeFrom size base maps + size ≤ limit q
  | [], base, _, hbase, hlt, _, h => by
    rw [freeFrom, u32_of_lt hlt] at h ⊢
    split at h
    · next hfit =>
      rw [if_pos hfit]
      exact ⟨[], [], rfl, nofun, .inl rfl, hbase, hfit⟩
    · exact absurd rfl h
  | m :: maps, base, hg, hbase, hlt, hends, h => by
    rw [freeFrom, u32_of_lt hlt] at h ⊢
    split at h
    · next hfit =>
      rw [if_pos hfit]
      exact ⟨[], m :: maps, rfl, nofun, .inl rfl, hbase, hfit⟩
    · next hfit =>
      rw [if_neg hfit]
      have hwhole := hg.whole m mem_cons_self
      have hmstop := hends m mem_cons_self
      have hstop : roundUp m.stop = m.stop := roundUp_of_aligned
        (by unfold ShmemMap.stop pageSize at *; omega) (by omega)
      rw [hstop] at h ⊢
      have htail := hg.sublist (sublist_cons_self m maps)
      obtain ⟨p, q, rfl, hp, hr, hmod, hq⟩ := freeFrom_gap htail (by unfold ShmemMap.stop pageSize at *; omega) hmstop
        (fun x hx => hends x (mem_cons_of_mem _ hx)) h
      generalize freeFrom size m.stop (p ++ q) = r at *
      have hle : m.stop ≤ r := by
        rcases hr with rfl | ⟨x, hx, rfl⟩
        · exact Nat.le_refl _
        · have hxm := ((pairwise_cons.mp hg.order).1 x (mem_append_left _ hx)).2
          exact Nat.le_trans hxm (Nat.le_add_right _ _)
      refine ⟨m :: p, q, rfl, forall_mem_cons.mpr ⟨hle, hp⟩, .inr ?_, hmod, hq⟩
      rcases hr with rfl | ⟨x, hx, rfl⟩
      · exact ⟨m, mem_cons_self, rfl⟩
      · exact ⟨x, mem_cons_of_mem _ hx, rfl⟩

/-- Where a sum wraps around, the walk ends at an address that leaves no room for the size. -/
theorem freeFrom_wraps (hsize : size < 2 ^ 32) : ∀ {maps : List ShmemMap} {base : Nat}, Good maps → shmemStart ≤ base →
    base ≤ shmemEnd → (∀ m ∈ maps, base ≤ m.start) → (2 ^ 32 ≤ base + size ∨ ∃ m ∈ maps, 2 ^ 32 ≤ m.stop + size) →
    base ≤ freeFrom size base maps ∧ 2 ^ 32 ≤ freeFrom size base maps + size
  | [], base, _, _, hend, _, h => by
    obtain h | ⟨m, hm, -⟩ := h
    · have hfit : u32 (base + size) ≤ shmemEnd := by
        unfold u32
        omega
      rw [freeFrom, if_pos hfit]
      exact ⟨Nat.le_refl _, h⟩
    · cases hm
  | m :: maps, base, hg, hlo, hend, hle, h => by
    have hm := hg.within m mem_cons_self
    have hbm := hle m mem_cons_self
    by_cases hwrap : 2 ^ 32 ≤ base + size
    · have hfit : u32 (base + size) ≤ m.start := by
        unfold u32
        omega
      rw [freeFrom, if_pos hfit]
      exact ⟨Nat.le_refl _, hwrap⟩
    · obtain ⟨x, hx, hxwrap⟩ := h.resolve_left hwrap
      have hxend := (hg.within x hx).2
      have hfit : ¬u32 (base + size) ≤ m.start := by
        unfold u32 shmemStart shmemEnd ShmemMap.stop at *
        omega
      have hstop : roundUp m.stop = m.stop := roundUp_of_aligned
        (by have := hg.whole m mem_cons_self; unfold ShmemMap.stop pageSize at *; omega)
        (by unfold shmemEnd at *; omega)
      rw [freeFrom, if_neg hfit, hstop]
      have horder := (pairwise_cons.mp hg.order).1
      have hrest : 2 ^ 32 ≤ m.stop + size ∨ ∃ y ∈ maps, 2 ^ 32 ≤ y.stop + size := by
        rcases mem_cons.mp hx with rfl | hx
        · exact .inl hxwrap
        · exact .inr ⟨x, hx, hxwrap⟩
      have hms : base ≤ m.stop := Nat.le_trans hbm (Nat.le_add_right _ _)
      obtain ⟨hge, hroom⟩ := freeFrom_wraps hsize (hg.sublist (sublist_cons_self m maps))
        (Nat.le_trans hlo hms) hm.2 (fun y hy => (horder y hy).2) hrest
      exact ⟨Nat.le_trans hms hge, hroom⟩

theorem freeFrom_zero (h : ∀ m ∈ maps, base ≤ m.start) (hend : base ≤ shmemEnd) : freeFrom 0 base maps = base := by
  have hbase : u32 (base + 0) = base := u32_of_lt (by unfold shmemEnd at hend; omega)
  cases maps with
  | nil =>
    rw [freeFrom, hbase]
    exact if_pos hend
  | cons m maps =>
    rw [freeFrom, hbase]
    exact if_pos (h m mem_cons_self)

/-- Where the mapping fits, and that no other starts there. -/
structure Spot (maps : List ShmemMap) (size va : Nat) : Prop where
  aligned : va % pageSize = 0
  above : shmemStart ≤ va
  below : va + size ≤ shmemEnd
  empty : size = 0 → va = shmemStart
  gap : ∃ p q, Gap maps size va p q

theorem Spot.good (h : Spot maps size va) (hg : Good maps) (hwhole : size % pageSize = 0) :
    Good (insertMap ⟨va, size⟩ maps) := by
  obtain ⟨p, q, hgap⟩ := h.gap
  exact hg.insert hgap h.aligned hwhole h.above h.below h.empty

theorem Spot.placed (h : Spot maps size va) (hg : Good maps) (hwhole : size % pageSize = 0) :
    Placed maps size va (insertMap ⟨va, size⟩ maps) := by
  obtain ⟨p, q, hgap⟩ := h.gap
  refine ⟨h.aligned, h.above, Nat.le_succ_of_le h.below, fun m hm => ?_, fun m hm => ?_, (h.good hg hwhole).sorted⟩
  · rw [hgap.split] at hm
    exact (mem_append.mp hm).imp (fun hm => (hgap.before m hm).2) fun hm => (hgap.after m hm).2
  · rw [hgap.split] at hm
    rcases mem_append.mp hm with hm | hm
    · exact Nat.ne_of_lt (hgap.before m hm).1
    · exact Nat.ne_of_gt (hgap.after m hm).1

theorem Clear.spot (hg : Good maps) (hclear : Clear maps size) (h : freeFrom size shmemStart maps ≠ 0) :
    Spot maps size (freeFrom size shmemStart maps) := by
  have hzero : size = 0 → freeFrom size shmemStart maps = shmemStart := by
    rintro rfl
    exact freeFrom_zero (fun m hm => (hg.within m hm).1) (by decide)
  obtain ⟨p, q, hsplit, hp, hr, hmod, hq⟩ := freeFrom_gap hg (by decide) hclear.start hclear.ends h
  generalize freeFrom size shmemStart maps = r at *
  have hlo : shmemStart ≤ r := by
    rcases hr with rfl | ⟨m, hm, rfl⟩
    · exact Nat.le_refl _
    · have hm := (hg.within m (hsplit ▸ mem_append_left _ hm)).1
      exact Nat.le_trans hm (Nat.le_add_right _ _)
  obtain ⟨hgp, hgq⟩ : Good p ∧ Good q := by
    rw [hsplit] at hg
    exact ⟨hg.sublist (sublist_append_left p q), hg.sublist (sublist_append_right p q)⟩
  have hhi : r + size ≤ shmemEnd := by
    cases q with
    | nil => exact hq
    | cons m q =>
      have hm := (hgq.within m mem_cons_self).2
      have hlim : r + size ≤ m.start := hq
      unfold ShmemMap.stop at hm
      omega
  refine ⟨hmod, hlo, hhi, hzero, p, q, hsplit, fun m hm => ⟨?_, hp m hm⟩, fun m hm => ?_⟩
  · -- only the empty first mapping could start at `r`, and then the gap after it is too small
    have hle := hp m hm
    rcases Nat.lt_or_ge m.start r with hlt | hge
    · exact hlt
    have hsize : m.size = 0 := by
      unfold ShmemMap.stop at hle
      omega
    have hstart := hgp.empty m hm hsize
    obtain ⟨p', rfl⟩ := hgp.first hm hstart
    have hnil : p' = [] := by
      cases p' with
      | nil => rfl
      | cons x p' =>
        have hx := hp x (mem_cons_of_mem _ mem_cons_self)
        have hlt := ((pairwise_cons.mp hgp.order).1 x mem_cons_self).1
        unfold ShmemMap.stop at hx hle
        omega
    have halone := hclear.alone
    rw [hsplit, hnil] at halone
    have hroom : limit q < shmemStart + size := (halone hstart).2 hsize
    omega
  · have hle := le_start_of_limit hgq.order hq m hm
    refine ⟨Nat.lt_of_le_of_ne (Nat.le_trans (Nat.le_add_right _ _) hle) fun heq => ?_, hle⟩
    have hsize : size = 0 := by omega
    have hmem : m ∈ maps := hsplit ▸ mem_append_right _ hm
    obtain ⟨rest, hrest⟩ := hg.first hmem (heq.symm.trans (hzero hsize))
    have halone := hclear.alone
    rw [hrest] at halone
    exact (halone (heq.symm.trans (hzero hsize))).1 hsize

/-- Where an empty mapping or an empty object meets a mapping at the start of the window, the new one starts there too. -/
theorem freeFrom_shared (hg : Good maps) (hlt : shmemStart + size < 2 ^ 32) (h : ¬Alone size maps) :
    freeFrom size shmemStart maps = shmemStart ∧ ∃ m ∈ maps, m.start = shmemStart := by
  cases maps with
  | nil => exact absurd trivial h
  | cons m rest =>
    obtain ⟨hstart, hshare⟩ : m.start = shmemStart ∧ (size = 0 ∨ (m.size = 0 ∧ shmemStart + size ≤ limit rest)) := by
      unfold Alone at h
      omega
    refine ⟨?_, m, mem_cons_self, hstart⟩
    by_cases hsize : size = 0
    · subst hsize
      exact freeFrom_zero (fun x hx => (hg.within x hx).1) (by decide)
    · obtain ⟨hempty, hroom⟩ := hshare.resolve_left hsize
      have hstop : roundUp m.stop = shmemStart := by
        unfold ShmemMap.stop
        rw [hstart, hempty]
        decide
      have hfit : ¬u32 (shmemStart + size) ≤ m.start := by
        rw [u32_of_lt hlt]
        omega
      rw [freeFrom, if_neg hfit, hstop]
      cases rest with
      | nil =>
        rw [freeFrom, u32_of_lt hlt]
        exact if_pos hroom
      | cons x rest =>
        rw [freeFrom, u32_of_lt hlt]
        exact if_pos hroom

theorem shmFindFreeRegion_eq (shm : ShmObject) : shmFindFreeRegion maps shm.size = freeFrom shm.size shmemStart maps := by
  unfold shmFindFreeRegion
  rw [roundUp_of_aligned shm.whole shm.size_lt]

theorem shmMap_eq_some {shm : ShmObject} {r : Nat × List ShmemMap} (h : shmMap maps shm = some r) :
    freeFrom shm.size shmemStart maps ≠ 0 ∧
      r = (freeFrom shm.size shmemStart maps, insertMap ⟨freeFrom shm.size shmemStart maps, shm.size⟩ maps) := by
  unfold shmMap at h
  rw [shmFindFreeRegion_eq] at h
  dsimp only at h
  split at h
  · cases h
  · next hva => exact ⟨hva, (Option.some.inj h).symm⟩

theorem shmMap_of_ne {shm : ShmObject} (h : freeFrom shm.size shmemStart maps ≠ 0) :
    shmMap maps shm = some (freeFrom shm.size shmemStart maps, insertMap ⟨freeFrom shm.size shmemStart maps, shm.size⟩ maps) := by
  unfold shmMap
  rw [shmFindFreeRegion_eq]
  exact if_neg h

theorem placed_iff (hg : Good maps) (shm : ShmObject) :
    (∀ va maps', shmMap maps shm = some (va, maps') → Placed maps shm.size va maps') ↔ Clear maps shm.size := by
  constructor
  · intro hplaced
    have hwrap : ¬(2 ^ 32 ≤ shmemStart + shm.size ∨ ∃ m ∈ maps, 2 ^ 32 ≤ m.stop + shm.size) := by
      intro hwrap
      obtain ⟨hge, hroom⟩ := freeFrom_wraps shm.size_lt hg (Nat.le_refl _) (by decide) (fun m hm => (hg.within m hm).1) hwrap
      have hne : freeFrom shm.size shmemStart maps ≠ 0 := Nat.ne_of_gt (Nat.lt_of_lt_of_le (by decide) hge)
      have hbelow := (hplaced _ _ (shmMap_of_ne hne)).below
      unfold shmemEnd at hbelow
      omega
    obtain ⟨hstart, hends⟩ := not_or.mp hwrap
    have hlt := Nat.lt_of_not_le hstart
    refine ⟨hlt, fun m hm => Nat.lt_of_not_le fun hle => hends ⟨m, hm, hle⟩, ?_⟩
    by_contra halone
    obtain ⟨heq, m, hm, hshare⟩ := freeFrom_shared hg hlt halone
    have hne : freeFrom shm.size shmemStart maps ≠ 0 := by
      rw [heq]
      decide
    exact (hplaced _ _ (shmMap_of_ne hne)).fresh m hm (hshare.trans heq.symm)
  · intro hclear va maps' h
    obtain ⟨hne, heq⟩ := shmMap_eq_some h
    obtain ⟨rfl, rfl⟩ := Prod.mk.inj heq
    exact (hclear.spot hg hne).placed hg shm.whole

/-! ## Runs -/

theorem good_shmMap (hg : Good maps) {shm : ShmObject} (hclear : Clear maps shm.size) {r : Nat × List ShmemMap}
    (h : shmMap maps shm = some r) : Good r.2 := by
  obtain ⟨hne, rfl⟩ := shmMap_eq_some h
  exact (hclear.spot hg hne).good hg shm.whole

theorem good_shmUnmap (hg : Good maps) (vaddr : Nat) : Good (shmUnmap maps vaddr) := hg.sublist eraseP_sublist

theorem Good.step {s t : State} (hg : Good s.shmemList) (h : ClearStep s t) : Good t.shmemList := by
  obtain ⟨op, hclear, h⟩ := h
  cases op with
  | create size =>
    obtain rfl := Option.some.inj h
    unfold sysShmCreate
    split <;> exact hg
  | map shmId =>
    obtain ⟨r, hr, rfl⟩ := Option.map_eq_some_iff.mp h
    unfold sysShmMap at hr
    split at hr
    · obtain rfl := Option.some.inj hr
      exact hg
    · next shm hshm =>
      split at hshm
      · next hid =>
        obtain ⟨m, hm, rfl⟩ := Option.map_eq_some_iff.mp hr
        exact good_shmMap hg (hclear _ shm (Int.toNat_of_nonneg hid.1) hshm) hm
      · cases hshm
  | unmap vaddr =>
    obtain rfl := Option.some.inj h
    unfold sysShmUnmap
    split
    · exact hg
    · exact good_shmUnmap hg vaddr
  | mapLayer alloc =>
    obtain ⟨m, hm, rfl⟩ := Option.map_eq_some_iff.mp h
    exact good_shmMap hg hclear hm
  | unmapLayer vaddr =>
    obtain rfl := Option.some.inj h
    exact good_shmUnmap hg vaddr

theorem next_mapLayer {s : State} {alloc : UInt32} {maps' : List ShmemMap}
    (h : shmMap s.shmemList (shmCreate alloc) = some (va, maps')) :
    next s (.mapLayer alloc) = some { s with shmemList := maps' } := by
  show (shmMap s.shmemList (shmCreate alloc)).map _ = _
  rw [h]
  rfl

/-- No mapping yet. The objects may be there already. -/
def Start (s : State) : Prop := s.shmemList = []

/-- In every run that maps clear objects only, the next object is placed inside the window, apart from
all mappings and at a start of its own, just when it is clear too. -/
theorem shm_placed_iff {s : State} (h : Run.Reachable Start ClearStep s) (shm : ShmObject) :
    (∀ va maps', shmMap s.shmemList shm = some (va, maps') → Placed s.shmemList shm.size va maps') ↔
      Clear s.shmemList shm.size := by
  have hgood : Good s.shmemList := h.invariant (fun s => Good s.shmemList)
    (fun s hs => (show s.shmemList = [] from hs) ▸ Good.nil) fun s t => Good.step
  exact placed_iff hgood shm

def firstState : State := ⟨fun _ => none, []⟩

theorem shm_placed_second :
    Placed [⟨shmemStart, 4096⟩] 8192 (shmemStart + 4096) [⟨shmemStart, 4096⟩, ⟨shmemStart + 4096, 8192⟩] := by
  have hreach : Run.Reachable Start ClearStep { firstState with shmemList := [⟨shmemStart, 4096⟩] } :=
    .step (.start (s := firstState) rfl) ⟨.mapLayer 4096, ⟨by decide, nofun, trivial⟩,
      next_mapLayer (show shmMap [] _ = some (shmemStart, _) by decide +kernel)⟩
  refine (shm_placed_iff hreach (shmCreate 8192)).mpr ⟨by decide, by decide, fun _ => ⟨by decide, nofun⟩⟩ _ _ ?_
  decide +kernel

/-- Two objects of no size are both placed at the start of the window. -/
theorem not_shm_placed : ¬∀ s, Run.Reachable Start (fun s t => ∃ op, next s op = some t) s → ∀ (size : UInt32) va maps',
    shmMap s.shmemList (shmCreate size) = some (va, maps') → Placed s.shmemList (shmCreate size).size va maps' := by
  intro h
  have hreach : Run.Reachable Start (fun s t => ∃ op, next s op = some t) { firstState with shmemList := [⟨shmemStart, 0⟩] } :=
    .step (.start (s := firstState) rfl) ⟨.mapLayer 0,
      next_mapLayer (show shmMap [] _ = some (shmemStart, _) by decide +kernel)⟩
  have hplaced := h _ hreach 0 shmemStart [⟨shmemStart, 0⟩, ⟨shmemStart, 0⟩] (by decide +kernel)
  exact hplaced.fresh ⟨shmemStart, 0⟩ List.mem_cons_self rfl

end Serotonin.Shm
