import Serotonin.Buddy.Runs
import Serotonin.Lib.Carving

/-! `buddy_init`: the zones made at boot from the available regions of the memory map. What is
in use by then, low memory, the kernel, its heap and stack, the framebuffer and the modules, is
cut out of them, as far as the fixed-size arrays hold. -/

namespace Serotonin.Buddy

open Carving List

def minManagedPhys : Nat := 0x00200000
def kernelHeapPhys : Nat := 0x10200000
def kernelHeapSize : Nat := 256 * 1024 * 1024
def kernelStackPhys : Nat := 0x30000000
def pageEntries : Nat := 1024
def maxZones : Nat := 8
def exclSize : Nat := 32
def todoSize : Nat := 8
def sizeofPageDesc : Nat := 8
def multibootMemoryAvailable : UInt32 := 1

/-- `multiboot_memory_map_t`. -/
structure MmapEntry where
  addr : UInt64
  len : UInt64
  type : UInt32

/-- `multiboot_module_t`. -/
structure Module where
  modStart : UInt32
  modEnd : UInt32

/-- What `buddy_init` is called with. `mods` are the modules that the information names: none
without the flag or the address. -/
structure Boot where
  mmap : List MmapEntry
  mods : List Module
  kernelPhysStart : UInt32
  kernelPhysEnd : UInt32
  fbPhysBase : UInt32
  fbLength : UInt32

def alignUp64 (v : Nat) : Nat := (v + (pageSize - 1)) % 2 ^ 64 / pageSize * pageSize

def alignDn64 (v : Nat) : Nat := v / pageSize * pageSize

def newZone (base stop : Nat) : Zone where
  basePhys := base % 2 ^ 32
  numPages := (stop - base) >>> pageShift % 2 ^ 32
  pages := fun _ => ⟨0, false, none⟩
  freeList := fun _ => none
  maxOrder := 0

/-- `none`: no memory for the page descriptors, and the kernel panics. -/
def addZone (malloc : Nat → Nat → Bool) (zones : List Zone) (base stop : Nat) : Option (List Zone) :=
  if maxZones ≤ zones.length then some zones
  else
    let base := alignUp64 base
    let stop := alignDn64 stop
    if stop ≤ base then some zones
    else
      let z := newZone base stop
      if malloc zones.length (z.numPages * sizeofPageDesc % 2 ^ 32) then some (zones ++ [zoneBuild z]) else none

def carveExclusion (i rsv : Range) : List Range :=
  if rsv.stop ≤ i.start ∨ i.stop ≤ rsv.start then [i]
  else (if i.start < rsv.start then [⟨i.start, rsv.start⟩] else []) ++
    if rsv.stop < i.stop then [⟨rsv.stop, i.stop⟩] else []

/-- The loop over `todo`, with what `next` holds. -/
def carveTodo (rsv : Range) : List Range → List Range → List Range
  | [], next => next
  | t :: ts, next => if next.length + 2 ≤ todoSize then carveTodo rsv ts (next ++ carveExclusion t rsv) else next

def carveAll (excl : List Range) (r : Range) : List Range := excl.foldl (fun todo e => carveTodo e todo []) [r]

/-- The exclusions before those of the modules. -/
def fixedExclusions (b : Boot) : List Range :=
  [⟨0, minManagedPhys⟩] ++
    (if b.kernelPhysStart < b.kernelPhysEnd then [⟨b.kernelPhysStart.toNat, b.kernelPhysEnd.toNat⟩] else []) ++
    (if b.fbLength ≠ 0 then [⟨b.fbPhysBase.toNat, b.fbPhysBase.toNat + b.fbLength.toNat⟩] else []) ++
    [⟨kernelHeapPhys, kernelHeapPhys + kernelHeapSize⟩, ⟨kernelStackPhys, kernelStackPhys + pageEntries * pageSize⟩]

def Module.range (m : Module) : Range := ⟨m.modStart.toNat, m.modEnd.toNat⟩

def excludeModules : List Module → List Range → List Range
  | [], excl => excl
  | m :: ms, excl =>
    if excl.length < exclSize then
      excludeModules ms (if m.modStart < m.modEnd then excl ++ [m.range] else excl)
    else excl

def exclusions (b : Boot) : List Range := excludeModules b.mods (fixedExclusions b)

def MmapEntry.isAvailable (m : MmapEntry) : Bool := m.type == multibootMemoryAvailable && m.len != 0

/-- The sum of 64 bits. -/
def MmapEntry.range (m : MmapEntry) : Range := ⟨m.addr.toNat, (m.addr + m.len).toNat⟩

def addRange (malloc : Nat → Nat → Bool) (zones : List Zone) (t : Range) : Option (List Zone) :=
  if t.start < t.stop then addZone malloc zones t.start t.stop else some zones

def addRegion (malloc : Nat → Nat → Bool) (excl : List Range) (zones : List Zone) (m : MmapEntry) : Option (List Zone) :=
  if m.isAvailable then (carveAll excl m.range).foldlM (addRange malloc) zones else some zones

/-- `malloc n bytes`: is there memory for the descriptors of zone `n`? -/
def buddyInit (malloc : Nat → Nat → Bool) (b : Boot) : Option (List Zone) :=
  b.mmap.foldlM (addRegion malloc (exclusions b)) []

/-! ## What is left for the zones -/

theorem carveExclusion_eq (i rsv : Range) : carveExclusion i rsv = cut rsv i := rfl

theorem carveTodo_sublist (rsv : Range) : ∀ (ts next : List Range),
    (carveTodo rsv ts next).Sublist (next ++ ts.flatMap (cut rsv))
  | [], next => by
    rw [flatMap_nil, append_nil]
    exact List.Sublist.refl _
  | t :: ts, next => by
    unfold carveTodo
    rw [flatMap_cons, ← append_assoc]
    split
    · exact carveTodo_sublist rsv ts _
    · exact (sublist_append_left next _).trans (sublist_append_left _ _)

/-- The arrays lose nothing as long as they do not fill up. -/
theorem carveTodo_eq (rsv : Range) : ∀ (ts next : List Range), (next ++ ts.flatMap (cut rsv)).length < todoSize →
    carveTodo rsv ts next = next ++ ts.flatMap (cut rsv)
  | [], next, _ => (append_nil next).symm
  | t :: ts, next, h => by
    rw [flatMap_cons, ← append_assoc] at h ⊢
    unfold carveTodo
    by_cases hfull : next.length + 2 ≤ todoSize
    · rw [if_pos hfull]
      exact carveTodo_eq rsv ts _ h
    · -- seven ranges are there already, so nothing else is left
      rw [if_neg hfull]
      have hnone : (carveExclusion t rsv ++ ts.flatMap (cut rsv)).length = 0 := by
        rw [append_assoc, length_append] at h
        unfold todoSize at h hfull
        exact Nat.eq_zero_of_not_pos fun hpos => by
          have hsame : (carveExclusion t rsv ++ ts.flatMap (cut rsv)).length =
            (cut rsv t ++ ts.flatMap (cut rsv)).length := rfl
          omega
      rw [append_assoc]
      exact (by rw [← carveExclusion_eq, length_eq_zero_iff.mp hnone, append_nil])

theorem carveAll_sublist (excl : List Range) (r : Range) : (carveAll excl r).Sublist (pieces excl [r]) := by
  unfold carveAll
  generalize hl : [r] = l
  have hsub : ∀ (es todo l : List Range), todo.Sublist l →
      (es.foldl (fun todo e => carveTodo e todo []) todo).Sublist (pieces es l) := by
    intro es
    induction es with
    | nil => exact fun _ _ h => h
    | cons e es ih => exact fun todo l h => ih _ _ ((carveTodo_sublist e todo []).trans (h.flatMap (cut e)))
  exact hsub excl l l (List.Sublist.refl l)

theorem carveAll_snoc (es : List Range) (e r : Range) : carveAll (es ++ [e]) r = carveTodo e (carveAll es r) [] :=
  foldl_append

theorem carveAll_eq {excl : List Range} {r : Range}
    (h : ∀ n, (pieces (excl.take n) [r]).length < todoSize) : carveAll excl r = pieces excl [r] := by
  have hall : ∀ n, carveAll (excl.take n) r = pieces (excl.take n) [r] := by
    intro n
    induction n with
    | zero => rfl
    | succ n ih =>
      by_cases hn : n < excl.length
      · have hlen := h (n + 1)
        rw [take_succ_eq_append_getElem hn, pieces_snoc] at hlen
        rw [take_succ_eq_append_getElem hn, carveAll_snoc, pieces_snoc, ih]
        exact carveTodo_eq _ _ [] hlen
      · rw [take_of_length_le (by omega)] at ih ⊢
        exact ih
  have hfull := hall excl.length
  rw [take_length] at hfull
  exact hfull

/-! ## The frames of the zones -/

/-- The physical addresses of the pages of the zones. -/
def frames (zones : List Zone) : List Nat := zones.flatMap fun z => (List.range z.numPages).map (physOf z)

/-- The address of 32 bits that page `p` has in a zone. -/
def frame (p : Nat) : Nat := p * pageSize % 2 ^ 32

/-- A range whose ends and whose pages the zone can hold. -/
def Small (t : Range) : Prop := t.start < t.stop → t.start + pageSize ≤ 2 ^ 64 ∧ (pages pageSize t).length < 2 ^ 32

theorem pages_nil_of_empty {t : Range} (h : t.stop ≤ t.start) : pages pageSize t = [] := by
  refine eq_nil_iff_forall_not_mem.mpr fun p hp => ?_
  obtain ⟨hl, hr⟩ := (mem_pages (by decide)).mp hp
  unfold pageSize at hl hr
  omega

theorem alignUp64_eq {v : Nat} (h : v + pageSize ≤ 2 ^ 64) :
    alignUp64 v = (v + (pageSize - 1)) / pageSize * pageSize := by
  unfold alignUp64
  rw [Nat.mod_eq_of_lt (by unfold pageSize at h ⊢; omega)]

/-- The zone made of a range has its pages. -/
theorem frames_zone {t : Range} (hs : t.start + pageSize ≤ 2 ^ 64) (hn : (pages pageSize t).length < 2 ^ 32) {z : Zone}
    (hbase : z.basePhys = alignUp64 t.start % 2 ^ 32)
    (hnum : z.numPages = (alignDn64 t.stop - alignUp64 t.start) >>> pageShift % 2 ^ 32) :
    (List.range z.numPages).map (physOf z) = (pages pageSize t).map frame := by
  have hup := alignUp64_eq hs
  have hlen : (pages pageSize t).length = t.stop / pageSize - (t.start + (pageSize - 1)) / pageSize :=
    length_range'
  have hcount : z.numPages = (pages pageSize t).length := by
    rw [hnum, hup, hlen, Nat.shiftRight_eq_div_pow]
    unfold alignDn64
    rw [← Nat.sub_mul, show (2 : Nat) ^ pageShift = pageSize from rfl, Nat.mul_div_cancel _ (by decide)]
    exact Nat.mod_eq_of_lt (hlen ▸ hn)
  unfold pages at hcount ⊢
  rw [length_range'] at hcount
  rw [hcount, List.range'_eq_map_range, map_map]
  refine map_congr_left fun i _ => ?_
  show physOf z i = frame ((t.start + (pageSize - 1)) / pageSize + i)
  unfold physOf frame
  rw [hbase, hup, Nat.add_mul]
  omega

/-- What a range does to the zones: its pages are added, if there is room for another zone. -/
theorem addRange_frames {malloc : Nat → Nat → Bool} {zones zones' : List Zone} {t : Range} (ht : Small t)
    (h : addRange malloc zones t = some zones') :
    (frames zones').Sublist (frames zones ++ (pages pageSize t).map frame) ∧
      (zones.length + (if pages pageSize t ≠ [] then 1 else 0) ≤ maxZones →
        frames zones' = frames zones ++ (pages pageSize t).map frame ∧
          zones'.length = zones.length + if pages pageSize t ≠ [] then 1 else 0) := by
  unfold addRange at h
  by_cases hproper : t.start < t.stop
  · rw [if_pos hproper] at h
    obtain ⟨hs, hn⟩ := ht hproper
    unfold addZone at h
    by_cases hfull : maxZones ≤ zones.length
    · rw [if_pos hfull] at h
      cases h
      refine ⟨sublist_append_left _ _, fun hroom => ?_⟩
      by_cases hnil : pages pageSize t = []
      · rw [hnil]
        simp
      · rw [if_pos hnil] at hroom
        omega
    · rw [if_neg hfull] at h
      dsimp only at h
      have hup := alignUp64_eq hs
      have hnone : alignDn64 t.stop ≤ alignUp64 t.start ↔ pages pageSize t = [] := by
        rw [hup, ← length_eq_zero_iff, show (pages pageSize t).length = _ from length_range']
        unfold alignDn64
        rw [Nat.mul_le_mul_right_iff (by decide)]
        omega
      by_cases hempty : alignDn64 t.stop ≤ alignUp64 t.start
      · rw [if_pos hempty] at h
        cases h
        rw [hnone.mp hempty]
        simp
      · rw [if_neg hempty] at h
        obtain ⟨-, h⟩ := Option.ite_none_right_eq_some.mp h
        cases h
        rw [if_pos fun hnil => hempty (hnone.mpr hnil)]
        have hzone : frames (zones ++ [zoneBuild (newZone (alignUp64 t.start) (alignDn64 t.stop))]) =
            frames zones ++ (pages pageSize t).map frame := by
          unfold frames
          rw [flatMap_append, flatMap_singleton]
          obtain ⟨hb, hnum, -⟩ := zoneBuild_owns (newZone (alignUp64 t.start) (alignDn64 t.stop))
          rw [frames_zone hs hn hb hnum]
        rw [hzone]
        exact ⟨List.Sublist.refl _, fun _ => ⟨rfl, length_append⟩⟩
  · rw [if_neg hproper] at h
    cases h
    rw [pages_nil_of_empty (Nat.le_of_not_lt hproper)]
    simp

/-- How many of the ranges have a page. -/
def withPage (ts : List Range) : Nat := (ts.filter fun t => pages pageSize t ≠ []).length

theorem addRanges_frames {malloc : Nat → Nat → Bool} {ts : List Range} (ht : ∀ t ∈ ts, Small t) :
    ∀ {zones zones' : List Zone}, ts.foldlM (addRange malloc) zones = some zones' →
      (frames zones').Sublist (frames zones ++ (ts.flatMap (pages pageSize)).map frame) ∧
        (zones.length + withPage ts ≤ maxZones →
          frames zones' = frames zones ++ (ts.flatMap (pages pageSize)).map frame) := by
  induction ts with
  | nil =>
    intro zones zones' h
    cases h
    simp
  | cons t ts ih =>
    intro zones zones' h
    obtain ⟨zs, hfirst, hrest⟩ := Option.bind_eq_some_iff.mp h
    obtain ⟨hsmall, hts⟩ := forall_mem_cons.mp ht
    obtain ⟨hsub, heq⟩ := addRange_frames hsmall hfirst
    obtain ⟨hsub', heq'⟩ := ih hts hrest
    rw [flatMap_cons, map_append, ← append_assoc]
    refine ⟨hsub'.trans (hsub.append (List.Sublist.refl _)), fun hroom => ?_⟩
    have hcount : withPage (t :: ts) = (if pages pageSize t ≠ [] then 1 else 0) + withPage ts := by
      unfold withPage
      by_cases hnil : pages pageSize t = []
      · simp [hnil]
      · simp [hnil, Nat.add_comm]
    rw [hcount] at hroom
    obtain ⟨hframes, hlen⟩ := heq (by omega)
    rw [heq' (by omega), hframes]

/-! ## Exclusions -/

def Module.nonempty (m : Module) : Bool := m.modStart < m.modEnd

/-- The modules for which the table of exclusions has no room. -/
def leftOut (b : Boot) : List Module :=
  (b.mods.filter Module.nonempty).drop (exclSize - (fixedExclusions b).length)

theorem excludeModules_eq (ms : List Module) : ∀ excl : List Range, excludeModules ms excl =
    excl ++ ((ms.filter Module.nonempty).take (exclSize - excl.length)).map Module.range := by
  induction ms with
  | nil => intro excl; simp [excludeModules]
  | cons m ms ih =>
    intro excl
    unfold excludeModules
    by_cases hroom : excl.length < exclSize
    · rw [if_pos hroom, ih]
      by_cases hm : m.modStart < m.modEnd
      · have hne : m.nonempty = true := decide_eq_true hm
        obtain ⟨k, hk⟩ : ∃ k, exclSize - excl.length = k + 1 := ⟨exclSize - excl.length - 1, by omega⟩
        have hk' : exclSize - (excl ++ [m.range]).length = k := by
          rw [length_append, length_singleton]
          omega
        rw [if_pos hm, filter_cons_of_pos hne, hk, hk', take_succ_cons, map_cons, append_assoc]
        rfl
      · have hne : ¬m.nonempty = true := fun h => hm (of_decide_eq_true h)
        rw [if_neg hm, filter_cons_of_neg hne]
    · have hzero : exclSize - excl.length = 0 := by omega
      rw [if_neg hroom, hzero, take_zero, map_nil, append_nil]

/-- What is in use when the zones are made. -/
def inUse (b : Boot) : List Range := fixedExclusions b ++ (b.mods.filter Module.nonempty).map Module.range

theorem mem_inUse {b : Boot} {e : Range} : e ∈ inUse b ↔ e ∈ exclusions b ∨ ∃ m ∈ leftOut b, m.range = e := by
  have hmods : ∀ n, e ∈ (b.mods.filter Module.nonempty).map Module.range ↔
      e ∈ ((b.mods.filter Module.nonempty).take n).map Module.range ∨
        e ∈ ((b.mods.filter Module.nonempty).drop n).map Module.range := fun n => by
    rw [← mem_append, ← map_append, take_append_drop]
  unfold inUse exclusions leftOut
  rw [excludeModules_eq, mem_append, mem_append, or_assoc, ← mem_map,
    ← hmods (exclSize - (fixedExclusions b).length)]

/-- Whatever is excluded ends below 8 GiB, and after it starts. -/
theorem inUse_bounds {b : Boot} {e : Range} (he : e ∈ inUse b) : e.start < e.stop ∧ e.stop < 2 ^ 33 := by
  unfold inUse fixedExclusions at he
  simp only [mem_append, mem_ite_nil_right, mem_cons, not_mem_nil, or_false, mem_map] at he
  obtain (((rfl | ⟨hk, rfl⟩) | ⟨hf, rfl⟩) | (rfl | rfl)) | ⟨m, hm, rfl⟩ := he
  · decide
  · have hend := b.kernelPhysEnd.toNat_lt
    exact ⟨UInt32.lt_iff_toNat_lt.mp hk, by dsimp only; omega⟩
  · have hbase := b.fbPhysBase.toNat_lt
    have hlen := b.fbLength.toNat_lt
    have hpos : b.fbLength.toNat ≠ 0 := fun h => hf (UInt32.toNat_inj.mp h)
    dsimp only
    omega
  · decide
  · decide
  · have hend := m.modEnd.toNat_lt
    exact ⟨UInt32.lt_iff_toNat_lt.mp (of_decide_eq_true (mem_filter.mp hm).2), by unfold Module.range; dsimp only; omega⟩

theorem exclusions_bounds {b : Boot} {e : Range} (he : e ∈ exclusions b) : e.start ≤ e.stop ∧ e.stop + pageSize ≤ 2 ^ 64 := by
  obtain ⟨hlt, hstop⟩ := inUse_bounds (mem_inUse.mpr (.inl he))
  unfold pageSize
  omega

/-! ## Regions -/

/-- The available regions of the map. -/
def regions (b : Boot) : List MmapEntry := b.mmap.filter MmapEntry.isAvailable

/-- A page of a region that nothing in the table of exclusions meets. -/
def Usable (b : Boot) (m : MmapEntry) (p : Nat) : Prop := Inside pageSize m.range p ∧ ∀ e ∈ exclusions b, Off pageSize e p

theorem mem_pieces_region {b : Boot} {m : MmapEntry} {p : Nat} :
    p ∈ (pieces (exclusions b) [m.range]).flatMap (pages pageSize) ↔ Usable b m p := by
  refine (mem_pieces (by decide)).trans (and_congr_left fun _ => ?_)
  simp

/-- All usable pages, region by region. -/
def usablePages (b : Boot) : List Nat :=
  (regions b).flatMap fun m => (pieces (exclusions b) [m.range]).flatMap (pages pageSize)

theorem mem_usablePages {b : Boot} {p : Nat} : p ∈ usablePages b ↔ ∃ m ∈ regions b, Usable b m p := by
  unfold usablePages
  rw [mem_flatMap]
  exact exists_congr fun m => and_congr_right fun _ => mem_pieces_region

/-- Every usable page comes once if no two regions share one. -/
theorem nodup_usablePages {b : Boot} :
    (usablePages b).Nodup ↔ (regions b).Pairwise fun m m' => ∀ p, Usable b m p → ¬Usable b m' p := by
  have hone : ∀ m : MmapEntry, ((pieces (exclusions b) [m.range]).flatMap (pages pageSize)).Nodup := fun m =>
    nodup_pieces (by decide) (fun _ he => (exclusions_bounds he).1) (by
      rw [flatMap_singleton]
      exact nodup_pages _ _)
  have happart : ∀ m m' : MmapEntry, (List.Disjoint ((pieces (exclusions b) [m.range]).flatMap (pages pageSize))
      ((pieces (exclusions b) [m'.range]).flatMap (pages pageSize))) ↔ ∀ p, Usable b m p → ¬Usable b m' p := fun m m' =>
    forall_congr' fun p => imp_congr mem_pieces_region (not_congr mem_pieces_region)
  unfold usablePages
  rw [nodup_flatMap]
  constructor
  · intro ⟨_, h⟩
    exact h.imp fun {m m'} hd => (happart m m').mp hd
  · intro h
    exact ⟨fun m _ => hone m, h.imp fun {m m'} hd => (happart m m').mpr hd⟩

/-- The ranges of which zones are made, in order. -/
def ranges (b : Boot) : List Range := (regions b).flatMap fun m => carveAll (exclusions b) m.range

theorem foldlM_regions (malloc : Nat → Nat → Bool) (excl : List Range) : ∀ (ms : List MmapEntry) (zones : List Zone),
    ms.foldlM (addRegion malloc excl) zones =
      ((ms.filter MmapEntry.isAvailable).flatMap fun m => carveAll excl m.range).foldlM (addRange malloc) zones := by
  intro ms
  induction ms with
  | nil => exact fun _ => rfl
  | cons m ms ih =>
    intro zones
    show (addRegion malloc excl zones m).bind (fun zs => ms.foldlM (addRegion malloc excl) zs) = _
    unfold addRegion
    by_cases hm : m.isAvailable = true
    · rw [if_pos hm, filter_cons_of_pos hm, flatMap_cons, foldlM_append]
      exact congrArg _ (funext ih)
    · rw [if_neg hm, filter_cons_of_neg hm]
      exact ih zones

theorem buddyInit_eq (malloc : Nat → Nat → Bool) (b : Boot) :
    buddyInit malloc b = (ranges b).foldlM (addRange malloc) [] := foldlM_regions malloc _ _ _

/-! ## Soundness -/

/-- No frame is there twice, each is a page of an available region, and none is in use. -/
structure Sound (b : Boot) (zones : List Zone) : Prop where
  once : (frames zones).Nodup
  available : ∀ a ∈ frames zones, ∃ m ∈ regions b, m.addr.toNat ≤ a ∧ a + pageSize ≤ m.addr.toNat + m.len.toNat
  unused : ∀ a ∈ frames zones, ∀ e ∈ inUse b, a + pageSize ≤ e.start ∨ e.stop ≤ a

/-- No region starts in the last page of 64 bits, no usable page is above 4 GiB, is in two
regions, or meets a module that the table has no room for. -/
structure Clear (b : Boot) : Prop where
  start : ∀ m ∈ regions b, m.range.start < m.range.stop → m.range.start + pageSize ≤ 2 ^ 64
  below : ∀ m ∈ regions b, ∀ p, Usable b m p → p * pageSize + pageSize ≤ 2 ^ 32
  apart : (regions b).Pairwise fun m m' => ∀ p, Usable b m p → ¬Usable b m' p
  table : ∀ r ∈ leftOut b, ∀ m ∈ regions b, ∀ p, Usable b m p → Off pageSize r.range p

/-- The arrays lose nothing, and no region is as large as 16 TiB or comes near the end of 64 bits. -/
structure Fits (b : Boot) : Prop where
  stop : ∀ m ∈ regions b, m.addr.toNat + m.len.toNat + pageSize ≤ 2 ^ 64
  size : ∀ m ∈ regions b, m.len.toNat < 2 ^ 44
  todo : ∀ m ∈ regions b, ∀ n, (pieces ((exclusions b).take n) [m.range]).length < todoSize
  zones : withPage ((regions b).flatMap fun m => pieces (exclusions b) [m.range]) ≤ maxZones

theorem length_pages_le {t : Range} (lo hi : Nat) (h : ∀ p, Inside pageSize t p → lo ≤ p ∧ p < lo + hi) :
    (pages pageSize t).length ≤ hi := by
  have hsub : (pages pageSize t).Subperm (List.range' lo hi) :=
    subperm_of_subset (nodup_pages _ _) fun p hp => List.mem_range'_1.mpr (h p ((mem_pages (by decide)).mp hp))
  have hlen := hsub.length_le
  rw [length_range'] at hlen
  exact hlen

/-- The pieces of a region that is itself in bounds. -/
theorem small_pieces {b : Boot} {m : MmapEntry} (lo : Nat)
    (hs : m.range.start < m.range.stop → m.range.start + pageSize ≤ 2 ^ 64)
    (hn : ∀ p, Usable b m p → lo ≤ p ∧ p < lo + (2 ^ 32 - 1)) : ∀ t ∈ pieces (exclusions b) [m.range], Small t := by
  intro t ht hproper
  have hexcl : ∀ e ∈ exclusions b, e.start ≤ e.stop := fun e he => (exclusions_bounds he).1
  have hregion : m.range.start < m.range.stop := by
    by_contra hempty
    have htempty := empty_pieces hexcl (l := [m.range]) (fun i hi => by
      rw [mem_singleton.mp hi]
      exact Nat.le_of_not_lt hempty) t ht
    omega
  constructor
  · exact start_pieces (· + pageSize ≤ 2 ^ 64) (fun e he => (exclusions_bounds he).2) (fun i hi => by
      rw [mem_singleton.mp hi]
      exact hs hregion) t ht
  · have hlen := length_pages_le (t := t) lo (2 ^ 32 - 1) fun p hp =>
      hn p (mem_pieces_region.mp ((mem_flatMap_pages (by decide)).mpr ⟨t, ht, hp⟩))
    omega

/-- What the zones hold is among the usable pages, and all of them if the arrays lose nothing. -/
theorem frames_buddyInit {malloc : Nat → Nat → Bool} {b : Boot} {zones : List Zone} (h : buddyInit malloc b = some zones)
    (hsmall : ∀ m ∈ regions b, ∀ t ∈ pieces (exclusions b) [m.range], Small t) :
    (frames zones).Sublist ((usablePages b).map frame) ∧ (Fits b → frames zones = (usablePages b).map frame) := by
  have hpieces : (ranges b).Sublist ((regions b).flatMap fun m => pieces (exclusions b) [m.range]) :=
    List.Sublist.flatMap_right _ fun m _ => carveAll_sublist (exclusions b) m.range
  have hpages : usablePages b = ((regions b).flatMap fun m => pieces (exclusions b) [m.range]).flatMap (pages pageSize) :=
    flatMap_assoc.symm
  have hall : ∀ t ∈ ranges b, Small t := fun t ht => by
    obtain ⟨m, hm, ht⟩ := mem_flatMap.mp (hpieces.subset ht)
    exact hsmall m hm t ht
  rw [buddyInit_eq] at h
  obtain ⟨hsub, heq⟩ := addRanges_frames hall h
  rw [hpages]
  refine ⟨hsub.trans ((hpieces.flatMap _).map _), fun hf => ?_⟩
  have hsame : ranges b = (regions b).flatMap fun m => pieces (exclusions b) [m.range] :=
    flatMap_congr fun m hm => carveAll_eq (hf.todo m hm)
  rw [← hsame]
  refine heq ?_
  have hzones := hf.zones
  rw [← hsame] at hzones
  rw [length_nil, Nat.zero_add]
  exact hzones

theorem frame_eq {p : Nat} (h : p * pageSize + pageSize ≤ 2 ^ 32) : frame p = p * pageSize :=
  Nat.mod_eq_of_lt (by unfold pageSize at h ⊢; omega)

/-- A usable page is a page of its region. -/
theorem Usable.available {b : Boot} {m : MmapEntry} {p : Nat} (h : Usable b m p) :
    m.addr.toNat ≤ p * pageSize ∧ p * pageSize + pageSize ≤ m.addr.toNat + m.len.toNat := by
  obtain ⟨⟨hl, hr⟩, -⟩ := h
  refine ⟨hl, Nat.le_trans hr ?_⟩
  show (m.addr + m.len).toNat ≤ _
  rw [UInt64.toNat_add]
  exact Nat.mod_le _ _

theorem Clear.sound {malloc : Nat → Nat → Bool} {b : Boot} {zones : List Zone} (hc : Clear b)
    (h : buddyInit malloc b = some zones) : Sound b zones := by
  have hlow : ∀ p ∈ usablePages b, p * pageSize + pageSize ≤ 2 ^ 32 := fun p hp => by
    obtain ⟨m, hm, hu⟩ := mem_usablePages.mp hp
    exact hc.below m hm p hu
  obtain ⟨hsub, -⟩ := frames_buddyInit h fun m hm => small_pieces 0 (hc.start m hm) fun p hp => by
    have hp := hc.below m hm p hp
    unfold pageSize at hp
    omega
  have hmem : ∀ a ∈ frames zones, ∃ m ∈ regions b, ∃ p, Usable b m p ∧ a = p * pageSize := fun a ha => by
    obtain ⟨p, hp, rfl⟩ := mem_map.mp (hsub.subset ha)
    obtain ⟨m, hm, hu⟩ := mem_usablePages.mp hp
    exact ⟨m, hm, p, hu, frame_eq (hlow p hp)⟩
  refine ⟨hsub.nodup ?_, fun a ha => ?_, fun a ha e he => ?_⟩
  · refine List.Nodup.map_on (fun p hp q hq hpq => ?_) (nodup_usablePages.mpr hc.apart)
    rw [frame_eq (hlow p hp), frame_eq (hlow q hq)] at hpq
    exact Nat.eq_of_mul_eq_mul_right (by decide) hpq
  · obtain ⟨m, hm, p, hu, rfl⟩ := hmem a ha
    exact ⟨m, hm, hu.available⟩
  · obtain ⟨m, hm, p, hu, rfl⟩ := hmem a ha
    obtain he | ⟨r, hr, rfl⟩ := mem_inUse.mp he
    · exact hu.2 e he
    · exact hc.table r hr m hm p hu

/-- A region that fits ends where it says. -/
theorem Fits.range {b : Boot} (h : Fits b) {m : MmapEntry} (hm : m ∈ regions b) :
    m.range.stop = m.addr.toNat + m.len.toNat := by
  have hstop := h.stop m hm
  unfold pageSize at hstop
  show (m.addr + m.len).toNat = _
  rw [UInt64.toNat_add, Nat.mod_eq_of_lt (by omega)]

theorem Sound.clear {malloc : Nat → Nat → Bool} {b : Boot} {zones : List Zone} (hf : Fits b)
    (h : buddyInit malloc b = some zones) (hs : Sound b zones) : Clear b := by
  have hstart : ∀ m ∈ regions b, m.range.start < m.range.stop → m.range.start + pageSize ≤ 2 ^ 64 := fun m hm _ => by
    have hstop := hf.stop m hm
    show m.addr.toNat + pageSize ≤ _
    omega
  obtain ⟨-, heq⟩ := frames_buddyInit h fun m hm =>
    small_pieces ((m.range.start + (pageSize - 1)) / pageSize) (hstart m hm) fun p ⟨⟨hl, hr⟩, _⟩ => by
      have hsize := hf.size m hm
      rw [hf.range hm] at hr
      have hstart : m.range.start = m.addr.toNat := rfl
      unfold pageSize at hl hr ⊢
      omega
  have hframes := heq hf
  have honce := hs.once
  rw [hframes] at honce
  -- a page above 4 GiB has the frame of one below, and that one is there too
  have hbelow : ∀ m ∈ regions b, ∀ p, Usable b m p → p * pageSize + pageSize ≤ 2 ^ 32 := by
    intro m hm p hu
    by_contra habove
    have hp := mem_usablePages.mpr ⟨m, hm, hu⟩
    have hmem : frame p ∈ frames zones := by
      rw [hframes]
      exact mem_map_of_mem hp
    have hq : frame p = p % 2 ^ 20 * pageSize := by
      unfold frame pageSize
      omega
    obtain ⟨m', hm', hl, hr⟩ := hs.available _ hmem
    rw [hq] at hl hr
    have hu' : Usable b m' (p % 2 ^ 20) := by
      refine ⟨⟨hl, ?_⟩, fun e he => ?_⟩
      · rw [hf.range hm']
        exact hr
      · have hoff := hs.unused _ hmem e (mem_inUse.mpr (.inl he))
        rw [hq] at hoff
        exact hoff
    have hsame : p % 2 ^ 20 = p := by
      refine inj_on_of_nodup_map honce (mem_usablePages.mpr ⟨m', hm', hu'⟩) hp ?_
      rw [hq]
      unfold frame pageSize
      omega
    unfold pageSize at habove
    omega
  refine ⟨hstart, hbelow, nodup_usablePages.mp (List.Nodup.of_map frame honce), fun r hr m hm p hu => ?_⟩
  have hmem : p * pageSize ∈ frames zones := by
    rw [hframes, ← frame_eq (hbelow m hm p hu)]
    exact mem_map_of_mem (mem_usablePages.mpr ⟨m, hm, hu⟩)
  exact hs.unused _ hmem r.range (mem_inUse.mpr (.inr ⟨r, hr, rfl⟩))

/-- The zones are sound when the usable pages are clear, and, where the arrays lose nothing,
only then. -/
theorem buddyInit_sound {malloc : Nat → Nat → Bool} {b : Boot} {zones : List Zone}
    (h : buddyInit malloc b = some zones) : (Clear b → Sound b zones) ∧ (Fits b → Sound b zones → Clear b) :=
  ⟨fun hc => hc.sound h, fun hf hs => hs.clear hf h⟩

/-! ## A region above 4 GiB -/

/-- A machine with four pages of memory from `addr` on, no modules, and the kernel at 2 MiB. -/
def smallMachine (addr : UInt64) : Boot where
  mmap := [⟨addr, 0x4000, multibootMemoryAvailable⟩]
  mods := []
  kernelPhysStart := 0x200000
  kernelPhysEnd := 0x280000
  fbPhysBase := 0xE0000000
  fbLength := 0x300000

/-- Memory at 4 GiB is handed out as if it were at address 0. -/
theorem not_always_sound : ¬∀ malloc b zones, buddyInit malloc b = some zones → Sound b zones := by
  intro h
  have hrun : (buddyInit (fun _ _ => true) (smallMachine 0x100000000)).map frames =
      some [0, 0x1000, 0x2000, 0x3000] := by decide +kernel
  obtain ⟨zones, hzones, hframes⟩ := Option.map_eq_some_iff.mp hrun
  have hsound := h _ _ zones hzones
  have hzero : 0 ∈ frames zones := by
    rw [hframes]
    exact List.mem_cons_self
  have hlow := hsound.unused 0 hzero ⟨0, minManagedPhys⟩ List.mem_cons_self
  exact absurd hlow (by decide)

/-- Memory at 3 MiB is handed out as it is. -/
theorem buddyInit_sound_small : ∃ zones, frames zones = [0x300000, 0x301000, 0x302000, 0x303000] ∧
    Sound (smallMachine 0x300000) zones := by
  have hrun : (buddyInit (fun _ _ => true) (smallMachine 0x300000)).map frames =
      some [0x300000, 0x301000, 0x302000, 0x303000] := by decide +kernel
  obtain ⟨zones, hzones, hframes⟩ := Option.map_eq_some_iff.mp hrun
  have hregion : ∀ m ∈ regions (smallMachine 0x300000), m.range = ⟨0x300000, 0x304000⟩ := by
    intro m hm
    rw [List.mem_singleton.mp (show m ∈ [(⟨0x300000, 0x4000, multibootMemoryAvailable⟩ : MmapEntry)] from hm)]
    rfl
  have hclear : Clear (smallMachine 0x300000) := by
    refine ⟨fun m hm _ => ?_, fun m hm p hp => ?_, List.pairwise_singleton _ _, fun r hr => ?_⟩
    · rw [hregion m hm]
      decide
    · have hinside := hp.1
      rw [hregion m hm] at hinside
      exact Nat.le_trans hinside.2 (by decide)
    · exact absurd hr List.not_mem_nil
  exact ⟨zones, hframes, (buddyInit_sound hzones).1 hclear⟩

end Serotonin.Buddy
