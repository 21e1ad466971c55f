import Serotonin.Layers.Placing
import Mathlib.Logic.Equiv.Basic

/-! What the compositor reads. A layer that is active is read through a record that agrees with the
state of the layer, and the pages of its buffer are mapped where the state says. -/

namespace Serotonin.Layers

open Function
open ByteMem (u32 u32_of_lt u32_lt)
open Vbe (Mode u16 sub16 numZLayers)
open Vbe.Screen (zValid)

variable {m : Mode} {s s' : State} {st st' : LayerState} {z z' : Nat}

/-! ## The map -/

theorem pageOff_of_inside {va n p : Nat} (hn : va / 4096 + n ≤ 2 ^ 20) (hle : va / 4096 ≤ p) (hlt : p < va / 4096 + n) :
    pageOff va p = p - va / 4096 := by
  unfold pageOff pageSize
  omega

/-- A page outside is not one of the `n`. -/
theorem le_pageOff {va n p : Nat} (hn : va / 4096 + n ≤ 2 ^ 20) (hp : p < 2 ^ 20)
    (h : p < va / 4096 ∨ va / 4096 + n ≤ p) : n ≤ pageOff va p := by
  unfold pageOff pageSize
  omega

/-- The compositor's record of the layer says what the state does. -/
structure ZLayer.Shows (l : ZLayer) (st : LayerState) : Prop where
  width : l.width = st.cfg.x1.toNat - st.cfg.x0.toNat
  height : l.height = st.cfg.y1.toNat - st.cfg.y0.toNat
  x0 : l.x0 = st.cfg.x0.toNat
  y0 : l.y0 = st.cfg.y0.toNat
  pitch : l.pitch = st.cfg.stride.toNat
  bufptr : l.bufptr = st.fbPrivVa

namespace State

theorem setPages_layers (f : Nat → Option (Nat × Nat)) : (s.setPages f).layers = s.layers := rfl

theorem setPages_zLayers (f : Nat → Option (Nat × Nat)) : (s.setPages f).zLayers = s.zLayers := rfl

theorem mapPrivShared_pages {va : Nat} {shm : Shm} (hn : va / 4096 + shm.npages ≤ 2 ^ 20) {i : Nat} (hi : i < shm.npages) :
    (s.mapPrivShared va shm).pages (va / 4096 + i) = some (shm.id, i) := by
  have hoff : pageOff va (va / 4096 + i) = i := by
    rw [pageOff_of_inside hn (by omega) (by omega)]
    omega
  show (if _ then _ else _) = _
  rw [hoff, if_pos hi]

theorem mapPrivShared_other {va : Nat} {shm : Shm} (hn : va / 4096 + shm.npages ≤ 2 ^ 20) {p : Nat} (hp : p < 2 ^ 20)
    (h : p < va / 4096 ∨ va / 4096 + shm.npages ≤ p) : (s.mapPrivShared va shm).pages p = s.pages p :=
  if_neg (Nat.not_lt.mpr (le_pageOff hn hp h))

theorem unmapPrivShared_other {va n : Nat} (hn : va / 4096 + n ≤ 2 ^ 20) {p : Nat} (hp : p < 2 ^ 20)
    (h : p < va / 4096 ∨ va / 4096 + n ≤ p) : (s.unmapPrivShared va n).pages p = s.pages p :=
  if_neg (Nat.not_lt.mpr (le_pageOff hn hp h))

/-- The buffer of the layer is mapped at its address. -/
def Holds (s : State) (st : LayerState) : Prop :=
  ∀ i, i < st.fbShm.npages → s.pages (st.fbPrivVa / 4096 + i) = some (st.fbShm.id, i)

/-- The states of the layers, and where their memory is mapped. -/
structure Mapped (m : Mode) (s : State) : Prop where
  valid : ∀ z st, s.layers z = some st → zValid z = true
  good : ∀ z st, s.layers z = some st → st.Good m
  apart : ∀ z z' st st', s.layers z = some st → s.layers z' = some st' → z ≠ z' → st.Apart st'
  holds : ∀ z st, s.layers z = some st → s.Holds st

/-- A layer state that is not yet in use. -/
structure Spare (m : Mode) (s : State) (z : Nat) (st : LayerState) : Prop where
  good : st.Good m
  apart : ∀ z' st', s.layers z' = some st' → z' ≠ z → st.Apart st'
  holds : s.Holds st

/-- If the layer is active, it shows what the state says. -/
def Attached (s : State) (z : Nat) : Prop :=
  (s.zLayers z).active = true → ∃ st, s.layers z = some st ∧ (s.zLayers z).Shows st

structure Inv (m : Mode) (s : State) : Prop where
  mapped : s.Mapped m
  attached : ∀ z, s.Attached z

/-! ## The parts of the calls -/

theorem setLayer_self {o : Option LayerState} : (s.setLayer z o).layers z = o := update_self ..

theorem setLayer_of_ne (h : z' ≠ z) (o : Option LayerState) : (s.setLayer z o).layers z' = s.layers z' :=
  update_of_ne h ..

theorem setZLayer_self (l : ZLayer) : (s.setZLayer z l).zLayers z = l := update_self ..

theorem Mapped.congr (h : s.Mapped m) (hl : s'.layers = s.layers) (hp : s'.pages = s.pages) : s'.Mapped m where
  valid := by rw [hl]; exact h.valid
  good := by rw [hl]; exact h.good
  apart := by rw [hl]; exact h.apart
  holds z st hst i hi := by rw [hp]; exact h.holds z st (hl ▸ hst) i hi

theorem Spare.congr (h : s.Spare m z st) (hl : s'.layers = s.layers) (hp : s'.pages = s.pages) : s'.Spare m z st where
  good := h.good
  apart := by rw [hl]; exact h.apart
  holds i hi := by rw [hp]; exact h.holds i hi

theorem Attached.congr (h : s.Attached z) (hz : s'.zLayers z = s.zLayers z) (hl : s'.layers z = s.layers z) :
    s'.Attached z := by
  intro hactive
  rw [hz] at hactive
  obtain ⟨st, hst, hshows⟩ := h hactive
  exact ⟨st, by rw [hl, hst], by rw [hz]; exact hshows⟩

@[simp] theorem vbeLayerDetach_layers : (s.vbeLayerDetach m z).layers = s.layers := by
  unfold vbeLayerDetach
  split <;> rfl

@[simp] theorem vbeLayerDetach_pages : (s.vbeLayerDetach m z).pages = s.pages := by
  unfold vbeLayerDetach
  split <;> rfl

theorem vbeLayerDetach_other (h : z' ≠ z) : (s.vbeLayerDetach m z).zLayers z' = s.zLayers z' := by
  unfold vbeLayerDetach
  split
  · rfl
  · exact update_of_ne h ..

theorem vbeLayerDetach_inactive (hz : zValid z = true) : ((s.vbeLayerDetach m z).zLayers z).active = false := by
  unfold vbeLayerDetach
  rw [if_neg (by rw [hz]; nofun)]
  show ((s.setZLayer z _).zLayers z).active = false
  rw [setZLayer_self]

@[simp] theorem vbeLayerAttach_layers {buf : Nat} {c : Config} : (s.vbeLayerAttach z buf c).layers = s.layers := by
  unfold vbeLayerAttach
  split <;> rfl

@[simp] theorem vbeLayerAttach_pages {buf : Nat} {c : Config} : (s.vbeLayerAttach z buf c).pages = s.pages := by
  unfold vbeLayerAttach
  split <;> rfl

theorem vbeLayerAttach_other {buf : Nat} {c : Config} (h : z' ≠ z) :
    (s.vbeLayerAttach z buf c).zLayers z' = s.zLayers z' := by
  unfold vbeLayerAttach
  split
  · rfl
  · exact update_of_ne h ..

theorem sub16_of_le {a b : Nat} (hb : b ≤ a) (ha : a < 2 ^ 16) : sub16 a b = a - b := by
  unfold sub16
  omega

theorem vbeLayerAttach_attached (hst : s.layers z = some st) (hg : st.Good m) (hz : zValid z = true) :
    (s.vbeLayerAttach z st.fbPrivVa st.cfg).Attached z := by
  intro _
  refine ⟨st, by rw [vbeLayerAttach_layers, hst], ?_⟩
  have hx := st.cfg.x1.toNat_lt
  have hy := st.cfg.y1.toNat_lt
  have hcols := hg.valid.columns
  have hrows := hg.valid.rows
  unfold vbeLayerAttach
  rw [if_neg (by rw [hz]; nofun)]
  show ((State.setZLayer _ z _).zLayers z).Shows st
  rw [setZLayer_self]
  exact ⟨sub16_of_le (by omega) hx, sub16_of_le (by omega) hy, rfl, rfl, rfl, rfl⟩

theorem Attached.of_inactive (h : (s.zLayers z).active = false) : s.Attached z := fun ha => by
  rw [h] at ha
  cases ha

/-! ## Memory given and taken -/

/-- A page of a layer is no page of one that is apart. -/
theorem page_outside (hg : st.Good m) (hg' : st'.Good m) (h : st.Apart st') {i : Nat} (hi : i < st'.fbShm.npages) :
    st'.fbPrivVa / 4096 + i < 2 ^ 20 ∧ (st'.fbPrivVa / 4096 + i < st.fbPrivVa / 4096 ∨
      st.fbPrivVa / 4096 + (st.fbShm.npages + 1) ≤ st'.fbPrivVa / 4096 + i) := by
  have ha := hg.aligned
  have ha' := hg'.aligned
  have hr := hg.region
  have hr' := hg'.region
  have hb' := hg'.below
  simp only [layerPrivEnd, kernelStackVma] at hb'
  unfold LayerState.Apart at h
  omega

/-- The pages of a layer are in range. -/
theorem pages_in_range (hg : st.Good m) : st.fbPrivVa / 4096 + st.fbShm.npages + 1 ≤ 2 ^ 20 ∧
    st.metaPrivVa / 4096 = st.fbPrivVa / 4096 + st.fbShm.npages := by
  have ha := hg.aligned
  have hr := hg.region
  have hb := hg.below
  have hm := hg.metaPrivVa
  simp only [layerPrivEnd, kernelStackVma] at hb
  omega

theorem unmapPrivShared_layers {va n : Nat} : (s.unmapPrivShared va n).layers = s.layers := setPages_layers _

theorem unmapPrivShared_zLayers {va n : Nat} : (s.unmapPrivShared va n).zLayers = s.zLayers := setPages_zLayers _

theorem layerReleaseState_eq (hst : s.layers z = some st) : s.layerReleaseState z =
    ((s.unmapPrivShared st.fbPrivVa st.fbShm.npages).unmapPrivShared st.metaPrivVa st.metaShm.npages).setLayer z none := by
  unfold layerReleaseState
  rw [hst]

theorem setLayer_layers (o : Option LayerState) : (s.setLayer z o).layers = update s.layers z o := rfl

theorem setLayer_zLayers (o : Option LayerState) : (s.setLayer z o).zLayers = s.zLayers := rfl

theorem setLayer_pages (o : Option LayerState) : (s.setLayer z o).pages = s.pages := rfl

theorem layerReleaseState_layers (hst : s.layers z = some st) :
    (s.layerReleaseState z).layers = update s.layers z none := by
  rw [layerReleaseState_eq hst, setLayer_layers, unmapPrivShared_layers, unmapPrivShared_layers]

theorem layerReleaseState_zLayers (hst : s.layers z = some st) : (s.layerReleaseState z).zLayers = s.zLayers := by
  rw [layerReleaseState_eq hst, setLayer_zLayers, unmapPrivShared_zLayers, unmapPrivShared_zLayers]

/-- Only the layer's own pages are unmapped. -/
theorem layerReleaseState_holds (hst : s.layers z = some st) (hg : st.Good m) (hg' : st'.Good m) (h : st.Apart st')
    (hholds : s.Holds st') : (s.layerReleaseState z).Holds st' := by
  intro i hi
  obtain ⟨hp, hout⟩ := page_outside hg hg' h hi
  obtain ⟨hrange, hmeta⟩ := pages_in_range hg
  have hone := hg.metaPages
  rw [layerReleaseState_eq hst, setLayer_pages, unmapPrivShared_other (by omega) hp (by omega), unmapPrivShared_other (by omega) hp (by omega)]
  exact hholds i hi

theorem Mapped.release (h : s.Mapped m) (hst : s.layers z = some st) : (s.layerReleaseState z).Mapped m := by
  have hl := layerReleaseState_layers hst
  have hkeep : ∀ z' st', (s.layerReleaseState z).layers z' = some st' → z' ≠ z ∧ s.layers z' = some st' := by
    intro z' st' h'
    rw [hl] at h'
    by_cases hz : z' = z
    · rw [hz, update_self] at h'
      cases h'
    · exact ⟨hz, by rwa [update_of_ne hz] at h'⟩
  constructor
  · intro z' st' h'
    exact h.valid z' st' (hkeep z' st' h').2
  · intro z' st' h'
    exact h.good z' st' (hkeep z' st' h').2
  · intro z1 z2 st1 st2 h1 h2
    exact h.apart z1 z2 st1 st2 (hkeep z1 st1 h1).2 (hkeep z2 st2 h2).2
  · intro z' st' h'
    obtain ⟨hz, hst'⟩ := hkeep z' st' h'
    exact layerReleaseState_holds hst (h.good z st hst) (h.good z' st' hst') (h.apart z z' st st' hst hst' hz.symm)
      (h.holds z' st' hst')

theorem Spare.release (hsp : s.Spare m z st') (h : s.Mapped m) (hst : s.layers z = some st) (ha : st.Apart st') :
    (s.layerReleaseState z).Spare m z st' where
  good := hsp.good
  apart z' st1 h1 hz := by
    rw [layerReleaseState_layers hst, update_of_ne hz] at h1
    exact hsp.apart z' st1 h1 hz
  holds := layerReleaseState_holds hst (h.good z st hst) hsp.good ha hsp.holds

/-- A spare state can take the place of what the layer had. -/
theorem Mapped.install (h : s.Mapped m) (hz : zValid z = true) (hsp : s.Spare m z st) :
    (s.setLayer z (some st)).Mapped m := by
  have hcases : ∀ z' st', (s.setLayer z (some st)).layers z' = some st' →
      z' = z ∧ st' = st ∨ z' ≠ z ∧ s.layers z' = some st' := by
    intro z' st' h'
    by_cases hz' : z' = z
    · rw [hz', setLayer_self] at h'
      exact .inl ⟨hz', (Option.some.inj h').symm⟩
    · rw [setLayer_of_ne hz'] at h'
      exact .inr ⟨hz', h'⟩
  constructor
  · intro z' st' h'
    obtain ⟨rfl, -⟩ | ⟨-, h'⟩ := hcases z' st' h'
    · exact hz
    · exact h.valid z' st' h'
  · intro z' st' h'
    obtain ⟨-, rfl⟩ | ⟨-, h'⟩ := hcases z' st' h'
    · exact hsp.good
    · exact h.good z' st' h'
  · intro z1 z2 st1 st2 h1 h2 hne
    obtain ⟨hz1, hst1⟩ | ⟨hz1, h1⟩ := hcases z1 st1 h1
    · obtain ⟨hz2, -⟩ | ⟨hz2, h2⟩ := hcases z2 st2 h2
      · exact absurd (hz1.trans hz2.symm) hne
      · rw [hst1]
        exact hsp.apart z2 st2 h2 hz2
    · obtain ⟨-, hst2⟩ | ⟨hz2, h2⟩ := hcases z2 st2 h2
      · rw [hst2]
        exact (hsp.apart z1 st1 h1 hz1).symm
      · exact h.apart z1 z2 st1 st2 h1 h2 hne
  · intro z' st' h'
    obtain ⟨-, rfl⟩ | ⟨-, h'⟩ := hcases z' st' h'
    · exact hsp.holds
    · exact h.holds z' st' h'

/-! ## A new layer -/

theorem mem_allocated (h : s.Mapped m) (hst : s.layers z = some st) : st ∈ s.allocated := by
  have hz := h.valid z st hst
  unfold zValid at hz
  rw [Bool.and_eq_true, decide_eq_true_eq, decide_eq_true_eq] at hz
  exact List.mem_filterMap.mpr ⟨z, List.mem_range.mpr hz.2, hst⟩

theorem Mapped.good_of_mem_allocated (h : s.Mapped m) (hst : st ∈ s.allocated) : st.Good m := by
  obtain ⟨z, -, hz⟩ := List.mem_filterMap.mp hst
  exact h.good z st hz

/-- Where there is room, no sum wraps around and what is found is free. -/
theorem Mapped.privSearch_spec (h : s.Mapped m) {size : Nat} (hroom : s.Room m size) :
    Found s.allocated size (s.privSearch m size) := by
  unfold State.privSearch
  rw [alignUp_layerPrivBase]
  exact privSearch_found (fun _ => h.good_of_mem_allocated) _ _ (layerPrivBase_mod m) hroom.1 hroom.2

theorem layerPrivFindFree_spec (h : s.Mapped m) {size : Nat} (hroom : s.Room m size) {va : Nat}
    (hva : s.layerPrivFindFree m size = va) (hnull : va ≠ 0) :
    va % 4096 = 0 ∧ va + size ≤ layerPrivEnd ∧
      ∀ z st, s.layers z = some st → va + size ≤ st.fbPrivVa ∨ st.fbPrivVa + st.privRegionSize ≤ va := by
  have hfree := (h.privSearch_spec hroom).free
  have hva' : (s.privSearch m size).2 = va := hva
  rw [hva'] at hfree
  obtain ⟨hal, hbelow, hfree⟩ := hfree.resolve_left hnull
  refine ⟨hal, hbelow, fun z st hst => ?_⟩
  have hor := hfree st (mem_allocated h hst)
  rw [(h.good z st hst).stop] at hor
  exact hor.symm

/-- The state of a new layer where there is room for it. -/
theorem newLayer_good {c : Config} (hc : c.Valid m) {va : Nat} (hal : va % 4096 = 0) (hbelow : va + c.regionSize ≤ layerPrivEnd)
    (pid : Pid) : (s.newLayer pid c va).Good m := by
  have hsize := c.regionSize_eq
  have hend : va + c.regionSize ≤ 0xF0000000 := hbelow
  have hpages : c.fbAlloc / 4096 = c.fbPages := by rw [c.fbAlloc_eq, Nat.mul_div_cancel _ (by decide)]
  have hmeta : u32 (va + c.fbAlloc) = va + c.fbPages * 4096 := by rw [c.fbAlloc_eq, u32_of_lt (by omega)]
  have hregion : c.regionSize = c.fbAlloc / 4096 * 4096 + 4096 := by rw [hsize, hpages]
  have hva : u32 (va + c.fbAlloc) = va + c.fbAlloc / 4096 * 4096 := by rw [hmeta, hpages]
  exact ⟨hc, c.fbSize_eq, hpages, rfl, hva, hregion, hal, hbelow⟩

theorem mapLayer_holds (hg : st.Good m) : (s.mapLayer st).Holds st := by
  intro i hi
  obtain ⟨hrange, hmeta⟩ := pages_in_range hg
  have hone := hg.metaPages
  unfold mapLayer
  rw [mapPrivShared_other (by omega) (by omega) (by omega)]
  exact mapPrivShared_pages (by omega) hi

/-- What is mapped elsewhere stays. -/
theorem mapLayer_keeps (hg : st.Good m) (hg' : st'.Good m) (h : st.Apart st') (hholds : s.Holds st') :
    (s.mapLayer st).Holds st' := by
  intro i hi
  obtain ⟨hp, hout⟩ := page_outside hg hg' h hi
  obtain ⟨hrange, hmeta⟩ := pages_in_range hg
  have hone := hg.metaPages
  unfold mapLayer
  rw [mapPrivShared_other (by omega) hp (by omega), mapPrivShared_other (by omega) hp (by omega)]
  exact hholds i hi

theorem mapLayer_layers : (s.mapLayer st).layers = s.layers := (setPages_layers _).trans (setPages_layers _)

theorem mapLayer_zLayers : (s.mapLayer st).zLayers = s.zLayers := (setPages_zLayers _).trans (setPages_zLayers _)

/-- What `layer_prepare_state` returns. -/
structure Prepared (m : Mode) (s s' : State) (st : LayerState) : Prop where
  layers : s'.layers = s.layers
  zLayers : s'.zLayers = s.zLayers
  good : st.Good m
  mapped : s'.Mapped m
  apart : ∀ z' st', s.layers z' = some st' → st.Apart st'
  holds : s'.Holds st

theorem layerPrepareState_prepared (h : s.Mapped m) {c : Config} (hc : c.Valid m) (hroom : s.Room m c.regionSize)
    {pid : Pid} {memory : Bool} (hp : s.layerPrepareState m pid c memory = .ok (st, s')) : s.Prepared m s' st := by
  unfold layerPrepareState at hp
  simp only at hp
  generalize hva : s.layerPrivFindFree m c.regionSize = va at hp
  split at hp
  · cases hp
  next hok =>
  rw [not_or] at hok
  obtain ⟨hal, hbelow, hfree⟩ := layerPrivFindFree_spec h hroom hva hok.1
  obtain ⟨rfl, rfl⟩ := Prod.mk.inj (Except.ok.inj hp)
  have hg : (s.newLayer pid c va).Good m := newLayer_good hc hal hbelow pid
  have hkeep : ∀ z' st', s.layers z' = some st' → (s.mapLayer (s.newLayer pid c va)).Holds st' := fun z' st' hst' =>
    mapLayer_keeps hg (h.good z' st' hst') (hfree z' st' hst') (h.holds z' st' hst')
  have hl : (s.mapLayer (s.newLayer pid c va)).layers = s.layers := mapLayer_layers
  refine ⟨hl, mapLayer_zLayers, hg, ⟨?_, ?_, ?_, ?_⟩, hfree, mapLayer_holds hg⟩
  · rw [hl]
    exact h.valid
  · rw [hl]
    exact h.good
  · rw [hl]
    exact h.apart
  · rw [hl]
    exact hkeep

/-! ## The calls -/

theorem Prepared.spare (h : s.Prepared m s' st) (z : Nat) : s'.Spare m z st where
  good := h.good
  apart z' st' hst' _ := h.apart z' st' (h.layers ▸ hst')
  holds := h.holds

/-- A layer that is not active can be given a new state and be attached. -/
theorem Inv.install (h : s.Inv m) (hz : zValid z = true) (hsp : s.Spare m z st) :
    ((s.setLayer z (some st)).vbeLayerAttach z st.fbPrivVa st.cfg).Inv m := by
  refine ⟨(h.mapped.install hz hsp).congr vbeLayerAttach_layers vbeLayerAttach_pages, fun z' => ?_⟩
  by_cases hz' : z' = z
  · rw [hz']
    exact vbeLayerAttach_attached setLayer_self hsp.good hz
  · refine (h.attached z').congr (vbeLayerAttach_other hz') ?_
    rw [vbeLayerAttach_layers, setLayer_of_ne hz']

theorem Inv.detach (h : s.Inv m) (hz : zValid z = true) : (s.vbeLayerDetach m z).Inv m := by
  refine ⟨h.mapped.congr vbeLayerDetach_layers vbeLayerDetach_pages, fun z' => ?_⟩
  by_cases hz' : z' = z
  · rw [hz']
    exact .of_inactive (vbeLayerDetach_inactive hz)
  · exact (h.attached z').congr (vbeLayerDetach_other hz') (by rw [vbeLayerDetach_layers])

theorem Inv.release (h : s.Inv m) (hst : s.layers z = some st) (hinactive : (s.zLayers z).active = false) :
    (s.layerReleaseState z).Inv m := by
  refine ⟨h.mapped.release hst, fun z' => ?_⟩
  by_cases hz' : z' = z
  · rw [hz']
    exact .of_inactive (by rw [layerReleaseState_zLayers hst]; exact hinactive)
  · refine (h.attached z').congr (by rw [layerReleaseState_zLayers hst]) ?_
    rw [layerReleaseState_layers hst, update_of_ne hz']

/-- Off the screen, and its memory given back. -/
theorem Inv.takeDown (h : s.Inv m) (hst : s.layers z = some st) : ((s.vbeLayerDetach m z).layerReleaseState z).Inv m := by
  have hz := h.mapped.valid z st hst
  exact (h.detach hz).release (by rw [vbeLayerDetach_layers, hst]) (vbeLayerDetach_inactive hz)

theorem Inv.prepared (h : s.Inv m) (hp : s.Prepared m s' st) : s'.Inv m where
  mapped := hp.mapped
  attached z := (h.attached z).congr (by rw [hp.zLayers]) (by rw [hp.layers])

theorem zValid_of_not_badId {id : Nat} {p : Prop} (h : ¬(badId id = true ∨ p)) : zValid id = true := by
  rw [not_or, Bool.not_eq_true] at h
  obtain ⟨h, -⟩ := h
  unfold badId at h
  unfold zValid
  rw [Bool.or_eq_false_iff, beq_eq_false_iff_ne, decide_eq_false_iff_not] at h
  rw [Bool.and_eq_true, decide_eq_true_eq, decide_eq_true_eq]
  omega

theorem Inv.sysReqBuf (h : s.Inv m) {pid : Pid} {id : UInt16} {args memory copied : Bool} {cfg : Option Config}
    (hfits : Fits m s (.reqBuf pid id args cfg memory copied)) :
    (s.sysReqBuf m pid id.toNat args cfg memory copied).1.Inv m := by
  unfold State.sysReqBuf
  split
  · exact h
  next hid =>
  have hz := zValid_of_not_badId hid
  split
  · split
    · exact h
    · split <;> exact h
  next hnone =>
  split
  · exact h
  next c =>
  split
  · exact h
  next hvalid =>
  rw [Bool.not_eq_false] at hvalid
  have hroom : s.Room m c.regionSize := by
    refine hfits c ?_
    simp only [prepares]
    rw [hnone, if_neg (by rw [← or_assoc]; exact not_or.mpr ⟨hid, nofun⟩)]
    exact Option.filter_eq_some_iff.mpr ⟨rfl, hvalid⟩
  split
  · exact h
  next st s' hp =>
  have hprep := layerPrepareState_prepared h.mapped (.of_eq_true hvalid) hroom hp
  have hinv := (h.prepared hprep).install hz (hprep.spare id.toNat)
  simp only
  split
  · exact hinv.takeDown (by rw [vbeLayerAttach_layers, setLayer_self])
  · exact hinv

theorem Inv.sysRelBuf (h : s.Inv m) (pid : Pid) (id : Nat) : (s.sysRelBuf m pid id).1.Inv m := by
  unfold State.sysRelBuf
  split
  · exact h
  · split
    · exact h
    next st hst =>
    split
    · exact h
    · exact h.takeDown hst

/-- A configuration with the same sizes has the same buffer. -/
theorem spare_of_same_size (h : s.Mapped m) (hst : s.layers z = some st) {c : Config} (hc : c.Valid m)
    (hsame : needsRealloc st.cfg c = false) : s.Spare m z { st with cfg := c } := by
  have hg := h.good z st hst
  have hrows := hg.valid.rows
  have hrows' := hc.rows
  unfold needsRealloc at hsame
  rw [decide_eq_false_iff_not, not_or, not_or, not_not, not_not, not_not] at hsame
  obtain ⟨-, hheight, hstride⟩ := hsame
  rw [sub16_of_le (by omega) c.y1.toNat_lt, sub16_of_le (by omega) st.cfg.y1.toNat_lt] at hheight
  have hsize : st.cfg.stride.toNat * (st.cfg.y1.toNat - st.cfg.y0.toNat) = c.stride.toNat * (c.y1.toNat - c.y0.toNat) := by
    rw [hheight, hstride]
  refine ⟨⟨hc, hg.fbSize.trans hsize, ?_, hg.metaPages, hg.metaPrivVa, hg.region, hg.aligned, hg.below⟩,
    fun z' st' hst' hz' => h.apart z z' st st' hst hst' hz'.symm, h.holds z st hst⟩
  have hpages := hg.npages
  unfold Config.fbPages at hpages ⊢
  rwa [hsize] at hpages

theorem Inv.sysRcfgLayer (h : s.Inv m) {pid : Pid} {id : UInt16} {args memory copied : Bool} {cfg : Option Config}
    (hfits : Fits m s (.rcfgLayer pid id args cfg memory copied)) :
    (s.sysRcfgLayer m pid id.toNat args cfg memory copied).1.Inv m := by
  unfold State.sysRcfgLayer
  split
  · exact h
  next hid =>
  have hz := zValid_of_not_badId hid
  split
  · exact h
  next old hold =>
  split
  · exact h
  next howner =>
  split
  · exact h
  next c =>
  split
  · exact h
  next hvalid =>
  rw [Bool.not_eq_false] at hvalid
  split
  · next hrealloc =>
    have hroom : s.Room m c.regionSize := by
      refine hfits c ?_
      simp only [prepares]
      rw [if_neg hid, hold]
      simp only
      rw [if_neg howner]
      exact Option.filter_eq_some_iff.mpr ⟨Option.filter_eq_some_iff.mpr ⟨rfl, hvalid⟩, hrealloc⟩
    split
    · exact h
    next st s' hp =>
    have hprep := layerPrepareState_prepared h.mapped (.of_eq_true hvalid) hroom hp
    have hinv := h.prepared hprep
    have hold' : (s'.vbeLayerDetach m id.toNat).layers id.toNat = some old := by
      rw [vbeLayerDetach_layers, hprep.layers, hold]
    have hdetached := hinv.detach hz
    have hsp : (s'.vbeLayerDetach m id.toNat).Spare m id.toNat st :=
      (hprep.spare id.toNat).congr vbeLayerDetach_layers vbeLayerDetach_pages
    exact (hdetached.release hold' (vbeLayerDetach_inactive hz)).install hz
      (hsp.release hdetached.mapped hold' (hprep.apart _ _ hold).symm)
  · next hsame =>
    rw [Bool.not_eq_true] at hsame
    exact h.install hz (spare_of_same_size h.mapped hold (.of_eq_true hvalid) hsame)

/-! ### Two layers change places -/

theorem zValid_of_wmLayer (h : wmLayer z = true) : zValid z = true := by
  unfold wmLayer wmAppLayerFirst wmAppLayerLast at h
  unfold zValid numZLayers
  rw [decide_eq_true_eq] at h
  rw [Bool.and_eq_true, decide_eq_true_eq, decide_eq_true_eq]
  omega

/-- The same layers under other numbers. -/
theorem Mapped.renumber (h : s.Mapped m) (σ : Equiv.Perm Nat) (hl : ∀ z, s'.layers z = s.layers (σ z))
    (hp : s'.pages = s.pages) (hv : ∀ z st, s'.layers z = some st → zValid z = true) : s'.Mapped m where
  valid := hv
  good z st hst := h.good (σ z) st (hl z ▸ hst)
  apart z z' st st' hst hst' hne := h.apart (σ z) (σ z') st st' (hl z ▸ hst) (hl z' ▸ hst') (σ.injective.ne hne)
  holds z st hst i hi := by
    rw [hp]
    exact h.holds (σ z) st (hl z ▸ hst) i hi

theorem setLayer_swap {sa sb : LayerState} (ha : s.layers z = some sa) (hb : s.layers z' = some sb)
    (y : Nat) : ((s.setLayer z (some sb)).setLayer z' (some sa)).layers y = s.layers (Equiv.swap z z' y) := by
  by_cases hy' : y = z'
  · rw [hy', setLayer_self, Equiv.swap_apply_right, ha]
  · rw [setLayer_of_ne hy']
    by_cases hy : y = z
    · rw [hy, setLayer_self, Equiv.swap_apply_left, hb]
    · rw [setLayer_of_ne hy, Equiv.swap_apply_of_ne_of_ne hy hy']

theorem Inv.sysSwapLayers (h : s.Inv m) (isWm : Bool) (za zb : Nat) : (s.sysSwapLayers m isWm za zb).1.Inv m := by
  unfold State.sysSwapLayers
  split
  · exact h
  split
  · exact h
  next hwm =>
  rw [not_or, not_or, Bool.not_eq_false, Bool.not_eq_false] at hwm
  obtain ⟨hwa, hwb, hne⟩ := hwm
  have hza := zValid_of_wmLayer hwa
  have hzb := zValid_of_wmLayer hwb
  split
  · next sa sb hsa hsb =>
    simp only
    have hdet := (h.detach hza).detach hzb
    have hdetl : ((s.vbeLayerDetach m za).vbeLayerDetach m zb).layers = s.layers := by simp
    generalize (s.vbeLayerDetach m za).vbeLayerDetach m zb = t at hdet hdetl
    rw [← hdetl] at hsa hsb
    have hswap := setLayer_swap hsa hsb
    have hmapped : ((t.setLayer za (some sb)).setLayer zb (some sa)).Mapped m := by
      refine hdet.mapped.renumber (Equiv.swap za zb) hswap rfl fun z st hst => ?_
      by_cases hb : z = zb
      · rw [hb, hzb]
      by_cases ha : z = za
      · rw [ha, hza]
      rw [setLayer_of_ne hb, setLayer_of_ne ha] at hst
      exact hdet.mapped.valid z st hst
    refine ⟨hmapped.congr (by simp) (by simp), fun z => ?_⟩
    have hga := hdet.mapped.good za sa hsa
    have hgb := hdet.mapped.good zb sb hsb
    by_cases hb : z = zb
    · rw [hb]
      refine vbeLayerAttach_attached ?_ hga hzb
      rw [vbeLayerAttach_layers, setLayer_self]
    by_cases ha : z = za
    · have hatt : (((t.setLayer za (some sb)).setLayer zb (some sa)).vbeLayerAttach za sb.fbPrivVa sb.cfg).Attached za := by
        refine vbeLayerAttach_attached ?_ hgb hza
        rw [setLayer_of_ne hne, setLayer_self]
      rw [ha]
      exact hatt.congr (vbeLayerAttach_other hne) (by rw [vbeLayerAttach_layers])
    · refine (hdet.attached z).congr ?_ ?_
      · rw [vbeLayerAttach_other hb, vbeLayerAttach_other ha]
        rfl
      · rw [vbeLayerAttach_layers, vbeLayerAttach_layers, setLayer_of_ne hb, setLayer_of_ne ha]
  · exact h

theorem Inv.cleanupLayers (h : s.Inv m) (pid : Pid) : (s.cleanupLayers m pid).Inv m := by
  unfold State.cleanupLayers
  generalize List.range' 1 (numZLayers - 1) = l
  induction l generalizing s with
  | nil => exact h
  | cons i l ih =>
    refine ih ?_
    unfold cleanupLayer
    split
    · exact h
    · next st hst =>
      split
      · exact h.takeDown hst
      · exact h

theorem Inv.start (h : Start m s) : s.Inv m where
  mapped :=
    { valid := fun z st hst => by rw [h.layers] at hst; cases hst
      good := fun z st hst => by rw [h.layers] at hst; cases hst
      apart := fun z z' st st' hst => by rw [h.layers] at hst; cases hst
      holds := fun z st hst => by rw [h.layers] at hst; cases hst }
  attached z := .of_inactive (h.inactive z)

theorem Inv.step (h : s.Inv m) {call : Call} (hfits : Fits m s call) : (step m s call).Inv m := by
  cases call with
  | reqBuf pid id args cfg memory copied => exact h.sysReqBuf hfits
  | relBuf pid id => exact h.sysRelBuf pid id.toNat
  | rcfgLayer pid id args cfg memory copied => exact h.sysRcfgLayer hfits
  | swapLayers isWm za zb => exact h.sysSwapLayers isWm za.toNat zb.toNat
  | exit pid => exact h.cleanupLayers pid

end State

/-! ## Reads -/

/-- Each pixel that is read is one of the layer's. -/
theorem ZLayer.mem_reads {l : ZLayer} {x0 y0 x1 y1 a : Nat} (hx : l.x0 + l.width < 2 ^ 16) (hy : l.y0 + l.height < 2 ^ 16)
    (ha : a ∈ l.reads x0 y0 x1 y1) :
    ∃ row col, row < l.height ∧ col < l.width ∧ a = u32 (l.bufptr + u32 (row * l.pitch) + col * 4) := by
  have hx1 : u16 (l.x0 + l.width) = l.x0 + l.width := Nat.mod_eq_of_lt hx
  have hy1 : u16 (l.y0 + l.height) = l.y0 + l.height := Nat.mod_eq_of_lt hy
  have hle : ∀ a b : Nat, a ≤ if a < b then b else a := fun a b => by split <;> omega
  have hge : ∀ a b : Nat, (if a < b then a else b) ≤ b := fun a b => by split <;> omega
  have hix0 := hle l.x0 x0
  have hiy0 := hle l.y0 y0
  have hix1 := hge x1 (l.x0 + l.width)
  have hiy1 := hge y1 (l.y0 + l.height)
  unfold ZLayer.reads at ha
  simp only [hx1, hy1] at ha
  generalize (if l.x0 < x0 then x0 else l.x0) = ix0 at *
  generalize (if l.y0 < y0 then y0 else l.y0) = iy0 at *
  generalize (if x1 < l.x0 + l.width then x1 else l.x0 + l.width) = ix1 at *
  generalize (if y1 < l.y0 + l.height then y1 else l.y0 + l.height) = iy1 at *
  split at ha
  · cases ha
  obtain ⟨row, hrow, ha⟩ := List.mem_flatMap.mp ha
  obtain ⟨col, hcol, rfl⟩ := List.mem_map.mp ha
  rw [List.mem_range] at hrow hcol
  exact ⟨_, _, by omega, by omega, rfl⟩

namespace State

/-- The four bytes of the pixel are bytes of the buffer of layer `z`, and they are mapped there. -/
def Inside (s : State) (z a : Nat) : Prop :=
  ∃ st, s.layers z = some st ∧ st.fbPrivVa ≤ a ∧ a + 4 ≤ st.fbPrivVa + st.fbSize ∧
    ∀ b, a ≤ b → b < a + 4 → (b - st.fbPrivVa) / pageSize < st.fbShm.npages ∧
      s.pages (b / pageSize) = some (st.fbShm.id, (b - st.fbPrivVa) / pageSize)

/-- The bytes of the buffer are mapped one after the other. -/
theorem Mapped.inside (h : s.Mapped m) (hst : s.layers z = some st) {off : Nat} (hoff : off + 4 ≤ st.fbSize) :
    s.Inside z (st.fbPrivVa + off) := by
  have hg := h.good z st hst
  have ha := hg.aligned
  have hn := hg.npages
  have hsize := hg.fbSize
  refine ⟨st, hst, by omega, by omega, fun b hle hlt => ?_⟩
  have hi : (b - st.fbPrivVa) / 4096 < st.fbShm.npages := by
    rw [hn]
    unfold Config.fbPages
    rw [← hsize]
    omega
  refine ⟨hi, ?_⟩
  have hpage : b / 4096 = st.fbPrivVa / 4096 + (b - st.fbPrivVa) / 4096 := by omega
  show s.pages (b / 4096) = some (st.fbShm.id, (b - st.fbPrivVa) / 4096)
  rw [hpage]
  exact h.holds z st hst _ hi

/-- A pixel of a layer lies in the buffer that its configuration asks for. -/
theorem pixel_le {c : Config} (hc : c.Valid m) {row col : Nat} (hrow : row < c.y1.toNat - c.y0.toNat)
    (hcol : col < c.x1.toNat - c.x0.toNat) :
    row * c.stride.toNat + col * 4 + 4 ≤ c.stride.toNat * (c.y1.toNat - c.y0.toNat) := by
  have hstride := hc.stride
  calc row * c.stride.toNat + col * 4 + 4
      ≤ row * c.stride.toNat + c.stride.toNat := by omega
    _ = (row + 1) * c.stride.toNat := (Nat.succ_mul _ _).symm
    _ ≤ (c.y1.toNat - c.y0.toNat) * c.stride.toNat := Nat.mul_le_mul_right _ hrow
    _ = c.stride.toNat * (c.y1.toNat - c.y0.toNat) := Nat.mul_comm ..

theorem Inv.passReads_inside (h : s.Inv m) {sprites : Bool} {x0 y0 x1 y1 a : Nat}
    (ha : (z, a) ∈ s.passReads sprites x0 y0 x1 y1) : s.Inside z a := by
  obtain ⟨y, -, ha⟩ := List.mem_flatMap.mp ha
  simp only at ha
  split at ha
  · cases ha
  next hact =>
  obtain ⟨a', ha', he⟩ := List.mem_map.mp ha
  obtain ⟨rfl, rfl⟩ := Prod.mk.inj he
  rw [not_or, Bool.not_eq_false] at hact
  obtain ⟨st, hst, hs⟩ := h.attached y hact.1
  have hg := h.mapped.good y st hst
  have hc := hg.valid
  have hx := st.cfg.x1.toNat_lt
  have hy := st.cfg.y1.toNat_lt
  have hcols := hc.columns
  have hrows := hc.rows
  obtain ⟨row, col, hrow, hcol, rfl⟩ := ZLayer.mem_reads (by rw [hs.x0, hs.width]; omega) (by rw [hs.y0, hs.height]; omega) ha'
  rw [hs.height] at hrow
  rw [hs.width] at hcol
  have hle := pixel_le hc hrow hcol
  rw [← hg.fbSize] at hle
  have hregion := hg.region
  have hbelow := hg.below
  have hsize : st.fbSize ≤ st.fbShm.npages * 4096 := by
    rw [hg.npages, hg.fbSize]
    unfold Config.fbPages
    omega
  simp only [layerPrivEnd, kernelStackVma] at hbelow
  have hrowlt : u32 (row * st.cfg.stride.toNat) = row * st.cfg.stride.toNat := u32_of_lt (by omega)
  rw [hs.bufptr, hs.pitch, hrowlt, u32_of_lt (by omega), Nat.add_assoc]
  exact h.mapped.inside hst hle

/-- What the compositor reads of active layers is inside their buffers. -/
theorem Inv.composeReads_inside (h : s.Inv m) {x0 y0 x1 y1 a : Nat} (ha : (z, a) ∈ s.composeReads x0 y0 x1 y1) :
    s.Inside z a := by
  unfold composeReads at ha
  split at ha
  · cases ha
  · rcases List.mem_append.mp ha with ha | ha
    · exact h.passReads_inside ha
    · exact h.passReads_inside ha

end State

/-! ## Runs -/

/-- No sum or product that the call computes for the size and the place of a layer wraps around. -/
def SizesFit (m : Mode) (s : State) (call : Call) : Prop :=
  ∀ c, prepares m s call = some c →
    c.stride.toNat * (c.y1.toNat - c.y0.toNat) < 2 ^ 32 ∧ c.fbSize + (pageSize - 1) < 2 ^ 32 ∧
      c.fbAlloc + alignUp metaSize < 2 ^ 32 ∧ ∀ a ∈ (s.privSearch m c.regionSize).1, a + c.regionSize < 2 ^ 32

theorem State.Inv.sizesFit (h : s.Inv m) {call : Call} (hfits : Fits m s call) : SizesFit m s call := by
  intro c hc
  have hle := c.pixels_le
  have hlt := c.fbPages_lt
  refine ⟨by omega, ?_, ?_, (h.mapped.privSearch_spec (hfits c hc)).sums⟩
  · rw [c.fbSize_eq]
    unfold pageSize
    omega
  · rw [c.fbAlloc_eq, Config.alignUp_metaSize]
    exact hlt

/-- A call that finds room. -/
def FitsStep (m : Mode) (s s' : State) : Prop := ∃ call, Fits m s call ∧ s' = step m s call

def Step (m : Mode) (s s' : State) : Prop := ∃ call, s' = step m s call

theorem inv_of_reachable (h : Run.Reachable (Start m) (FitsStep m) s) : s.Inv m := by
  refine h.invariant _ (fun s hs => .start hs) fun s s' hinv hstep => ?_
  obtain ⟨call, hfits, rfl⟩ := hstep
  exact hinv.step hfits

/-- In a run whose calls all find room, the compositor reads each layer inside its buffer, and the
sizes of the next call that finds room do not wrap around. -/
theorem compositor_inside (h : Run.Reachable (Start m) (FitsStep m) s) :
    (∀ x0 y0 x1 y1 z a, (z, a) ∈ s.composeReads x0 y0 x1 y1 → s.Inside z a) ∧
      ∀ call, Fits m s call → SizesFit m s call :=
  ⟨fun _ _ _ _ _ _ ha => (inv_of_reachable h).composeReads_inside ha, fun _ hfits => (inv_of_reachable h).sizesFit hfits⟩

/-! ## Screens -/

/-! ## A layer over another -/

def tallScreen : Mode := ⟨64, 8192, 256⟩

def noLayers : State := ⟨fun _ => none, fun _ => ⟨false, 0, 0, 0, 0, 0, 0, 0, 0⟩, fun _ => 0, fun _ => none, 0⟩

theorem noLayers_start (m : Mode) : Start m noLayers := ⟨fun _ => rfl, fun _ => rfl, fun _ => rfl⟩

def dot : Config := ⟨20, 0, 1, 0, 1, 0, 4, 0⟩

/-- As tall as the screen, in rows as long as there can be. -/
def pole : Config := ⟨20, 0, 1, 0, 8192, 0, 65532, 0⟩

def requestDot : Call := .reqBuf 1 1 true (some dot) true true

def requestPole : Call := .reqBuf 2 2 true (some pole) true true

theorem prepares_dot : prepares tallScreen noLayers requestDot = some dot := by decide +kernel

theorem fits_dot : Fits tallScreen noLayers requestDot := by
  intro c hc
  obtain rfl := Option.some.inj (prepares_dot.symm.trans hc)
  exact ⟨by decide +kernel, fun _ st hst => by simp [State.allocated, noLayers] at hst⟩

/-- The pixel of the first layer. -/
theorem compositor_inside_dot :
    (1, 0xE0200000) ∈ (step tallScreen noLayers requestDot).composeReads 0 0 1 1 ∧
      (step tallScreen noLayers requestDot).Inside 1 0xE0200000 := by
  have hread : (1, 0xE0200000) ∈ (step tallScreen noLayers requestDot).composeReads 0 0 1 1 := by decide +kernel
  exact ⟨hread, (compositor_inside ((Run.Reachable.start (noLayers_start tallScreen)).step ⟨requestDot, fits_dot, rfl⟩)).1
    0 0 1 1 1 _ hread⟩

/-- The sum for the second layer wraps around, and its memory is mapped over that of the first. -/
theorem not_compositor_inside : ∃ m s, Run.Reachable (Start m) (Step m) s ∧
    ∃ z a, (z, a) ∈ s.composeReads 0 0 1 1 ∧ ¬s.Inside z a := by
  refine ⟨tallScreen, step tallScreen (step tallScreen noLayers requestDot) requestPole,
    ((Run.Reachable.start (noLayers_start tallScreen)).step ⟨requestDot, rfl⟩).step ⟨requestPole, rfl⟩, 1, 0xE0200000,
    by decide +kernel, ?_⟩
  rintro ⟨st, hst, -, -, hmapped⟩
  have hid : ((step tallScreen (step tallScreen noLayers requestDot) requestPole).layers 1).map (·.fbShm.id) = some 0 := by
    decide +kernel
  have hpage : (step tallScreen (step tallScreen noLayers requestDot) requestPole).pages (0xE0200000 / pageSize) =
      some (2, 0) := by decide +kernel
  rw [hst] at hid
  have hown := (hmapped 0xE0200000 (Nat.le_refl _) (by decide)).2
  rw [hpage] at hown
  have h2 : 2 = st.fbShm.id := congrArg Prod.fst (Option.some.inj hown)
  have h0 : st.fbShm.id = 0 := Option.some.inj hid
  omega

end Serotonin.Layers
