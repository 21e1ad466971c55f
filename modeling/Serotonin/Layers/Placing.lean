import Serotonin.Layers.Model

/-! Where the memory of a layer is placed. The sizes of a valid configuration have 32 bits, and where
no sum wraps around the search ends at addresses that no other layer has. -/

namespace Serotonin.Layers

open ByteMem (u32 u32_of_lt u32_lt)
open Vbe (Mode numZLayers)

/-! ## Pages -/

theorem alignUp_of_lt {v : Nat} (h : v + 4095 < 2 ^ 32) : alignUp v = (v + 4095) / 4096 * 4096 := by
  unfold alignUp pageSize
  rw [u32_of_lt h]

theorem alignUp_of_aligned {v : Nat} (hv : v % 4096 = 0) (hlt : v < 2 ^ 32) : alignUp v = v := by
  have hsum : v + 4095 < 2 ^ 32 := by omega
  rw [alignUp_of_lt hsum]
  omega

theorem alignUp_mod (v : Nat) : alignUp v % 4096 = 0 := Nat.mul_mod_left ..

theorem layerPrivBase_mod (m : Mode) : layerPrivBase m % 4096 = 0 := by
  have h := alignUp_mod m.fbSizeBytes
  unfold layerPrivBase fbVmaBase u32
  omega

theorem alignUp_layerPrivBase (m : Mode) : alignUp (layerPrivBase m) = layerPrivBase m :=
  alignUp_of_aligned (layerPrivBase_mod m) (u32_lt _)

/-! ## Sizes -/

/-- What `layerConfigValid` promises of the numbers of a configuration. -/
structure Config.Valid (m : Mode) (c : Config) : Prop where
  columns : c.x0.toNat < c.x1.toNat
  rows : c.y0.toNat < c.y1.toNat
  width : c.x1.toNat ≤ m.width
  height : c.y1.toNat ≤ m.height
  whole : c.stride.toNat % 4 = 0
  stride : (c.x1.toNat - c.x0.toNat) * 4 ≤ c.stride.toNat

theorem Config.Valid.of_eq_true {m : Mode} {c : Config} (h : layerConfigValid m c = true) : c.Valid m := by
  obtain ⟨-, hcols, hrows, hwidth, hheight, hwhole, hstride, -⟩ := of_decide_eq_true h
  exact ⟨UInt16.lt_iff_toNat_lt.mp hcols, UInt16.lt_iff_toNat_lt.mp hrows, hwidth, hheight, hwhole, hstride⟩

namespace Config

/-- The number of pages of the buffer. -/
def fbPages (c : Config) : Nat := (c.stride.toNat * (c.y1.toNat - c.y0.toNat) + 4095) / 4096

theorem pixels_le (c : Config) : c.stride.toNat * (c.y1.toNat - c.y0.toNat) ≤ 65535 * 65535 := by
  have hs := c.stride.toNat_lt
  have hy := c.y1.toNat_lt
  exact Nat.mul_le_mul (by omega) (by omega)

theorem fbSize_eq (c : Config) : c.fbSize = c.stride.toNat * (c.y1.toNat - c.y0.toNat) :=
  u32_of_lt (by have := c.pixels_le; omega)

theorem fbAlloc_eq (c : Config) : c.fbAlloc = c.fbPages * 4096 := by
  have hle := c.pixels_le
  unfold fbAlloc fbPages
  rw [fbSize_eq, alignUp_of_lt (by omega)]

theorem fbPages_lt (c : Config) : c.fbPages * 4096 + 4096 < 2 ^ 32 := by
  have hle := c.pixels_le
  unfold fbPages
  omega

theorem alignUp_metaSize : alignUp metaSize = 4096 := rfl

theorem regionSize_eq (c : Config) : c.regionSize = c.fbPages * 4096 + 4096 := by
  unfold regionSize
  rw [alignUp_metaSize, fbAlloc_eq, u32_of_lt c.fbPages_lt]

end Config

/-! ## Layers with their places -/

/-- The record of a layer whose memory lies in one piece below the kernel's stacks. -/
structure LayerState.Good (m : Mode) (st : LayerState) : Prop where
  valid : st.cfg.Valid m
  fbSize : st.fbSize = st.cfg.stride.toNat * (st.cfg.y1.toNat - st.cfg.y0.toNat)
  npages : st.fbShm.npages = st.cfg.fbPages
  metaPages : st.metaShm.npages = 1
  metaPrivVa : st.metaPrivVa = st.fbPrivVa + st.fbShm.npages * 4096
  region : st.privRegionSize = st.fbShm.npages * 4096 + 4096
  aligned : st.fbPrivVa % 4096 = 0
  below : st.fbPrivVa + st.privRegionSize ≤ layerPrivEnd

def LayerState.Apart (st st' : LayerState) : Prop :=
  st.fbPrivVa + st.privRegionSize ≤ st'.fbPrivVa ∨ st'.fbPrivVa + st'.privRegionSize ≤ st.fbPrivVa

theorem LayerState.Apart.symm {st st' : LayerState} (h : st.Apart st') : st'.Apart st := Or.symm h

variable {m : Mode} {st : LayerState}

theorem LayerState.Good.stop (h : st.Good m) : st.stop = st.fbPrivVa + st.privRegionSize := by
  have hb := h.below
  exact u32_of_lt (by simp only [layerPrivEnd, kernelStackVma] at hb; omega)

theorem LayerState.Good.stop_mod (h : st.Good m) : st.stop % 4096 = 0 := by
  have ha := h.aligned
  have hr := h.region
  rw [h.stop]
  omega

theorem LayerState.stop_lt (st : LayerState) : st.stop < 2 ^ 32 := u32_lt _

/-! ## The search -/

/-- What a search comes to when no sum wraps around. -/
structure Found (layers : List LayerState) (size : Nat) (r : List Nat × Nat) : Prop where
  sums : ∀ a ∈ r.1, a + size < 2 ^ 32
  free : r.2 = 0 ∨ r.2 % 4096 = 0 ∧ r.2 + size ≤ layerPrivEnd ∧
    ∀ st ∈ layers, st.stop ≤ r.2 ∨ r.2 + size ≤ st.fbPrivVa

theorem privSearch_found {layers : List LayerState} {size : Nat} (hgood : ∀ st ∈ layers, st.Good m) (turns : Nat) :
    ∀ addr, addr % 4096 = 0 → addr + size < 2 ^ 32 →
      (addr + size ≤ layerPrivEnd → ∀ st ∈ layers, st.stop + size < 2 ^ 32) →
        Found layers size (privSearch layers size turns addr) := by
  induction turns with
  | zero => exact fun addr _ _ _ => ⟨fun a ha => (List.not_mem_nil ha).elim, .inl rfl⟩
  | succ turns ih =>
    intro addr haddr hsum hroom
    have hu : u32 (addr + size) = addr + size := u32_of_lt hsum
    unfold privSearch
    rw [hu]
    split
    · next hle =>
      split
      · next st hst =>
        have hmem := List.mem_of_find?_eq_some hst
        have hg := hgood st hmem
        have hst' := hroom hle st hmem
        rw [alignUp_of_aligned hg.stop_mod st.stop_lt]
        have hrest := ih st.stop hg.stop_mod hst' fun _ => hroom hle
        refine ⟨fun a ha => ?_, hrest.free⟩
        rcases List.mem_cons.mp ha with rfl | ha
        · exact hsum
        · exact hrest.sums a ha
      · next hnone =>
        refine ⟨fun a ha => by rwa [List.mem_singleton.mp ha], .inr ⟨haddr, hle, fun st hst => ?_⟩⟩
        have hfree := List.find?_eq_none.mp hnone st hst
        unfold LayerState.collides at hfree
        rw [hu, decide_eq_true_eq] at hfree
        show st.stop ≤ addr ∨ addr + size ≤ st.fbPrivVa
        omega
    · exact ⟨fun a ha => by rwa [List.mem_singleton.mp ha], .inl rfl⟩

end Serotonin.Layers
