import Serotonin.Files.Model
import Serotonin.Vbe.Compose

/-! The layers that programs draw in. The state of a layer says which memory is its buffer, the
kernel's page map where that memory is, and the compositor reads the layer through a third record,
that `vbe_layer_attach` fills. -/

namespace Serotonin.Layers

open Function
open ByteMem (u32)
open Files (einval enomem)
open Vbe (Mode u16 sub16 numZLayers)
open Vbe.Screen (zValid)

abbrev Pid := Nat

def pageSize : Nat := 4096
def fbVmaBase : Nat := 0xE0000000
def kernelStackVma : Nat := 0xF0000000
def layerAlphaBlend : Nat := 1
def hintOpaqueContent : Nat := 1
def hintCursorSprite : Nat := 8
def hintAllMask : Nat := 31
def wmAppLayerFirst : Nat := 2
def wmAppLayerLast : Nat := 12
def eperm : Int := 1
def enoent : Int := 2
def efault : Int := 14
def ebusy : Int := 16

/-- `fb_layer_config_t` -/
structure Config where
  size : UInt32
  x0 : UInt16
  x1 : UInt16
  y0 : UInt16
  y1 : UInt16
  alpha : UInt8
  stride : UInt16
  hints : UInt16
deriving DecidableEq

/-- `sizeof(fb_layer_config_t)` -/
def configSize : Nat := 20

/-- `sizeof(fb_layer_metadata_t)` -/
def metaSize : Nat := 16

/-- `align_up(v, PAGE_SIZE)` -/
def alignUp (v : Nat) : Nat := u32 (v + (pageSize - 1)) / pageSize * pageSize

/-- What is used of `shm_object_t`, and a number by which to tell one from another. -/
structure Shm where
  id : Nat
  npages : Nat
deriving DecidableEq

/-- `layer_state_t` of a layer that is allocated. -/
structure LayerState where
  ownerPid : Pid
  cfg : Config
  fbShm : Shm
  metaShm : Shm
  fbPrivVa : Nat
  metaPrivVa : Nat
  fbSize : Nat
  metaSize : Nat
  privRegionSize : Nat

/-- What the compositor reads of `vbe_z_layer_t`. -/
structure ZLayer where
  active : Bool
  alpha : Nat
  hints : Nat
  width : Nat
  height : Nat
  x0 : Nat
  y0 : Nat
  pitch : Nat
  bufptr : Nat

/-- `pages` is the kernel's part of the page map: which page of which memory a page shows. -/
structure State where
  layers : Nat → Option LayerState
  zLayers : Nat → ZLayer
  defaultBufs : Nat → Nat
  pages : Nat → Option (Nat × Nat)
  nextShm : Nat

/-- How many pages behind that of `vaddr` the page is, among the `2 ^ 20` there are. -/
def pageOff (vaddr page : Nat) : Nat := (page + 2 ^ 20 - vaddr / pageSize) % 2 ^ 20

namespace State

def setLayer (s : State) (id : Nat) (st : Option LayerState) : State :=
  { s with layers := update s.layers id st }

def setZLayer (s : State) (z : Nat) (l : ZLayer) : State := { s with zLayers := update s.zLayers z l }

def setPages (s : State) (pages : Nat → Option (Nat × Nat)) : State := { s with pages := pages }

/-! ## The compositor's record of a layer -/

def vbeLayerAttach (s : State) (z : Nat) (bufptr : Nat) (cfg : Config) : State :=
  if zValid z = false then s
  else
    let layer := s.zLayers z
    let defaultBufs :=
      if s.defaultBufs z = 0 then update s.defaultBufs z layer.bufptr else s.defaultBufs
    let hints := cfg.hints.toNat
    let alpha := cfg.alpha.toNat
    { s with defaultBufs := defaultBufs }.setZLayer z
      { active := true
        alpha := if alpha ≠ 0 ∧ hints &&& hintOpaqueContent ≠ 0 then 0 else alpha
        hints := hints
        width := sub16 cfg.x1.toNat cfg.x0.toNat
        height := sub16 cfg.y1.toNat cfg.y0.toNat
        x0 := cfg.x0.toNat
        y0 := cfg.y0.toNat
        pitch := cfg.stride.toNat
        bufptr := bufptr }

def vbeLayerDetach (m : Mode) (s : State) (z : Nat) : State :=
  if zValid z = false then s
  else
    let layer := s.zLayers z
    s.setZLayer z { layer with
      active := false
      bufptr := if s.defaultBufs z = 0 then layer.bufptr else s.defaultBufs z
      width := u16 m.width
      height := u16 m.height
      x0 := 0
      y0 := 0
      pitch := m.pitch }

/-! ## Where a layer's memory is mapped -/

/-- `layer_map_priv_shared`: no two of the pages are the same, so what is mapped does not depend on
the order. -/
def mapPrivShared (s : State) (vaddr : Nat) (shm : Shm) : State :=
  s.setPages fun p => if pageOff vaddr p < shm.npages then some (shm.id, pageOff vaddr p) else s.pages p

def unmapPrivShared (s : State) (vaddr npages : Nat) : State :=
  s.setPages fun p => if pageOff vaddr p < npages then none else s.pages p

def layerReleaseState (s : State) (id : Nat) : State :=
  match s.layers id with
  | none => s
  | some st =>
    ((s.unmapPrivShared st.fbPrivVa st.fbShm.npages).unmapPrivShared st.metaPrivVa st.metaShm.npages).setLayer id none

end State

/-! ## Configurations -/

def layerConfigValid (m : Mode) (c : Config) : Bool :=
  decide (configSize ≤ c.size.toNat ∧ c.x0 < c.x1 ∧ c.y0 < c.y1 ∧ c.x1.toNat ≤ m.width ∧ c.y1.toNat ≤ m.height ∧
    c.stride.toNat % 4 = 0 ∧ (c.x1.toNat - c.x0.toNat) * 4 ≤ c.stride.toNat ∧ c.alpha.toNat ≤ layerAlphaBlend ∧
    c.hints.toNat ≤ hintAllMask)

namespace Config

/-- The sizes as `layer_prepare_state` computes them. -/
def fbSize (c : Config) : Nat := u32 (c.stride.toNat * (c.y1.toNat - c.y0.toNat))
def fbAlloc (c : Config) : Nat := alignUp c.fbSize
def regionSize (c : Config) : Nat := u32 (c.fbAlloc + alignUp metaSize)

end Config

/-! ## Free addresses -/

def layerPrivBase (m : Mode) : Nat := u32 (fbVmaBase + alignUp m.fbSizeBytes)
def layerPrivEnd : Nat := kernelStackVma

def LayerState.stop (st : LayerState) : Nat := u32 (st.fbPrivVa + st.privRegionSize)

/-- The layer is in the way of `size` bytes at `addr`. -/
def LayerState.collides (size addr : Nat) (st : LayerState) : Bool :=
  decide (addr < st.stop ∧ st.fbPrivVa < u32 (addr + size))

/-- The loop of `layer_priv_find_free`, for at most so many turns: the addresses whose
`addr + size` it computes, and the one it returns. -/
def privSearch (layers : List LayerState) (size : Nat) : Nat → Nat → List Nat × Nat
  | 0, _ => ([], 0)
  | turns + 1, addr =>
    if u32 (addr + size) ≤ layerPrivEnd then
      match layers.find? (LayerState.collides size addr) with
      | some st =>
        let rest := privSearch layers size turns (alignUp st.stop)
        (addr :: rest.1, rest.2)
      | none => ([addr], addr)
    else ([addr], 0)

namespace State

def allocated (s : State) : List LayerState := (List.range numZLayers).filterMap s.layers

/-- No layer is in the way twice. -/
def privSearch (m : Mode) (s : State) (size : Nat) : List Nat × Nat :=
  Layers.privSearch s.allocated size (numZLayers + 1) (alignUp (layerPrivBase m))

def layerPrivFindFree (m : Mode) (s : State) (size : Nat) : Nat := (s.privSearch m size).2

/-- The state of a layer whose memory is to lie at `privBase`. -/
def newLayer (s : State) (pid : Pid) (c : Config) (privBase : Nat) : LayerState where
  ownerPid := pid
  cfg := c
  fbShm := ⟨s.nextShm, c.fbAlloc / pageSize⟩
  metaShm := ⟨s.nextShm + 1, alignUp metaSize / pageSize⟩
  fbPrivVa := privBase
  metaPrivVa := u32 (privBase + c.fbAlloc)
  fbSize := c.fbSize
  metaSize := metaSize
  privRegionSize := c.regionSize

def mapLayer (s : State) (st : LayerState) : State :=
  ({ s with nextShm := s.nextShm + 2 }.mapPrivShared st.fbPrivVa st.fbShm).mapPrivShared st.metaPrivVa st.metaShm

/-- `memory` says that the memory for the pixels and that for the metadata were to be had. The new
state of the layer is not yet stored. -/
def layerPrepareState (m : Mode) (s : State) (pid : Pid) (c : Config) (memory : Bool) : Except Int (LayerState × State) :=
  let privBase := s.layerPrivFindFree m c.regionSize
  if privBase = 0 ∨ memory = false then .error (-enomem)
  else .ok (s.newLayer pid c privBase, s.mapLayer (s.newLayer pid c privBase))

/-! ## The calls -/

def badId (id : Nat) : Bool := id == 0 || decide (numZLayers ≤ id)

/-- `args` says that the pointers are not null, `cfg` is what is read through the one and `copied`
whether the other can be written through. -/
def sysReqBuf (m : Mode) (s : State) (pid : Pid) (id : Nat) (args : Bool) (cfg : Option Config) (memory copied : Bool) :
    State × Int :=
  if badId id ∨ args = false then (s, -einval)
  else
    match s.layers id with
    | some st =>
      if st.ownerPid ≠ pid then (s, -ebusy) else if copied = false then (s, -efault) else (s, 0)
    | none =>
      match cfg with
      | none => (s, -efault)
      | some c =>
        if layerConfigValid m c = false then (s, -einval)
        else
          match s.layerPrepareState m pid c memory with
          | .error e => (s, e)
          | .ok (st, s') =>
            let s' := (s'.setLayer id (some st)).vbeLayerAttach id st.fbPrivVa st.cfg
            if copied = false then ((s'.vbeLayerDetach m id).layerReleaseState id, -efault) else (s', 0)

def sysRelBuf (m : Mode) (s : State) (pid : Pid) (id : Nat) : State × Int :=
  if badId id then (s, -einval)
  else
    match s.layers id with
    | none => (s, -enoent)
    | some st => if st.ownerPid ≠ pid then (s, -eperm) else ((s.vbeLayerDetach m id).layerReleaseState id, 0)

/-- The buffer is kept when the sizes are the ones it was made for. -/
def needsRealloc (old new : Config) : Bool :=
  decide (sub16 new.x1.toNat new.x0.toNat ≠ sub16 old.x1.toNat old.x0.toNat ∨
    sub16 new.y1.toNat new.y0.toNat ≠ sub16 old.y1.toNat old.y0.toNat ∨ new.stride ≠ old.stride)

def sysRcfgLayer (m : Mode) (s : State) (pid : Pid) (id : Nat) (args : Bool) (cfg : Option Config) (memory copied : Bool) :
    State × Int :=
  if badId id ∨ args = false then (s, -einval)
  else
    match s.layers id with
    | none => (s, -enoent)
    | some st =>
      if st.ownerPid ≠ pid then (s, -eperm)
      else
        match cfg with
        | none => (s, -efault)
        | some c =>
          if layerConfigValid m c = false then (s, -einval)
          else if needsRealloc st.cfg c then
            match s.layerPrepareState m pid c memory with
            | .error e => (s, e)
            | .ok (new, s') =>
              let s' := ((s'.vbeLayerDetach m id).layerReleaseState id).setLayer id (some new)
              (s'.vbeLayerAttach id new.fbPrivVa new.cfg, if copied = false then -efault else 0)
          else
            ((s.setLayer id (some { st with cfg := c })).vbeLayerAttach id st.fbPrivVa c,
              if copied = false then -efault else 0)

def wmLayer (z : Nat) : Bool := decide (wmAppLayerFirst ≤ z ∧ z ≤ wmAppLayerLast)

def sysSwapLayers (m : Mode) (s : State) (isWm : Bool) (za zb : Nat) : State × Int :=
  if isWm = false then (s, -eperm)
  else if wmLayer za = false ∨ wmLayer zb = false ∨ za = zb then (s, -einval)
  else
    match s.layers za, s.layers zb with
    | some sa, some sb =>
      let s := (s.vbeLayerDetach m za).vbeLayerDetach m zb
      let s := (s.setLayer za (some sb)).setLayer zb (some sa)
      ((s.vbeLayerAttach za sb.fbPrivVa sb.cfg).vbeLayerAttach zb sa.fbPrivVa sa.cfg, 0)
    | _, _ => (s, -enoent)

/-- One turn of `cleanup_layers`. -/
def cleanupLayer (m : Mode) (pid : Pid) (s : State) (i : Nat) : State :=
  match s.layers i with
  | none => s
  | some st => if st.ownerPid = pid then (s.vbeLayerDetach m i).layerReleaseState i else s

def cleanupLayers (m : Mode) (s : State) (pid : Pid) : State :=
  (List.range' 1 (numZLayers - 1)).foldl (cleanupLayer m pid) s

end State

/-- What programs can do to the layers. -/
inductive Call where
  | reqBuf (pid : Pid) (id : UInt16) (args : Bool) (cfg : Option Config) (memory copied : Bool)
  | relBuf (pid : Pid) (id : UInt16)
  | rcfgLayer (pid : Pid) (id : UInt16) (args : Bool) (cfg : Option Config) (memory copied : Bool)
  | swapLayers (isWm : Bool) (za zb : UInt16)
  | exit (pid : Pid)

def step (m : Mode) (s : State) : Call → State
  | .reqBuf pid id args cfg memory copied => (s.sysReqBuf m pid id.toNat args cfg memory copied).1
  | .relBuf pid id => (s.sysRelBuf m pid id.toNat).1
  | .rcfgLayer pid id args cfg memory copied => (s.sysRcfgLayer m pid id.toNat args cfg memory copied).1
  | .swapLayers isWm za zb => (s.sysSwapLayers m isWm za.toNat zb.toNat).1
  | .exit pid => s.cleanupLayers m pid

/-! ## The compositor -/

namespace ZLayer

def isCursorSprite (l : ZLayer) : Bool := decide (l.hints &&& hintCursorSprite ≠ 0)

/-- The addresses of the pixels of `l` that are read for the rectangle. A pixel has four bytes. -/
def reads (l : ZLayer) (x0 y0 x1 y1 : Nat) : List Nat :=
  let layerX1 := u16 (l.x0 + l.width)
  let layerY1 := u16 (l.y0 + l.height)
  let ix0 := if l.x0 < x0 then x0 else l.x0
  let iy0 := if l.y0 < y0 then y0 else l.y0
  let ix1 := if x1 < layerX1 then x1 else layerX1
  let iy1 := if y1 < layerY1 then y1 else layerY1
  if ix1 ≤ ix0 ∨ iy1 ≤ iy0 then []
  else
    (List.range (iy1 - iy0)).flatMap fun row => (List.range (ix1 - ix0)).map fun col =>
      u32 (l.bufptr + u32 ((iy0 - l.y0 + row) * l.pitch) + (ix0 - l.x0 + col) * 4)

end ZLayer

/-- The layers of one pass of `vbe_compose_rect`, each with the addresses it is read at. -/
def State.passReads (s : State) (sprites : Bool) (x0 y0 x1 y1 : Nat) : List (Nat × Nat) :=
  (List.range' 1 (numZLayers - 1)).flatMap fun z =>
    let l := s.zLayers z
    if l.active = false ∨ l.isCursorSprite ≠ sprites then [] else (l.reads x0 y0 x1 y1).map fun a => (z, a)

/-- What `vbe_compose_rect` reads of active layers. -/
def State.composeReads (s : State) (x0 y0 x1 y1 : Nat) : List (Nat × Nat) :=
  if x1 ≤ x0 ∨ y1 ≤ y0 then [] else s.passReads false x0 y0 x1 y1 ++ s.passReads true x0 y0 x1 y1

/-! ## Room -/

/-- The configuration with which a call gets to `layer_prepare_state`. -/
def prepares (m : Mode) (s : State) : Call → Option Config
  | .reqBuf _ id args cfg _ _ =>
    if State.badId id.toNat ∨ args = false ∨ (s.layers id.toNat).isSome then none else cfg.filter (layerConfigValid m)
  | .rcfgLayer pid id args cfg _ _ =>
    if State.badId id.toNat ∨ args = false then none
    else
      match s.layers id.toNat with
      | none => none
      | some st =>
        if st.ownerPid ≠ pid then none
        else (cfg.filter (layerConfigValid m)).filter (State.needsRealloc st.cfg)
  | _ => none

/-- The sums that `layer_priv_find_free` can come to compute have 32 bits: the first one, and where
that is not yet too far, those behind another layer. -/
def State.Room (m : Mode) (s : State) (size : Nat) : Prop :=
  layerPrivBase m + size < 2 ^ 32 ∧
    (layerPrivBase m + size ≤ layerPrivEnd → ∀ st ∈ s.allocated, st.stop + size < 2 ^ 32)

/-- The call finds room, if it looks for any. -/
def Fits (m : Mode) (s : State) (call : Call) : Prop := ∀ c, prepares m s call = some c → s.Room m c.regionSize

/-- The layers as `vbe_init` leaves them. -/
structure Start (m : Mode) (s : State) : Prop where
  layers : ∀ z, s.layers z = none
  inactive : ∀ z, (s.zLayers z).active = false
  defaultBufs : ∀ z, s.defaultBufs z = 0

end Serotonin.Layers
