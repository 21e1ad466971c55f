import Serotonin.Vbe.Terminal
import Serotonin.Lib.Run

/-! What is shown. Drawing marks the tiles it touches and widens a box around them;
`vbe_flip` puts together again what is marked and in the box. All layers are opaque. -/

namespace Serotonin.Vbe

open ByteMem (Mem u32)

def u16 (n : Nat) : Nat := n % 2 ^ 16

/-- A difference that is stored in 16 bits. -/
def sub16 (a b : Nat) : Nat := (a + 2 ^ 16 - b % 2 ^ 16) % 2 ^ 16

def tileSize : Nat := 16
def numZLayers : Nat := 16
def unused : Nat := 2 ^ 16 - 1

/-- `vbe_z_layer_t`, with the buffer it points to. -/
structure Layer where
  active : Bool
  cursorSprite : Bool
  width : Nat
  height : Nat
  x0 : Nat
  y0 : Nat
  pitch : Nat
  buf : Mem

/-- The sizes and the place of a layer are stored in 16 bits. -/
def Layer.Small (l : Layer) : Prop := l.width < 2 ^ 16 ∧ l.height < 2 ^ 16 ∧ l.x0 < 2 ^ 16 ∧ l.y0 < 2 ^ 16

/-- `dirty_bb_t` -/
structure Box where
  x0 : Nat
  y0 : Nat
  x1 : Nat
  y1 : Nat
deriving DecidableEq

def Box.none : Box := ⟨unused, unused, unused, unused⟩

def Box.isUnused (b : Box) : Bool := b.x0 == unused || b.x1 == unused || b.y0 == unused || b.y1 == unused

/-- `cursor` is the column and row of the cursor when it is shown, and `fb` has the pixels of
the framebuffer. -/
structure Screen where
  layer0 : Mem
  layers : Nat → Layer
  defaultBuf : Nat → Mem
  cursor : Option (Nat × Nat)
  tiles : Nat → Nat → Bool
  box : Box
  fb : Nat → Nat → Nat

def Mode.tilesX (m : Mode) : Nat := u16 ((m.width + tileSize - 1) / tileSize)
def Mode.tilesY (m : Mode) : Nat := u16 ((m.height + tileSize - 1) / tileSize)

/-! ## Marks -/

namespace Screen

def markTiles (m : Mode) (s : Screen) (tx0 ty0 tx1 ty1 : Nat) : Screen :=
  { s with tiles := fun tx ty => s.tiles tx ty ||
      (decide (tx0 ≤ tx ∧ tx ≤ tx1 ∧ ty0 ≤ ty ∧ ty ≤ ty1) && decide (tx < m.tilesX ∧ ty < m.tilesY)) }

def widen (s : Screen) (x0 y0 x1 y1 : Nat) : Screen :=
  { s with box :=
      if s.box.isUnused then ⟨u16 x0, u16 y0, u16 x1, u16 y1⟩
      else
        { x0 := if x0 < s.box.x0 then u16 x0 else s.box.x0
          y0 := if y0 < s.box.y0 then u16 y0 else s.box.y0
          x1 := if s.box.x1 < x1 then u16 x1 else s.box.x1
          y1 := if s.box.y1 < y1 then u16 y1 else s.box.y1 } }

/-- `vbe_mark_pixel_dirty` on 16-bit coordinates. -/
def markPixelDirty (m : Mode) (s : Screen) (x y : Nat) : Screen :=
  if m.width ≤ x ∨ m.height ≤ y then s
  else
    let tx := x / tileSize
    let ty := y / tileSize
    (s.markTiles m tx ty tx ty).widen x y (x + 1) (y + 1)

/-- `vbe_mark_region_dirty` on 16-bit arguments. -/
def markRegionDirty (m : Mode) (s : Screen) (x y w h : Nat) : Screen :=
  let w := if m.width < x + w then sub16 m.width x else w
  let h := if m.height < y + h then sub16 m.height y else h
  if w = 0 ∨ h = 0 then s
  else
    (s.markTiles m (x / tileSize) (y / tileSize) (u16 ((x + w - 1) / tileSize)) (u16 ((y + h - 1) / tileSize))).widen
      x y (x + w) (y + h)

end Screen

/-! ## Drawing on layer 0 -/

/-- A pixel that is marked and, with a color, stored at a place in the buffer. -/
structure Dot where
  x : Nat
  y : Nat
  off : Nat
  color : Option Nat

namespace Screen

def store (s : Screen) (off : Nat) : Option Nat → Screen
  | none => s
  | some color => { s with layer0 := ByteMem.store32 s.layer0 (u32 off) color }

def dot (m : Mode) (s : Screen) (d : Dot) : Screen := (s.store d.off d.color).markPixelDirty m (u16 d.x) (u16 d.y)

def dots (m : Mode) (s : Screen) (ds : List Dot) : Screen := ds.foldl (dot m) s

def putpixel (m : Mode) (s : Screen) (x y color : Nat) : Screen :=
  if m.width ≤ x ∨ m.height ≤ y then s else s.dot m ⟨x, y, y * m.pitch + 4 * x, some color⟩

/-- The far edges are clipped in 32 bits, and the region is marked once more in 16. -/
def fillrect (m : Mode) (s : Screen) (x y w h color : Nat) : Screen :=
  let w := if m.width < u32 (x + w) then sub32 m.width x else w
  let h := if m.height < u32 (y + h) then sub32 m.height y else h
  (s.dots m ((List.range h).flatMap fun row => (List.range w).map fun i =>
    ⟨x + i, u32 (y + row), u32 (y + row) * m.pitch + 4 * x + 4 * i, some color⟩)).markRegionDirty m
      (u16 x) (u16 y) (u16 w) (u16 h)

/-- A glyph is not clipped; only its marks are. -/
def drawglyph (m : Mode) (s : Screen) (data : Nat → Nat) (x y color : Nat) : Screen :=
  s.dots m ((List.range fontHeight).flatMap fun row => (List.range fontWidth).map fun col =>
    ⟨x + col, y + row, 4 * ((y + row) * (m.pitch / 4) + x + col), if (data row).testBit (7 - col) then some color else none⟩)

/-! ## Layers -/

/-- What is used of `fb_layer_config_t`. -/
structure LayerConfig where
  x0 : Nat
  x1 : Nat
  y0 : Nat
  y1 : Nat
  stride : Nat
  cursorSprite : Bool

def setLayer (s : Screen) (z : Nat) (l : Layer) : Screen := { s with layers := Function.update s.layers z l }

def markLayer (m : Mode) (s : Screen) (l : Layer) (active : Bool) : Screen :=
  if active ∧ 0 < l.width ∧ 0 < l.height then s.markRegionDirty m l.x0 l.y0 l.width l.height else s

def zValid (z : Nat) : Bool := 0 < z && z < numZLayers

/-- Without a configuration the layer is the whole screen. -/
def attached (m : Mode) (buf : Mem) : Option LayerConfig → Layer
  | some c => ⟨true, c.cursorSprite, sub16 c.x1 c.x0, sub16 c.y1 c.y0, c.x0, c.y0, c.stride, buf⟩
  | none => ⟨true, false, u16 m.width, u16 m.height, 0, 0, m.pitch, buf⟩

def layerAttach (m : Mode) (s : Screen) (z : Nat) (buf : Mem) (cfg : Option LayerConfig) : Screen :=
  if zValid z = false then s
  else
    let old := s.layers z
    let new := attached m buf cfg
    ((s.setLayer z new).markLayer m old old.active).markLayer m new true

def layerDetach (m : Mode) (s : Screen) (z : Nat) : Screen :=
  if zValid z = false then s
  else
    let old := s.layers z
    (s.setLayer z { old with
      active := false, buf := s.defaultBuf z, width := u16 m.width, height := u16 m.height
      x0 := 0, y0 := 0, pitch := m.pitch }).markLayer m old old.active

/-! ## Putting together -/

def basePixel (m : Mode) (s : Screen) (x y : Nat) : Nat := ByteMem.load32 s.layer0 (y * m.pitch + 4 * x)

/-- The cell under the cursor is inverted when it is on the screen as a whole. -/
def underCursor (m : Mode) (s : Screen) (x y : Nat) : Bool :=
  match s.cursor with
  | none => false
  | some (col, row) =>
    let cx0 := u16 (col * fontWidth)
    let cy0 := u16 (row * fontHeight)
    let cx1 := u16 (cx0 + fontWidth)
    let cy1 := u16 (cy0 + fontHeight)
    decide (cx1 ≤ m.width ∧ cy1 ≤ m.height ∧ cx0 ≤ x ∧ x < cx1 ∧ cy0 ≤ y ∧ y < cy1)

end Screen

def Layer.covers (l : Layer) (x y : Nat) : Bool :=
  l.active && decide (l.x0 ≤ x ∧ x < u16 (l.x0 + l.width) ∧ l.y0 ≤ y ∧ y < u16 (l.y0 + l.height))

def Layer.pixel (l : Layer) (x y : Nat) : Nat := ByteMem.load32 l.buf ((y - l.y0) * l.pitch + 4 * (x - l.x0))

/-- A layer over what is below it. -/
def Layer.over (l : Layer) (x y below : Nat) : Nat := if l.covers x y then l.pixel x y else below

namespace Screen

/-- The layers of one pass, the sprite of a cursor in the second. -/
def pass (s : Screen) (sprites : Bool) (x y below : Nat) : Nat :=
  (List.range' 1 (numZLayers - 1)).foldl
    (fun below z => if (s.layers z).cursorSprite = sprites then (s.layers z).over x y below else below) below

/-- One pixel as `vbe_compose_rect` puts it together. -/
def composite (m : Mode) (s : Screen) (x y : Nat) : Nat :=
  let base := if s.underCursor m x y then s.basePixel m x y ^^^ 0x00FFFFFF else s.basePixel m x y
  s.pass true x y (s.pass false x y base)

def composeRect (m : Mode) (s : Screen) (x0 y0 x1 y1 : Nat) : Screen :=
  { s with fb := fun x y => if x0 ≤ x ∧ x < x1 ∧ y0 ≤ y ∧ y < y1 then s.composite m x y else s.fb x y }

/-! ## `vbe_flip` -/

/-- `while (tx <= last && p(tx)) tx++`, for at most so many turns. -/
def scan (p : Nat → Bool) (last : Nat) : Nat → Nat → Nat
  | 0, tx => tx
  | n + 1, tx => if tx ≤ last ∧ p tx then scan p last n (tx + 1) else tx

/-- The runs of dirty tiles from `tx` to `last`, each as its first and its last tile. -/
def runs (dirty : Nat → Bool) (last : Nat) : Nat → Nat → List (Nat × Nat)
  | 0, _ => []
  | n + 1, tx =>
    let start := scan (fun tx => !dirty tx) last (last + 1) tx
    if last < start then []
    else
      let stop := scan dirty last (last + 1) start
      (start, u16 (stop - 1)) :: runs dirty last n stop

/-- One run of tiles, clipped to the screen and to the box. -/
def flipRun (m : Mode) (b : Box) (rowY0 rowY1 : Nat) (s : Screen) (run : Nat × Nat) : Screen :=
  let spanX0 := u16 (run.1 * tileSize)
  let spanX1 := u16 ((run.2 + 1) * tileSize)
  let spanX1 := if m.width < spanX1 then u16 m.width else spanX1
  let spanX0 := if spanX0 < b.x0 then b.x0 else spanX0
  let spanX1 := if b.x1 < spanX1 then b.x1 else spanX1
  if spanX1 ≤ spanX0 then s else s.composeRect m spanX0 rowY0 spanX1 rowY1

/-- One row of tiles. -/
def flipRow (m : Mode) (work : Nat → Nat → Bool) (b : Box) (s : Screen) (ty : Nat) : Screen :=
  let rowY0 := u16 (ty * tileSize)
  let rowY1 := u16 (rowY0 + tileSize)
  let rowY1 := if m.height < rowY1 then u16 m.height else rowY1
  let rowY0 := if rowY0 < b.y0 then b.y0 else rowY0
  let rowY1 := if b.y1 < rowY1 then b.y1 else rowY1
  if rowY1 ≤ rowY0 then s
  else
    let tx1 := (b.x1 - 1) / tileSize
    let dirty (tx : Nat) : Bool := decide (tx < m.tilesX ∧ ty < m.tilesY) && work tx ty
    (runs dirty tx1 (tx1 + 1) (b.x0 / tileSize)).foldl (flipRun m b rowY0 rowY1) s

def flip (m : Mode) (s : Screen) : Screen :=
  if s.box.x0 = unused ∨ s.box.y0 = unused then s
  else
    let b : Box :=
      { s.box with
        x1 := if m.width < s.box.x1 then u16 m.width else s.box.x1
        y1 := if m.height < s.box.y1 then u16 m.height else s.box.y1 }
    let work := s.tiles
    let s : Screen := { s with tiles := fun _ _ => false, box := Box.none }
    if b.x1 ≤ b.x0 ∨ b.y1 ≤ b.y0 then s
    else
      let ty0 := b.y0 / tileSize
      let ty1 := (b.y1 - 1) / tileSize
      (List.range' ty0 (ty1 + 1 - ty0)).foldl (flipRow m work b) s

/-! ## The system -/

inductive Op where
  | putpixel (x y color : Nat)
  | fillrect (x y w h color : Nat)
  | drawglyph (data : Nat → Nat) (x y color : Nat)
  | attach (z : Nat) (buf : Mem) (cfg : Option LayerConfig)
  | detach (z : Nat)
  | region (z : Nat) (buf : Mem) (x y w h : Nat)
  | flip

namespace Op

/-- A region is marked after what it covers of layer 0 or of another layer was drawn. -/
def run (m : Mode) (s : Screen) : Op → Screen
  | .putpixel x y color => s.putpixel m x y color
  | .fillrect x y w h color => s.fillrect m x y w h color
  | .drawglyph data x y color => s.drawglyph m data x y color
  | .attach z buf cfg => s.layerAttach m z buf cfg
  | .detach z => s.layerDetach m z
  | .region z buf x y w h =>
    (if z = 0 then { s with layer0 := buf } else s.setLayer z { s.layers z with buf := buf }).markRegionDirty m x y w h
  | .flip => s.flip m

/-- `layer_config_valid`, and a region outside of which nothing was drawn. -/
def Fits (m : Mode) (s : Screen) : Op → Prop
  | .attach _ _ cfg => ∀ c ∈ cfg, c.x0 < c.x1 ∧ c.y0 < c.y1 ∧ c.x1 ≤ m.width ∧ c.y1 ≤ m.height
  | .region z buf x y w h => x < 2 ^ 16 ∧ y < 2 ^ 16 ∧ w < 2 ^ 16 ∧ h < 2 ^ 16 ∧
    ∀ px < m.width, ∀ py < m.height, ¬ (x ≤ px ∧ px < x + w ∧ y ≤ py ∧ py < y + h) →
      if z = 0 then ByteMem.load32 buf (py * m.pitch + 4 * px) = s.basePixel m px py
      else ({ s.layers z with buf := buf } : Layer).over px py = (s.layers z).over px py
  | .putpixel .. | .fillrect .. | .drawglyph .. | .detach .. | .flip => True

end Op

/-- The framebuffer shows what there is to show, and nothing is marked. -/
structure Clean (m : Mode) (s : Screen) : Prop where
  small : ∀ z, (s.layers z).Small
  fb : ∀ x < m.width, ∀ y < m.height, s.fb x y = s.composite m x y
  box : s.box = Box.none
  tiles : ∀ tx ty, s.tiles tx ty = false

def Reachable (m : Mode) : Screen → Prop :=
  Run.Reachable (Clean m) fun s s' => ∃ op : Op, op.Fits m s ∧ s' = op.run m s

end Screen

end Serotonin.Vbe
