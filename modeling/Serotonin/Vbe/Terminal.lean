import Serotonin.Lib.ByteMem

/-! The terminal of `vbe.c`. What it draws does not depend on what is on the screen, so each
operation gives the state it leaves and the stores it makes into the buffer of layer 0. Which
tiles are marked is not part of this model. -/

namespace Serotonin.Vbe

open ByteMem (u32)

def fontWidth : Nat := 8
def fontHeight : Nat := 16

/-- A difference of unsigned 32-bit words. -/
def sub32 (a b : Nat) : Nat := (a + 2 ^ 32 - b % 2 ^ 32) % 2 ^ 32

/-- What is used of `vbe_info`. -/
structure Mode where
  width : Nat
  height : Nat
  pitch : Nat

namespace Mode

def maxCols (m : Mode) : Nat := m.width / fontWidth
def maxRows (m : Mode) : Nat := m.height / fontHeight
def fbSizeBytes (m : Mode) : Nat := u32 (m.height * m.pitch)

end Mode

/-- `term_state_t`: the variables of one terminal. -/
structure TermState where
  cursorCol : Nat
  cursorRow : Nat
  fgColor : Nat
  bgColor : Nat
  ansiFg : Nat
  ansiBg : Nat
  ansiBold : Bool
  scrollRegionTop : Nat
  scrollRegionBottom : Nat
  savedCursorCol : Nat
  savedCursorRow : Nat
  cursorVisible : Bool
  inAltScreen : Bool
  altCursorCol : Nat
  altCursorRow : Nat
deriving DecidableEq

/-- A glyph has sixteen rows of eight bits. -/
structure Font where
  glyph : UInt8 → Option (Nat → Nat)
  bold : UInt8 → Option (Nat → Nat)

/-- A store into the buffer of layer 0: a pixel, a `memset` or a `memmove`, with its place as a
32-bit difference to the start of the buffer. -/
inductive Store where
  | pixel (off color : Nat)
  | fill (off len : Nat) (byte : Nat)
  | move (dst src len : Nat)
deriving DecidableEq

def Store.off : Store → Nat
  | .pixel off _ | .fill off _ _ | .move off _ _ => off

def Store.len : Store → Nat
  | .pixel .. => 4
  | .fill _ len _ | .move _ _ len => len

/-- A screen of eighty columns and thirty rows. -/
def vga : Mode := ⟨640, 480, 2560⟩

def blankFont : Font := ⟨fun _ => none, fun _ => none⟩

/-- As after `ESC c`. -/
def freshTerm : TermState := ⟨0, 0, 0xFFFFFFFF, 0xFF000000, 0xFFFFFFFF, 0xFF000000, false, 0, 0, 0, 0, true, false, 0, 0⟩

def bytes (s : String) : List UInt8 := s.toList.map Char.toUInt8

/-! ## Drawing -/

def hline (m : Mode) (x y w color : Nat) : List Store :=
  (List.range w).map fun i => .pixel (u32 (y * m.pitch + 4 * x + 4 * i)) color

def fillrect (m : Mode) (x y w h color : Nat) : List Store :=
  let w := if m.width < u32 (x + w) then sub32 m.width x else w
  let h := if m.height < u32 (y + h) then sub32 m.height y else h
  (List.range h).flatMap fun row => hline m x (u32 (y + row)) w color

/-- Rows are as far apart as whole pixels go into the pitch. -/
def drawglyph (m : Mode) (data : Nat → Nat) (x y color : Nat) : List Store :=
  let stride := m.pitch / 4
  (List.range fontHeight).flatMap fun row =>
    ((List.range fontWidth).filter fun col => (data row).testBit (7 - col)).map fun col =>
      .pixel (u32 (4 * ((y + row) * stride + x + col))) color

def clearScreen (m : Mode) (color : Nat) : List Store := [.fill 0 m.fbSizeBytes (color % 256)]

/-! ## Scrolling -/

def scrollBottom (m : Mode) (ts : TermState) : Nat :=
  if ts.scrollRegionBottom ≠ 0 then ts.scrollRegionBottom else sub32 m.maxRows 1

/-- The rows that are scrolled in. -/
def blankRows (m : Mode) (first n color : Nat) : List Store :=
  (List.range n).flatMap fun i => fillrect m 0 (u32 (u32 (first + i) * fontHeight)) m.width fontHeight color

def scrollRegionUp (m : Mode) (color top bottom n : Nat) : List Store :=
  if n = 0 ∨ bottom ≤ top then []
  else
    let rows := u32 (bottom - top + 1)
    let n := if rows < n then rows else n
    let bytesPerRow := u32 (m.pitch * fontHeight)
    let move := sub32 rows n
    (if 0 < move then
      [.move (u32 (top * bytesPerRow)) (u32 ((top + n) * bytesPerRow)) (u32 (move * bytesPerRow))]
    else []) ++ blankRows m (u32 (sub32 bottom n + 1)) n color

def scrollRegionDown (m : Mode) (color top bottom n : Nat) : List Store :=
  if n = 0 ∨ bottom ≤ top then []
  else
    let rows := u32 (bottom - top + 1)
    let n := if rows < n then rows else n
    let bytesPerRow := u32 (m.pitch * fontHeight)
    let move := sub32 rows n
    (if 0 < move then
      [.move (u32 ((top + n) * bytesPerRow)) (u32 (top * bytesPerRow)) (u32 (move * bytesPerRow))]
    else []) ++ blankRows m top n color

/-! ## Characters -/

/-- At the end of a line. -/
def wrapColumn (m : Mode) (ts : TermState) : TermState :=
  if m.maxCols ≤ ts.cursorCol then { ts with cursorCol := 0, cursorRow := u32 (ts.cursorRow + 1) } else ts

/-- At the end of the scroll region or of the screen. -/
def scrollIn (m : Mode) (ts : TermState) : TermState × List Store :=
  let bottom := scrollBottom m ts
  if bottom < ts.cursorRow then
    ({ ts with cursorRow := bottom }, scrollRegionUp m ts.ansiBg ts.scrollRegionTop bottom 1)
  else if m.maxRows ≤ ts.cursorRow then
    ({ ts with cursorRow := sub32 m.maxRows 1 }, scrollRegionUp m ts.ansiBg 0 (sub32 m.maxRows 1) 1)
  else (ts, [])

def settle (m : Mode) (ts : TermState) : TermState × List Store := scrollIn m (wrapColumn m ts)

def findGlyph (f : Font) (bold : Bool) (c : UInt8) : Option (Nat → Nat) :=
  if bold then (f.bold c).or (f.glyph c) else f.glyph c

def drawChar (m : Mode) (f : Font) (ts : TermState) (c : UInt8) : List Store :=
  match findGlyph f ts.ansiBold c with
  | none => []
  | some data =>
    let px := u32 (ts.cursorCol * fontWidth)
    let py := u32 (ts.cursorRow * fontHeight)
    fillrect m px py fontWidth fontHeight ts.bgColor ++ drawglyph m data px py ts.fgColor

def terminalPutchar (m : Mode) (f : Font) (ts : TermState) (c : UInt8) : TermState × List Store :=
  if c = '\n'.toUInt8 then settle m { ts with cursorCol := 0, cursorRow := u32 (ts.cursorRow + 1) }
  else if c = '\r'.toUInt8 then settle m { ts with cursorCol := 0 }
  else if c = 8 then settle m { ts with cursorCol := ts.cursorCol - 1 }
  else
    let drawn := drawChar m f ts c
    let (ts, scrolled) := settle m { ts with cursorCol := u32 (ts.cursorCol + 1) }
    (ts, drawn ++ scrolled)

def setCursor (m : Mode) (ts : TermState) (col row : Nat) : TermState :=
  if m.maxCols ≤ col ∨ m.maxRows ≤ row then ts else { ts with cursorCol := col, cursorRow := row }

def terminalBack (m : Mode) (ts : TermState) : TermState × List Store :=
  if ts.cursorCol = 0 ∧ ts.cursorRow = 0 then (ts, [])
  else
    let ts :=
      if ts.cursorCol = 0 then { ts with cursorRow := ts.cursorRow - 1, cursorCol := sub32 m.maxCols 1 }
      else { ts with cursorCol := ts.cursorCol - 1 }
    (ts, fillrect m (u32 (ts.cursorCol * fontWidth)) (u32 (ts.cursorRow * fontHeight)) fontWidth fontHeight 0)

end Serotonin.Vbe
