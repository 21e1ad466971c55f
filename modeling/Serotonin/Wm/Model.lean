import Mathlib.Data.List.Basic
import Serotonin.Vbe.Ansi

/-! The terminal of a window, `user/wm/wm_terminal.c`, as a machine that is fed one byte at a time.
The cells are an array of `cols * rows` cells. Drawing is not part of this model, and `atoi` is that
of the C library. The tables of colours are those of `vbe.c`. -/

namespace Serotonin.Wm

open ByteMem (u32)
open Vbe (sub32 isalpha ansiColorTable vbePalette)

/-- `term_cell_t`. -/
structure Cell where
  ch : UInt8
  fg : Nat
  bg : Nat
  bold : Bool
  dirty : Bool
deriving DecidableEq

inductive EscState
  | normal
  | gotEsc
  | inCsi
deriving DecidableEq

/-- `term_state_t`, but for what only the renderer uses. -/
structure Term where
  cursorCol : Nat
  cursorRow : Nat
  savedCol : Nat
  savedRow : Nat
  fg : Nat
  bg : Nat
  bold : Bool
  cursorVisible : Bool
  scrollTop : Nat
  scrollBot : Nat
  inAltScreen : Bool
  altCol : Nat
  altRow : Nat
  escState : EscState
  escBuf : List UInt8
  cols : Nat
  rows : Nat
  cells : Nat → Cell
  altCells : Nat → Cell
  fbScrollDelta : Int
  fbScrollTop : Nat
  fbScrollBot : Nat

/-- `g_wm_theme`. -/
structure Theme where
  termFg : Nat
  termBg : Nat

/-- The number that a string stands for, as an `int`. -/
abbrev Atoi := List UInt8 → BitVec 32

namespace Term

/-! ## Cells -/

/-- The index of `cell_at`. -/
def place (ts : Term) (col row : Nat) : Nat := u32 (u32 (row * ts.cols) + col)

/-- `clear_cell`. -/
def blank (ts : Term) : Cell := ⟨32, ts.fg, ts.bg, false, true⟩

/-- A loop over cells that changes each of them alone. -/
def touch (ts : Term) (places : List Nat) (f : Cell → Cell) : Term :=
  { ts with cells := fun i => if i ∈ places then f (ts.cells i) else ts.cells i }

/-- The cells of a row from the column `a` to before `b`. -/
def part (ts : Term) (row a b : Nat) : List Nat := (List.range' a (b - a)).map (ts.place · row)

/-- The cells of the rows from `a` to before `b`. -/
def lines (ts : Term) (a b : Nat) : List Nat := (List.range' a (b - a)).flatMap fun r => ts.part r 0 ts.cols

def clear (ts : Term) (places : List Nat) : Term := ts.touch places fun _ => ts.blank

def markDirty (ts : Term) (places : List Nat) : Term := ts.touch places fun c => { c with dirty := true }

/-- `memmove` of `n` cells. -/
def moveCells (ts : Term) (dst src n : Nat) : Term :=
  { ts with cells := fun i => if dst ≤ i ∧ i < dst + n then ts.cells (src + (i - dst)) else ts.cells i }

def scrollBottom (ts : Term) : Nat := if ts.scrollBot ≠ 0 then ts.scrollBot else sub32 ts.rows 1

/-! ## Scrolling -/

/-- The scroll goes on with those before it: the same way, in the same region. -/
def joins (ts : Term) (up : Bool) (top bot : Nat) : Bool :=
  (if up then 0 ≤ ts.fbScrollDelta else ts.fbScrollDelta ≤ 0) &&
    (ts.fbScrollDelta == 0 || ts.fbScrollTop == top && ts.fbScrollBot == bot)

/-- The renderer makes up for scrolls in one go; else all cells of the region are drawn again. -/
def noteScroll (ts : Term) (up : Bool) (top bot n : Nat) : Term :=
  if ts.joins up top bot then
    { ts with
      fbScrollDelta := if up then ts.fbScrollDelta + n else ts.fbScrollDelta - n
      fbScrollTop := top
      fbScrollBot := bot }
  else { ts with fbScrollDelta := 0 }.markDirty (ts.lines top (bot + 1))

/-- The rows of the region move up by `n`, and the last ones are cleared. -/
def shiftUp (ts : Term) (top bot n : Nat) : Term :=
  (ts.moveCells (u32 (top * ts.cols)) (u32 ((top + n) * ts.cols)) (u32 ((bot - top + 1 - n) * ts.cols))).clear
    (ts.lines (u32 (sub32 bot n + 1)) (bot + 1))

def shiftDown (ts : Term) (top bot n : Nat) : Term :=
  (ts.moveCells (u32 ((top + n) * ts.cols)) (u32 (top * ts.cols)) (u32 ((bot - top + 1 - n) * ts.cols))).clear
    (ts.lines top (top + n))

/-- No more than there are rows in the region. -/
def scrollCount (top bot n : Nat) : Nat := if bot - top + 1 < n then bot - top + 1 else n

def scrollUp (ts : Term) (top bot n : Nat) : Term :=
  if n = 0 ∨ bot < top ∨ ts.rows ≤ bot then ts
  else (ts.shiftUp top bot (scrollCount top bot n)).noteScroll true top bot (scrollCount top bot n)

def scrollDown (ts : Term) (top bot n : Nat) : Term :=
  if n = 0 ∨ bot < top ∨ ts.rows ≤ bot then ts
  else (ts.shiftDown top bot (scrollCount top bot n)).noteScroll false top bot (scrollCount top bot n)

/-! ## Screens -/

def setCursor (ts : Term) (col row : Nat) : Term := { ts with cursorCol := col, cursorRow := row }

def enterAlt (ts : Term) : Term :=
  if ts.inAltScreen then ts
  else
    let ts := { ts with
      altCol := ts.cursorCol, altRow := ts.cursorRow, inAltScreen := true, cells := ts.altCells, altCells := ts.cells }
    (ts.clear (List.range (u32 (ts.cols * ts.rows)))).setCursor 0 0

def leaveAlt (ts : Term) : Term :=
  if ts.inAltScreen then
    let ts := { ts with
      inAltScreen := false, cells := ts.altCells, altCells := ts.cells, cursorCol := ts.altCol, cursorRow := ts.altRow
      scrollTop := 0, scrollBot := 0 }
    ts.markDirty (List.range (u32 (ts.cols * ts.rows)))
  else ts

/-- `CSI ? code h` and `CSI ? code l`. -/
def decPrivate (ts : Term) (code : Int) (cmd : Char) : Term :=
  match cmd with
  | 'h' => if code = 25 then { ts with cursorVisible := true } else if code = 1049 then ts.enterAlt else ts
  | 'l' => if code = 25 then { ts with cursorVisible := false } else if code = 1049 then ts.leaveAlt else ts
  | _ => ts

/-! ## Colours -/

def resetColors (ts : Term) (theme : Theme) : Term := { ts with fg := theme.termFg, bg := theme.termBg, bold := false }

def solid (color : Nat) : Nat := 0xFF000000 + color

/-- A code of `CSI m` that stands alone. -/
def applyCode (ts : Term) (theme : Theme) (code : Int) : Term :=
  let table (i : Int) := solid (ansiColorTable.getD i.toNat 0)
  if code = 0 then ts.resetColors theme
  else if code = 1 then { ts with bold := true }
  else if code = 22 then { ts with bold := false }
  else if 30 ≤ code ∧ code ≤ 37 then { ts with fg := table (code - 30) }
  else if code = 39 then { ts with fg := theme.termFg }
  else if 40 ≤ code ∧ code ≤ 47 then { ts with bg := table (code - 40) }
  else if code = 49 then { ts with bg := theme.termBg }
  else if 90 ≤ code ∧ code ≤ 97 then { ts with fg := table (8 + (code - 90)) }
  else if 100 ≤ code ∧ code ≤ 107 then { ts with bg := table (8 + (code - 100)) }
  else ts

def setColor (ts : Term) (isFg : Bool) (color : Nat) : Term := if isFg then { ts with fg := color } else { ts with bg := color }

/-- The loop of `CSI m`: an extended colour takes the codes that belong to it. -/
def selectGraphics (ts : Term) (theme : Theme) : List Int → Term
  | [] => ts
  | code :: rest =>
    if code = 38 ∨ code = 48 then
      match rest with
      | 5 :: i :: rest =>
        let i := if i < 0 then 0 else if 255 < i then 255 else i
        selectGraphics (ts.setColor (code == 38) (solid (vbePalette i.toNat))) theme rest
      | 2 :: r :: g :: b :: rest =>
        let byte (x : Int) := (x % 256).toNat
        selectGraphics (ts.setColor (code == 38) (solid (byte r * 65536 + byte g * 256 + byte b))) theme rest
      | rest => selectGraphics ts theme rest
    else selectGraphics (ts.applyCode theme code) theme rest

/-! ## Commands -/

/-- Counted from one, and no more than there are. -/
def within (n max : Nat) : Nat :=
  let n := if n < 1 then 1 else n
  sub32 (if max < n then max else n) 1

def eraseDisplay (ts : Term) (mode : Int) : Term :=
  if mode = 0 then
    (ts.clear (ts.part ts.cursorRow ts.cursorCol ts.cols)).clear (ts.lines (u32 (ts.cursorRow + 1)) ts.rows)
  else if mode = 1 then
    (ts.clear (ts.lines 0 ts.cursorRow)).clear (ts.part ts.cursorRow 0 (min (ts.cursorCol + 1) ts.cols))
  else if mode = 2 then (ts.clear (ts.lines 0 ts.rows)).setCursor 0 0
  else ts

def eraseLine (ts : Term) (mode : Int) : Term :=
  if mode = 0 then ts.clear (ts.part ts.cursorRow ts.cursorCol ts.cols)
  else if mode = 1 then ts.clear (ts.part ts.cursorRow 0 (min (ts.cursorCol + 1) ts.cols))
  else if mode = 2 then ts.clear (ts.part ts.cursorRow 0 ts.cols)
  else ts

def setScrollRegion (ts : Term) (top bot : Nat) : Term :=
  let top := if top < 1 then 1 else top
  let bot := if ts.rows < bot then ts.rows else bot
  let (top, bot) := if bot ≤ top then (1, ts.rows) else (top, bot)
  { ts with scrollTop := top - 1, scrollBot := sub32 bot 1, cursorCol := 0, cursorRow := 0 }

def insertLines (ts : Term) (n : Nat) : Term :=
  if ts.cursorRow ≤ ts.scrollBottom then ts.scrollDown ts.cursorRow ts.scrollBottom n else ts

def deleteLines (ts : Term) (n : Nat) : Term :=
  if ts.cursorRow ≤ ts.scrollBottom then ts.scrollUp ts.cursorRow ts.scrollBottom n else ts

/-- The column `n` columns behind the cursor. -/
def past (ts : Term) (n : Nat) : Nat := u32 (ts.cursorCol + n)

/-- The number of characters that stay in the row when `n` are put in or taken out. -/
def kept (ts : Term) (n : Nat) : Nat := sub32 (sub32 ts.cols ts.cursorCol) n

def moveRight (ts : Term) (n : Nat) : Term :=
  if ts.past n < ts.cols then
    ts.moveCells (ts.place (ts.past n) ts.cursorRow) (ts.place ts.cursorCol ts.cursorRow) (ts.kept n)
  else ts

def moveLeft (ts : Term) (n : Nat) : Term :=
  if ts.past n < ts.cols then
    ts.moveCells (ts.place ts.cursorCol ts.cursorRow) (ts.place (ts.past n) ts.cursorRow) (ts.kept n)
  else ts

def insertChars (ts : Term) (n : Nat) : Term :=
  ((ts.moveRight n).clear (ts.part ts.cursorRow ts.cursorCol (min (ts.past n) ts.cols))).markDirty
    (ts.part ts.cursorRow ts.cursorCol ts.cols)

/-- What is cleared starts `n` columns before the end of the row, wherever the cursor is. -/
def deleteChars (ts : Term) (n : Nat) : Term :=
  ((ts.moveLeft n).clear (ts.part ts.cursorRow (sub32 ts.cols n) ts.cols)).markDirty
    (ts.part ts.cursorRow ts.cursorCol ts.cols)

def eraseChars (ts : Term) (n : Nat) : Term :=
  ts.clear (ts.part ts.cursorRow ts.cursorCol (min (ts.past n) ts.cols))

/-! ## Control sequences -/

/-- The strings between semicolons, at most `n` of them. -/
def tokens : Nat → List UInt8 → List (List UInt8)
  | 0, _ => []
  | n + 1, p => if p = [] then [] else p.takeWhile (· != 59) :: tokens n ((p.dropWhile (· != 59)).drop 1)

/-- What `handle_csi` makes of its buffer: the command, the string before it, and whether that
starts with a question mark. -/
structure Csi where
  cmd : Char
  content : List UInt8
  decPrivate : Bool

def csi (escBuf : List UInt8) : Option Csi :=
  match (escBuf.drop 1).getLast? with
  | none => none
  | some cmd =>
    let content := (escBuf.drop 1).dropLast.takeWhile (· != 0)
    some (if content.head? = some 63 then ⟨.ofNat cmd.toNat, content.tail, true⟩ else ⟨.ofNat cmd.toNat, content, false⟩)

/-- The parameter `i`, if it is there. -/
def param (atoi : Atoi) (params : List (List UInt8)) (i : Nat) (default : BitVec 32) : BitVec 32 :=
  match params[i]? with
  | none => default
  | some p => atoi p

/-- A count is 1 unless it is given and positive. -/
def count (atoi : Atoi) (params : List (List UInt8)) : Nat :=
  let n := param atoi params 0 1
  if 0 < n.toInt then n.toNat else 1

def command (atoi : Atoi) (theme : Theme) (ts : Term) (cmd : Char) (params : List (List UInt8)) : Term :=
  let n := count atoi params
  let mode := (param atoi params 0 0).toInt
  match cmd with
  | 'm' => if params = [] then ts.resetColors theme else ts.selectGraphics theme (params.map fun p => (atoi p).toInt)
  | 'H' | 'f' => ts.setCursor (within (param atoi params 1 1).toNat ts.cols) (within (param atoi params 0 1).toNat ts.rows)
  | 'A' => { ts with cursorRow := ts.cursorRow - n }
  | 'B' => { ts with cursorRow := if ts.rows ≤ u32 (ts.cursorRow + n) then sub32 ts.rows 1 else u32 (ts.cursorRow + n) }
  | 'C' => { ts with cursorCol := if ts.cols ≤ u32 (ts.cursorCol + n) then sub32 ts.cols 1 else u32 (ts.cursorCol + n) }
  | 'D' => { ts with cursorCol := ts.cursorCol - n }
  | 'J' => ts.eraseDisplay mode
  | 'K' => ts.eraseLine mode
  | 'r' => ts.setScrollRegion (param atoi params 0 1).toNat (param atoi params 1 (.ofNat 32 ts.rows)).toNat
  | 's' => { ts with savedCol := ts.cursorCol, savedRow := ts.cursorRow }
  | 'u' => ts.setCursor ts.savedCol ts.savedRow
  | 'L' => ts.insertLines n
  | 'M' => ts.deleteLines n
  | '@' => ts.insertChars n
  | 'P' => ts.deleteChars n
  | 'S' => ts.scrollUp ts.scrollTop ts.scrollBottom n
  | 'T' => ts.scrollDown ts.scrollTop ts.scrollBottom n
  | 'X' => ts.eraseChars n
  | 'd' => ts.setCursor ts.cursorCol (within (param atoi params 0 1).toNat ts.rows)
  | 'G' => ts.setCursor (within (param atoi params 0 1).toNat ts.cols) ts.cursorRow
  | _ => ts

def handleCsi (atoi : Atoi) (theme : Theme) (ts : Term) : Term :=
  match csi ts.escBuf with
  | none => ts
  | some s =>
    if s.decPrivate then ts.decPrivate (atoi s.content).toInt s.cmd
    else command atoi theme ts s.cmd (tokens 16 s.content)

/-! ## Bytes -/

/-- A new line at the bottom of the region scrolls it. -/
def newLine (ts : Term) : Term :=
  let ts := { ts with cursorCol := 0 }
  if ts.scrollBottom ≤ ts.cursorRow then ts.scrollUp ts.scrollTop ts.scrollBottom 1
  else { ts with cursorRow := u32 (ts.cursorRow + 1) }

def printable (ts : Term) (c : UInt8) : Term :=
  let ts := if ts.cols ≤ ts.cursorCol then ts.newLine else ts
  let ts := ts.touch [ts.place ts.cursorCol ts.cursorRow] fun _ => ⟨c, ts.fg, ts.bg, ts.bold, true⟩
  { ts with cursorCol := u32 (ts.cursorCol + 1) }

def putchar (ts : Term) (c : UInt8) : Term :=
  if c = 10 then ts.newLine
  else if c = 13 then { ts with cursorCol := 0 }
  else if c = 9 then
    let next := u32 (ts.cursorCol + 8) / 8 * 8
    { ts with cursorCol := if ts.cols ≤ next then sub32 ts.cols 1 else next }
  else if c = 8 then { ts with cursorCol := ts.cursorCol - 1 }
  else if c = 7 then ts
  else if c < 32 then ts
  else ts.printable c

def reverseIndex (ts : Term) : Term :=
  if ts.cursorRow ≤ ts.scrollTop then ts.scrollDown ts.scrollTop ts.scrollBottom 1
  else { ts with cursorRow := ts.cursorRow - 1 }

def fullReset (ts : Term) (theme : Theme) : Term :=
  let ts := { ts.resetColors theme with scrollTop := 0, scrollBot := 0 }
  (ts.clear (List.range (u32 (ts.cols * ts.rows)))).setCursor 0 0

def escBufSize : Nat := 64

/-- A byte of a control sequence is noted, if there is room. -/
def note (ts : Term) (c : UInt8) : Term :=
  if ts.escBuf.length < escBufSize - 1 then { ts with escBuf := ts.escBuf ++ [c] } else ts

def isFinal (c : UInt8) : Bool := isalpha c || c == 126 || c == 64

def afterEsc (ts : Term) (theme : Theme) (c : UInt8) : Term :=
  if c = 91 then { ts with escBuf := [91], escState := .inCsi }
  else
    let ts := { ts with escState := .normal }
    if c = 55 then { ts with savedCol := ts.cursorCol, savedRow := ts.cursorRow }
    else if c = 56 then ts.setCursor ts.savedCol ts.savedRow
    else if c = 77 then ts.reverseIndex
    else if c = 99 then ts.fullReset theme
    else ts

/-- One byte of `term_process`. -/
def process (atoi : Atoi) (theme : Theme) (ts : Term) (c : UInt8) : Term :=
  match ts.escState with
  | .normal => if c = 27 then { ts with escState := .gotEsc, escBuf := [] } else ts.putchar c
  | .gotEsc => ts.afterEsc theme c
  | .inCsi =>
    let ts := ts.note c
    if isFinal c then { ts.handleCsi atoi theme with escState := .normal } else ts

end Term

/-! ## Whole terminals -/

/-- A cell as `clear_cell` leaves it. -/
def clearCell (fg bg : Nat) : Cell := ⟨32, fg, bg, false, true⟩

/-- The arrays that `malloc` gives hold anything behind their cells. -/
def termInit (theme : Theme) (cols rows : Nat) (behind behindAlt : Nat → Cell) : Term :=
  { cursorCol := 0, cursorRow := 0, savedCol := 0, savedRow := 0, fg := theme.termFg, bg := theme.termBg, bold := false
    cursorVisible := true, scrollTop := 0, scrollBot := 0, inAltScreen := false, altCol := 0, altRow := 0
    escState := .normal, escBuf := [], cols, rows
    cells := fun i => if i < u32 (cols * rows) then clearCell theme.termFg theme.termBg else behind i
    altCells := fun i => if i < u32 (cols * rows) then clearCell theme.termFg theme.termBg else behindAlt i
    fbScrollDelta := 0, fbScrollTop := 0, fbScrollBot := 0 }

/-- The cells that fit are copied, row by row. -/
def termResize (ts : Term) (cols rows : Nat) (behind behindAlt : Nat → Cell) : Term :=
  let blank := clearCell ts.fg ts.bg
  { ts with
    cells := fun i =>
      if i < u32 (cols * rows) then
        if i / cols < min ts.rows rows ∧ i % cols < min ts.cols cols then
          { ts.cells (i / cols * ts.cols + i % cols) with dirty := true }
        else blank
      else behind i
    altCells := fun i => if i < u32 (cols * rows) then blank else behindAlt i
    cols, rows, scrollTop := 0, scrollBot := 0
    cursorCol := if cols ≤ ts.cursorCol then cols - 1 else ts.cursorCol
    cursorRow := if rows ≤ ts.cursorRow then rows - 1 else ts.cursorRow }

end Serotonin.Wm
