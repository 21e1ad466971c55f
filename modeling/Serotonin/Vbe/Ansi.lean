import Serotonin.Vbe.Terminal

/-! Escape sequences: `vbe_handle_ansi_sequence`, and `vbe_terminal_puts` as a machine that is
fed one byte at a time. -/

namespace Serotonin.Vbe

open ByteMem (u32)

/-! ## Numbers -/

def isdigit (c : UInt8) : Bool := '0'.toUInt8 ≤ c && c ≤ '9'.toUInt8

def isalpha (c : UInt8) : Bool :=
  'A'.toUInt8 ≤ c && c ≤ 'Z'.toUInt8 || 'a'.toUInt8 ≤ c && c ≤ 'z'.toUInt8

def isspace (c : UInt8) : Bool := c == ' '.toUInt8 || c == 9 || c == '\n'.toUInt8 || c == '\r'.toUInt8

def digits (s : List UInt8) : Nat :=
  (s.takeWhile isdigit).foldl (fun n c => u32 (n * 10 + (c.toNat - '0'.toNat))) 0

/-- The word that `atoi` gives; from `2 ^ 31` on it stands for a negative number. -/
def atoi (s : List UInt8) : Nat :=
  match s.dropWhile isspace with
  | [] => 0
  | c :: cs =>
    if c = '-'.toUInt8 then sub32 0 (digits cs)
    else if c = '+'.toUInt8 then digits cs
    else digits (c :: cs)

/-- The tokens `strtok` finds, empty ones left out. -/
def strtok (delim : UInt8) (s : List UInt8) : List (List UInt8) :=
  (s.splitOn delim).filter fun tok => tok ≠ []

/-- The first parameter, if it is a positive number. -/
def repeatCount (params : List (List UInt8)) : Nat :=
  match params with
  | [] => 1
  | p :: _ => if 0 < atoi p ∧ atoi p < 2 ^ 31 then atoi p else 1

def param (params : List (List UInt8)) (i default : Nat) : Nat :=
  match params[i]? with
  | none => default
  | some p => atoi p

/-! ## Colours -/

def vbeColors : List Nat :=
  [0x000000, 0x0000AA, 0x00AA00, 0x00AAAA, 0xAA0000, 0xAA00AA, 0xAA5500, 0xAAAAAA,
   0x555555, 0x5555FF, 0x55FF55, 0x55FFFF, 0xFF5555, 0xFF55FF, 0xFFFF00, 0xFFFFFF]

def ansiColorTable : List Nat :=
  [0x000000, 0xFF0000, 0x00FF00, 0xFFFF00, 0x0000FF, 0xFF00FF, 0x00FFFF, 0xFFFFFF,
   0x404040, 0xFF4040, 0x40FF40, 0xFFFF40, 0x4040FF, 0xFF40FF, 0x40FFFF, 0xFFFFFF]

/-- What `vbe_palette_init` puts into `vbe_palette`: the sixteen colours, a cube of colours and
a row of greys. -/
def vbePalette (i : Nat) : Nat :=
  if i < 16 then vbeColors.getD i 0
  else if i < 232 then
    let level (k : Nat) : Nat := if k = 0 then 0 else 55 + k * 40
    level ((i - 16) / 36) * 65536 + level ((i - 16) / 6 % 6) * 256 + level ((i - 16) % 6)
  else (8 + (i - 232) * 10) * 65793

namespace TermState

def setFg (ts : TermState) (color : Nat) : TermState := { ts with ansiFg := color, fgColor := color }
def setBg (ts : TermState) (color : Nat) : TermState := { ts with ansiBg := color, bgColor := color }

def resetColors (ts : TermState) : TermState :=
  { ts with
    ansiFg := 0xFFFFFFFF, ansiBg := 0xFF000000, ansiBold := false
    fgColor := 0xFFFFFFFF, bgColor := 0xFF000000 }

/-- The extended colours set only the colour that is drawn with. -/
def setExtended (ts : TermState) (isFg : Bool) (color : Nat) : TermState :=
  if isFg then { ts with fgColor := color } else { ts with bgColor := color }

/-- One code of `CSI m` that stands alone. -/
def applyCode (ts : TermState) (code : Nat) : TermState :=
  if code = 0 then ts.resetColors
  else if code = 1 then { ts with ansiBold := true }
  else if code = 22 then { ts with ansiBold := false }
  else if 30 ≤ code ∧ code ≤ 37 then ts.setFg (ansiColorTable.getD (code - 30) 0)
  else if code = 39 then ts.setFg 0xFFFFFFFF
  else if 40 ≤ code ∧ code ≤ 47 then ts.setBg (ansiColorTable.getD (code - 40) 0)
  else if code = 49 then ts.setBg 0xFF000000
  else if 90 ≤ code ∧ code ≤ 97 then ts.setFg (ansiColorTable.getD (8 + (code - 90)) 0)
  else if 100 ≤ code ∧ code ≤ 107 then ts.setBg (ansiColorTable.getD (8 + (code - 100)) 0)
  else ts

end TermState

/-- The loop of `CSI m`: an extended colour takes the codes that belong to it. -/
def selectGraphics (ts : TermState) : List Nat → TermState
  | [] => ts
  | code :: rest =>
    if code = 38 ∨ code = 48 then
      match rest with
      | 5 :: i :: rest =>
        let i := if 2 ^ 31 ≤ i then 0 else min i 255
        selectGraphics (ts.setExtended (code = 38) (0xFF000000 + vbePalette i)) rest
      | 2 :: r :: g :: b :: rest =>
        selectGraphics (ts.setExtended (code = 38) (0xFF000000 + r % 256 * 65536 + g % 256 * 256 + b % 256)) rest
      | rest => selectGraphics ts rest
    else selectGraphics (ts.applyCode code) rest

/-! ## Commands -/

/-- `CSI ? … h` and `CSI ? … l`. Both screens share one buffer. -/
def decPrivate (m : Mode) (ts : TermState) (code : Nat) (cmd : Char) : TermState × List Store :=
  match cmd with
  | 'h' =>
    if code = 25 then ({ ts with cursorVisible := true }, [])
    else if code = 1049 ∧ ts.inAltScreen = false then
      let ts := { ts with altCursorCol := ts.cursorCol, altCursorRow := ts.cursorRow, inAltScreen := true }
      (setCursor m ts 0 0, clearScreen m ts.ansiBg)
    else (ts, [])
  | 'l' =>
    if code = 25 then ({ ts with cursorVisible := false }, [])
    else if code = 1049 ∧ ts.inAltScreen then
      ({ ts with inAltScreen := false, cursorCol := ts.altCursorCol, cursorRow := ts.altCursorRow },
        clearScreen m ts.ansiBg)
    else (ts, [])
  | _ => (ts, [])

def eraseDisplay (m : Mode) (ts : TermState) (mode : Nat) : TermState × List Store :=
  let px := u32 (ts.cursorCol * fontWidth)
  let py := u32 (ts.cursorRow * fontHeight)
  if mode = 0 then
    let nextY := u32 (u32 (ts.cursorRow + 1) * fontHeight)
    (ts, fillrect m px py (sub32 m.width px) fontHeight ts.ansiBg ++
      if nextY < m.height then fillrect m 0 nextY m.width (m.height - nextY) ts.ansiBg else [])
  else if mode = 1 then
    (ts, (if 0 < py then fillrect m 0 0 m.width py ts.ansiBg else []) ++
      fillrect m 0 py (u32 (u32 (ts.cursorCol + 1) * fontWidth)) fontHeight ts.ansiBg)
  else if mode = 2 then (setCursor m ts 0 0, clearScreen m ts.ansiBg)
  else (ts, [])

def eraseLine (m : Mode) (ts : TermState) (mode : Nat) : List Store :=
  let px := u32 (ts.cursorCol * fontWidth)
  let py := u32 (ts.cursorRow * fontHeight)
  if mode = 0 then fillrect m px py (sub32 m.width px) fontHeight ts.ansiBg
  else if mode = 1 then fillrect m 0 py (u32 (u32 (ts.cursorCol + 1) * fontWidth)) fontHeight ts.ansiBg
  else if mode = 2 then fillrect m 0 py m.width fontHeight ts.ansiBg
  else []

def setScrollRegion (m : Mode) (ts : TermState) (top bot : Nat) : TermState :=
  let top := if top < 1 then 1 else top
  let bot := if m.maxRows < bot then m.maxRows else bot
  let region (top bot : Nat) : TermState :=
    setCursor m { ts with scrollRegionTop := sub32 top 1, scrollRegionBottom := sub32 bot 1 } 0 0
  if bot ≤ top then region 1 m.maxRows else region top bot

/-- The sixteen lines of one row of text, moved from one column to another. -/
def moveChars (m : Mode) (row dst src count : Nat) : List Store :=
  (List.range fontHeight).map fun line =>
    let start := u32 (row * fontHeight + line) * m.pitch
    .move (u32 (start + dst * fontWidth * 4)) (u32 (start + src * fontWidth * 4)) (u32 (count * fontWidth * 4))

def insertChars (m : Mode) (ts : TermState) (n : Nat) : List Store :=
  let past := u32 (ts.cursorCol + n)
  (if past < m.maxCols then moveChars m ts.cursorRow past ts.cursorCol (m.maxCols - past) else []) ++
    fillrect m (u32 (ts.cursorCol * fontWidth)) (u32 (ts.cursorRow * fontHeight)) (u32 (n * fontWidth)) fontHeight ts.ansiBg

def deleteChars (m : Mode) (ts : TermState) (n : Nat) : List Store :=
  let past := u32 (ts.cursorCol + n)
  (if past < m.maxCols then moveChars m ts.cursorRow ts.cursorCol past (m.maxCols - past) else []) ++
    fillrect m (u32 (sub32 m.maxCols n * fontWidth)) (u32 (ts.cursorRow * fontHeight)) (u32 (n * fontWidth)) fontHeight
      ts.ansiBg

def eraseChars (m : Mode) (ts : TermState) (n : Nat) : List Store :=
  fillrect m (u32 (ts.cursorCol * fontWidth)) (u32 (ts.cursorRow * fontHeight)) (u32 (n * fontWidth)) fontHeight ts.ansiBg

/-- A number of a row or column, counted from one and no more than there are. -/
def place (n max : Nat) : Nat :=
  let n := if n < 1 then 1 else n
  sub32 (if max < n then max else n) 1

def command (m : Mode) (ts : TermState) (params : List (List UInt8)) (cmd : Char) : TermState × List Store :=
  let n := repeatCount params
  match cmd with
  | 'm' => (if params = [] then ts.resetColors else selectGraphics ts (params.map atoi), [])
  | 'H' | 'f' => (setCursor m ts (place (param params 1 1) m.maxCols) (place (param params 0 1) m.maxRows), [])
  | 'A' => (setCursor m ts ts.cursorCol (ts.cursorRow - n), [])
  | 'B' =>
    let row := u32 (ts.cursorRow + n)
    (setCursor m ts ts.cursorCol (if m.maxRows ≤ row then sub32 m.maxRows 1 else row), [])
  | 'C' =>
    let col := u32 (ts.cursorCol + n)
    (setCursor m ts (if m.maxCols ≤ col then sub32 m.maxCols 1 else col) ts.cursorRow, [])
  | 'D' => (setCursor m ts (ts.cursorCol - n) ts.cursorRow, [])
  | 'J' => eraseDisplay m ts (param params 0 0)
  | 'K' => (ts, eraseLine m ts (param params 0 0))
  | 'r' => (setScrollRegion m ts (param params 0 1) (param params 1 m.maxRows), [])
  | 's' => ({ ts with savedCursorCol := ts.cursorCol, savedCursorRow := ts.cursorRow }, [])
  | 'u' => (setCursor m ts ts.savedCursorCol ts.savedCursorRow, [])
  | 'L' =>
    let bot := scrollBottom m ts
    (ts, if ts.cursorRow ≤ bot then scrollRegionDown m ts.ansiBg ts.cursorRow bot n else [])
  | 'M' =>
    let bot := scrollBottom m ts
    (ts, if ts.cursorRow ≤ bot then scrollRegionUp m ts.ansiBg ts.cursorRow bot n else [])
  | '@' => (ts, insertChars m ts n)
  | 'P' => (ts, deleteChars m ts n)
  | 'S' => (ts, scrollRegionUp m ts.ansiBg ts.scrollRegionTop (scrollBottom m ts) n)
  | 'T' => (ts, scrollRegionDown m ts.ansiBg ts.scrollRegionTop (scrollBottom m ts) n)
  | 'X' => (ts, eraseChars m ts n)
  | 'd' => (setCursor m ts ts.cursorCol (place (param params 0 1) m.maxRows), [])
  | 'G' => (setCursor m ts (place (param params 0 1) m.maxCols) ts.cursorRow, [])
  | _ => (ts, [])

/-- At most sixteen parameters are kept. -/
def parameters (body : List UInt8) : List (List UInt8) := (strtok ';'.toUInt8 body).take 16

/-- What a sequence asks for. -/
inductive Request where
  | dec (code : Nat) (cmd : Char)
  | csi (params : List (List UInt8)) (cmd : Char)

/-- The sequence is read as a C string: it ends before a null byte. -/
def request (seq : List UInt8) : Option Request :=
  let buf := seq.takeWhile (· ≠ 0)
  match buf.getLast? with
  | none => none
  | some cmd =>
    match buf.dropLast with
    | [] => some (.csi [] (Char.ofUInt8 cmd))
    | c :: body =>
      if c = '?'.toUInt8 then some (.dec (atoi body) (Char.ofUInt8 cmd))
      else some (.csi (parameters (c :: body)) (Char.ofUInt8 cmd))

def Request.run (m : Mode) (ts : TermState) : Request → TermState × List Store
  | .dec code cmd => decPrivate m ts code cmd
  | .csi params cmd => command m ts params cmd

def handleAnsiSequence (m : Mode) (ts : TermState) (seq : List UInt8) : TermState × List Store :=
  match request seq with
  | none => (ts, [])
  | some r => r.run m ts

/-! ## Bytes -/

/-- Inside an escape sequence, what `esc_buf` holds of it. -/
abbrev Parser := Option (List UInt8)

structure Term where
  ts : TermState
  parser : Parser

def esc : UInt8 := 0x1B
def escBufSize : Nat := 32

def stored (buf : List UInt8) (c : UInt8) : List UInt8 :=
  if buf.length < escBufSize - 1 then buf ++ [c] else buf

def isFinal (c : UInt8) : Bool := isalpha c || c == '~'.toUInt8 || c == '@'.toUInt8

/-- The escape sequences of one character. -/
def handleEscape (m : Mode) (ts : TermState) (c : UInt8) : TermState × List Store :=
  match Char.ofUInt8 c with
  | '7' => ({ ts with savedCursorCol := ts.cursorCol, savedCursorRow := ts.cursorRow }, [])
  | '8' => (setCursor m ts ts.savedCursorCol ts.savedCursorRow, [])
  | 'M' =>
    if ts.cursorRow ≤ ts.scrollRegionTop then
      (ts, scrollRegionDown m ts.ansiBg ts.scrollRegionTop (scrollBottom m ts) 1)
    else ({ ts with cursorRow := ts.cursorRow - 1 }, [])
  | 'c' =>
    let ts := { ts.resetColors with scrollRegionTop := 0, scrollRegionBottom := 0 }
    (setCursor m ts 0 0, clearScreen m ts.ansiBg)
  | _ => (ts, [])

/-- An escape character before any other letter than these is never left. -/
def endsEscape (c : UInt8) : Bool := !isalpha c || c == 'M'.toUInt8 || c == 'c'.toUInt8

/-- One turn of the loop of `vbe_terminal_puts`. -/
def feed (m : Mode) (f : Font) (t : Term) (c : UInt8) : Term × List Store :=
  match t.parser with
  | none =>
    if c = esc then ({ t with parser := some [] }, [])
    else
      let (ts, out) := terminalPutchar m f t.ts c
      (⟨ts, none⟩, out)
  | some buf =>
    let buf := stored buf c
    if buf.length = 1 ∧ buf.head? ≠ some '['.toUInt8 then
      let (ts, out) := handleEscape m t.ts c
      (⟨ts, if endsEscape c then none else some buf⟩, out)
    else if buf.head? = some '['.toUInt8 ∧ isFinal c then
      let (ts, out) := handleAnsiSequence m t.ts buf.tail
      (⟨ts, none⟩, out)
    else ({ t with parser := some buf }, [])

def feedAll (m : Mode) (f : Font) (t : Term) : List UInt8 → Term × List Store
  | [] => (t, [])
  | c :: cs =>
    let (t, out) := feed m f t c
    let (t, out') := feedAll m f t cs
    (t, out ++ out')

/-- `vbe_terminal_puts`: what it knows of a sequence is lost when it returns. -/
def terminalPuts (m : Mode) (f : Font) (ts : TermState) (s : List UInt8) : TermState × List Store :=
  let (t, out) := feedAll m f ⟨ts, none⟩ s
  (t.ts, out)

end Serotonin.Vbe
