import Mathlib.Tactic.Common

/-! The line editor of the shell, `user/shell.c`: the history and `read_line`. What is read from
the terminal is given byte by byte. An access outside of an array has no result. -/

namespace Serotonin.Shell

def commandMax : Nat := 256
def historyMax : Nat := 64

/-! ## Arrays of characters -/

/-- `n` bytes from `a` on. -/
def slice (m : List UInt8) (a n : Int) : Option (List UInt8) :=
  if 0 ≤ a ∧ 0 ≤ n ∧ a + n ≤ m.length then some ((m.drop a.toNat).take n.toNat) else none

/-- The bytes `bs` from `a` on. -/
def store (m : List UInt8) (a : Int) (bs : List UInt8) : Option (List UInt8) :=
  if 0 ≤ a ∧ a + bs.length ≤ m.length then some (m.take a.toNat ++ bs ++ m.drop (a.toNat + bs.length)) else none

def memmove (m : List UInt8) (dst src n : Int) : Option (List UInt8) := (slice m src n).bind (store m dst)

def memcpy (dst src : List UInt8) (n : Int) : Option (List UInt8) := (slice src 0 n).bind (store dst 0)

def strlen (m : List UInt8) : Option Nat := m.findIdx? (· == 0)

def safeCopy (dst src : List UInt8) (dstsize : Int) : Option (List UInt8) := do
  let slen ← strlen src
  let slen : Int := if dstsize ≤ slen then dstsize - 1 else slen
  let dst ← memcpy dst src slen
  store dst slen [0]

/-! ## History -/

/-- A string in an array of `commandMax` bytes. -/
structure Entry where
  bytes : List UInt8
  size : bytes.length = commandMax
  ends : 0 ∈ bytes

def Entry.str (e : Entry) : List UInt8 := e.bytes.takeWhile (· != 0)

structure History where
  entry : Nat → Entry
  count : Nat
  wpos : Nat
  count_le : count ≤ historyMax
  wpos_lt : wpos < historyMax

def historyGet (h : History) (idx : Int) : Option Entry :=
  let real := Int.tmod ((h.wpos : Int) - h.count + idx + historyMax) historyMax
  if 0 ≤ real then some (h.entry real.toNat) else none

/-! ## The editor -/

/-- The variables of `read_line`, and what it has written to the terminal. -/
structure Editor where
  buf : List UInt8
  len : Int
  cursor : Int
  histBrowse : Int
  savedInput : List UInt8
  out : List UInt8

def Editor.write (e : Editor) (bs : List UInt8) : Editor := { e with out := e.out ++ bs }

/-- `write` of `n` bytes of the buffer. -/
def Editor.echo (e : Editor) (a n : Int) : Option Editor := (slice e.buf a n).map e.write

def backs (n : Int) : List UInt8 := List.replicate n.toNat 8

def spaces (n : Int) : List UInt8 := List.replicate n.toNat 32

def Editor.clearLine (e : Editor) : Editor := e.write (backs e.cursor ++ spaces e.len ++ backs e.len)

/-- The line becomes the string `src`, with the cursor at its end. -/
def Editor.load (e : Editor) (src : List UInt8) (bufsize : Int) : Option Editor := do
  let buf ← safeCopy e.buf src bufsize
  let len ← strlen buf
  { e with buf, len, cursor := len }.echo 0 len

def Editor.recall (e : Editor) (h : History) (bufsize : Int) : Option Editor := do
  let entry ← historyGet h e.histBrowse
  e.clearLine.load entry.bytes bufsize

def Editor.up (e : Editor) (h : History) (bufsize : Int) : Option Editor :=
  if h.count = 0 then some e
  else if e.histBrowse = -1 then do
    let saved ← memcpy e.savedInput e.buf e.len
    let saved ← store saved e.len [0]
    { e with savedInput := saved, histBrowse := h.count - 1 }.recall h bufsize
  else if 0 < e.histBrowse then { e with histBrowse := e.histBrowse - 1 }.recall h bufsize
  else some e

def Editor.down (e : Editor) (h : History) (bufsize : Int) : Option Editor :=
  if e.histBrowse = -1 then some e
  else if (h.count : Int) - 1 ≤ e.histBrowse then { e.clearLine with histBrowse := -1 }.load e.savedInput bufsize
  else { e with histBrowse := e.histBrowse + 1 }.recall h bufsize

def Editor.right (e : Editor) : Editor :=
  if e.cursor < e.len then { e.write [27, 91, 67] with cursor := e.cursor + 1 } else e

def Editor.left (e : Editor) : Editor :=
  if 0 < e.cursor then { e.write [27, 91, 68] with cursor := e.cursor - 1 } else e

def Editor.backspace (e : Editor) : Option Editor :=
  if 0 < e.cursor then do
    let buf ← memmove e.buf (e.cursor - 1) e.cursor (e.len - e.cursor)
    let e := { e.write [8] with buf, len := e.len - 1, cursor := e.cursor - 1 }
    let e ← e.echo e.cursor (e.len - e.cursor)
    some (e.write ([32, 8] ++ backs (e.len - e.cursor)))
  else some e

def Editor.killLine (e : Editor) : Editor := { e.clearLine with len := 0, cursor := 0 }

/-- `while (cursor > 0 && ...) cursor--`. -/
def backWhile (buf : List UInt8) (p : UInt8 → Bool) : Nat → Option Nat
  | 0 => some 0
  | n + 1 => buf[n]?.bind fun c => if p c then backWhile buf p n else some (n + 1)

def Editor.killWord (e : Editor) : Option Editor :=
  if e.cursor = 0 then some e
  else do
    let cursor ← backWhile e.buf (· == 32) e.cursor.toNat
    let cursor ← backWhile e.buf (· != 32) cursor
    let removed := e.cursor - cursor
    let buf ← memmove e.buf cursor e.cursor (e.len - e.cursor)
    let e := { e.write (backs removed) with buf, len := e.len - removed, cursor }
    let e ← e.echo e.cursor (e.len - e.cursor)
    some (e.write (spaces removed ++ backs (e.len - e.cursor + removed)))

/-- A `char` is signed. -/
def isPrintable (c : UInt8) : Bool := 32 ≤ c.toInt8.toInt

/-- What stands at the cursor is moved up by one. -/
def Editor.moveUp (e : Editor) : Option (List UInt8) :=
  if e.cursor < e.len then memmove e.buf (e.cursor + 1) e.cursor (e.len - e.cursor) else some e.buf

def Editor.insert (e : Editor) (c : UInt8) (bufsize : Int) : Option Editor :=
  if isPrintable c ∧ e.len < bufsize - 1 then do
    let buf ← store (← e.moveUp) e.cursor [c]
    let e := { e with buf, len := e.len + 1, cursor := e.cursor + 1 }
    let e ← e.echo (e.cursor - 1) (e.len - e.cursor + 1)
    some (e.write (backs (e.len - e.cursor)))
  else some e

/-! ## Reading -/

/-- Which `read` comes next: of a key, or of the first or second byte of an escape sequence. -/
inductive Reading
  | key
  | escape
  | sequence (first : UInt8)
deriving DecidableEq

/-- `read_line` at a `read`, or after its return. -/
inductive ReadLine
  | reading (next : Reading) (e : Editor)
  | returned (result : Int) (e : Editor)

def ReadLine.key (e : Editor) : ReadLine := .reading .key e

/-- The end of the loop. -/
def Editor.enter (e : Editor) : Option ReadLine := do
  let buf ← store e.buf e.len [0]
  some (.returned e.len { e.write [10] with buf })

def Editor.interrupt (e : Editor) : Option ReadLine := do
  let buf ← store e.buf 0 [0]
  some (.returned 0 { e.write [94, 67, 10] with buf })

def Editor.onKey (e : Editor) (bufsize : Int) (c : UInt8) : Option ReadLine :=
  if c = 10 ∨ c = 13 then e.enter
  else if c = 27 then some (.reading .escape e)
  else if c = 127 ∨ c = 8 then e.backspace.map .key
  else if c = 3 then e.interrupt
  else if c = 4 then some (if e.len = 0 then .returned (-1) e else .key e)
  else if c = 21 then some (.key e.killLine)
  else if c = 23 then e.killWord.map .key
  else (e.insert c bufsize).map .key

def Editor.onSequence (e : Editor) (h : History) (bufsize : Int) (first second : UInt8) : Option Editor :=
  if first ≠ 91 then some e
  else if second = 65 then e.up h bufsize
  else if second = 66 then e.down h bufsize
  else if second = 67 then some e.right
  else if second = 68 then some e.left
  else some e

/-- What a `read` returns, `none` at the end of the file and for an error. -/
def ReadLine.next (h : History) (bufsize : Int) : ReadLine → Option UInt8 → Option ReadLine
  | .reading .key e, none => some (.returned (-1) e)
  | .reading .key e, some c => e.onKey bufsize c
  | .reading .escape e, none => some (.key e)
  | .reading .escape e, some c => some (.reading (.sequence c) e)
  | .reading (.sequence _) e, none => some (.key e)
  | .reading (.sequence first) e, some second => (e.onSequence h bufsize first second).map .key
  | .returned result e, _ => some (.returned result e)

/-- The start of `read_line`. The arrays hold anything but for the first byte of the saved line. -/
def ReadLine.begin (buf saved : List UInt8) : ReadLine :=
  .key { buf, len := 0, cursor := 0, histBrowse := -1, savedInput := saved.set 0 0, out := [] }

end Serotonin.Shell
