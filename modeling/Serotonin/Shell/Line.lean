import Mathlib.Data.List.DropRight
import Serotonin.Lib.CircBuf
import Serotonin.Shell.Model

/-! What the line editor is for: a line with a cursor, and a list of earlier lines. The ring of
the shell is such a list. -/

namespace Serotonin.Shell

variable {h : History} {cmd : List UInt8}

/-! ## A line -/

/-- Which earlier line is shown, and the line that was typed before. -/
structure Browse where
  entry : Nat
  draft : List UInt8

structure Line where
  before : List UInt8
  after : List UInt8
  browse : Option Browse

def Line.text (l : Line) : List UInt8 := l.before ++ l.after

inductive Key
  | insert (c : UInt8)
  | backspace
  | killLine
  | killWord
  | left
  | right
  | up
  | down

/-- The part before the last word. -/
def dropWord (s : List UInt8) : List UInt8 := (s.rdropWhile (· == 32)).rdropWhile (· != 32)

/-- A text with the cursor at its end. -/
def Line.show (text : List UInt8) (browse : Option Browse) : Line := ⟨text, [], browse⟩

/-- The effect of a key, in a field for `room` characters. -/
def Line.press (room : Nat) (history : List (List UInt8)) (l : Line) : Key → Line
  | .insert c => if l.text.length < room then { l with before := l.before ++ [c] } else l
  | .backspace => { l with before := l.before.dropLast }
  | .killLine => { l with before := [], after := [] }
  | .killWord => { l with before := dropWord l.before }
  | .left =>
    match l.before.getLast? with
    | some c => { l with before := l.before.dropLast, after := c :: l.after }
    | none => l
  | .right =>
    match l.after with
    | c :: after => { l with before := l.before ++ [c], after }
    | [] => l
  | .up =>
    match l.browse with
    | none =>
      match history.getLast? with
      | some line => .show (line.take room) (some ⟨history.length - 1, l.text⟩)
      | none => l
    | some ⟨0, _⟩ => l
    | some ⟨n + 1, draft⟩ => .show ((history.getD n []).take room) (some ⟨n, draft⟩)
  | .down =>
    match l.browse with
    | none => l
    | some ⟨n, draft⟩ =>
      match history[n + 1]? with
      | some line => .show (line.take room) (some ⟨n + 1, draft⟩)
      | none => .show draft none

/-! ## A session -/

inductive Event
  | pressed (key : Key)
  | enter
  | interrupt
  | endOfFile
  | closed
  | nothing

/-- What a byte means. -/
def Event.ofByte (c : UInt8) : Event :=
  if c = 10 ∨ c = 13 then .enter
  else if c = 127 ∨ c = 8 then .pressed .backspace
  else if c = 3 then .interrupt
  else if c = 4 then .endOfFile
  else if c = 21 then .pressed .killLine
  else if c = 23 then .pressed .killWord
  else if isPrintable c then .pressed (.insert c)
  else .nothing

/-- What an escape sequence means, without the byte that starts it. -/
def Event.ofSequence (first second : UInt8) : Event :=
  if first ≠ 91 then .nothing
  else if second = 65 then .pressed .up
  else if second = 66 then .pressed .down
  else if second = 67 then .pressed .right
  else if second = 68 then .pressed .left
  else .nothing

/-- The bytes that come in, as events. -/
def decode : Reading → Option UInt8 → Reading × Event
  | .key, none => (.key, .closed)
  | .key, some c => if c = 27 then (.escape, .nothing) else (.key, .ofByte c)
  | .escape, none => (.key, .nothing)
  | .escape, some c => (.sequence c, .nothing)
  | .sequence _, none => (.key, .nothing)
  | .sequence first, some second => (.key, .ofSequence first second)

/-- A line that is edited, or the end: with a line, or without one. -/
inductive Session
  | editing (next : Reading) (l : Line)
  | ended (line : Option (List UInt8))

/-- The effect of an event, before the next read. -/
def Line.handle (room : Nat) (history : List (List UInt8)) (next : Reading) (l : Line) : Event → Session
  | .pressed key => .editing next (l.press room history key)
  | .enter => .ended (some l.text)
  | .interrupt => .ended (some [])
  | .endOfFile => if l.text = [] then .ended none else .editing next l
  | .closed => .ended none
  | .nothing => .editing next l

def Session.next (room : Nat) (history : List (List UInt8)) : Session → Option UInt8 → Session
  | .ended line, _ => .ended line
  | .editing reading l, byte => l.handle room history (decode reading byte).1 (decode reading byte).2

def Session.begin : Session := .editing .key (.show [] none)

/-! ## The history -/

/-- The earlier lines, the oldest first. -/
def History.lines (h : History) : List (List UInt8) :=
  (CircBuf.window h.entry historyMax (h.wpos + historyMax - h.count) h.count).map Entry.str

@[simp] theorem History.length_lines (h : History) : h.lines.length = h.count := by simp [History.lines]

theorem historyGet_eq {i : Nat} (hi : i < h.count) :
    ∃ e, historyGet h i = some e ∧ h.lines[i]? = some e.str := by
  have hle := h.count_le
  have hreal : Int.tmod ((h.wpos : Int) - h.count + i + historyMax) historyMax =
      ((h.wpos + historyMax - h.count + i) % historyMax : Nat) := by
    have hnat : (h.wpos : Int) - h.count + i + historyMax = ((h.wpos + historyMax - h.count + i : Nat) : Int) := by omega
    rw [hnat]
    rfl
  refine ⟨h.entry ((h.wpos + historyMax - h.count + i) % historyMax), ?_, ?_⟩
  · unfold historyGet
    rw [hreal, if_pos (Int.natCast_nonneg _)]
    rfl
  · simp [History.lines, CircBuf.window, hi]

end Serotonin.Shell
