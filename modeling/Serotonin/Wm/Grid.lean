import Serotonin.Lib.Run
import Serotonin.Wm.Model

/-! The grid of a terminal: it has cells, its margins are in it, and only a few operations change
it. What a terminal goes through keeps it that way. -/

namespace Serotonin.Wm

open ByteMem (u32)
open Vbe (sub32)

/-- A window has at most 65535 pixels each way, and a character has 8 by 16 of them. -/
def maxCols : Nat := 8191
def maxRows : Nat := 4095

namespace Term

variable {ts ts' : Term} {atoi : Atoi} {theme : Theme}

/-- The size and the margins. -/
def shape (ts : Term) : Nat × Nat × Nat × Nat := (ts.cols, ts.rows, ts.scrollTop, ts.scrollBot)

/-- There are cells, and the rows to scroll are among them. -/
structure Grid (ts : Term) : Prop where
  cols_pos : 0 < ts.cols
  cols_le : ts.cols ≤ maxCols
  rows_pos : 0 < ts.rows
  rows_le : ts.rows ≤ maxRows
  top_le : ts.scrollTop ≤ ts.scrollBottom
  bottom_lt : ts.scrollBottom < ts.rows

theorem Grid.congr (h : ts.Grid) (hshape : ts'.shape = ts.shape) : ts'.Grid := by
  obtain ⟨hcols, hrest⟩ := Prod.mk.inj hshape
  obtain ⟨hrows, hrest⟩ := Prod.mk.inj hrest
  obtain ⟨htop, hbot⟩ := Prod.mk.inj hrest
  have hbottom : ts'.scrollBottom = ts.scrollBottom := by rw [scrollBottom, scrollBottom, hrows, hbot]
  obtain ⟨h1, h2, h3, h4, h5, h6⟩ := h
  exact ⟨by rwa [hcols], by rwa [hcols], by rwa [hrows], by rwa [hrows], by rwa [htop, hbottom], by rwa [hbottom, hrows]⟩

/-! ## What leaves the grid alone -/

@[simp] theorem shape_clear (places : List Nat) : (ts.clear places).shape = ts.shape := rfl
@[simp] theorem shape_markDirty (places : List Nat) : (ts.markDirty places).shape = ts.shape := rfl
@[simp] theorem shape_moveCells (dst src n : Nat) : (ts.moveCells dst src n).shape = ts.shape := rfl
@[simp] theorem shape_setCursor (col row : Nat) : (ts.setCursor col row).shape = ts.shape := rfl
@[simp] theorem shape_resetColors : (ts.resetColors theme).shape = ts.shape := rfl

@[simp] theorem shape_noteScroll (up : Bool) (top bot n : Nat) : (ts.noteScroll up top bot n).shape = ts.shape := by
  unfold noteScroll
  split <;> rfl

@[simp] theorem shape_scrollUp (top bot n : Nat) : (ts.scrollUp top bot n).shape = ts.shape := by
  unfold scrollUp
  split
  · rfl
  · rw [shape_noteScroll, shiftUp, shape_clear, shape_moveCells]

@[simp] theorem shape_scrollDown (top bot n : Nat) : (ts.scrollDown top bot n).shape = ts.shape := by
  unfold scrollDown
  split
  · rfl
  · rw [shape_noteScroll, shiftDown, shape_clear, shape_moveCells]

@[simp] theorem shape_applyCode (code : Int) : (ts.applyCode theme code).shape = ts.shape := by
  unfold applyCode
  dsimp only
  repeat' split
  all_goals rfl

@[simp] theorem shape_setColor (isFg : Bool) (color : Nat) : (ts.setColor isFg color).shape = ts.shape := by
  unfold setColor
  split <;> rfl

@[simp] theorem shape_selectGraphics (codes : List Int) : (ts.selectGraphics theme codes).shape = ts.shape := by
  fun_induction selectGraphics with
  | case1 ts => rfl
  | case2 ts code _ i rest _ ih => rw [ih, shape_setColor]
  | case3 ts code _ r g b rest _ ih => rw [ih, shape_setColor]
  | case4 ts code _ rest _ _ ih => exact ih
  | case5 ts code rest _ ih => rw [ih, shape_applyCode]

@[simp] theorem shape_newLine : ts.newLine.shape = ts.shape := by
  unfold newLine
  dsimp only
  split
  · rw [shape_scrollUp]
    rfl
  · rfl

@[simp] theorem shape_printable (c : UInt8) : (ts.printable c).shape = ts.shape := by
  unfold printable
  dsimp only
  split
  · exact shape_newLine
  · rfl

@[simp] theorem shape_putchar (c : UInt8) : (ts.putchar c).shape = ts.shape := by
  unfold putchar
  repeat' split
  · exact shape_newLine
  all_goals first | rfl | exact shape_printable c

/-! ## Commands -/

@[simp] theorem shape_eraseDisplay (mode : Int) : (ts.eraseDisplay mode).shape = ts.shape := by
  unfold eraseDisplay
  repeat' split
  all_goals rfl

@[simp] theorem shape_eraseLine (mode : Int) : (ts.eraseLine mode).shape = ts.shape := by
  unfold eraseLine
  repeat' split
  all_goals rfl

@[simp] theorem shape_insertLines (n : Nat) : (ts.insertLines n).shape = ts.shape := by
  unfold insertLines
  split <;> simp

@[simp] theorem shape_deleteLines (n : Nat) : (ts.deleteLines n).shape = ts.shape := by
  unfold deleteLines
  split <;> simp

@[simp] theorem shape_insertChars (n : Nat) : (ts.insertChars n).shape = ts.shape := by
  unfold insertChars moveRight
  rw [shape_markDirty, shape_clear]
  split
  · exact shape_moveCells _ _ _
  · rfl

@[simp] theorem shape_deleteChars (n : Nat) : (ts.deleteChars n).shape = ts.shape := by
  unfold deleteChars moveLeft
  rw [shape_markDirty, shape_clear]
  split
  · exact shape_moveCells _ _ _
  · rfl

@[simp] theorem shape_eraseChars (n : Nat) : (ts.eraseChars n).shape = ts.shape := shape_clear _

theorem sub32_of_le {a b : Nat} (h : b ≤ a) (ha : a < 2 ^ 32) : sub32 a b = a - b := by
  unfold sub32
  omega

/-- The margins that are set are in order. -/
theorem Grid.setScrollRegion (h : ts.Grid) (top bot : Nat) : (ts.setScrollRegion top bot).Grid := by
  obtain ⟨hcols, hcols', hpos, hle, -, -⟩ := h
  have hmax : maxRows = 4095 := rfl
  unfold Term.setScrollRegion
  dsimp only
  generalize (if top < 1 then 1 else top) = t
  generalize hb : (if ts.rows < bot then ts.rows else bot) = b
  have hbot : b ≤ ts.rows := by
    rw [← hb]
    split <;> omega
  by_cases hcross : b ≤ t
  · rw [if_pos hcross]
    refine ⟨hcols, hcols', hpos, hle, Nat.zero_le _, ?_⟩
    simp only [scrollBottom, sub32_of_le hpos (by omega)]
    split <;> omega
  · rw [if_neg hcross]
    have hsub : sub32 b 1 = b - 1 := sub32_of_le (by omega) (by omega)
    refine ⟨hcols, hcols', hpos, hle, ?_, ?_⟩
    · simp only [scrollBottom, hsub, sub32_of_le hpos (by omega)]
      split <;> omega
    · simp only [scrollBottom, hsub, sub32_of_le hpos (by omega)]
      split <;> omega

theorem Grid.command (h : ts.Grid) (cmd : Char) (params : List (List UInt8)) : (command atoi theme ts cmd params).Grid := by
  unfold Term.command
  dsimp only
  split
  · split
    · exact h.congr shape_resetColors
    · exact h.congr (shape_selectGraphics _)
  · exact h.congr (shape_setCursor _ _)
  · exact h.congr (shape_setCursor _ _)
  · exact h.congr rfl
  · exact h.congr rfl
  · exact h.congr rfl
  · exact h.congr rfl
  · exact h.congr (shape_eraseDisplay _)
  · exact h.congr (shape_eraseLine _)
  · exact h.setScrollRegion _ _
  · exact h.congr rfl
  · exact h.congr (shape_setCursor _ _)
  · exact h.congr (shape_insertLines _)
  · exact h.congr (shape_deleteLines _)
  · exact h.congr (shape_insertChars _)
  · exact h.congr (shape_deleteChars _)
  · exact h.congr (shape_scrollUp _ _ _)
  · exact h.congr (shape_scrollDown _ _ _)
  · exact h.congr (shape_eraseChars _)
  · exact h.congr (shape_setCursor _ _)
  · exact h.congr (shape_setCursor _ _)
  · exact h

/-- Without margins all rows are scrolled. -/
theorem scrollBottom_eq (hpos : 0 < ts.rows) (hle : ts.rows ≤ maxRows) (hbot : ts.scrollBot = 0) :
    ts.scrollBottom = ts.rows - 1 := by
  have hmax : maxRows = 4095 := rfl
  rw [scrollBottom, if_neg (not_not.mpr hbot), sub32_of_le hpos (by omega)]

theorem Grid.resetMargins (h : ts.Grid) (hcols : ts'.cols = ts.cols) (hrows : ts'.rows = ts.rows) (htop : ts'.scrollTop = 0)
    (hbot : ts'.scrollBot = 0) : ts'.Grid := by
  obtain ⟨h1, h2, h3, h4, -, -⟩ := h
  rw [← hcols] at h1 h2
  rw [← hrows] at h3 h4
  have hbottom := scrollBottom_eq h3 h4 hbot
  exact ⟨h1, h2, h3, h4, by omega, by omega⟩

theorem Grid.decPrivate (h : ts.Grid) (code : Int) (cmd : Char) : (ts.decPrivate code cmd).Grid := by
  unfold Term.decPrivate
  split
  · split
    · exact h.congr rfl
    · split
      · unfold enterAlt
        split
        · exact h
        · exact h.congr rfl
      · exact h
  · split
    · exact h.congr rfl
    · split
      · unfold leaveAlt
        split
        · exact h.resetMargins rfl rfl rfl rfl
        · exact h
      · exact h
  · exact h

theorem Grid.handleCsi (h : ts.Grid) : (handleCsi atoi theme ts).Grid := by
  unfold Term.handleCsi
  split
  · exact h
  · split
    · exact h.decPrivate _ _
    · exact h.command _ _

@[simp] theorem shape_reverseIndex : ts.reverseIndex.shape = ts.shape := by
  unfold reverseIndex
  split
  · exact shape_scrollDown _ _ _
  · rfl

@[simp] theorem shape_note (c : UInt8) : (ts.note c).shape = ts.shape := by
  unfold note
  split <;> rfl

theorem Grid.afterEsc (h : ts.Grid) (c : UInt8) : (ts.afterEsc theme c).Grid := by
  unfold Term.afterEsc
  dsimp only
  repeat' split
  · exact h.congr rfl
  · exact h.congr rfl
  · exact h.congr rfl
  · exact h.congr shape_reverseIndex
  · exact h.resetMargins rfl rfl rfl rfl
  · exact h.congr rfl

theorem Grid.process (h : ts.Grid) (c : UInt8) : (process atoi theme ts c).Grid := by
  unfold Term.process
  split
  · split
    · exact h.congr rfl
    · exact h.congr (shape_putchar c)
  · exact h.afterEsc c
  · have hnote : (ts.note c).Grid := h.congr (shape_note c)
    dsimp only
    split
    · exact hnote.handleCsi.congr rfl
    · exact hnote

end Term

/-! ## Runs -/

/-- The sizes that a window gives its terminal. -/
structure FitsWindow (cols rows : Nat) : Prop where
  cols_pos : 0 < cols
  cols_le : cols ≤ maxCols
  rows_pos : 0 < rows
  rows_le : rows ≤ maxRows

theorem FitsWindow.grid {ts : Term} (h : FitsWindow ts.cols ts.rows) (htop : ts.scrollTop = 0) (hbot : ts.scrollBot = 0) :
    ts.Grid := by
  have hrows := h.rows_pos
  have hbottom := Term.scrollBottom_eq hrows h.rows_le hbot
  exact ⟨h.cols_pos, h.cols_le, hrows, h.rows_le, by omega, by omega⟩

def Created (ts : Term) : Prop :=
  ∃ theme cols rows behind behindAlt, FitsWindow cols rows ∧ ts = termInit theme cols rows behind behindAlt

/-- The renderer changes only what it has to draw again. -/
def Term.drawn (ts : Term) (dirty : Nat → Bool) (delta : Int) : Term :=
  { ts with cells := fun i => { ts.cells i with dirty := dirty i }, fbScrollDelta := delta }

inductive Step (atoi : Atoi) (ts : Term) : Term → Prop
  | process (theme : Theme) (c : UInt8) : Step atoi ts (ts.process atoi theme c)
  | resize {cols rows : Nat} (behind behindAlt : Nat → Cell) : FitsWindow cols rows →
    Step atoi ts (termResize ts cols rows behind behindAlt)
  | render (dirty : Nat → Bool) (delta : Int) : Step atoi ts (ts.drawn dirty delta)

/-- What a terminal goes through: bytes, changes of its size, and drawing. -/
def Reachable (atoi : Atoi) : Term → Prop := Run.Reachable Created (Step atoi)

theorem Reachable.grid {atoi : Atoi} {ts : Term} (h : Reachable atoi ts) : ts.Grid := by
  refine h.invariant Term.Grid (fun s hs => ?_) fun s t hs hst => ?_
  · obtain ⟨theme, cols, rows, _, _, hfits, rfl⟩ := hs
    exact @FitsWindow.grid (termInit theme cols rows _ _) hfits rfl rfl
  · cases hst with
    | process theme c => exact hs.process c
    | resize behind behindAlt hfits => exact @FitsWindow.grid (termResize s _ _ _ _) hfits rfl rfl
    | render dirty delta => exact hs.congr rfl

end Serotonin.Wm
