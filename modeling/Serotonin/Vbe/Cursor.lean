import Serotonin.Vbe.Bounds

/-! Where the cursor can be. Whatever is written to a terminal of at least two rows, the cursor
and the places kept of it stay on the screen, and the scroll region has at least two rows or
is not set. Nothing is asked of the buffer here. -/

namespace Serotonin.Vbe

open ByteMem (u32 u32_of_lt)

variable {m : Mode} {f : Font} {ts : TermState}

/-- The sizes are 32-bit words, and there are a column and two rows. -/
structure Mode.Usable (m : Mode) : Prop where
  cols : 0 < m.maxCols
  rows : 2 ≤ m.maxRows
  width : m.width < 2 ^ 32
  height : m.height < 2 ^ 32

theorem Mode.Usable.cols_lt (hm : m.Usable) : m.maxCols < 2 ^ 32 :=
  Nat.lt_of_le_of_lt (Nat.div_le_self _ _) hm.width

theorem Mode.Usable.rows_lt (hm : m.Usable) : m.maxRows < 2 ^ 32 :=
  Nat.lt_of_le_of_lt (Nat.div_le_self _ _) hm.height

theorem Mode.Usable.last (hm : m.Usable) : sub32 m.maxRows 1 = m.maxRows - 1 :=
  sub32_of_le (Nat.le_trans (by simp) hm.rows) hm.rows_lt

/-- The scroll region has a row above its last one, or there is none. -/
def RegionOk (m : Mode) (ts : TermState) : Prop :=
  ts.scrollRegionTop < ts.scrollRegionBottom ∧ ts.scrollRegionBottom < m.maxRows ∨
    ts.scrollRegionTop = 0 ∧ ts.scrollRegionBottom = 0

/-- The cursor, the saved one and that of the other screen are on the screen. -/
structure CursorOk (m : Mode) (ts : TermState) : Prop where
  col : ts.cursorCol < m.maxCols
  row : ts.cursorRow < m.maxRows
  savedCol : ts.savedCursorCol < m.maxCols
  savedRow : ts.savedCursorRow < m.maxRows
  altCol : ts.altCursorCol < m.maxCols
  altRow : ts.altCursorRow < m.maxRows
  region : RegionOk m ts

namespace CursorOk

/-- The cursor somewhere else on the screen. -/
theorem move (h : CursorOk m ts) {col row : Nat} (hc : col < m.maxCols) (hr : row < m.maxRows) :
    CursorOk m { ts with cursorCol := col, cursorRow := row } :=
  ⟨hc, hr, h.savedCol, h.savedRow, h.altCol, h.altRow, h.region⟩

theorem setCursor (h : CursorOk m ts) (col row : Nat) : CursorOk m (setCursor m ts col row) := by
  unfold Vbe.setCursor
  split
  · exact h
  · next hlt =>
    simp only [not_or, Nat.not_le] at hlt
    exact h.move hlt.1 hlt.2

theorem save (h : CursorOk m ts) :
    CursorOk m { ts with savedCursorCol := ts.cursorCol, savedCursorRow := ts.cursorRow } :=
  ⟨h.col, h.row, h.col, h.row, h.altCol, h.altRow, h.region⟩

theorem recolor (h : CursorOk m ts) (ansiFg ansiBg fg bg : Nat) (bold : Bool) :
    CursorOk m { ts with ansiFg := ansiFg, ansiBg := ansiBg, fgColor := fg, bgColor := bg, ansiBold := bold } :=
  ⟨h.col, h.row, h.savedCol, h.savedRow, h.altCol, h.altRow, h.region⟩

theorem applyCode (h : CursorOk m ts) (code : Nat) : CursorOk m (ts.applyCode code) := by
  unfold TermState.applyCode
  repeat' split
  all_goals first
    | exact h
    | exact h.recolor ..

theorem setExtended (h : CursorOk m ts) (isFg : Bool) (color : Nat) : CursorOk m (ts.setExtended isFg color) := by
  unfold TermState.setExtended
  split <;> exact h.recolor ..

theorem selectGraphics (h : CursorOk m ts) (codes : List Nat) : CursorOk m (selectGraphics ts codes) := by
  fun_induction Vbe.selectGraphics ts codes with
  | case1 => exact h
  | case2 _ _ _ _ _ _ ih => exact ih (h.setExtended _ _)
  | case3 _ _ _ _ _ _ _ ih => exact ih (h.setExtended _ _)
  | case4 _ _ _ _ _ _ ih => exact ih h
  | case5 _ _ _ _ ih => exact ih (h.applyCode _)

/-! ## Characters -/

theorem scrollBottom_lt (hm : m.Usable) (h : RegionOk m ts) : scrollBottom m ts < m.maxRows := by
  have hrows := hm.rows
  unfold scrollBottom
  split
  · rcases h with h | h
    · exact h.2
    · omega
  · rw [hm.last]
    omega

/-- The row may be any, since a row below the region or the screen is brought back. -/
theorem scrollIn (hm : m.Usable) {row : Nat} (h : CursorOk m ts) :
    CursorOk m (scrollIn m { ts with cursorRow := row }).1 := by
  have hbottom : scrollBottom m { ts with cursorRow := row } < m.maxRows := scrollBottom_lt hm h.region
  unfold Vbe.scrollIn
  simp only
  split
  · exact h.move h.col hbottom
  · split
    · rw [hm.last]
      exact h.move h.col (by omega)
    · next hlt => exact h.move h.col (Nat.not_le.mp hlt)

/-- A column just past the last one wraps to the next row. -/
theorem settle (hm : m.Usable) {col row : Nat} (h : CursorOk m ts) :
    CursorOk m (settle m { ts with cursorCol := col, cursorRow := row }).1 := by
  unfold Vbe.settle wrapColumn
  simp only
  split
  · exact (h.move hm.cols h.row).scrollIn hm
  · next hlt => exact (h.move (Nat.not_le.mp hlt) h.row).scrollIn hm

theorem terminalPutchar (hm : m.Usable) (h : CursorOk m ts) (c : UInt8) :
    CursorOk m (terminalPutchar m f ts c).1 := by
  unfold Vbe.terminalPutchar
  split
  · exact h.settle hm
  · split
    · exact h.settle hm
    · split <;> exact h.settle hm

theorem terminalBack (hm : m.Usable) (h : CursorOk m ts) : CursorOk m (terminalBack m ts).1 := by
  have hcols := hm.cols
  have hlast : sub32 m.maxCols 1 = m.maxCols - 1 := sub32_of_le hcols hm.cols_lt
  have hcol := h.col
  have hrow := h.row
  unfold Vbe.terminalBack
  split
  · exact h
  · simp only [hlast]
    split
    · exact h.move (by omega) (by omega)
    · exact h.move (by omega) hrow

/-! ## Sequences -/

/-- A region of one row or less is taken for the whole screen. -/
theorem setScrollRegion (hm : m.Usable) (h : CursorOk m ts) (top bot : Nat) :
    CursorOk m (setScrollRegion m ts top bot) := by
  have hrows := hm.rows
  have hwords := hm.rows_lt
  have hregion : ∀ top bot, 1 ≤ top → top < bot → bot ≤ m.maxRows →
      CursorOk m (Vbe.setCursor m { ts with scrollRegionTop := sub32 top 1, scrollRegionBottom := sub32 bot 1 } 0 0) := by
    intro top bot htop hlt hbot
    have hok : CursorOk m { ts with scrollRegionTop := sub32 top 1, scrollRegionBottom := sub32 bot 1 } := by
      refine ⟨h.col, h.row, h.savedCol, h.savedRow, h.altCol, h.altRow, .inl ?_⟩
      show sub32 top 1 < sub32 bot 1 ∧ sub32 bot 1 < m.maxRows
      rw [sub32_of_le htop (by omega), sub32_of_le (by omega) (by omega)]
      omega
    exact hok.setCursor 0 0
  have hbot : (if m.maxRows < bot then m.maxRows else bot) ≤ m.maxRows := by split <;> omega
  have htop : 1 ≤ if top < 1 then 1 else top := by split <;> omega
  unfold Vbe.setScrollRegion
  simp only
  generalize (if m.maxRows < bot then m.maxRows else bot) = bot at hbot
  generalize (if top < 1 then 1 else top) = top at htop
  split
  · exact hregion _ _ (Nat.le_refl _) (by omega) (Nat.le_refl _)
  · next hlt => exact hregion _ _ htop (Nat.not_le.mp hlt) hbot

theorem decPrivate (h : CursorOk m ts) (code : Nat) (cmd : Char) : CursorOk m (decPrivate m ts code cmd).1 := by
  unfold Vbe.decPrivate
  split
  · split
    · exact ⟨h.col, h.row, h.savedCol, h.savedRow, h.altCol, h.altRow, h.region⟩
    · split
      · have hkept : CursorOk m
            { ts with altCursorCol := ts.cursorCol, altCursorRow := ts.cursorRow, inAltScreen := true } :=
          ⟨h.col, h.row, h.savedCol, h.savedRow, h.col, h.row, h.region⟩
        exact hkept.setCursor 0 0
      · exact h
  · split
    · exact ⟨h.col, h.row, h.savedCol, h.savedRow, h.altCol, h.altRow, h.region⟩
    · split
      · exact ⟨h.altCol, h.altRow, h.savedCol, h.savedRow, h.altCol, h.altRow, h.region⟩
      · exact h
  · exact h

theorem eraseDisplay (h : CursorOk m ts) (mode : Nat) : CursorOk m (eraseDisplay m ts mode).1 := by
  unfold Vbe.eraseDisplay
  simp only
  split
  · exact h
  · split
    · exact h
    · split
      · exact h.setCursor 0 0
      · exact h

theorem command (hm : m.Usable) (h : CursorOk m ts) (params : List (List UInt8)) (cmd : Char) :
    CursorOk m (command m ts params cmd).1 := by
  unfold Vbe.command
  simp only
  split
  -- The colours, erasing, the region and saving; every other command goes through `setCursor` or leaves the state.
  case h_1 =>
    split
    · exact h.recolor ..
    · exact h.selectGraphics _
  case h_8 => exact h.eraseDisplay _
  case h_10 => exact h.setScrollRegion hm _ _
  case h_11 => exact h.save
  all_goals first
    | exact h.setCursor _ _
    | exact h

theorem handleAnsiSequence (hm : m.Usable) (h : CursorOk m ts) (seq : List UInt8) :
    CursorOk m (handleAnsiSequence m ts seq).1 := by
  unfold Vbe.handleAnsiSequence
  split
  · exact h
  · next r _ =>
    cases r with
    | dec code cmd => exact h.decPrivate code cmd
    | csi params cmd => exact h.command hm params cmd

theorem handleEscape (h : CursorOk m ts) (c : UInt8) : CursorOk m (handleEscape m ts c).1 := by
  unfold Vbe.handleEscape
  split
  · exact h.save
  · exact h.setCursor _ _
  · split
    · exact h
    · exact h.move h.col (Nat.lt_of_le_of_lt (Nat.sub_le _ _) h.row)
  · have hreset : CursorOk m { ts.resetColors with scrollRegionTop := 0, scrollRegionBottom := 0 } :=
      ⟨h.col, h.row, h.savedCol, h.savedRow, h.altCol, h.altRow, .inr ⟨rfl, rfl⟩⟩
    exact hreset.setCursor 0 0
  · exact h

/-! ## Bytes -/

theorem feed (hm : m.Usable) {t : Term} (h : CursorOk m t.ts) (c : UInt8) : CursorOk m (feed m f t c).1.ts := by
  unfold Vbe.feed
  split
  · split
    · exact h
    · exact h.terminalPutchar hm c
  · simp only
    split
    · exact h.handleEscape c
    · split
      · exact h.handleAnsiSequence hm _
      · exact h

theorem feedAll (hm : m.Usable) (s : List UInt8) : ∀ {t : Term}, CursorOk m t.ts →
    CursorOk m (feedAll m f t s).1.ts := by
  induction s with
  | nil =>
    intro t h
    exact h
  | cons c cs ih =>
    intro t h
    exact ih (h.feed hm c)

theorem run (hm : m.Usable) {t : Term} (h : CursorOk m t.ts) (op : TermOp) : CursorOk m (op.run m f t).1.ts := by
  cases op with
  | byte c => exact h.feed hm c
  | endWrite => exact h
  | putchar c => exact h.terminalPutchar hm c
  | back => exact h.terminalBack hm
  | setCursor col row => exact h.setCursor col row

end CursorOk

/-! ## Runs -/

/-- As the variables of a terminal are before anything is written to it. -/
structure TermState.Unused (ts : TermState) : Prop where
  home : ts.Home
  savedCol : ts.savedCursorCol = 0
  savedRow : ts.savedCursorRow = 0
  top : ts.scrollRegionTop = 0

theorem TermState.Unused.cursorOk (h : ts.Unused) (hm : m.Usable) : CursorOk m ts := by
  have hc := hm.cols
  have hr := Nat.lt_of_lt_of_le Nat.two_pos hm.rows
  obtain ⟨⟨hcol, hrow, haltCol, haltRow, hbottom⟩, hsavedCol, hsavedRow, htop⟩ := h
  exact ⟨hcol ▸ hc, hrow ▸ hr, hsavedCol ▸ hc, hsavedRow ▸ hr, haltCol ▸ hc, haltRow ▸ hr, .inr ⟨htop, hbottom⟩⟩

/-- A terminal after any bytes of any writes and what the kernel does with it in between. -/
def InUse (m : Mode) (f : Font) : Term → Prop :=
  Run.Reachable (fun t => t.ts.Unused ∧ t.parser = none) fun t t' => ∃ op : TermOp, t' = (op.run m f t).1

theorem InUse.cursorOk (hm : m.Usable) {t : Term} (h : InUse m f t) : CursorOk m t.ts := by
  refine h.invariant (fun t => CursorOk m t.ts) (fun t hs => hs.1.cursorOk hm) fun t t' hi hs => ?_
  obtain ⟨op, rfl⟩ := hs
  exact hi.run hm op

/-- After each byte of a string that `vbe_terminal_puts` is given. -/
theorem puts_cursorOk (hm : m.Usable) {t : Term} (h : InUse m f t) (s : List UInt8) (n : Nat) :
    CursorOk m (feedAll m f ⟨t.ts, none⟩ (s.take n)).1.ts :=
  CursorOk.feedAll hm (s.take n) (t := ⟨t.ts, none⟩) (h.cursorOk hm)

theorem freshTerm_unused : freshTerm.Unused := ⟨freshTerm_home, rfl, rfl, rfl⟩

/-- A region from row five to row ten of a screen of thirty. -/
theorem puts_cursorOk_vga : CursorOk vga (feedAll vga blankFont ⟨freshTerm, none⟩ ((esc :: bytes "[5;10rabc").take 8)).1.ts :=
  puts_cursorOk ⟨by decide, by decide, by decide, by decide⟩ (t := ⟨freshTerm, none⟩) (.start ⟨freshTerm_unused, rfl⟩) _ 8

end Serotonin.Vbe
