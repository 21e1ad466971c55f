import Serotonin.Vbe.Ansi
import Serotonin.Lib.Run

/-! Where the terminal stores. As long as the cursor and the scroll region stay on the screen
every store is inside the buffer of layer 0, except that the number of characters to insert,
delete or erase can be so large that a sum of 32 bits wraps. -/

namespace Serotonin.Vbe

open List
open ByteMem (u32 u32_of_lt)

variable {m : Mode} {f : Font} {ts : TermState}

/-! ## The buffer -/

/-- The store is inside the buffer of `height * pitch` bytes. -/
def Store.Inside (m : Mode) (w : Store) : Prop := w.off + w.len ≤ m.height * m.pitch

instance (m : Mode) (w : Store) : Decidable (w.Inside m) := Nat.decLe _ _

def AllInside (m : Mode) (out : List Store) : Prop := ∀ w ∈ out, w.Inside m

theorem allInside_nil : AllInside m [] := fun _ h => absurd h not_mem_nil

theorem AllInside.append {out out' : List Store} (h : AllInside m out) (h' : AllInside m out') :
    AllInside m (out ++ out') := fun w hw => (mem_append.mp hw).elim (h w) (h' w)

theorem AllInside.ite {p : Prop} [Decidable p] {out : List Store} (h : p → AllInside m out) :
    AllInside m (if p then out else []) := by
  split
  · exact h ‹_›
  · exact allInside_nil

/-- A screen with room for a character, whose rows do not overlap and whose buffer has an
address in 32 bits. -/
structure Mode.Fits (m : Mode) : Prop where
  width : fontWidth ≤ m.width
  height : fontHeight ≤ m.height
  pitch : 4 * m.width ≤ m.pitch
  size : m.height * m.pitch < 2 ^ 32

/-- What follows for the sizes. -/
structure Sizes (m : Mode) : Prop where
  cols : m.maxCols * 8 ≤ m.width
  colsPos : 0 < m.maxCols
  rows : m.maxRows * 16 ≤ m.height
  rowsPos : 0 < m.maxRows
  width : m.width < 2 ^ 26
  height : m.height < 2 ^ 27
  pitch : m.pitch < 2 ^ 28

theorem Mode.Fits.sizes (hm : m.Fits) : Sizes m := by
  have hw : 8 ≤ m.width := hm.width
  have hh : 16 ≤ m.height := hm.height
  have hp := hm.pitch
  have hs := hm.size
  have hpitch : 16 * m.pitch ≤ m.height * m.pitch := Nat.mul_le_mul_right _ hh
  have hheight : m.height * 32 ≤ m.height * m.pitch := Nat.mul_le_mul_left _ (by omega)
  refine ⟨Nat.div_mul_le_self _ _, Nat.div_pos hw (by decide), Nat.div_mul_le_self _ _, Nat.div_pos hh (by decide),
    by omega, by omega, by omega⟩

theorem sub32_of_le {a b : Nat} (hb : b ≤ a) (ha : a < 2 ^ 32) : sub32 a b = a - b := by
  unfold sub32
  omega

/-! ## Drawing -/

theorem row_le {y k : Nat} (hy : y < m.height) (hk : k ≤ m.pitch) : y * m.pitch + k ≤ m.height * m.pitch := by
  have hrow : (y + 1) * m.pitch ≤ m.height * m.pitch := Nat.mul_le_mul_right _ hy
  rw [Nat.add_mul, Nat.one_mul] at hrow
  omega

theorem pixel_inside (hm : m.Fits) {off x y : Nat} (color : Nat) (hx : x < m.width) (hy : y < m.height)
    (hoff : off + 4 ≤ y * m.pitch + 4 * x + 4) : (Store.pixel (u32 off) color).Inside m := by
  have hp := hm.pitch
  have hs := hm.size
  have hrow := row_le hy (show 4 * x + 4 ≤ m.pitch by omega)
  show u32 off + 4 ≤ _
  rw [u32_of_lt (by omega)]
  omega

theorem hline_inside (hm : m.Fits) {x y w : Nat} (color : Nat) (hx : x + w ≤ m.width) (hy : y < m.height) :
    AllInside m (hline m x y w color) := by
  intro st hst
  obtain ⟨i, hi, rfl⟩ := mem_map.mp hst
  have hlt := mem_range.mp hi
  exact pixel_inside hm (x := x + i) color (by omega) hy (by omega)

/-- The rectangle is clipped as long as its far edges do not wrap. -/
theorem fillrect_inside (hm : m.Fits) {x y w h : Nat} (color : Nat) (hx : x ≤ m.width) (hy : y ≤ m.height)
    (hw : x + w < 2 ^ 32) (hh : y + h < 2 ^ 32) : AllInside m (fillrect m x y w h color) := by
  intro st hst
  obtain ⟨row, hrow, hst⟩ := mem_flatMap.mp hst
  have hlt := mem_range.mp hrow
  have hsz := hm.sizes
  have hwidth := hsz.width
  have hheight := hsz.height
  rw [u32_of_lt hh, sub32_of_le hy (by omega)] at hlt
  have hy' : y + row < m.height := by
    split at hlt <;> omega
  rw [u32_of_lt (by omega : y + row < 2 ^ 32), u32_of_lt hw, sub32_of_le hx (by omega)] at hst
  refine hline_inside hm color ?_ hy' st hst
  split <;> omega

theorem drawglyph_inside (hm : m.Fits) (data : Nat → Nat) {x y : Nat} (color : Nat) (hx : x + 8 ≤ m.width)
    (hy : y + 16 ≤ m.height) : AllInside m (drawglyph m data x y color) := by
  intro st hst
  obtain ⟨row, hrow, hst⟩ := mem_flatMap.mp hst
  obtain ⟨col, hcol, rfl⟩ := mem_map.mp hst
  have hr : row < 16 := mem_range.mp hrow
  have hc : col < 8 := mem_range.mp (mem_filter.mp hcol).1
  have hstride : (y + row) * (m.pitch / 4 * 4) ≤ (y + row) * m.pitch := Nat.mul_le_mul_left _ (Nat.div_mul_le_self _ _)
  rw [← Nat.mul_assoc] at hstride
  exact pixel_inside hm (x := x + col) (y := y + row) color (by omega) (by omega) (by omega)

theorem clearScreen_inside (hm : m.Fits) (color : Nat) : AllInside m (clearScreen m color) := by
  intro st hst
  rw [mem_singleton.mp hst]
  exact Nat.le_of_eq ((Nat.zero_add _).trans (u32_of_lt hm.size))

/-! ## Scrolling -/

theorem blankRows_inside (hm : m.Fits) {first n : Nat} (color : Nat) (h : first + n ≤ m.maxRows) :
    AllInside m (blankRows m first n color) := by
  intro st hst
  obtain ⟨i, hi, hst⟩ := mem_flatMap.mp hst
  have hlt := mem_range.mp hi
  have hsz := hm.sizes
  have hrows := hsz.rows
  have hheight := hsz.height
  have hwidth := hsz.width
  have hy : u32 (u32 (first + i) * fontHeight) = (first + i) * 16 := by
    rw [u32_of_lt (by omega : first + i < 2 ^ 32)]
    exact u32_of_lt (by show (first + i) * 16 < _; omega)
  rw [hy] at hst
  exact fillrect_inside hm color (by omega) (by omega) (by omega) (by show (first + i) * 16 + 16 < _; omega) st hst

/-- Some rows of text that move to rows of the screen. -/
theorem moveRows_inside (hm : m.Fits) {dst count : Nat} (src : Nat) (h : dst + count ≤ m.maxRows) :
    (Store.move (u32 (dst * u32 (m.pitch * fontHeight))) src (u32 (count * u32 (m.pitch * fontHeight)))).Inside m := by
  have hsz := hm.sizes
  have hpitch := hsz.pitch
  have hs := hm.size
  have hbytes : u32 (m.pitch * fontHeight) = m.pitch * 16 := u32_of_lt (by show m.pitch * 16 < _; omega)
  have htotal : (dst + count) * (m.pitch * 16) ≤ m.height * m.pitch := by
    calc (dst + count) * (m.pitch * 16) = (dst + count) * 16 * m.pitch := by
          rw [Nat.mul_comm m.pitch 16, Nat.mul_assoc]
      _ ≤ m.height * m.pitch := Nat.mul_le_mul_right _ (by have := hsz.rows; omega)
  rw [Nat.add_mul] at htotal
  show u32 _ + u32 _ ≤ _
  rw [hbytes, u32_of_lt (by omega), u32_of_lt (by omega)]
  exact htotal

theorem clip_le (rows n : Nat) : (if rows < n then rows else n) ≤ rows := by
  split
  · exact Nat.le_refl _
  · exact Nat.not_lt.mp ‹_›

theorem scrollRegionUp_inside (hm : m.Fits) {bottom : Nat} (color top n : Nat) (hb : bottom < m.maxRows) :
    AllInside m (scrollRegionUp m color top bottom n) := by
  unfold scrollRegionUp
  split
  · exact allInside_nil
  · next hn =>
    have hsz := hm.sizes
    have hrows := hsz.rows
    have hheight := hsz.height
    have hrows : u32 (bottom - top + 1) = bottom - top + 1 := u32_of_lt (by omega)
    simp only [hrows]
    have hle := clip_le (bottom - top + 1) n
    generalize (if bottom - top + 1 < n then bottom - top + 1 else n) = k at hle
    rw [sub32_of_le hle (by omega)]
    have hfirst : u32 (sub32 bottom k + 1) = bottom + 1 - k := by
      unfold u32 sub32
      omega
    rw [hfirst]
    refine AllInside.append (.ite fun _ st hst => ?_) (blankRows_inside hm color (by omega))
    rw [mem_singleton.mp hst]
    exact moveRows_inside hm _ (by omega)

theorem scrollRegionDown_inside (hm : m.Fits) {bottom : Nat} (color top n : Nat) (hb : bottom < m.maxRows) :
    AllInside m (scrollRegionDown m color top bottom n) := by
  unfold scrollRegionDown
  split
  · exact allInside_nil
  · next hn =>
    have hsz := hm.sizes
    have hrows := hsz.rows
    have hheight := hsz.height
    have hrows : u32 (bottom - top + 1) = bottom - top + 1 := u32_of_lt (by omega)
    simp only [hrows]
    have hle := clip_le (bottom - top + 1) n
    generalize (if bottom - top + 1 < n then bottom - top + 1 else n) = k at hle
    rw [sub32_of_le hle (by omega)]
    refine AllInside.append (.ite fun _ st hst => ?_) (blankRows_inside hm color (by omega))
    rw [mem_singleton.mp hst]
    exact moveRows_inside hm _ (by omega)

/-! ## The cursor -/

/-- The cursor, the one kept for the other screen and the scroll region are on the screen. -/
structure Placed (m : Mode) (ts : TermState) : Prop where
  col : ts.cursorCol < m.maxCols
  row : ts.cursorRow < m.maxRows
  altCol : ts.altCursorCol < m.maxCols
  altRow : ts.altCursorRow < m.maxRows
  bottom : ts.scrollRegionBottom < m.maxRows

/-- The state is in order, and every store is inside the buffer. -/
def Good (m : Mode) (r : TermState × List Store) : Prop := Placed m r.1 ∧ AllInside m r.2

theorem Placed.good (h : Placed m ts) : Good m (ts, []) := ⟨h, allInside_nil⟩

theorem scrollBottom_lt (hm : m.Fits) (h : ts.scrollRegionBottom < m.maxRows) : scrollBottom m ts < m.maxRows := by
  have hsz := hm.sizes
  have hrows := hsz.rows
  have hpos := hsz.rowsPos
  have hheight := hsz.height
  unfold scrollBottom
  split
  · exact h
  · rw [sub32_of_le (by omega) (by omega)]
    omega

theorem Placed.setCursor (h : Placed m ts) (col row : Nat) : Placed m (setCursor m ts col row) := by
  unfold Vbe.setCursor
  split
  · exact h
  · next hlt =>
    rw [not_or, Nat.not_le, Nat.not_le] at hlt
    exact ⟨hlt.1, hlt.2, h.altCol, h.altRow, h.bottom⟩

/-- The row may be any. -/
theorem scrollIn_good (hm : m.Fits) (h : Placed m { ts with cursorRow := 0 }) : Good m (scrollIn m ts) := by
  have hb := scrollBottom_lt hm h.bottom
  have hsz := hm.sizes
  have hrows := hsz.rows
  have hpos := hsz.rowsPos
  have hheight := hsz.height
  have hlast : sub32 m.maxRows 1 = m.maxRows - 1 := sub32_of_le hpos (by omega)
  unfold scrollIn
  simp only
  split
  · exact ⟨⟨h.col, hb, h.altCol, h.altRow, h.bottom⟩, scrollRegionUp_inside hm _ _ _ hb⟩
  · rw [hlast]
    have hlast' : m.maxRows - 1 < m.maxRows := Nat.sub_lt hpos Nat.one_pos
    split
    · exact ⟨⟨h.col, hlast', h.altCol, h.altRow, h.bottom⟩, scrollRegionUp_inside hm _ _ _ hlast'⟩
    · next hlt =>
      exact ⟨⟨h.col, Nat.not_le.mp hlt, h.altCol, h.altRow, h.bottom⟩, allInside_nil⟩

theorem wrapColumn_of_lt (h : ts.cursorCol < m.maxCols) : wrapColumn m ts = ts := if_neg (Nat.not_le.mpr h)

theorem wrapColumn_of_le (h : m.maxCols ≤ ts.cursorCol) :
    wrapColumn m ts = { ts with cursorCol := 0, cursorRow := u32 (ts.cursorRow + 1) } := if_pos h

/-- The pixels of the cell under the cursor. -/
structure Cell (m : Mode) (ts : TermState) : Prop where
  px : u32 (ts.cursorCol * fontWidth) = ts.cursorCol * 8
  py : u32 (ts.cursorRow * fontHeight) = ts.cursorRow * 16
  right : ts.cursorCol * 8 + 8 ≤ m.width
  below : ts.cursorRow * 16 + 16 ≤ m.height
  width : m.width < 2 ^ 26
  height : m.height < 2 ^ 27

theorem Placed.cell (hm : m.Fits) (h : Placed m ts) : Cell m ts := by
  have hsz := hm.sizes
  have hcols := hsz.cols
  have hrows := hsz.rows
  have hwidth := hsz.width
  have hheight := hsz.height
  have hcol := h.col
  have hrow := h.row
  exact ⟨u32_of_lt (by show ts.cursorCol * 8 < _; omega), u32_of_lt (by show ts.cursorRow * 16 < _; omega),
    by omega, by omega, hwidth, hheight⟩

/-- The lines of pixels of the cursor's row. -/
theorem Cell.fill (hm : m.Fits) (hc : Cell m ts) {x w : Nat} (color : Nat) (hx : x ≤ m.width) (hw : x + w < 2 ^ 32) :
    AllInside m (fillrect m x (u32 (ts.cursorRow * fontHeight)) w fontHeight color) := by
  have hbelow := hc.below
  have hheight := hc.height
  rw [hc.py]
  exact fillrect_inside hm color hx (by omega) hw (by show ts.cursorRow * 16 + 16 < _; omega)

theorem drawChar_inside (hm : m.Fits) (h : Placed m ts) (c : UInt8) : AllInside m (drawChar m f ts c) := by
  unfold drawChar
  cases findGlyph f ts.ansiBold c with
  | none => exact allInside_nil
  | some data =>
    have hc := h.cell hm
    have hright := hc.right
    have hwidth := hc.width
    simp only
    refine AllInside.append (hc.fill hm _ ?_ ?_) ?_
    · rw [hc.px]
      omega
    · rw [hc.px]
      show ts.cursorCol * 8 + 8 < _
      omega
    · rw [hc.px, hc.py]
      exact drawglyph_inside hm data _ hright hc.below

theorem terminalPutchar_good (hm : m.Fits) (h : Placed m ts) (c : UInt8) : Good m (terminalPutchar m f ts c) := by
  have hsz := hm.sizes
  have hcols := hsz.cols
  have hpos := hsz.colsPos
  have hrowsPos := hsz.rowsPos
  have hwidth := hsz.width
  have hcol := h.col
  unfold terminalPutchar settle
  split
  · rw [wrapColumn_of_lt hpos]
    exact scrollIn_good hm ⟨hpos, hrowsPos, h.altCol, h.altRow, h.bottom⟩
  · split
    · rw [wrapColumn_of_lt hpos]
      exact scrollIn_good hm ⟨hpos, hrowsPos, h.altCol, h.altRow, h.bottom⟩
    · split
      · have hleft : ts.cursorCol - 1 < m.maxCols := Nat.lt_of_le_of_lt (Nat.sub_le _ _) hcol
        rw [wrapColumn_of_lt hleft]
        exact scrollIn_good hm ⟨hleft, hrowsPos, h.altCol, h.altRow, h.bottom⟩
      · have hright : u32 (ts.cursorCol + 1) = ts.cursorCol + 1 := u32_of_lt (by omega)
        have hsettle : Good m (scrollIn m (wrapColumn m { ts with cursorCol := u32 (ts.cursorCol + 1) })) := by
          rw [hright]
          by_cases hlt : ts.cursorCol + 1 < m.maxCols
          · rw [wrapColumn_of_lt hlt]
            exact scrollIn_good hm ⟨hlt, hrowsPos, h.altCol, h.altRow, h.bottom⟩
          · rw [wrapColumn_of_le (Nat.not_lt.mp hlt)]
            exact scrollIn_good hm ⟨hpos, hrowsPos, h.altCol, h.altRow, h.bottom⟩
        exact ⟨hsettle.1, (drawChar_inside hm h c).append hsettle.2⟩

theorem terminalBack_good (hm : m.Fits) (h : Placed m ts) : Good m (terminalBack m ts) := by
  unfold terminalBack
  split
  · exact h.good
  · next hne =>
    have hsz := hm.sizes
    have hcols := hsz.cols
    have hpos := hsz.colsPos
    have hwidth := hsz.width
    have hcol := h.col
    have hrow := h.row
    have hlast : sub32 m.maxCols 1 = m.maxCols - 1 := sub32_of_le hpos (by omega)
    have hplaced : Placed m (if ts.cursorCol = 0 then { ts with cursorRow := ts.cursorRow - 1, cursorCol := sub32 m.maxCols 1 }
        else { ts with cursorCol := ts.cursorCol - 1 }) := by
      split
      · exact ⟨by show sub32 m.maxCols 1 < _; omega, by show ts.cursorRow - 1 < _; omega, h.altCol, h.altRow, h.bottom⟩
      · exact ⟨by show ts.cursorCol - 1 < _; omega, hrow, h.altCol, h.altRow, h.bottom⟩
    refine ⟨hplaced, ?_⟩
    have hc := hplaced.cell hm
    have hright := hc.right
    refine hc.fill hm _ ?_ ?_
    · rw [hc.px]
      omega
    · rw [hc.px]
      show _ * 8 + 8 < _
      omega

/-! ## Commands -/

/-- The sum of the cursor's place and the width to insert or to erase does not wrap, and no
more characters are to be deleted than a row has, but for a multiple of `2 ^ 29`. -/
def Request.Bounded (m : Mode) (ts : TermState) : Request → Prop
  | .dec .. => True
  | .csi params cmd =>
    (cmd = '@' ∨ cmd = 'X' → ts.cursorCol * 8 + repeatCount params * 8 % 2 ^ 32 < 2 ^ 32) ∧
      (cmd = 'P' → repeatCount params % 2 ^ 29 ≤ m.maxCols)

instance (m : Mode) (ts : TermState) : DecidablePred (Request.Bounded m ts)
  | .dec .. => inferInstanceAs (Decidable True)
  | .csi .. => inferInstanceAs (Decidable (_ ∧ _))

theorem Placed.recolor (h : Placed m ts) (ansiFg ansiBg fg bg : Nat) (bold : Bool) :
    Placed m { ts with ansiFg := ansiFg, ansiBg := ansiBg, fgColor := fg, bgColor := bg, ansiBold := bold } :=
  ⟨h.col, h.row, h.altCol, h.altRow, h.bottom⟩

theorem Placed.applyCode (h : Placed m ts) (code : Nat) : Placed m (ts.applyCode code) := by
  unfold TermState.applyCode
  repeat' split
  all_goals first
    | exact h
    | exact h.recolor ..

theorem Placed.setExtended (h : Placed m ts) (isFg : Bool) (color : Nat) : Placed m (ts.setExtended isFg color) := by
  unfold TermState.setExtended
  split <;> exact h.recolor ..

theorem Placed.selectGraphics (h : Placed m ts) (codes : List Nat) : Placed m (selectGraphics ts codes) := by
  fun_induction Vbe.selectGraphics ts codes with
  | case1 => exact h
  | case2 _ _ _ _ _ _ ih => exact ih (h.setExtended _ _)
  | case3 _ _ _ _ _ _ _ ih => exact ih (h.setExtended _ _)
  | case4 _ _ _ _ _ _ ih => exact ih h
  | case5 _ _ _ _ ih => exact ih (h.applyCode _)

theorem decPrivate_good (hm : m.Fits) (h : Placed m ts) (code : Nat) (cmd : Char) : Good m (decPrivate m ts code cmd) := by
  unfold decPrivate
  split
  · split
    · exact ⟨⟨h.col, h.row, h.altCol, h.altRow, h.bottom⟩, allInside_nil⟩
    · split
      · have hkept : Placed m { ts with altCursorCol := ts.cursorCol, altCursorRow := ts.cursorRow, inAltScreen := true } :=
          ⟨h.col, h.row, h.col, h.row, h.bottom⟩
        exact ⟨hkept.setCursor 0 0, clearScreen_inside hm _⟩
      · exact h.good
  · split
    · exact ⟨⟨h.col, h.row, h.altCol, h.altRow, h.bottom⟩, allInside_nil⟩
    · split
      · exact ⟨⟨h.altCol, h.altRow, h.altCol, h.altRow, h.bottom⟩, clearScreen_inside hm _⟩
      · exact h.good
  · exact h.good

/-- From the cursor to the right edge, and from the left edge up to the cursor. -/
theorem Cell.fill_right (hm : m.Fits) (hc : Cell m ts) (color : Nat) :
    AllInside m (fillrect m (u32 (ts.cursorCol * fontWidth)) (u32 (ts.cursorRow * fontHeight))
      (sub32 m.width (u32 (ts.cursorCol * fontWidth))) fontHeight color) := by
  have hright := hc.right
  have hwidth := hc.width
  rw [hc.px, sub32_of_le (by omega) (by omega)]
  exact hc.fill hm color (by omega) (by omega)

theorem Cell.fill_left (hm : m.Fits) (hc : Cell m ts) (color : Nat) :
    AllInside m (fillrect m 0 (u32 (ts.cursorRow * fontHeight)) (u32 (u32 (ts.cursorCol + 1) * fontWidth)) fontHeight color) :=
  hc.fill hm color (Nat.zero_le _) (by rw [Nat.zero_add]; exact ByteMem.u32_lt _)

theorem eraseDisplay_good (hm : m.Fits) (h : Placed m ts) (mode : Nat) : Good m (eraseDisplay m ts mode) := by
  have hc := h.cell hm
  have hwidth := hc.width
  have hheight := hc.height
  unfold eraseDisplay
  simp only
  split
  · refine ⟨h, (hc.fill_right hm _).append (.ite fun hy => ?_)⟩
    exact fillrect_inside hm _ (Nat.zero_le _) (Nat.le_of_lt hy) (by omega) (by omega)
  · split
    · have hbelow := hc.below
      refine ⟨h, (AllInside.ite fun hy => ?_).append (hc.fill_left hm _)⟩
      exact fillrect_inside hm _ (Nat.zero_le _) (Nat.zero_le _) (by omega) (by rw [hc.py]; omega)
    · split
      · exact ⟨h.setCursor 0 0, clearScreen_inside hm _⟩
      · exact h.good

theorem eraseLine_inside (hm : m.Fits) (h : Placed m ts) (mode : Nat) : AllInside m (eraseLine m ts mode) := by
  have hc := h.cell hm
  have hwidth := hc.width
  unfold eraseLine
  simp only
  split
  · exact hc.fill_right hm _
  · split
    · exact hc.fill_left hm _
    · exact .ite fun _ => hc.fill hm _ (Nat.zero_le _) (by omega)

theorem setScrollRegion_placed (hm : m.Fits) (h : Placed m ts) (top bot : Nat) : Placed m (setScrollRegion m ts top bot) := by
  have hsz := hm.sizes
  have hrows := hsz.rows
  have hpos := hsz.rowsPos
  have hheight := hsz.height
  have hregion : ∀ top bot, bot ≤ m.maxRows → 1 ≤ bot →
      Placed m (setCursor m { ts with scrollRegionTop := sub32 top 1, scrollRegionBottom := sub32 bot 1 } 0 0) := by
    intro top bot hbot hone
    have hlast : sub32 bot 1 < m.maxRows := by
      rw [sub32_of_le hone (by omega)]
      omega
    have hset : Placed m { ts with scrollRegionTop := sub32 top 1, scrollRegionBottom := sub32 bot 1 } :=
      ⟨h.col, h.row, h.altCol, h.altRow, hlast⟩
    exact hset.setCursor 0 0
  have hbot : (if m.maxRows < bot then m.maxRows else bot) ≤ m.maxRows := by
    split <;> omega
  have htop : 1 ≤ if top < 1 then 1 else top := by
    split <;> omega
  unfold setScrollRegion
  simp only
  generalize (if m.maxRows < bot then m.maxRows else bot) = bot at hbot
  generalize (if top < 1 then 1 else top) = top at htop
  split
  · exact hregion _ _ (Nat.le_refl _) hpos
  · next hlt => exact hregion _ _ hbot (by omega)

theorem moveChars_inside (hm : m.Fits) (h : Placed m ts) {dst count : Nat} (src : Nat) (hd : dst + count ≤ m.maxCols) :
    AllInside m (moveChars m ts.cursorRow dst src count) := by
  intro st hst
  obtain ⟨line, hline, rfl⟩ := mem_map.mp hst
  have hlt : line < 16 := mem_range.mp hline
  have hsz := hm.sizes
  have hcols := hsz.cols
  have hwidth := hsz.width
  have hs := hm.size
  have hp := hm.pitch
  have hc := h.cell hm
  have hbelow := hc.below
  have hheight := hc.height
  have hy : u32 (ts.cursorRow * fontHeight + line) = ts.cursorRow * 16 + line :=
    u32_of_lt (by show ts.cursorRow * 16 + line < _; omega)
  have hrow := row_le (m := m) (show ts.cursorRow * 16 + line < m.height by omega)
    (show dst * 8 * 4 + count * 8 * 4 ≤ m.pitch by omega)
  show u32 (_ + dst * 8 * 4) + u32 (count * 8 * 4) ≤ _
  rw [hy, u32_of_lt (by omega), u32_of_lt (by omega)]
  omega

theorem insertChars_inside (hm : m.Fits) (h : Placed m ts) {n : Nat}
    (hn : ts.cursorCol * 8 + n * 8 % 2 ^ 32 < 2 ^ 32) : AllInside m (insertChars m ts n) := by
  have hc := h.cell hm
  have hright := hc.right
  refine AllInside.append (.ite fun hlt => moveChars_inside hm h _ (by omega)) (hc.fill hm _ ?_ ?_)
  · rw [hc.px]
    omega
  · rw [hc.px]
    exact hn

theorem eraseChars_inside (hm : m.Fits) (h : Placed m ts) {n : Nat}
    (hn : ts.cursorCol * 8 + n * 8 % 2 ^ 32 < 2 ^ 32) : AllInside m (eraseChars m ts n) := by
  have hc := h.cell hm
  have hright := hc.right
  refine hc.fill hm _ ?_ ?_
  · rw [hc.px]
    omega
  · rw [hc.px]
    exact hn

theorem deleteChars_inside (hm : m.Fits) (h : Placed m ts) {n : Nat} (hn : n % 2 ^ 29 ≤ m.maxCols) :
    AllInside m (deleteChars m ts n) := by
  have hsz := hm.sizes
  have hcols := hsz.cols
  have hwidth := hsz.width
  have hc := h.cell hm
  have hcol := h.col
  have hpast : u32 (ts.cursorCol + n) < m.maxCols → ts.cursorCol + (m.maxCols - u32 (ts.cursorCol + n)) ≤ m.maxCols := by
    unfold u32
    omega
  -- The place and the width lose the same multiple of the words.
  have hstart : u32 (sub32 m.maxCols n * fontWidth) = (m.maxCols - n % 2 ^ 29) * 8 := by
    show (m.maxCols + 2 ^ 32 - n % 2 ^ 32) % 2 ^ 32 * 8 % 2 ^ 32 = _
    omega
  have hlen : u32 (n * fontWidth) = n % 2 ^ 29 * 8 := by
    show n * 8 % 2 ^ 32 = _
    omega
  refine AllInside.append (.ite fun hlt => moveChars_inside hm h _ (hpast hlt)) (hc.fill hm _ ?_ ?_)
  · rw [hstart]
    omega
  · rw [hstart, hlen]
    omega

theorem command_good (hm : m.Fits) (h : Placed m ts) (params : List (List UInt8)) (cmd : Char)
    (hb : (Request.csi params cmd).Bounded m ts) : Good m (command m ts params cmd) := by
  have hbottom := scrollBottom_lt hm h.bottom
  unfold command
  simp only
  split
  · refine ⟨?_, allInside_nil⟩
    split
    · exact h.recolor ..
    · exact h.selectGraphics _
  · exact (h.setCursor _ _).good
  · exact (h.setCursor _ _).good
  · exact (h.setCursor _ _).good
  · exact (h.setCursor _ _).good
  · exact (h.setCursor _ _).good
  · exact (h.setCursor _ _).good
  · exact eraseDisplay_good hm h _
  · exact ⟨h, eraseLine_inside hm h _⟩
  · exact (setScrollRegion_placed hm h _ _).good
  · exact ⟨⟨h.col, h.row, h.altCol, h.altRow, h.bottom⟩, allInside_nil⟩
  · exact (h.setCursor _ _).good
  · exact ⟨h, .ite fun _ => scrollRegionDown_inside hm _ _ _ hbottom⟩
  · exact ⟨h, .ite fun _ => scrollRegionUp_inside hm _ _ _ hbottom⟩
  · exact ⟨h, insertChars_inside hm h (hb.1 (.inl rfl))⟩
  · exact ⟨h, deleteChars_inside hm h (hb.2 rfl)⟩
  · exact ⟨h, scrollRegionUp_inside hm _ _ _ hbottom⟩
  · exact ⟨h, scrollRegionDown_inside hm _ _ _ hbottom⟩
  · exact ⟨h, eraseChars_inside hm h (hb.1 (.inr rfl))⟩
  · exact (h.setCursor _ _).good
  · exact (h.setCursor _ _).good
  · exact h.good

/-- Where the stores go does not matter for where the cursor is. -/
theorem Request.run_placed (hm : m.Fits) (h : Placed m ts) (r : Request) : Placed m (r.run m ts).1 := by
  cases r with
  | dec code cmd => exact (decPrivate_good hm h code cmd).1
  | csi params cmd =>
    by_cases hb : (Request.csi params cmd).Bounded m ts
    · exact (command_good hm h params cmd hb).1
    · -- Only the requests that change no state can wrap.
      have hcmd : cmd = '@' ∨ cmd = 'X' ∨ cmd = 'P' := by
        by_contra hn
        rw [not_or, not_or] at hn
        exact hb ⟨fun hc => (hc.elim hn.1 hn.2.1).elim, fun hc => (hn.2.2 hc).elim⟩
      rcases hcmd with rfl | rfl | rfl <;> exact h

/-! ## Bytes -/

theorem handleEscape_good (hm : m.Fits) (h : Placed m ts) (c : UInt8) : Good m (handleEscape m ts c) := by
  have hbottom := scrollBottom_lt hm h.bottom
  have hsz := hm.sizes
  have hpos := hsz.rowsPos
  unfold handleEscape
  split
  · exact ⟨⟨h.col, h.row, h.altCol, h.altRow, h.bottom⟩, allInside_nil⟩
  · exact (h.setCursor _ _).good
  · split
    · exact ⟨h, scrollRegionDown_inside hm _ _ _ hbottom⟩
    · exact ⟨⟨h.col, Nat.lt_of_le_of_lt (Nat.sub_le _ _) h.row, h.altCol, h.altRow, h.bottom⟩, allInside_nil⟩
  · have hreset : Placed m { ts.resetColors with scrollRegionTop := 0, scrollRegionBottom := 0 } :=
      ⟨h.col, h.row, h.altCol, h.altRow, hpos⟩
    exact ⟨hreset.setCursor 0 0, clearScreen_inside hm _⟩
  · exact h.good

/-- The request that a byte completes. -/
def completed (p : Parser) (c : UInt8) : Option Request :=
  match p with
  | none => none
  | some buf => if (stored buf c).head? = some '['.toUInt8 ∧ isFinal c then request (stored buf c).tail else none

theorem handleAnsiSequence_good (hm : m.Fits) (h : Placed m ts) {seq : List UInt8}
    (hb : ∀ r ∈ request seq, r.Bounded m ts) : Good m (handleAnsiSequence m ts seq) := by
  unfold handleAnsiSequence
  cases hr : request seq with
  | none => exact h.good
  | some r =>
    have hr' := hb r (by rw [hr]; rfl)
    cases r with
    | dec code cmd => exact decPrivate_good hm h code cmd
    | csi params cmd => exact command_good hm h params cmd hr'

theorem feed_good (hm : m.Fits) {t : Term} (h : Placed m t.ts) (c : UInt8)
    (hb : ∀ r ∈ completed t.parser c, r.Bounded m t.ts) :
    Placed m (feed m f t c).1.ts ∧ AllInside m (feed m f t c).2 := by
  unfold feed
  unfold completed at hb
  cases hp : t.parser with
  | none =>
    simp only
    split
    · exact h.good
    · exact terminalPutchar_good hm h c
  | some buf =>
    rw [hp] at hb
    simp only
    split
    · exact handleEscape_good hm h c
    · split
      · next hfin =>
        simp only [hfin, and_self, if_true] at hb
        exact handleAnsiSequence_good hm h hb
      · exact h.good

theorem feed_placed (hm : m.Fits) {t : Term} (h : Placed m t.ts) (c : UInt8) : Placed m (feed m f t c).1.ts := by
  by_cases hb : ∀ r ∈ completed t.parser c, r.Bounded m t.ts
  · exact (feed_good hm h c hb).1
  · unfold feed
    cases t.parser with
    | none =>
      simp only
      split
      · exact h
      · exact (terminalPutchar_good hm h c).1
    | some buf =>
      simp only
      split
      · exact (handleEscape_good hm h c).1
      · split
        · unfold handleAnsiSequence
          cases request (stored buf c).tail with
          | none => exact h
          | some r => exact r.run_placed hm h
        · exact h

/-! ## Runs -/

/-- What happens to a terminal: a byte of a write, the end of the write, and what the kernel
does with its own terminal. -/
inductive TermOp where
  | byte (c : UInt8)
  | endWrite
  | putchar (c : UInt8)
  | back
  | setCursor (col row : Nat)

namespace TermOp

def run (m : Mode) (f : Font) (t : Term) : TermOp → Term × List Store
  | .byte c => feed m f t c
  | .endWrite => (⟨t.ts, none⟩, [])
  | .putchar c => (⟨(terminalPutchar m f t.ts c).1, t.parser⟩, (terminalPutchar m f t.ts c).2)
  | .back => (⟨(terminalBack m t.ts).1, t.parser⟩, (terminalBack m t.ts).2)
  | .setCursor col row => (⟨Vbe.setCursor m t.ts col row, t.parser⟩, [])

/-- The byte does not complete a request that wraps. -/
def Bounded (m : Mode) (t : Term) : TermOp → Prop
  | .byte c => ∀ r ∈ completed t.parser c, r.Bounded m t.ts
  | .endWrite | .putchar _ | .back | .setCursor .. => True

instance (m : Mode) (t : Term) : DecidablePred (TermOp.Bounded m t)
  | .byte c => inferInstanceAs (Decidable (∀ r ∈ completed t.parser c, r.Bounded m t.ts))
  | .endWrite | .putchar _ | .back | .setCursor .. => inferInstanceAs (Decidable True)

theorem run_good (hm : m.Fits) {t : Term} (h : Placed m t.ts) {op : TermOp} (hb : op.Bounded m t) :
    Placed m (op.run m f t).1.ts ∧ AllInside m (op.run m f t).2 := by
  cases op with
  | byte c => exact feed_good hm h c hb
  | endWrite => exact h.good
  | putchar c => exact terminalPutchar_good hm h c
  | back => exact terminalBack_good hm h
  | setCursor col row => exact (h.setCursor col row).good

end TermOp

/-- A terminal, and all stores made for it so far. -/
structure Session where
  term : Term
  made : List Store

/-- The cursor is at its first place, and there is no scroll region. -/
structure TermState.Home (ts : TermState) : Prop where
  col : ts.cursorCol = 0
  row : ts.cursorRow = 0
  altCol : ts.altCursorCol = 0
  altRow : ts.altCursorRow = 0
  bottom : ts.scrollRegionBottom = 0

theorem TermState.Home.placed (h : ts.Home) (hm : m.Fits) : Placed m ts := by
  have hsz := hm.sizes
  have hc := hsz.colsPos
  have hr := hsz.rowsPos
  exact ⟨h.col ▸ hc, h.row ▸ hr, h.altCol ▸ hc, h.altRow ▸ hr, h.bottom ▸ hr⟩

theorem freshTerm_home : freshTerm.Home := ⟨rfl, rfl, rfl, rfl, rfl⟩

def Session.Start (s : Session) : Prop := s.made = [] ∧ s.term.ts.Home

def Session.next (m : Mode) (f : Font) (s : Session) (op : TermOp) : Session :=
  ⟨(op.run m f s.term).1, s.made ++ (op.run m f s.term).2⟩

def Reachable (m : Mode) (f : Font) : Session → Prop :=
  Run.Reachable Session.Start fun s s' => ∃ op, s' = s.next m f op

def BoundedRun (m : Mode) (f : Font) : Session → Prop :=
  Run.Reachable Session.Start fun s s' => ∃ op : TermOp, op.Bounded m s.term ∧ s' = s.next m f op

/-- Whatever is written to a terminal, as long as no request wraps every store is inside the
buffer. -/
theorem stores_inside (hm : m.Fits) {s : Session} (h : BoundedRun m f s) : AllInside m s.made := by
  have hinv : Placed m s.term.ts ∧ AllInside m s.made := by
    refine h.invariant (fun s => Placed m s.term.ts ∧ AllInside m s.made) (fun s hs => ?_) fun s s' hi hs => ?_
    · exact ⟨hs.2.placed hm, hs.1 ▸ allInside_nil⟩
    · obtain ⟨op, hb, rfl⟩ := hs
      obtain ⟨hp, hout⟩ := TermOp.run_good hm hi.1 hb
      exact ⟨hp, hi.2.append hout⟩
  exact hinv.2

theorem vga_fits : vga.Fits := ⟨by decide, by decide, by decide, by decide⟩

def Session.fresh : Session := ⟨⟨freshTerm, none⟩, []⟩

theorem Session.fresh_start : Session.fresh.Start := ⟨rfl, freshTerm_home⟩

/-- Two characters are deleted from a row of eighty. -/
theorem stores_inside_vga : AllInside vga
    ((((Session.fresh.next vga blankFont (.byte esc)).next vga blankFont (.byte '['.toUInt8)).next vga blankFont
      (.byte '2'.toUInt8)).next vga blankFont (.byte 'P'.toUInt8)).made :=
  stores_inside vga_fits (((((Run.Reachable.start Session.fresh_start).step
    ⟨.byte esc, by decide, rfl⟩).step ⟨.byte '['.toUInt8, by decide, rfl⟩).step
    ⟨.byte '2'.toUInt8, by decide, rfl⟩).step ⟨.byte 'P'.toUInt8, by decide, rfl⟩)

/-- Eighty-one characters are deleted: the rectangle starts eight pixels before the buffer. -/
theorem not_stores_inside : vga.Fits ∧ ¬ ∀ s, Reachable vga blankFont s → AllInside vga s.made := by
  refine ⟨vga_fits, fun hall => ?_⟩
  have hall' := hall _ ((((((Run.Reachable.start Session.fresh_start).step
    ⟨.byte esc, rfl⟩).step ⟨.byte '['.toUInt8, rfl⟩).step ⟨.byte '8'.toUInt8, rfl⟩).step
    ⟨.byte '1'.toUInt8, rfl⟩).step ⟨.byte 'P'.toUInt8, rfl⟩)
  have hout := hall' (.pixel 4294967264 0xFF000000) (by decide +kernel)
  exact absurd hout (by decide)

end Serotonin.Vbe
