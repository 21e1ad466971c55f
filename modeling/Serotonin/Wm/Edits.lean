import Mathlib.Tactic.Ring
import Serotonin.Wm.Grid

/-! What the commands that insert, delete and erase are for, and what they do to the cells. A row
or a region of rows is a line in which things are put in or taken out, with blanks for what is
missing then. -/

namespace Serotonin.Wm

open ByteMem (u32 u32_of_lt)
open Vbe (sub32)

/-! ## Lines -/

section Lines

variable {α : Type*}

/-- At `lo`, `n` blanks are put into the part from `lo` to before `hi`; what does not fit is lost. -/
def putIn (lo hi n : Nat) (blank : α) (f : Nat → α) (i : Nat) : α :=
  if i < lo ∨ hi ≤ i then f i
  else if i < lo + min n (hi - lo) then blank
  else f (i - min n (hi - lo))

/-- At `lo`, `n` things are taken out of the part, with blanks at its end. -/
def takeOut (lo hi n : Nat) (blank : α) (f : Nat → α) (i : Nat) : α :=
  if i < lo ∨ hi ≤ i then f i
  else if i + min n (hi - lo) < hi then f (i + min n (hi - lo))
  else blank

/-- At `lo`, `n` things of the part become blanks. -/
def wipe (lo hi n : Nat) (blank : α) (f : Nat → α) (i : Nat) : α :=
  if lo ≤ i ∧ i < lo + min n (hi - lo) then blank else f i

/-- First what stays is moved, and then blanks are put in its place. -/
theorem putIn_eq (lo hi n : Nat) (blank : α) (f : Nat → α) (i : Nat) : putIn lo hi n blank f i =
    if lo ≤ i ∧ i < lo + min n (hi - lo) then blank
    else if lo + min n (hi - lo) ≤ i ∧ i < lo + min n (hi - lo) + (hi - lo - min n (hi - lo)) then
      f (lo + (i - (lo + min n (hi - lo))))
    else f i := by
  have hle : min n (hi - lo) ≤ hi - lo := Nat.min_le_right _ _
  unfold putIn
  generalize min n (hi - lo) = k at hle ⊢
  by_cases hout : i < lo ∨ hi ≤ i
  · rw [if_pos hout, if_neg (by omega), if_neg (by omega)]
  · rw [if_neg hout]
    by_cases hnew : i < lo + k
    · rw [if_pos hnew, if_pos (by omega)]
    · rw [if_neg hnew, if_neg (by omega), if_pos (by omega)]
      congr 1
      omega

theorem takeOut_eq (lo hi n : Nat) (blank : α) (f : Nat → α) (i : Nat) : takeOut lo hi n blank f i =
    if hi - min n (hi - lo) ≤ i ∧ i < hi then blank
    else if lo ≤ i ∧ i < lo + (hi - lo - min n (hi - lo)) then f (lo + min n (hi - lo) + (i - lo))
    else f i := by
  have hle : min n (hi - lo) ≤ hi - lo := Nat.min_le_right _ _
  unfold takeOut
  generalize min n (hi - lo) = k at hle ⊢
  by_cases hout : i < lo ∨ hi ≤ i
  · rw [if_pos hout, if_neg (by omega), if_neg (by omega)]
  · rw [if_neg hout]
    by_cases hkept : i + k < hi
    · rw [if_pos hkept, if_neg (by omega), if_pos (by omega)]
      congr 1
      omega
    · rw [if_neg hkept, if_pos (by omega)]

end Lines

/-- What is seen of a cell. -/
structure Content where
  ch : UInt8
  fg : Nat
  bg : Nat
  bold : Bool
deriving DecidableEq

def Cell.content (c : Cell) : Content := ⟨c.ch, c.fg, c.bg, c.bold⟩

namespace Term

variable {ts ts' : Term}

def look (ts : Term) (row col : Nat) : Content := (ts.cells (row * ts.cols + col)).content

/-- A blank in the colours that are set. -/
def space (ts : Term) : Content := ts.blank.content

/-- The terminal has the same grid and the same other screen, and shows `f` on its grid. -/
structure Shows (ts : Term) (f : Nat → Nat → Content) (ts' : Term) : Prop where
  cols : ts'.cols = ts.cols
  rows : ts'.rows = ts.rows
  space : ts'.space = ts.space
  cells : ∀ r < ts.rows, ∀ c < ts.cols, ts'.look r c = f r c
  others : ∀ i, ts.rows * ts.cols ≤ i → ts'.cells i = ts.cells i
  altCells : ts'.altCells = ts.altCells

variable {f f' : Nat → Nat → Content}

theorem Shows.refl (ts : Term) : ts.Shows ts.look ts := ⟨rfl, rfl, rfl, fun _ _ _ _ => rfl, fun _ _ => rfl, rfl⟩

theorem Shows.congr (h : ts.Shows f ts') (he : ∀ r < ts.rows, ∀ c < ts.cols, f r c = f' r c) : ts.Shows f' ts' :=
  ⟨h.cols, h.rows, h.space, fun r hr c hc => (h.cells r hr c hc).trans (he r hr c hc), h.others, h.altCells⟩

theorem Shows.unique (h : ts.Shows f ts') (h' : ts.Shows f' ts') {r c : Nat} (hr : r < ts.rows) (hc : c < ts.cols) :
    f r c = f' r c := (h.cells r hr c hc).symm.trans (h'.cells r hr c hc)

/-! ## Places -/

theorem index_lt {w r c n : Nat} (hc : c < w) (hr : r < n) : r * w + c < n * w := by
  have hle : (r + 1) * w ≤ n * w := Nat.mul_le_mul_right w hr
  rw [Nat.add_mul, Nat.one_mul] at hle
  omega

/-- A row of cells in the array. -/
theorem index_mem {w r c row a b : Nat} (hc : c < w) (hb : b ≤ w) :
    row * w + a ≤ r * w + c ∧ r * w + c < row * w + b ↔ r = row ∧ a ≤ c ∧ c < b := by
  obtain hlt | rfl | hlt := Nat.lt_trichotomy r row
  · have hindex := index_lt hc hlt
    exact ⟨fun h => absurd h.1 (by omega), fun h => absurd h.1 (by omega)⟩
  · omega
  · have hle : (row + 1) * w ≤ r * w := Nat.mul_le_mul_right w hlt
    rw [Nat.add_mul, Nat.one_mul] at hle
    exact ⟨fun h => absurd h.2 (by omega), fun h => absurd h.1 (by omega)⟩

/-- Whole rows of cells in the array. -/
theorem index_mem_rows {w r c a b : Nat} (hc : c < w) : a * w ≤ r * w + c ∧ r * w + c < b * w ↔ a ≤ r ∧ r < b := by
  constructor
  · intro ⟨ha, hb⟩
    refine ⟨?_, ?_⟩
    · by_contra hlt
      have hindex := index_lt hc (Nat.lt_of_not_le hlt)
      omega
    · by_contra hge
      have hle := Nat.mul_le_mul_right w (Nat.le_of_not_lt hge)
      omega
  · intro ⟨ha, hb⟩
    have hle := Nat.mul_le_mul_right w ha
    exact ⟨by omega, index_lt hc hb⟩

theorem Grid.size_lt (hg : ts.Grid) : ts.rows * ts.cols < 2 ^ 32 := by
  have hle : ts.rows * ts.cols ≤ 4095 * 8191 := Nat.mul_le_mul hg.rows_le hg.cols_le
  omega

theorem Grid.place_eq (hg : ts.Grid) {row col : Nat} (hrow : row < ts.rows) (hcol : col ≤ ts.cols) :
    ts.place col row = row * ts.cols + col := by
  have hsize := hg.size_lt
  have hle : (row + 1) * ts.cols ≤ ts.rows * ts.cols := Nat.mul_le_mul_right _ hrow
  rw [Nat.add_mul, Nat.one_mul] at hle
  unfold place u32
  rw [Nat.mod_eq_of_lt (by omega : row * ts.cols < 2 ^ 32), Nat.mod_eq_of_lt (by omega)]

theorem Grid.mem_part (hg : ts.Grid) {row a b i : Nat} (hrow : row < ts.rows) (hb : b ≤ ts.cols) :
    i ∈ ts.part row a b ↔ row * ts.cols + a ≤ i ∧ i < row * ts.cols + b := by
  unfold part
  rw [List.mem_map]
  constructor
  · intro ⟨c, hc, he⟩
    rw [List.mem_range'_1] at hc
    rw [hg.place_eq hrow (by omega)] at he
    omega
  · intro ⟨ha, hlt⟩
    refine ⟨i - row * ts.cols, List.mem_range'_1.mpr (by omega), ?_⟩
    rw [hg.place_eq hrow (by omega)]
    omega

theorem Grid.mem_lines (hg : ts.Grid) {a b i : Nat} (hb : b ≤ ts.rows) :
    i ∈ ts.lines a b ↔ a * ts.cols ≤ i ∧ i < b * ts.cols := by
  unfold lines
  rw [List.mem_flatMap]
  constructor
  · intro ⟨r, hr, hi⟩
    rw [List.mem_range'_1] at hr
    rw [hg.mem_part (by omega) (Nat.le_refl _)] at hi
    have hle := Nat.mul_le_mul_right ts.cols hr.1
    have hle' := Nat.mul_le_mul_right ts.cols (by omega : r + 1 ≤ b)
    rw [Nat.add_mul, Nat.one_mul] at hle'
    omega
  · intro ⟨ha, hlt⟩
    have hpos := hg.cols_pos
    have hdiv : a ≤ i / ts.cols := (Nat.le_div_iff_mul_le hpos).mpr ha
    have hdiv' : i / ts.cols < b := (Nat.div_lt_iff_lt_mul hpos).mpr hlt
    have hmod := Nat.mod_lt i hpos
    have hsplit : i / ts.cols * ts.cols + i % ts.cols = i := Nat.div_add_mod' i ts.cols
    refine ⟨i / ts.cols, List.mem_range'_1.mpr (by omega), ?_⟩
    rw [hg.mem_part (by omega) (Nat.le_refl _)]
    omega

/-! ## Changes of cells -/

theorem look_touch (ts : Term) (places : List Nat) (f : Cell → Cell) (r c : Nat) : (ts.touch places f).look r c =
    if r * ts.cols + c ∈ places then (f (ts.cells (r * ts.cols + c))).content else ts.look r c := by
  show (if r * ts.cols + c ∈ places then f (ts.cells (r * ts.cols + c)) else ts.cells (r * ts.cols + c)).content = _
  split <;> rfl

theorem look_moveCells (ts : Term) (dst src n r c : Nat) : (ts.moveCells dst src n).look r c =
    if dst ≤ r * ts.cols + c ∧ r * ts.cols + c < dst + n then (ts.cells (src + (r * ts.cols + c - dst))).content
    else ts.look r c := by
  show (if dst ≤ r * ts.cols + c ∧ r * ts.cols + c < dst + n then ts.cells (src + (r * ts.cols + c - dst))
    else ts.cells (r * ts.cols + c)).content = _
  split <;> rfl

theorem Shows.clearPart (h : ts.Shows f ts') (hg : ts.Grid) {row a b : Nat} (hrow : row < ts.rows) (hb : b ≤ ts.cols) :
    ts.Shows (fun r c => if r = row ∧ a ≤ c ∧ c < b then ts.space else f r c) (ts'.clear (ts.part row a b)) := by
  refine ⟨h.cols, h.rows, h.space, fun r hr c hc => ?_, fun i hi => ?_, h.altCells⟩
  · rw [clear, look_touch, h.cols]
    simp only [hg.mem_part hrow hb, index_mem hc hb]
    split
    · exact h.space
    · exact h.cells r hr c hc
  · have hout : i ∉ ts.part row a b := by
      rw [hg.mem_part hrow hb]
      have hle := Nat.mul_le_mul_right ts.cols hrow
      rw [Nat.succ_mul] at hle
      omega
    exact (if_neg hout).trans (h.others i hi)

theorem Shows.clearLines (h : ts.Shows f ts') (hg : ts.Grid) {a b : Nat} (hb : b ≤ ts.rows) :
    ts.Shows (fun r c => if a ≤ r ∧ r < b then ts.space else f r c) (ts'.clear (ts.lines a b)) := by
  refine ⟨h.cols, h.rows, h.space, fun r hr c hc => ?_, fun i hi => ?_, h.altCells⟩
  · rw [clear, look_touch, h.cols]
    simp only [hg.mem_lines hb, index_mem_rows hc]
    split
    · exact h.space
    · exact h.cells r hr c hc
  · have hout : i ∉ ts.lines a b := by
      rw [hg.mem_lines hb]
      have hle := Nat.mul_le_mul_right ts.cols hb
      omega
    exact (if_neg hout).trans (h.others i hi)

/-- Marks are not seen. -/
theorem Shows.markDirty (h : ts.Shows f ts') {places : List Nat} (hp : ∀ i ∈ places, i < ts.rows * ts.cols) :
    ts.Shows f (ts'.markDirty places) := by
  refine ⟨h.cols, h.rows, h.space, fun r hr c hc => ?_, fun i hi => ?_, h.altCells⟩
  · rw [Term.markDirty, look_touch]
    split
    · exact h.cells r hr c hc
    · exact h.cells r hr c hc
  · have hout : i ∉ places := fun hmem => absurd (hp i hmem) (Nat.not_lt.mpr hi)
    exact (if_neg hout).trans (h.others i hi)

theorem Shows.setCursor (h : ts.Shows f ts') (col row : Nat) : ts.Shows f (ts'.setCursor col row) :=
  ⟨h.cols, h.rows, h.space, h.cells, h.others, h.altCells⟩

/-- A part of a row is moved to another column. -/
theorem shows_movePart (ts : Term) {row a b n : Nat} (hrow : row < ts.rows) (ha : a + n ≤ ts.cols) :
    ts.Shows (fun r c => if r = row ∧ a ≤ c ∧ c < a + n then ts.look row (b + (c - a)) else ts.look r c)
      (ts.moveCells (row * ts.cols + a) (row * ts.cols + b) n) := by
  refine ⟨rfl, rfl, rfl, fun r hr c hc => ?_, fun i hi => if_neg ?_, rfl⟩
  · have hmem : row * ts.cols + a ≤ r * ts.cols + c ∧ r * ts.cols + c < row * ts.cols + (a + n) ↔ r = row ∧ a ≤ c ∧ c < a + n :=
      index_mem hc ha
    rw [← Nat.add_assoc] at hmem
    rw [look_moveCells]
    by_cases hin : r = row ∧ a ≤ c ∧ c < a + n
    · have hplace : row * ts.cols + b + (r * ts.cols + c - (row * ts.cols + a)) = row * ts.cols + (b + (c - a)) := by
        rw [hin.1]
        omega
      rw [if_pos hin, if_pos (hmem.mpr hin), hplace]
      rfl
    · rw [if_neg hin, if_neg (mt hmem.mp hin)]
  · have hle := Nat.mul_le_mul_right ts.cols hrow
    rw [Nat.succ_mul] at hle
    omega

/-- Whole rows are moved. -/
theorem shows_moveLines (ts : Term) {a b n : Nat} (ha : a + n ≤ ts.rows) :
    ts.Shows (fun r c => if a ≤ r ∧ r < a + n then ts.look (b + (r - a)) c else ts.look r c)
      (ts.moveCells (a * ts.cols) (b * ts.cols) (n * ts.cols)) := by
  refine ⟨rfl, rfl, rfl, fun r hr c hc => ?_, fun i hi => if_neg ?_, rfl⟩
  · have hmem := index_mem_rows (r := r) (a := a) (b := a + n) hc
    rw [Nat.add_mul a n] at hmem
    rw [look_moveCells]
    by_cases hin : a ≤ r ∧ r < a + n
    · have hplace : b * ts.cols + (r * ts.cols + c - a * ts.cols) = (b + (r - a)) * ts.cols + c := by
        obtain ⟨k, rfl⟩ := Nat.exists_eq_add_of_le hin.1
        rw [Nat.add_sub_cancel_left, Nat.add_mul, Nat.add_mul]
        omega
      rw [if_pos hin, if_pos (hmem.mpr hin), hplace]
      rfl
    · rw [if_neg hin, if_neg (mt hmem.mp hin)]
  · have hle := Nat.mul_le_mul_right ts.cols ha
    rw [Nat.add_mul] at hle
    omega

/-! ## Scrolling -/

theorem Shows.lines (h : ts.Shows f ts') (a b : Nat) : ts'.lines a b = ts.lines a b := by
  simp only [Term.lines, Term.part, place, h.cols]

theorem Shows.noteScroll (h : ts.Shows f ts') (hg : ts.Grid) {bot : Nat} (hbot : bot < ts.rows) (up : Bool) (top n : Nat) :
    ts.Shows f (ts'.noteScroll up top bot n) := by
  unfold Term.noteScroll
  split
  · exact ⟨h.cols, h.rows, h.space, h.cells, h.others, h.altCells⟩
  · have hplain : ts.Shows f { ts' with fbScrollDelta := 0 } := ⟨h.cols, h.rows, h.space, h.cells, h.others, h.altCells⟩
    refine hplain.markDirty fun i hi => ?_
    rw [h.lines, hg.mem_lines hbot] at hi
    exact Nat.lt_of_lt_of_le hi.2 (Nat.mul_le_mul_right _ hbot)

theorem scrollCount_eq {top bot : Nat} (h : top ≤ bot) (n : Nat) : scrollCount top bot n = min n (bot + 1 - top) := by
  unfold scrollCount
  split <;> omega

/-- Rows of the grid have places in the array. -/
theorem Grid.u32_rows (hg : ts.Grid) {n : Nat} (hn : n ≤ ts.rows) : u32 (n * ts.cols) = n * ts.cols := by
  have hsize := hg.size_lt
  exact u32_of_lt (Nat.lt_of_le_of_lt (Nat.mul_le_mul_right _ hn) hsize)

theorem shows_scrollUp (hg : ts.Grid) {bot : Nat} (hbot : bot < ts.rows) (top n : Nat) :
    ts.Shows (fun r c => takeOut top (bot + 1) n ts.space (ts.look · c) r) (ts.scrollUp top bot n) := by
  have hrows : ts.rows ≤ 4095 := hg.rows_le
  unfold scrollUp
  by_cases hnone : n = 0 ∨ bot < top ∨ ts.rows ≤ bot
  · rw [if_pos hnone]
    refine (Shows.refl ts).congr fun r hr c hc => ?_
    rw [takeOut_eq, if_neg (by omega)]
    split
    · congr 1
      omega
    · rfl
  · rw [if_neg hnone, scrollCount_eq (by omega)]
    have hk : min n (bot + 1 - top) ≤ bot + 1 - top := Nat.min_le_right _ _
    refine Shows.noteScroll ?_ hg hbot _ _ _
    unfold shiftUp
    have hstart : u32 (sub32 bot (min n (bot + 1 - top)) + 1) = bot + 1 - min n (bot + 1 - top) := by
      unfold sub32 u32
      omega
    rw [hstart, hg.u32_rows (by omega), hg.u32_rows (by omega), hg.u32_rows (by omega)]
    have hmoved := shows_moveLines ts (a := top) (b := top + min n (bot + 1 - top)) (n := bot - top + 1 - min n (bot + 1 - top))
      (by omega)
    refine (hmoved.clearLines hg hbot).congr fun r hr c hc => ?_
    rw [takeOut_eq, Nat.sub_add_comm (by omega : top ≤ bot)]

theorem shows_scrollDown (hg : ts.Grid) {bot : Nat} (hbot : bot < ts.rows) (top n : Nat) :
    ts.Shows (fun r c => putIn top (bot + 1) n ts.space (ts.look · c) r) (ts.scrollDown top bot n) := by
  unfold scrollDown
  by_cases hnone : n = 0 ∨ bot < top ∨ ts.rows ≤ bot
  · rw [if_pos hnone]
    refine (Shows.refl ts).congr fun r hr c hc => ?_
    rw [putIn_eq, if_neg (by omega)]
    split
    · congr 1
      omega
    · rfl
  · rw [if_neg hnone, scrollCount_eq (by omega)]
    have hk : min n (bot + 1 - top) ≤ bot + 1 - top := Nat.min_le_right _ _
    refine Shows.noteScroll ?_ hg hbot _ _ _
    unfold shiftDown
    rw [hg.u32_rows (by omega), hg.u32_rows (by omega), hg.u32_rows (by omega)]
    have hmoved := shows_moveLines ts (a := top + min n (bot + 1 - top)) (b := top) (n := bot - top + 1 - min n (bot + 1 - top))
      (by omega)
    refine (hmoved.clearLines hg (by omega)).congr fun r hr c hc => ?_
    rw [putIn_eq, Nat.sub_add_comm (by omega : top ≤ bot)]

end Term

end Serotonin.Wm
