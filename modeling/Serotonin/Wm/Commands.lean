import Serotonin.Wm.Edits

/-! The commands that insert, delete and erase, in every state that a terminal can be in. All of
them but one do what they are for; deleting characters clears the end of the row by their number,
so that it clears cells before the cursor if there are not so many behind it. -/

namespace Serotonin.Wm

open ByteMem (u32 u32_of_lt)
open Vbe (sub32)

/-- The commands, each with its count or mode. -/
inductive Edit
  | eraseDisplay (mode : Int)
  | eraseLine (mode : Int)
  | insertLines (n : Nat)
  | deleteLines (n : Nat)
  | insertChars (n : Nat)
  | deleteChars (n : Nat)
  | scrollUp (n : Nat)
  | scrollDown (n : Nat)
  | eraseChars (n : Nat)

/-- The count of a command is an `int`. -/
def Edit.Fits : Edit → Prop
  | .insertChars n | .deleteChars n | .eraseChars n => n < 2 ^ 31
  | _ => True

namespace Term

variable {ts : Term} {n : Nat}

/-- The cursor is on a cell. -/
structure OnCell (ts : Term) : Prop where
  col : ts.cursorCol < ts.cols
  row : ts.cursorRow < ts.rows

/-- What the grid shows after a command, at a row and a column. -/
def edited (ts : Term) : Edit → Nat → Nat → Content
  | .eraseDisplay mode, r, c =>
    if mode = 0 ∧ (r = ts.cursorRow ∧ ts.cursorCol ≤ c ∨ ts.cursorRow < r) ∨
        mode = 1 ∧ (r < ts.cursorRow ∨ r = ts.cursorRow ∧ c ≤ ts.cursorCol) ∨ mode = 2 then ts.space
    else ts.look r c
  | .eraseLine mode, r, c =>
    if r = ts.cursorRow ∧ (mode = 0 ∧ ts.cursorCol ≤ c ∨ mode = 1 ∧ c ≤ ts.cursorCol ∨ mode = 2) then ts.space
    else ts.look r c
  | .insertLines n, r, c => putIn ts.cursorRow (ts.scrollBottom + 1) n ts.space (ts.look · c) r
  | .deleteLines n, r, c => takeOut ts.cursorRow (ts.scrollBottom + 1) n ts.space (ts.look · c) r
  | .scrollUp n, r, c => takeOut ts.scrollTop (ts.scrollBottom + 1) n ts.space (ts.look · c) r
  | .scrollDown n, r, c => putIn ts.scrollTop (ts.scrollBottom + 1) n ts.space (ts.look · c) r
  | .insertChars n, r, c => if r = ts.cursorRow then putIn ts.cursorCol ts.cols n ts.space (ts.look r) c else ts.look r c
  | .deleteChars n, r, c => if r = ts.cursorRow then takeOut ts.cursorCol ts.cols n ts.space (ts.look r) c else ts.look r c
  | .eraseChars n, r, c => if r = ts.cursorRow then wipe ts.cursorCol ts.cols n ts.space (ts.look r) c else ts.look r c

/-! ## Characters -/

theorem past_eq (hg : ts.Grid) (hin : ts.OnCell) (hn : n < 2 ^ 31) : ts.past n = ts.cursorCol + n := by
  have hcols : ts.cols ≤ 8191 := hg.cols_le
  have hcol := hin.col
  exact u32_of_lt (by omega)

theorem kept_eq (hg : ts.Grid) (hin : ts.OnCell) (hn : ts.cursorCol + n ≤ ts.cols) : ts.kept n = ts.cols - ts.cursorCol - n := by
  have hcols : ts.cols ≤ 8191 := hg.cols_le
  have hcol := hin.col
  rw [kept, sub32_of_le (by omega : ts.cursorCol ≤ ts.cols) (by omega), sub32_of_le (by omega) (by omega)]

theorem shows_moveRight (hg : ts.Grid) (hin : ts.OnCell) (hn : n < 2 ^ 31) :
    ts.Shows (fun r c => if r = ts.cursorRow ∧ ts.cursorCol + n ≤ c then ts.look r (c - n) else ts.look r c) (ts.moveRight n) := by
  have hcol := hin.col
  unfold moveRight
  rw [past_eq hg hin hn]
  by_cases hfits : ts.cursorCol + n < ts.cols
  · rw [if_pos hfits, hg.place_eq hin.row (by omega), hg.place_eq hin.row (by omega), kept_eq hg hin (by omega)]
    have hmoved := shows_movePart ts (a := ts.cursorCol + n) (b := ts.cursorCol) (n := ts.cols - ts.cursorCol - n) hin.row
      (by omega)
    refine hmoved.congr fun r hr c hc => ?_
    by_cases hmem : r = ts.cursorRow ∧ ts.cursorCol + n ≤ c
    · rw [if_pos (by omega), if_pos hmem, hmem.1]
      congr 1
      omega
    · rw [if_neg (by omega), if_neg hmem]
  · rw [if_neg hfits]
    exact (Shows.refl ts).congr fun r hr c hc => (if_neg (by omega)).symm

theorem shows_moveLeft (hg : ts.Grid) (hin : ts.OnCell) (hn : n < 2 ^ 31) :
    ts.Shows (fun r c => if r = ts.cursorRow ∧ ts.cursorCol ≤ c ∧ c + n < ts.cols then ts.look r (c + n) else ts.look r c)
      (ts.moveLeft n) := by
  have hcol := hin.col
  unfold moveLeft
  rw [past_eq hg hin hn]
  by_cases hfits : ts.cursorCol + n < ts.cols
  · rw [if_pos hfits, hg.place_eq hin.row (by omega), hg.place_eq hin.row (by omega), kept_eq hg hin (by omega)]
    have hmoved := shows_movePart ts (a := ts.cursorCol) (b := ts.cursorCol + n) (n := ts.cols - ts.cursorCol - n) hin.row
      (by omega)
    refine hmoved.congr fun r hr c hc => ?_
    by_cases hmem : r = ts.cursorRow ∧ ts.cursorCol ≤ c ∧ c + n < ts.cols
    · rw [if_pos (by omega), if_pos hmem, hmem.1]
      congr 1
      omega
    · rw [if_neg (by omega), if_neg hmem]
  · rw [if_neg hfits]
    exact (Shows.refl ts).congr fun r hr c hc => (if_neg (by omega)).symm

theorem Shows.markRow {f : Nat → Nat → Content} {ts' : Term} (h : ts.Shows f ts') (hg : ts.Grid) (hin : ts.OnCell) :
    ts.Shows f (ts'.markDirty (ts.part ts.cursorRow ts.cursorCol ts.cols)) := by
  refine h.markDirty fun i hi => ?_
  rw [hg.mem_part hin.row (Nat.le_refl _)] at hi
  have hle := Nat.mul_le_mul_right ts.cols hin.row
  rw [Nat.succ_mul] at hle
  omega

theorem shows_insertChars (hg : ts.Grid) (hin : ts.OnCell) (hn : n < 2 ^ 31) :
    ts.Shows (ts.edited (.insertChars n)) (ts.insertChars n) := by
  have hcol := hin.col
  unfold insertChars
  rw [past_eq hg hin hn]
  refine Shows.markRow ?_ hg hin
  refine ((shows_moveRight hg hin hn).clearPart hg hin.row (Nat.min_le_right _ _)).congr fun r hr c hc => ?_
  by_cases hrow : r = ts.cursorRow
  · simp only [edited, putIn, hrow, if_true, true_and]
    by_cases hbefore : c < ts.cursorCol ∨ ts.cols ≤ c
    · rw [if_pos hbefore, if_neg (by omega), if_neg (by omega)]
    · rw [if_neg hbefore]
      by_cases hnew : c < ts.cursorCol + min n (ts.cols - ts.cursorCol)
      · rw [if_pos hnew, if_pos (by omega)]
      · rw [if_neg hnew, if_neg (by omega), if_pos (by omega)]
        congr 1
        omega
  · rw [if_neg (by omega), if_neg (by omega)]
    exact (if_neg hrow).symm

theorem shows_eraseChars (hg : ts.Grid) (hin : ts.OnCell) (hn : n < 2 ^ 31) :
    ts.Shows (ts.edited (.eraseChars n)) (ts.eraseChars n) := by
  have hcol := hin.col
  unfold eraseChars
  rw [past_eq hg hin hn]
  refine ((Shows.refl ts).clearPart hg hin.row (Nat.min_le_right _ _)).congr fun r hr c hc => ?_
  by_cases hrow : r = ts.cursorRow
  · simp only [edited, wipe, hrow, if_true, true_and]
    by_cases hnew : ts.cursorCol ≤ c ∧ c < ts.cursorCol + min n (ts.cols - ts.cursorCol)
    · rw [if_pos hnew, if_pos (by omega)]
    · rw [if_neg hnew, if_neg (by omega)]
  · rw [if_neg (by omega)]
    exact (if_neg hrow).symm

/-- What deleting characters shows: the last `n` columns are cleared, those before the cursor too. -/
def deleted (ts : Term) (n r c : Nat) : Content :=
  if r = ts.cursorRow ∧ ts.cols - n ≤ c ∧ n ≤ ts.cols then ts.space
  else if r = ts.cursorRow ∧ ts.cursorCol ≤ c ∧ c + n < ts.cols then ts.look r (c + n)
  else ts.look r c

theorem shows_deleteChars (hg : ts.Grid) (hin : ts.OnCell) (hn : n < 2 ^ 31) :
    ts.Shows (ts.deleted n) (ts.deleteChars n) := by
  have hcols : ts.cols ≤ 8191 := hg.cols_le
  unfold deleteChars
  refine Shows.markRow ?_ hg hin
  refine ((shows_moveLeft hg hin hn).clearPart hg hin.row (Nat.le_refl _)).congr fun r hr c hc => ?_
  unfold deleted
  by_cases hle : n ≤ ts.cols
  · rw [sub32_of_le hle (by omega)]
    simp only [hc, hle, and_true]
  · have hwrap : ts.cols ≤ sub32 ts.cols n := by
      unfold sub32
      omega
    have hnone : ¬(r = ts.cursorRow ∧ ts.cols - n ≤ c ∧ n ≤ ts.cols) := fun h => hle h.2.2
    rw [if_neg (by omega), if_neg hnone]

/-- Deleting characters does no harm: as many are there, or what it would clear or leave is blank. -/
def DeletesRight (ts : Term) (n : Nat) : Prop :=
  n ≤ ts.cols - ts.cursorCol ∨
    (n ≤ ts.cols ∧ ∀ c, ts.cols - n ≤ c → c < ts.cursorCol → ts.look ts.cursorRow c = ts.space) ∨
    (ts.cols < n ∧ ∀ c, ts.cursorCol ≤ c → c < ts.cols → ts.look ts.cursorRow c = ts.space)

theorem edited_deleteChars (ts : Term) (n : Nat) {c : Nat} (hc : c < ts.cols) : ts.edited (.deleteChars n) ts.cursorRow c =
    if c < ts.cursorCol then ts.look ts.cursorRow c
    else if c + min n (ts.cols - ts.cursorCol) < ts.cols then ts.look ts.cursorRow (c + min n (ts.cols - ts.cursorCol))
    else ts.space := by
  have hcond : (c < ts.cursorCol ∨ ts.cols ≤ c) ↔ c < ts.cursorCol := by omega
  simp only [edited, if_true, takeOut, hcond]

theorem deleted_eq_iff (hin : ts.OnCell) :
    (∀ r < ts.rows, ∀ c < ts.cols, ts.deleted n r c = ts.edited (.deleteChars n) r c) ↔ ts.DeletesRight n := by
  have hcol := hin.col
  constructor
  · intro heq
    by_cases hfits : n ≤ ts.cols - ts.cursorCol
    · exact .inl hfits
    · refine .inr ?_
      by_cases hle : n ≤ ts.cols
      · refine .inl ⟨hle, fun c hlo hhi => ?_⟩
        have hcell := heq _ hin.row c (by omega)
        rw [edited_deleteChars ts n (by omega), if_pos hhi, deleted, if_pos ⟨rfl, hlo, hle⟩] at hcell
        exact hcell.symm
      · refine .inr ⟨by omega, fun c hlo hhi => ?_⟩
        have hcell := heq _ hin.row c hhi
        rw [edited_deleteChars ts n hhi, if_neg (by omega), if_neg (by omega), deleted, if_neg (by omega),
          if_neg (by omega)] at hcell
        exact hcell
  · intro hright r hr c hc
    by_cases hrow : r = ts.cursorRow
    · subst hrow
      rw [edited_deleteChars ts n hc, deleted]
      by_cases hbefore : c < ts.cursorCol
      · rw [if_pos hbefore]
        split
        · next hclear =>
          obtain hfits | ⟨_, hblank⟩ | ⟨hlt, _⟩ := hright
          · omega
          · exact (hblank c hclear.2.1 hbefore).symm
          · omega
        · rw [if_neg (by omega)]
      · rw [if_neg hbefore]
        by_cases hkept : c + n < ts.cols
        · have hmin : min n (ts.cols - ts.cursorCol) = n := by omega
          rw [if_neg (by omega), if_pos (by omega), hmin, if_pos hkept]
        · rw [if_neg (by omega : ¬c + min n (ts.cols - ts.cursorCol) < ts.cols)]
          split
          · rfl
          · obtain hfits | ⟨hle, _⟩ | ⟨_, hblank⟩ := hright
            · omega
            · omega
            · rw [if_neg (by omega)]
              exact hblank c (by omega) hc
    · rw [deleted, if_neg (by omega), if_neg (by omega)]
      exact (if_neg hrow).symm

/-! ## All commands -/

/-- What `handle_csi` does for a command. -/
def perform (ts : Term) : Edit → Term
  | .eraseDisplay mode => ts.eraseDisplay mode
  | .eraseLine mode => ts.eraseLine mode
  | .insertLines n => ts.insertLines n
  | .deleteLines n => ts.deleteLines n
  | .insertChars n => ts.insertChars n
  | .deleteChars n => ts.deleteChars n
  | .scrollUp n => ts.scrollUp ts.scrollTop ts.scrollBottom n
  | .scrollDown n => ts.scrollDown ts.scrollTop ts.scrollBottom n
  | .eraseChars n => ts.eraseChars n

theorem shows_eraseDisplay (hg : ts.Grid) (hin : ts.OnCell) (mode : Int) :
    ts.Shows (ts.edited (.eraseDisplay mode)) (ts.eraseDisplay mode) := by
  have hrows : ts.rows ≤ 4095 := hg.rows_le
  have hrow := hin.row
  have hcol := hin.col
  unfold eraseDisplay
  split
  · next hmode =>
    rw [u32_of_lt (by omega : ts.cursorRow + 1 < 2 ^ 32)]
    refine (((Shows.refl ts).clearPart hg hrow (Nat.le_refl _)).clearLines hg (Nat.le_refl _)).congr fun r hr c hc => ?_
    subst hmode
    by_cases hbelow : ts.cursorRow < r
    · rw [if_pos ⟨hbelow, hr⟩, edited, if_pos (.inl ⟨rfl, .inr hbelow⟩)]
    · rw [if_neg (by omega), edited]
      simp [hbelow, hc]
  · split
    · next hmode =>
      refine (((Shows.refl ts).clearLines hg (Nat.le_of_lt hrow)).clearPart hg hrow (Nat.min_le_right _ _)).congr
        fun r hr c hc => ?_
      subst hmode
      by_cases hpart : r = ts.cursorRow ∧ c ≤ ts.cursorCol
      · rw [if_pos (by omega), edited, if_pos (.inr (.inl ⟨rfl, .inr hpart⟩))]
      · rw [if_neg (by omega), edited]
        simp [hpart]
    · split
      · next hmode =>
        refine (((Shows.refl ts).clearLines hg (Nat.le_refl _)).setCursor 0 0).congr fun r hr c hc => ?_
        rw [if_pos ⟨Nat.zero_le r, hr⟩, edited, if_pos (.inr (.inr hmode))]
      · next h0 h1 h2 =>
        refine (Shows.refl ts).congr fun r hr c hc => ?_
        simp [edited, h0, h1, h2]

theorem shows_eraseLine (hg : ts.Grid) (hin : ts.OnCell) (mode : Int) :
    ts.Shows (ts.edited (.eraseLine mode)) (ts.eraseLine mode) := by
  have hrow := hin.row
  unfold eraseLine
  split
  · next hmode =>
    refine ((Shows.refl ts).clearPart hg hrow (Nat.le_refl _)).congr fun r hr c hc => ?_
    simp [edited, hmode, hc]
  · split
    · next hmode =>
      refine ((Shows.refl ts).clearPart hg hrow (Nat.min_le_right _ _)).congr fun r hr c hc => ?_
      simp [edited, hmode, hc, Nat.lt_succ_iff]
    · split
      · next hmode =>
        refine ((Shows.refl ts).clearPart hg hrow (Nat.le_refl _)).congr fun r hr c hc => ?_
        simp [edited, hmode, hc]
      · next h0 h1 h2 =>
        refine (Shows.refl ts).congr fun r hr c hc => ?_
        simp [edited, h0, h1, h2]

/-- Below the region there is nothing to shift. -/
theorem shows_insertLines (hg : ts.Grid) (n : Nat) : ts.Shows (ts.edited (.insertLines n)) (ts.insertLines n) := by
  unfold insertLines
  split
  · exact shows_scrollDown hg hg.bottom_lt _ _
  · refine (Shows.refl ts).congr fun r hr c hc => ?_
    rw [edited, putIn, if_pos (by omega)]

theorem shows_deleteLines (hg : ts.Grid) (n : Nat) : ts.Shows (ts.edited (.deleteLines n)) (ts.deleteLines n) := by
  unfold deleteLines
  split
  · exact shows_scrollUp hg hg.bottom_lt _ _
  · refine (Shows.refl ts).congr fun r hr c hc => ?_
    rw [edited, takeOut, if_pos (by omega)]

/-- Only deleting characters can go wrong. -/
def EditsRight (ts : Term) : Edit → Prop
  | .deleteChars n => ts.DeletesRight n
  | _ => True

theorem shows_perform_iff (hg : ts.Grid) (hin : ts.OnCell) {e : Edit} (hfits : e.Fits) :
    ts.Shows (ts.edited e) (ts.perform e) ↔ ts.EditsRight e := by
  cases e with
  | eraseDisplay mode => exact iff_of_true (shows_eraseDisplay hg hin mode) trivial
  | eraseLine mode => exact iff_of_true (shows_eraseLine hg hin mode) trivial
  | insertLines n => exact iff_of_true (shows_insertLines hg n) trivial
  | deleteLines n => exact iff_of_true (shows_deleteLines hg n) trivial
  | insertChars n => exact iff_of_true (shows_insertChars hg hin hfits) trivial
  | scrollUp n => exact iff_of_true (shows_scrollUp hg hg.bottom_lt _ n) trivial
  | scrollDown n => exact iff_of_true (shows_scrollDown hg hg.bottom_lt _ n) trivial
  | eraseChars n => exact iff_of_true (shows_eraseChars hg hin hfits) trivial
  | deleteChars n =>
    have hshows := shows_deleteChars hg hin hfits
    refine Iff.trans ⟨fun h r hr c hc => hshows.unique h hr hc, fun h => hshows.congr h⟩ (deleted_eq_iff hin)

/-! ## Bytes -/

variable {atoi : Atoi} {theme : Theme} {e : Edit} {c : UInt8}

/-- The command that a control sequence stands for. -/
def editOf (atoi : Atoi) (cmd : Char) (params : List (List UInt8)) : Option Edit :=
  match cmd with
  | 'J' => some (.eraseDisplay (param atoi params 0 0).toInt)
  | 'K' => some (.eraseLine (param atoi params 0 0).toInt)
  | 'L' => some (.insertLines (count atoi params))
  | 'M' => some (.deleteLines (count atoi params))
  | '@' => some (.insertChars (count atoi params))
  | 'P' => some (.deleteChars (count atoi params))
  | 'S' => some (.scrollUp (count atoi params))
  | 'T' => some (.scrollDown (count atoi params))
  | 'X' => some (.eraseChars (count atoi params))
  | _ => none

theorem count_lt (atoi : Atoi) (params : List (List UInt8)) : count atoi params < 2 ^ 31 := by
  unfold count
  dsimp only
  split
  · next hpos =>
    have hmsb := BitVec.toInt_pos_iff.mp (Int.le_of_lt hpos)
    omega
  · decide

theorem fits_of_editOf {cmd : Char} {params : List (List UInt8)} (h : editOf atoi cmd params = some e) : e.Fits := by
  have hlt := count_lt atoi params
  unfold editOf at h
  split at h <;> simp only [Option.some.injEq, reduceCtorEq] at h <;> subst h <;> first | exact trivial | exact hlt

theorem command_of_editOf {cmd : Char} {params : List (List UInt8)} (h : editOf atoi cmd params = some e) :
    command atoi theme ts cmd params = ts.perform e := by
  unfold editOf at h
  split at h <;> simp only [Option.some.injEq, reduceCtorEq] at h <;> subst h <;> rfl

/-- The command that the byte completes, if it completes one. -/
def completes (atoi : Atoi) (ts : Term) (c : UInt8) : Option Edit :=
  if ts.escState = .inCsi ∧ isFinal c then
    match csi (ts.note c).escBuf with
    | none => none
    | some s => if s.decPrivate then none else editOf atoi s.cmd (tokens 16 s.content)
  else none

theorem note_eq (ts : Term) (c : UInt8) : ∃ buf, ts.note c = { ts with escBuf := buf } := by
  unfold note
  split
  · exact ⟨_, rfl⟩
  · exact ⟨_, rfl⟩

theorem process_of_completes (h : completes atoi ts c = some e) :
    ts.process atoi theme c = { (ts.note c).perform e with escState := .normal } ∧ e.Fits := by
  unfold completes at h
  split at h
  · next hfinal =>
    split at h
    · cases h
    · next s hcsi =>
      split at h
      · cases h
      · next hplain =>
        refine ⟨?_, fits_of_editOf h⟩
        rw [process, hfinal.1]
        simp only [hfinal.2, if_true, handleCsi, hcsi, hplain, command_of_editOf h, Bool.false_eq_true, if_false]
  · cases h

/-- The buffer of control sequences is not seen. -/
theorem shows_escBuf_iff (ts ts' : Term) (buf : List UInt8) (e : Edit) (state : EscState) :
    ts.Shows (ts.edited e) { ts' with escState := state } ↔
      ({ ts with escBuf := buf } : Term).Shows (({ ts with escBuf := buf } : Term).edited e) ts' := by
  have hedited : ({ ts with escBuf := buf } : Term).edited e = ts.edited e := by cases e <;> rfl
  rw [hedited]
  exact ⟨fun ⟨h1, h2, h3, h4, h5, h6⟩ => ⟨h1, h2, h3, h4, h5, h6⟩, fun ⟨h1, h2, h3, h4, h5, h6⟩ => ⟨h1, h2, h3, h4, h5, h6⟩⟩

/-- In every state that a terminal with its cursor on a cell can be in, a byte that completes a
command makes it show what the command is for, if and only if deleting characters does no harm. -/
theorem process_edits_iff (hr : Reachable atoi ts) (hin : ts.OnCell) (hc : completes atoi ts c = some e) :
    ts.Shows (ts.edited e) (ts.process atoi theme c) ↔ ts.EditsRight e := by
  obtain ⟨hprocess, hfits⟩ : ts.process atoi theme c = { (ts.note c).perform e with escState := .normal } ∧ e.Fits :=
    process_of_completes hc
  obtain ⟨buf, hnote⟩ := note_eq ts c
  have hgrid : ({ ts with escBuf := buf } : Term).Grid := hr.grid.congr rfl
  have hiff := shows_perform_iff hgrid ⟨hin.col, hin.row⟩ hfits
  rw [hprocess, hnote, shows_escBuf_iff ts _ buf, hiff]
  cases e <;> rfl

/-! ## Runs on bytes -/

def feed (atoi : Atoi) (theme : Theme) (ts : Term) (bytes : List UInt8) : Term := bytes.foldl (process atoi theme) ts

theorem reachable_feed (hr : Reachable atoi ts) (bytes : List UInt8) : Reachable atoi (ts.feed atoi theme bytes) := by
  induction bytes generalizing ts with
  | nil => exact hr
  | cons c bytes ih => exact ih (hr.step (.process theme c))

/-- The value of decimal digits. -/
def decimal (digits : List UInt8) : BitVec 32 := digits.foldl (fun v b => 10 * v + .ofNat 32 (b.toNat - 48)) 0

/-- A terminal with one row of four columns. -/
def small : Term := termInit ⟨7, 0⟩ 4 1 (fun _ => clearCell 0 0) (fun _ => clearCell 0 0)

theorem reachable_small : Reachable decimal small := .start ⟨_, 4, 1, _, _, by constructor <;> decide, rfl⟩

/-- `abcd`, the cursor goes to the third column, and a command without its last byte follows. -/
def typed (params : List UInt8) : Term :=
  small.feed decimal ⟨7, 0⟩ ([97, 98, 99, 100, 27, 91, 51, 71] ++ [27, 91] ++ params)

theorem process_edits_iff_one : (typed [49]).Shows ((typed [49]).edited (.deleteChars 1)) ((typed [49]).process decimal ⟨7, 0⟩ 80) ↔
    (typed [49]).DeletesRight 1 :=
  process_edits_iff (reachable_feed reachable_small _) (by constructor <;> decide) rfl

/-- Three characters are deleted where two are left, and the second one of the row is lost. -/
theorem deleteChars_clears_before : Reachable decimal (typed [51]) ∧ (typed [51]).OnCell ∧
    completes decimal (typed [51]) 80 = some (.deleteChars 3) ∧
    ¬(typed [51]).Shows ((typed [51]).edited (.deleteChars 3)) ((typed [51]).process decimal ⟨7, 0⟩ 80) := by
  refine ⟨reachable_feed reachable_small _, by constructor <;> decide, rfl, fun h => ?_⟩
  have hkept : ((typed [51]).edited (.deleteChars 3) 0 1).ch = 98 := by decide
  have hlost : (((typed [51]).process decimal ⟨7, 0⟩ 80).look 0 1).ch = 32 := by decide
  rw [h.cells 0 (by decide) 1 (by decide), hkept] at hlost
  exact absurd hlost (by decide)

end Term

end Serotonin.Wm
