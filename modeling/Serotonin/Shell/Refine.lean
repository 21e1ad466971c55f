import Serotonin.Lib.Run
import Serotonin.Shell.Line

/-! `read_line` is the abstract editor. The buffer starts with the text of the line, whatever
stands behind it; the cursor is the length of the part before it. -/

namespace Serotonin.Shell

open List
open Option (bind_some map_some)

variable {h : History} {size : Nat} {e : Editor} {l : Line} {m s x y z bs rest : List UInt8} {a n : Int}

/-! ## Arrays in parts -/

theorem slice_mid (hm : m = x ++ y ++ z) (ha : a = x.length) (hn : n = y.length) : slice m a n = some y := by
  subst hm ha hn
  have hbound : (0 : Int) ≤ x.length ∧ (0 : Int) ≤ y.length ∧ (x.length : Int) + y.length ≤ (x ++ y ++ z).length := by
    simp only [length_append]
    omega
  rw [slice, if_pos hbound]
  simp

theorem store_mid (hm : m = x ++ y ++ z) (ha : a = x.length) (hlen : bs.length = y.length) :
    store m a bs = some (x ++ bs ++ z) := by
  subst hm ha
  have hbound : (0 : Int) ≤ x.length ∧ (x.length : Int) + bs.length ≤ (x ++ y ++ z).length := by
    simp only [length_append]
    omega
  have hdrop : (x ++ (y ++ z)).drop (x.length + y.length) = z := by
    rw [← append_assoc, ← length_append, drop_left]
  rw [store, if_pos hbound]
  simp [hlen, hdrop]

theorem strlen_str (hs : 0 ∉ s) : strlen (s ++ 0 :: rest) = some s.length := by
  unfold strlen
  induction s with
  | nil => rfl
  | cons c s ih =>
    obtain ⟨hc, hs⟩ := not_or.mp (mt mem_cons.mpr hs)
    have hne : (c == 0) = false := by simpa using Ne.symm hc
    simp [List.findIdx?_cons, hne, ih hs]

/-- As many bytes as are moved down are left behind. -/
theorem memmove_down (hm : m = x ++ (y ++ z) ++ rest) :
    ∃ rest', memmove m x.length (x ++ y).length z.length = some (x ++ z ++ rest') ∧ rest'.length = y.length + rest.length := by
  have hsrc : slice m (x ++ y).length z.length = some z := by
    rw [hm, ← append_assoc x]
    exact slice_mid rfl rfl rfl
  have hparts : m = x ++ (y ++ z).take z.length ++ ((y ++ z).drop z.length ++ rest) := by
    conv_lhs => rw [hm, ← take_append_drop z.length (y ++ z)]
    simp only [append_assoc]
  have hlen : z.length = ((y ++ z).take z.length).length := by
    rw [length_take, length_append]
    omega
  refine ⟨(y ++ z).drop z.length ++ rest, ?_, ?_⟩
  · rw [memmove, hsrc, bind_some]
    exact store_mid hparts rfl hlen
  · rw [length_append, length_drop, length_append]
    omega

/-- A byte is put in where there is room behind. -/
theorem memmove_up (hm : m = x ++ y ++ z) (hz : z ≠ []) (c : UInt8) :
    ∃ rest, (memmove m (x.length + 1) x.length y.length).bind (store · x.length [c]) = some (x ++ c :: y ++ rest) ∧
      rest.length + 1 = z.length := by
  obtain ⟨w, z, rfl⟩ := exists_cons_of_ne_nil hz
  obtain ⟨v, mid, hmid⟩ := exists_cons_of_ne_nil (append_ne_nil_of_right_ne_nil y (cons_ne_nil w []))
  have hlen : y.length = mid.length := by
    have hlens := congrArg List.length hmid
    rw [length_append, length_singleton, length_cons] at hlens
    omega
  have hsrc : slice m x.length y.length = some y := slice_mid hm rfl rfl
  have hdst : m = (x ++ [v]) ++ mid ++ z := by
    have hsplit : y ++ w :: z = v :: mid ++ z := by rw [← hmid, append_assoc, singleton_append]
    rw [hm, append_assoc x, hsplit]
    simp
  have hmove : memmove m (x.length + 1) x.length y.length = some ((x ++ [v]) ++ y ++ z) := by
    rw [memmove, hsrc, bind_some]
    exact store_mid hdst (by simp) hlen
  refine ⟨z, ?_, rfl⟩
  have hput : store (x ++ [v] ++ (y ++ z)) x.length [c] = some (x ++ [c] ++ (y ++ z)) := store_mid rfl rfl rfl
  rw [hmove, bind_some, append_assoc (x ++ [v]), hput]
  simp

/-- A string is written, with its NUL. -/
theorem put_string (hs : s.length < m.length) :
    ∃ rest, ((store m 0 s).bind fun m => store m s.length [0]) = some (s ++ 0 :: rest) ∧ (s ++ 0 :: rest).length = m.length := by
  obtain ⟨y, rest, hrest⟩ : ∃ y rest, m.drop s.length = y :: rest :=
    exists_cons_of_ne_nil (ne_nil_of_length_pos (by rw [length_drop]; omega))
  have hm : m = [] ++ m.take s.length ++ y :: rest := by rw [nil_append, ← hrest, take_append_drop]
  have hput : store m 0 s = some ([] ++ s ++ y :: rest) := store_mid hm rfl (by rw [length_take]; omega)
  have hend : store (s ++ y :: rest) s.length [0] = some (s ++ [0] ++ rest) :=
    store_mid (y := [y]) (by rw [append_assoc]; rfl) rfl rfl
  refine ⟨rest, ?_, ?_⟩
  · rw [hput, bind_some, nil_append, hend, append_assoc]
    rfl
  · have hlen := congrArg List.length hm
    simp only [nil_append, length_append, length_take, length_cons] at hlen ⊢
    omega

/-! ## The relation -/

/-- The string that an array holds. -/
def Holds (m s : List UInt8) : Prop := 0 ∉ s ∧ ∃ rest, m = s ++ 0 :: rest

/-- The place in the history. -/
def Browses (h : History) (size : Nat) (histBrowse : Int) (savedInput : List UInt8) : Option Browse → Prop
  | none => histBrowse = -1
  | some b => histBrowse = b.entry ∧ b.entry < h.count ∧ Holds savedInput b.draft ∧ b.draft.length < size

/-- The variables of `read_line` stand for a line. -/
structure Shows (h : History) (size : Nat) (e : Editor) (l : Line) : Prop where
  room : e.buf.length = size
  text : ∃ rest, e.buf = l.text ++ rest
  len : e.len = l.text.length
  cursor : e.cursor = l.before.length
  fits : l.text.length < size
  plain : 0 ∉ l.text
  saved : e.savedInput.length = commandMax
  browse : Browses h size e.histBrowse e.savedInput l.browse

theorem Shows.le (hs : Shows h size e l) : 0 ≤ e.cursor ∧ e.cursor ≤ e.len ∧ e.len < size := by
  have hfits := hs.fits
  rw [hs.cursor, hs.len]
  rw [Line.text, length_append] at *
  omega

theorem Shows.take (hs : Shows h size e l) : e.buf.take e.len.toNat = l.text := by
  obtain ⟨rest, hbuf⟩ := hs.text
  rw [hs.len, hbuf]
  simp

/-! ## A line from the history -/

theorem entry_holds (entry : Entry) : Holds entry.bytes entry.str := by
  have hsplit : entry.str ++ entry.bytes.dropWhile (· != 0) = entry.bytes := takeWhile_append_dropWhile
  refine ⟨fun hmem => ?_, ?_⟩
  · have hne := mem_takeWhile_imp hmem
    simp at hne
  · cases hrest : entry.bytes.dropWhile (· != 0) with
    | nil =>
      have hall := dropWhile_eq_nil_iff.mp hrest 0 entry.ends
      simp at hall
    | cons c rest =>
      have hc := head_dropWhile_not (· != 0) (l := entry.bytes) (by simp [hrest])
      simp only [hrest, head_cons, bne_eq_false_iff_eq] at hc
      exact ⟨rest, by rw [← hc, ← hrest, hsplit]⟩

theorem load_spec (he : e.buf.length = size) (hpos : 0 < size) (hsrc : Holds m s) :
    ∃ e' rest, e.load m size = some e' ∧ e'.buf = s.take (size - 1) ++ rest ∧ e'.buf.length = size ∧
      e'.len = (s.take (size - 1)).length ∧ e'.cursor = e'.len ∧ e'.histBrowse = e.histBrowse ∧
      e'.savedInput = e.savedInput := by
  obtain ⟨hplain, tail, rfl⟩ := hsrc
  have hlong : (s.take (size - 1)).length < size := by
    rw [length_take]
    omega
  have hcount : (if (size : Int) ≤ s.length then (size : Int) - 1 else s.length) = (s.take (size - 1)).length := by
    rw [length_take]
    split <;> omega
  have hcut : s ++ 0 :: tail = [] ++ s.take (size - 1) ++ (s.drop (size - 1) ++ 0 :: tail) := by
    rw [nil_append, ← append_assoc, take_append_drop]
  have hplain' : 0 ∉ s.take (size - 1) := fun hmem => hplain (mem_of_mem_take hmem)
  generalize s.take (size - 1) = t at hlong hcount hcut hplain' ⊢
  have hread : slice (s ++ 0 :: tail) 0 t.length = some t := slice_mid hcut rfl rfl
  obtain ⟨rest, hput, hlen⟩ := put_string (s := t) (he ▸ hlong)
  have hcopy : safeCopy e.buf (s ++ 0 :: tail) size = some (t ++ 0 :: rest) := by
    simp only [safeCopy, strlen_str hplain, memcpy, bind, bind_some, hcount, hread]
    exact hput
  have hshown : slice (t ++ 0 :: rest) 0 t.length = some t := slice_mid (x := []) rfl rfl rfl
  refine ⟨{ e with buf := t ++ 0 :: rest, len := t.length, cursor := t.length, out := e.out ++ t }, 0 :: rest, ?_, rfl, ?_,
    rfl, rfl, rfl, rfl⟩
  · simp only [Editor.load, hcopy, bind, bind_some, strlen_str hplain', Editor.echo, hshown, map_some]
    rfl
  · exact hlen.trans he

/-- The line that is loaded is shown, with the place that is noted. -/
theorem load_shows (browse : Option Browse) (he : e.buf.length = size) (hpos : 0 < size) (hsrc : Holds m s)
    (hsaved : e.savedInput.length = commandMax) (hbrowse : Browses h size e.histBrowse e.savedInput browse) :
    ∃ e', e.load m size = some e' ∧ Shows h size e' (.show (s.take (size - 1)) browse) := by
  obtain ⟨e', rest, hload, hbuf, hroom, hlen, hcursor, hhist, hsaved'⟩ := load_spec he hpos hsrc
  have hplain : 0 ∉ s.take (size - 1) := fun hmem => hsrc.1 (mem_of_mem_take hmem)
  have hfits : (s.take (size - 1)).length < size := by
    rw [length_take]
    omega
  have htext : (Line.show (s.take (size - 1)) browse).text = s.take (size - 1) := append_nil _
  refine ⟨e', hload, hroom, ⟨rest, by rw [htext, hbuf]⟩, by rw [htext, hlen], hcursor.trans hlen, by rwa [htext],
    by rwa [htext], by rw [hsaved', hsaved], ?_⟩
  rw [hhist, hsaved']
  exact hbrowse

theorem recall_shows {i : Nat} {draft : List UInt8} (he : e.buf.length = size) (hpos : 0 < size)
    (hsaved : e.savedInput.length = commandMax) (hbrowse : Browses h size e.histBrowse e.savedInput (some ⟨i, draft⟩)) :
    ∃ e' line, e.recall h size = some e' ∧ h.lines[i]? = some line ∧
      Shows h size e' (.show (line.take (size - 1)) (some ⟨i, draft⟩)) := by
  obtain ⟨entry, hget, hline⟩ := historyGet_eq hbrowse.2.1
  obtain ⟨e', hload, hshows⟩ := load_shows (e := e.clearLine) _ he hpos (entry_holds entry) hsaved hbrowse
  refine ⟨e', entry.str, ?_, hline, hshows⟩
  simp only [Editor.recall, hbrowse.1, hget, bind, bind_some, hload]

/-- The first step back notes the line that is there. -/
theorem Shows.up_first (hs : Shows h size e l) (hsize : size ≤ commandMax) (hb : l.browse = none) (hpos : 0 < h.count) :
    ∃ e' line, e.up h size = some e' ∧ h.lines.getLast? = some line ∧
      Shows h size e' (.show (line.take (size - 1)) (some ⟨h.count - 1, l.text⟩)) := by
  have hfits := hs.fits
  have hbrowse : e.histBrowse = -1 := by
    have hplace := hs.browse
    rwa [hb] at hplace
  obtain ⟨rest, htext⟩ := hs.text
  have hread : slice e.buf 0 e.len = some l.text := slice_mid (x := []) htext rfl hs.len
  have hroom : l.text.length < e.savedInput.length := by
    rw [hs.saved]
    omega
  obtain ⟨rest', hput, hlen⟩ := put_string hroom
  have hlast : h.count - 1 < h.count := by omega
  let e₁ : Editor := { e with savedInput := l.text ++ 0 :: rest', histBrowse := h.count - 1 }
  have hplace : Browses h size e₁.histBrowse e₁.savedInput (some ⟨h.count - 1, l.text⟩) :=
    ⟨(Int.ofNat_sub hpos).symm, hlast, ⟨hs.plain, rest', rfl⟩, hfits⟩
  obtain ⟨e', line, hrecall, hline, hshows⟩ :=
    recall_shows (e := e₁) hs.room (by omega) (hlen.trans hs.saved) hplace
  rw [← hs.len] at hput
  obtain ⟨saved, hput, hend⟩ := Option.bind_eq_some_iff.mp hput
  refine ⟨e', line, ?_, by rw [List.getLast?_eq_getElem?, History.length_lines, hline], hshows⟩
  rw [Editor.up, if_neg (by omega), if_pos hbrowse]
  simp only [memcpy, hread, bind, bind_some, hput, hend]
  exact hrecall

theorem Shows.up (hs : Shows h size e l) (hsize : size ≤ commandMax) :
    ∃ e', e.up h size = some e' ∧ Shows h size e' (l.press (size - 1) h.lines .up) := by
  have hbrowse := hs.browse
  cases hb : l.browse with
  | none =>
    by_cases hnone : h.count = 0
    · have hnil : h.lines = [] := eq_nil_of_length_eq_zero (by rw [History.length_lines, hnone])
      have hpress : l.press (size - 1) h.lines .up = l := by simp [Line.press, hb, hnil]
      exact ⟨e, by rw [Editor.up, if_pos hnone], hpress.symm ▸ hs⟩
    · obtain ⟨e', line, hup, hlast, hshows⟩ := hs.up_first hsize hb (by omega)
      refine ⟨e', hup, ?_⟩
      simpa only [Line.press, hb, hlast, History.length_lines] using hshows
  | some b =>
    rw [hb] at hbrowse
    obtain ⟨i, draft⟩ := b
    obtain ⟨hhist, hi, hdraft, hshort⟩ := hbrowse
    dsimp only at hhist hi hshort
    rw [Editor.up, if_neg (by omega), if_neg (by omega)]
    cases i with
    | zero =>
      have hpress : l.press (size - 1) h.lines .up = l := by simp [Line.press, hb]
      exact ⟨e, by rw [if_neg (by omega)], hpress.symm ▸ hs⟩
    | succ i =>
      let e₁ : Editor := { e with histBrowse := e.histBrowse - 1 }
      have hplace : Browses h size e₁.histBrowse e₁.savedInput (some ⟨i, draft⟩) :=
        ⟨by simp only [e₁]; omega, by dsimp only; omega, hdraft, hshort⟩
      obtain ⟨e', line, hrecall, hline, hshows⟩ := recall_shows (e := e₁) hs.room (by omega) hs.saved hplace
      refine ⟨e', by rw [if_pos (by omega)]; exact hrecall, ?_⟩
      simpa only [Line.press, hb, getD_eq_getElem?_getD, hline, Option.getD_some] using hshows

theorem Shows.down (hs : Shows h size e l) :
    ∃ e', e.down h size = some e' ∧ Shows h size e' (l.press (size - 1) h.lines .down) := by
  have hbrowse := hs.browse
  cases hb : l.browse with
  | none =>
    rw [hb] at hbrowse
    have hpress : l.press (size - 1) h.lines .down = l := by simp [Line.press, hb]
    exact ⟨e, if_pos hbrowse, hpress.symm ▸ hs⟩
  | some b =>
    rw [hb] at hbrowse
    obtain ⟨i, draft⟩ := b
    obtain ⟨hhist, hi, hdraft, hshort⟩ := hbrowse
    dsimp only at hhist hi hdraft hshort
    rw [Editor.down, if_neg (by omega)]
    by_cases hnewest : h.count ≤ i + 1
    · obtain ⟨e', hload, hshows⟩ := load_shows (h := h) (e := { e.clearLine with histBrowse := -1 }) none hs.room
        (by omega) hdraft hs.saved rfl
      rw [take_of_length_le (by omega)] at hshows
      have hend : h.lines[i + 1]? = none := List.getElem?_eq_none (by rwa [History.length_lines])
      refine ⟨e', by rw [if_pos (by omega)]; exact hload, ?_⟩
      simpa only [Line.press, hb, hend] using hshows
    · let e₁ : Editor := { e with histBrowse := e.histBrowse + 1 }
      have hplace : Browses h size e₁.histBrowse e₁.savedInput (some ⟨i + 1, draft⟩) :=
        ⟨by simp only [e₁]; omega, by dsimp only; omega, hdraft, hshort⟩
      obtain ⟨e', line, hrecall, hline, hshows⟩ := recall_shows (e := e₁) hs.room (by omega) hs.saved hplace
      refine ⟨e', by rw [if_neg (by omega)]; exact hrecall, ?_⟩
      simpa only [Line.press, hb, hline] using hshows

/-! ## Edits -/

/-- The place in the history stays. -/
theorem Shows.edit {e' : Editor} {before after : List UInt8} (z : List UInt8) (hs : Shows h size e l) (hroom : e'.buf.length = size)
    (hbuf : e'.buf = before ++ after ++ z) (hlen : e'.len = (before ++ after).length) (hcursor : e'.cursor = before.length)
    (hfits : (before ++ after).length < size) (hplain : 0 ∉ before ++ after) (hhist : e'.histBrowse = e.histBrowse)
    (hsaved : e'.savedInput = e.savedInput) : Shows h size e' { l with before, after } := by
  refine ⟨hroom, ⟨z, hbuf⟩, hlen, hcursor, hfits, hplain, by rw [hsaved, hs.saved], ?_⟩
  rw [hhist, hsaved]
  exact hs.browse

theorem Shows.killLine (hs : Shows h size e l) : Shows h size e.killLine (l.press (size - 1) h.lines .killLine) := by
  have hpos := hs.fits
  exact hs.edit e.buf hs.room rfl rfl rfl (Nat.zero_lt_of_lt hpos) not_mem_nil rfl rfl

/-- The cursor moves over the text. -/
theorem Shows.move {e' : Editor} {before after : List UInt8} (hs : Shows h size e l) (htext : l.text = before ++ after)
    (hbuf : e'.buf = e.buf) (hlen : e'.len = e.len) (hcursor : e'.cursor = before.length) (hhist : e'.histBrowse = e.histBrowse)
    (hsaved : e'.savedInput = e.savedInput) : Shows h size e' { l with before, after } := by
  obtain ⟨rest, hparts⟩ := hs.text
  refine hs.edit rest (by rw [hbuf, hs.room]) ?_ ?_ hcursor ?_ ?_ hhist hsaved
  · rw [hbuf, hparts, htext]
  · rw [hlen, hs.len, htext]
  · exact htext ▸ hs.fits
  · exact htext ▸ hs.plain

theorem Shows.left (hs : Shows h size e l) : Shows h size e.left (l.press (size - 1) h.lines .left) := by
  have hcursor := hs.cursor
  unfold Editor.left
  obtain hnil | ⟨before, c, hbefore⟩ := eq_nil_or_concat l.before
  · have hpress : l.press (size - 1) h.lines .left = l := by simp [Line.press, hnil]
    rw [hnil] at hcursor
    rw [if_neg (by simp [hcursor]), hpress]
    exact hs
  · have hpress : l.press (size - 1) h.lines .left = { l with before, after := c :: l.after } := by
      simp [Line.press, hbefore]
    rw [hbefore, length_concat] at hcursor
    rw [if_pos (by omega), hpress]
    refine hs.move ?_ rfl rfl ?_ rfl rfl
    · simp [Line.text, hbefore]
    · show e.cursor - 1 = before.length
      omega

theorem Shows.right (hs : Shows h size e l) : Shows h size e.right (l.press (size - 1) h.lines .right) := by
  have hcursor := hs.cursor
  have hlen := hs.len
  rw [Line.text, length_append] at hlen
  unfold Editor.right
  cases hafter : l.after with
  | nil =>
    have hpress : l.press (size - 1) h.lines .right = l := by simp [Line.press, hafter]
    rw [hafter, length_nil] at hlen
    rw [if_neg (by omega), hpress]
    exact hs
  | cons c after =>
    have hpress : l.press (size - 1) h.lines .right = { l with before := l.before ++ [c], after } := by
      simp [Line.press, hafter]
    rw [hafter, length_cons] at hlen
    rw [if_pos (by omega), hpress]
    refine hs.move ?_ rfl rfl ?_ rfl rfl
    · simp [Line.text, hafter]
    · rw [length_append, length_singleton]
      show e.cursor + 1 = _
      omega

/-- The text behind the cursor is moved down over the last part before it. -/
theorem Shows.remove {b r : List UInt8} (hs : Shows h size e l) (hbefore : l.before = b ++ r) :
    ∃ rest, memmove e.buf b.length e.cursor (e.len - e.cursor) = some (b ++ l.after ++ rest) ∧
      (b ++ l.after ++ rest).length = size := by
  obtain ⟨rest, hbuf⟩ := hs.text
  have hparts : e.buf = b ++ (r ++ l.after) ++ rest := by
    rw [hbuf, Line.text, hbefore, append_assoc b]
  obtain ⟨rest', hmove, hlen⟩ := memmove_down hparts
  have hcursor : e.cursor = ((b ++ r).length : Int) := by rw [hs.cursor, hbefore]
  have hcount : e.len - e.cursor = (l.after.length : Int) := by
    rw [hs.len, hs.cursor, Line.text, length_append]
    omega
  refine ⟨rest', ?_, ?_⟩
  · rw [hcount, hcursor]
    exact hmove
  · have hroom := congrArg List.length hparts
    rw [hs.room] at hroom
    simp only [length_append] at hroom hlen ⊢
    omega

/-- What is left of the text is shorter, and plain. -/
theorem Shows.shorter {b r : List UInt8} (hs : Shows h size e l) (hbefore : l.before = b ++ r) :
    e.len = (b ++ l.after).length + r.length ∧ e.cursor = b.length + r.length ∧ (b ++ l.after).length < size ∧
      0 ∉ b ++ l.after := by
  have hfits := hs.fits
  have hplain := hs.plain
  have hlen := hs.len
  have hcursor := hs.cursor
  rw [Line.text, hbefore] at hfits hplain hlen
  rw [hbefore] at hcursor
  simp only [length_append, mem_append] at *
  refine ⟨by omega, by omega, by omega, fun hmem => hplain ?_⟩
  exact hmem.imp .inl id

theorem Shows.backspace (hs : Shows h size e l) :
    ∃ e', e.backspace = some e' ∧ Shows h size e' (l.press (size - 1) h.lines .backspace) := by
  have hcursor := hs.cursor
  unfold Editor.backspace
  obtain hnil | ⟨b, c, hbefore⟩ := eq_nil_or_concat l.before
  · have hpress : l.press (size - 1) h.lines .backspace = l := by
      cases l
      simp_all [Line.press]
    rw [hnil] at hcursor
    exact ⟨e, if_neg (by simp [hcursor]), hpress.symm ▸ hs⟩
  · rw [concat_eq_append] at hbefore
    have hpress : l.press (size - 1) h.lines .backspace = { l with before := b, after := l.after } := by
      simp [Line.press, hbefore]
    obtain ⟨rest, hmove, hroom⟩ := hs.remove hbefore
    obtain ⟨hlen, hcursor, hfits, hplain⟩ := hs.shorter hbefore
    rw [length_singleton] at hlen hcursor
    have hdst : e.cursor - 1 = b.length := by omega
    have hcount : e.len - 1 - b.length = l.after.length := by
      rw [hlen, length_append]
      omega
    have hshown : slice (b ++ l.after ++ rest) b.length l.after.length = some l.after := slice_mid rfl rfl rfl
    rw [if_pos (by omega), hpress, hdst]
    simp only [hmove, bind, bind_some, Editor.echo, hcount, hshown, map_some]
    exact ⟨_, rfl, hs.edit _ hroom rfl (by show e.len - 1 = _; omega) rfl hfits hplain rfl rfl⟩

theorem rdropWhile_append (p : UInt8 → Bool) (s : List UInt8) : ∃ t, s = s.rdropWhile p ++ t :=
  ( List.rdropWhile_prefix p s).imp fun _ ht => ht.symm

/-- The loop of `Ctrl+W` stops where the part ends that is kept. -/
theorem backWhile_eq (p : UInt8 → Bool) (s rest : List UInt8) :
    backWhile (s ++ rest) p s.length = some (s.rdropWhile p).length := by
  induction s using List.reverseRecOn generalizing rest with
  | nil => rfl
  | append_singleton s c ih =>
    have hget : (s ++ [c] ++ rest)[s.length]? = some c := by simp
    rw [length_append, length_singleton, backWhile, hget, bind_some]
    by_cases hc : p c = true
    · rw [if_pos hc, rdropWhile_concat_pos p s c hc, append_assoc, ih]
    · rw [if_neg hc, rdropWhile_concat_neg p s c hc, length_append, length_singleton]

theorem Shows.killWord (hs : Shows h size e l) :
    ∃ e', e.killWord = some e' ∧ Shows h size e' (l.press (size - 1) h.lines .killWord) := by
  have hcursor := hs.cursor
  obtain ⟨rest, hbuf⟩ := hs.text
  unfold Editor.killWord
  by_cases hnil : l.before = []
  · have hpress : l.press (size - 1) h.lines .killWord = l := by
      cases l
      simp_all [Line.press, dropWord]
    rw [hnil] at hcursor
    exact ⟨e, if_pos hcursor, hpress.symm ▸ hs⟩
  · have hpos := length_pos_of_ne_nil hnil
    obtain ⟨t, ht⟩ := rdropWhile_append (· == 32) l.before
    obtain ⟨t', ht'⟩ := rdropWhile_append (· != 32) (l.before.rdropWhile (· == 32))
    have hbefore : l.before = dropWord l.before ++ (t' ++ t) := by
      rw [← append_assoc, dropWord, ← ht', ← ht]
    have hspaces : backWhile e.buf (· == 32) e.cursor.toNat = some (l.before.rdropWhile (· == 32)).length := by
      rw [hcursor, hbuf, Line.text, append_assoc]
      exact backWhile_eq _ _ _
    have hword : backWhile e.buf (· != 32) (l.before.rdropWhile (· == 32)).length = some (dropWord l.before).length := by
      have hparts : e.buf = l.before.rdropWhile (· == 32) ++ (t ++ (l.after ++ rest)) := by
        rw [hbuf, Line.text, ← append_assoc, ← ht, append_assoc]
      rw [hparts]
      exact backWhile_eq _ _ _
    have hpress : l.press (size - 1) h.lines .killWord = { l with before := dropWord l.before, after := l.after } := rfl
    obtain ⟨rest', hmove, hroom⟩ := hs.remove hbefore
    obtain ⟨hlen, hcursor', hfits, hplain⟩ := hs.shorter hbefore
    generalize dropWord l.before = b at hword hpress hmove hroom hlen hcursor' hfits hplain
    have hcount : e.len - (e.cursor - b.length) - b.length = l.after.length := by
      rw [hlen, hcursor', length_append]
      omega
    have hshown : slice (b ++ l.after ++ rest') b.length l.after.length = some l.after := slice_mid rfl rfl rfl
    rw [if_neg (by omega), hpress]
    simp only [hspaces, hword, hmove, bind, bind_some, Editor.echo, hcount, hshown, map_some]
    exact ⟨_, rfl, hs.edit _ hroom rfl (by show e.len - (e.cursor - b.length) = _; omega) rfl hfits hplain rfl rfl⟩

/-- The byte goes where the cursor is, with what stands there moved up. -/
theorem Shows.put (hs : Shows h size e l) (hroom : l.text.length < size - 1) (c : UInt8) :
    ∃ rest, (e.moveUp.bind fun buf => store buf e.cursor [c]) = some (l.before ++ [c] ++ l.after ++ rest) ∧
      (l.before ++ [c] ++ l.after ++ rest).length = size := by
  unfold Editor.moveUp
  have hlen := hs.len
  obtain ⟨rest, hbuf⟩ := hs.text
  have hsize := congrArg List.length hbuf
  rw [hs.room] at hsize
  rw [Line.text, length_append] at *
  have hrest : rest ≠ [] := by
    intro hnil
    rw [hnil] at hsize
    simp at hsize
    omega
  by_cases hafter : l.after = []
  · obtain ⟨w, rest, rfl⟩ := exists_cons_of_ne_nil hrest
    rw [hafter, append_nil] at hbuf
    rw [hafter] at hlen hsize
    have hput : store e.buf l.before.length [c] = some (l.before ++ [c] ++ rest) :=
      store_mid (y := [w]) (by rw [hbuf, append_assoc]; rfl) rfl rfl
    refine ⟨rest, ?_, ?_⟩
    · rw [if_neg (by rw [hs.cursor, hlen]; simp), bind_some, hs.cursor, hput, hafter]
      simp
    · simp only [length_append, length_cons, length_nil, hafter] at *
      omega
  · have hpos := length_pos_of_ne_nil hafter
    obtain ⟨rest', hput, hlen'⟩ := memmove_up hbuf hrest c
    have hcount : e.len - e.cursor = l.after.length := by
      rw [hlen, hs.cursor]
      omega
    refine ⟨rest', ?_, ?_⟩
    · rw [if_pos (by rw [hlen, hs.cursor]; omega), hcount, hs.cursor, hput]
      simp
    · simp only [length_append, length_cons, length_nil] at *
      omega

theorem Shows.insert {c : UInt8} (hs : Shows h size e l) (hc : isPrintable c = true) :
    ∃ e', e.insert c size = some e' ∧ Shows h size e' (l.press (size - 1) h.lines (.insert c)) := by
  have hlen := hs.len
  have hcursor := hs.cursor
  unfold Editor.insert
  by_cases hroom : l.text.length < size - 1
  · have hpress : l.press (size - 1) h.lines (.insert c) = { l with before := l.before ++ [c], after := l.after } := by
      simp [Line.press, hroom]
    obtain ⟨rest, hput, hsize⟩ := hs.put hroom c
    obtain ⟨buf, hmove, hstore⟩ := Option.bind_eq_some_iff.mp hput
    have hlen' : e.len + 1 = (l.before ++ [c] ++ l.after).length := by
      rw [hlen, Line.text]
      simp only [length_append, length_singleton]
      omega
    have hshown : slice (l.before ++ [c] ++ l.after ++ rest) (e.cursor + 1 - 1) (e.len + 1 - (e.cursor + 1) + 1) =
        some (c :: l.after) := by
      refine slice_mid (x := l.before) (z := rest) (by simp) (by omega) ?_
      rw [hcursor, hlen', length_cons]
      simp only [length_append, length_singleton]
      omega
    have hplain : 0 ∉ l.before ++ [c] ++ l.after := by
      have hne : c ≠ 0 := fun he => by
        rw [he] at hc
        exact absurd hc (by decide)
      have hold := hs.plain
      rw [Line.text, mem_append] at hold
      simp only [mem_append, mem_singleton]
      rintro ((hmem | rfl) | hmem)
      · exact hold (.inl hmem)
      · exact hne rfl
      · exact hold (.inr hmem)
    rw [if_pos ⟨hc, by omega⟩, hpress]
    simp only [bind, hmove, hstore, bind_some, Editor.echo, hshown, map_some]
    refine ⟨_, rfl, hs.edit _ hsize rfl hlen' ?_ ?_ hplain rfl rfl⟩
    · show e.cursor + 1 = _
      rw [hcursor, length_append, length_singleton]
      omega
    · omega
  · have hpress : l.press (size - 1) h.lines (.insert c) = l := by simp [Line.press, hroom]
    exact ⟨e, if_neg (by omega), hpress.symm ▸ hs⟩

/-! ## Keys and bytes -/

/-- What `read_line` is at stands for the session. -/
inductive Agrees (h : History) (size : Nat) : ReadLine → Session → Prop
  | editing (next : Reading) {e : Editor} {l : Line} : Shows h size e l → Agrees h size (.reading next e) (.editing next l)
  | line {e : Editor} {s : List UInt8} : Holds e.buf s → e.buf.length = size →
    Agrees h size (.returned s.length e) (.ended (some s))
  | closed (e : Editor) : Agrees h size (.returned (-1) e) (.ended none)

/-- A step of the editor that stands for one of the session. -/
def Matches (h : History) (size : Nat) (st : Option ReadLine) (s : Session) : Prop := ∃ st', st = some st' ∧ Agrees h size st' s

theorem Shows.enter (hs : Shows h size e l) : Matches h size e.enter (.ended (some l.text)) := by
  obtain ⟨rest, hbuf⟩ := hs.text
  have hsize := congrArg List.length hbuf
  rw [hs.room, length_append] at hsize
  have hfits := hs.fits
  obtain ⟨w, rest, rfl⟩ := exists_cons_of_ne_nil (ne_nil_of_length_pos (by omega : 0 < rest.length))
  have hput : store e.buf e.len [0] = some (l.text ++ [0] ++ rest) :=
    store_mid (y := [w]) (by rw [hbuf, append_assoc]; rfl) hs.len rfl
  refine ⟨.returned e.len { e.write [10] with buf := l.text ++ [0] ++ rest }, ?_, ?_⟩
  · simp only [Editor.enter, bind, hput, bind_some]
  · rw [hs.len]
    refine .line ⟨hs.plain, rest, by simp⟩ ?_
    simp only [length_append, length_cons, length_nil] at hsize ⊢
    omega

theorem Shows.interrupt (hs : Shows h size e l) : Matches h size e.interrupt (.ended (some [])) := by
  have hfits := hs.fits
  have hroom := hs.room
  obtain ⟨w, rest, hbuf⟩ := exists_cons_of_ne_nil (ne_nil_of_length_pos (by omega : 0 < e.buf.length))
  have hput : store e.buf 0 [0] = some ([] ++ [0] ++ rest) := store_mid (x := []) (y := [w]) hbuf rfl rfl
  refine ⟨.returned 0 { e.write [94, 67, 10] with buf := [] ++ [0] ++ rest }, ?_, ?_⟩
  · simp only [Editor.interrupt, bind, hput, bind_some]
  · refine .line (s := []) ⟨not_mem_nil, rest, rfl⟩ ?_
    rw [← hroom, hbuf]
    rfl

theorem Matches.key {e' : Option Editor} (he : ∃ e'', e' = some e'' ∧ Shows h size e'' l) :
    Matches h size (e'.map .key) (.editing .key l) := by
  obtain ⟨e'', rfl, hs⟩ := he
  exact ⟨.key e'', rfl, .editing _ hs⟩

/-- `Ctrl+D` ends the input only on an empty line. -/
theorem Shows.endOfFile (hs : Shows h size e l) :
    Matches h size (some (if e.len = 0 then .returned (-1) e else .key e))
      (if l.text = [] then .ended none else .editing .key l) := by
  have hlen := hs.len
  by_cases hnil : l.text = []
  · rw [hnil] at hlen
    rw [if_pos hnil, if_pos (by simpa using hlen)]
    exact ⟨_, rfl, .closed _⟩
  · have hpos := length_pos_of_ne_nil hnil
    rw [if_neg (by omega), if_neg hnil]
    exact ⟨_, rfl, .editing _ hs⟩

/-- What is not printable is dropped. -/
theorem Shows.character (hs : Shows h size e l) (c : UInt8) :
    Matches h size ((e.insert c size).map .key)
      (l.handle (size - 1) h.lines .key (if isPrintable c then .pressed (.insert c) else .nothing)) := by
  by_cases hc : isPrintable c = true
  · rw [if_pos hc]
    exact .key (hs.insert hc)
  · have hsame : e.insert c size = some e := if_neg fun hand => hc hand.1
    rw [hsame, if_neg hc]
    exact ⟨_, rfl, .editing _ hs⟩

theorem onSequence_matches (hs : Shows h size e l) (hsize : size ≤ commandMax) (first second : UInt8) :
    Matches h size ((e.onSequence h size first second).map .key)
      ((Session.editing (.sequence first) l).next (size - 1) h.lines (some second)) := by
  unfold Editor.onSequence Session.next decode Event.ofSequence
  dsimp only
  split
  · exact .key ⟨e, rfl, hs⟩
  · split
    · exact .key (hs.up hsize)
    · split
      · exact .key hs.down
      · split
        · exact .key ⟨e.right, rfl, hs.right⟩
        · split
          · exact .key ⟨e.left, rfl, hs.left⟩
          · exact .key ⟨e, rfl, hs⟩

theorem onKey_matches (hs : Shows h size e l) (c : UInt8) :
    Matches h size (e.onKey size c) ((Session.editing .key l).next (size - 1) h.lines (some c)) := by
  by_cases hesc : c = 27
  · subst hesc
    exact ⟨_, rfl, .editing _ hs⟩
  · have hdecode : decode .key (some c) = (.key, .ofByte c) := if_neg hesc
    have hnext : (Session.editing .key l).next (size - 1) h.lines (some c) = l.handle (size - 1) h.lines .key (.ofByte c) := by
      rw [Session.next, hdecode]
    rw [hnext]
    unfold Editor.onKey Event.ofByte
    by_cases henter : c = 10 ∨ c = 13
    · rw [if_pos henter, if_pos henter]
      exact hs.enter
    · rw [if_neg henter, if_neg hesc, if_neg henter]
      by_cases hback : c = 127 ∨ c = 8
      · rw [if_pos hback, if_pos hback]
        exact .key hs.backspace
      · rw [if_neg hback, if_neg hback]
        by_cases hintr : c = 3
        · rw [if_pos hintr, if_pos hintr]
          exact hs.interrupt
        · rw [if_neg hintr, if_neg hintr]
          by_cases heof : c = 4
          · rw [if_pos heof, if_pos heof]
            exact hs.endOfFile
          · rw [if_neg heof, if_neg heof]
            by_cases hkill : c = 21
            · rw [if_pos hkill, if_pos hkill]
              exact ⟨_, rfl, .editing _ hs.killLine⟩
            · rw [if_neg hkill, if_neg hkill]
              by_cases hword : c = 23
              · rw [if_pos hword, if_pos hword]
                exact .key hs.killWord
              · rw [if_neg hword, if_neg hword]
                exact hs.character c

theorem next_matches {st : ReadLine} {s : Session} (hsize : size ≤ commandMax) (ha : Agrees h size st s) (byte : Option UInt8) :
    Matches h size (st.next h size byte) (s.next (size - 1) h.lines byte) := by
  cases ha with
  | line hholds hroom => exact ⟨_, rfl, .line hholds hroom⟩
  | closed => exact ⟨_, rfl, .closed _⟩
  | @editing reading e l hs =>
    cases reading with
    | key =>
      cases byte with
      | none => exact ⟨_, rfl, .closed _⟩
      | some c => exact onKey_matches hs c
    | escape =>
      cases byte with
      | none => exact ⟨_, rfl, .editing _ hs⟩
      | some c => exact ⟨_, rfl, .editing _ hs⟩
    | sequence first =>
      cases byte with
      | none => exact ⟨_, rfl, .editing _ hs⟩
      | some second => exact onSequence_matches hs hsize first second

theorem begin_agrees {buf saved : List UInt8} (hpos : 0 < size) (hroom : buf.length = size) (hsaved : saved.length = commandMax) :
    Agrees h size (.begin buf saved) .begin :=
  .editing .key ⟨hroom, ⟨buf, rfl⟩, rfl, rfl, hpos, not_mem_nil, by simpa using hsaved, rfl⟩

/-- The run of `read_line` on what the reads return, as far as it goes. -/
def ReadLine.run (h : History) (bufsize : Int) (st : ReadLine) (input : List (Option UInt8)) : Option ReadLine :=
  Run.exec (ReadLine.next h bufsize) st input

theorem run_matches {st : ReadLine} {s : Session} (hsize : size ≤ commandMax) (ha : Agrees h size st s)
    (input : List (Option UInt8)) :
    Matches h size (st.run h size input) (input.foldl (Session.next (size - 1) h.lines) s) := by
  induction input generalizing st s with
  | nil => exact ⟨st, rfl, ha⟩
  | cons byte input ih =>
    obtain ⟨st', hnext, ha'⟩ := next_matches hsize ha byte
    obtain ⟨st'', hrun, ha''⟩ := ih ha'
    refine ⟨st'', ?_, ha''⟩
    rw [ReadLine.run, Run.exec, hnext, bind_some]
    exact hrun

/-- Between two reads the variables are in range and the buffer starts with the line, which has the
cursor at the same place. At the end it holds the line that is returned, if there is one. -/
def IsEditor (size : Nat) : Option ReadLine → Session → Prop
  | some (.reading next e), .editing next' l => next = next' ∧ (0 ≤ e.cursor ∧ e.cursor ≤ e.len ∧ e.len < size) ∧
    e.buf.take e.len.toNat = l.text ∧ e.cursor = l.before.length
  | some (.returned result e), .ended (some line) => result = line.length ∧ Holds e.buf line
  | some (.returned result _), .ended none => result = -1
  | _, _ => False

theorem Agrees.isEditor {st : ReadLine} {s : Session} (ha : Agrees h size st s) : IsEditor size (some st) s := by
  cases ha with
  | editing next hs => exact ⟨rfl, hs.le, hs.take, hs.cursor⟩
  | line hholds _ => exact ⟨rfl, hholds⟩
  | closed e => exact rfl

/-- `read_line` is the abstract editor, whatever comes in. -/
theorem readLine_isEditor (h : History) (buf saved : List UInt8) (hpos : 1 ≤ size) (hsize : size ≤ commandMax)
    (hroom : buf.length = size) (hsaved : saved.length = commandMax) (input : List (Option UInt8)) :
    IsEditor size ((ReadLine.begin buf saved).run h size input) (input.foldl (Session.next (size - 1) h.lines) .begin) := by
  obtain ⟨st, hrun, ha⟩ := run_matches hsize (begin_agrees (h := h) hpos hroom hsaved) input
  rw [hrun]
  exact ha.isEditor

def noEntry : Entry := ⟨List.replicate commandMax 0, length_replicate, mem_replicate.mpr ⟨by decide, rfl⟩⟩

def noHistory : History := ⟨fun _ => noEntry, 0, 0, by decide, by decide⟩

theorem readLine_isEditor_letter :
    IsEditor 2 ((ReadLine.begin [9, 9] (List.replicate commandMax 0)).run noHistory 2 [some 97, some 98, some 10])
      ([some 97, some 98, some 10].foldl (Session.next 1 noHistory.lines) .begin) := by
  have hsaved : (List.replicate commandMax (0 : UInt8)).length = commandMax := List.length_replicate
  exact readLine_isEditor noHistory [9, 9] _ (Nat.le_succ 1) (by decide) rfl hsaved [some 97, some 98, some 10]

end Serotonin.Shell
