import Mathlib.Data.List.TakeWhile
import Serotonin.Init.Model

/-! The output of a job by lines. Every byte is handled alone, so it does not matter how the
output is cut into reads. A line that does not fit in the buffer is cut in pieces, each without
the byte that did not fit. -/

namespace Serotonin.Init

open List

variable {j : Job}

/-! ## Reads in turn -/

/-- The lines of an output that have ended. -/
def completeLines (stream : List UInt8) : List (List UInt8) := (stream.splitOn 10).dropLast

/-- Calls of `process_pipe` in turn, with the lines they handed on. -/
def processAll (k : Kernel) (j : Job) : List PipeAnswer → Kernel × Job × List (List UInt8)
  | [] => (k, j, [])
  | a :: as =>
    let s := processPipe k j a
    let t := processAll s.1 s.2 as
    (t.1, t.2.1, (feedAll j (a.read.take readSize)).2 ++ t.2.2)

/-- The output comes in reads of this kind. -/
structure Cut (answers : List PipeAnswer) (stream : List UInt8) : Prop where
  some : ∀ a ∈ answers, a.read ≠ []
  fits : ∀ a ∈ answers, a.read.length ≤ readSize
  stream : answers.flatMap (·.read) = stream

theorem feedAll_append (j : Job) (xs ys : List UInt8) :
    feedAll j (xs ++ ys) = ((feedAll (feedAll j xs).1 ys).1, (feedAll j xs).2 ++ (feedAll (feedAll j xs).1 ys).2) := by
  induction xs generalizing j with
  | nil => rfl
  | cons x xs ih => simp only [cons_append, feedAll, ih, append_assoc]

theorem feed_pipeFd (j : Job) (c : UInt8) : (feed j c).1.pipeFd = j.pipeFd := by
  unfold feed
  split <;> rfl

theorem feedAll_pipeFd (j : Job) (xs : List UInt8) : (feedAll j xs).1.pipeFd = j.pipeFd := by
  induction xs generalizing j with
  | nil => rfl
  | cons x xs ih => exact (ih (feed j x).1).trans (feed_pipeFd j x)

/-- Nothing of the cuts is left in the result. -/
theorem processAll_eq {answers : List PipeAnswer} {stream : List UInt8} (k : Kernel) (hpipe : j.pipeFd.isSome)
    (h : Cut answers stream) : processAll k j answers = (k, feedAll j stream) := by
  obtain ⟨hsome, hfits, rfl⟩ := h
  induction answers generalizing j with
  | nil => rfl
  | cons a as ih =>
    have hread : a.read.take readSize = a.read := take_of_length_le (hfits a mem_cons_self)
    have hbytes : bytesRead j a = a.read := by rw [bytesRead, if_pos hpipe, hread]
    have hcall : processPipe k j a = (k, (feedAll j a.read).1) := by
      rw [processPipe, hbytes, if_neg (hsome a mem_cons_self)]
    have hrest := ih (j := (feedAll j a.read).1) (by rw [feedAll_pipeFd]; exact hpipe)
      (fun b hb => hsome b (mem_cons_of_mem _ hb)) fun b hb => hfits b (mem_cons_of_mem _ hb)
    rw [flatMap_cons, feedAll_append]
    simp only [processAll, hcall, hrest, hread]

/-! ## Pieces -/

/-- The parts between the ends of lines, if the bytes `line` are there already. -/
noncomputable def pieces (line xs : List UInt8) : List (List UInt8) := xs.splitOnPPrepend (· == 10) line.reverse

theorem pieces_nil (line : List UInt8) : pieces line [] = [line] := by simp [pieces]

theorem pieces_newline (line xs : List UInt8) : pieces line (10 :: xs) = line :: pieces [] xs := by
  rw [pieces, splitOnPPrepend_cons_pos (by rfl), reverse_reverse]
  rfl

theorem pieces_cons {c : UInt8} (hc : c ≠ 10) (line xs : List UInt8) :
    pieces line (c :: xs) = pieces (line ++ [c]) xs := by
  rw [pieces, splitOnPPrepend_cons_neg (by simpa using hc), pieces, reverse_append]
  rfl

theorem splitOn_eq_pieces (xs : List UInt8) : xs.splitOn 10 = pieces [] xs := by
  rw [splitOn_eq_splitOnP]
  rfl

theorem pieces_ne_nil (line xs : List UInt8) : pieces line xs ≠ [] := splitOnPPrepend_ne_nil _ _ _

theorem length_pieces (line xs : List UInt8) : (pieces line xs).length = (pieces [] xs).length := by
  induction xs generalizing line with
  | nil => rw [pieces_nil, pieces_nil, length_singleton, length_singleton]
  | cons c xs ih =>
    by_cases hc : c = 10
    · subst hc
      rw [pieces_newline, pieces_newline, length_cons, length_cons]
    · rw [pieces_cons hc, pieces_cons hc, ih, ih ([] ++ [c])]

/-- The first part is no shorter than what is there already. -/
theorem exists_piece (line xs : List UInt8) : ∃ l ∈ pieces line xs, line.length ≤ l.length := by
  induction xs generalizing line with
  | nil => exact ⟨line, by simp [pieces_nil], Nat.le_refl _⟩
  | cons c xs ih =>
    by_cases hc : c = 10
    · subst hc
      exact ⟨line, by simp [pieces_newline], Nat.le_refl _⟩
    · obtain ⟨l, hl, hle⟩ := ih (line ++ [c])
      rw [length_append] at hle
      exact ⟨l, by rwa [pieces_cons hc], by omega⟩

theorem mem_of_mem_pieces {line xs l : List UInt8} {c : UInt8} (hl : l ∈ pieces line xs) (hc : c ∈ l) :
    c ∈ line ∨ c ∈ xs := by
  induction xs generalizing line with
  | nil =>
    rw [pieces_nil, mem_singleton] at hl
    exact .inl (hl ▸ hc)
  | cons x xs ih =>
    by_cases hx : x = 10
    · subst hx
      rw [pieces_newline, mem_cons] at hl
      obtain rfl | hl := hl
      · exact .inl hc
      · exact .inr (mem_cons_of_mem _ ((ih hl).resolve_left not_mem_nil))
    · rw [pieces_cons hx] at hl
      obtain h | h := ih hl
      · obtain h | h := mem_append.mp h
        · exact .inl h
        · exact .inr (mem_singleton.mp h ▸ mem_cons_self)
      · exact .inr (mem_cons_of_mem _ h)

/-! ## Lines that fit -/

theorem feed_newline (j : Job) :
    feed j 10 = (endLine j, some j.lineBuf.bytes) := by
  rw [feed, dif_pos (.inl rfl)]

theorem feed_full (c : UInt8) (h : lineBufSize - 1 ≤ j.lineBuf.bytes.length) :
    feed j c = (endLine j, some j.lineBuf.bytes) := by
  rw [feed, dif_pos (.inr h)]

theorem feed_room {c : UInt8} (hc : c ≠ 10) (h : j.lineBuf.bytes.length < lineBufSize - 1) :
    (feed j c).1.lineBuf.bytes = j.lineBuf.bytes ++ [c] ∧ (feed j c).2 = none := by
  rw [feed, dif_neg (not_or.mpr ⟨hc, Nat.not_le.mpr h⟩)]
  exact ⟨rfl, rfl⟩

theorem lines_of_fit (xs : List UInt8) (h : ∀ l ∈ pieces j.lineBuf.bytes xs, l.length < lineBufSize) :
    (feedAll j xs).2 = (pieces j.lineBuf.bytes xs).dropLast := by
  induction xs generalizing j with
  | nil => simp [feedAll, pieces_nil]
  | cons c xs ih =>
    by_cases hc : c = 10
    · subst hc
      rw [pieces_newline] at h ⊢
      have hrest := ih (j := (feed j 10).1) (by
        rw [feed_newline]
        exact fun l hl => h l (mem_cons_of_mem _ hl))
      rw [feed_newline] at hrest
      rw [dropLast_cons_of_ne_nil (pieces_ne_nil _ _)]
      simp only [feedAll, feed_newline, hrest, Option.toList_some, singleton_append]
      rfl
    · rw [pieces_cons hc] at h ⊢
      obtain ⟨l, hl, hle⟩ := exists_piece (j.lineBuf.bytes ++ [c]) xs
      have hlt := h l hl
      rw [length_append, length_singleton] at hle
      obtain ⟨hbuf, hnone⟩ := feed_room (j := j) hc (by omega)
      have hrest := ih (j := (feed j c).1) (by rwa [hbuf])
      simp only [feedAll, hrest, hnone, Option.toList_none, nil_append, hbuf]

/-! ## Lines that do not -/

theorem length_lines (xs : List UInt8) : (pieces j.lineBuf.bytes xs).length ≤ (feedAll j xs).2.length + 1 := by
  induction xs generalizing j with
  | nil => simp [pieces_nil]
  | cons c xs ih =>
    by_cases hc : c = 10
    · subst hc
      have hrest := ih (j := endLine j)
      rw [length_pieces] at hrest
      simp only [pieces_newline, feedAll, feed_newline, Option.toList_some, singleton_append, length_cons]
      omega
    · have hrest := ih (j := (feed j c).1)
      rw [length_pieces] at hrest
      rw [pieces_cons hc, length_pieces]
      simp only [feedAll, length_append]
      omega

/-- A part that is too long is handed on as more lines than it ends. -/
theorem length_lines_of_long (xs : List UInt8) (h : ∃ l ∈ pieces j.lineBuf.bytes xs, lineBufSize ≤ l.length) :
    (pieces j.lineBuf.bytes xs).length ≤ (feedAll j xs).2.length := by
  have hshort := j.lineBuf.fits
  induction xs generalizing j with
  | nil =>
    obtain ⟨l, hl, hle⟩ := h
    rw [pieces_nil, mem_singleton] at hl
    rw [hl] at hle
    omega
  | cons c xs ih =>
    obtain ⟨l, hl, hle⟩ := h
    by_cases hc : c = 10
    · subst hc
      rw [pieces_newline, mem_cons] at hl
      obtain rfl | hl := hl
      · omega
      · have hrest := ih (j := (feed j 10).1) (by rw [feed_newline]; exact ⟨l, hl, hle⟩) (Text.fits _)
        rw [feed_newline] at hrest
        simp only [pieces_newline, feedAll, feed_newline, Option.toList_some, singleton_append, length_cons]
        exact Nat.succ_le_succ hrest
    · rw [pieces_cons hc] at hl ⊢
      by_cases hfull : lineBufSize - 1 ≤ j.lineBuf.bytes.length
      · have hrest := length_lines (j := (feed j c).1) xs
        rw [feed_full c hfull] at hrest
        rw [length_pieces]
        simp only [feedAll, feed_full c hfull, Option.toList_some, singleton_append, length_cons]
        exact hrest
      · obtain ⟨hbuf, hnone⟩ := feed_room (j := j) hc (Nat.not_le.mp hfull)
        have hrest := ih (j := (feed j c).1) (by rw [hbuf]; exact ⟨l, hl, hle⟩) (Text.fits _)
        rw [hbuf] at hrest
        simp only [feedAll, hnone, Option.toList_none, nil_append]
        exact hrest

theorem lines_ne_of_long {xs : List UInt8} (h : ∃ l ∈ pieces j.lineBuf.bytes xs, lineBufSize ≤ l.length) :
    (feedAll j xs).2 ≠ (pieces j.lineBuf.bytes xs).dropLast := by
  intro he
  have hlen := length_lines_of_long xs h
  have hpos := length_pos_of_ne_nil (pieces_ne_nil j.lineBuf.bytes xs)
  rw [he, length_dropLast] at hlen
  omega

/-! ## Readiness -/

/-- A job that waits for a line of its output, or has seen one. -/
structure Watches (j : Job) : Prop where
  mode : j.readyMode = .stdout
  state : j.state = .running ∨ j.state = .ready

theorem Watches.endLine (h : Watches j) : Watches (endLine j) ∧
    ((endLine j).state = .ready ↔ j.state = .ready ∨ j.readyPattern.bytes <:+: cstr j.lineBuf.bytes) := by
  obtain ⟨hmode, hstate⟩ := h
  unfold Init.endLine report
  by_cases hin : j.state = .running ∧ j.readyMode = .stdout ∧ j.readyPattern.bytes <:+: cstr j.lineBuf.bytes
  · simp only [if_pos hin]
    exact ⟨⟨hmode, .inr rfl⟩, by simp [hin.2.2]⟩
  · simp only [if_neg hin]
    refine ⟨⟨hmode, hstate⟩, ?_⟩
    constructor
    · exact .inl
    · intro h
      obtain h | h := h
      · exact h
      · exact hstate.resolve_left fun hrun => hin ⟨hrun, hmode, h⟩

theorem feed_cases (j : Job) (c : UInt8) :
    (feed j c = (endLine j, some j.lineBuf.bytes)) ∨
      ((feed j c).2 = none ∧ ∃ l, (feed j c).1 = { j with lineBuf := l }) := by
  unfold feed
  split
  · exact .inl rfl
  · exact .inr ⟨rfl, _, rfl⟩

theorem feedAll_ready (xs : List UInt8) (h : Watches j) : (feedAll j xs).1.state = .ready ↔
    j.state = .ready ∨ ∃ l ∈ (feedAll j xs).2, j.readyPattern.bytes <:+: cstr l := by
  induction xs generalizing j with
  | nil => simp [feedAll]
  | cons c xs ih =>
    obtain hline | ⟨hnone, l, hsame⟩ := feed_cases j c
    · obtain ⟨hw, hready⟩ := h.endLine
      simp only [feedAll, hline, ih hw, hready, Option.toList_some, singleton_append, exists_mem_cons_iff,
        or_assoc]
      rfl
    · have hrest := ih (j := { j with lineBuf := l }) ⟨h.mode, h.state⟩
      simp only [feedAll, hsame, hrest, hnone, Option.toList_none, nil_append]

/-! ## Streams -/

theorem cstr_of_notMem {l : List UInt8} (h : 0 ∉ l) : cstr l = l :=
  takeWhile_eq_self_iff.mpr fun _ hc => bne_iff_ne.mpr fun he => h (he ▸ hc)

/-- A job that has been started, and waits for a line of its output. -/
structure Awaited (j : Job) : Prop where
  pipe : j.pipeFd.isSome
  mode : j.readyMode = .stdout
  state : j.state = .running
  line : j.lineBuf = noLine

/-- The lines that were handed on are those of the stream, and the job is ready if one of them
has the pattern in it. -/
def ByLines (k : Kernel) (j : Job) (answers : List PipeAnswer) (stream : List UInt8) : Prop :=
  let (_, j', lines) := processAll k j answers
  lines = completeLines stream ∧
    (j'.state = .ready ↔ ∃ l ∈ completeLines stream, j.readyPattern.bytes <:+: l)

theorem not_byLines_of_long {k : Kernel} {answers : List PipeAnswer} {stream : List UInt8} (hj : Awaited j)
    (hcut : Cut answers stream) (hlong : ∃ l ∈ stream.splitOn 10, lineBufSize ≤ l.length) :
    ¬ByLines k j answers stream := by
  intro ⟨hlines, _⟩
  have hpieces : pieces j.lineBuf.bytes stream = stream.splitOn 10 := by
    rw [hj.line, splitOn_eq_pieces]
    rfl
  rw [processAll_eq k hj.pipe hcut] at hlines
  rw [← hpieces] at hlong
  refine lines_ne_of_long hlong ?_
  rw [hpieces]
  exact hlines

/-- Output is handled line by line, however it is read, exactly if no part of it without a
newline fills the buffer. -/
theorem byLines_iff {k : Kernel} {j : Job} {answers : List PipeAnswer} {stream : List UInt8} (hj : Awaited j)
    (hcut : Cut answers stream) (hnul : 0 ∉ stream) :
    ByLines k j answers stream ↔ ∀ l ∈ stream.splitOn 10, l.length < lineBufSize := by
  constructor
  · intro h l hl
    by_contra hlen
    exact not_byLines_of_long hj hcut ⟨l, hl, Nat.not_lt.mp hlen⟩ h
  · intro hfit
    have hpieces : pieces j.lineBuf.bytes stream = stream.splitOn 10 := by
      rw [hj.line, splitOn_eq_pieces]
      rfl
    have hlines : (feedAll j stream).2 = completeLines stream := by
      have hfit' := lines_of_fit (j := j) stream (by rwa [hpieces])
      rwa [hpieces] at hfit'
    have hplain : ∀ l ∈ completeLines stream, cstr l = l := by
      intro l hl
      refine cstr_of_notMem fun hz => ?_
      have hmem := List.mem_of_mem_dropLast hl
      rw [splitOn_eq_pieces] at hmem
      exact hnul ((mem_of_mem_pieces hmem hz).resolve_left List.not_mem_nil)
    have hready := feedAll_ready (j := j) stream ⟨hj.mode, .inl hj.state⟩
    have hnot : j.state ≠ .ready := by simp [hj.state]
    rw [hlines] at hready
    unfold ByLines
    rw [processAll_eq k hj.pipe hcut]
    refine ⟨hlines, hready.trans ?_⟩
    rw [or_iff_right hnot]
    exact exists_congr fun l => and_congr_right fun hl => by rw [hplain l hl]

/-- A job that is ready when it writes `ok`. -/
def okJob : Job :=
  { Job.fresh { execLine := .cut (by decide) [47, 120], readyMode := .stdout
                readyPattern := .cut (by decide) [111, 107], after := .cut (by decide) [] } [120] with
    state := .running, pid := some 7, pipeFd := some 3 }

theorem okJob_awaited : Awaited okJob := ⟨rfl, rfl, rfl, rfl⟩

/-- The pattern is cut by the reads. -/
theorem byLines_ok : ByLines ⟨fun _ => none, 0⟩ okJob [⟨[97, 10, 111], 0⟩, ⟨[107, 10, 98], 0⟩] [97, 10, 111, 107, 10, 98] :=
  (byLines_iff okJob_awaited ⟨by decide, by decide, rfl⟩ (by decide)).mpr (by decide)

def filler (n : Nat) : List UInt8 := .replicate n 97

theorem length_filler (n : Nat) : (filler n).length = n := length_replicate

theorem read_filler {n m k : Nat} (h : n + m = k) (xs ys : List UInt8) :
    ([⟨filler n, 0⟩, ⟨filler m ++ xs, 0⟩, ⟨ys, 0⟩] : List PipeAnswer).flatMap (·.read) = filler k ++ xs ++ ys := by
  subst h
  simp [filler, ← replicate_append_replicate]

/-- The `k` of a line of 512 bytes that ends in `ok` is dropped. -/
theorem not_byLines : ¬ByLines ⟨fun _ => none, 0⟩ okJob
    [⟨filler 256, 0⟩, ⟨filler 254 ++ [111, 107], 0⟩, ⟨[10], 0⟩] (filler 510 ++ [111, 107] ++ [10]) := by
  have hplain : ∀ c ∈ filler 510 ++ [111, 107], (c == 10) = false := by
    intro c hc
    rw [List.mem_append] at hc
    obtain hc | hc := hc
    · rw [List.eq_of_mem_replicate hc]
      rfl
    · obtain rfl | rfl : c = 111 ∨ c = 107 := by simpa using hc
      · rfl
      · rfl
  have hsplit : (filler 510 ++ [111, 107] ++ [10]).splitOn 10 = [filler 510 ++ [111, 107], []] := by
    rw [List.splitOn_eq_splitOnP, List.splitOnP_append_cons_of_forall_mem hplain 10 (by rfl)]
    rfl
  have hfull : (filler 510 ++ [111, 107]).length = lineBufSize := by
    rw [List.length_append, length_filler]
    rfl
  refine not_byLines_of_long okJob_awaited ⟨?_, ?_, ?_⟩ ?_
  · simp [← List.length_pos_iff_ne_nil, length_filler]
  · simp [length_filler, readSize]
  · exact read_filler (by decide) _ _
  · rw [hsplit]
    exact ⟨_, List.mem_cons_self, Nat.le_of_eq hfull.symm⟩

end Serotonin.Init
