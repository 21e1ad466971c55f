import Serotonin.Vbe.Ansi

/-! Output in pieces. `pty_ldisc_output` cuts what is written at every newline, and
`vbe_terminal_puts` forgets an escape sequence that it has not seen the end of. Where a piece
ends outside an escape sequence nothing is lost; where it ends inside one, the next letter is
printed instead of being taken for the sequence's. -/

namespace Serotonin.Vbe

open List
open ByteMem (u32)

variable {m : Mode} {f : Font} {onlcr : Bool}

/-! ## The line discipline -/

def renderLine (m : Mode) (f : Font) (ts : TermState) (line : List UInt8) : TermState × List Store :=
  if line = [] then (ts, []) else terminalPuts m f ts line

def newline : List UInt8 := ['\r'.toUInt8, '\n'.toUInt8]

/-- The loop of `pty_ldisc_output`, with the line that has been read so far. -/
def outputLines (m : Mode) (f : Font) (ts : TermState) (line : List UInt8) : List UInt8 → TermState × List Store
  | [] => renderLine m f ts line
  | c :: cs =>
    if c = '\n'.toUInt8 then
      let (ts, out) := renderLine m f ts line
      let (ts, out') := terminalPuts m f ts newline
      let (ts, out'') := outputLines m f ts [] cs
      (ts, out ++ (out' ++ out''))
    else outputLines m f ts (line ++ [c]) cs

/-- One write to a kernel terminal, active or not: the state it leaves and the stores it makes
into the terminal's buffer. -/
def ldiscOutput (m : Mode) (f : Font) (onlcr : Bool) (ts : TermState) (s : List UInt8) : TermState × List Store :=
  if onlcr then outputLines m f ts [] s else terminalPuts m f ts s

def ldiscOutputs (m : Mode) (f : Font) (onlcr : Bool) (ts : TermState) : List (List UInt8) → TermState × List Store
  | [] => (ts, [])
  | s :: ss =>
    let (ts, out) := ldiscOutput m f onlcr ts s
    let (ts, out') := ldiscOutputs m f onlcr ts ss
    (ts, out ++ out')

/-! ## The parser alone -/

def escape (p : Parser) (c : UInt8) : Parser :=
  match p with
  | none => if c = esc then some [] else none
  | some buf =>
    let buf := stored buf c
    if buf.length = 1 ∧ buf.head? ≠ some '['.toUInt8 then if endsEscape c then none else some buf
    else if buf.head? = some '['.toUInt8 ∧ isFinal c then none
    else some buf

/-- What is known of a sequence at the end of the last line. -/
def escapeAll (onlcr : Bool) (p : Parser) : List UInt8 → Parser
  | [] => p
  | c :: cs => escapeAll onlcr (if onlcr ∧ c = '\n'.toUInt8 then none else escape p c) cs

def EndsOutside (onlcr : Bool) (s : List UInt8) : Prop := escapeAll onlcr none s = none

theorem parser_feed (t : Term) (c : UInt8) : (feed m f t c).1.parser = escape t.parser c := by
  unfold feed escape
  cases t.parser with
  | none => simp only; split <;> rfl
  | some buf =>
    simp only
    split
    · rfl
    · split <;> rfl

theorem feedAll_append (t : Term) (s s' : List UInt8) :
    feedAll m f t (s ++ s') =
      ((feedAll m f (feedAll m f t s).1 s').1, (feedAll m f t s).2 ++ (feedAll m f (feedAll m f t s).1 s').2) := by
  induction s generalizing t with
  | nil => rfl
  | cons c cs ih =>
    simp only [cons_append, feedAll, ih, append_assoc]

/-! ## One machine for both -/

/-- A newline is written by itself, and what was known of a sequence is forgotten. -/
def emit (m : Mode) (f : Font) (onlcr : Bool) (t : Term) (c : UInt8) : Term × List Store :=
  if onlcr ∧ c = '\n'.toUInt8 then
    let (ts, out) := terminalPuts m f t.ts newline
    (⟨ts, none⟩, out)
  else feed m f t c

def emitAll (m : Mode) (f : Font) (onlcr : Bool) (t : Term) : List UInt8 → Term × List Store
  | [] => (t, [])
  | c :: cs =>
    let (t, out) := emit m f onlcr t c
    let (t, out') := emitAll m f onlcr t cs
    (t, out ++ out')

theorem emitAll_append (t : Term) (s s' : List UInt8) :
    emitAll m f onlcr t (s ++ s') =
      ((emitAll m f onlcr (emitAll m f onlcr t s).1 s').1,
        (emitAll m f onlcr t s).2 ++ (emitAll m f onlcr (emitAll m f onlcr t s).1 s').2) := by
  induction s generalizing t with
  | nil => rfl
  | cons c cs ih =>
    simp only [cons_append, emitAll, ih, append_assoc]

theorem parser_emit (t : Term) (c : UInt8) :
    (emit m f onlcr t c).1.parser = if onlcr ∧ c = '\n'.toUInt8 then none else escape t.parser c := by
  unfold emit
  split
  · rfl
  · exact parser_feed t c

theorem parser_emitAll (t : Term) (s : List UInt8) :
    (emitAll m f onlcr t s).1.parser = escapeAll onlcr t.parser s := by
  induction s generalizing t with
  | nil => rfl
  | cons c cs ih =>
    show (emitAll m f onlcr (emit m f onlcr t c).1 cs).1.parser = _
    rw [ih, parser_emit]
    rfl

theorem emitAll_false (t : Term) (s : List UInt8) : emitAll m f false t s = feedAll m f t s := by
  induction s generalizing t with
  | nil => rfl
  | cons c cs ih =>
    have hc : emit m f false t c = feed m f t c := if_neg fun h => Bool.noConfusion h.1
    simp only [emitAll, feedAll, hc, ih]

theorem renderLine_eq (ts : TermState) (line : List UInt8) :
    renderLine m f ts line = ((feedAll m f ⟨ts, none⟩ line).1.ts, (feedAll m f ⟨ts, none⟩ line).2) := by
  unfold renderLine
  split
  · next h => rw [h]; rfl
  · rfl

/-- The line read so far is what the machine has been fed since the last newline. -/
theorem outputLines_eq (ts : TermState) (line s : List UInt8) :
    outputLines m f ts line s =
      ((emitAll m f true (feedAll m f ⟨ts, none⟩ line).1 s).1.ts,
        (feedAll m f ⟨ts, none⟩ line).2 ++ (emitAll m f true (feedAll m f ⟨ts, none⟩ line).1 s).2) := by
  induction s generalizing ts line with
  | nil =>
    rw [outputLines, renderLine_eq]
    simp [emitAll]
  | cons c cs ih =>
    rw [outputLines]
    split
    · next hc =>
      have hemit : ∀ t : Term, emit m f true t c = (⟨(terminalPuts m f t.ts newline).1, none⟩, (terminalPuts m f t.ts newline).2) :=
        fun t => if_pos ⟨rfl, hc⟩
      simp only [renderLine_eq, ih, emitAll, hemit, feedAll, nil_append]
    · next hc =>
      have hemit : ∀ t : Term, emit m f true t c = feed m f t c := fun t => if_neg fun h => hc h.2
      rw [ih, feedAll_append]
      simp only [feedAll, emitAll, hemit, append_nil, append_assoc]

theorem ldiscOutput_eq (ts : TermState) (s : List UInt8) :
    ldiscOutput m f onlcr ts s = ((emitAll m f onlcr ⟨ts, none⟩ s).1.ts, (emitAll m f onlcr ⟨ts, none⟩ s).2) := by
  unfold ldiscOutput
  cases onlcr with
  | false => rw [emitAll_false]; rfl
  | true => exact outputLines_eq ts [] s

/-! ## Cuts -/

/-- After a piece that ends outside an escape sequence the machine is as at the start of a
write. -/
theorem ldiscOutput_append {s : List UInt8} (hs : EndsOutside onlcr s) (ts : TermState) (s' : List UInt8) :
    ldiscOutput m f onlcr ts (s ++ s') =
      ((ldiscOutput m f onlcr (ldiscOutput m f onlcr ts s).1 s').1,
        (ldiscOutput m f onlcr ts s).2 ++ (ldiscOutput m f onlcr (ldiscOutput m f onlcr ts s).1 s').2) := by
  have hnone : (emitAll m f onlcr ⟨ts, none⟩ s).1.parser = none := (parser_emitAll _ s).trans hs
  have hreset : ∀ t : Term, t.parser = none → (⟨t.ts, none⟩ : Term) = t := fun t h => by
    obtain ⟨ts, p⟩ := t
    obtain rfl : p = none := h
    rfl
  simp only [ldiscOutput_eq, emitAll_append, hreset _ hnone]

theorem ldiscOutputs_eq (ts : TermState) (ss : List (List UInt8)) (last : List UInt8)
    (h : ∀ s ∈ ss, EndsOutside onlcr s) :
    ldiscOutputs m f onlcr ts (ss ++ [last]) = ldiscOutput m f onlcr ts (ss.flatten ++ last) := by
  induction ss generalizing ts with
  | nil => simp [ldiscOutputs]
  | cons s ss ih =>
    rw [flatten_cons, append_assoc, ldiscOutput_append (h s mem_cons_self),
      ← ih _ fun s' hs' => h s' (mem_cons_of_mem s hs')]
    rfl

/-! ## A letter after a cut -/

/-- No byte in `esc_buf` ends the sequence. -/
def Unfinished (p : Parser) : Prop :=
  ∀ buf, p = some buf → buf.head? = some '['.toUInt8 → ∀ c ∈ buf, isFinal c = false

theorem stored_eq (buf : List UInt8) (c : UInt8) : stored buf c = buf ++ [c] ∨ stored buf c = buf := by
  unfold stored
  split
  · exact .inl rfl
  · exact .inr rfl

theorem unfinished_none : Unfinished none := fun buf hb => absurd hb.symm (Option.some_ne_none buf)

theorem Unfinished.escape {p : Parser} (hp : Unfinished p) (c : UInt8) : Unfinished (escape p c) := by
  unfold Vbe.escape
  cases p with
  | none =>
    simp only
    split
    · intro buf hb hhead
      obtain rfl := Option.some.inj hb
      simp at hhead
    · exact unfinished_none
  | some buf =>
    simp only
    split
    · next h =>
      split
      · exact unfinished_none
      · intro buf' hb hhead
        obtain rfl := Option.some.inj hb
        exact absurd hhead h.2
    · split
      · exact unfinished_none
      · next hfin =>
        intro buf' hb hhead x hx
        obtain rfl := Option.some.inj hb
        have hc : isFinal c = false := Bool.eq_false_iff.mpr fun hc => hfin ⟨hhead, hc⟩
        rcases stored_eq buf c with hs | hs
        · rw [hs] at hx hhead
          rcases mem_append.mp hx with hx | hx
          · refine hp buf rfl ?_ x hx
            cases buf with
            | nil => exact absurd hx not_mem_nil
            | cons b bs => simpa using hhead
          · rw [mem_singleton.mp hx]
            exact hc
        · rw [hs] at hx hhead
          exact hp buf rfl hhead x hx

theorem Unfinished.escapeAll {p : Parser} (hp : Unfinished p) (s : List UInt8) : Unfinished (escapeAll onlcr p s) := by
  induction s generalizing p with
  | nil => exact hp
  | cons c cs ih =>
    refine ih ?_
    split
    · exact unfinished_none
    · exact hp.escape c

theorem ofUInt8_eq {c : UInt8} {ch : Char} (h : Char.ofUInt8 c = ch) : c = ch.toUInt8 := by
  rw [← h]
  exact (UInt8.toUInt8_toUInt32 c).symm

theorem setCursor_cursorCol (ts : TermState) (row : Nat) : (setCursor m ts ts.cursorCol row).cursorCol = ts.cursorCol := by
  unfold setCursor
  split <;> rfl

/-- Neither a letter `A` nor a byte that is no letter moves the cursor to another column. -/
theorem command_cursorCol {c : UInt8} (hc : isFinal c = false ∨ c = 'A'.toUInt8) (ts : TermState) (params : List (List UInt8)) :
    (command m ts params (Char.ofUInt8 c)).1.cursorCol = ts.cursorCol := by
  have hnot : ∀ ch : Char, isFinal ch.toUInt8 = true → ch.toUInt8 ≠ 'A'.toUInt8 → Char.ofUInt8 c ≠ ch := by
    intro ch hfin hne h
    obtain rfl := ofUInt8_eq h
    rcases hc with hc | hc
    · exact Bool.noConfusion (hfin.symm.trans hc)
    · exact hne hc
  unfold command
  split <;> first
    | exact absurd ‹_› (hnot _ (by decide) (by decide))
    | exact setCursor_cursorCol ts _
    | rfl

theorem decPrivate_cursorCol {c : UInt8} (hc : isFinal c = false ∨ c = 'A'.toUInt8) (ts : TermState) (code : Nat) :
    (decPrivate m ts code (Char.ofUInt8 c)).1.cursorCol = ts.cursorCol := by
  have hnot : ∀ ch : Char, isFinal ch.toUInt8 = true → ch.toUInt8 ≠ 'A'.toUInt8 → Char.ofUInt8 c ≠ ch := by
    intro ch hfin hne h
    obtain rfl := ofUInt8_eq h
    rcases hc with hc | hc
    · exact Bool.noConfusion (hfin.symm.trans hc)
    · exact hne hc
  unfold decPrivate
  split
  · exact absurd ‹_› (hnot _ (by decide) (by decide))
  · exact absurd ‹_› (hnot _ (by decide) (by decide))
  · rfl

theorem handleAnsiSequence_cursorCol {seq : List UInt8} (h : ∀ c ∈ seq, isFinal c = false ∨ c = 'A'.toUInt8)
    (ts : TermState) : (handleAnsiSequence m ts seq).1.cursorCol = ts.cursorCol := by
  unfold handleAnsiSequence request
  simp only
  cases hl : (seq.takeWhile (· ≠ 0)).getLast? with
  | none => rfl
  | some cmd =>
    have hcmd := h cmd ((takeWhile_sublist _).mem (mem_of_getLast? hl))
    simp only
    cases (seq.takeWhile (· ≠ 0)).dropLast with
    | nil => exact command_cursorCol hcmd ts _
    | cons c body =>
      by_cases hq : c = '?'.toUInt8
      · simp only [hq, if_true]
        exact decPrivate_cursorCol hcmd ts _
      · simp only [hq, if_false]
        exact command_cursorCol hcmd ts _

/-- Inside a sequence the letter is taken for the sequence's. -/
theorem feed_letter_inside {t : Term} (ht : t.parser ≠ none) (hu : Unfinished t.parser) :
    (feed m f t 'A'.toUInt8).1.ts.cursorCol = t.ts.cursorCol := by
  obtain ⟨ts, p⟩ := t
  cases p with
  | none => exact absurd rfl ht
  | some buf =>
    unfold feed
    simp only
    split
    · rfl
    · split
      · next h =>
        refine handleAnsiSequence_cursorCol (fun c hc => ?_) ts
        have hmem : c ∈ stored buf 'A'.toUInt8 := mem_of_mem_tail hc
        have hhead := h.1
        rcases stored_eq buf 'A'.toUInt8 with hs | hs
        · rw [hs] at hmem hhead
          rcases mem_append.mp hmem with hx | hx
          · left
            refine hu buf rfl ?_ c hx
            cases buf with
            | nil => exact absurd hx not_mem_nil
            | cons b bs => simpa using hhead
          · exact .inr (mem_singleton.mp hx)
        · rw [hs] at hmem hhead
          exact .inl (hu buf rfl hhead c hmem)
      · rfl

theorem scrollIn_cursorCol (ts : TermState) : (scrollIn m ts).1.cursorCol = ts.cursorCol := by
  unfold scrollIn
  by_cases h : scrollBottom m ts < ts.cursorRow
  · simp [h]
  · by_cases h' : m.maxRows ≤ ts.cursorRow <;> simp [h, h']

theorem wrapColumn_cursorCol (ts : TermState) :
    (wrapColumn m ts).cursorCol = if m.maxCols ≤ ts.cursorCol then 0 else ts.cursorCol := by
  unfold wrapColumn
  split <;> rfl

/-- Outside a sequence the letter is printed, and the cursor moves. -/
theorem feed_letter_outside (hm : 2 ≤ m.maxCols) (ts : TermState) :
    (feed m f ⟨ts, none⟩ 'A'.toUInt8).1.ts.cursorCol ≠ ts.cursorCol := by
  have hput : (feed m f ⟨ts, none⟩ 'A'.toUInt8).1.ts = (settle m { ts with cursorCol := u32 (ts.cursorCol + 1) }).1 := rfl
  rw [hput, settle, scrollIn_cursorCol, wrapColumn_cursorCol]
  show (if m.maxCols ≤ u32 (ts.cursorCol + 1) then 0 else u32 (ts.cursorCol + 1)) ≠ ts.cursorCol
  have hstep : u32 (ts.cursorCol + 1) ≠ ts.cursorCol := by
    unfold u32
    omega
  split
  · next hwrap =>
    intro hzero
    rw [← hzero] at hwrap
    have hone : u32 (0 + 1) = 1 := rfl
    omega
  · exact hstep

/-- Pieces that end outside an escape sequence, but for the last, give the stores and the state
that one write of all gives. A piece that ends inside one does not: whatever the state, the
letter after it moves the cursor only when it is written by itself. -/
theorem chunks_equal (m : Mode) (f : Font) (onlcr : Bool) (hm : 2 ≤ m.maxCols) :
    (∀ ts ss last, (∀ s ∈ ss, EndsOutside onlcr s) →
      ldiscOutputs m f onlcr ts (ss ++ [last]) = ldiscOutput m f onlcr ts (ss.flatten ++ last)) ∧
    ∀ s, ¬ EndsOutside onlcr s → ∀ ts,
      (ldiscOutputs m f onlcr ts [s, ['A'.toUInt8]]).1.cursorCol ≠
        (ldiscOutput m f onlcr ts (s ++ ['A'.toUInt8])).1.cursorCol := by
  refine ⟨fun ts ss last h => ldiscOutputs_eq ts ss last h, fun s hs ts => ?_⟩
  have hletter : ∀ t : Term, emit m f onlcr t 'A'.toUInt8 = feed m f t 'A'.toUInt8 := fun t =>
    if_neg fun h => absurd h.2 (by decide)
  have hjoined : (ldiscOutput m f onlcr ts (s ++ ['A'.toUInt8])).1 =
      (feed m f (emitAll m f onlcr ⟨ts, none⟩ s).1 'A'.toUInt8).1.ts := by
    rw [ldiscOutput_eq, emitAll_append]
    simp only [emitAll, hletter]
  have hapart : (ldiscOutputs m f onlcr ts [s, ['A'.toUInt8]]).1 =
      (feed m f ⟨(emitAll m f onlcr ⟨ts, none⟩ s).1.ts, none⟩ 'A'.toUInt8).1.ts := by
    simp only [ldiscOutputs, ldiscOutput_eq, emitAll, hletter]
  have hp : (emitAll m f onlcr ⟨ts, none⟩ s).1.parser = escapeAll onlcr none s := parser_emitAll ⟨ts, none⟩ s
  have hinside : (feed m f (emitAll m f onlcr ⟨ts, none⟩ s).1 'A'.toUInt8).1.ts.cursorCol =
      (emitAll m f onlcr ⟨ts, none⟩ s).1.ts.cursorCol :=
    feed_letter_inside (hp ▸ hs) (hp ▸ unfinished_none.escapeAll s)
  rw [hjoined, hapart, hinside]
  exact feed_letter_outside hm _

/-- A colour, a line and a cursor movement, cut between them. -/
theorem chunks_equal_vga :
    ldiscOutputs vga blankFont true freshTerm ([bytes "[31mred
", bytes "on[5C"] ++ [bytes "!"]) =
      ldiscOutput vga blankFont true freshTerm ([bytes "[31mred
", bytes "on[5C"].flatten ++ bytes "!") :=
  (chunks_equal vga blankFont true (by decide)).1 _ _ _ fun s hs => by
    simp only [List.mem_cons, List.not_mem_nil, or_false] at hs
    rcases hs with rfl | rfl
    · show escapeAll true none (bytes "\x1b[31mred\n") = none
      decide
    · show escapeAll true none (bytes "on\x1b[5C") = none
      decide

/-- The sequence that colours what follows red, cut before its last byte. -/
theorem not_chunks_equal :
    (ldiscOutputs vga blankFont true freshTerm [bytes "[31", bytes "m"]).1 ≠
      (ldiscOutput vga blankFont true freshTerm (bytes "[31m")).1 := by
  decide

end Serotonin.Vbe
