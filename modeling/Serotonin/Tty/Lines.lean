import Mathlib.Data.List.Forall2
import Serotonin.Tty.Canonical

/-! The ends of lines and of the input. A newline is lost when the line is full or the ring is
short of room, and an end of the input on an empty line is lost unless a reader waits for it at
an empty ring. In runs without these every line has its newline, and each end of the input ends
one read. -/

namespace Serotonin.Tty

open List
open Ipc (ptyRingSize)

variable {k k' : Kernel} {q : Nat}

/-! ## Interrupts -/

theorem edited_ptySignalled (k : Kernel) (q : Nat) : Edited k (ptySignalled k q) q [] := by
  unfold ptySignalled
  split
  · exact edited_setLine k q fun _ => []
  · next fg _ =>
    have hpty : (taskIpcSignalRaise k fg exitSigint).pty = k.pty := by
      unfold taskIpcSignalRaise
      split
      · rfl
      · rw [pty_taskUnblock, pty_modifyTask]
    have hline := edited_setLine (taskIpcSignalRaise k fg exitSigint) q fun _ => []
    obtain ⟨⟨ha, hv, hm⟩, hr, hw, hl⟩ := hline
    rw [hpty] at ha hv hm hr hw
    exact ⟨⟨ha, hv, hm⟩, hr, hw, hl⟩

theorem RingsOk.ptySignalled (h : RingsOk k) (q : Nat) : RingsOk (ptySignalled k q) := by
  unfold Tty.ptySignalled
  split
  · exact h.setLine q fun _ => []
  · exact (h.taskIpcSignalRaise _ _).setLine q fun _ => []

/-- What holds when some readers have been woken. -/
structure WokenAll (k k' : Kernel) (q : Nat) (results : List (List UInt8)) : Prop where
  rings : RingsOk k'
  setup : SameSetup k k' q
  line : (k'.pty q).lineBuf = (k.pty q).lineBuf
  waiters : ∀ w ∈ (k'.pty q).inputWaiters, w ∈ (k.pty q).inputWaiters
  stream : results.flatten ++ (k'.pty q).inputRing.contents = (k.pty q).inputRing.contents

theorem wokenAll (ws : List InputWaiter) : ∀ {k : Kernel}, RingsOk k →
    WokenAll k (ws.foldl (fun k _ => ptyInputWakeOne k q) k) q (wakeResults k q ws.length) := by
  induction ws with
  | nil =>
    intro k hr
    exact ⟨hr, .refl k q, rfl, fun _ hw => hw, rfl⟩
  | cons w ws ih =>
    intro k hr
    obtain ⟨hset, hline⟩ := sameSetup_ptyInputWakeOne k q
    obtain ⟨hdone, hrest, hwait⟩ := flushed_ptyInputWakeOne hr q
    obtain ⟨hr', hset', hline', hwait', hstream⟩ := ih (hr.ptyInputWakeOne q)
    refine ⟨hr', hset.trans hset', hline'.trans hline, fun w hw => ?_, ?_⟩
    · have hmem := hwait' w hw
      rw [hwait] at hmem
      exact mem_of_mem_tail hmem
    · show (completed k (ptyInputWakeOne k q) q ++ wakeResults (ptyInputWakeOne k q) q ws.length).flatten ++ _ = _
      rw [flatten_append, append_assoc, foldl_cons, hstream, hdone, hrest]
      unfold firstRoom
      cases (k.pty q).inputWaiters.head? with
      | none => simp
      | some w => simp

/-- An interrupt drops the line, and leaves in order what readers are given. -/
theorem interrupted (hr : RingsOk k) {c : UInt8} (hintr : (k.pty q).attr.isIntr c = true)
    (h : ptyLdiscInput k q c = ptyInputWakeAll (ptySignalled k q) q) :
    RingsOk (ptyLdiscInput k q c) ∧ SameSetup k (ptyLdiscInput k q c) q ∧
      ((ptyLdiscInput k q c).pty q).lineBuf = [] ∧
      (∀ w ∈ ((ptyLdiscInput k q c).pty q).inputWaiters, w ∈ (k.pty q).inputWaiters) ∧
      (∀ bs ∈ typedResults k q c, bs ≠ []) ∧
      (typedResults k q c).flatten ++ ((ptyLdiscInput k q c).pty q).inputRing.contents = (k.pty q).inputRing.contents := by
  have hsig := edited_ptySignalled k q
  obtain ⟨hr', hset, hline, hwait, hstream⟩ := wokenAll (q := q) ((ptySignalled k q).pty q).inputWaiters (hr.ptySignalled q)
  rw [h]
  unfold typedResults
  rw [if_pos hintr]
  refine ⟨hr', hsig.setup.trans hset, hline.trans hsig.line, fun w hw => hsig.waiters ▸ hwait w hw, fun bs hbs => ?_, ?_⟩
  · exact of_decide_eq_true (mem_filter.mp hbs).2
  · rw [flatten_filter_ne_nil, ← hsig.ring]
    exact hstream

/-! ## The ends of lines -/

/-- Does the character end a line with a newline? -/
def Attr.endsLine (a : Attr) (c : UInt8) : Bool :=
  !a.isIntr c && !a.isEof c && !a.isErase c && c != a.ccVkill && isNewline c

/-- A line that was sent: its characters, as many as the line buffer took, and whether it was
ended by a newline. -/
structure Line where
  chars : List UInt8
  ended : Bool

def observeLines (q : Nat) (sent : List Line) (k : Kernel) (c : UInt8) : List Line :=
  if (k.pty q).attr.endsLine c then sent ++ [⟨(k.pty q).lineBuf, true⟩]
  else if !(k.pty q).attr.isIntr c && (k.pty q).attr.isEof c then sent ++ [⟨(k.pty q).lineBuf, false⟩]
  else sent

/-- What became readable of a line: some of its characters from the first one on, and behind
them its newline. -/
def Line.Readable (l : Line) (part : List UInt8) : Prop :=
  ∃ accepted, accepted <+: l.chars ∧ part = accepted ++ if l.ended then [10] else []

/-- Every newline that was typed is behind the characters of its line. -/
def Terminated (q : Nat) (s : Console (List Line)) : Prop :=
  ∃ parts, List.Forall₂ Line.Readable s.note parts ∧
    s.results.flatten ++ (s.kernel.pty q).inputRing.contents = parts.flatten

structure LinesStart (q : Nat) (s : Console (List Line)) : Prop where
  canonical : Canonical s.kernel q
  results : s.results = []
  note : s.note = []

/-- A newline finds room for itself in the line, and room for the line in the ring. -/
def LinesGuard (q : Nat) (s : Console (List Line)) : ConsoleOp → Prop
  | .typed c => (s.kernel.pty q).attr.endsLine c = true → (s.kernel.pty q).lineBuf.length < ptyLineSize ∧
      (s.kernel.pty q).inputRing.dataLen + (s.kernel.pty q).lineBuf.length < ptyRingSize
  | .read .. => True

structure LinesOk (q : Nat) (s : Console (List Line)) : Prop where
  rings : RingsOk s.kernel
  icanon : (s.kernel.pty q).attr.icanon = true
  terminated : Terminated q s

variable {s s' : Console (List Line)}

/-- No line is sent. -/
theorem LinesOk.same (h : LinesOk q s) {k' : Kernel} {results : List (List UInt8)} (hr : RingsOk k')
    (hset : SameSetup s.kernel k' q) (hstream : results.flatten ++ (k'.pty q).inputRing.contents =
      (s.kernel.pty q).inputRing.contents) : LinesOk q ⟨k', s.results ++ results, s.note⟩ := by
  obtain ⟨parts, hparts, heq⟩ := h.terminated
  refine ⟨hr, by rw [hset.attr]; exact h.icanon, parts, hparts, ?_⟩
  rw [flatten_append, append_assoc, hstream, heq]

theorem LinesOk.sent (h : LinesOk q s) {k' : Kernel} {added : List UInt8} {l : Line} (hr : RingsOk k')
    (hf : Flushed s.kernel k' q added) (hl : l.Readable added) :
    LinesOk q ⟨k', s.results ++ completed s.kernel k' q, s.note ++ [l]⟩ := by
  obtain ⟨parts, hparts, heq⟩ := h.terminated
  refine ⟨hr, by rw [hf.setup.attr]; exact h.icanon, parts ++ [added], ?_, ?_⟩
  · exact rel_append hparts (.cons hl .nil)
  · rw [flatten_append, flatten_append, flatten_singleton, append_assoc, hf.stream,
      ← append_assoc, heq]

theorem LinesOk.typed (h : LinesOk q s) {c : UInt8} (hg : LinesGuard q s (.typed c))
    (hs : s.next q (observeLines q) (.typed c) = some s') : LinesOk q s' := by
  have hr := h.rings.ptyLdiscInput q c
  have hs := Option.some.inj hs
  subst hs
  unfold LinesGuard at hg
  unfold observeLines
  cases Tty.typed h.rings h.icanon c with
  | interrupt hintr heq =>
    obtain ⟨hr', hset, _, _, _, hstream⟩ := interrupted h.rings hintr heq
    simp only [Attr.endsLine, hintr, Bool.not_true, Bool.false_and, Bool.false_eq_true, if_false]
    exact h.same hr' hset hstream
  | eof hintr heof hf =>
    rw [typedResults_of_not_intr hintr]
    simp only [Attr.endsLine, hintr, heof, Bool.not_true, Bool.not_false, Bool.true_and, Bool.false_and, Bool.false_eq_true,
      if_false, if_true]
    exact h.sent hr hf ⟨_, take_prefix _ _, (append_nil _).symm⟩
  | erase hintr heof herase he =>
    rw [typedResults_of_not_intr hintr, he.completed]
    simp only [Attr.endsLine, hintr, heof, herase, Bool.not_true, Bool.not_false, Bool.true_and, Bool.false_and,
      Bool.false_eq_true, if_false]
    exact h.same hr he.setup (by rw [he.ring]; rfl)
  | kill hintr heof herase hkill he =>
    rw [typedResults_of_not_intr hintr, he.completed]
    simp only [Attr.endsLine, hintr, heof, herase, bne_eq_false_iff_eq.mpr hkill, Bool.not_false, Bool.true_and, Bool.false_and,
      Bool.false_eq_true, if_false]
    exact h.same hr he.setup (by rw [he.ring]; rfl)
  | newline hintr heof herase hkill hnl hf =>
    have hends : (s.kernel.pty q).attr.endsLine c = true := by
      simp [Attr.endsLine, hintr, heof, herase, bne_iff_ne.mpr hkill, hnl]
    obtain ⟨hlen, hroom⟩ := hg hends
    rw [typedResults_of_not_intr hintr, if_pos hends]
    rw [lineAppend, if_pos hlen, fitting_of_le (by rw [length_append]; exact hroom)] at hf
    exact h.sent hr hf ⟨_, prefix_refl _, rfl⟩
  | plain hintr heof herase hkill hnl he =>
    rw [typedResults_of_not_intr hintr, he.completed]
    simp only [Attr.endsLine, hintr, heof, hnl, Bool.not_false, Bool.true_and, Bool.and_false, Bool.false_eq_true, if_false]
    exact h.same hr he.setup (by rw [he.ring]; rfl)

theorem LinesOk.read (h : LinesOk q s) {t : Tid} {buf size : Nat} {noMem : Bool}
    (hs : s.next q (observeLines q) (.read t buf size noMem) = some s') : LinesOk q s' := by
  obtain ⟨hnote, hr, res, hres, hread⟩ := Console.read_cases h.rings hs
  have hsame := h.same hr hread.kept.1 (hread.stream h.rings)
  rw [← hres, ← hnote] at hsame
  exact hsame

theorem LinesStart.linesOk (h : LinesStart q s) : LinesOk q s := by
  have hc := h.canonical
  have hempty := CircBuf.contents_eq_nil hc.empty
  refine ⟨hc.inUse.ringsOk, hc.icanon, [], ?_, ?_⟩
  · rw [h.note]
    exact .nil
  · rw [h.results, hempty]
    rfl

def LinesRun (q : Nat) : Console (List Line) → Prop :=
  Run.Reachable (LinesStart q) fun s s' => ∃ op, LinesGuard q s op ∧ s.next q (observeLines q) op = some s'

def LinesReachable (q : Nat) : Console (List Line) → Prop :=
  Run.Reachable (LinesStart q) fun s s' => ∃ op, s.next q (observeLines q) op = some s'

/-- With room in the line and in the ring for each newline, no line loses its end. -/
theorem lines_terminated {q : Nat} {s : Console (List Line)} (h : LinesRun q s) : Terminated q s := by
  refine (h.invariant (LinesOk q) (fun s hs => hs.linesOk) fun s s' hi hs => ?_).terminated
  obtain ⟨op, hg, hs⟩ := hs
  cases op with
  | typed c => exact hi.typed hg hs
  | read t buf size noMem => exact hi.read hs

theorem LinesRun.next (h : LinesRun q s) (op : ConsoleOp) (hg : LinesGuard q s op)
    (hs : s.next q (observeLines q) op = some s') : LinesRun q s' := h.step ⟨op, hg, hs⟩

/-- Two lines are typed, of which a reader that waits gets the first. -/
theorem lines_terminated_two : ∃ s, LinesRun 0 s ∧ s.results = [[97, 10]] ∧
    s.note = [⟨[97], true⟩, ⟨[], true⟩] ∧ Terminated 0 s := by
  have hstart : LinesRun 0 (.fresh lineTerminal []) := .start ⟨lineTerminal_canonical 0, rfl, rfl⟩
  have hread := hstart.next (.read 2 0x400000 9 false) trivial rfl
  have htyped := hread.next (.typed 97) (fun he => absurd he (by decide)) rfl
  have hfirst := htyped.next (.typed 13) (fun _ => ⟨by decide, by decide⟩) rfl
  have hsecond := hfirst.next (.typed 10) (fun _ => ⟨by decide, by decide⟩) rfl
  exact ⟨_, hsecond, by decide, rfl, lines_terminated hsecond⟩

/-! ## A line that is full -/

/-- One line is typed, and nothing was sent yet. -/
structure OneLine (s : Console (List Line)) (line : List UInt8) : Prop where
  reachable : LinesReachable 0 s
  rings : RingsOk s.kernel
  attr : (s.kernel.pty 0).attr = (lineTerminal.pty 0).attr
  line : (s.kernel.pty 0).lineBuf = line
  waiters : (s.kernel.pty 0).inputWaiters = []
  ring : (s.kernel.pty 0).inputRing.contents = []
  results : s.results = []
  note : s.note = []

theorem lineTerminal_plain : (lineTerminal.pty 0).attr.isIntr 97 = false ∧ (lineTerminal.pty 0).attr.isEof 97 = false ∧
    (lineTerminal.pty 0).attr.isErase 97 = false ∧ 97 ≠ (lineTerminal.pty 0).attr.ccVkill := by decide

theorem lineTerminal_newline : (lineTerminal.pty 0).attr.isIntr 10 = false ∧ (lineTerminal.pty 0).attr.isEof 10 = false ∧
    (lineTerminal.pty 0).attr.isErase 10 = false ∧ 10 ≠ (lineTerminal.pty 0).attr.ccVkill := by decide

theorem OneLine.more {line : List UInt8} (h : OneLine s line) (hlen : line.length < ptyLineSize) :
    ∃ s', OneLine s' (line ++ [97]) := by
  obtain ⟨hintr, heof, herase, hkill⟩ := lineTerminal_plain
  rw [← h.attr] at hintr heof herase hkill
  refine ⟨⟨ptyLdiscInput s.kernel 0 97, s.results ++ typedResults s.kernel 0 97, observeLines 0 s.note s.kernel 97⟩, ?_⟩
  have hstep := h.reachable.step ⟨.typed 97, rfl⟩
  have hnote : observeLines 0 s.note s.kernel 97 = [] := by
    simp [observeLines, Attr.endsLine, heof, h.note, isNewline]
  cases typed h.rings (by rw [h.attr]; rfl) 97 with
  | interrupt hi => rw [hintr] at hi; cases hi
  | eof _ he => rw [heof] at he; cases he
  | erase _ _ he => rw [herase] at he; cases he
  | kill _ _ _ hk => exact absurd hk hkill
  | newline _ _ _ _ hnl => exact absurd hnl (by decide)
  | plain _ _ _ _ _ he =>
    refine ⟨hstep, h.rings.ptyLdiscInput 0 97, he.setup.attr.trans h.attr, ?_, he.waiters.trans h.waiters, ?_, ?_, hnote⟩
    · rw [he.line, h.line, lineAppend, if_pos hlen]
    · rw [he.ring]
      exact h.ring
    · rw [typedResults_of_not_intr hintr, he.completed, h.results, append_nil]

theorem oneLine_replicate (n : Nat) (hn : n ≤ ptyLineSize) : ∃ s, OneLine s (List.replicate n 97) := by
  induction n with
  | zero =>
    have hc := lineTerminal_canonical 0
    exact ⟨.fresh lineTerminal [], .start ⟨hc, rfl, rfl⟩, hc.inUse.ringsOk, rfl, rfl, rfl, rfl, rfl, rfl⟩
  | succ n ih =>
    obtain ⟨s, hs⟩ := ih (Nat.le_of_succ_le hn)
    rw [replicate_succ']
    exact hs.more (by rw [length_replicate]; exact hn)

/-- A line of 4096 characters is ended: its newline is nowhere. -/
theorem not_lines_terminated : ¬∀ s, LinesReachable 0 s → Terminated 0 s := by
  intro hall
  obtain ⟨s, h⟩ := oneLine_replicate ptyLineSize (Nat.le_refl _)
  obtain ⟨hintr, heof, herase, hkill⟩ := lineTerminal_newline
  rw [← h.attr] at hintr heof herase hkill
  have hends : (s.kernel.pty 0).attr.endsLine 10 = true := by
    simp [Attr.endsLine, hintr, heof, herase, bne_iff_ne.mpr hkill, isNewline]
  obtain ⟨parts, hparts, heq⟩ := hall _ (h.reachable.step ⟨.typed 10, rfl⟩)
  unfold observeLines at hparts
  rw [if_pos hends, h.note, h.line] at hparts
  obtain ⟨part, rest, ⟨accepted, _, hpart⟩, hrest, rfl⟩ := List.forall₂_cons_left_iff.mp hparts
  cases hrest
  have hnewline : (10 : UInt8) ∈ [part].flatten := by simp [hpart]
  rw [← heq] at hnewline
  cases typed h.rings (by rw [h.attr]; rfl) 10 with
  | interrupt hi => rw [hintr] at hi; cases hi
  | eof _ he => rw [heof] at he; cases he
  | erase _ _ he => rw [herase] at he; cases he
  | kill _ _ _ hk => exact absurd hk hkill
  | plain _ _ _ _ hnl => exact absurd hnl (by decide)
  | newline _ _ _ _ _ hf =>
    have hfull : ¬(List.replicate ptyLineSize (97 : UInt8)).length < ptyLineSize := by simp
    have hstream := hf.stream
    rw [h.line, lineAppend, if_neg hfull, h.ring, List.nil_append] at hstream
    rw [typedResults_of_not_intr hintr, h.results, List.nil_append, hstream] at hnewline
    have hmem := List.mem_of_mem_take hnewline
    exact absurd (List.eq_of_mem_replicate hmem) (by decide)

end Serotonin.Tty
