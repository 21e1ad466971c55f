import Serotonin.Tty.Lines

/-! The end of the input. The ring has bytes only, so an end-of-file character on an empty line
is seen by a reader that waits at an empty ring and by none else. -/

namespace Serotonin.Tty

open List
open Ipc (ptyRingSize)

variable {k k' : Kernel} {q : Nat}

/-- What is sent to the readers: a byte, or the end of the input. -/
inductive Item where
  | byte (c : UInt8)
  | eof
deriving DecidableEq

def Item.byte? : Item → Option UInt8
  | .byte c => some c
  | .eof => none

/-- Reads take the items in order: a read with bytes takes these, and one that returns 0 takes
an end of the input. What is left is `rest`. -/
inductive Reads (items : List Item) : List (List UInt8) → List Item → Prop where
  | nil : Reads items [] items
  | data {results : List (List UInt8)} {bytes : List UInt8} {rest : List Item} : bytes ≠ [] →
      Reads items results (bytes.map .byte ++ rest) → Reads items (results ++ [bytes]) rest
  | eof {results : List (List UInt8)} {rest : List Item} :
      Reads items results (.eof :: rest) → Reads items (results ++ [[]]) rest

theorem Reads.more {items rest : List Item} {results : List (List UInt8)} (h : Reads items results rest)
    (added : List Item) : Reads (items ++ added) results (rest ++ added) := by
  induction h with
  | nil => exact .nil
  | data hne _ ih => exact .data hne (by rw [← append_assoc]; exact ih)
  | eof _ ih => exact .eof ih

/-- Several reads with bytes. -/
theorem Reads.chunks {items rest : List Item} (chunks : List (List UInt8)) : ∀ {results : List (List UInt8)},
    (∀ bytes ∈ chunks, bytes ≠ []) → Reads items results (chunks.flatten.map .byte ++ rest) →
      Reads items (results ++ chunks) rest := by
  induction chunks with
  | nil =>
    intro results _ h
    rw [append_nil]
    exact h
  | cons bytes chunks ih =>
    intro results hne h
    rw [flatten_cons, map_append, append_assoc] at h
    have hfirst := Reads.data (hne bytes mem_cons_self) h
    have hrest := ih (fun bytes hb => hne bytes (mem_cons_of_mem _ hb)) hfirst
    rw [append_assoc] at hrest
    exact hrest

/-- What a character sends: of a line that is ended by a newline as much as the ring takes, and
of one that the end of the input ends all characters, or the end itself if there are none. -/
def observeItems (q : Nat) (sent : List Item) (k : Kernel) (c : UInt8) : List Item :=
  let x := k.pty q
  if x.attr.endsLine c then sent ++ (fitting k q (lineAppend x.lineBuf 10)).map .byte
  else if !x.attr.isIntr c && x.attr.isEof c then
    sent ++ if x.lineBuf = [] then [.eof] else x.lineBuf.map .byte
  else sent

/-- The reads took what was sent in order, the ring has the bytes of the rest, and no reader
waits that should have seen the end of the input. -/
def EofSeen (q : Nat) (s : Console (List Item)) : Prop :=
  ∃ rest, Reads s.note s.results rest ∧ rest.filterMap Item.byte? = (s.kernel.pty q).inputRing.contents ∧
    ((s.kernel.pty q).inputWaiters ≠ [] → rest.head? ≠ some .eof)

/-- Somebody can type, and nobody reads yet. -/
structure EofStart (q : Nat) (s : Console (List Item)) : Prop where
  canonical : Canonical s.kernel q
  typist : (s.kernel.pty q).kernelVty = true ∨ 0 < (s.kernel.pty q).masterRefcount
  waiters : (s.kernel.pty q).inputWaiters = []
  results : s.results = []
  note : s.note = []

/-- The end of the input on an empty line finds a reader that waits at an empty ring, the one on
another line finds room in the ring for the line, and a read has a buffer. -/
def EofGuard (q : Nat) (s : Console (List Item)) : ConsoleOp → Prop
  | .typed c =>
    let x := s.kernel.pty q
    x.attr.isIntr c = false → x.attr.isEof c = true →
      if x.lineBuf = [] then x.inputWaiters ≠ [] ∧ x.inputRing.dataLen = 0
      else x.inputRing.dataLen + x.lineBuf.length ≤ ptyRingSize
  | .read _ buf _ _ => buf ≠ 0

structure EofOk (q : Nat) (s : Console (List Item)) : Prop where
  rings : RingsOk s.kernel
  icanon : (s.kernel.pty q).attr.icanon = true
  typist : (s.kernel.pty q).kernelVty = true ∨ 0 < (s.kernel.pty q).masterRefcount
  room : ∀ w ∈ (s.kernel.pty q).inputWaiters, 0 < w.room
  reads : Reads s.note s.results ((s.kernel.pty q).inputRing.contents.map .byte)

theorem EofOk.seen {s : Console (List Item)} (h : EofOk q s) : EofSeen q s := by
  refine ⟨_, h.reads, ?_, fun _ => ?_⟩
  · rw [filterMap_map]
    exact filterMap_some
  · cases (s.kernel.pty q).inputRing.contents <;> simp

variable {s s' : Console (List Item)}

/-- Nothing is sent, and reads that end are given bytes. -/
theorem EofOk.same (h : EofOk q s) {k' : Kernel} {results : List (List UInt8)} (hr : RingsOk k')
    (hset : SameSetup s.kernel k' q) (hroom : ∀ w ∈ (k'.pty q).inputWaiters, 0 < w.room)
    (hne : ∀ bytes ∈ results, bytes ≠ [])
    (hstream : results.flatten ++ (k'.pty q).inputRing.contents = (s.kernel.pty q).inputRing.contents) :
    EofOk q ⟨k', s.results ++ results, s.note⟩ := by
  refine ⟨hr, by rw [hset.attr]; exact h.icanon, by rw [hset.vty, hset.master]; exact h.typist, hroom,
    Reads.chunks results hne ?_⟩
  rw [← map_append, hstream]
  exact h.reads

/-- Bytes are sent, and the first reader finds some. -/
theorem EofOk.sent (h : EofOk q s) {k' : Kernel} {added : List UInt8} (hr : RingsOk k')
    (hf : Flushed s.kernel k' q added) (hne : (s.kernel.pty q).inputRing.contents ++ added ≠ []) :
    EofOk q ⟨k', s.results ++ completed s.kernel k' q, s.note ++ added.map .byte⟩ := by
  refine ⟨hr, by rw [hf.setup.attr]; exact h.icanon, by rw [hf.setup.vty, hf.setup.master]; exact h.typist,
    fun w hw => ?_, Reads.chunks _ (fun bytes hb => ?_) ?_⟩
  · rw [hf.waiters] at hw
    exact h.room w (mem_of_mem_tail hw)
  · rw [hf.completed, Option.mem_toList, Option.map_eq_some_iff] at hb
    obtain ⟨w, hw, rfl⟩ := hb
    have hroom := h.room w (mem_of_mem_head? hw)
    intro hnil
    rcases take_eq_nil_iff.mp hnil with hz | hz
    · omega
    · exact hne hz
  · rw [← map_append, hf.stream, map_append]
    exact h.reads.more _

/-- The end of the input ends the read that waits. -/
theorem EofOk.ended (h : EofOk q s) {k' : Kernel} (hr : RingsOk k') (hf : Flushed s.kernel k' q [])
    (hw : (s.kernel.pty q).inputWaiters ≠ []) (hempty : (s.kernel.pty q).inputRing.dataLen = 0) :
    EofOk q ⟨k', s.results ++ completed s.kernel k' q, s.note ++ [.eof]⟩ := by
  have hnil := CircBuf.contents_eq_nil hempty
  obtain ⟨w, ws, hq⟩ := exists_cons_of_ne_nil hw
  have hdone := hf.completed
  have hrest := hf.contents
  rw [hnil, hq] at hdone
  rw [hnil, nil_append, drop_nil] at hrest
  have hreads := h.reads.more [.eof]
  rw [hnil] at hreads
  refine ⟨hr, by rw [hf.setup.attr]; exact h.icanon, by rw [hf.setup.vty, hf.setup.master]; exact h.typist,
    fun w hw => ?_, ?_⟩
  · rw [hf.waiters] at hw
    exact h.room w (mem_of_mem_tail hw)
  · show Reads _ (s.results ++ completed s.kernel k' q) ((k'.pty q).inputRing.contents.map .byte)
    rw [hdone, hrest]
    simp only [List.head?_cons, Option.map_some, append_nil, take_nil, Option.toList_some]
    exact .eof hreads

theorem fitting_ne_nil {line : List UInt8} (hline : line ≠ []) :
    (k.pty q).inputRing.contents ++ fitting k q line ≠ [] := by
  intro hnil
  obtain ⟨hc, hf⟩ := append_eq_nil_iff.mp hnil
  have hlen : (k.pty q).inputRing.dataLen = 0 := by
    rw [← CircBuf.contents_length, hc]
    rfl
  unfold fitting at hf
  rw [hlen] at hf
  rcases take_eq_nil_iff.mp hf with hz | hz
  · exact absurd hz (by simp [ptyRingSize])
  · exact hline hz

theorem lineAppend_ne_nil (line : List UInt8) (c : UInt8) : lineAppend line c ≠ [] := by
  unfold lineAppend
  split
  · simp
  · next hfull =>
    intro hnil
    rw [hnil] at hfull
    exact hfull (by simp [ptyLineSize])

theorem EofOk.edited (h : EofOk q s) {k' : Kernel} {line : List UInt8} (hr : RingsOk k')
    (he : Edited s.kernel k' q line) : EofOk q ⟨k', s.results ++ [], s.note⟩ :=
  h.same hr he.setup (fun w hw => h.room w (he.waiters ▸ hw)) (by simp) (by rw [he.ring]; rfl)

theorem EofOk.typed (h : EofOk q s) {c : UInt8} (hg : EofGuard q s (.typed c))
    (hs : s.next q (observeItems q) (.typed c) = some s') : EofOk q s' := by
  have hr := h.rings.ptyLdiscInput q c
  have hs := Option.some.inj hs
  subst hs
  unfold EofGuard at hg
  unfold observeItems
  cases Tty.typed h.rings h.icanon c with
  | interrupt hintr heq =>
    obtain ⟨hr', hset, _, hwait, hne, hstream⟩ := interrupted h.rings hintr heq
    simp only [Attr.endsLine, hintr, Bool.not_true, Bool.false_and, Bool.false_eq_true, if_false]
    exact h.same hr' hset (fun w hw => h.room w (hwait w hw)) hne hstream
  | eof hintr heof hf =>
    have hroom := hg hintr heof
    rw [typedResults_of_not_intr hintr]
    simp only [Attr.endsLine, hintr, heof, Bool.not_true, Bool.not_false, Bool.true_and, Bool.false_and, Bool.false_eq_true,
      if_false, if_true]
    by_cases hline : (s.kernel.pty q).lineBuf = []
    · rw [if_pos hline] at hroom ⊢
      rw [hline] at hf
      exact h.ended hr (by rw [fitting, take_nil] at hf; exact hf) hroom.1 hroom.2
    · rw [if_neg hline] at hroom ⊢
      have hne := fitting_ne_nil (k := s.kernel) (q := q) hline
      rw [fitting_of_le hroom] at hf hne
      exact h.sent hr hf hne
  | erase hintr heof herase he =>
    rw [typedResults_of_not_intr hintr, he.completed]
    simp only [Attr.endsLine, hintr, heof, herase, Bool.not_true, Bool.not_false, Bool.true_and, Bool.false_and,
      Bool.false_eq_true, if_false]
    exact h.edited hr he
  | kill hintr heof herase hkill he =>
    rw [typedResults_of_not_intr hintr, he.completed]
    simp only [Attr.endsLine, hintr, heof, herase, bne_eq_false_iff_eq.mpr hkill, Bool.not_false, Bool.true_and, Bool.false_and,
      Bool.false_eq_true, if_false]
    exact h.edited hr he
  | newline hintr heof herase hkill hnl hf =>
    have hends : (s.kernel.pty q).attr.endsLine c = true := by
      simp [Attr.endsLine, hintr, heof, herase, bne_iff_ne.mpr hkill, hnl]
    rw [typedResults_of_not_intr hintr]
    simp only [if_pos hends]
    exact h.sent hr hf (fitting_ne_nil (lineAppend_ne_nil _ 10))
  | plain hintr heof herase hkill hnl he =>
    rw [typedResults_of_not_intr hintr, he.completed]
    simp only [Attr.endsLine, hintr, heof, hnl, Bool.not_false, Bool.true_and, Bool.and_false, Bool.false_eq_true, if_false]
    exact h.edited hr he

theorem EofOk.read (h : EofOk q s) {t : Tid} {buf size : Nat} {noMem : Bool} (hbuf : buf ≠ 0)
    (hs : s.next q (observeItems q) (.read t buf size noMem) = some s') : EofOk q s' := by
  obtain ⟨hnote, hr, res, hres, hread⟩ := Console.read_cases h.rings hs
  suffices hok : EofOk q ⟨s'.kernel, s.results ++ res, s.note⟩ by
    rw [← hres, ← hnote] at hok
    exact hok
  have hset := hread.kept.1
  have hstream := hread.stream h.rings
  cases hread with
  | nothing hp => exact h.same hr hset (fun w hw => h.room w (by rw [← hp]; exact hw)) (by simp) hstream
  | hungUp _ _ hv hm =>
    -- a terminal on which somebody can type does not hang up
    rcases h.typist with ht | ht
    · rw [hv] at ht
      cases ht
    · omega
  | data hn hle hp =>
    refine h.same hr hset (fun w hw => h.room w ?_) (fun bytes hb => ?_) hstream
    · rw [hp] at hw
      exact hw
    · rw [mem_singleton.mp hb, ← length_pos_iff, ((h.rings q).input.get hle).2.1]
      exact hn
  | waits _ hsize hp =>
    refine h.same hr hset (fun w hw => ?_) (by simp) hstream
    rw [hp] at hw
    rcases mem_append.mp hw with hw | hw
    · exact h.room w hw
    · rw [mem_singleton.mp hw]
      unfold InputWaiter.room
      rw [if_neg hbuf]
      exact hsize

theorem EofStart.eofOk (h : EofStart q s) : EofOk q s := by
  have hc := h.canonical
  have hempty := CircBuf.contents_eq_nil hc.empty
  refine ⟨hc.inUse.ringsOk, hc.icanon, h.typist, ?_, ?_⟩
  · rw [h.waiters]
    simp
  · rw [h.results, h.note, hempty]
    exact .nil

def EofRun (q : Nat) : Console (List Item) → Prop :=
  Run.Reachable (EofStart q) fun s s' => ∃ op, EofGuard q s op ∧ s.next q (observeItems q) op = some s'

def EofReachable (q : Nat) : Console (List Item) → Prop :=
  Run.Reachable (EofStart q) fun s s' => ∃ op, s.next q (observeItems q) op = some s'

/-- With a reader that waits at an empty ring for each end of the input, none is lost. -/
theorem eof_seen {q : Nat} {s : Console (List Item)} (h : EofRun q s) : EofSeen q s := by
  refine (h.invariant (EofOk q) (fun s hs => hs.eofOk) fun s s' hi hs => ?_).seen
  obtain ⟨op, hg, hs⟩ := hs
  cases op with
  | typed c => exact hi.typed hg hs
  | read t buf size noMem => exact hi.read hg hs

theorem EofRun.next (h : EofRun q s) (op : ConsoleOp) (hg : EofGuard q s op)
    (hs : s.next q (observeItems q) op = some s') : EofRun q s' := h.step ⟨op, hg, hs⟩

theorem lineTerminal_eofStart : EofStart 0 (.fresh lineTerminal []) :=
  ⟨lineTerminal_canonical 0, .inl rfl, rfl, rfl, rfl⟩

/-- A reader waits when the end of the input is typed, and its read returns 0. -/
theorem eof_seen_waiting : ∃ s, EofRun 0 s ∧ s.results = [[]] ∧ s.note = [.eof] ∧ EofSeen 0 s := by
  have hstart : EofRun 0 (.fresh lineTerminal []) := .start lineTerminal_eofStart
  have hread := hstart.next (.read 2 0x400000 9 false) (by decide : (0x400000 : Nat) ≠ 0) rfl
  have heof := hread.next (.typed 4) (fun _ _ => ⟨by decide, by decide⟩) rfl
  exact ⟨_, heof, by decide, rfl, eof_seen heof⟩

/-- The end of the input is typed before the read: the read waits for it. -/
theorem not_eof_seen : ¬∀ s, EofReachable 0 s → EofSeen 0 s := by
  intro hall
  have hstart : EofReachable 0 (.fresh lineTerminal []) := .start lineTerminal_eofStart
  have hread := (hstart.step ⟨.typed 4, rfl⟩).step ⟨.read 2 0x400000 9 false, rfl⟩
  obtain ⟨rest, hreads, _, hhead⟩ := hall _ hread
  have hwaits : rest.head? ≠ some .eof := hhead (by decide)
  have hnone : ∀ {items rest : List Item} {results : List (List UInt8)}, Reads items results rest → results = [] →
      rest = items := by
    intro items rest results h hnil
    cases h with
    | nil => rfl
    | data => exact absurd hnil (by simp)
    | eof => exact absurd hnil (by simp)
  rw [hnone hreads (by decide)] at hwaits
  exact hwaits (by decide)

end Serotonin.Tty
