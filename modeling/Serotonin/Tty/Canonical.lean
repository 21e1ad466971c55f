import Serotonin.Tty.Output

/-! Lines that are typed and read. A character of canonical mode edits the line, or sends it to
the ring and wakes the first reader that waits; the reads that have ended and the ring together
have the lines that were ended, as they were edited. -/

namespace Serotonin.Tty

open List
open Ipc (ptyRingSize ptyRingWrite)

variable {k k' : Kernel} {q : Nat}

/-! ## Reads that end -/

/-- What a woken reader finds: its result, and as many bytes in its buffer. -/
def InputWaiter.found (k : Kernel) (w : InputWaiter) : List UInt8 :=
  (List.range (k.task w.task).eax.toNat).map fun i => (k.task w.task).mem (w.userBuf + i)

/-- Those at the front of the queue that have left it. -/
def woken (k k' : Kernel) (q : Nat) : List InputWaiter :=
  (k.pty q).inputWaiters.take ((k.pty q).inputWaiters.length - (k'.pty q).inputWaiters.length)

def completed (k k' : Kernel) (q : Nat) : List (List UInt8) := (woken k k' q).map (InputWaiter.found k')

/-- Readers are woken one after the other, and each finds something at that time. -/
def wakeResults (k : Kernel) (q : Nat) : Nat → List (List UInt8)
  | 0 => []
  | n + 1 => completed k (ptyInputWakeOne k q) q ++ wakeResults (ptyInputWakeOne k q) q n

/-- An interrupt, up to the waking of all readers. -/
def ptySignalled (k : Kernel) (q : Nat) : Kernel :=
  (match (k.pty q).foreground with
    | none => k
    | some fg => taskIpcSignalRaise k fg exitSigint).modify q fun x => { x with lineBuf := [] }

/-- The reads that a character ends. One that an interrupt ends without a byte has no result. -/
def typedResults (k : Kernel) (q : Nat) (c : UInt8) : List (List UInt8) :=
  if (k.pty q).attr.isIntr c then
    (wakeResults (ptySignalled k q) q ((ptySignalled k q).pty q).inputWaiters.length).filter (· ≠ [])
  else completed k (ptyLdiscInput k q c) q

/-! ## Runs -/

inductive ConsoleOp where
  | typed (c : UInt8)
  | read (t : Tid) (buf size : Nat) (noMem : Bool)

/-- The results of the reads that have ended, in order, and what is noted of the characters. -/
structure Console (γ : Type) where
  kernel : Kernel
  results : List (List UInt8)
  note : γ

/-- A task that sleeps does not read. A read of no bytes and one that fails have no result. -/
def Console.next {γ : Type} (q : Nat) (observe : γ → Kernel → UInt8 → γ) (s : Console γ) : ConsoleOp → Option (Console γ)
  | .typed c =>
    some ⟨ptyLdiscInput s.kernel q c, s.results ++ typedResults s.kernel q c, observe s.note s.kernel c⟩
  | .read t buf size noMem =>
    if (s.kernel.task t).blocked then none
    else
      match ptySlaveRead (setUserBuf s.kernel t buf) t q size noMem with
      | .returns n bytes k => some { s with kernel := k, results := s.results ++ if size = 0 ∨ n < 0 then [] else [bytes] }
      | .sleeps k => some { s with kernel := k }

/-- What stays as it is in a run. -/
structure SameSetup (k k' : Kernel) (q : Nat) : Prop where
  attr : (k'.pty q).attr = (k.pty q).attr
  vty : (k'.pty q).kernelVty = (k.pty q).kernelVty
  master : (k'.pty q).masterRefcount = (k.pty q).masterRefcount

theorem SameSetup.refl (k : Kernel) (q : Nat) : SameSetup k k q := ⟨rfl, rfl, rfl⟩

theorem SameSetup.trans {l : Kernel} (h : SameSetup k l q) (h' : SameSetup l k' q) : SameSetup k k' q :=
  ⟨h'.attr.trans h.attr, h'.vty.trans h.vty, h'.master.trans h.master⟩

theorem sameSetup_modify (k : Kernel) (q : Nat) {f : Pty → Pty} (ha : (f (k.pty q)).attr = (k.pty q).attr)
    (hv : (f (k.pty q)).kernelVty = (k.pty q).kernelVty)
    (hm : (f (k.pty q)).masterRefcount = (k.pty q).masterRefcount) : SameSetup k (k.modify q f) q := by
  refine ⟨?_, ?_, ?_⟩ <;> rw [pty_modify_self] <;> assumption

theorem sameSetup_taskUnblock (k : Kernel) (q : Nat) (t : Tid) : SameSetup k (taskUnblock k t) q := by
  refine ⟨?_, ?_, ?_⟩ <;> rw [pty_taskUnblock]

/-! ## What a character does -/

/-- The input side is as it was, but for the line. -/
structure Edited (k k' : Kernel) (q : Nat) (line : List UInt8) : Prop where
  setup : SameSetup k k' q
  ring : (k'.pty q).inputRing = (k.pty q).inputRing
  waiters : (k'.pty q).inputWaiters = (k.pty q).inputWaiters
  line : (k'.pty q).lineBuf = line

/-- How many bytes the first reader that waits has room for. -/
def firstRoom (k : Kernel) (q : Nat) : Nat := ((k.pty q).inputWaiters.head?.map InputWaiter.room).getD 0

/-- The bytes go behind what the ring has, and the first reader that waits is woken. -/
structure Flushed (k k' : Kernel) (q : Nat) (added : List UInt8) : Prop where
  setup : SameSetup k k' q
  waiters : (k'.pty q).inputWaiters = (k.pty q).inputWaiters.tail
  completed : completed k k' q =
    ((k.pty q).inputWaiters.head?.map fun w => ((k.pty q).inputRing.contents ++ added).take w.room).toList
  contents : (k'.pty q).inputRing.contents = ((k.pty q).inputRing.contents ++ added).drop (firstRoom k q)
  line : (k'.pty q).lineBuf = []

theorem completed_of_same (h : (k'.pty q).inputWaiters = (k.pty q).inputWaiters) : completed k k' q = [] := by
  unfold completed woken
  rw [h]
  simp

theorem found_storeUser (mem : Nat → UInt8) (buf : Nat) (bytes : List UInt8) :
    ((List.range bytes.length).map fun i => Socket.storeUser mem buf bytes (buf + i)) = bytes := by
  refine ext_getElem (by simp) fun i h h' => ?_
  simp [Socket.storeUser, List.getElem?_eq_getElem h']

theorem task_taskUnblock (k : Kernel) (t u : Tid) : ((taskUnblock k t).task u).mem = (k.task u).mem ∧
    ((taskUnblock k t).task u).eax = (k.task u).eax := by
  unfold taskUnblock
  split
  · by_cases hu : u = t
    · rw [hu, task_modifyTask_self]
      exact ⟨rfl, rfl⟩
    · rw [task_modifyTask_of_ne k _ hu]
      exact ⟨rfl, rfl⟩
  · exact ⟨rfl, rfl⟩

theorem found_taskUnblock (k : Kernel) (t : Tid) (w : InputWaiter) : w.found (taskUnblock k t) = w.found k := by
  obtain ⟨hmem, heax⟩ := task_taskUnblock k t w.task
  unfold InputWaiter.found
  rw [hmem, heax]

theorem sameSetup_ptyInputWakeOne (k : Kernel) (q : Nat) : SameSetup k (ptyInputWakeOne k q) q ∧
    ((ptyInputWakeOne k q).pty q).lineBuf = (k.pty q).lineBuf := by
  have hset : ∀ (k : Kernel) (f : Pty → Pty) (g : Task → Task) (t : Tid), (f (k.pty q)).attr = (k.pty q).attr →
      (f (k.pty q)).kernelVty = (k.pty q).kernelVty → (f (k.pty q)).masterRefcount = (k.pty q).masterRefcount →
      (f (k.pty q)).lineBuf = (k.pty q).lineBuf →
      SameSetup k (taskUnblock ((k.modify q f).modifyTask t g) t) q ∧
        ((taskUnblock ((k.modify q f).modifyTask t g) t).pty q).lineBuf = (k.pty q).lineBuf := by
    intro k f g t ha hv hm hl
    refine ⟨⟨?_, ?_, ?_⟩, ?_⟩ <;> rw [pty_taskUnblock, pty_modifyTask, pty_modify_self] <;> assumption
  unfold ptyInputWakeOne
  split
  · exact ⟨.refl k q, rfl⟩
  · next w ws _ =>
    have hpop := sameSetup_modify k q (f := fun x => { x with inputWaiters := ws }) rfl rfl rfl
    have hline : ((k.modify q fun x => { x with inputWaiters := ws }).pty q).lineBuf = (k.pty q).lineBuf := by
      rw [pty_modify_self]
    simp only
    split
    · refine ⟨hpop.trans (hset _ _ _ _ ?_ ?_ ?_ ?_).1, (hset _ _ _ _ ?_ ?_ ?_ ?_).2.trans hline⟩ <;> rfl
    · exact hset k _ _ w.task rfl rfl rfl rfl

/-- What the ring has, up to the reader's room, is what the reader finds. -/
theorem flushed_ptyInputWakeOne (hr : RingsOk k) (q : Nat) :
    completed k (ptyInputWakeOne k q) q =
        ((k.pty q).inputWaiters.head?.map fun w => (k.pty q).inputRing.contents.take w.room).toList ∧
      ((ptyInputWakeOne k q).pty q).inputRing.contents = (k.pty q).inputRing.contents.drop (firstRoom k q) ∧
      ((ptyInputWakeOne k q).pty q).inputWaiters = (k.pty q).inputWaiters.tail := by
  cases hq : (k.pty q).inputWaiters with
  | nil =>
    rw [ptyInputWakeOne_nil hq]
    simp [completed_of_same, firstRoom, hq]
  | cons w ws =>
    have hwait := (firstServed_ptyInputWakeOne hq).waiters
    have hone : ∀ bytes, w.found (ptyInputWakeOne k q) = bytes → completed k (ptyInputWakeOne k q) q = [bytes] := by
      intro bytes hb
      unfold completed woken
      rw [hwait, hq, length_cons, Nat.add_sub_cancel_left, take_succ_cons, take_zero, map_singleton, hb]
    suffices hfound : w.found (ptyInputWakeOne k q) = (k.pty q).inputRing.contents.take w.room ∧
        ((ptyInputWakeOne k q).pty q).inputRing.contents = (k.pty q).inputRing.contents.drop w.room by
      refine ⟨hone _ hfound.1, ?_, hwait⟩
      rw [hfound.2, firstRoom, hq]
      rfl
    have hpop : (k.modify q fun x => { x with inputWaiters := ws }).pty q = { k.pty q with inputWaiters := ws } :=
      pty_modify_self k q _
    unfold ptyInputWakeOne
    rw [hq]
    dsimp only
    rw [hpop]
    dsimp only
    by_cases hcopy : 0 < min w.bufSize (k.pty q).inputRing.dataLen ∧ w.userBuf ≠ 0
    · obtain ⟨r', bytes, heq, hlen, hc, _⟩ := (hr q).input.copyOut
        ((k.modify q fun x => { x with inputWaiters := ws }).task w.task).mem w.userBuf
        (Nat.min_le_right w.bufSize (k.pty q).inputRing.dataLen)
      have hroom : w.room = w.bufSize := if_neg hcopy.2
      have hbytes : (k.pty q).inputRing.contents.take w.room = bytes := by
        rw [hroom, take_eq_take_min, CircBuf.contents_length, hc, ← hlen, take_left]
      have hrest : (k.pty q).inputRing.contents.drop w.room = r'.contents := by
        rw [hroom, drop_eq_drop_min, CircBuf.contents_length, hc, ← hlen, drop_left]
      rw [if_pos hcopy, heq, hbytes, hrest, found_taskUnblock, pty_taskUnblock, pty_modifyTask, pty_modify_self]
      refine ⟨?_, rfl⟩
      unfold InputWaiter.found
      rw [task_modifyTask_self]
      simp only [Int.toNat_natCast]
      rw [← hlen]
      exact found_storeUser _ _ bytes
    · have hroom : (k.pty q).inputRing.contents.take w.room = [] ∧
          (k.pty q).inputRing.contents.drop w.room = (k.pty q).inputRing.contents := by
        unfold InputWaiter.room
        by_cases hbuf : w.userBuf = 0
        · simp [hbuf]
        · have hnone : min w.bufSize (k.pty q).inputRing.contents.length = 0 := by
            rw [CircBuf.contents_length]
            exact Nat.eq_zero_of_not_pos fun hpos => hcopy ⟨hpos, hbuf⟩
          rw [if_neg hbuf, take_eq_take_min, drop_eq_drop_min, hnone]
          simp
      rw [if_neg hcopy, found_taskUnblock, pty_taskUnblock, pty_modifyTask, hpop, hroom.1, hroom.2]
      refine ⟨?_, rfl⟩
      unfold InputWaiter.found
      rw [task_modifyTask_self]
      rfl

/-- Flushing a line. -/
theorem flushed_ptyLdiscFlushLine (hr : RingsOk k) (q : Nat) :
    Flushed k (ptyLdiscFlushLine k q) q
      ((k.pty q).lineBuf.take (ptyRingSize - (k.pty q).inputRing.dataLen)) := by
  obtain ⟨hring, hc⟩ := (hr q).input.write (k.pty q).lineBuf
  have hput : RingsOk (k.modify q fun x => { x with inputRing := ptyRingWrite x.inputRing x.lineBuf, lineBuf := [] }) :=
    hr.modify q ⟨hring, (hr q).output⟩
  obtain ⟨hset, hline⟩ := sameSetup_ptyInputWakeOne
    (k.modify q fun x => { x with inputRing := ptyRingWrite x.inputRing x.lineBuf, lineBuf := [] }) q
  obtain ⟨hdone, hrest, hwait⟩ := flushed_ptyInputWakeOne hput q
  have hfirst := sameSetup_modify k q
    (f := fun x => { x with inputRing := ptyRingWrite x.inputRing x.lineBuf, lineBuf := [] }) rfl rfl rfl
  unfold completed woken at hdone
  unfold firstRoom at hrest
  rw [pty_modify_self] at hdone hrest hwait hline
  rw [hc] at hdone hrest
  exact ⟨hfirst.trans hset, hwait, hdone, hrest, hline⟩

theorem Edited.trans {l : Kernel} {line line' : List UInt8} (h : Edited k l q line) (h' : Edited l k' q line') :
    Edited k k' q line' :=
  ⟨h.setup.trans h'.setup, h'.ring.trans h.ring, h'.waiters.trans h.waiters, h'.line⟩

/-- The line is edited before it is flushed. -/
theorem Edited.flushed {l : Kernel} {line added : List UInt8} (h : Edited k l q line) (h' : Flushed l k' q added) :
    Flushed k k' q added := by
  obtain ⟨hset, hw, hdone, hc, hl⟩ := h'
  unfold Tty.completed woken at hdone
  unfold firstRoom at hc
  rw [h.waiters] at hw hdone hc
  rw [h.ring] at hdone hc
  exact ⟨h.setup.trans hset, hw, hdone, hc, hl⟩

theorem edited_setLine (k : Kernel) (q : Nat) (f : List UInt8 → List UInt8) :
    Edited k (k.modify q fun x => { x with lineBuf := f x.lineBuf }) q (f (k.pty q).lineBuf) := by
  refine ⟨sameSetup_modify k q rfl rfl rfl, ?_, ?_, ?_⟩ <;> rw [pty_modify_self]

theorem sameSetup_ptyOutputWakeOne (k : Kernel) (q : Nat) : SameSetup k (ptyOutputWakeOne k q) q := by
  unfold ptyOutputWakeOne
  split
  · exact .refl k q
  · next ts _ =>
    exact (sameSetup_modify k q (f := fun x => { x with outputWaiters := ts }) rfl rfl rfl).trans
      (sameSetup_taskUnblock _ q _)

theorem edited_output (k : Kernel) (q : Nat) (f : CircBuf UInt8 → CircBuf UInt8) :
    Edited k (ptyOutputWakeOne (k.modify q fun x => { x with outputRing := f x.outputRing }) q) q (k.pty q).lineBuf := by
  obtain ⟨hw, hr, hl⟩ := (output_quiet k q f).1 q
  exact ⟨(sameSetup_modify k q rfl rfl rfl).trans (sameSetup_ptyOutputWakeOne _ q), hr, hw, hl⟩

theorem edited_ptyEcho (k : Kernel) (q : Nat) (data : List UInt8) : Edited k (ptyEcho k q data) q (k.pty q).lineBuf := by
  unfold ptyEcho
  split
  · exact edited_output k q fun r => ptyRingWrite r data
  · exact ⟨.refl k q, rfl, rfl, rfl⟩

/-- An edited line is echoed. -/
theorem edited_setLine_ptyEcho (k : Kernel) (q : Nat) (f : List UInt8 → List UInt8) (data : List UInt8) :
    Edited k (ptyEcho (k.modify q fun x => { x with lineBuf := f x.lineBuf }) q data) q (f (k.pty q).lineBuf) := by
  have hline := edited_setLine k q f
  have hecho := edited_ptyEcho (k.modify q fun x => { x with lineBuf := f x.lineBuf }) q data
  rw [hline.line] at hecho
  exact hline.trans hecho

theorem edited_ptyKillLine (k : Kernel) (q : Nat) : Edited k (ptyKillLine k q) q [] := by
  have hline := edited_setLine k q fun _ => []
  unfold ptyKillLine
  simp only
  split
  · have hout := edited_output (k.modify q fun x => { x with lineBuf := [] }) q
      fun r => (k.pty q).lineBuf.foldl (fun r _ => ptyRingWrite r eraseEcho) r
    rw [hline.line] at hout
    exact hline.trans hout
  · exact hline

/-- The bytes of a line for which the ring has room. -/
def fitting (k : Kernel) (q : Nat) (line : List UInt8) : List UInt8 :=
  line.take (ptyRingSize - (k.pty q).inputRing.dataLen)

/-- What a character does in canonical mode. -/
inductive Typed (k : Kernel) (q : Nat) (c : UInt8) : Prop where
  | interrupt : (k.pty q).attr.isIntr c = true → ptyLdiscInput k q c = ptyInputWakeAll (ptySignalled k q) q → Typed k q c
  | eof : (k.pty q).attr.isIntr c = false → (k.pty q).attr.isEof c = true →
      Flushed k (ptyLdiscInput k q c) q (fitting k q (k.pty q).lineBuf) → Typed k q c
  | erase : (k.pty q).attr.isIntr c = false → (k.pty q).attr.isEof c = false → (k.pty q).attr.isErase c = true →
      Edited k (ptyLdiscInput k q c) q (k.pty q).lineBuf.dropLast → Typed k q c
  | kill : (k.pty q).attr.isIntr c = false → (k.pty q).attr.isEof c = false → (k.pty q).attr.isErase c = false →
      c = (k.pty q).attr.ccVkill → Edited k (ptyLdiscInput k q c) q [] → Typed k q c
  | newline : (k.pty q).attr.isIntr c = false → (k.pty q).attr.isEof c = false → (k.pty q).attr.isErase c = false →
      c ≠ (k.pty q).attr.ccVkill → isNewline c = true →
      Flushed k (ptyLdiscInput k q c) q (fitting k q (lineAppend (k.pty q).lineBuf 10)) → Typed k q c
  | plain : (k.pty q).attr.isIntr c = false → (k.pty q).attr.isEof c = false → (k.pty q).attr.isErase c = false →
      c ≠ (k.pty q).attr.ccVkill → isNewline c = false →
      Edited k (ptyLdiscInput k q c) q (lineAppend (k.pty q).lineBuf c) → Typed k q c

theorem typed (hr : RingsOk k) (hcanon : (k.pty q).attr.icanon = true) (c : UInt8) : Typed k q c := by
  have hinput : ptyLdiscInput k q c = ptyLdiscInput k q c := rfl
  conv at hinput => rhs; unfold ptyLdiscInput
  simp only at hinput
  by_cases hintr : (k.pty q).attr.isIntr c = true
  · rw [if_pos hintr] at hinput
    exact .interrupt hintr hinput
  rw [if_neg hintr] at hinput
  have hintr := Bool.eq_false_of_not_eq_true hintr
  by_cases heof : (k.pty q).attr.isEof c = true
  · rw [if_pos heof] at hinput
    exact .eof hintr heof (hinput ▸ flushed_ptyLdiscFlushLine hr q)
  rw [if_neg heof, if_pos hcanon] at hinput
  have heof := Bool.eq_false_of_not_eq_true heof
  by_cases herase : (k.pty q).attr.isErase c = true
  · rw [if_pos herase] at hinput
    refine .erase hintr heof herase (hinput ▸ ?_)
    split
    · next hempty =>
      rw [length_eq_zero_iff.mp hempty]
      exact ⟨.refl k q, rfl, rfl, length_eq_zero_iff.mp hempty⟩
    · exact edited_setLine_ptyEcho k q List.dropLast _
  rw [if_neg herase] at hinput
  have herase := Bool.eq_false_of_not_eq_true herase
  by_cases hkill : c = (k.pty q).attr.ccVkill
  · rw [if_pos hkill] at hinput
    exact .kill hintr heof herase hkill (hinput ▸ edited_ptyKillLine k q)
  rw [if_neg hkill] at hinput
  by_cases hnl : isNewline c = true
  · rw [if_pos hnl] at hinput
    refine .newline hintr heof herase hkill hnl (hinput ▸ ?_)
    have hecho := edited_setLine_ptyEcho k q (fun line => lineAppend line 10) [13, 10]
    have hrings := (hr.setLine q fun line => lineAppend line 10).ptyEcho q [13, 10]
    have hflush := flushed_ptyLdiscFlushLine hrings q
    rw [hecho.line, hecho.ring] at hflush
    exact hecho.flushed hflush
  · rw [if_neg hnl] at hinput
    refine .plain hintr heof herase hkill (Bool.eq_false_of_not_eq_true hnl) (hinput ▸ ?_)
    unfold lineAppend
    split
    · exact edited_setLine_ptyEcho k q (· ++ [c]) _
    · exact ⟨.refl k q, rfl, rfl, rfl⟩

/-! ## What a step of a run does -/

/-- Nothing is lost between the ring and the readers. -/
theorem Flushed.stream {added : List UInt8} (h : Flushed k k' q added) :
    (Tty.completed k k' q).flatten ++ (k'.pty q).inputRing.contents = (k.pty q).inputRing.contents ++ added := by
  rw [h.completed, h.contents]
  unfold firstRoom
  cases (k.pty q).inputWaiters.head? with
  | none => simp
  | some w => simp

theorem typedResults_of_not_intr {c : UInt8} (h : (k.pty q).attr.isIntr c = false) :
    typedResults k q c = completed k (ptyLdiscInput k q c) q := by
  unfold typedResults
  rw [h]
  rfl

theorem Edited.completed {line : List UInt8} (h : Edited k k' q line) : Tty.completed k k' q = [] :=
  completed_of_same h.waiters

/-- What a read of the slave does, and the result it has if it ends at once. -/
inductive SlaveRead (k : Kernel) (t : Tid) (q buf size : Nat) : Kernel → List (List UInt8) → Prop where
  | nothing {k' : Kernel} : k'.pty = k.pty → SlaveRead k t q buf size k' []
  | hungUp {k' : Kernel} : k'.pty = k.pty → (k.pty q).inputRing.dataLen = 0 → (k.pty q).kernelVty = false →
      (k.pty q).masterRefcount = 0 → SlaveRead k t q buf size k' [[]]
  | data {k' : Kernel} {n : Nat} : 0 < n → n ≤ (k.pty q).inputRing.dataLen →
      k'.pty q = { k.pty q with inputRing := ((k.pty q).inputRing.get n).2 } →
      SlaveRead k t q buf size k' [((k.pty q).inputRing.get n).1]
  | waits {k' : Kernel} : (k.pty q).inputRing.dataLen = 0 → 0 < size →
      k'.pty q = { k.pty q with inputWaiters := (k.pty q).inputWaiters ++ [⟨t, buf, size⟩] } →
      SlaveRead k t q buf size k' []

/-- Only the terminals matter. -/
theorem SlaveRead.ofPty {l : Kernel} {t : Tid} {buf size : Nat} {res : List (List UInt8)}
    (h : SlaveRead l t q buf size k' res) (hp : l.pty = k.pty) : SlaveRead k t q buf size k' res := by
  cases h with
  | nothing h => exact .nothing (h.trans hp)
  | hungUp h hd hv hm => exact .hungUp (h.trans hp) (hp ▸ hd) (hp ▸ hv) (hp ▸ hm)
  | data hn hle h => rw [hp] at hle h ⊢; exact .data hn hle h
  | waits hd hs h => rw [hp] at hd h; exact .waits hd hs h

/-- The results that a call of `pty_slave_read` adds. -/
def endedRead (size : Nat) : Outcome → List (List UInt8)
  | .returns n bytes _ => if size = 0 ∨ n < 0 then [] else [bytes]
  | .sleeps _ => []

theorem slaveRead_ptySlaveRead (k : Kernel) (t : Tid) (q size : Nat) (noMem : Bool) :
    SlaveRead k t q (k.task t).userBuf size (ptySlaveRead k t q size noMem).kernel
      (endedRead size (ptySlaveRead k t q size noMem)) := by
  unfold ptySlaveRead
  split
  · next hz =>
    simp only [endedRead, hz, true_or, if_true]
    exact .nothing rfl
  · next hz =>
    have hsize := Nat.pos_of_ne_zero hz
    split
    · next hdata =>
      have hend : ∀ n : Nat, ¬(size = 0 ∨ (n : Int) < 0) := by omega
      simp only [endedRead, if_neg (hend _)]
      refine .data (Nat.lt_min.mpr ⟨hsize, hdata⟩) (Nat.min_le_right _ _) ?_
      simp only [Outcome.kernel]
      rw [pty_modify_self]
    · next hdata =>
      have hempty := Nat.eq_zero_of_not_pos hdata
      split
      · next hup =>
        rw [Bool.and_eq_true, Bool.not_eq_true', decide_eq_true_eq] at hup
        simp only [endedRead, hz, false_or, Int.lt_irrefl, if_false]
        exact .hungUp rfl hempty hup.1 hup.2
      · split
        · have hneg : -enomem < 0 := by simp [enomem]
          simp only [endedRead, hneg, or_true, if_true]
          exact .nothing rfl
        · refine .waits hempty hsize ?_
          simp only [Outcome.kernel]
          rw [pty_modifyTask, pty_modify_self]

variable {γ : Type} {observe : γ → Kernel → UInt8 → γ}

theorem Console.read_cases {s s' : Console γ} {t : Tid} {buf size : Nat} {noMem : Bool} (hr : RingsOk s.kernel)
    (hs : s.next q observe (.read t buf size noMem) = some s') :
    s'.note = s.note ∧ RingsOk s'.kernel ∧
      ∃ res, s'.results = s.results ++ res ∧ SlaveRead s.kernel t q buf size s'.kernel res := by
  have hbuf : RingsOk (setUserBuf s.kernel t buf) := hr
  have hrings := hbuf.ptySlaveRead t q size noMem
  have hread := slaveRead_ptySlaveRead (setUserBuf s.kernel t buf) t q size noMem
  have hown : ((setUserBuf s.kernel t buf).task t).userBuf = buf := by
    unfold setUserBuf
    rw [task_modifyTask_self]
  rw [hown] at hread
  unfold Console.next at hs
  obtain ⟨-, hs⟩ := Option.ite_none_left_eq_some.mp hs
  cases hout : ptySlaveRead (setUserBuf s.kernel t buf) t q size noMem with
  | returns n bytes k =>
    rw [hout] at hs hrings hread
    cases hs
    exact ⟨rfl, hrings, _, rfl, hread.ofPty rfl⟩
  | sleeps k =>
    rw [hout] at hs hrings hread
    cases hs
    exact ⟨rfl, hrings, [], (append_nil _).symm, hread.ofPty rfl⟩

/-- What a read takes leaves the front of the ring. -/
theorem SlaveRead.stream (hr : RingsOk k) {t : Tid} {buf size : Nat} {res : List (List UInt8)}
    (h : SlaveRead k t q buf size k' res) :
    res.flatten ++ (k'.pty q).inputRing.contents = (k.pty q).inputRing.contents := by
  cases h with
  | nothing hp => rw [hp]; rfl
  | hungUp hp => rw [hp]; rfl
  | data _ hn hp =>
    rw [hp, flatten_singleton]
    exact ((hr q).input.get hn).2.2.symm
  | waits _ _ hp => rw [hp]; rfl

theorem SlaveRead.kept {t : Tid} {buf size : Nat} {res : List (List UInt8)} (h : SlaveRead k t q buf size k' res) :
    SameSetup k k' q ∧ (k'.pty q).lineBuf = (k.pty q).lineBuf := by
  cases h with
  | nothing hp => rw [hp]; exact ⟨⟨by rw [hp], by rw [hp], by rw [hp]⟩, rfl⟩
  | hungUp hp => rw [hp]; exact ⟨⟨by rw [hp], by rw [hp], by rw [hp]⟩, rfl⟩
  | data _ _ hp => rw [hp]; exact ⟨⟨by rw [hp], by rw [hp], by rw [hp]⟩, rfl⟩
  | waits _ _ hp => rw [hp]; exact ⟨⟨by rw [hp], by rw [hp], by rw [hp]⟩, rfl⟩

/-! ## Lines as they are edited -/

/-- The lines that were ended, one after the other, and the one that is edited. -/
structure Edit where
  done : List UInt8
  line : List UInt8

/-- The end of the input ends a line too, but adds nothing to it. -/
def Edit.type (a : Attr) (e : Edit) (c : UInt8) : Edit :=
  if a.isEof c then ⟨e.done ++ e.line, []⟩
  else if a.isErase c then { e with line := e.line.dropLast }
  else if c = a.ccVkill then { e with line := [] }
  else if isNewline c then ⟨e.done ++ (e.line ++ [10]), []⟩
  else { e with line := e.line ++ [c] }

def observeEdit (q : Nat) (e : Edit) (k : Kernel) (c : UInt8) : Edit := e.type (k.pty q).attr c

/-- A terminal in canonical mode, with nothing to read and an empty line. -/
structure Canonical (k : Kernel) (q : Nat) : Prop where
  inUse : InUse k
  icanon : (k.pty q).attr.icanon = true
  empty : (k.pty q).inputRing.dataLen = 0
  line : (k.pty q).lineBuf = []

structure EditStart (q : Nat) (s : Console Edit) : Prop where
  canonical : Canonical s.kernel q
  isig : (s.kernel.pty q).attr.isig = false
  results : s.results = []
  note : s.note = ⟨[], []⟩

/-- The line does not reach its greatest length, and the ring has room for what is sent to it. -/
def EditGuard (q : Nat) (s : Console Edit) : ConsoleOp → Prop
  | .typed c => (observeEdit q s.note s.kernel c).line.length < ptyLineSize ∧
      (s.kernel.pty q).inputRing.dataLen + ((observeEdit q s.note s.kernel c).done.length - s.note.done.length) ≤ ptyRingSize
  | .read .. => True

structure EditOk (q : Nat) (s : Console Edit) : Prop where
  rings : RingsOk s.kernel
  icanon : (s.kernel.pty q).attr.icanon = true
  isig : (s.kernel.pty q).attr.isig = false
  line : (s.kernel.pty q).lineBuf = s.note.line
  short : s.note.line.length < ptyLineSize
  stream : s.results.flatten ++ (s.kernel.pty q).inputRing.contents = s.note.done

theorem fitting_of_le {line : List UInt8} (h : (k.pty q).inputRing.dataLen + line.length ≤ ptyRingSize) :
    fitting k q line = line := take_of_length_le (by omega)

variable {s s' : Console Edit}

/-- Only the line changes. -/
theorem EditOk.edited (h : EditOk q s) {k' : Kernel} {line : List UInt8} (he : Edited s.kernel k' q line)
    (hr : RingsOk k') (hlen : line.length < ptyLineSize) : EditOk q ⟨k', s.results, { s.note with line := line }⟩ := by
  refine ⟨hr, ?_, ?_, he.line, hlen, ?_⟩
  · rw [he.setup.attr]
    exact h.icanon
  · rw [he.setup.attr]
    exact h.isig
  · rw [he.ring]
    exact h.stream

theorem EditOk.flushed (h : EditOk q s) {k' : Kernel} {line : List UInt8} (hf : Flushed s.kernel k' q (fitting s.kernel q line))
    (hr : RingsOk k') (hroom : (s.kernel.pty q).inputRing.dataLen + line.length ≤ ptyRingSize) :
    EditOk q ⟨k', s.results ++ completed s.kernel k' q, ⟨s.note.done ++ line, []⟩⟩ := by
  refine ⟨hr, ?_, ?_, hf.line, by simp [ptyLineSize], ?_⟩
  · rw [hf.setup.attr]
    exact h.icanon
  · rw [hf.setup.attr]
    exact h.isig
  · rw [flatten_append, append_assoc, hf.stream, fitting_of_le hroom, ← append_assoc, h.stream]

theorem EditOk.typed (h : EditOk q s) {c : UInt8} (hg : EditGuard q s (.typed c))
    (hs : s.next q (observeEdit q) (.typed c) = some s') : EditOk q s' := by
  have hr := h.rings.ptyLdiscInput q c
  obtain ⟨hlen, hroom⟩ := hg
  have hs := Option.some.inj hs
  subst hs
  unfold observeEdit Edit.type at hlen hroom ⊢
  have hnot : (s.kernel.pty q).attr.isIntr c = false := by
    unfold Attr.isIntr
    rw [h.isig]
    rfl
  rw [typedResults_of_not_intr hnot]
  cases Tty.typed h.rings h.icanon c with
  | interrupt hintr =>
    rw [hnot] at hintr
    cases hintr
  | eof _ heof hf =>
    simp only [heof, if_true, length_append] at hroom ⊢
    rw [h.line] at hf
    exact h.flushed hf hr (by omega)
  | erase _ heof herase he =>
    simp only [heof, herase, if_true, Bool.false_eq_true, if_false] at hlen ⊢
    rw [h.line] at he
    rw [he.completed, append_nil]
    exact h.edited he hr hlen
  | kill _ heof herase hkill he =>
    simp only [heof, herase, if_pos hkill, Bool.false_eq_true, if_false] at hlen ⊢
    rw [he.completed, append_nil]
    exact h.edited he hr hlen
  | newline _ heof herase hkill hnl hf =>
    simp only [heof, herase, if_neg hkill, hnl, if_true, Bool.false_eq_true, if_false, length_append] at hroom ⊢
    rw [h.line, lineAppend, if_pos h.short] at hf
    exact h.flushed hf hr (by simp only [length_append]; omega)
  | plain _ heof herase hkill hnl he =>
    simp only [heof, herase, if_neg hkill, hnl, Bool.false_eq_true, if_false] at hlen ⊢
    rw [h.line, lineAppend, if_pos h.short] at he
    rw [he.completed, append_nil]
    exact h.edited he hr hlen

theorem EditOk.read (h : EditOk q s) {t : Tid} {buf size : Nat} {noMem : Bool}
    (hs : s.next q (observeEdit q) (.read t buf size noMem) = some s') : EditOk q s' := by
  obtain ⟨hnote, hr, res, hres, hread⟩ := Console.read_cases h.rings hs
  obtain ⟨hset, hline⟩ := hread.kept
  refine ⟨hr, ?_, ?_, ?_, ?_, ?_⟩
  · rw [hset.attr]
    exact h.icanon
  · rw [hset.attr]
    exact h.isig
  · rw [hline, hnote]
    exact h.line
  · rw [hnote]
    exact h.short
  · rw [hres, hnote, flatten_append, append_assoc, hread.stream h.rings]
    exact h.stream

def EditRun (q : Nat) : Console Edit → Prop :=
  Run.Reachable (EditStart q) fun s s' => ∃ op, EditGuard q s op ∧ s.next q (observeEdit q) op = some s'

/-- What the reads were given and what the ring has are the lines that were ended. -/
theorem canonical_stream {q : Nat} {s : Console Edit} (h : EditRun q s) :
    s.results.flatten ++ (s.kernel.pty q).inputRing.contents = s.note.done := by
  refine (h.invariant (EditOk q) (fun s hs => ?_) fun s s' hi hs => ?_).stream
  · have hc := hs.canonical
    have hempty := CircBuf.contents_eq_nil hc.empty
    refine ⟨hc.inUse.ringsOk, hc.icanon, hs.isig, ?_, ?_, ?_⟩
    · rw [hc.line, hs.note]
    · rw [hs.note]
      simp [ptyLineSize]
    · rw [hs.results, hs.note, hempty]
      rfl
  · obtain ⟨op, hg, hs⟩ := hs
    cases op with
    | typed c => exact hi.typed hg hs
    | read t buf size noMem => exact hi.read hs

/-- Terminals on which no character interrupts. -/
def lineTerminal : Kernel :=
  { quietTerminal with pty := fun q => { quietTerminal.pty q with attr := { ptyDefaultAttr with isig := false } } }

def Console.fresh {γ : Type} (k : Kernel) (note : γ) : Console γ := ⟨k, [], note⟩

theorem lineTerminal_canonical (q : Nat) : Canonical lineTerminal q := ⟨.start quietTerminal_unused, rfl, rfl, rfl⟩

theorem EditRun.next {s s' : Console Edit} (h : EditRun q s) (op : ConsoleOp) (hg : EditGuard q s op)
    (hs : s.next q (observeEdit q) op = some s') : EditRun q s' := h.step ⟨op, hg, hs⟩

/-- A reader waits for two characters at most, and a line of one is typed. -/
theorem canonical_stream_line : ∃ s, EditRun 0 s ∧ s.results = [[97, 10]] ∧
    s.results.flatten ++ (s.kernel.pty 0).inputRing.contents = s.note.done := by
  have hstart : EditRun 0 (.fresh lineTerminal ⟨[], []⟩) := .start ⟨lineTerminal_canonical 0, rfl, rfl, rfl⟩
  have hread := hstart.next (.read 2 0x400000 2 false) trivial rfl
  have htyped := hread.next (.typed 97) ⟨by decide, by decide⟩ rfl
  have hline := htyped.next (.typed 13) ⟨by decide, by decide⟩ rfl
  exact ⟨_, hline, by decide, canonical_stream hline⟩

end Serotonin.Tty
