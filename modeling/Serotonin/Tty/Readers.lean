import Serotonin.Ipc.Readers
import Serotonin.Socket.Readers
import Serotonin.Tty.Model

/-! Readers of a terminal that sleep while there is something to read. A line, or in raw mode
a character, goes into the ring and to the first reader in the queue. -/

namespace Serotonin.Tty

open Function Option
open WaitRing (Awake)
open Ipc (ptyRingSize ptyRingWrite)

/-- The waiter's task is still blocked in a read from this slave. -/
def Asleep (k : Kernel) (q : Nat) (w : InputWaiter) : Prop :=
  (k.task w.task).blocked = true ∧ (k.task w.task).reading = some q

/-- No reader of a terminal sleeps over data. -/
def ReadersAwake (k : Kernel) : Prop :=
  ∀ q, Awake (Asleep k q) (k.pty q).inputWaiters (k.pty q).inputRing.dataLen

/-- Fewer readers sleep than before, and empty rings are still empty. -/
structure Calmer (k k' : Kernel) : Prop where
  queue : ∀ q, (k'.pty q).inputWaiters ⊆ (k.pty q).inputWaiters
  task : ∀ t q, (k'.task t).blocked = true → (k'.task t).reading = some q →
    (k.task t).blocked = true ∧ (k.task t).reading = some q
  len : ∀ q, (k.pty q).inputRing.dataLen = 0 → (k'.pty q).inputRing.dataLen = 0

namespace Calmer

variable {k l k' : Kernel}

theorem refl (k : Kernel) : Calmer k k := ⟨fun _ => List.Subset.refl _, fun _ _ hb hr => ⟨hb, hr⟩, fun _ h => h⟩

theorem trans (h : Calmer k l) (h' : Calmer l k') : Calmer k k' where
  queue q := List.Subset.trans (h'.queue q) (h.queue q)
  task t q hb hr := by
    obtain ⟨hb', hr'⟩ := h'.task t q hb hr
    exact h.task t q hb' hr'
  len q hq := h'.len q (h.len q hq)

theorem asleep (h : Calmer k k') {q : Nat} {w : InputWaiter} (hw : Asleep k' q w) : Asleep k q w :=
  h.task w.task q hw.1 hw.2

theorem awake (h : Calmer k k') (ha : ReadersAwake k) : ReadersAwake k' := fun q =>
  (ha q).mono (fun _ hw hsleep => ⟨h.queue q hw, h.asleep hsleep⟩) (h.len q)

end Calmer

theorem task_modifyTask_self (k : Kernel) (t : Tid) (f : Task → Task) : (k.modifyTask t f).task t = f (k.task t) :=
  update_self ..

theorem task_modifyTask_of_ne (k : Kernel) {t u : Tid} (f : Task → Task) (h : u ≠ t) :
    (k.modifyTask t f).task u = k.task u := update_of_ne h ..

theorem pty_modifyTask (k : Kernel) (t : Tid) (f : Task → Task) : (k.modifyTask t f).pty = k.pty := rfl

theorem pty_modify_self (k : Kernel) (q : Nat) (f : Pty → Pty) : (k.modify q f).pty q = f (k.pty q) :=
  update_self ..

theorem pty_modify_of_ne (k : Kernel) {q r : Nat} (f : Pty → Pty) (h : r ≠ q) : (k.modify q f).pty r = k.pty r :=
  update_of_ne h ..

/-- A task changes, but does not go to sleep in a read. -/
theorem calmer_modifyTask (k : Kernel) (t : Tid) {f : Task → Task}
    (hf : ∀ q, (f (k.task t)).blocked = true → (f (k.task t)).reading = some q →
      (k.task t).blocked = true ∧ (k.task t).reading = some q) : Calmer k (k.modifyTask t f) := by
  refine ⟨fun _ => List.Subset.refl _, fun u q hb hr => ?_, fun _ h => h⟩
  by_cases hu : u = t
  · rw [hu, task_modifyTask_self] at hb hr
    rw [hu]
    exact hf q hb hr
  · rw [task_modifyTask_of_ne k f hu] at hb hr
    exact ⟨hb, hr⟩

theorem calmer_modify (k : Kernel) (q : Nat) {f : Pty → Pty}
    (hq : (f (k.pty q)).inputWaiters ⊆ (k.pty q).inputWaiters)
    (hl : (k.pty q).inputRing.dataLen = 0 → (f (k.pty q)).inputRing.dataLen = 0) : Calmer k (k.modify q f) := by
  refine ⟨fun r => ?_, fun _ _ hb hr => ⟨hb, hr⟩, fun r hr => ?_⟩
  · by_cases hrq : r = q
    · rw [hrq, pty_modify_self]
      exact hq
    · rw [pty_modify_of_ne k f hrq]
      exact List.Subset.refl _
  · by_cases hrq : r = q
    · rw [hrq] at hr ⊢
      rw [pty_modify_self]
      exact hl hr
    · rw [pty_modify_of_ne k f hrq]
      exact hr

theorem awake_taskUnblock_self (k : Kernel) (t : Tid) : ((taskUnblock k t).task t).blocked = false := by
  unfold taskUnblock
  by_cases hb : (k.task t).blocked = true
  · rw [if_pos hb, task_modifyTask_self]
  · rw [if_neg hb]
    exact Bool.eq_false_of_not_eq_true hb

theorem task_taskUnblock_of_ne (k : Kernel) {t u : Tid} (h : u ≠ t) : (taskUnblock k t).task u = k.task u := by
  unfold taskUnblock
  split
  · exact task_modifyTask_of_ne k _ h
  · rfl

theorem pty_taskUnblock (k : Kernel) (t : Tid) : (taskUnblock k t).pty = k.pty := by
  unfold taskUnblock
  split <;> rfl

theorem calmer_taskUnblock (k : Kernel) (t : Tid) : Calmer k (taskUnblock k t) := by
  unfold taskUnblock
  split
  · exact calmer_modifyTask k t fun _ hb => nomatch hb
  · exact .refl k

theorem calmer_taskIpcSignalRaise (k : Kernel) (t : Tid) (signal : Nat) : Calmer k (taskIpcSignalRaise k t signal) := by
  unfold taskIpcSignalRaise
  split
  · exact .refl k
  · exact (calmer_modifyTask k t fun _ hb hr => ⟨hb, hr⟩).trans (calmer_taskUnblock _ t)

/-- A task that goes to sleep in another call is no reader. -/
theorem calmer_sleep (k : Kernel) (t : Tid) : Calmer k (k.modifyTask t fun x => { x with blocked := true, reading := none }) :=
  calmer_modifyTask k t fun _ _ hr => nomatch hr

/-! ## What does not touch the input side -/

/-- The input side of every terminal is as it was. -/
def SameInput (k k' : Kernel) : Prop := ∀ q, (k'.pty q).inputWaiters = (k.pty q).inputWaiters ∧
  (k'.pty q).inputRing = (k.pty q).inputRing ∧ (k'.pty q).lineBuf = (k.pty q).lineBuf

theorem sameInput_modify (k : Kernel) (q : Nat) {f : Pty → Pty} (hw : (f (k.pty q)).inputWaiters = (k.pty q).inputWaiters)
    (hr : (f (k.pty q)).inputRing = (k.pty q).inputRing) (hl : (f (k.pty q)).lineBuf = (k.pty q).lineBuf) :
    SameInput k (k.modify q f) := by
  intro r
  by_cases hrq : r = q
  · rw [hrq, pty_modify_self]
    exact ⟨hw, hr, hl⟩
  · rw [pty_modify_of_ne k f hrq]
    exact ⟨rfl, rfl, rfl⟩

theorem ptyOutputWakeOne_quiet (k : Kernel) (q : Nat) :
    SameInput k (ptyOutputWakeOne k q) ∧ Calmer k (ptyOutputWakeOne k q) := by
  unfold ptyOutputWakeOne
  split
  · exact ⟨fun _ => ⟨rfl, rfl, rfl⟩, .refl k⟩
  · rename_i t ts hq
    constructor
    · intro r
      rw [pty_taskUnblock]
      exact sameInput_modify k q (f := fun x => { x with outputWaiters := ts }) rfl rfl rfl r
    · exact (calmer_modify k q (f := fun x => { x with outputWaiters := ts }) (List.Subset.refl _) fun h => h).trans
        (calmer_taskUnblock _ t)

theorem SameInput.trans {k l k' : Kernel} (h : SameInput k l) (h' : SameInput l k') : SameInput k k' := fun q =>
  ⟨(h' q).1.trans (h q).1, (h' q).2.1.trans (h q).2.1, (h' q).2.2.trans (h q).2.2⟩

/-- Output, and a reader of the master that is woken. -/
theorem output_quiet (k : Kernel) (q : Nat) (f : CircBuf UInt8 → CircBuf UInt8) :
    SameInput k (ptyOutputWakeOne (k.modify q fun x => { x with outputRing := f x.outputRing }) q) ∧
      Calmer k (ptyOutputWakeOne (k.modify q fun x => { x with outputRing := f x.outputRing }) q) := by
  obtain ⟨hsame, hcalm⟩ := ptyOutputWakeOne_quiet (k.modify q fun x => { x with outputRing := f x.outputRing }) q
  have hfirst := sameInput_modify k q (f := fun x => { x with outputRing := f x.outputRing }) rfl rfl rfl
  have hcalm' := calmer_modify k q (f := fun x => { x with outputRing := f x.outputRing }) (List.Subset.refl _) fun h => h
  exact ⟨hfirst.trans hsame, hcalm'.trans hcalm⟩

theorem ptyEcho_quiet (k : Kernel) (q : Nat) (data : List UInt8) :
    SameInput k (ptyEcho k q data) ∧ Calmer k (ptyEcho k q data) := by
  unfold ptyEcho
  split
  · exact output_quiet k q fun r => ptyRingWrite r data
  · exact ⟨fun _ => ⟨rfl, rfl, rfl⟩, .refl k⟩

theorem calmer_setLine (k : Kernel) (q : Nat) (f : List UInt8 → List UInt8) :
    Calmer k (k.modify q fun x => { x with lineBuf := f x.lineBuf }) :=
  calmer_modify k q (List.Subset.refl _) fun h => h

/-! ## Waking a reader -/

/-- How many bytes a waiting reader has room for. -/
def InputWaiter.room (w : InputWaiter) : Nat := if w.userBuf = 0 then 0 else w.bufSize

/-- The first reader in the queue has room for `n` bytes, if another one sleeps behind it. -/
def FirstTakes (k : Kernel) (q n : Nat) : Prop :=
  WaitRing.FirstTakes InputWaiter.task (Asleep k q) InputWaiter.room (k.pty q).inputWaiters n

/-- The first reader leaves the queue, awake, with what it takes. -/
structure FirstServed (k k' : Kernel) (q : Nat) (w : InputWaiter) (ws : List InputWaiter) : Prop where
  waiters : (k'.pty q).inputWaiters = ws
  len : (k'.pty q).inputRing.dataLen =
    (k.pty q).inputRing.dataLen - min w.room (k.pty q).inputRing.dataLen
  pty : ∀ r, r ≠ q → k'.pty r = k.pty r
  awake : (k'.task w.task).blocked = false
  task : ∀ u, u ≠ w.task → k'.task u = k.task u

theorem firstServed_ptyInputWakeOne {k : Kernel} {q : Nat} {w : InputWaiter} {ws : List InputWaiter}
    (hq : (k.pty q).inputWaiters = w :: ws) : FirstServed k (ptyInputWakeOne k q) q w ws := by
  have hpop : (k.modify q fun x => { x with inputWaiters := ws }).pty q = { k.pty q with inputWaiters := ws } :=
    pty_modify_self k q _
  unfold ptyInputWakeOne
  rw [hq]
  dsimp only
  rw [hpop]
  dsimp only
  by_cases hcopy : 0 < min w.bufSize (k.pty q).inputRing.dataLen ∧ w.userBuf ≠ 0
  · rw [if_pos hcopy]
    refine ⟨?_, ?_, fun r hr => ?_, awake_taskUnblock_self _ _, fun u hu => ?_⟩
    · rw [pty_taskUnblock, pty_modifyTask, pty_modify_self, hpop]
    · rw [pty_taskUnblock, pty_modifyTask, pty_modify_self]
      refine (Socket.copyOut_dataLen _ _ _ _ _ (Nat.le_refl _)).trans ?_
      unfold InputWaiter.room
      rw [if_neg hcopy.2]
    · rw [pty_taskUnblock, pty_modifyTask, pty_modify_of_ne _ _ hr, pty_modify_of_ne k _ hr]
    · exact (task_taskUnblock_of_ne _ hu).trans (task_modifyTask_of_ne _ _ hu)
  · rw [if_neg hcopy]
    refine ⟨?_, ?_, fun r hr => ?_, awake_taskUnblock_self _ _, fun u hu => ?_⟩
    · rw [pty_taskUnblock, pty_modifyTask, hpop]
    · rw [pty_taskUnblock, pty_modifyTask, hpop]
      unfold InputWaiter.room
      by_cases hbuf : w.userBuf = 0
      · rw [if_pos hbuf, Nat.zero_min, Nat.sub_zero]
      · have hnone : min w.bufSize (k.pty q).inputRing.dataLen = 0 :=
          Nat.eq_zero_of_not_pos fun hpos => hcopy ⟨hpos, hbuf⟩
        rw [if_neg hbuf, hnone, Nat.sub_zero]
    · rw [pty_taskUnblock, pty_modifyTask, pty_modify_of_ne k _ hr]
    · exact (task_taskUnblock_of_ne _ hu).trans (task_modifyTask_of_ne _ _ hu)

/-- Whoever sleeps when a reader has been woken is another task, and slept before. -/
theorem FirstServed.asleep {k k' : Kernel} {q : Nat} {w : InputWaiter} {ws : List InputWaiter}
    (h : FirstServed k k' q w ws) {r : Nat} {w' : InputWaiter} (hw' : Asleep k' r w') :
    w'.task ≠ w.task ∧ Asleep k r w' := by
  obtain ⟨hb, hr⟩ := hw'
  have hne : w'.task ≠ w.task := by
    intro he
    rw [he, h.awake] at hb
    cases hb
  rw [h.task _ hne] at hb hr
  exact ⟨hne, hb, hr⟩

theorem ptyInputWakeOne_nil {k : Kernel} {q : Nat} (hq : (k.pty q).inputWaiters = []) : ptyInputWakeOne k q = k := by
  unfold ptyInputWakeOne
  rw [hq]

theorem calmer_ptyInputWakeOne (k : Kernel) (q : Nat) : Calmer k (ptyInputWakeOne k q) := by
  cases hq : (k.pty q).inputWaiters with
  | nil =>
    rw [ptyInputWakeOne_nil hq]
    exact .refl k
  | cons w ws =>
    have hs := firstServed_ptyInputWakeOne hq
    have hasleep : ∀ r w', Asleep (ptyInputWakeOne k q) r w' → Asleep k r w' := fun r w' hw' => (hs.asleep hw').2
    refine ⟨fun r => ?_, fun u r hb hr => hasleep r ⟨u, 0, 0⟩ ⟨hb, hr⟩, fun r hr => ?_⟩
    · by_cases hrq : r = q
      · rw [hrq, hs.waiters, hq]
        exact List.subset_cons_self w ws
      · rw [hs.pty r hrq]
        exact List.Subset.refl _
    · by_cases hrq : r = q
      · rw [hrq] at hr ⊢
        rw [hs.len, hr, Nat.zero_sub]
      · rw [hs.pty r hrq]
        exact hr

theorem calmer_ptyInputWakeAll (k : Kernel) (q : Nat) : Calmer k (ptyInputWakeAll k q) := by
  unfold ptyInputWakeAll
  generalize (k.pty q).inputWaiters = ws
  induction ws generalizing k with
  | nil => exact .refl k
  | cons w ws ih => exact (calmer_ptyInputWakeOne k q).trans (ih _)

/-- The ring has grown by `n` bytes, and a reader is woken. -/
theorem readersAwake_wake {k l : Kernel} (h : ReadersAwake k) {q n : Nat} (hf : FirstTakes k q n)
    (hlen : (l.pty q).inputRing.dataLen = (k.pty q).inputRing.dataLen + n)
    (hqueue : ∀ r, (l.pty r).inputWaiters = (k.pty r).inputWaiters)
    (hother : ∀ r, r ≠ q → (l.pty r).inputRing.dataLen = (k.pty r).inputRing.dataLen)
    (hasleep : ∀ r w, Asleep l r w → Asleep k r w) : ReadersAwake (ptyInputWakeOne l q) := by
  cases hq : (k.pty q).inputWaiters with
  | nil =>
    rw [ptyInputWakeOne_nil ((hqueue q).trans hq)]
    intro r
    rw [hqueue r]
    by_cases hrq : r = q
    · rw [hrq, hq]
      exact WaitRing.awake_nil _ _
    · rw [hother r hrq]
      exact (h r).mono (fun w hw hsleep => ⟨hw, hasleep r w hsleep⟩) fun hz => hz
  | cons w ws =>
    have hs := firstServed_ptyInputWakeOne ((hqueue q).trans hq)
    intro r
    by_cases hrq : r = q
    · have hbefore := h q
      have htakes := hf
      unfold FirstTakes at htakes
      rw [hq] at hbefore htakes
      rw [hrq, hs.waiters, hs.len, hlen]
      exact hbefore.serve htakes fun w' _ hw' => ⟨(hs.asleep hw').1, hasleep q w' (hs.asleep hw').2⟩
    · rw [hs.pty r hrq, hqueue r, hother r hrq]
      exact (h r).mono (fun w' hw' hsleep => ⟨hw', hasleep r w' (hs.asleep hsleep).2⟩) fun hz => hz

/-! ## Input -/

/-- How many bytes a character sends from the line, or past it, to the readers. -/
def flushed (x : Pty) (c : UInt8) : Nat :=
  let room := ptyRingSize - x.inputRing.dataLen
  if x.attr.isIntr c then 0
  else if x.attr.isEof c then min x.lineBuf.length room
  else if x.attr.icanon then
    if x.attr.isErase c || c = x.attr.ccVkill then 0
    else if isNewline c then min (lineAppend x.lineBuf 10).length room
    else 0
  else min 1 room

theorem ptyRingWrite_dataLen (r : CircBuf UInt8) (data : List UInt8) :
    (ptyRingWrite r data).dataLen = r.dataLen + min data.length (ptyRingSize - r.dataLen) := by
  unfold ptyRingWrite
  show r.dataLen + (data.take _).length = _
  rw [List.length_take, Nat.min_comm]

/-- `data` goes into the ring, and a reader is woken. -/
theorem readersAwake_put {k : Kernel} (h : ReadersAwake k) {q : Nat} {data : List UInt8} (line : List UInt8)
    (hf : FirstTakes k q (min data.length (ptyRingSize - (k.pty q).inputRing.dataLen))) :
    ReadersAwake (ptyInputWakeOne (k.modify q fun x =>
      { x with inputRing := ptyRingWrite x.inputRing data, lineBuf := line }) q) := by
  refine readersAwake_wake h hf ?_ (fun r => ?_) (fun r hr => ?_) fun r w hw => hw
  · rw [pty_modify_self]
    exact ptyRingWrite_dataLen _ _
  · by_cases hrq : r = q
    · rw [hrq, pty_modify_self]
    · rw [pty_modify_of_ne k _ hrq]
  · rw [pty_modify_of_ne k _ hr]

theorem readersAwake_ptyLdiscFlushLine {k : Kernel} (h : ReadersAwake k) {q : Nat}
    (hf : FirstTakes k q (min (k.pty q).lineBuf.length (ptyRingSize - (k.pty q).inputRing.dataLen))) :
    ReadersAwake (ptyLdiscFlushLine k q) :=
  readersAwake_put h [] hf

theorem calmer_ptyKillLine (k : Kernel) (q : Nat) : Calmer k (ptyKillLine k q) := by
  have hline := calmer_setLine k q fun _ => []
  unfold ptyKillLine
  dsimp only
  split
  · exact hline.trans (output_quiet _ q fun r => (k.pty q).lineBuf.foldl (fun r _ => ptyRingWrite r eraseEcho) r).2
  · exact hline

theorem calmer_ptyInterrupt (k : Kernel) (q : Nat) : Calmer k (ptyInterrupt k q) := by
  unfold ptyInterrupt
  cases (k.pty q).foreground with
  | none => exact (calmer_setLine k q fun _ => []).trans (calmer_ptyInputWakeAll _ q)
  | some fg =>
    exact ((calmer_taskIpcSignalRaise k fg exitSigint).trans (calmer_setLine _ q fun _ => [])).trans
      (calmer_ptyInputWakeAll _ q)

theorem readersAwake_ptyLdiscInput {k : Kernel} (h : ReadersAwake k) {q : Nat} {c : UInt8}
    (hf : FirstTakes k q (flushed (k.pty q) c)) : ReadersAwake (ptyLdiscInput k q c) := by
  unfold ptyLdiscInput
  unfold flushed at hf
  dsimp only at hf ⊢
  by_cases hintr : (k.pty q).attr.isIntr c = true
  · rw [if_pos hintr]
    exact (calmer_ptyInterrupt k q).awake h
  rw [if_neg hintr] at hf ⊢
  by_cases heof : (k.pty q).attr.isEof c = true
  · rw [if_pos heof] at hf ⊢
    exact readersAwake_ptyLdiscFlushLine h hf
  rw [if_neg heof] at hf ⊢
  by_cases hcanon : (k.pty q).attr.icanon = true
  · rw [if_pos hcanon] at hf ⊢
    by_cases herase : (k.pty q).attr.isErase c = true
    · rw [if_pos herase]
      split
      · exact h
      · exact ((calmer_setLine k q List.dropLast).trans (ptyEcho_quiet _ q eraseEcho).2).awake h
    rw [if_neg herase]
    by_cases hkill : c = (k.pty q).attr.ccVkill
    · rw [if_pos hkill]
      exact (calmer_ptyKillLine k q).awake h
    rw [if_neg hkill]
    rw [if_neg (by simp [herase, hkill])] at hf
    by_cases hnl : isNewline c = true
    · -- the line with its newline goes to the readers
      rw [if_pos hnl] at hf ⊢
      have hline := calmer_setLine k q fun l => lineAppend l 10
      obtain ⟨hsame, hcalm⟩ := ptyEcho_quiet (k.modify q fun x => { x with lineBuf := lineAppend x.lineBuf 10 }) q [13, 10]
      have hboth := hline.trans hcalm
      obtain ⟨hw, hr, hl⟩ := hsame q
      rw [pty_modify_self] at hw hr hl
      refine readersAwake_ptyLdiscFlushLine (hboth.awake h) ?_
      rw [hr, hl]
      unfold FirstTakes
      rw [hw]
      exact hf.mono fun _ _ => hboth.asleep
    · rw [if_neg hnl]
      split
      · exact ((calmer_setLine k q (· ++ [c])).trans (ptyEcho_quiet _ q [c]).2).awake h
      · exact h
  · rw [if_neg hcanon] at hf ⊢
    refine (ptyEcho_quiet _ q [c]).2.awake ?_
    exact readersAwake_put h (k.pty q).lineBuf hf

/-- The condition of each character, in the state it finds. -/
def InputOk (k : Kernel) (q : Nat) : List UInt8 → Prop
  | [] => True
  | c :: cs => FirstTakes k q (flushed (k.pty q) c) ∧ InputOk (ptyLdiscInput k q c) q cs

theorem readersAwake_input {k : Kernel} {q : Nat} {data : List UInt8} (h : ReadersAwake k) (hok : InputOk k q data) :
    ReadersAwake (data.foldl (fun k c => ptyLdiscInput k q c) k) := by
  induction data generalizing k with
  | nil => exact h
  | cons c cs ih =>
    obtain ⟨hf, hok⟩ := hok
    exact ih (readersAwake_ptyLdiscInput h hf) hok

/-! ## Reading and writing -/

/-- A reader goes to sleep at an empty ring. -/
theorem readersAwake_waitRead {k : Kernel} (h : ReadersAwake k) {q : Nat} {w : InputWaiter}
    (hempty : (k.pty q).inputRing.dataLen = 0) :
    ReadersAwake ((k.modify q fun x => { x with inputWaiters := x.inputWaiters ++ [w] }).modifyTask w.task fun x =>
      { x with blocked := true, reading := some q }) := by
  intro r w' hw' ⟨hb, hr⟩
  rw [pty_modifyTask] at hw' ⊢
  by_cases hrq : r = q
  · rw [hrq, pty_modify_self]
    exact hempty
  · rw [pty_modify_of_ne k _ hrq] at hw' ⊢
    refine h r w' hw' ?_
    by_cases ht : w'.task = w.task
    · -- the new reader sleeps at `q`
      rw [ht, task_modifyTask_self] at hr
      exact absurd (Option.some.inj hr).symm hrq
    · rw [task_modifyTask_of_ne _ _ ht] at hb hr
      exact ⟨hb, hr⟩

theorem readersAwake_ptySlaveRead {k : Kernel} (h : ReadersAwake k) (t : Tid) (q size : Nat) (noMem : Bool) :
    ReadersAwake (ptySlaveRead k t q size noMem).kernel := by
  unfold ptySlaveRead
  split
  · exact h
  · split
    · -- what is read leaves the ring
      refine (calmer_modify k q (f := fun x => { x with inputRing := ((k.pty q).inputRing.get _).2 })
        (List.Subset.refl _) fun hr => ?_).awake h
      show (k.pty q).inputRing.dataLen - _ = 0
      rw [hr, Nat.zero_sub]
    · rename_i hempty
      split
      · exact h
      · split
        · exact h
        · exact readersAwake_waitRead h (w := ⟨t, (k.task t).userBuf, size⟩) (Nat.eq_zero_of_not_pos hempty)

theorem readersAwake_ptyMasterRead {k : Kernel} (h : ReadersAwake k) (t : Tid) (q size : Nat) (noMem : Bool) :
    ReadersAwake (ptyMasterRead k t q size noMem).kernel := by
  unfold ptyMasterRead
  split
  · exact h
  · split
    · exact (calmer_modify k q (f := fun x => { x with outputRing := ((k.pty q).outputRing.get _).2 })
        (List.Subset.refl _) fun hr => hr).awake h
    · split
      · exact h
      · split
        · exact h
        · have hqueue := calmer_modify k q (f := fun x => { x with outputWaiters := x.outputWaiters ++ [t] })
            (List.Subset.refl _) fun hr => hr
          exact (hqueue.trans (calmer_sleep _ t)).awake h

theorem readersAwake_ptySlaveWrite {k : Kernel} (h : ReadersAwake k) (q : Nat) (data : List UInt8) :
    ReadersAwake (ptySlaveWrite k q data).kernel := by
  unfold ptySlaveWrite
  split
  · exact h
  · show ReadersAwake (ptyLdiscOutput k q data).2
    unfold ptyLdiscOutput
    split
    · exact h
    · have hout : ∀ (r : CircBuf UInt8) (n : Nat), ReadersAwake (if 0 < n then
          ptyOutputWakeOne (k.modify q fun x => { x with outputRing := r }) q
          else k.modify q fun x => { x with outputRing := r }) := by
        intro r n
        split
        · exact (output_quiet k q fun _ => r).2.awake h
        · exact (calmer_modify k q (f := fun x => { x with outputRing := r }) (List.Subset.refl _) fun hr => hr).awake h
      dsimp only
      split
      · exact hout _ _
      · exact hout _ _

theorem readersAwake_readResult {o : Outcome} (ho : ReadersAwake o.kernel) (t : Tid) (buf : Nat) (copyFails : Bool) :
    ReadersAwake (readResult t buf copyFails o).kernel := by
  cases o with
  | sleeps k => exact ho
  | returns n bytes k =>
    dsimp only [readResult]
    split
    · exact ho
    · split
      · exact ho
      · exact (calmer_modifyTask k t (f := fun x => { x with mem := Socket.storeUser x.mem buf bytes })
          fun _ hb hr => ⟨hb, hr⟩).awake ho

theorem readersAwake_setUserBuf {k : Kernel} (h : ReadersAwake k) (t : Tid) (buf : Nat) :
    ReadersAwake (setUserBuf k t buf) :=
  (calmer_modifyTask k t (f := fun x => { x with userBuf := buf }) fun _ hb hr => ⟨hb, hr⟩).awake h

theorem readersAwake_sysRead {k : Kernel} (h : ReadersAwake k) (t : Tid) (side : Side) (q buf len : Nat) (f : Fails) :
    ReadersAwake (sysRead k t side q buf len f).kernel := by
  have hbuf := readersAwake_setUserBuf h t buf
  unfold sysRead
  split
  · exact h
  · cases side with
    | slave => exact readersAwake_readResult (readersAwake_ptySlaveRead hbuf t q len f.waiter) t buf f.copy
    | master => exact readersAwake_readResult (readersAwake_ptyMasterRead hbuf t q len f.waiter) t buf f.copy

theorem readersAwake_sysReadStdin {k : Kernel} (h : ReadersAwake k) (t : Tid) (q buf len : Nat) (f : Fails) :
    ReadersAwake (sysReadStdin k t q buf len f).kernel := by
  have hfg := (calmer_modify k q (f := fun x => { x with foreground := some t }) (List.Subset.refl _) fun hr => hr).awake h
  have hbuf := readersAwake_setUserBuf hfg t buf
  unfold sysReadStdin
  split
  · exact h
  · split
    · exact h
    · dsimp only
      split
      · exact hbuf
      · exact readersAwake_readResult (readersAwake_ptySlaveRead hbuf t q len f.waiter) t buf f.copy

/-! ## Runs -/

/-- What is typed, or written to the master, finds at each character a first reader that takes
all it sends to the readers, if another one sleeps behind it. -/
def ReadersGuard (k : Kernel) : Op → Prop
  | .write _ .master q data f => ¬(syscallStackBuf < data.length ∧ f.kbuf = true) → f.copy = false → InputOk k q data
  | .key q data => InputOk k q data
  | _ => True

theorem readersAwake_sysWrite {k : Kernel} (h : ReadersAwake k) (side : Side) (q : Nat) (data : List UInt8) (f : Fails)
    (hok : side = .master → ¬(syscallStackBuf < data.length ∧ f.kbuf = true) → f.copy = false → InputOk k q data) :
    ReadersAwake (sysWrite k side q data f).kernel := by
  unfold sysWrite
  split
  · exact h
  · split
    · exact h
    · rename_i hkbuf hcopy
      cases side with
      | slave => exact readersAwake_ptySlaveWrite h q data
      | master =>
        have hinput := readersAwake_input h (hok rfl hkbuf (Bool.eq_false_of_not_eq_true hcopy))
        dsimp only [vfsWrite]
        unfold ptyMasterWrite
        split
        · exact h
        · exact hinput

theorem ReadersAwake.step {k k' : Kernel} {op : Op} (h : ReadersAwake k) (hg : ReadersGuard k op)
    (hs : step k op = some k') : ReadersAwake k' := by
  cases op with
  | read t side q buf len f =>
    obtain ⟨-, hs⟩ := ite_none_left_eq_some.mp hs
    cases hs
    exact readersAwake_sysRead h t side q buf len f
  | readStdin t q buf len f =>
    obtain ⟨-, hs⟩ := ite_none_left_eq_some.mp hs
    cases hs
    exact readersAwake_sysReadStdin h t q buf len f
  | write t side q data f =>
    obtain ⟨-, hs⟩ := ite_none_left_eq_some.mp hs
    cases hs
    refine readersAwake_sysWrite h side q data f fun hside => ?_
    cases hside
    exact hg
  | key q data =>
    cases hs
    exact readersAwake_input h hg
  | setAttr q attr =>
    cases hs
    exact (calmer_modify k q (f := fun x => { x with attr := attr }) (List.Subset.refl _) fun hr => hr).awake h
  | sleep t =>
    obtain ⟨-, hs⟩ := ite_none_left_eq_some.mp hs
    cases hs
    exact (calmer_sleep k t).awake h
  | signal t sig =>
    cases hs
    exact (calmer_taskIpcSignalRaise k t sig).awake h
  | wake t =>
    cases hs
    exact (calmer_taskUnblock k t).awake h

def ReadersStep (k k' : Kernel) : Prop := ∃ op, ReadersGuard k op ∧ step k op = some k'

def Step (k k' : Kernel) : Prop := ∃ op, step k op = some k'

def NoReaders (k : Kernel) : Prop := ∀ q, (k.pty q).inputWaiters = []

theorem NoReaders.awake {k : Kernel} (h : NoReaders k) : ReadersAwake k := by
  intro q
  rw [h q]
  exact WaitRing.awake_nil _ _

/-- No reader of a socket, a pipe or a terminal sleeps over data, in any run in which the reader
that is woken takes all that is stored whenever another one sleeps behind it. -/
theorem readers_awake {k : Socket.Kernel} {s : Ipc.Streams} {c : Kernel}
    (hk : Run.Reachable Socket.NoReaders Socket.ReadersStep k)
    (hs : Run.Reachable Ipc.Streams.Init Ipc.Streams.ReadersStep s) (hc : Run.Reachable NoReaders ReadersStep c) :
    Socket.ReadersAwake k ∧ s.ReadersAwake ∧ ReadersAwake c := by
  refine ⟨?_, ?_, ?_⟩
  · exact hk.invariant Socket.ReadersAwake (fun _ hn => hn.awake) fun _ _ ha ⟨_, _, hg, hs⟩ => ha.step hg hs
  · exact hs.invariant Ipc.Streams.ReadersAwake (fun _ hi => hi.readersAwake) fun _ _ ha ⟨_, hg, hs⟩ => ha.step hg hs
  · exact hc.invariant ReadersAwake (fun _ hn => hn.awake) fun _ _ ha ⟨_, hg, hs⟩ => ha.step hg hs

/-! ## Two readers -/

/-- A pair of sockets, one of which tasks 2 and 3 share; task 1 has the other. -/
def sharedPair : Socket.Kernel :=
  { Socket.noSockets with
    sock := fun s => { Socket.newSock .stream fun _ => 0 with
      state := .connected, peer := some (if s = 10 then 11 else 10) }
    fds := [⟨1, 0, 11⟩, ⟨2, 0, 10⟩, ⟨3, 0, 10⟩] }

def quietTerminal : Kernel where
  task := fun _ => ⟨false, 0, 0, 0, fun _ => 0, none⟩
  pty := fun _ => ⟨true, ptyDefaultAttr, ⟨fun _ => 0, ptyRingSize, 0, 0, 0⟩, ⟨fun _ => 0, ptyRingSize, 0, 0, 0⟩, [], none,
    [], [], 0, 1⟩

/-- Two tasks wait for one byte each, and two bytes come at once: the second task sleeps on. -/
theorem not_always_readers_awake :
    (¬∀ k, Run.Reachable Socket.NoReaders Socket.ReadWrite k → Socket.ReadersAwake k) ∧
    (¬∀ s, Run.Reachable Ipc.Streams.Init Ipc.Streams.Step s → s.ReadersAwake) ∧
    (¬∀ k, Run.Reachable NoReaders Step k → ReadersAwake k) := by
  refine ⟨fun h => ?_, fun h => ?_, fun h => ?_⟩
  · have hrun : (Run.exec Socket.next sharedPair [(2, .recv 0 0x400000 1 ⟨false, false, false⟩),
        (3, .recv 0 0x400000 1 ⟨false, false, false⟩), (1, .send 0 0x400000 [7, 8] ⟨false, false, false⟩)]).map
          (fun k => ((k.sock 10).waiters .read, (k.task 3).blocked, (k.task 3).inCall, (k.sock 10).ring.dataLen)) =
          some ([⟨3, 0x400000, 1⟩], true, some (.read 10 0x400000 1, 10, .read), 1) := rfl
    obtain ⟨k, hk, heq⟩ := Option.map_eq_some_iff.mp hrun
    simp only [Prod.mk.injEq] at heq
    obtain ⟨hq, hb, hc, hlen⟩ := heq
    have hreach : Run.Reachable Socket.NoReaders Socket.ReadWrite k :=
      Run.Reachable.execOn (fun op hop _ _ hs => ⟨op.1, op.2, by
        simp only [List.mem_cons, List.not_mem_nil, or_false] at hop
        obtain rfl | rfl | rfl := hop <;> rfl, hs⟩) (.start fun _ => rfl) hk
    have hzero := h k hreach 10 ⟨3, 0x400000, 1⟩ (by rw [hq]; exact List.mem_singleton_self _) ⟨hb, hc⟩
    rw [hlen] at hzero
    cases hzero
  · have hrun : (Run.exec Ipc.Streams.step Ipc.Streams.noPipes [.pipe 0x00400000 0 (fun _ => 0) ⟨false, false, false, false⟩,
        .call 2 0 true (.read 1) false, .call 3 0 true (.read 1) false, .call 1 0 false (.write [7, 8]) false]).map
          (fun s => ((s.k.pipe 0).readWaiters, (s.k.task 3).state, s.calls 3, (s.k.pipe 0).ring.dataLen)) =
          some ([3], .blocked, some (0, true, .read 1), 2) := rfl
    obtain ⟨s, hs, heq⟩ := Option.map_eq_some_iff.mp hrun
    simp only [Prod.mk.injEq] at heq
    obtain ⟨hq, hb, hc, hlen⟩ := heq
    have hinit : Ipc.Streams.Init Ipc.Streams.noPipes := ⟨fun _ => rfl, fun _ => rfl, fun _ => rfl, fun _ => rfl⟩
    have hreach : Run.Reachable Ipc.Streams.Init Ipc.Streams.Step s :=
      (Run.Reachable.start hinit).exec (fun _ op _ hstep => ⟨op, hstep⟩) hs
    have hzero := h s hreach 0 3 (by rw [hq]; exact List.mem_singleton_self _) ⟨hb, 1, hc⟩
    rw [hlen] at hzero
    cases hzero
  · have hrun : (Run.exec step quietTerminal [.read 2 .slave 0 0x400000 1 ⟨false, false, false⟩,
        .read 3 .slave 0 0x400000 1 ⟨false, false, false⟩, .key 0 [97, 10]]).map
          (fun k => ((k.pty 0).inputWaiters, (k.task 3).blocked, (k.task 3).reading, (k.pty 0).inputRing.dataLen)) =
          some ([⟨3, 0x400000, 1⟩], true, some 0, 1) := rfl
    obtain ⟨k, hk, heq⟩ := Option.map_eq_some_iff.mp hrun
    simp only [Prod.mk.injEq] at heq
    obtain ⟨hq, hb, hc, hlen⟩ := heq
    have hreach : Run.Reachable NoReaders Step k :=
      Run.Reachable.exec (fun _ op _ hstep => ⟨op, hstep⟩) (.start fun _ => rfl) hk
    have hzero := h k hreach 0 ⟨3, 0x400000, 1⟩ (by rw [hq]; exact List.mem_singleton_self _) ⟨hb, hc⟩
    rw [hlen] at hzero
    cases hzero

/-- Two tasks wait for one byte each at a socket, and one byte comes. -/
theorem one_byte_socket : ∃ k, Run.Reachable Socket.NoReaders Socket.ReadersStep k ∧
    (k.sock 10).waiters .read = [⟨3, 0x400000, 1⟩] := by
  have hrun : (Run.exec Socket.next sharedPair [(2, .recv 0 0x400000 1 ⟨false, false, false⟩),
      (3, .recv 0 0x400000 1 ⟨false, false, false⟩)]).map (fun k => ((k.sock 10).waiters .read,
        Socket.sockFromFd k 1 0, Socket.stored k 11 [7],
        (Socket.next k (1, .send 0 0x400000 [7] ⟨false, false, false⟩)).map fun k => (k.sock 10).waiters .read)) =
        some ([⟨2, 0x400000, 1⟩, ⟨3, 0x400000, 1⟩], some 11, some (10, 1), some [⟨3, 0x400000, 1⟩]) := rfl
  obtain ⟨k, hk, heq⟩ := map_eq_some_iff.mp hrun
  simp only [Prod.mk.injEq] at heq
  obtain ⟨hq, hfd, hstored, hnext⟩ := heq
  obtain ⟨k', hk', hq'⟩ := map_eq_some_iff.mp hnext
  have hreach : Run.Reachable Socket.NoReaders Socket.ReadersStep k :=
    Run.Reachable.execOn (fun op hop _ _ hs => ⟨op.1, op.2, by
      simp only [List.mem_cons, List.not_mem_nil, or_false] at hop
      obtain rfl | rfl := hop <;> trivial, hs⟩) (.start fun _ => rfl) hk
  refine ⟨k', hreach.step ⟨1, .send 0 0x400000 [7] _, fun _ _ _ s p n hs hn => ?_, hk'⟩, hq'⟩
  rw [hfd] at hs
  cases hs
  rw [hstored] at hn
  cases hn
  exact .head hq (by decide)

/-- A task waits at a pipe, and two bytes come. -/
theorem two_bytes_pipe : ∃ s, Run.Reachable Ipc.Streams.Init Ipc.Streams.ReadersStep s ∧
    (s.k.pipe 0).ring.dataLen = 2 := by
  have hrun : (Run.exec Ipc.Streams.step Ipc.Streams.noPipes [.pipe 0x00400000 0 (fun _ => 0) ⟨false, false, false, false⟩,
      .call 2 0 true (.read 1) false]).map (fun s => ((s.k.pipe 0).readWaiters,
        (s.step (.call 1 0 false (.write [7, 8]) false)).map fun s => (s.k.pipe 0).ring.dataLen)) =
        some ([2], some 2) := rfl
  obtain ⟨s, hs, heq⟩ := map_eq_some_iff.mp hrun
  obtain ⟨hq, hnext⟩ := Prod.mk.inj heq
  obtain ⟨s', hs', hlen⟩ := map_eq_some_iff.mp hnext
  have hinit : Ipc.Streams.Init Ipc.Streams.noPipes := ⟨fun _ => rfl, fun _ => rfl, fun _ => rfl, fun _ => rfl⟩
  have hreach : Run.Reachable Ipc.Streams.Init Ipc.Streams.ReadersStep s :=
    Run.Reachable.execOn (fun op hop _ _ hstep => ⟨op, by
      simp only [List.mem_cons, List.not_mem_nil, or_false] at hop
      obtain rfl | rfl := hop <;> trivial, hstep⟩) (.start hinit) hs
  refine ⟨s', hreach.step ⟨.call 1 0 false (.write [7, 8]) false, ?_, hs'⟩, hlen⟩
  intro w ws hw ⟨w', hmem, _⟩
  rw [hq] at hw
  cases hw
  cases hmem

/-- Two tasks wait for one byte each at a terminal, and an empty line comes. -/
theorem one_line_terminal : ∃ k, Run.Reachable NoReaders ReadersStep k ∧
    (k.pty 0).inputWaiters = [⟨3, 0x400000, 1⟩] := by
  have hrun : (Run.exec step quietTerminal [.read 2 .slave 0 0x400000 1 ⟨false, false, false⟩,
      .read 3 .slave 0 0x400000 1 ⟨false, false, false⟩]).map (fun k => ((k.pty 0).inputWaiters,
        flushed (k.pty 0) 10, (step k (.key 0 [10])).map fun k => (k.pty 0).inputWaiters)) =
        some ([⟨2, 0x400000, 1⟩, ⟨3, 0x400000, 1⟩], 1, some [⟨3, 0x400000, 1⟩]) := rfl
  obtain ⟨k, hk, heq⟩ := map_eq_some_iff.mp hrun
  simp only [Prod.mk.injEq] at heq
  obtain ⟨hq, hflush, hnext⟩ := heq
  obtain ⟨k', hk', hq'⟩ := map_eq_some_iff.mp hnext
  have hreach : Run.Reachable NoReaders ReadersStep k :=
    Run.Reachable.execOn (fun op hop _ _ hstep => ⟨op, by
      simp only [List.mem_cons, List.not_mem_nil, or_false] at hop
      obtain rfl | rfl := hop <;> trivial, hstep⟩) (.start fun _ => rfl) hk
  refine ⟨k', hreach.step ⟨.key 0 [10], ⟨?_, trivial⟩, hk'⟩, hq'⟩
  rw [hflush]
  exact .head hq (by decide)

/-- What comes goes to the first reader, and nobody sleeps over it. -/
theorem readers_awake_one_byte : ∃ (k : Socket.Kernel) (s : Ipc.Streams) (c : Kernel), (k.sock 10).waiters .read = [⟨3, 0x400000, 1⟩] ∧
    (s.k.pipe 0).ring.dataLen = 2 ∧ (c.pty 0).inputWaiters = [⟨3, 0x400000, 1⟩] ∧
    Socket.ReadersAwake k ∧ s.ReadersAwake ∧ ReadersAwake c := by
  obtain ⟨k, hk, hkq⟩ := one_byte_socket
  obtain ⟨s, hs, hsq⟩ := two_bytes_pipe
  obtain ⟨c, hc, hcq⟩ := one_line_terminal
  exact ⟨k, s, c, hkq, hsq, hcq, readers_awake hk hs hc⟩

end Serotonin.Tty
