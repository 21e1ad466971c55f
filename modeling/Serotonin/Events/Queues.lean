import Serotonin.Lib.Ledger
import Serotonin.Events.Model

/-! What becomes of events. A device keeps a ledger: of all that was pushed, in order, each event was
delivered, dropped as the oldest of a full ring, overwritten by the move behind it, or is in the ring.
A task waits only while the ring is empty. -/

namespace Serotonin.Events

open Function List
open Ledger

variable {ε : Type} {k : Kind ε} {copies : Copies} {dev : Device ε} {tasks : Nat → Task} {r : Request}

namespace Device

def ring (dev : Device ε) (k : Kind ε) : CircBuf ε :=
  ⟨dev.eventBuffer, k.bufferSize, dev.eventTail, dev.eventHead, dev.eventCount⟩

def unread (dev : Device ε) (k : Kind ε) : List ε := (dev.ring k).contents

def events (dev : Device ε) : List ε := dev.delivered.map (·.event)

@[simp] theorem events_give (dev : Device ε) (task buffer : Nat) (event : ε) :
    (dev.give task buffer event).events = dev.events ++ [event] := by
  simp [events, give]

/-! ## The ring -/

structure Valid (dev : Device ε) (k : Kind ε) : Prop where
  ring : (dev.ring k).Valid
  tail : dev.eventTail < k.bufferSize

theorem length_unread (dev : Device ε) (k : Kind ε) : (dev.unread k).length = dev.eventCount := CircBuf.contents_length _

theorem Valid.store (h : dev.Valid k) (event : ε) (hroom : dev.eventCount < k.bufferSize) :
    (dev.store k event).Valid k ∧ (dev.store k event).unread k = dev.unread k ++ [event] := by
  obtain ⟨hcontents, hvalid⟩ := CircBuf.contents_put h.ring (show (dev.ring k).dataLen + [event].length ≤ (dev.ring k).size from hroom)
  exact ⟨⟨hvalid, h.tail⟩, hcontents⟩

theorem Valid.advance (h : dev.Valid k) (hsome : 0 < dev.eventCount) :
    (dev.advance k).Valid k ∧ dev.unread k = dev.eventBuffer dev.eventTail :: (dev.advance k).unread k := by
  obtain ⟨hcontents, hvalid, htail⟩ := CircBuf.contents_get h.ring h.tail (n := 1) hsome
  exact ⟨⟨hvalid, htail⟩, hcontents⟩

/-- The cell of the event that was stored last. -/
theorem Valid.last_eq (h : dev.Valid k) (hsome : 0 < dev.eventCount) :
    dev.last k = (dev.eventTail + (dev.eventCount - 1)) % k.bufferSize := by
  have hwrite : dev.eventHead = (dev.eventTail + dev.eventCount) % k.bufferSize := h.ring.write
  have hsize : 0 < k.bufferSize := h.ring.size
  have hpred : (dev.eventTail + dev.eventCount) % k.bufferSize + k.bufferSize - 1 =
      (dev.eventTail + dev.eventCount) % k.bufferSize + (k.bufferSize - 1) := by omega
  rw [last, hwrite, hpred, Nat.mod_add_mod]
  have hsum : dev.eventTail + dev.eventCount + (k.bufferSize - 1) = dev.eventTail + (dev.eventCount - 1) + k.bufferSize := by
    omega
  rw [hsum, Nat.add_mod_right]

/-- A new event takes the place of the one that was stored last. -/
theorem Valid.overwrite (h : dev.Valid k) (hsome : 0 < dev.eventCount) (event : ε) :
    ∃ xs, dev.unread k = xs ++ [dev.eventBuffer (dev.last k)] ∧
      ({ dev with eventBuffer := update dev.eventBuffer (dev.last k) event } : Device ε).unread k = xs ++ [event] := by
  have hlen : dev.eventCount ≤ k.bufferSize := h.ring.len
  have hcount : dev.eventCount = dev.eventCount - 1 + 1 := by omega
  have hunread (buf : Nat → ε) : ({ dev with eventBuffer := buf } : Device ε).unread k =
      CircBuf.window buf k.bufferSize dev.eventTail (dev.eventCount - 1) ++ [buf (dev.last k)] := by
    rw [h.last_eq hsome, ← CircBuf.window_snoc, ← hcount]
    rfl
  refine ⟨_, hunread dev.eventBuffer, ?_⟩
  rw [hunread, h.last_eq hsome, CircBuf.window_update (by omega), update_self]

theorem Valid.enqueue (h : dev.Valid k) (event : ε) : (dev.enqueue k event).Valid k := by
  unfold Device.enqueue
  split
  · exact ⟨⟨h.ring.size, h.ring.len, h.ring.write⟩, h.tail⟩
  · have hlen : dev.eventCount ≤ k.bufferSize := h.ring.len
    have hsize : 0 < k.bufferSize := h.ring.size
    split
    · have hcount : (dev.advance k).eventCount = dev.eventCount - 1 := rfl
      exact ((h.advance (by omega)).1.store event (by omega)).1
    · exact (h.store event (by omega)).1

/-! ## The ledger -/

/-- All that was pushed, and what became of it. -/
structure Books (dev : Device ε) (k : Kind ε) (l : List (ε × Fate)) : Prop where
  pushed : l.map Prod.fst = dev.pushed
  waiting : withFate .waiting l = dev.unread k
  kept : Kept k.bufferSize (k.coalesces · ·) l dev.events

variable {l : List (ε × Fate)} {event : ε}

/-- What is pushed without anyone waiting is stored after all. -/
def push (dev : Device ε) (event : ε) : Device ε := { dev with pushed := dev.pushed ++ [event] }

theorem Valid.push (h : dev.Valid k) (event : ε) : (dev.push event).Valid k := ⟨h.ring, h.tail⟩

/-- If the event that was stored last stays as it is, then the new one does not meet it. -/
theorem Books.not_meets (h : dev.Books k l) (hv : dev.Valid k)
    (hstays : ¬(0 < dev.eventCount ∧ k.coalesces (dev.eventBuffer (dev.last k)) event)) :
    ¬Meets (k.coalesces · ·) l event := by
  intro ⟨y, hlast, hjoins⟩
  obtain ⟨l₁, rfl⟩ := List.getLast?_eq_some_iff.mp hlast
  have hunread : withFate .waiting l₁ ++ [y] = dev.unread k := by
    rw [← h.waiting]
    simp
  have hsome : 0 < dev.eventCount := by
    rw [← length_unread dev k, ← hunread]
    simp
  obtain ⟨xs, hxs, -⟩ := hv.overwrite hsome event
  rw [hxs] at hunread
  obtain ⟨-, heq⟩ := append_inj' hunread rfl
  rw [singleton_inj] at heq
  rw [heq] at hjoins
  exact hstays ⟨hsome, hjoins⟩

theorem Books.enqueue (h : dev.Books k l) (hv : dev.Valid k) (event : ε) :
    ∃ l', ((dev.push event).enqueue k event).Books k l' := by
  have hlen : dev.eventCount ≤ k.bufferSize := hv.ring.len
  have hsize : 0 < k.bufferSize := hv.ring.size
  unfold Device.enqueue
  split
  · next hmeets =>
    obtain ⟨xs, hunread, hafter⟩ := (hv.push event).overwrite hmeets.1 event
    obtain ⟨l₁, rfl, hxs⟩ := h.kept.last_waiting (h.waiting.trans hunread)
    refine ⟨_, ?_, ?_, h.kept.joined event hmeets.2⟩
    · show _ = dev.pushed ++ [event]
      rw [← h.pushed]
      simp
    · rw [hafter, ← hxs]
      simp
  · next hstays =>
    have hnot : ¬Meets (k.coalesces · ·) l event := h.not_meets hv hstays
    split
    · next hfull =>
      have hfull' : k.bufferSize ≤ dev.eventCount := hfull
      obtain ⟨hadvanced, hunread⟩ := (hv.push event).advance (by omega : 0 < dev.eventCount)
      have hcount : ((dev.push event).advance k).eventCount = dev.eventCount - 1 := rfl
      obtain ⟨-, hstored⟩ := hadvanced.store event (by omega)
      obtain ⟨l₁, l₂, rfl, hnone, hrest⟩ := exists_of_waiting_cons (h.waiting.trans hunread)
      refine ⟨_, ?_, ?_, h.kept.dropped event hnot hnone ?_⟩
      · show _ = dev.pushed ++ [event]
        rw [← h.pushed]
        simp
      · rw [hstored, ← hrest]
        simp [hnone]
      · rw [h.waiting, length_unread]
        omega
    · next hroom =>
      have hroom' : dev.eventCount < k.bufferSize := Nat.lt_of_not_le hroom
      obtain ⟨-, hstored⟩ := (hv.push event).store event hroom'
      refine ⟨_, ?_, ?_, h.kept.added event hnot ?_⟩
      · show _ = dev.pushed ++ [event]
        rw [← h.pushed]
        simp
      · rw [hstored, withFate_append, h.waiting]
        rfl
      · rw [h.waiting, length_unread]
        exact hroom'

/-- An event goes to a task that waits. -/
theorem Books.pass (h : dev.Books k l) (hempty : dev.eventCount = 0) (task buffer : Nat) (event : ε) :
    ∃ l', ((dev.push event).give task buffer event).Books k l' := by
  have hnone : withFate .waiting l = [] := by
    rw [h.waiting]
    exact CircBuf.contents_eq_nil hempty
  refine ⟨l ++ [(event, .delivered)], ?_, ?_, ?_⟩
  · rw [map_append, h.pushed]
    rfl
  · rw [withFate_append, h.waiting]
    exact append_nil _
  · rw [events_give]
    exact h.kept.passed event hnone

/-- The oldest event goes to a task that reads. -/
theorem Books.take (h : dev.Books k l) (hv : dev.Valid k) (hsome : 0 < dev.eventCount) (task buffer : Nat) :
    ∃ l', ((dev.advance k).give task buffer (dev.eventBuffer dev.eventTail)).Books k l' := by
  obtain ⟨-, hunread⟩ := hv.advance hsome
  obtain ⟨l₁, l₂, rfl, hnone, hrest⟩ := exists_of_waiting_cons (h.waiting.trans hunread)
  refine ⟨l₁ ++ (dev.eventBuffer dev.eventTail, .delivered) :: l₂, ?_, ?_, ?_⟩
  · show _ = dev.pushed
    rw [← h.pushed]
    simp
  · simp only [withFate_append, hnone, withFate_cons, reduceCtorEq, if_false, nil_append, hrest]
    rfl
  · rw [events_give]
    exact h.kept.taken hnone

/-- Those that were delivered and those in the ring are among what was pushed, in its order, and an
event was overwritten only by the one right behind it. -/
structure History (dev : Device ε) (k : Kind ε) (l : List (ε × Fate)) : Prop extends dev.Books k l where
  delivered : withFate .delivered l = dev.events
  followed : Followed (k.coalesces · ·) l
  order : (dev.events ++ dev.unread k).Sublist dev.pushed

theorem Books.history (h : dev.Books k l) : dev.History k l := by
  have hsublist := h.kept.inTurn.sublist
  rw [h.waiting, h.pushed, ← h.kept.delivered_eq] at hsublist
  exact ⟨h, h.kept.delivered_eq.symm, h.kept.followed, hsublist⟩

/-! ## Calls -/

/-- The books are kept, tasks wait only while the ring is empty, and those that wait can be served. -/
structure Account (dev : Device ε) (k : Kind ε) (copies : Copies) : Prop where
  valid : dev.Valid k
  books : ∃ l, dev.Books k l
  empty : dev.waitQueue ≠ [] → dev.eventCount = 0
  served : ∀ w ∈ dev.waitQueue, w.buffer ≠ 0 ∧ k.eventSize ≤ w.bufferSize ∧ copies w.task w.buffer

theorem pushEvent_nil {event : ε} (h : dev.waitQueue = []) :
    pushEvent k copies dev tasks event = ((dev.push event).enqueue k event, tasks) := by
  simp only [pushEvent, push, h]

theorem pushEvent_cons {event : ε} {w : Waiter} {ws : List Waiter} (h : dev.waitQueue = w :: ws) :
    pushEvent k copies dev tasks event =
      ((serve k copies { dev.push event with waitQueue := ws } tasks event w).1,
        taskUnblock (serve k copies { dev.push event with waitQueue := ws } tasks event w).2 w.task) := by
  simp only [pushEvent, h]
  rfl

theorem waitQueue_enqueue (dev : Device ε) (k : Kind ε) (event : ε) : (dev.enqueue k event).waitQueue = dev.waitQueue := by
  unfold Device.enqueue
  split
  · rfl
  · split <;> rfl

theorem Account.pushEvent (h : dev.Account k copies) (tasks : Nat → Task) (event : ε) :
    (pushEvent k copies dev tasks event).1.Account k copies := by
  obtain ⟨hv, ⟨l, hbooks⟩, hempty, hserved⟩ := h
  cases hqueue : dev.waitQueue with
  | nil =>
    rw [pushEvent_nil hqueue]
    have hsame : ((dev.push event).enqueue k event).waitQueue = dev.waitQueue := waitQueue_enqueue _ k event
    refine ⟨(hv.push event).enqueue event, hbooks.enqueue hv event, fun hne => absurd ?_ hne, fun v hmem => hserved v ?_⟩
    · exact hsame.trans hqueue
    · rwa [← hsame]
  | cons w ws =>
    have hnone : dev.eventCount = 0 := hempty (hqueue ▸ cons_ne_nil w ws)
    obtain ⟨hbuffer, hroom, hcopies⟩ := hserved w (hqueue ▸ mem_cons_self)
    rw [pushEvent_cons hqueue, serve, if_pos ⟨hbuffer, hroom⟩, if_pos hcopies]
    obtain ⟨l', hl'⟩ := hbooks.pass hnone w.task w.buffer event
    refine ⟨⟨hv.ring, hv.tail⟩, ⟨l', hl'.pushed, hl'.waiting, hl'.kept⟩, fun _ => hnone, fun v hmem => hserved v ?_⟩
    rw [hqueue]
    exact mem_cons_of_mem w hmem

end Device

/-- The buffer of the task is its own, and is there. -/
structure Request.Valid (r : Request) (copies : Copies) : Prop where
  buffer : r.buffer ≠ 0
  copies : copies r.task r.buffer

namespace Device

theorem Account.readEvent (h : dev.Account k copies) (hr : r.Valid copies) (tasks : Nat → Task) :
    (readEvent k copies dev tasks r).1.Account k copies := by
  unfold Events.readEvent
  split
  · exact h
  · next hsize =>
    split
    · next hsome =>
      obtain ⟨hv, ⟨l, hbooks⟩, hempty, hserved⟩ := h
      rw [takeEvent, if_pos hr.copies]
      have hnone : dev.waitQueue = [] := by
        by_contra hne
        exact absurd (hempty hne) (by omega)
      have hadvanced := (hv.advance hsome).1
      exact ⟨⟨hadvanced.ring, hadvanced.tail⟩, hbooks.take hv hsome r.task r.buffer, fun hne => absurd hnone hne, hserved⟩
    · next hnone =>
      split
      · exact h
      · split
        · exact h
        · obtain ⟨hv, ⟨l, hbooks⟩, hempty, hserved⟩ := h
          refine ⟨⟨hv.ring, hv.tail⟩, ⟨l, hbooks.pushed, hbooks.waiting, hbooks.kept⟩, fun _ => Nat.eq_zero_of_not_pos hnone,
            fun w hmem => ?_⟩
          obtain hold | hnew := mem_append.mp hmem
          · exact hserved w hold
          · rw [mem_singleton.mp hnew]
            exact ⟨hr.buffer, Nat.le_of_not_lt hsize, hr.copies⟩

theorem Account.sysRead (h : dev.Account k copies) (hr : r.Valid copies) (tasks : Nat → Task) :
    (sysRead (Events.readEvent k) copies dev tasks r).1.Account k copies := by
  unfold Events.sysRead
  split
  · exact h
  · split
    · exact h
    · exact h.readEvent hr tasks

/-! ## Tasks that sleep -/

/-- The task is in the queue of the device. -/
def Sleeps (dev : Device ε) (t : Nat) : Prop := ∃ w ∈ dev.waitQueue, w.task = t

@[simp] theorem blocked_setEax (tasks : Nat → Task) (t t' : Nat) (eax : Int) :
    (setEax tasks t eax t').blocked = (tasks t').blocked := by
  by_cases h : t' = t
  · simp [setEax, h]
  · simp [setEax, h]

theorem serve_keeps (k : Kind ε) (copies : Copies) (dev : Device ε) (tasks : Nat → Task) (event : ε) (w : Waiter) (t : Nat) :
    ((serve k copies dev tasks event w).2 t).blocked = (tasks t).blocked ∧
      (serve k copies dev tasks event w).1.waitQueue = dev.waitQueue := by
  unfold serve
  split
  · split
    · exact ⟨blocked_setEax _ _ _ _, rfl⟩
    · exact ⟨blocked_setEax _ _ _ _, rfl⟩
  · exact ⟨rfl, rfl⟩

/-- Who sleeps after a push slept before, and is still in the queue. -/
theorem blocked_pushEvent {event : ε} {t : Nat} (h : ((pushEvent k copies dev tasks event).2 t).blocked) :
    (tasks t).blocked ∧ (dev.Sleeps t → (pushEvent k copies dev tasks event).1.Sleeps t) := by
  cases hqueue : dev.waitQueue with
  | nil =>
    rw [pushEvent_nil hqueue] at h
    refine ⟨h, fun ⟨v, hmem, _⟩ => ?_⟩
    rw [hqueue] at hmem
    exact nomatch hmem
  | cons w ws =>
    rw [pushEvent_cons hqueue] at h ⊢
    obtain ⟨hblocked, hrest⟩ := serve_keeps k copies { dev.push event with waitQueue := ws } tasks event w t
    have hne : t ≠ w.task := by
      intro heq
      simp [taskUnblock, heq] at h
    refine ⟨?_, fun ⟨v, hmem, hv⟩ => ⟨v, ?_, hv⟩⟩
    · simp only [taskUnblock, update_of_ne hne] at h
      rwa [← hblocked]
    · rw [hqueue, mem_cons] at hmem
      obtain rfl | hlater := hmem
      · exact absurd hv.symm hne
      · exact hrest.symm ▸ hlater

/-- Who sleeps after a read slept before, or is in the queue now, and the queue loses no one. -/
theorem blocked_sysRead (k : Kind ε) (copies : Copies) (dev : Device ε) (tasks : Nat → Task) (r : Request) (t : Nat) :
    (((sysRead (readEvent k) copies dev tasks r).2 t).blocked →
      (tasks t).blocked ∨ (sysRead (readEvent k) copies dev tasks r).1.Sleeps t) ∧
      (dev.Sleeps t → (sysRead (readEvent k) copies dev tasks r).1.Sleeps t) := by
  have hsame (dev' : Device ε) (hq : dev'.waitQueue = dev.waitQueue) (eax : Int) :
      ((setEax tasks r.task eax t).blocked → (tasks t).blocked ∨ dev'.Sleeps t) ∧ (dev.Sleeps t → dev'.Sleeps t) := by
    refine ⟨fun h => .inl (by rwa [blocked_setEax] at h), fun ⟨w, hmem, hw⟩ => ⟨w, ?_, hw⟩⟩
    rwa [hq]
  unfold sysRead readEvent takeEvent
  repeat' split
  · exact hsame _ rfl _
  · exact hsame _ rfl _
  · exact hsame _ rfl _
  · exact hsame _ rfl _
  · exact hsame _ rfl _
  · exact hsame _ rfl _
  · exact hsame _ rfl _
  · refine ⟨fun h => ?_, fun ⟨w, hmem, hw⟩ => ⟨w, mem_append_left _ hmem, hw⟩⟩
    by_cases heq : t = r.task
    · exact .inr ⟨_, mem_append_right _ (mem_singleton_self _), heq.symm⟩
    · simp only [sleep, update_of_ne heq] at h
      exact .inl h

end Device

/-! ## Runs -/

namespace Input

/-- At the start nothing was pushed, and no task reads. -/
structure Booted (s : Input) : Prop where
  keyboard : ∃ buf, s.keyboard = ⟨buf, 0, 0, 0, [], [], []⟩
  mouse : ∃ buf, s.mouse = ⟨buf, 0, 0, 0, [], [], []⟩
  tasks : ∀ t, (s.task t).blocked = false

/-- Reads are into buffers of user memory that is there. -/
def Op.Valid (copies : Copies) : Op → Prop
  | .readKeyboard r | .readMouse r => r.Valid copies
  | _ => True

def Step (copies : Copies) (s s' : Input) : Prop := ∃ op, Op.Valid copies op ∧ s.next copies op = some s'

def Reachable (copies : Copies) : Input → Prop := Run.Reachable Booted (Step copies)

structure Sound (copies : Copies) (s : Input) : Prop where
  keyboard : s.keyboard.Account keyboardKind copies
  mouse : s.mouse.Account mouseKind copies
  sleeps : ∀ t, (s.task t).blocked → s.keyboard.Sleeps t ∨ s.mouse.Sleeps t

theorem account_boot (k : Kind ε) (copies : Copies) (hsize : 0 < k.bufferSize) (buf : Nat → ε) :
    (⟨buf, 0, 0, 0, [], [], []⟩ : Device ε).Account k copies where
  valid := ⟨⟨hsize, Nat.zero_le _, (Nat.zero_mod _).symm⟩, hsize⟩
  books := ⟨[], rfl, rfl, .start⟩
  empty := fun _ => rfl
  served := nofun

theorem sound_boot {s : Input} (h : s.Booted) : s.Sound copies := by
  obtain ⟨⟨kbuf, hk⟩, ⟨mbuf, hm⟩, ht⟩ := h
  refine ⟨?_, ?_, fun t hb => absurd hb (by simp [ht])⟩
  · rw [hk]
    exact account_boot _ _ (by decide) _
  · rw [hm]
    exact account_boot _ _ (by decide) _

theorem Sound.step {s s' : Input} (h : s.Sound copies) (hstep : Step copies s s') : s'.Sound copies := by
  obtain ⟨op, hvalid, hnext⟩ := hstep
  cases op with
  | pushKeyboard event =>
    cases hnext
    refine ⟨h.keyboard.pushEvent _ _, h.mouse, fun t hb => ?_⟩
    obtain ⟨hbefore, hstays⟩ := Device.blocked_pushEvent hb
    exact (h.sleeps t hbefore).imp_left hstays
  | pushMouse event =>
    cases hnext
    refine ⟨h.keyboard, h.mouse.pushEvent _ _, fun t hb => ?_⟩
    obtain ⟨hbefore, hstays⟩ := Device.blocked_pushEvent hb
    exact (h.sleeps t hbefore).imp_right hstays
  | readKeyboard r =>
    simp only [next] at hnext
    split at hnext
    · cases hnext
    · cases hnext
      refine ⟨h.keyboard.sysRead hvalid _, h.mouse, fun t hb => ?_⟩
      obtain ⟨hwho, hstays⟩ := Device.blocked_sysRead keyboardKind copies s.keyboard s.task r t
      obtain hbefore | hnow := hwho hb
      · exact (h.sleeps t hbefore).imp_left hstays
      · exact .inl hnow
  | readMouse r =>
    simp only [next] at hnext
    split at hnext
    · cases hnext
    · cases hnext
      refine ⟨h.keyboard, h.mouse.sysRead hvalid _, fun t hb => ?_⟩
      obtain ⟨hwho, hstays⟩ := Device.blocked_sysRead mouseKind copies s.mouse s.task r t
      obtain hbefore | hnow := hwho hb
      · exact (h.sleeps t hbefore).imp_right hstays
      · exact .inr hnow

theorem Reachable.sound {s : Input} (h : Reachable copies s) : s.Sound copies :=
  h.invariant (Sound copies) (fun _ => sound_boot) fun _ _ hs => hs.step

theorem unread_of_sleeps (h : dev.Account k copies) {t : Nat} (ht : dev.Sleeps t) : dev.unread k = [] := by
  obtain ⟨w, hmem, -⟩ := ht
  exact CircBuf.contents_eq_nil (h.empty (ne_nil_of_mem hmem))

def idle {ε : Type} (event : ε) : Device ε := ⟨fun _ => event, 0, 0, 0, [], [], []⟩

def boot : Input := ⟨idle ⟨0, 0, 0, 0⟩, idle ⟨0, 0, 0, 0⟩, fun _ => ⟨false, 0⟩⟩

/-- Two moves with a press behind them, and a task that waits for keys. -/
def click : List Op := [.pushMouse ⟨1, 1, 0, mouseEventMove⟩, .pushMouse ⟨2, 1, 0, mouseEventMove⟩,
  .pushMouse ⟨2, 1, 1, mouseEventButtonDown⟩, .readKeyboard ⟨7, 4096, 4, false, false, true, true⟩]

def clicked : Input := ((Run.exec (next fun _ _ => true) boot click).getD boot)

theorem reachable_clicked : Reachable (fun _ _ => true) clicked := by
  have hboot : Reachable (fun _ _ => true) boot := .start ⟨⟨_, rfl⟩, ⟨_, rfl⟩, fun _ => rfl⟩
  have hrun : Run.exec (next fun _ _ => true) boot click = some clicked := rfl
  refine Run.Reachable.execOn (fun op hop s t ht => ⟨op, ?_, ht⟩) hboot hrun
  simp only [click, mem_cons, not_mem_nil, or_false] at hop
  obtain rfl | rfl | rfl | rfl := hop
  · trivial
  · trivial
  · trivial
  · exact ⟨by decide, rfl⟩

end Input

end Serotonin.Events
