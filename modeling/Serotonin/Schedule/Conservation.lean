import Serotonin.Schedule.Queues
import Serotonin.Lib.Run

/-! Conservation of queued tasks. Nothing in `enqueue` looks whether the task is
in a queue already, and a second insert cuts off whatever stands behind it. The
steps that insert, block or end a task are listed with what they have to find
for the queues to stay intact, and in every run that keeps to it no task is
lost, linked twice or queued while it cannot run. -/

namespace Serotonin.Schedule
open Function
open Chain
open Option (ite_none_right_eq_some)

/-- Every task enqueued and not yet dequeued is reachable from the head of exactly
one queue, exactly once, and no task in a queue is blocked or has ended. -/
structure Conserved (s : Sched) : Prop where
  queues : ∃ L : UInt8 → List Tid,
    (∀ p, IsChain s.rqNext (s.prioQ p).head (L p)) ∧
    (∀ t ∈ s.pending, ∃ p, (L p).count t = 1 ∧ ∀ q, q ≠ p → t ∉ L q) ∧
    ∀ p, ∀ t ∈ L p, t ∈ s.pending ∧ s.state t ≠ .blocked ∧ s.state t ≠ .terminated

/-- What holds between any two steps. -/
structure Inv (s : Sched) : Prop where
  linked : ∃ L, Linked s L
  awake : ∀ t ∈ s.pending, s.state t ≠ .blocked ∧ s.state t ≠ .terminated
  /-- A running task in a queue is one that `task_yield` does not put there again. -/
  idle : s.state s.current = .running → s.current ∈ s.pending →
    (s.pcb s.current).noRequeue = true
  tasks : s.taskList.Nodup

theorem Inv.conserved {s : Sched} (h : Inv s) : Conserved s := by
  obtain ⟨L, hL⟩ := h.linked
  refine ⟨L, hL.chain, fun t ht => ?_, fun p t ht => ?_⟩
  · obtain ⟨p, hp⟩ := (hL.pending t).mp ht
    exact ⟨p, List.count_eq_one_of_mem (hL.chain p).nodup hp, fun q hq hm =>
      hq (hL.apart q p t hm hp)⟩
  · have hpend : t ∈ s.pending := (hL.pending t).mpr ⟨p, ht⟩
    exact ⟨hpend, h.awake t hpend⟩

/-! ## The operations -/

/-- What an insert has to find. -/
structure CanEnqueue (s : Sched) (t : Tid) : Prop where
  unqueued : t ∉ s.pending
  notBlocked : s.state t ≠ .blocked
  notTerminated : s.state t ≠ .terminated
  idle : t = s.current → s.state t = .running → (s.pcb t).noRequeue = true

/-- A step that leaves the queues alone keeps the invariant if it leaves queued
tasks ready. -/
theorem Inv.of_sameQueues {s s' : Sched} (h : Inv s) (hq : SameQueues s s')
    (hstate : ∀ t ∈ s.pending, s'.state t ≠ .blocked ∧ s'.state t ≠ .terminated)
    (hidle : s'.state s'.current = .running → s'.current ∈ s.pending →
      (s'.pcb s'.current).noRequeue = true)
    (htasks : s'.taskList.Nodup) : Inv s' := by
  obtain ⟨L, hL⟩ := h.linked
  refine ⟨⟨L, hL.congr hq⟩, ?_, ?_, htasks⟩
  · rw [hq.pending]; exact hstate
  · rw [hq.pending]; exact hidle

theorem Inv.enqueue {s : Sched} {t : Tid} (h : Inv s) (ht : CanEnqueue s t) : Inv (enqueue s t) := by
  obtain ⟨L, hL⟩ := h.linked
  have hs := sameTasks_enqueue s t
  refine ⟨⟨_, hL.enqueue ht.unqueued⟩, fun u hu => ?_, fun hr hu => ?_, by rw [hs.taskList]; exact h.tasks⟩
  · rw [hs.state]
    rw [enqueue_pending] at hu
    rcases List.mem_cons.mp hu with rfl | hu
    · exact ⟨ht.notBlocked, ht.notTerminated⟩
    · exact h.awake u hu
  · rw [hs.state, hs.current] at hr
    rw [hs.current, enqueue_pending] at hu
    rw [hs.noRequeue, hs.current]
    rcases List.mem_cons.mp hu with hu | hu
    · rw [hu] at hr ⊢
      exact ht.idle hu.symm hr
    · exact h.idle hr hu

theorem Inv.dequeue {s : Sched} (h : Inv s) : Inv (dequeue s).2 := by
  obtain ⟨L, hL⟩ := h.linked
  obtain ⟨L', hL', hpend, _⟩ := hL.dequeue
  have hs := sameTasks_dequeue s
  refine ⟨⟨L', hL'⟩, fun u hu => ?_, fun hr hu => ?_, by rw [hs.taskList]; exact h.tasks⟩
  · rw [hs.state]; exact h.awake u ((hpend u).mp hu).1
  · rw [hs.state, hs.current] at hr
    rw [hs.current] at hu
    rw [hs.noRequeue, hs.current]
    exact h.idle hr ((hpend _).mp hu).1

/-- What `dequeue` returns is in no queue. -/
theorem Inv.dequeue_unqueued {s : Sched} (h : Inv s) {t : Tid}
    (ht : (Schedule.dequeue s).1 = some t) :
    t ∉ (Schedule.dequeue s).2.pending := by
  obtain ⟨L, hL⟩ := h.linked
  obtain ⟨_, _, hpend, _⟩ := hL.dequeue
  exact fun hm => ((hpend t).mp hm).2 ht

/-- A change of fields that neither the queues nor the invariant look at. -/
theorem Inv.modify {s : Sched} (h : Inv s) (t : Tid) {f : Pcb → Pcb}
    (hn : ∀ x, (f x).rqNext = x.rqNext) (hs : ∀ x, (f x).state = x.state)
    (hr : ∀ x, (f x).noRequeue = x.noRequeue) : Inv (s.modify t f) := by
  have hst : ∀ u, (s.modify t f).state u = s.state u := fun u => by
    by_cases hu : u = t
    · subst hu; simp [Sched.state, hs]
    · simp [Sched.state, modify_pcb_ne hu]
  refine h.of_sameQueues (sameQueues_modify s t hn) (fun u hu => ?_) (fun hrun hu => ?_) h.tasks
  · rw [hst]; exact h.awake u hu
  · rw [hst] at hrun
    show ((s.modify t f).pcb s.current).noRequeue = true
    by_cases hc : s.current = t
    · rw [hc, modify_pcb_self, hr, ← hc]; exact h.idle hrun hu
    · rw [modify_pcb_ne hc]; exact h.idle hrun hu

/-- A task in no queue may change anything but its link. -/
theorem Inv.modify_unqueued {s : Sched} (h : Inv s) {t : Tid} {f : Pcb → Pcb} (ht : t ∉ s.pending)
    (hn : ∀ x, (f x).rqNext = x.rqNext) : Inv (s.modify t f) := by
  have hst : ∀ u ∈ s.pending, (s.modify t f).pcb u = s.pcb u := fun u hu =>
    modify_pcb_ne fun he => ht (he ▸ hu)
  refine h.of_sameQueues (sameQueues_modify s t hn) (fun u hu => ?_) (fun hrun hu => ?_) h.tasks
  · unfold Sched.state
    rw [hst u hu]
    exact h.awake u hu
  · have hcur : (s.modify t f).pcb (s.modify t f).current = s.pcb s.current := hst _ hu
    rw [hcur]
    unfold Sched.state at hrun
    rw [hcur] at hrun
    exact h.idle hrun hu

theorem Inv.setState {s : Sched} (h : Inv s) {t : Tid} {st : ProcessState} (ht : t ∉ s.pending) :
    Inv (s.setState t st) := h.modify_unqueued ht fun _ => rfl

/-! ## Wake-ups -/

/-- Wake-ups move blocked tasks to the queues and touch no other task. -/
structure Wakes (s s' : Sched) : Prop where
  state : ∀ t, s.state t ≠ .blocked → s'.state t = s.state t
  pending : ∀ t, s.state t ≠ .blocked → (t ∈ s'.pending ↔ t ∈ s.pending)
  noRequeue : ∀ t, (s'.pcb t).noRequeue = (s.pcb t).noRequeue
  current : s'.current = s.current
  worker : s'.vbeWorkerTask = s.vbeWorkerTask
  vbeTicks : s'.vbeTicks = s.vbeTicks
  inv : Inv s → Inv s'

theorem Wakes.refl (s : Sched) : Wakes s s :=
  ⟨fun _ _ => rfl, fun _ _ => Iff.rfl, fun _ => rfl, rfl, rfl, rfl, id⟩

theorem Wakes.trans {s t u : Sched} (h : Wakes s t) (h' : Wakes t u) : Wakes s u := by
  refine ⟨fun x hx => ?_, fun x hx => ?_, fun x => (h'.noRequeue x).trans (h.noRequeue x),
    h'.current.trans h.current, h'.worker.trans h.worker, h'.vbeTicks.trans h.vbeTicks,
    fun hi => h'.inv (h.inv hi)⟩
  · have hst := h.state x hx
    rw [h'.state x (hst ▸ hx), hst]
  · have hst := h.state x hx
    exact (h'.pending x (hst ▸ hx)).trans (h.pending x hx)

theorem Wakes.foldl {α : Type} {f : Sched → α → Sched} (hf : ∀ s a, Wakes s (f s a)) :
    ∀ (l : List α) (s : Sched), Wakes s (l.foldl f s)
  | [], s => .refl s
  | a :: l, s => (hf s a).trans (Wakes.foldl hf l (f s a))

theorem Wakes.modify (s : Sched) (t : Tid) {f : Pcb → Pcb} (hn : ∀ x, (f x).rqNext = x.rqNext)
    (hs : ∀ x, (f x).state = x.state) (hr : ∀ x, (f x).noRequeue = x.noRequeue) :
    Wakes s (s.modify t f) := by
  refine ⟨fun u _ => ?_, fun _ _ => Iff.rfl, fun u => ?_, rfl, rfl, rfl, fun h => h.modify t hn hs hr⟩
  · by_cases hu : u = t
    · subst hu; simp [Sched.state, hs]
    · simp [Sched.state, modify_pcb_ne hu]
  · by_cases hu : u = t
    · subst hu; simp [hr]
    · rw [modify_pcb_ne hu]

theorem Inv.taskUnblock {s : Sched} (h : Inv s) (t : Tid) : Inv (taskUnblock s t) := by
  unfold Schedule.taskUnblock
  split
  · rename_i hb
    have hout : t ∉ s.pending := fun hm => (h.awake t hm).1 hb
    refine (h.setState hout).enqueue ⟨hout, ?_, ?_, fun _ => ?_⟩ <;>
      simp
  · exact h

theorem wakes_taskUnblock (s : Sched) (t : Tid) : Wakes s (taskUnblock s t) := by
  refine ⟨fun u hu => ?_, fun u hu => ?_, fun u => ?_, ?_, ?_, ?_, fun h => h.taskUnblock t⟩ <;>
    unfold taskUnblock <;> split
  · rename_i hb
    have hne : u ≠ t := fun he => hu (he ▸ hb)
    rw [(sameTasks_enqueue _ _).state, state_setState_ne hne]
  · rfl
  · rename_i hb
    rw [enqueue_pending, List.mem_cons]
    exact ⟨fun hm => hm.resolve_left fun he => hu (he ▸ hb), .inr⟩
  · rfl
  · rw [(sameTasks_enqueue _ _).noRequeue]
    by_cases hut : u = t
    · subst hut; simp [Sched.setState]
    · rw [Sched.setState, modify_pcb_ne hut]
  · rfl
  · exact (sameTasks_enqueue _ _).current
  · rfl
  · exact (sameTasks_enqueue _ _).worker
  · rfl
  · exact (sameTasks_enqueue _ _).vbeTicks
  · rfl

theorem wakes_signalRaise (s : Sched) (t : Tid) (signal : Nat) :
    Wakes s (taskIpcSignalRaise s t signal) := by
  unfold taskIpcSignalRaise
  split
  · exact .refl s
  have hm : Wakes s (s.modify t fun x =>
      { x with signalBitmask := x.signalBitmask ||| (1#32 <<< signal) }) :=
    .modify s t (fun _ => rfl) (fun _ => rfl) (fun _ => rfl)
  dsimp only
  split
  · exact hm.trans (wakes_taskUnblock _ t)
  · exact hm

theorem wakes_alarmTick (s : Sched) (t : Tid) : Wakes s (alarmTick s t) := by
  unfold alarmTick
  split
  swap
  · exact .refl s
  have hm : Wakes s (s.modify t fun x => { x with alarmTicks := x.alarmTicks - 1 }) :=
    .modify s t (fun _ => rfl) (fun _ => rfl) (fun _ => rfl)
  dsimp only
  split
  · exact hm.trans (wakes_signalRaise _ t _)
  · exact hm

theorem wakes_pollWake (s : Sched) (w : Tid × Int) : Wakes s (pollWake s w) := by
  have hm : Wakes s (s.modify w.1 fun x => { x with eax := w.2 }) :=
    .modify s w.1 (fun _ => rfl) (fun _ => rfl) (fun _ => rfl)
  exact hm.trans (wakes_taskUnblock _ w.1)

theorem wakes_timerWake (polled : List (Tid × Int)) (s : Sched) : Wakes s (timerWake polled s) :=
  (Wakes.foldl wakes_alarmTick _ _).trans (Wakes.foldl wakes_pollWake _ _)

/-! ## Giving up the processor -/

theorem Inv.mode {s : Sched} (h : Inv s) (m : Mode) : Inv { s with mode := m } :=
  h.of_sameQueues ⟨rfl, rfl, rfl⟩ h.awake h.idle h.tasks

theorem Inv.taskYield {s : Sched} (h : Inv s) : Inv (taskYield s) := by
  have hz : Inv (reapZombies s) := h.of_sameQueues ⟨rfl, rfl, rfl⟩ h.awake h.idle h.tasks
  unfold Schedule.taskYield
  refine Inv.mode ?_ _
  dsimp only
  generalize reapZombies s = s at hz
  split
  swap
  · exact hz
  rename_i hrun
  have hready : Inv (s.setState s.current .ready) := by
    refine hz.of_sameQueues (sameQueues_setState ..) (fun u hu => ?_) (fun hr => ?_) hz.tasks
    · by_cases huc : u = s.current
      · rw [huc, state_setState_self]; simp
      · rw [state_setState_ne huc]; exact hz.awake u hu
    · rw [show (s.setState s.current .ready).current = s.current from rfl, state_setState_self] at hr
      cases hr
  split
  · exact hready
  · -- the task goes behind the others of its priority; it was in no queue
    rename_i hnr
    have hkeep : ((s.setState s.current .ready).pcb s.current).noRequeue =
        (s.pcb s.current).noRequeue := by
      rw [Sched.setState, modify_pcb_self]
    refine hready.enqueue ⟨fun hm => ?_, ?_, ?_, fun _ hr => ?_⟩
    · exact hnr (hkeep.trans (hz.idle hrun hm))
    · rw [show (s.setState s.current .ready).current = s.current from rfl, state_setState_self]; simp
    · rw [show (s.setState s.current .ready).current = s.current from rfl, state_setState_self]; simp
    · rw [show (s.setState s.current .ready).current = s.current from rfl, state_setState_self] at hr
      cases hr

theorem Inv.taskExit {s s' : Sched} {t : Tid} {exit : Nat} (h : Inv s) (ht : t ∉ s.pending)
    (hs : taskExit s t exit = some s') : Inv s' := by
  unfold Schedule.taskExit at hs
  split at hs
  · cases hs
  cases hs
  refine Inv.mode ?_ _
  exact h.modify_unqueued ht fun _ => rfl

/-- Delivering a signal changes no field that matters to the queues. -/
theorem wakes_deliverSignals (s : Sched) (t : Tid) : Wakes s (taskIpcDeliverSignals s t).1 ∧
    (taskIpcDeliverSignals s t).1.pending = s.pending := by
  obtain ⟨_, _, he⟩ := deliverSignals_eq s t
  rw [he]
  exact ⟨.modify s t (fun _ => rfl) (fun _ => rfl) fun _ => rfl, rfl⟩

theorem Inv.switchTask {s : Sched} {next : Tid} (h : Inv s) (hn : next ∉ s.pending) :
    Inv (switchTask s next) := by
  have hrun : Inv (s.setState next .running) := h.setState hn
  exact hrun.of_sameQueues ⟨rfl, rfl, rfl⟩ hrun.awake (fun _ hm => absurd hm hn) hrun.tasks

theorem Inv.pickNext {s s' : Sched} (h : Inv s) (hs : pickNext s = some s') : Inv s' := by
  unfold Schedule.pickNext at hs
  have hd := h.dequeue
  have hout := fun t => h.dequeue_unqueued (t := t)
  cases hr : Schedule.dequeue s with
  | mk r d =>
    rw [hr] at hs hd hout
    cases r with
    | none => cases hs
    | some next =>
      have hnext := hout next rfl
      simp only at hs hd hnext
      split at hs
      · obtain ⟨hw, hp⟩ := wakes_deliverSignals d next
        generalize taskIpcDeliverSignals d next = r at hs hw hp
        obtain ⟨e, sig⟩ := r
        cases sig with
        | some sig => exact (hw.inv hd).taskExit (by rw [hp]; exact hnext) hs
        | none => cases hs; exact (hw.inv hd).switchTask (by rw [hp]; exact hnext)
      · cases hs; exact hd

/-! ## The end of a task -/

/-- A task that waits for the exited one. -/
def WaitsFor (s : Sched) (exited w : Tid) : Prop := (s.pcb w).waitingOn = (s.pcb exited).pid

theorem Inv.notifyWaiter {s : Sched} {exited w : Tid} {exit : Nat} {copyFails : Tid → Bool}
    (h : Inv s) (hw : WaitsFor s exited w → w ∉ s.pending) :
    Inv (notifyWaiter exited exit copyFails s w) := by
  unfold Schedule.notifyWaiter
  split
  swap
  · exact h
  rename_i hwait
  have hout := hw hwait
  dsimp only
  refine Inv.enqueue (h.modify_unqueued hout fun _ => rfl) ⟨hout, ?_, ?_, fun _ hr => ?_⟩
  · simp [Sched.state, Pcb.awaited]
  · simp [Sched.state, Pcb.awaited]
  · simp [Sched.state, Pcb.awaited] at hr

/-- Waking one waiter leaves the others of the list as they were. -/
theorem notifyWaiter_other (exit : Nat) (copyFails : Tid → Bool) {s : Sched} {exited w u : Tid}
    (hu : u ≠ w) :
    (WaitsFor (notifyWaiter exited exit copyFails s w) exited u ↔ WaitsFor s exited u) ∧
    (u ∈ (notifyWaiter exited exit copyFails s w).pending ↔ u ∈ s.pending) := by
  unfold notifyWaiter
  split
  swap
  · exact ⟨Iff.rfl, Iff.rfl⟩
  dsimp only
  refine ⟨?_, ?_⟩
  · have hsame := sameTasks_enqueue (s.modify w fun x => x.awaited (s.pcb exited).pid exit
      ((s.pcb w).statusPtr.isNone || copyFails w)) w
    obtain ⟨n, hn⟩ := hsame.pcb u
    obtain ⟨m, hm⟩ := hsame.pcb exited
    unfold WaitsFor
    rw [hn, hm, modify_pcb_ne hu]
    by_cases he : exited = w
    · rw [he, modify_pcb_self]; rfl
    · rw [modify_pcb_ne he]
  · rw [enqueue_pending, List.mem_cons]
    exact ⟨fun h => h.resolve_left hu, .inr⟩

theorem Inv.notifyWaiters {exited : Tid} (exit : Nat) (copyFails : Tid → Bool) :
    ∀ {l : List Tid} {s : Sched}, Inv s → l.Nodup →
      (∀ w ∈ l, WaitsFor s exited w → w ∉ s.pending) →
      Inv (l.foldl (Schedule.notifyWaiter exited exit copyFails) s)
  | [], _, h, _, _ => h
  | w :: l, s, h, hl, hw => by
    obtain ⟨hwl, hl⟩ := List.nodup_cons.mp hl
    show Inv (l.foldl _ (Schedule.notifyWaiter exited exit copyFails s w))
    refine Inv.notifyWaiters exit copyFails (h.notifyWaiter (hw w (by simp))) hl fun u hu => ?_
    have hne : u ≠ w := fun he => hwl (he ▸ hu)
    obtain ⟨h1, h2⟩ := @notifyWaiter_other exit copyFails s exited w u hne
    rw [h1, h2]
    exact hw u (by simp [hu])

theorem Inv.taskExitNotify {s : Sched} {exited : Tid} {exit : Nat} {copyFails : Tid → Bool}
    (h : Inv s) (hw : ∀ w ∈ s.taskList, WaitsFor s exited w → w ∉ s.pending) :
    Inv (taskExitNotify s exited exit copyFails) := by
  have hn := Inv.notifyWaiters exit copyFails h h.tasks hw
  unfold Schedule.taskExitNotify
  refine Inv.taskYield ?_
  exact hn.of_sameQueues ⟨rfl, rfl, rfl⟩ hn.awake hn.idle (hn.tasks.filter _)

theorem Inv.taskBlock {s : Sched} (h : Inv s) (hc : s.current ∉ s.pending) : Inv (taskBlock s) :=
  Inv.mode (h.setState hc) _

/-- `sys_waitpid` puts the current task to sleep. -/
def Waits (s : Sched) (pid : Nat) : Prop :=
  pid = noPid ∨ ∃ t, taskLookupByPid s pid = some t ∧ s.state t ≠ .terminated

theorem Inv.sysWaitpid {s : Sched} {pid : Nat} {statusPtr : Option Nat} (h : Inv s)
    (hc : Waits s pid → s.current ∉ s.pending) : Inv (sysWaitpid s pid statusPtr) := by
  have hwait : Waits s pid → Inv (Schedule.taskYield (Schedule.taskBlock (s.modify s.current fun x =>
      { x with waitingOn := pid, statusPtr := statusPtr }))) := fun hw =>
    Inv.taskYield (Inv.taskBlock (h.modify_unqueued (hc hw) fun _ => rfl) (hc hw))
  have herrno : ∀ e, Inv { s with errno := e } := fun e =>
    h.of_sameQueues ⟨rfl, rfl, rfl⟩ h.awake h.idle h.tasks
  unfold Schedule.sysWaitpid
  dsimp only
  split
  · rename_i hp
    exact hwait (.inl hp)
  split
  · exact herrno _
  rename_i t ht
  split
  · exact herrno _
  · rename_i hst
    exact hwait (.inr ⟨t, ht, hst⟩)

/-! ## New tasks -/

/-- A control block put at an address that is in no queue. -/
theorem Inv.spawn {s : Sched} {t : Tid} {x : Pcb} {pid : Nat} (h : Inv s) (hu : Unused s t)
    (ht : t ∉ s.pending) :
    Inv { s with pcb := update s.pcb t x, nextPid := pid, taskList := s.taskList ++ [t] } := by
  obtain ⟨L, hL⟩ := h.linked
  have hpcb : ∀ u, u ≠ t → update s.pcb t x u = s.pcb u := fun u hut => by simp [hut]
  refine ⟨⟨L, fun p => ?_, hL.tail, hL.apart, hL.pending⟩, fun u hup => ?_, fun hr hup => ?_, ?_⟩
  · refine (hL.chain p).congr fun u hup => ?_
    have hut : u ≠ t := fun he => hL.notMem ht p (he ▸ hup)
    show (update s.pcb t x u).rqNext = (s.pcb u).rqNext
    rw [hpcb u hut]
  · have hut : u ≠ t := fun he => ht (he ▸ hup)
    simp only [Sched.state, hpcb u hut]
    exact h.awake u hup
  · have hct : s.current ≠ t := fun he => hu.1 he.symm
    simp only [Sched.state, hpcb _ hct] at hr ⊢
    exact h.idle hr hup
  · refine List.nodup_append.mpr ⟨h.tasks, List.nodup_singleton t, fun a ha b hb => ?_⟩
    rw [List.mem_singleton.mp hb]
    exact fun he => hu.2.1 (he ▸ ha)

theorem Inv.sysFork {s s' : Sched} {t : Tid} (h : Inv s) (hu : Unused s t) (ht : t ∉ s.pending)
    (hc : (s.pcb s.current).priv = .kernel → s.current ∉ s.pending) (hs : sysFork s t = some s') :
    Inv s' := by
  unfold Schedule.sysFork at hs
  split at hs
  · rename_i hk
    exact h.taskExit (hc hk) hs
  cases hs
  have hf : Inv (taskFork s t) := h.spawn hu ht
  have hne : ¬t = s.current := hu.1
  have hq : Inv (Schedule.enqueue (taskFork s t) t) := by
    refine hf.enqueue ⟨ht, ?_, ?_, fun he => absurd he hne⟩ <;> simp [taskFork, Sched.state]
  have he : Inv ((Schedule.enqueue (taskFork s t) t).modify t fun x => { x with eax := 0 }) :=
    hq.modify t (fun _ => rfl) (fun _ => rfl) (fun _ => rfl)
  exact he.of_sameQueues ⟨rfl, rfl, rfl⟩ he.awake he.idle he.tasks

/-! ## The timer interrupt -/

theorem taskPriorityDecay_keeps (x : Pcb) : (taskPriorityDecay x).2.rqNext = x.rqNext ∧
    (taskPriorityDecay x).2.state = x.state ∧ (taskPriorityDecay x).2.noRequeue = x.noRequeue := by
  unfold taskPriorityDecay
  dsimp only
  split
  · exact ⟨rfl, rfl, rfl⟩
  split
  · split <;> exact ⟨rfl, rfl, rfl⟩
  · exact ⟨rfl, rfl, rfl⟩

theorem Inv.quantumTick {s : Sched} (h : Inv s) (userCode : Bool) (eax : Int) :
    Inv (quantumTick userCode eax s) := by
  unfold Schedule.quantumTick
  split
  swap
  · exact h
  have htick : Inv { s with lastQuantumTick := s.lastQuantumTick + 1 } :=
    h.of_sameQueues ⟨rfl, rfl, rfl⟩ h.awake h.idle h.tasks
  dsimp only
  split
  · refine Inv.taskYield ?_
    have hm := htick.modify s.current (f := fun x =>
      { (taskPriorityDecay { x with quantaUsed := x.quantaUsed + 1 }).2 with
        priority := UInt8.ofNat (taskPriorityDecay { x with quantaUsed := x.quantaUsed + 1 }).1.toNat
        eax := eax })
      (fun x => (taskPriorityDecay_keeps _).1) (fun x => (taskPriorityDecay_keeps _).2.1)
      (fun x => (taskPriorityDecay_keeps _).2.2)
    exact hm.of_sameQueues ⟨rfl, rfl, rfl⟩ hm.awake hm.idle hm.tasks
  · exact htick

/-- The compositor's frame is due with this interrupt. -/
def FrameDue (s : Sched) : Prop := s.multitaskingReady = true ∧ vbeTicksPerFrame ≤ s.vbeTicks + 1

theorem CanEnqueue.wakes {s s' : Sched} {t : Tid} (h : CanEnqueue s t) (hw : Wakes s s') :
    CanEnqueue s' t := by
  have hst := hw.state t h.notBlocked
  refine ⟨fun hm => h.unqueued ((hw.pending t h.notBlocked).mp hm), ?_, ?_, fun hc hr => ?_⟩
  · rw [hst]; exact h.notBlocked
  · rw [hst]; exact h.notTerminated
  · rw [hw.noRequeue]
    exact h.idle (hc.trans hw.current) (hst ▸ hr)

theorem Inv.irqPitHandler {s : Sched} {userCode : Bool} {eax : Int} {polled : List (Tid × Int)}
    (h : Inv s) (hf : FrameDue s → CanEnqueue s s.vbeWorkerTask) :
    Inv (irqPitHandler userCode eax polled s) := by
  have htick : Inv { s with vbeTicks := s.vbeTicks + 1 } :=
    h.of_sameQueues ⟨rfl, rfl, rfl⟩ h.awake h.idle h.tasks
  unfold Schedule.irqPitHandler
  dsimp only
  split
  swap
  · exact htick
  rename_i hready
  refine Inv.quantumTick ?_ userCode eax
  have hw := wakes_timerWake polled { s with vbeTicks := s.vbeTicks + 1 }
  have hwake := hw.inv htick
  unfold frameTick
  split
  · -- the compositor is as it was before the wake-ups
    rename_i hdue
    rw [hw.vbeTicks] at hdue
    have hcan : CanEnqueue { s with vbeTicks := s.vbeTicks + 1 } s.vbeWorkerTask := by
      obtain ⟨h1, h2, h3, h4⟩ := hf ⟨hready, hdue⟩
      exact ⟨h1, h2, h3, h4⟩
    obtain ⟨h1, h2, h3, h4⟩ := hcan.wakes hw
    rw [hw.worker]
    exact Inv.enqueue (hwake.of_sameQueues ⟨rfl, rfl, rfl⟩ hwake.awake hwake.idle hwake.tasks)
      ⟨h1, h2, h3, h4⟩
  · exact hwake

/-! ## Runs -/

/-- What a step has to find in the state it starts from: a task that it inserts
is in no queue and can run, and a task that it puts to sleep, ends or overwrites
is in no queue. The source checks none of this. -/
def Guarded (s : Sched) : Op → Prop
  | .enqueue t => CanEnqueue s t
  | .timer _ _ _ => FrameDue s → CanEnqueue s s.vbeWorkerTask
  | .taskBlock => s.current ∉ s.pending
  | .waitpid pid _ => Waits s pid → s.current ∉ s.pending
  | .exit _ => s.current ∉ s.pending
  | .systemCallReturn =>
    (taskIpcDeliverSignals (s.modify s.current fun x => { x with eax := s.errno }) s.current).2.isSome →
      s.current ∉ s.pending
  | .exitNotify _ => ∀ t exit, s.mode = .exiting t exit →
      ∀ w ∈ s.taskList, WaitsFor s t w → w ∉ s.pending
  | .create t _ _ => t ∉ s.pending
  | .fork t => t ∉ s.pending ∧ ((s.pcb s.current).priv = .kernel → s.current ∉ s.pending)
  | _ => True

theorem Inv.systemCallReturn {s s' : Sched} (h : Inv s) (hg : Guarded s .systemCallReturn)
    (hs : systemCallReturn s = some s') : Inv s' := by
  have hm : Inv (s.modify s.current fun x => { x with eax := s.errno }) :=
    h.modify s.current (fun _ => rfl) (fun _ => rfl) (fun _ => rfl)
  obtain ⟨hw, hp⟩ := wakes_deliverSignals (s.modify s.current fun x => { x with eax := s.errno })
    s.current
  have hcur := hw.current
  unfold Schedule.systemCallReturn at hs
  unfold Guarded at hg
  generalize taskIpcDeliverSignals (s.modify s.current fun x => { x with eax := s.errno })
    s.current = r at hs hw hp hg hcur
  obtain ⟨e, sig⟩ := r
  cases sig with
  | none => cases hs; exact hw.inv hm
  | some sig =>
    refine (hw.inv hm).taskExit ?_ hs
    rw [hp, hcur]
    exact hg rfl

/-- What one step preserves. -/
theorem Inv.step {s s' : Sched} {op : Op} (h : Inv s) (hg : Guarded s op)
    (hs : step s op = some s') : Inv s' := by
  cases op with
  | enqueue t =>
    simp only [Schedule.step, ite_none_right_eq_some, Option.some.injEq] at hs
    exact hs.2 ▸ h.enqueue hg
  | dequeue =>
    simp only [Schedule.step, ite_none_right_eq_some, Option.some.injEq] at hs
    exact hs.2 ▸ h.dequeue
  | taskYield =>
    simp only [Schedule.step, ite_none_right_eq_some, Option.some.injEq] at hs
    exact hs.2 ▸ h.taskYield
  | pickNext =>
    simp only [Schedule.step, ite_none_right_eq_some] at hs
    exact h.pickNext hs.2
  | taskBlock =>
    simp only [Schedule.step, ite_none_right_eq_some, Option.some.injEq] at hs
    exact hs.2 ▸ h.taskBlock hg
  | taskUnblock t =>
    simp only [Schedule.step, ite_none_right_eq_some, Option.some.injEq] at hs
    exact hs.2 ▸ h.taskUnblock t
  | signalRaise t signal =>
    simp only [Schedule.step, ite_none_right_eq_some, Option.some.injEq] at hs
    exact hs.2 ▸ (wakes_signalRaise s t signal).inv h
  | waitpid pid statusPtr =>
    simp only [Schedule.step, ite_none_right_eq_some, Option.some.injEq] at hs
    exact hs.2 ▸ h.sysWaitpid hg
  | exit exit =>
    simp only [Schedule.step, ite_none_right_eq_some] at hs
    exact h.taskExit hg hs.2
  | exitNotify copyFails =>
    unfold Schedule.step at hs
    dsimp only at hs
    split at hs
    · rename_i t exit hm
      cases hs
      exact h.taskExitNotify (hg t exit hm)
    · cases hs
  | timer userCode eax polled =>
    simp only [Schedule.step, ite_none_right_eq_some, Option.some.injEq] at hs
    exact hs.2 ▸ h.irqPitHandler hg
  | signal signal handler =>
    simp only [Schedule.step, ite_none_right_eq_some, Option.some.injEq] at hs
    rw [← hs.2]
    unfold taskIpcRegisterSignalHandler
    split
    · exact h
    · exact h.modify _ (fun _ => rfl) (fun _ => rfl) (fun _ => rfl)
  | sigret =>
    simp only [Schedule.step, ite_none_right_eq_some, Option.some.injEq] at hs
    rw [← hs.2]
    exact h.modify _ (fun _ => rfl) (fun _ => rfl) (fun _ => rfl)
  | alarm seconds =>
    simp only [Schedule.step, ite_none_right_eq_some, Option.some.injEq] at hs
    rw [← hs.2]
    have hm : Inv (s.modify s.current fun x => { x with alarmTicks := seconds * 1000 % 2 ^ 32 }) :=
      h.modify _ (fun _ => rfl) (fun _ => rfl) (fun _ => rfl)
    exact hm.of_sameQueues ⟨rfl, rfl, rfl⟩ hm.awake hm.idle hm.tasks
  | systemCallReturn =>
    simp only [Schedule.step, ite_none_right_eq_some] at hs
    exact h.systemCallReturn hg hs.2
  | preemptDisable =>
    simp only [Schedule.step, ite_none_right_eq_some, Option.some.injEq] at hs
    exact hs.2 ▸ h.of_sameQueues ⟨rfl, rfl, rfl⟩ h.awake h.idle h.tasks
  | preemptEnable =>
    simp only [Schedule.step, ite_none_right_eq_some, Option.some.injEq] at hs
    exact hs.2 ▸ h.of_sameQueues ⟨rfl, rfl, rfl⟩ h.awake h.idle h.tasks
  | create t priv prio =>
    simp only [Schedule.step, ite_none_right_eq_some, Option.some.injEq] at hs
    exact hs.2 ▸ h.spawn hs.1.2 hg
  | fork t =>
    simp only [Schedule.step, ite_none_right_eq_some] at hs
    exact h.sysFork hs.1.2 hg.1 hg.2 hs.2

/-- Before the first insert: any number of tasks, none of them in a queue. -/
structure Init (s : Sched) : Prop where
  queues : ∀ p, s.prioQ p = ⟨none, none⟩
  top : s.topBitmap = 0
  bitmap : ∀ w, s.prioBitmap w = 0
  pending : s.pending = []
  tasks : s.taskList.Nodup
  mode : s.mode = .running

theorem Init.inv {s : Sched} (h : Init s) : Inv s := by
  refine ⟨⟨fun _ => [], fun p => ?_, fun p => ?_, by simp, ?_⟩, ?_, ?_, h.tasks⟩
  · rw [h.queues]; exact rfl
  · rw [h.queues]; rfl
  · rw [h.pending]; simp
  · rw [h.pending]; simp
  · rw [h.pending]; simp

def Step (s s' : Sched) : Prop := ∃ op, step s op = some s'

def GuardedStep (s s' : Sched) : Prop := ∃ op, Guarded s op ∧ step s op = some s'

/-- Conservation over whole runs: as long as every step finds what it takes for
granted, no queued task is lost or linked twice, and none in a queue is blocked
or has ended. -/
theorem conserved_of_guarded {s : Sched} (h : Run.Reachable Init GuardedStep s) : Conserved s := by
  refine (h.invariant Inv (fun _ hi => hi.inv) ?_).conserved
  rintro s t hi ⟨op, hg, hs⟩
  exact hi.step hg hs

/-! ## The compositor enqueued twice -/

def run (s : Sched) : List Op → Option Sched
  | [] => some s
  | op :: ops => (step s op).bind fun s' => run s' ops

theorem run_reachable {ops : List Op} : ∀ {s s' : Sched}, Run.Reachable Init Step s →
    run s ops = some s' → Run.Reachable Init Step s' := by
  induction ops with
  | nil => intro s s' h hr; cases hr; exact h
  | cons op ops ih =>
    intro s s' h hr
    obtain ⟨t, ht, hr⟩ := Option.bind_eq_some_iff.mp hr
    exact ih (h.step ⟨op, ht⟩) hr

/-- The kernel after boot: task 1 runs a user program and task 2 is the compositor. -/
def booted : Sched :=
  let pcb : Pcb :=
    { pid := 1, state := .running, priv := .user, rqNext := none, priority := 254,
      originalPriority := 254, resetCount := 0, quantaUsed := 0, waitingOn := 0, statusPtr := none,
      statusWord := none, signal := 0, signalHandlers := fun _ => 0, signalBitmask := 0,
      blockedSignals := 0, inSignalHandler := false, alarmTicks := 0, noRequeue := false, eax := 0 }
  let compositor : Pcb :=
    { pcb with pid := 3, state := .ready, priv := .kernel, priority := 255, noRequeue := true }
  { pcb := fun t => if t = 2 then compositor else pcb
    current := 1, taskList := [1, 2], zombieList := [], nextPid := 4
    prioQ := fun _ => ⟨none, none⟩, topBitmap := 0, prioBitmap := fun _ => 0
    preemptCount := 0, multitaskingReady := true, vbeTicks := 0, lastQuantumTick := 0
    vbeWorkerTask := 2, errno := 0, mode := .running, pending := [] }

theorem booted_init : Init booted := ⟨fun _ => rfl, rfl, fun _ => rfl, rfl, by decide, rfl⟩

/-- Two frames become due while one system call runs: the compositor, already at
the end of its queue, is linked behind itself. -/
theorem not_always_conserved : ¬∀ s, Run.Reachable Init Step s → Conserved s := by
  intro h
  have hlinks : (run booted (List.replicate 16 (.timer false 0 []))).map
      (fun s => ((s.prioQ 255).head, s.rqNext 2)) = some (some 2, some 2) := by decide +kernel
  obtain ⟨s, hrun, hs⟩ := Option.map_eq_some_iff.mp hlinks
  obtain ⟨hhead, hnext⟩ := Prod.mk.inj hs
  obtain ⟨L, hL, _⟩ := (h s (run_reachable (.start booted_init) hrun)).queues
  have hchain := hL 255
  rw [hhead] at hchain
  obtain ⟨ys, hys, hout, hrest⟩ := IsChain.behead hchain
  rw [hys] at hchain
  have hagain := hchain.2
  rw [hnext] at hagain
  exact hout (IsChain.head_mem hagain)

/-- A frame is due, and then it is the compositor's turn. -/
theorem conserved_of_guarded_frame : ∃ s, run { booted with vbeTicks := 7 }
    [.timer false 0 [], .taskYield, .pickNext] = some s ∧ s.current = 2 ∧ Conserved s := by
  let s0 : Sched := { booted with vbeTicks := 7 }
  have hrun : (run s0 [.timer false 0 [], .taskYield, .pickNext]).map (·.current) = some 2 := by
    decide +kernel
  obtain ⟨s, hs, hcur⟩ := Option.map_eq_some_iff.mp hrun
  refine ⟨s, hs, hcur, conserved_of_guarded ?_⟩
  obtain ⟨s1, h1, hs⟩ := Option.bind_eq_some_iff.mp hs
  obtain ⟨s2, h2, hs⟩ := Option.bind_eq_some_iff.mp hs
  obtain ⟨s3, h3, hs⟩ := Option.bind_eq_some_iff.mp hs
  cases hs
  have hcan : CanEnqueue s0 s0.vbeWorkerTask :=
    ⟨List.not_mem_nil, by decide, by decide, fun h => absurd h (by decide)⟩
  have hinit : Init s0 := ⟨fun _ => rfl, rfl, fun _ => rfl, rfl, by decide, rfl⟩
  exact (((Run.Reachable.start hinit).step ⟨.timer false 0 [], fun _ => hcan, h1⟩).step ⟨.taskYield, trivial, h2⟩).step
    ⟨.pickNext, trivial, h3⟩

end Serotonin.Schedule
