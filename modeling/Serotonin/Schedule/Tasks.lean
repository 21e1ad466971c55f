import Serotonin.Schedule.Queues

/-! The task list. Who is on it, what the tasks wait for and which pids they have: most of
the scheduler leaves all that alone (`Quiet`), and what does not keeps every task that can
run on the list, with a pid of its own. -/

namespace Serotonin.Schedule

open Function List
open Option (ite_none_right_eq_some)

/-- The task can be chosen, or can be made ready again. -/
def Alive (st : ProcessState) : Prop := st = .ready ∨ st = .running ∨ st = .blocked

/-- No task is born or ends, or changes what it waits for. -/
structure Quiet (s s' : Sched) : Prop where
  pid : ∀ t, (s'.pcb t).pid = (s.pcb t).pid
  waitingOn : ∀ t, (s'.pcb t).waitingOn = (s.pcb t).waitingOn
  statusPtr : ∀ t, (s'.pcb t).statusPtr = (s.pcb t).statusPtr
  alive : ∀ t, Alive (s'.state t) → Alive (s.state t)
  taskList : s'.taskList = s.taskList
  nextPid : s'.nextPid = s.nextPid
  current : s'.current = s.current
  mode : s'.mode = s.mode ∨ s'.mode = .switching

theorem Quiet.refl (s : Sched) : Quiet s s :=
  ⟨fun _ => rfl, fun _ => rfl, fun _ => rfl, fun _ h => h, rfl, rfl, rfl, .inl rfl⟩

theorem Quiet.trans {s t u : Sched} (h : Quiet s t) (h' : Quiet t u) : Quiet s u := by
  refine ⟨fun x => (h'.pid x).trans (h.pid x), fun x => (h'.waitingOn x).trans (h.waitingOn x),
    fun x => (h'.statusPtr x).trans (h.statusPtr x), fun x hx => h.alive x (h'.alive x hx),
    h'.taskList.trans h.taskList, h'.nextPid.trans h.nextPid, h'.current.trans h.current, ?_⟩
  rcases h'.mode with hm | hm
  · rw [hm]; exact h.mode
  · exact .inr hm

theorem Quiet.foldl {α : Type} {f : Sched → α → Sched} (hf : ∀ s a, Quiet s (f s a)) :
    ∀ (l : List α) (s : Sched), Quiet s (l.foldl f s)
  | [], s => .refl s
  | a :: l, s => (hf s a).trans (Quiet.foldl hf l (f s a))

/-- Of a control block, other fields change; a task that has ended stays so. -/
theorem quiet_modify {s : Sched} {t : Tid} {f : Pcb → Pcb} (hp : ∀ x, (f x).pid = x.pid)
    (hw : ∀ x, (f x).waitingOn = x.waitingOn) (hst : ∀ x, (f x).statusPtr = x.statusPtr)
    (ha : Alive (f (s.pcb t)).state → Alive (s.state t)) : Quiet s (s.modify t f) := by
  refine ⟨modify_pcb_field _ hp, modify_pcb_field _ hw, modify_pcb_field _ hst, fun u hu => ?_, rfl, rfl, rfl, .inl rfl⟩
  by_cases hut : u = t
  · subst hut
    unfold Sched.state at hu
    rw [modify_pcb_self] at hu
    exact ha hu
  · unfold Sched.state at hu
    rw [modify_pcb_ne hut] at hu
    exact hu

theorem quiet_setState {s : Sched} {t : Tid} (st : ProcessState) (ht : Alive (s.state t)) :
    Quiet s (s.setState t st) := quiet_modify (fun _ => rfl) (fun _ => rfl) (fun _ => rfl) fun _ => ht

/-- Fields change that have nothing to do with the state of the task. -/
theorem quiet_modify_same {s : Sched} (t : Tid) {f : Pcb → Pcb} (hp : ∀ x, (f x).pid = x.pid)
    (hw : ∀ x, (f x).waitingOn = x.waitingOn) (hst : ∀ x, (f x).statusPtr = x.statusPtr)
    (hs : ∀ x, (f x).state = x.state) : Quiet s (s.modify t f) :=
  quiet_modify hp hw hst fun ha => by rw [hs] at ha; exact ha

theorem quiet_sameTasks {s s' : Sched} (h : SameTasks s s') (hn : s'.nextPid = s.nextPid) : Quiet s s' := by
  have hfield : ∀ {β : Type} (g : Pcb → β), (∀ x n, g { x with rqNext := n } = g x) →
      ∀ u, g (s'.pcb u) = g (s.pcb u) := by
    intro β g hg u
    obtain ⟨n, hn⟩ := h.pcb u
    rw [hn, hg]
  exact ⟨hfield _ fun _ _ => rfl, hfield _ fun _ _ => rfl, hfield _ fun _ _ => rfl,
    fun u hu => by rwa [h.state u] at hu, h.taskList, hn, h.current, .inl h.mode⟩

theorem quiet_enqueue (s : Sched) (t : Tid) : Quiet s (enqueue s t) := by
  refine quiet_sameTasks (sameTasks_enqueue s t) ?_
  unfold enqueue
  dsimp only
  split
  · rfl
  · rfl
  · rfl

theorem quiet_dequeue (s : Sched) : Quiet s (dequeue s).2 := by
  refine quiet_sameTasks (sameTasks_dequeue s) ?_
  unfold dequeue
  split
  · rfl
  dsimp only
  split
  · rfl
  split
  · rfl
  · rfl

theorem quiet_taskUnblock (s : Sched) (t : Tid) : Quiet s (taskUnblock s t) := by
  unfold taskUnblock
  split
  · rename_i hb
    exact (quiet_setState .ready (.inr (.inr hb))).trans (quiet_enqueue _ t)
  · exact .refl s

theorem quiet_signalRaise (s : Sched) (t : Tid) (signal : Nat) : Quiet s (taskIpcSignalRaise s t signal) := by
  have hm : Quiet s (s.modify t fun x =>
      { x with signalBitmask := x.signalBitmask ||| (1#32 <<< signal) }) :=
    quiet_modify_same t (fun _ => rfl) (fun _ => rfl) (fun _ => rfl) fun _ => rfl
  unfold taskIpcSignalRaise
  split
  · exact .refl s
  dsimp only
  split
  · exact hm.trans (quiet_taskUnblock _ t)
  · exact hm

theorem quiet_alarmTick (s : Sched) (t : Tid) : Quiet s (alarmTick s t) := by
  have hm : Quiet s (s.modify t fun x => { x with alarmTicks := x.alarmTicks - 1 }) :=
    quiet_modify_same t (fun _ => rfl) (fun _ => rfl) (fun _ => rfl) fun _ => rfl
  unfold alarmTick
  split
  · dsimp only
    split
    · exact hm.trans (quiet_signalRaise _ t _)
    · exact hm
  · exact .refl s

theorem quiet_pollWake (s : Sched) (w : Tid × Int) : Quiet s (pollWake s w) := by
  have hm : Quiet s (s.modify w.1 fun x => { x with eax := w.2 }) :=
    quiet_modify_same w.1 (fun _ => rfl) (fun _ => rfl) (fun _ => rfl) fun _ => rfl
  exact hm.trans (quiet_taskUnblock _ w.1)

theorem quiet_frameTick (s : Sched) : Quiet s (frameTick s) := by
  have h0 : Quiet s { s with vbeTicks := 0 } :=
    ⟨fun _ => rfl, fun _ => rfl, fun _ => rfl, fun _ h => h, rfl, rfl, rfl, .inl rfl⟩
  unfold frameTick
  split
  · exact h0.trans (quiet_enqueue _ _)
  · exact .refl s

theorem quiet_taskYield (s : Sched) : Quiet s (taskYield s) := by
  have hz : Quiet s (reapZombies s) :=
    ⟨fun _ => rfl, fun _ => rfl, fun _ => rfl, fun _ h => h, rfl, rfl, rfl, .inl rfl⟩
  have hmode : ∀ e : Sched, Quiet e { e with mode := .switching } := fun e =>
    ⟨fun _ => rfl, fun _ => rfl, fun _ => rfl, fun _ h => h, rfl, rfl, rfl, .inr rfl⟩
  unfold taskYield
  refine (hz.trans ?_).trans (hmode _)
  split
  · rename_i hrun
    have hready := quiet_setState (s := reapZombies s) (t := (reapZombies s).current) .ready
      (.inr (.inl hrun))
    dsimp only
    split
    · exact hready
    · exact hready.trans (quiet_enqueue _ _)
  · exact .refl _

theorem taskYield_mode (s : Sched) : (taskYield s).mode = .switching := rfl

theorem quiet_quantumTick (userCode : Bool) (eax : Int) (s : Sched) : Quiet s (quantumTick userCode eax s) := by
  have htick : ∀ (e : Sched) n, Quiet e { e with lastQuantumTick := n } := fun e n =>
    ⟨fun _ => rfl, fun _ => rfl, fun _ => rfl, fun _ h => h, rfl, rfl, rfl, .inl rfl⟩
  have hyield : ∀ e, Quiet s e → Quiet s (taskYield { e with lastQuantumTick := 0 }) := fun e he =>
    he.trans ((htick e 0).trans (quiet_taskYield _))
  have hdecay : ∀ x : Pcb, (taskPriorityDecay x).2.pid = x.pid ∧
      (taskPriorityDecay x).2.waitingOn = x.waitingOn ∧ (taskPriorityDecay x).2.statusPtr = x.statusPtr ∧
        (taskPriorityDecay x).2.state = x.state := by
    intro x
    unfold taskPriorityDecay
    dsimp only
    split
    · exact ⟨rfl, rfl, rfl, rfl⟩
    split
    · split
      · exact ⟨rfl, rfl, rfl, rfl⟩
      · exact ⟨rfl, rfl, rfl, rfl⟩
    · exact ⟨rfl, rfl, rfl, rfl⟩
  unfold quantumTick
  split
  · dsimp only
    split
    · refine hyield (Sched.modify _ _ _) ((htick s (s.lastQuantumTick + 1)).trans ?_)
      exact quiet_modify_same _ (fun x => (hdecay _).1) (fun x => (hdecay _).2.1)
        (fun x => (hdecay _).2.2.1) fun x => (hdecay _).2.2.2
    · exact htick s _
  · exact .refl s

theorem quiet_irqPitHandler (userCode : Bool) (eax : Int) (polled : List (Tid × Int)) (s : Sched) :
    Quiet s (irqPitHandler userCode eax polled s) := by
  have htick : Quiet s { s with vbeTicks := s.vbeTicks + 1 } :=
    ⟨fun _ => rfl, fun _ => rfl, fun _ => rfl, fun _ h => h, rfl, rfl, rfl, .inl rfl⟩
  unfold irqPitHandler
  dsimp only
  split
  · refine htick.trans (Quiet.trans ?_ ((quiet_frameTick _).trans (quiet_quantumTick ..)))
    exact (Quiet.foldl quiet_alarmTick _ _).trans (Quiet.foldl quiet_pollWake _ _)
  · exact htick

theorem quiet_deliverSignals (s : Sched) (t : Tid) : Quiet s (taskIpcDeliverSignals s t).1 := by
  obtain ⟨_, _, he⟩ := deliverSignals_eq s t
  rw [he]
  exact quiet_modify_same t (fun _ => rfl) (fun _ => rfl) (fun _ => rfl) fun _ => rfl

theorem deliverSignals_state (s : Sched) (t u : Tid) : (taskIpcDeliverSignals s t).1.state u = s.state u := by
  obtain ⟨_, _, he⟩ := deliverSignals_eq s t
  rw [he]
  refine modify_pcb_field Pcb.state (fun x => ?_) u
  rfl

/-! ## Pids and what is waited for -/

structure SameList (s s' : Sched) : Prop where
  pid : ∀ t, (s'.pcb t).pid = (s.pcb t).pid
  waitingOn : ∀ t, (s'.pcb t).waitingOn = (s.pcb t).waitingOn
  taskList : s'.taskList = s.taskList
  nextPid : s'.nextPid = s.nextPid

theorem Quiet.sameList {s s' : Sched} (h : Quiet s s') : SameList s s' :=
  ⟨h.pid, h.waitingOn, h.taskList, h.nextPid⟩

theorem SameList.trans {s t u : Sched} (h : SameList s t) (h' : SameList t u) : SameList s u :=
  ⟨fun x => (h'.pid x).trans (h.pid x), fun x => (h'.waitingOn x).trans (h.waitingOn x),
    h'.taskList.trans h.taskList, h'.nextPid.trans h.nextPid⟩

theorem sameList_modify (s : Sched) (t : Tid) {f : Pcb → Pcb} (hp : ∀ x, (f x).pid = x.pid)
    (hw : ∀ x, (f x).waitingOn = x.waitingOn) : SameList s (s.modify t f) :=
  ⟨modify_pcb_field _ hp, modify_pcb_field _ hw, rfl, rfl⟩

theorem sameList_taskExit {s s' : Sched} {t : Tid} {exit : Nat} (hs : taskExit s t exit = some s') :
    SameList s s' := by
  unfold taskExit at hs
  split at hs
  · cases hs
  cases hs
  have h := sameList_modify s t (f := fun x => { x with state := .terminated, signal := exit })
    (fun _ => rfl) fun _ => rfl
  exact ⟨h.pid, h.waitingOn, rfl, rfl⟩

theorem sameList_switchTask (s : Sched) (next : Tid) : SameList s (switchTask s next) := by
  have h := sameList_modify s next (f := fun x => { x with state := .running }) (fun _ => rfl) fun _ => rfl
  exact ⟨h.pid, h.waitingOn, rfl, rfl⟩

theorem sameList_pickNext {s s' : Sched} (hs : pickNext s = some s') : SameList s s' := by
  unfold pickNext at hs
  have hd := (quiet_dequeue s).sameList
  cases hr : dequeue s with
  | mk r d =>
    rw [hr] at hs hd
    cases r with
    | none => cases hs
    | some next =>
      dsimp only at hs hd
      split at hs
      · have hq := (quiet_deliverSignals d next).sameList
        cases hdel : taskIpcDeliverSignals d next with
        | mk e sig =>
          rw [hdel] at hs hq
          cases sig with
          | some sig => exact (hd.trans hq).trans (sameList_taskExit hs)
          | none =>
            cases hs
            exact (hd.trans hq).trans (sameList_switchTask e next)
      · cases hs
        exact hd

/-! ## Everyone who can run is on the list -/

structure Listed (s : Sched) : Prop where
  alive : ∀ t, Alive (s.state t) → t ∈ s.taskList
  pids : (s.taskList.map fun t => (s.pcb t).pid).Nodup
  lt : ∀ t ∈ s.taskList, (s.pcb t).pid < s.nextPid
  next : s.nextPid ≤ noPid
  /-- No task waits for itself. -/
  self : ∀ t ∈ s.taskList, (s.pcb t).waitingOn ≠ (s.pcb t).pid

structure Known (s : Sched) : Prop extends Listed s where
  current : s.mode = .running ∨ s.mode = .yielding → s.current ∈ s.taskList
  exiting : ∀ t exit, s.mode = .exiting t exit → t ∈ s.taskList ∧ ¬Alive (s.state t)

theorem Listed.quiet {s s' : Sched} (h : Listed s) (hq : Quiet s s') : Listed s' := by
  have hpid : (fun t => (s'.pcb t).pid) = fun t => (s.pcb t).pid := funext hq.pid
  refine ⟨fun t ht => ?_, ?_, ?_, ?_, ?_⟩
  · rw [hq.taskList]
    exact h.alive t (hq.alive t ht)
  · rw [hq.taskList, hpid]
    exact h.pids
  · rw [hq.taskList, hq.nextPid]
    intro t ht
    rw [hq.pid]
    exact h.lt t ht
  · rw [hq.nextPid]
    exact h.next
  · rw [hq.taskList]
    intro t ht
    rw [hq.waitingOn, hq.pid]
    exact h.self t ht

theorem Known.quiet {s s' : Sched} (h : Known s) (hq : Quiet s s') : Known s' := by
  refine ⟨h.toListed.quiet hq, fun hm => ?_, fun t exit hm => ?_⟩
  · rw [hq.taskList, hq.current]
    rcases hq.mode with he | he
    · rw [he] at hm
      exact h.current hm
    · rw [he] at hm
      rcases hm with hm | hm <;> cases hm
  · rw [hq.taskList]
    rcases hq.mode with he | he
    · rw [he] at hm
      obtain ⟨h1, h2⟩ := h.exiting t exit hm
      exact ⟨h1, fun ha => h2 (hq.alive t ha)⟩
    · rw [he] at hm
      cases hm

/-- In the loop of `task_yield` no task is at work. -/
theorem Listed.switching {s : Sched} (h : Listed s) (hm : s.mode = .switching) : Known s := by
  refine ⟨h, fun hc => ?_, fun t exit he => ?_⟩
  · rw [hm] at hc
    rcases hc with hc | hc <;> cases hc
  · rw [hm] at he
    cases he

/-- Where the processor is does not matter, as long as it is at a listed task. -/
theorem Known.mode {s : Sched} (h : Known s) (m : Mode)
    (hc : m = .running ∨ m = .yielding → s.current ∈ s.taskList)
    (he : ∀ t exit, m = .exiting t exit → t ∈ s.taskList ∧ ¬Alive (s.state t)) :
    Known { s with mode := m } :=
  ⟨⟨h.alive, h.pids, h.lt, h.next, h.self⟩, hc, he⟩

/-- Of a listed task, the state and what it waits for change. -/
theorem Known.modify {s : Sched} (h : Known s) {t : Tid} (ht : t ∈ s.taskList) (f : Pcb → Pcb)
    (hp : ∀ x, (f x).pid = x.pid) (hm : ∀ u exit, s.mode ≠ .exiting u exit)
    (hw : (f (s.pcb t)).waitingOn ≠ (s.pcb t).pid) : Known (s.modify t f) := by
  have hpid : ∀ u, ((s.modify t f).pcb u).pid = (s.pcb u).pid := modify_pcb_field _ hp
  refine ⟨⟨fun u hu => ?_, ?_, fun u hu => ?_, h.next, fun u hu => ?_⟩, h.current,
    fun u exit he => absurd he (hm u exit)⟩
  · by_cases hut : u = t
    · exact hut ▸ ht
    · refine h.alive u ?_
      unfold Sched.state at hu ⊢
      rwa [modify_pcb_ne hut] at hu
  · rw [show (fun u => ((s.modify t f).pcb u).pid) = fun u => (s.pcb u).pid from funext hpid]
    exact h.pids
  · rw [hpid]
    exact h.lt u hu
  · rw [hpid]
    by_cases hut : u = t
    · subst hut
      rw [modify_pcb_self]
      exact hw
    · rw [modify_pcb_ne hut]
      exact h.self u hu

/-- Pids tell listed tasks apart. -/
theorem Known.pid_inj {s : Sched} (h : Known s) {t u : Tid} (ht : t ∈ s.taskList) (hu : u ∈ s.taskList)
    (he : (s.pcb t).pid = (s.pcb u).pid) : t = u := inj_on_of_nodup_map h.pids ht hu he

theorem Known.taskExit {s s' : Sched} {t : Tid} {exit : Nat} (h : Known s) (ht : t ∈ s.taskList)
    (hm : ∀ u e, s.mode ≠ .exiting u e) (hs : taskExit s t exit = some s') :
    Known s' ∧ s'.mode = .exiting t exit := by
  unfold Schedule.taskExit at hs
  split at hs
  · cases hs
  cases hs
  have hend := h.modify ht (fun x => { x with state := .terminated, signal := exit }) (fun _ => rfl) hm
    (h.self t ht)
  refine ⟨hend.mode _ (fun hm => by rcases hm with hm | hm <;> cases hm) fun u e he => ?_, rfl⟩
  cases he
  refine ⟨ht, fun ha => ?_⟩
  unfold Sched.state at ha
  rw [modify_pcb_self] at ha
  rcases ha with ha | ha | ha <;> cases ha

theorem Known.switchTask {s : Sched} {next : Tid} (h : Known s) (hn : next ∈ s.taskList)
    (hm : ∀ u e, s.mode ≠ .exiting u e) : Known (switchTask s next) := by
  have hrun := h.modify hn (fun x => { x with state := .running }) (fun _ => rfl) hm (h.self next hn)
  exact ⟨⟨hrun.alive, hrun.pids, hrun.lt, hrun.next, hrun.self⟩, fun _ => hn, fun _ _ he => nomatch he⟩

theorem Known.pickNext {s s' : Sched} (h : Known s) (hm : s.mode = .switching)
    (hs : pickNext s = some s') : Known s' := by
  unfold Schedule.pickNext at hs
  have hd := quiet_dequeue s
  cases hr : dequeue s with
  | mk r d =>
    rw [hr] at hs hd
    cases r with
    | none => cases hs
    | some next =>
      dsimp only at hs hd
      have hkd := h.quiet hd
      have hmode : d.mode = .switching := hd.mode.elim (fun he => he.trans hm) id
      split at hs
      · rename_i hready
        have hq := quiet_deliverSignals d next
        have hst := deliverSignals_state d next next
        cases hdel : taskIpcDeliverSignals d next with
        | mk e sig =>
          rw [hdel] at hs hq hst
          dsimp only at hs hq hst
          have hke := hkd.quiet hq
          have hnext : next ∈ e.taskList := hke.alive next (.inl (hst.trans hready))
          have hme : ∀ u x, e.mode ≠ .exiting u x := by
            intro u x he
            rcases hq.mode with hm' | hm'
            · rw [hm', hmode] at he
              cases he
            · rw [hm'] at he
              cases he
          cases sig with
          | some sig => exact (hke.taskExit hnext hme hs).1
          | none =>
            cases hs
            exact hke.switchTask hnext hme
      · cases hs
        exact hkd

/-- A control block put at an address of its own, with the next pid. -/
theorem Known.spawn {s : Sched} {t : Tid} {x : Pcb} (h : Known s) (ht : t ∉ s.taskList)
    (hx : x.pid = s.nextPid) (hroom : s.nextPid < noPid) (hw : x.waitingOn ≠ s.nextPid)
    (hm : ∀ u e, s.mode ≠ .exiting u e) :
    Known { s with
      pcb := update s.pcb t x, nextPid := s.nextPid + 1, taskList := s.taskList ++ [t] } := by
  have hother : ∀ u ∈ s.taskList, update s.pcb t x u = s.pcb u := fun u hu =>
    update_of_ne (fun he : u = t => ht (he ▸ hu)) ..
  refine ⟨⟨fun u hu => ?_, ?_, fun u hu => ?_, hroom, fun u hu => ?_⟩,
    fun hc => mem_append_left _ (h.current hc), fun u e he => absurd he (hm u e)⟩
  · by_cases hut : u = t
    · exact mem_append_right _ (mem_singleton.mpr hut)
    · refine mem_append_left _ (h.alive u ?_)
      unfold Sched.state at hu ⊢
      dsimp only at hu
      rwa [update_of_ne hut] at hu
  · dsimp only
    rw [map_append, map_congr_left fun u hu => congrArg Pcb.pid (hother u hu)]
    refine nodup_append.mpr ⟨h.pids, nodup_singleton _, fun a ha b hb => ?_⟩
    obtain ⟨u, hu, rfl⟩ := mem_map.mp ha
    rw [map_singleton, mem_singleton] at hb
    rw [hb, update_self, hx]
    exact Nat.ne_of_lt (h.lt u hu)
  · dsimp only at hu ⊢
    rcases mem_append.mp hu with hu | hu
    · rw [hother u hu]
      exact Nat.lt_succ_of_lt (h.lt u hu)
    · rw [mem_singleton.mp hu, update_self, hx]
      exact Nat.lt_succ_self _
  · dsimp only at hu ⊢
    rcases mem_append.mp hu with hu | hu
    · rw [hother u hu]
      exact h.self u hu
    · rw [mem_singleton.mp hu, update_self, hx]
      exact hw

/-! ## Telling who waits -/

/-- What a listed task's control block is after the loop of `task_exit`. -/
def notified (s : Sched) (exited : Tid) (exit : Nat) (copyFails : Tid → Bool) (l : List Tid) (u : Tid) : Pcb :=
  if u ∈ l ∧ (s.pcb u).waitingOn = (s.pcb exited).pid then
    (s.pcb u).awaited (s.pcb exited).pid exit ((s.pcb u).statusPtr.isNone || copyFails u)
  else s.pcb u

theorem notified_pid (s : Sched) (exited : Tid) (exit : Nat) (copyFails : Tid → Bool) (l : List Tid) (u : Tid) :
    (notified s exited exit copyFails l u).pid = (s.pcb u).pid := by
  unfold notified
  split
  · rfl
  · rfl

theorem notifyWaiter_pcb (exited : Tid) (exit : Nat) (copyFails : Tid → Bool) (s : Sched) (t u : Tid) :
    ∃ n, (notifyWaiter exited exit copyFails s t).pcb u =
      { notified s exited exit copyFails [t] u with rqNext := n } := by
  unfold notifyWaiter notified
  split
  · rename_i hw
    obtain ⟨n, hn⟩ := (sameTasks_enqueue (s.modify t fun x => x.awaited (s.pcb exited).pid exit
      ((s.pcb t).statusPtr.isNone || copyFails t)) t).pcb u
    refine ⟨n, hn.trans ?_⟩
    by_cases hu : u = t
    · subst hu
      rw [if_pos ⟨mem_singleton.mpr rfl, hw⟩, modify_pcb_self]
    · rw [if_neg fun h => hu (mem_singleton.mp h.1), modify_pcb_ne hu]
  · rename_i hw
    refine ⟨(s.pcb u).rqNext, ?_⟩
    rw [if_neg]
    intro h
    rw [mem_singleton.mp h.1] at h
    exact hw h.2

theorem notifyWaiters_pcb (exited : Tid) (exit : Nat) (copyFails : Tid → Bool) :
    ∀ {l : List Tid} (s : Sched), l.Nodup → ∀ u, ∃ n,
      (l.foldl (notifyWaiter exited exit copyFails) s).pcb u =
        { notified s exited exit copyFails l u with rqNext := n }
  | [], s, _, u => ⟨(s.pcb u).rqNext, by unfold notified; rw [if_neg fun h => nomatch h.1]; rfl⟩
  | t :: l, s, hl, u => by
    obtain ⟨htl, hl⟩ := nodup_cons.mp hl
    obtain ⟨n, hn⟩ := notifyWaiters_pcb exited exit copyFails (notifyWaiter exited exit copyFails s t) hl u
    obtain ⟨m, hm⟩ := notifyWaiter_pcb exited exit copyFails s t u
    obtain ⟨e, he⟩ := notifyWaiter_pcb exited exit copyFails s t exited
    have hpid : ((notifyWaiter exited exit copyFails s t).pcb exited).pid = (s.pcb exited).pid := by
      rw [he]
      exact notified_pid ..
    refine ⟨n, hn.trans ?_⟩
    unfold notified at hm ⊢
    rw [hpid]
    by_cases hut : u = t
    · subst hut
      rw [if_neg fun h => htl h.1, hm]
      simp only [mem_cons, true_or, true_and]
    · rw [if_neg fun h => hut (mem_singleton.mp h.1)] at hm
      rw [hm]
      simp only [mem_cons, hut, false_or]
      split
      · rfl
      · rfl

theorem notifyWaiters_fields (exited : Tid) (exit : Nat) (copyFails : Tid → Bool) :
    ∀ (l : List Tid) (s : Sched), (l.foldl (notifyWaiter exited exit copyFails) s).taskList = s.taskList ∧
      (l.foldl (notifyWaiter exited exit copyFails) s).nextPid = s.nextPid
  | [], s => ⟨rfl, rfl⟩
  | t :: l, s => by
    obtain ⟨h1, h2⟩ := notifyWaiters_fields exited exit copyFails l (notifyWaiter exited exit copyFails s t)
    have hone : (notifyWaiter exited exit copyFails s t).taskList = s.taskList ∧
        (notifyWaiter exited exit copyFails s t).nextPid = s.nextPid := by
      unfold notifyWaiter
      split
      · have hq := quiet_enqueue (s.modify t fun x => x.awaited (s.pcb exited).pid exit
          ((s.pcb t).statusPtr.isNone || copyFails t)) t
        exact ⟨hq.taskList, hq.nextPid⟩
      · exact ⟨rfl, rfl⟩
    exact ⟨h1.trans hone.1, h2.trans hone.2⟩

theorem taskExitNotify_fields {s : Sched} (hnd : s.taskList.Nodup) (exited : Tid) (exit : Nat)
    (copyFails : Tid → Bool) :
    (taskExitNotify s exited exit copyFails).taskList = s.taskList.filter (· != exited) ∧
      (taskExitNotify s exited exit copyFails).nextPid = s.nextPid ∧
      ∀ u, ((taskExitNotify s exited exit copyFails).pcb u).pid = (s.pcb u).pid ∧
        ((taskExitNotify s exited exit copyFails).pcb u).waitingOn =
          (notified s exited exit copyFails s.taskList u).waitingOn := by
  obtain ⟨hlist, hnext⟩ := notifyWaiters_fields exited exit copyFails s.taskList s
  have hpcb := notifyWaiters_pcb exited exit copyFails s hnd
  unfold Schedule.taskExitNotify
  generalize s.taskList.foldl (notifyWaiter exited exit copyFails) s = r at hlist hnext hpcb
  have hq := quiet_taskYield { r with
    taskList := r.taskList.filter (· != exited), zombieList := exited :: r.zombieList }
  refine ⟨?_, hq.nextPid.trans hnext, fun u => ⟨?_, ?_⟩⟩
  · rw [hq.taskList, hlist]
  · obtain ⟨n, hn⟩ := hpcb u
    rw [hq.pid u]
    show (r.pcb u).pid = _
    rw [hn]
    exact notified_pid ..
  · obtain ⟨n, hn⟩ := hpcb u
    rw [hq.waitingOn u]
    show (r.pcb u).waitingOn = _
    rw [hn]

/-- The exited task leaves the list; the others keep their pids, and those that waited for
it wait for nothing. -/
theorem Known.taskExitNotify {s : Sched} {exited : Tid} {exit : Nat} (h : Known s)
    (hm : s.mode = .exiting exited exit) (copyFails : Tid → Bool) :
    Known (taskExitNotify s exited exit copyFails) := by
  obtain ⟨hmem, hdead⟩ := h.exiting exited exit hm
  have hnd : s.taskList.Nodup := List.Nodup.of_map _ h.pids
  obtain ⟨hlist, hnext⟩ := notifyWaiters_fields exited exit copyFails s.taskList s
  have hpcb := notifyWaiters_pcb exited exit copyFails s hnd
  unfold Schedule.taskExitNotify
  refine Listed.switching (Listed.quiet ?_ (quiet_taskYield _)) rfl
  generalize s.taskList.foldl (notifyWaiter exited exit copyFails) s = r at hlist hnext hpcb
  have hpid : ∀ u, (r.pcb u).pid = (s.pcb u).pid := by
    intro u
    obtain ⟨n, hn⟩ := hpcb u
    rw [hn]
    exact notified_pid ..
  have hsub : ∀ u ∈ r.taskList.filter (· != exited), u ∈ s.taskList := fun u hu =>
    hlist ▸ (mem_filter.mp hu).1
  refine ⟨fun u hu => ?_, ?_, fun u hu => ?_, ?_, fun u hu => ?_⟩
  · obtain ⟨n, hn⟩ := hpcb u
    have hu' : Alive (notified s exited exit copyFails s.taskList u).state := by
      unfold Sched.state at hu
      rw [hn] at hu
      exact hu
    have hne : u ≠ exited := by
      intro he
      subst he
      unfold notified at hu'
      rw [if_neg fun hw => h.self u hmem hw.2] at hu'
      exact hdead hu'
    refine mem_filter.mpr ⟨?_, bne_iff_ne.mpr hne⟩
    rw [hlist]
    unfold notified at hu'
    split at hu'
    · rename_i hw
      exact hw.1
    · exact h.alive u hu'
  · rw [show (fun t => (r.pcb t).pid) = fun t => (s.pcb t).pid from funext hpid, hlist]
    exact h.pids.sublist (filter_sublist.map _)
  · rw [hpid, hnext]
    exact h.lt u (hsub u hu)
  · rw [hnext]
    exact h.next
  · obtain ⟨n, hn⟩ := hpcb u
    rw [hpid, hn]
    have hlt := h.lt u (hsub u hu)
    have hnp := h.next
    show (notified s exited exit copyFails s.taskList u).waitingOn ≠ _
    unfold notified
    split
    · show noPid ≠ _
      omega
    · exact h.self u (hsub u hu)

/-! ## Steps that leave the list alone -/

/-- No task is made, leaves the list or starts a wait. -/
def Op.Plain : Op → Prop
  | .waitpid _ _ => False
  | .exitNotify _ => False
  | .create _ _ _ => False
  | .fork _ => False
  | _ => True

theorem Known.systemCallReturn {s s' : Sched} (h : Known s) (hm : s.mode = .running)
    (hs : systemCallReturn s = some s') : Known s' ∧ SameList s s' := by
  unfold Schedule.systemCallReturn at hs
  have hmod := quiet_modify_same (s := s) s.current (f := fun x => { x with eax := s.errno })
    (fun _ => rfl) (fun _ => rfl) (fun _ => rfl) fun _ => rfl
  have hq := hmod.trans (quiet_deliverSignals (s.modify s.current fun x => { x with eax := s.errno }) s.current)
  cases hdel : taskIpcDeliverSignals (s.modify s.current fun x => { x with eax := s.errno }) s.current with
  | mk e sig =>
    rw [hdel] at hs hq
    dsimp only at hs hq
    cases sig with
    | none =>
      cases hs
      exact ⟨h.quiet hq, hq.sameList⟩
    | some sig =>
      have hcur : e.current ∈ e.taskList := by
        rw [hq.current, hq.taskList]
        exact h.current (.inl hm)
      have hme : ∀ u x, e.mode ≠ .exiting u x := by
        intro u x he
        rcases hq.mode with hm' | hm'
        · rw [hm', hm] at he
          cases he
        · rw [hm'] at he
          cases he
      exact ⟨((h.quiet hq).taskExit hcur hme hs).1, hq.sameList.trans (sameList_taskExit hs)⟩

/-- The current task changes its state and goes on to `task_yield`. -/
theorem Known.taskBlock {s : Sched} (h : Known s) (hm : s.mode = .running) :
    Known (taskBlock s) ∧ SameList s (taskBlock s) := by
  have hcur := h.current (.inl hm)
  have hme : ∀ u x, s.mode ≠ .exiting u x := fun u x he => by rw [hm] at he; cases he
  have hk := h.modify hcur (fun x => { x with state := .blocked }) (fun _ => rfl) hme (h.self _ hcur)
  have hl := sameList_modify s s.current (f := fun x => { x with state := .blocked })
    (fun _ => rfl) fun _ => rfl
  exact ⟨hk.mode .yielding (fun _ => hcur) (fun _ _ he => nomatch he),
    ⟨hl.pid, hl.waitingOn, rfl, rfl⟩⟩

theorem Known.plain {s s' : Sched} (h : Known s) (op : Op) (hop : op.Plain) (hs : step s op = some s') :
    Known s' ∧ SameList s s' := by
  have hquiet : ∀ e, Quiet s e → Known e ∧ SameList s e := fun e hq => ⟨h.quiet hq, hq.sameList⟩
  have hcounter : ∀ n, Quiet s { s with preemptCount := n } := fun n =>
    ⟨fun _ => rfl, fun _ => rfl, fun _ => rfl, fun _ ha => ha, rfl, rfl, rfl, .inl rfl⟩
  unfold step at hs
  cases op with
  | enqueue t =>
    obtain ⟨-, hs⟩ := ite_none_right_eq_some.mp hs
    cases hs
    exact hquiet _ (quiet_enqueue s t)
  | dequeue =>
    obtain ⟨-, hs⟩ := ite_none_right_eq_some.mp hs
    cases hs
    exact hquiet _ (quiet_dequeue s)
  | taskYield =>
    obtain ⟨-, hs⟩ := ite_none_right_eq_some.mp hs
    cases hs
    exact hquiet _ (quiet_taskYield s)
  | pickNext =>
    obtain ⟨hm, hs⟩ := ite_none_right_eq_some.mp hs
    exact ⟨h.pickNext hm hs, sameList_pickNext hs⟩
  | taskBlock =>
    obtain ⟨hm, hs⟩ := ite_none_right_eq_some.mp hs
    cases hs
    exact h.taskBlock hm
  | taskUnblock t =>
    obtain ⟨-, hs⟩ := ite_none_right_eq_some.mp hs
    cases hs
    exact hquiet _ (quiet_taskUnblock s t)
  | signalRaise t signal =>
    obtain ⟨-, hs⟩ := ite_none_right_eq_some.mp hs
    cases hs
    exact hquiet _ (quiet_signalRaise s t signal)
  | waitpid pid statusPtr => exact hop.elim
  | exit exit =>
    obtain ⟨hm, hs⟩ := ite_none_right_eq_some.mp hs
    have hme : ∀ u x, s.mode ≠ .exiting u x := fun u x he => by rw [hm] at he; cases he
    exact ⟨(h.taskExit (h.current (.inl hm)) hme hs).1, sameList_taskExit hs⟩
  | exitNotify copyFails => exact hop.elim
  | timer userCode eax polled =>
    obtain ⟨-, hs⟩ := ite_none_right_eq_some.mp hs
    cases hs
    exact hquiet _ (quiet_irqPitHandler userCode eax polled s)
  | signal signal handler =>
    obtain ⟨-, hs⟩ := ite_none_right_eq_some.mp hs
    cases hs
    unfold taskIpcRegisterSignalHandler
    split
    · exact hquiet _ (.refl s)
    · exact hquiet _ (quiet_modify_same _ (fun _ => rfl) (fun _ => rfl) (fun _ => rfl) fun _ => rfl)
  | sigret =>
    obtain ⟨-, hs⟩ := ite_none_right_eq_some.mp hs
    cases hs
    exact hquiet _ (quiet_modify_same _ (fun _ => rfl) (fun _ => rfl) (fun _ => rfl) fun _ => rfl)
  | alarm seconds =>
    obtain ⟨-, hs⟩ := ite_none_right_eq_some.mp hs
    cases hs
    have hmod := quiet_modify_same (s := s) s.current
      (f := fun x => { x with alarmTicks := seconds * 1000 % 2 ^ 32 })
      (fun _ => rfl) (fun _ => rfl) (fun _ => rfl) fun _ => rfl
    exact hquiet _ ⟨hmod.pid, hmod.waitingOn, hmod.statusPtr, hmod.alive, rfl, rfl, rfl, .inl rfl⟩
  | systemCallReturn =>
    obtain ⟨hm, hs⟩ := ite_none_right_eq_some.mp hs
    exact h.systemCallReturn hm hs
  | preemptDisable =>
    obtain ⟨-, hs⟩ := ite_none_right_eq_some.mp hs
    cases hs
    exact hquiet _ (hcounter _)
  | preemptEnable =>
    obtain ⟨-, hs⟩ := ite_none_right_eq_some.mp hs
    cases hs
    exact hquiet _ (hcounter _)
  | create t priv prio => exact hop.elim
  | fork t => exact hop.elim

end Serotonin.Schedule
