import Serotonin.Schedule.Tasks

/-! Who the tasks are and where they stand: on the task list, among the zombies, at the
processor. Outside the loop of `task_yield` a step of the scheduler either leaves all that
alone or goes through `reap_zombies`. -/

namespace Serotonin.Schedule

open Option (ite_none_right_eq_some)

structure Owners (s s' : Sched) : Prop where
  pid : ∀ t, (s'.pcb t).pid = (s.pcb t).pid
  priv : ∀ t, (s'.pcb t).priv = (s.pcb t).priv
  taskList : s'.taskList = s.taskList
  zombieList : s'.zombieList = s.zombieList
  current : s'.current = s.current

theorem Owners.refl (s : Sched) : Owners s s := ⟨fun _ => rfl, fun _ => rfl, rfl, rfl, rfl⟩

theorem Owners.trans {s t u : Sched} (h : Owners s t) (h' : Owners t u) : Owners s u :=
  ⟨fun x => (h'.pid x).trans (h.pid x), fun x => (h'.priv x).trans (h.priv x),
    h'.taskList.trans h.taskList, h'.zombieList.trans h.zombieList, h'.current.trans h.current⟩

theorem Owners.foldl {α : Type} {f : Sched → α → Sched} (hf : ∀ s a, Owners s (f s a)) :
    ∀ (l : List α) (s : Sched), Owners s (l.foldl f s)
  | [], s => .refl s
  | a :: l, s => (hf s a).trans (Owners.foldl hf l (f s a))

theorem owners_of_pcb {s s' : Sched} (hp : s'.pcb = s.pcb) (ht : s'.taskList = s.taskList)
    (hz : s'.zombieList = s.zombieList) (hc : s'.current = s.current) : Owners s s' :=
  ⟨fun t => by rw [hp], fun t => by rw [hp], ht, hz, hc⟩

theorem owners_modify (s : Sched) (t : Tid) {f : Pcb → Pcb} (hp : ∀ x, (f x).pid = x.pid)
    (hv : ∀ x, (f x).priv = x.priv) : Owners s (s.modify t f) :=
  ⟨modify_pcb_field _ hp, modify_pcb_field _ hv, rfl, rfl, rfl⟩

theorem owners_setState (s : Sched) (t : Tid) (st : ProcessState) : Owners s (s.setState t st) :=
  owners_modify s t (fun _ => rfl) fun _ => rfl

theorem SameTasks.owners {s s' : Sched} (h : SameTasks s s') : Owners s s' := by
  refine ⟨fun t => ?_, fun t => ?_, h.taskList, h.zombieList, h.current⟩
  · obtain ⟨n, hn⟩ := h.pcb t
    rw [hn]
  · obtain ⟨n, hn⟩ := h.pcb t
    rw [hn]

theorem owners_taskUnblock (s : Sched) (t : Tid) : Owners s (taskUnblock s t) := by
  unfold taskUnblock
  split
  · exact (owners_setState s t .ready).trans (sameTasks_enqueue _ t).owners
  · exact .refl s

theorem owners_signalRaise (s : Sched) (t : Tid) (signal : Nat) :
    Owners s (taskIpcSignalRaise s t signal) := by
  have hm := owners_modify s t (f := fun x =>
    { x with signalBitmask := x.signalBitmask ||| (1#32 <<< signal) }) (fun _ => rfl) fun _ => rfl
  unfold taskIpcSignalRaise
  split
  · exact .refl s
  dsimp only
  split
  · exact hm.trans (owners_taskUnblock _ t)
  · exact hm

theorem owners_alarmTick (s : Sched) (t : Tid) : Owners s (alarmTick s t) := by
  have hm := owners_modify s t (f := fun x => { x with alarmTicks := x.alarmTicks - 1 })
    (fun _ => rfl) fun _ => rfl
  unfold alarmTick
  split
  · dsimp only
    split
    · exact hm.trans (owners_signalRaise _ t _)
    · exact hm
  · exact .refl s

theorem owners_pollWake (s : Sched) (w : Tid × Int) : Owners s (pollWake s w) := by
  have hm := owners_modify s w.1 (f := fun x => { x with eax := w.2 }) (fun _ => rfl) fun _ => rfl
  exact hm.trans (owners_taskUnblock _ w.1)

theorem owners_frameTick (s : Sched) : Owners s (frameTick s) := by
  have h0 : Owners s { s with vbeTicks := 0 } := owners_of_pcb rfl rfl rfl rfl
  unfold frameTick
  split
  · exact h0.trans (sameTasks_enqueue _ _).owners
  · exact .refl s

theorem owners_taskBlock (s : Sched) : Owners s (taskBlock s) :=
  (owners_setState s s.current .blocked).trans (owners_of_pcb rfl rfl rfl rfl)

theorem owners_deliverSignals (s : Sched) (t : Tid) : Owners s (taskIpcDeliverSignals s t).1 := by
  obtain ⟨_, _, he⟩ := deliverSignals_eq s t
  rw [he]
  exact owners_modify s t (fun _ => rfl) fun _ => rfl

theorem owners_notifyWaiter (exited : Tid) (exit : Nat) (copyFails : Tid → Bool) (s : Sched) (t : Tid) :
    Owners s (notifyWaiter exited exit copyFails s t) := by
  have hm := owners_modify s t (f := fun x => x.awaited (s.pcb exited).pid exit
    ((s.pcb t).statusPtr.isNone || copyFails t)) (fun _ => rfl) fun _ => rfl
  unfold notifyWaiter
  split
  · exact hm.trans (sameTasks_enqueue _ t).owners
  · exact .refl s

/-- The zombies are reaped, and nothing else happens to the tasks. -/
theorem owners_taskYield (s : Sched) : Owners (reapZombies s) (taskYield s) := by
  have hmode : ∀ e : Sched, Owners e { e with mode := .switching } := fun e =>
    owners_of_pcb rfl rfl rfl rfl
  unfold taskYield
  refine Owners.trans ?_ (hmode _)
  dsimp only
  split
  · have hready := owners_setState (reapZombies s) (reapZombies s).current .ready
    split
    · exact hready
    · exact hready.trans (sameTasks_enqueue _ _).owners
  · exact .refl _

theorem Owners.reapZombies {s s' : Sched} (h : Owners s s') :
    Owners (reapZombies s) (reapZombies s') := by
  refine ⟨h.pid, h.priv, h.taskList, ?_, h.current⟩
  show s'.zombieList.filter (· == s'.current) = s.zombieList.filter (· == s.current)
  rw [h.zombieList, h.current]

theorem owners_taskExit {s s' : Sched} {t : Tid} {exit : Nat} (hs : taskExit s t exit = some s') :
    Owners s s' ∧ s'.mode = .exiting t exit ∧ (s.pcb t).pid ≠ 1 := by
  unfold taskExit at hs
  split at hs
  · cases hs
  rename_i hpid
  cases hs
  have hend := owners_modify s t (f := fun x => { x with state := .terminated, signal := exit })
    (fun _ => rfl) fun _ => rfl
  exact ⟨⟨hend.pid, hend.priv, rfl, rfl, rfl⟩, rfl, hpid⟩

theorem owners_taskExitNotify (s : Sched) (exited : Tid) (exit : Nat) (copyFails : Tid → Bool) :
    Owners (reapZombies { s with
        taskList := s.taskList.filter (· != exited), zombieList := exited :: s.zombieList })
      (taskExitNotify s exited exit copyFails) := by
  have hn : Owners s (s.taskList.foldl (notifyWaiter exited exit copyFails) s) :=
    Owners.foldl (owners_notifyWaiter exited exit copyFails) _ s
  unfold taskExitNotify
  generalize s.taskList.foldl (notifyWaiter exited exit copyFails) s = r at hn
  refine Owners.trans (Owners.reapZombies ?_) (owners_taskYield _)
  refine ⟨hn.pid, hn.priv, ?_, ?_, hn.current⟩
  · show r.taskList.filter (· != exited) = _
    rw [hn.taskList]
  · show exited :: r.zombieList = _
    rw [hn.zombieList]

/-! ## Steps outside the loop of `task_yield` -/

/-- The step does not come to the loop of `task_yield`, or it went through `reap_zombies`. -/
structure Follows (s s' : Sched) : Prop where
  stays : s'.mode ≠ .switching → Owners s s'
  yields : s'.mode = .switching → Owners (reapZombies s) s'
  /-- Only the current task begins to exit, and init never does. -/
  exiting : ∀ t exit, s'.mode = .exiting t exit →
    s.mode = .exiting t exit ∨ t = s.current ∧ (s.pcb t).pid ≠ 1

theorem Owners.follows {s s' : Sched} (h : Owners s s') (hm : s.mode ≠ .switching)
    (he : s'.mode = s.mode ∨ s'.mode = .yielding) : Follows s s' := by
  refine ⟨fun _ => h, fun hs => ?_, fun t exit hx => ?_⟩
  · rcases he with he | he
    · exact absurd (he.symm.trans hs) hm
    · rw [he] at hs
      cases hs
  · rcases he with he | he
    · exact .inl (he.symm.trans hx)
    · rw [he] at hx
      cases hx

theorem follows_modify {s : Sched} (hm : s.mode ≠ .switching) (t : Tid) {f : Pcb → Pcb}
    (hp : ∀ x, (f x).pid = x.pid) (hv : ∀ x, (f x).priv = x.priv) : Follows s (s.modify t f) :=
  (owners_modify s t hp hv).follows hm (.inl rfl)

theorem follows_taskYield {s s' : Sched} (h : Owners s s') : Follows s (taskYield s') :=
  ⟨fun hm => absurd rfl hm, fun _ => h.reapZombies.trans (owners_taskYield s'),
    fun _ _ he => nomatch he⟩

theorem follows_taskExit {s e s' : Sched} {exit : Nat} (h : Owners s e)
    (hs : taskExit e s.current exit = some s') : Follows s s' := by
  obtain ⟨ho, hm, hpid⟩ := owners_taskExit hs
  refine ⟨fun _ => h.trans ho, fun hy => ?_, fun t exit he => .inr ?_⟩
  · rw [hm] at hy
    cases hy
  · rw [hm] at he
    cases he
    exact ⟨rfl, h.pid s.current ▸ hpid⟩

theorem follows_sysWaitpid {s : Sched} (hm : s.mode ≠ .switching) (pid : Nat) (statusPtr : Option Nat) :
    Follows s (sysWaitpid s pid statusPtr) := by
  have hset := owners_modify s s.current (f := fun x =>
    { x with waitingOn := pid, statusPtr := statusPtr }) (fun _ => rfl) fun _ => rfl
  have hwait := follows_taskYield (hset.trans (owners_taskBlock _))
  have herrno : ∀ e, Follows s { s with errno := e } := fun e =>
    Owners.follows (owners_of_pcb rfl rfl rfl rfl) hm (.inl rfl)
  unfold sysWaitpid
  dsimp only
  split
  · exact hwait
  split
  · exact herrno _
  split
  · exact herrno _
  · exact hwait

theorem mode_taskUnblock (s : Sched) (t : Tid) : (taskUnblock s t).mode = s.mode := by
  unfold taskUnblock
  split
  · exact (sameTasks_enqueue _ t).mode
  · rfl

theorem mode_signalRaise (s : Sched) (t : Tid) (signal : Nat) :
    (taskIpcSignalRaise s t signal).mode = s.mode := by
  unfold taskIpcSignalRaise
  split
  · rfl
  dsimp only
  split
  · exact mode_taskUnblock ..
  · rfl

theorem mode_alarmTick (s : Sched) (t : Tid) : (alarmTick s t).mode = s.mode := by
  unfold alarmTick
  split
  · dsimp only
    split
    · exact mode_signalRaise ..
    · rfl
  · rfl

theorem mode_pollWake (s : Sched) (w : Tid × Int) : (pollWake s w).mode = s.mode := mode_taskUnblock _ w.1

theorem mode_foldl {α : Type} {f : Sched → α → Sched} (hf : ∀ s a, (f s a).mode = s.mode) :
    ∀ (l : List α) (s : Sched), (l.foldl f s).mode = s.mode
  | [], _ => rfl
  | a :: l, s => (mode_foldl hf l (f s a)).trans (hf s a)

theorem mode_frameTick (s : Sched) : (frameTick s).mode = s.mode := by
  unfold frameTick
  split
  · exact (sameTasks_enqueue _ _).mode
  · rfl

theorem mode_deliverSignals (s : Sched) (t : Tid) : (taskIpcDeliverSignals s t).1.mode = s.mode := by
  obtain ⟨_, _, he⟩ := deliverSignals_eq s t
  rw [he]
  rfl

theorem follows_quantumTick {s s' : Sched} (h : Owners s s') (hm : s.mode ≠ .switching)
    (he : s'.mode = s.mode) (userCode : Bool) (eax : Int) : Follows s (quantumTick userCode eax s') := by
  have htick : ∀ n, Owners s { s' with lastQuantumTick := n } := fun n =>
    h.trans (owners_of_pcb rfl rfl rfl rfl)
  have hdecay : ∀ x : Pcb, (taskPriorityDecay x).2.pid = x.pid ∧
      (taskPriorityDecay x).2.priv = x.priv := by
    intro x
    unfold taskPriorityDecay
    dsimp only
    split
    · exact ⟨rfl, rfl⟩
    split
    · split
      · exact ⟨rfl, rfl⟩
      · exact ⟨rfl, rfl⟩
    · exact ⟨rfl, rfl⟩
  have hyield : ∀ e, Owners s e → Follows s (taskYield { e with lastQuantumTick := 0 }) := fun e ho =>
    follows_taskYield (ho.trans (owners_of_pcb rfl rfl rfl rfl))
  unfold quantumTick
  split
  · dsimp only
    split
    · refine hyield (Sched.modify _ _ _) ((htick (s'.lastQuantumTick + 1)).trans ?_)
      exact owners_modify _ _ (fun x => (hdecay _).1) fun x => (hdecay _).2
    · exact (htick _).follows hm (.inl he)
  · exact h.follows hm (.inl he)

theorem follows_irqPitHandler {s : Sched} (hm : s.mode ≠ .switching) (userCode : Bool) (eax : Int)
    (polled : List (Tid × Int)) : Follows s (irqPitHandler userCode eax polled s) := by
  have htick : Owners s { s with vbeTicks := s.vbeTicks + 1 } := owners_of_pcb rfl rfl rfl rfl
  have hwake : ∀ e : Sched, Owners e (timerWake polled e) ∧ (timerWake polled e).mode = e.mode :=
    fun e => ⟨(Owners.foldl owners_alarmTick _ _).trans (Owners.foldl owners_pollWake _ _),
      (mode_foldl mode_pollWake _ _).trans (mode_foldl mode_alarmTick _ _)⟩
  unfold irqPitHandler
  dsimp only
  split
  · obtain ⟨ho, he⟩ := hwake { s with vbeTicks := s.vbeTicks + 1 }
    exact follows_quantumTick ((htick.trans ho).trans (owners_frameTick _)) hm
      ((mode_frameTick _).trans he) userCode eax
  · exact htick.follows hm (.inl rfl)

theorem follows_systemCallReturn {s s' : Sched} (hm : s.mode ≠ .switching)
    (hs : systemCallReturn s = some s') : Follows s s' := by
  have hmod := owners_modify s s.current (f := fun x => { x with eax := s.errno }) (fun _ => rfl) fun _ => rfl
  have hd := hmod.trans
    (owners_deliverSignals (s.modify s.current fun x => { x with eax := s.errno }) s.current)
  have hmode := mode_deliverSignals (s.modify s.current fun x => { x with eax := s.errno }) s.current
  unfold systemCallReturn at hs
  generalize taskIpcDeliverSignals (s.modify s.current fun x => { x with eax := s.errno })
    s.current = r at hs hd hmode
  obtain ⟨e, sig⟩ := r
  cases sig with
  | some sig =>
    have hcur : e.current = s.current := hd.current
    dsimp only at hs
    rw [hcur] at hs
    exact follows_taskExit hd hs
  | none =>
    cases hs
    exact hd.follows hm (.inl hmode)

/-- The task list keeps its members, and nobody begins or ends there. -/
def Op.Inner : Op → Prop
  | .pickNext => False
  | .exitNotify _ => False
  | .create _ _ _ => False
  | .fork _ => False
  | _ => True

theorem follows_step {s s' : Sched} (op : Op) (hop : op.Inner) (hs : step s op = some s') :
    Follows s s' := by
  have hrun : s.mode = .running → s.mode ≠ .switching := fun hm he => by rw [hm] at he; cases he
  unfold step at hs
  cases op with
  | enqueue t =>
    obtain ⟨hm, hs⟩ := ite_none_right_eq_some.mp hs
    cases hs
    have h := sameTasks_enqueue s t
    exact h.owners.follows (hrun hm) (.inl h.mode)
  | dequeue =>
    obtain ⟨hm, hs⟩ := ite_none_right_eq_some.mp hs
    cases hs
    have h := sameTasks_dequeue s
    exact h.owners.follows (hrun hm) (.inl h.mode)
  | taskYield =>
    obtain ⟨-, hs⟩ := ite_none_right_eq_some.mp hs
    cases hs
    exact follows_taskYield (.refl s)
  | pickNext => exact hop.elim
  | taskBlock =>
    obtain ⟨hm, hs⟩ := ite_none_right_eq_some.mp hs
    cases hs
    exact (owners_taskBlock s).follows (hrun hm) (.inr rfl)
  | taskUnblock t =>
    obtain ⟨hm, hs⟩ := ite_none_right_eq_some.mp hs
    cases hs
    exact (owners_taskUnblock s t).follows hm (.inl (mode_taskUnblock s t))
  | signalRaise t signal =>
    obtain ⟨hm, hs⟩ := ite_none_right_eq_some.mp hs
    cases hs
    exact (owners_signalRaise s t signal).follows hm (.inl (mode_signalRaise s t signal))
  | waitpid pid statusPtr =>
    obtain ⟨hm, hs⟩ := ite_none_right_eq_some.mp hs
    cases hs
    exact follows_sysWaitpid (hrun hm) pid statusPtr
  | exit exit =>
    obtain ⟨-, hs⟩ := ite_none_right_eq_some.mp hs
    exact follows_taskExit (.refl s) hs
  | exitNotify copyFails => exact hop.elim
  | timer userCode eax polled =>
    obtain ⟨hm, hs⟩ := ite_none_right_eq_some.mp hs
    cases hs
    refine follows_irqPitHandler (fun he => ?_) userCode eax polled
    rw [he] at hm
    rcases hm with hm | hm <;> cases hm
  | signal signal handler =>
    obtain ⟨hm, hs⟩ := ite_none_right_eq_some.mp hs
    cases hs
    unfold taskIpcRegisterSignalHandler
    split
    · exact (Owners.refl s).follows (hrun hm) (.inl rfl)
    · exact follows_modify (hrun hm) s.current (fun _ => rfl) fun _ => rfl
  | sigret =>
    obtain ⟨hm, hs⟩ := ite_none_right_eq_some.mp hs
    cases hs
    exact follows_modify (hrun hm) s.current (fun _ => rfl) fun _ => rfl
  | alarm seconds =>
    obtain ⟨hm, hs⟩ := ite_none_right_eq_some.mp hs
    cases hs
    have h := owners_modify s s.current (f := fun x => { x with alarmTicks := seconds * 1000 % 2 ^ 32 })
      (fun _ => rfl) fun _ => rfl
    exact Owners.follows ⟨h.pid, h.priv, rfl, rfl, rfl⟩ (hrun hm) (.inl rfl)
  | systemCallReturn =>
    obtain ⟨hm, hs⟩ := ite_none_right_eq_some.mp hs
    exact follows_systemCallReturn (hrun hm) hs
  | preemptDisable =>
    obtain ⟨hm, hs⟩ := ite_none_right_eq_some.mp hs
    cases hs
    exact Owners.follows (owners_of_pcb rfl rfl rfl rfl) (hrun hm) (.inl rfl)
  | preemptEnable =>
    obtain ⟨hm, hs⟩ := ite_none_right_eq_some.mp hs
    cases hs
    exact Owners.follows (owners_of_pcb rfl rfl rfl rfl) (hrun hm) (.inl rfl)
  | create t priv prio => exact hop.elim
  | fork t => exact hop.elim

end Serotonin.Schedule
