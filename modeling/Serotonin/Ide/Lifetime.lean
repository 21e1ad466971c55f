import Serotonin.Ide.Model
import Serotonin.Handles.Others
import Serotonin.Handles.Calls
import Mathlib.Data.List.Nodup

/-! What a disk request refers to. A task that waits for the disk keeps its descriptors and its
address space, so long as nothing but the worker wakes it: whoever else closes the file, the
waiting task has it open. -/

namespace Serotonin.Ide

open Function List
open Files (Tid NodeId HandleId FileHandle fdMax)
open Schedule (ProcessState)
open Option (map_eq_some_iff bind_eq_some_iff map_some)

/-! ## The requests there are -/

/-- The request that the worker has taken off the queue, until it has unblocked the task. -/
def Phase.request (workQueue : Nat → DiskWork) : Phase → List DiskWork
  | .popped idx => [workQueue idx]
  | .working w | .done w => [w]
  | .start | .waiting | .taken => []

namespace System

def queueLen (s : System) : Nat := (s.workTail + ideWorkQueueSize - s.workHead) % ideWorkQueueSize

def queued (s : System) : List DiskWork := CircBuf.window s.workQueue ideWorkQueueSize s.workHead s.queueLen

def held (s : System) : List DiskWork := s.phase.request s.workQueue ++ s.queued

end System

/-- Nothing the request refers to was freed, and its task waits for it. -/
structure Alive (s : System) (w : DiskWork) : Prop where
  task : ∃ x, s.pcb w.task = some x ∧ x.state = .blocked ∧ x.call = some w.id
  handle : ∃ x n y, s.files.handle w.handle = some x ∧ x.node = some n ∧ s.files.node n = some y
  space : s.spaces w.addrSpace = true

variable {s s' s'' : System} {t : Tid} {w : DiskWork} {x : Task} {f : Task → Task}

/-! ## Tasks -/

theorem pcb_modify (s : System) (t : Tid) (f : Task → Task) : (s.modify t f).pcb t = (s.pcb t).map f :=
  update_self ..

theorem pcb_modify_self (hx : s.pcb t = some x) (f : Task → Task) : (s.modify t f).pcb t = some (f x) := by
  simp [System.modify, hx]

theorem pcb_modify_of_ne {u : Tid} (hu : u ≠ t) (f : Task → Task) : (s.modify t f).pcb u = s.pcb u :=
  update_of_ne hu _ _

theorem modify_modify (s : System) (t : Tid) (f g : Task → Task) :
    (s.modify t f).modify t g = s.modify t fun x => g (f x) := by
  unfold System.modify
  simp only [update_self, update_idem, Option.map_map]
  rfl

/-- Every task that lives has its control block and its address space, and those of a task that
has ended are nobody else's. -/
structure TasksOk (s : System) : Prop where
  files : Handles.Inv s.files [] []
  accept : ∀ n, s.files.acceptWaiters n = []
  user : ∀ t ∈ s.files.tids, ∃ x, s.pcb t = some x ∧ x.priv = .user ∧ x.state ≠ .terminated ∧ s.spaces x.addrSpace = true
  worker : ∃ x, s.pcb s.worker = some x ∧ x.priv = .kernel ∧ x.state ≠ .terminated
  workerNot : s.worker ∉ s.files.tids
  known : ∀ t x, s.pcb t = some x → x.state ≠ .terminated → t ∈ s.files.tids ∨ t = s.worker
  zombies : ∀ t ∈ s.zombies, t ∉ s.files.tids ∧ t ≠ s.worker
  apart : ∀ t ∈ s.files.tids, ∀ x, s.pcb t = some x → ∀ u y, s.pcb u = some y → u ≠ t → x.addrSpace ≠ y.addrSpace
  running : s.switching = false → ∃ x, s.pcb s.current = some x ∧ x.state = .running

/-- A change of a control block that leaves the task what it is. -/
structure Same (x x' : Task) : Prop where
  priv : x'.priv = x.priv
  addrSpace : x'.addrSpace = x.addrSpace
  terminated : x'.state = .terminated ↔ x.state = .terminated

/-- A request whose task waits, with the file open. -/
structure Waiting (s : System) (w : DiskWork) : Prop where
  task : w.task ∈ s.files.tids
  pcb : ∃ x, s.pcb w.task = some x ∧ x.state = .blocked ∧ x.call = some w.id ∧ x.addrSpace = w.addrSpace
  slot : ∃ fd < fdMax, s.files.fdTable (w.task, fd) = some w.handle
  node : ∃ n, s.files.nodeOf w.handle = some n

theorem Waiting.alive (hi : TasksOk s) (hw : Waiting s w) : Alive s w := by
  obtain ⟨x, hx, hb, hc, ha⟩ := hw.pcb
  obtain ⟨fd, hfd, hslot⟩ := hw.slot
  obtain ⟨n, hn⟩ := hw.node
  obtain ⟨z, hz⟩ := hi.files.slot_handle hw.task hfd hslot
  have hzn : z.node = some n := by simpa [Handles.System.nodeOf, hz] using hn
  obtain ⟨y, hy⟩ := hi.files.node_isSome (Nat.add_pos_left (hi.files.openers_pos hz hzn) _)
  obtain ⟨x', hx', -, -, hs⟩ := hi.user w.task hw.task
  rw [hx] at hx'
  cases hx'
  exact ⟨⟨x, hx, hb, hc⟩, ⟨z, n, y, hz, hzn, hy⟩, ha ▸ hs⟩

namespace TasksOk

theorem known_current (hi : TasksOk s) (hs : s.switching = false) : s.current ∈ s.files.tids ∨ s.current = s.worker := by
  obtain ⟨x, hx, hr⟩ := hi.running hs
  exact hi.known _ x hx (by rw [hr]; exact ProcessState.noConfusion)

theorem modify (hi : TasksOk s) (hf : ∀ x, s.pcb t = some x → Same x (f x))
    (hr : s.switching = false → t = s.current → ∀ x, s.pcb t = some x → x.state = .running → (f x).state = .running) :
    TasksOk (s.modify t f) := by
  have hback : ∀ u y, (s.modify t f).pcb u = some y → ∃ x, s.pcb u = some x ∧ Same x y := by
    intro u y hy
    by_cases hu : u = t
    · subst hu
      rw [pcb_modify] at hy
      obtain ⟨x, hx, rfl⟩ := map_eq_some_iff.mp hy
      exact ⟨x, hx, hf x hx⟩
    · exact ⟨y, (pcb_modify_of_ne hu f).symm.trans hy, rfl, rfl, Iff.rfl⟩
  have hforth : ∀ u x, s.pcb u = some x → ∃ y, (s.modify t f).pcb u = some y ∧ Same x y := by
    intro u x hx
    by_cases hu : u = t
    · subst hu
      exact ⟨f x, pcb_modify_self hx f, hf x hx⟩
    · exact ⟨x, (pcb_modify_of_ne hu f).trans hx, rfl, rfl, Iff.rfl⟩
  refine { hi with user := fun u hu => ?_, worker := ?_, known := fun u y hy hn => ?_, apart := ?_, running := fun hs => ?_ }
  · obtain ⟨x, hx, hp, hn, ha⟩ := hi.user u hu
    obtain ⟨y, hy, hsame⟩ := hforth u x hx
    exact ⟨y, hy, hsame.priv.trans hp, fun h => hn (hsame.terminated.mp h), hsame.addrSpace ▸ ha⟩
  · obtain ⟨x, hx, hp, hn⟩ := hi.worker
    obtain ⟨y, hy, hsame⟩ := hforth _ x hx
    exact ⟨y, hy, hsame.priv.trans hp, fun h => hn (hsame.terminated.mp h)⟩
  · obtain ⟨x, hx, hsame⟩ := hback u y hy
    exact hi.known u x hx fun h => hn (hsame.terminated.mpr h)
  · intro u hu y hy v z hz hne
    obtain ⟨x, hx, hsame⟩ := hback u y hy
    obtain ⟨x', hx', hsame'⟩ := hback v z hz
    rw [hsame.addrSpace, hsame'.addrSpace]
    exact hi.apart u hu x hx v x' hx' hne
  · obtain ⟨x, hx, hrun⟩ := hi.running hs
    by_cases hc : s.current = t
    · rw [hc] at hx
      refine ⟨f x, ?_, hr hs hc.symm x hx hrun⟩
      show (s.modify t f).pcb s.current = _
      rw [hc]
      exact pcb_modify_self hx f
    · exact ⟨x, (pcb_modify_of_ne hc f).trans hx, hrun⟩

/-- The kernel is on its way to `task_yield`. -/
theorem yielding (hi : TasksOk s) : TasksOk { s with switching := true } :=
  { hi with running := fun h => nomatch h }

end TasksOk

theorem Waiting.mono (hw : Waiting s w) (hpcb : s'.pcb w.task = s.pcb w.task) (htids : w.task ∈ s'.files.tids)
    (hfd : ∀ fd, s'.files.fdTable (w.task, fd) = s.files.fdTable (w.task, fd))
    (hnode : s'.files.nodeOf w.handle = s.files.nodeOf w.handle) : Waiting s' w where
  task := htids
  pcb := by
    rw [hpcb]
    exact hw.pcb
  slot := by
    obtain ⟨fd, hlt, hs⟩ := hw.slot
    exact ⟨fd, hlt, (hfd fd).trans hs⟩
  node := by
    rw [hnode]
    exact hw.node

/-- A change of a control block that the request does not wait on, or that goes on waiting. -/
theorem Waiting.modify (hw : Waiting s w) (h : w.task = t → ∀ x, s.pcb t = some x →
    (f x).state = x.state ∧ (f x).call = x.call ∧ (f x).addrSpace = x.addrSpace) : Waiting (s.modify t f) w := by
  refine { hw with pcb := ?_ }
  by_cases ht : w.task = t
  · obtain ⟨x, hx, hb, hc, ha⟩ := hw.pcb
    rw [ht] at hx
    obtain ⟨h1, h2, h3⟩ := h ht x hx
    rw [ht]
    exact ⟨f x, pcb_modify_self hx f, h1.trans hb, h2.trans hc, h3.trans ha⟩
  · rw [pcb_modify_of_ne ht]
    exact hw.pcb

/-! ## The queue -/

structure RingOk (s : System) : Prop where
  head : s.workHead < ideWorkQueueSize
  tail : s.workTail < ideWorkQueueSize
  popped : ∀ idx, s.phase = .popped idx → idx < ideWorkQueueSize ∧ s.workHead = (idx + 1) % ideWorkQueueSize
  count : s.workCount.currentCount + (if s.phase = .taken then 1 else 0) = s.queueLen
  sleepers : ∀ t ∈ s.workCount.waiters, t = s.worker

structure SameRing (s s' : System) : Prop where
  worker : s'.worker = s.worker
  workQueue : s'.workQueue = s.workQueue
  workHead : s'.workHead = s.workHead
  workTail : s'.workTail = s.workTail
  workCount : s'.workCount = s.workCount
  phase : s'.phase = s.phase

namespace SameRing

theorem refl (s : System) : SameRing s s := ⟨rfl, rfl, rfl, rfl, rfl, rfl⟩

theorem trans (h : SameRing s s') (h' : SameRing s' s'') : SameRing s s'' :=
  ⟨h'.worker.trans h.worker, h'.workQueue.trans h.workQueue, h'.workHead.trans h.workHead,
    h'.workTail.trans h.workTail, h'.workCount.trans h.workCount, h'.phase.trans h.phase⟩

theorem queueLen (h : SameRing s s') : s'.queueLen = s.queueLen := by
  unfold System.queueLen
  rw [h.workTail, h.workHead]

theorem queued (h : SameRing s s') : s'.queued = s.queued := by
  unfold System.queued
  rw [h.workQueue, h.workHead, h.queueLen]

theorem held (h : SameRing s s') : s'.held = s.held := by
  unfold System.held
  rw [h.phase, h.workQueue, h.queued]

theorem ringOk (h : SameRing s s') (hi : RingOk s) : RingOk s' := by
  obtain ⟨h1, h2, h3, h4, h5⟩ := hi
  refine ⟨?_, ?_, ?_, ?_, ?_⟩
  · rwa [h.workHead]
  · rwa [h.workTail]
  · rwa [h.phase, h.workHead]
  · rwa [h.workCount, h.phase, h.queueLen]
  · rwa [h.workCount, h.worker]

end SameRing

theorem RingOk.tail_eq (hi : RingOk s) : s.workTail = (s.workHead + s.queueLen) % ideWorkQueueSize := by
  have hh := hi.head
  have ht := hi.tail
  unfold System.queueLen ideWorkQueueSize at *
  omega

/-! ## The invariant -/

structure Inv (s : System) : Prop where
  tasks : TasksOk s
  ring : RingOk s
  held : ∀ w ∈ s.held, Waiting s w
  distinct : (s.held.map fun w => w.task).Nodup

/-- What a task does that waits for no request. -/
structure Acts (t : Tid) (s s' : System) : Prop where
  ring : SameRing s s'
  tasks : TasksOk s'
  others : ∀ w, w.task ≠ t → Waiting s w → Waiting s' w

namespace Acts

theorem refl (hi : TasksOk s) (t : Tid) : Acts t s s := ⟨.refl s, hi, fun _ _ h => h⟩

theorem trans (h : Acts t s s') (h' : Acts t s' s'') : Acts t s s'' :=
  ⟨h.ring.trans h'.ring, h'.tasks, fun w hw hs => h'.others w hw (h.others w hw hs)⟩

theorem inv (h : Acts t s s') (hi : Inv s) (hn : ∀ w ∈ s.held, w.task ≠ t) : Inv s' where
  tasks := h.tasks
  ring := h.ring.ringOk hi.ring
  held := by
    rw [h.ring.held]
    exact fun w hw => h.others w (hn w hw) (hi.held w hw)
  distinct := by
    rw [h.ring.held]
    exact hi.distinct

theorem modify (hi : TasksOk s) (hf : ∀ x, s.pcb t = some x → Same x (f x))
    (hr : s.switching = false → t = s.current → ∀ x, s.pcb t = some x → x.state = .running → (f x).state = .running) :
    Acts t s (s.modify t f) :=
  ⟨⟨rfl, rfl, rfl, rfl, rfl, rfl⟩, hi.modify hf hr, fun _ hw h => h.modify fun he => absurd he hw⟩

end Acts

/-! ## What tasks do -/

theorem ok_of_toOption {ε α : Type} {e : Except ε α} {a : α} (h : e.toOption = some a) : e = .ok a := by
  cases e with
  | error e => cases h
  | ok b =>
    cases h
    rfl

namespace Acts

/-- Descriptors of `t` changed, and the handles they led to. -/
theorem files (hi : TasksOk s) {files : Handles.System} (hf : Handles.Inv files [] [])
    (ho : Handles.Others t s.files files) : Acts t s { s with files := files } where
  ring := ⟨rfl, rfl, rfl, rfl, rfl, rfl⟩
  tasks := by
    refine { hi with
      files := hf, accept := fun n => ?_, user := fun u hu => hi.user u (ho.tids ▸ hu)
      workerNot := fun h => hi.workerNot (ho.tids ▸ h), known := fun u x hx hn => ?_
      zombies := fun u hu => ⟨fun h => (hi.zombies u hu).1 (ho.tids ▸ h), (hi.zombies u hu).2⟩
      apart := fun u hu => hi.apart u (ho.tids ▸ hu) }
    · refine eq_nil_iff_forall_not_mem.mpr fun u hu => ?_
      have hold := ho.waiters n u hu
      rw [hi.accept n] at hold
      cases hold
    · show u ∈ files.tids ∨ u = s.worker
      rw [ho.tids]
      exact hi.known u x hx hn
  others w hw hs := by
    obtain ⟨fd, hfd, hslot⟩ := hs.slot
    have hslot' : files.fdTable (w.task, fd) = some w.handle := (ho.fdTable (w.task, fd) hw).trans hslot
    obtain ⟨z, hz⟩ := hf.slot_handle (ho.tids ▸ hs.task) hfd hslot'
    exact hs.mono rfl (ho.tids ▸ hs.task) (fun fd => ho.fdTable (w.task, fd) hw) (ho.nodeOf w.handle (by rw [hz]; rfl))

/-- The task ends; what is left of it is a zombie. -/
theorem exit (hi : TasksOk s) (ht : t ∈ s.files.tids) (hs : taskExit s t = some s') : Acts t s s' := by
  unfold taskExit at hs
  split at hs
  · cases hs
  · obtain ⟨files, hf, rfl⟩ := map_eq_some_iff.mp hs
    have hexit : Handles.taskExit s.files t = .ok files := ok_of_toOption hf
    have hwait : ∀ n, t ∉ s.files.acceptWaiters n := fun n => by
      rw [hi.accept n]
      exact not_mem_nil
    obtain ⟨hinv, -⟩ := (hi.files.taskExit ht hwait).result hexit
    obtain ⟨g, ho, rfl⟩ := Handles.taskExit_others hexit
    have htids : g.tids = s.files.tids := ho.tids
    have hmem : ∀ u, u ∈ g.tids.erase t ↔ u ≠ t ∧ u ∈ s.files.tids := fun u => by
      rw [htids]
      exact hi.files.tids.mem_erase_iff
    have htw : t ≠ s.worker := fun h => hi.workerNot (h ▸ ht)
    have hpcb : ∀ u, u ≠ t → (s.setState t .terminated).pcb u = s.pcb u := fun u hu => pcb_modify_of_ne hu _
    refine ⟨⟨rfl, rfl, rfl, rfl, rfl, rfl⟩, ?_, fun w hw hwait => ?_⟩
    · refine ⟨hinv, fun n => ?_, fun u hu => ?_, ?_, fun h => hi.workerNot ((hmem _).mp h).2, fun u x hx hn => ?_, fun u hu => ?_,
        fun u hu x hx v y hy hne => ?_, fun h => nomatch h⟩
      · refine eq_nil_iff_forall_not_mem.mpr fun u hu => ?_
        have hold := ho.waiters n u hu
        rw [hi.accept n] at hold
        cases hold
      · obtain ⟨hne, hu⟩ := (hmem u).mp hu
        obtain ⟨x, hx, hrest⟩ := hi.user u hu
        exact ⟨x, (hpcb u hne).trans hx, hrest⟩
      · obtain ⟨x, hx, hrest⟩ := hi.worker
        exact ⟨x, (hpcb _ htw.symm).trans hx, hrest⟩
      · by_cases hu : u = t
        · subst hu
          rw [show (s.setState u .terminated).pcb u = _ from pcb_modify s u _] at hx
          obtain ⟨z, -, rfl⟩ := map_eq_some_iff.mp hx
          exact absurd rfl hn
        · rcases hi.known u x ((hpcb u hu).symm.trans hx) hn with h | h
          · exact .inl ((hmem u).mpr ⟨hu, h⟩)
          · exact .inr h
      · rcases mem_cons.mp hu with rfl | hu
        · exact ⟨fun h => ((hmem _).mp h).1 rfl, htw⟩
        · exact ⟨fun h => (hi.zombies u hu).1 ((hmem u).mp h).2, (hi.zombies u hu).2⟩
      · obtain ⟨hut, hin⟩ := (hmem u).mp hu
        have hx' : s.pcb u = some x := (hpcb u hut).symm.trans hx
        by_cases hv : v = t
        · subst hv
          rw [show (s.setState v .terminated).pcb v = _ from pcb_modify s v _] at hy
          obtain ⟨z, hz, rfl⟩ := map_eq_some_iff.mp hy
          exact hi.apart u hin x hx' v z hz hne
        · exact hi.apart u hin x hx' v y ((hpcb v hv).symm.trans hy) hne
    · have hin : w.task ∈ g.tids.erase t := (hmem _).mpr ⟨hw, hwait.task⟩
      obtain ⟨fd, hfd, hslot⟩ := hwait.slot
      obtain ⟨z, hz⟩ := hinv.slot_handle hin hfd ((ho.fdTable (w.task, fd) hw).trans hslot)
      exact hwait.mono (hpcb _ hw) hin (fun fd => ho.fdTable (w.task, fd) hw) (ho.nodeOf w.handle (by rw [show g.handle w.handle = _ from hz]; rfl))

end Acts

/-- A change of a control block that has to do with signals only. -/
structure Signalled (x x' : Task) : Prop extends Same x x' where
  state : x'.state = x.state
  eax : x'.eax = x.eax
  call : x'.call = x.call

theorem deliver_eq (s : System) (t : Tid) (x : Task) : ∃ g : Task → Task, (∀ y, Signalled y (g y)) ∧
    (taskIpcDeliverSignals s t x).1 = s.modify t g ∧ ((taskIpcDeliverSignals s t x).2 = true → x.priv = .user) := by
  have hsame : s = s.modify t id := by
    unfold System.modify
    rw [Option.map_id, id, update_eq_self]
  have hid : ∀ y : Task, Signalled y (id y) := fun y => ⟨⟨rfl, rfl, Iff.rfl⟩, rfl, rfl, rfl⟩
  unfold taskIpcDeliverSignals
  split
  · exact ⟨id, hid, hsame, fun h => nomatch h⟩
  · next hp =>
    have hp : x.priv = .user := not_not.mp hp
    split
    · exact ⟨id, hid, hsame, fun h => nomatch h⟩
    · split
      · exact ⟨id, hid, hsame, fun h => nomatch h⟩
      · next sig _ =>
        simp only
        split
        · exact ⟨fun y => { y with signalBitmask := y.signalBitmask &&& ~~~(1#32 <<< sig) },
            fun y => ⟨⟨rfl, rfl, Iff.rfl⟩, rfl, rfl, rfl⟩, rfl, fun _ => hp⟩
        · refine ⟨fun y => { y with
              signalBitmask := y.signalBitmask &&& ~~~(1#32 <<< sig), inSignalHandler := true },
            fun y => ⟨⟨rfl, rfl, Iff.rfl⟩, rfl, rfl, rfl⟩, ?_, fun h => nomatch h⟩
          rw [modify_modify]

/-- Signals change the control block only, or they end the task. -/
theorem afterSignals_spec (hi : TasksOk s) {go : System → System} (ht : x.priv = .user → t ∈ s.files.tids)
    (hs : afterSignals s t x go = some s') :
    ∃ g : Task → Task, (∀ y, Signalled y (g y)) ∧ Acts t s (s.modify t g) ∧
      (s' = go (s.modify t g) ∨ x.priv = .user ∧ taskExit (s.modify t g) t = some s' ∧ Acts t s s') := by
  obtain ⟨g, hg, he, hk⟩ := deliver_eq s t x
  have hact : Acts t s (s.modify t g) := .modify hi (fun y _ => (hg y).toSame) fun _ _ y _ hr => (hg y).state.trans hr
  refine ⟨g, hg, hact, ?_⟩
  unfold afterSignals at hs
  generalize taskIpcDeliverSignals s t x = r at hs he hk
  obtain ⟨s₁, killed⟩ := r
  obtain rfl : s₁ = s.modify t g := he
  cases killed with
  | false => exact .inl (Option.some.inj hs).symm
  | true => exact .inr ⟨hk rfl, hs, hact.trans (.exit hact.tasks (ht (hk rfl)) hs)⟩

theorem Acts.callEnd (hi : TasksOk s) (hc : s.current ∈ s.files.tids) {v : Int} (hs : systemCallEnd s v = some s') :
    Acts s.current s s' := by
  have heax : Acts s.current s (s.modify s.current fun x => { x with eax := v }) :=
    .modify hi (fun _ _ => ⟨rfl, rfl, Iff.rfl⟩) fun _ _ _ _ hr => hr
  obtain ⟨x, -, hs⟩ := bind_eq_some_iff.mp hs
  obtain ⟨g, -, hg, rfl | ⟨-, -, h⟩⟩ := afterSignals_spec heax.tasks (fun _ => hc) hs
  · exact heax.trans hg
  · exact heax.trans h

theorem reap_pcb (hi : TasksOk s) {u : Tid} (hu : u ∈ s.files.tids ∨ u = s.worker) :
    (reapZombies s).pcb u = s.pcb u := by
  refine if_neg fun ⟨hz, _⟩ => ?_
  obtain ⟨h1, h2⟩ := hi.zombies u hz
  exact hu.elim h1 h2

/-- A task that has ended is forgotten; no other task needs what was its. -/
theorem Acts.reap (hi : TasksOk s) (hs : s.switching = true) (t : Tid) : Acts t s (reapZombies s) := by
  have hback : ∀ u x, (reapZombies s).pcb u = some x → s.pcb u = some x := by
    intro u x hx
    unfold reapZombies at hx
    simp only at hx
    split at hx
    · cases hx
    · exact hx
  have hspace : ∀ u ∈ s.files.tids, ∀ x, s.pcb u = some x → (reapZombies s).spaces x.addrSpace = s.spaces x.addrSpace := by
    intro u hu x hx
    have hnone : (s.zombies.any fun z => z != s.current && (s.pcb z).any fun y => y.addrSpace == x.addrSpace) = false := by
      refine any_eq_false.mpr fun z hz => ?_
      cases hy : s.pcb z with
      | none => simp
      | some y =>
        have hne := hi.apart u hu x hx z y hy fun e => (hi.zombies z hz).1 (e ▸ hu)
        simp [Ne.symm hne]
    show (s.spaces x.addrSpace && !_) = _
    rw [hnone]
    exact Bool.and_true _
  refine ⟨⟨rfl, rfl, rfl, rfl, rfl, rfl⟩, ?_, fun w _ hw => ?_⟩
  · refine { hi with
      user := fun u hu => ?_, worker := ?_, known := fun u x hx => hi.known u x (hback u x hx)
      zombies := fun u hu => hi.zombies u (mem_filter.mp hu).1
      apart := fun u hu x hx v y hy => hi.apart u hu x (hback u x hx) v y (hback v y hy), running := fun h => ?_ }
    · obtain ⟨x, hx, hp, hn, ha⟩ := hi.user u hu
      exact ⟨x, (reap_pcb hi (.inl hu)).trans hx, hp, hn, (hspace u hu x hx).trans ha⟩
    · obtain ⟨x, hx, hrest⟩ := hi.worker
      exact ⟨x, (reap_pcb hi (.inr rfl)).trans hx, hrest⟩
    · exact absurd (hs.symm.trans h) Bool.noConfusion
  · exact hw.mono (reap_pcb hi (.inl hw.task)) hw.task (fun _ => rfl) rfl

/-! ## One step of the system -/

namespace Inv

/-- Whoever is not blocked is waited for by no request. -/
theorem not_held (hi : Inv s) (hx : s.pcb t = some x) (hb : x.state = .blocked → x.call = none) : ∀ w ∈ s.held, w.task ≠ t := by
  rintro w hw rfl
  obtain ⟨y, hy, hblocked, hcall, -⟩ := (hi.held w hw).pcb
  rw [hx] at hy
  cases hy
  rw [hb hblocked] at hcall
  cases hcall

theorem current_not_held (hi : Inv s) (hs : s.switching = false) : ∀ w ∈ s.held, w.task ≠ s.current := by
  obtain ⟨x, hx, hr⟩ := hi.tasks.running hs
  exact hi.not_held hx fun hb => by
    rw [hr] at hb
    cases hb

theorem worker_not_held (hi : Inv s) : ∀ w ∈ s.held, w.task ≠ s.worker :=
  fun w hw he => hi.tasks.workerNot (he ▸ (hi.held w hw).task)

theorem switchTask_acts (hi : TasksOk s) (hx : s.pcb t = some x) (hr : x.state ≠ .terminated) (y : Task) :
    Acts t s (switchTask s t y) := by
  have hmod : Acts t s (s.modify t fun x => { x with state := .running, call := if x.priv = .user then none else x.call }) := by
    refine .modify hi (fun z hz => ⟨rfl, rfl, ?_⟩) fun _ _ _ _ _ => rfl
    rw [hx] at hz
    cases hz
    exact ⟨fun h => ProcessState.noConfusion h, fun h => absurd h hr⟩
  refine ⟨⟨rfl, rfl, rfl, rfl, rfl, rfl⟩, { hmod.tasks with running := fun _ => ?_ }, fun w hw hwait => ?_⟩
  · exact ⟨_, pcb_modify_self hx _, rfl⟩
  · exact (hmod.others w hw hwait).mono rfl hwait.task (fun _ => rfl) rfl

theorem taskYield (hi : Inv s) (hsw : s.switching = true) (hs : taskYield s t = some s') : Inv s' := by
  obtain ⟨x, hx, hs⟩ := bind_eq_some_iff.mp hs
  have hreap : Acts t s (reapZombies s) := .reap hi.tasks hsw t
  split at hs
  · next hready =>
    have hterm : x.state ≠ .terminated := by
      rw [hready]
      exact ProcessState.noConfusion
    have hknown : t ∈ s.files.tids ∨ t = s.worker := hreap.tasks.known t x hx hterm
    have hx' : s.pcb t = some x := (reap_pcb hi.tasks hknown).symm.trans hx
    have hnot := hi.not_held hx' fun hb => by
      rw [hready] at hb
      cases hb
    have huser : x.priv = .user → t ∈ s.files.tids := fun hp => hknown.resolve_right fun he => by
      obtain ⟨y, hy, hk, -⟩ := hi.tasks.worker
      rw [← he, hx'] at hy
      cases hy
      rw [hp] at hk
      cases hk
    obtain ⟨g, hg, hact, rfl | ⟨-, -, h⟩⟩ := afterSignals_spec hreap.tasks huser hs
    · refine Acts.inv (hreap.trans (hact.trans (switchTask_acts hact.tasks (pcb_modify_self hx g) ?_ x))) hi hnot
      rw [(hg x).state]
      exact hterm
    · exact (hreap.trans h).inv hi hnot
  · cases hs

end Inv

/-! ## Waking up -/

def wake (x : Task) : Task := if x.state = .blocked then { x with state := .ready } else x

theorem taskUnblock_eq (s : System) (t : Tid) : taskUnblock s t = (s.pcb t).map fun _ => s.modify t wake := by
  unfold taskUnblock
  cases hx : s.pcb t with
  | none => rfl
  | some x =>
    show some (if x.state = .blocked then s.setState t .ready else s) = some (s.modify t wake)
    unfold System.setState System.modify
    rw [hx, map_some, map_some]
    by_cases h : x.state = .blocked
    · simp [wake, h]
    · have hself : update s.pcb t (some x) = s.pcb := by
        rw [← hx, update_eq_self]
      simp only [wake, if_neg h, hself]

theorem wake_same (x : Task) : Same x (wake x) := by
  unfold wake
  split
  · next h => exact ⟨rfl, rfl, by simp [h]⟩
  · exact ⟨rfl, rfl, Iff.rfl⟩

theorem wake_running (hr : x.state = .running) : (wake x).state = .running := by
  unfold wake
  rw [if_neg (by rw [hr]; exact ProcessState.noConfusion)]
  exact hr

theorem Acts.wake (hi : TasksOk s) (t : Tid) : Acts t s (s.modify t wake) :=
  .modify hi (fun x _ => wake_same x) fun _ _ _ _ hr => wake_running hr

theorem Acts.unblock (hi : TasksOk s) (hs : taskUnblock s t = some s') : Acts t s s' := by
  rw [taskUnblock_eq] at hs
  obtain ⟨_, -, rfl⟩ := map_eq_some_iff.mp hs
  exact .wake hi t

theorem Acts.signalRaise (hi : TasksOk s) {signal : Nat} (hs : taskIpcSignalRaise s t signal = some s') : Acts t s s' := by
  unfold taskIpcSignalRaise at hs
  split at hs
  · cases hs
    exact .refl hi t
  · have hbit : Acts t s (s.modify t fun x => { x with signalBitmask := x.signalBitmask ||| (1#32 <<< signal) }) :=
      .modify hi (fun _ _ => ⟨rfl, rfl, Iff.rfl⟩) fun _ _ _ _ hr => hr
    exact hbit.trans (.unblock hbit.tasks hs)

/-- A task that stops running, on the way to `task_yield`. -/
theorem Acts.stop (hi : TasksOk s) (st : ProcessState) (hx : s.pcb t = some x) (hr : x.state ≠ .terminated)
    (hst : st ≠ .terminated) : Acts t s { s.setState t st with switching := true } := by
  have hyield : Acts t s { s with switching := true } :=
    ⟨⟨rfl, rfl, rfl, rfl, rfl, rfl⟩, hi.yielding, fun w _ hw => hw.mono rfl hw.task (fun _ => rfl) rfl⟩
  refine hyield.trans (.modify hyield.tasks (fun y hy => ⟨rfl, rfl, ?_⟩) fun h => nomatch h)
  obtain rfl : x = y := Option.some.inj (hx.symm.trans hy)
  exact ⟨fun h => absurd h hst, fun h => absurd h hr⟩

/-- The control blocks after a token was given to the semaphore. -/
def System.woken (s : System) : Tid → Option Task :=
  if s.workCount.waiters = [] then s.pcb else (s.modify s.worker wake).pcb

/-- `task_semaphore_release` wakes the worker when it is in the queue. -/
theorem taskSemaphoreRelease_eq (hi : TasksOk s) (hr : ∀ t ∈ s.workCount.waiters, t = s.worker) :
    taskSemaphoreRelease s = some { s with
      pcb := s.woken
      workCount := { s.workCount with
        currentCount := (s.workCount.currentCount + 1) % 2 ^ 32, waiters := s.workCount.waiters.tail } } := by
  obtain ⟨x, hx, -⟩ := hi.worker
  unfold taskSemaphoreRelease System.woken
  cases hw : s.workCount.waiters with
  | nil => simp [hw]
  | cons t ts =>
    obtain rfl := hr t (by rw [hw]; exact mem_cons_self)
    simp only [taskUnblock_eq]
    rw [show ({ s with workCount := _ } : System).pcb s.worker = s.pcb s.worker from rfl, hx]
    rfl

theorem TasksOk.woken (hi : TasksOk s) : TasksOk { s with pcb := s.woken } := by
  unfold System.woken
  split
  · exact hi
  · exact (Acts.wake hi s.worker).tasks

theorem woken_of_ne (ht : t ≠ s.worker) : s.woken t = s.pcb t := by
  unfold System.woken
  split
  · rfl
  · exact pcb_modify_of_ne ht wake

/-! ## Submitting -/

/-- The queue with one more request in it. -/
def System.enqueued (s : System) (w : DiskWork) : System :=
  { s with
    workQueue := update s.workQueue s.workTail w
    workTail := (s.workTail + 1) % ideWorkQueueSize
    ledger := { s.ledger with submitted := s.ledger.submitted ++ [w] } }

theorem queueFull_eq_false : queueFull s = false ↔ (s.workTail + 1) % ideWorkQueueSize ≠ s.workHead := by
  simp [queueFull]

theorem enqueued_queueLen (hr : RingOk s) (hroom : queueFull s = false) (w : DiskWork) :
    (s.enqueued w).queueLen = s.queueLen + 1 := by
  have hh := hr.head
  have ht := hr.tail
  have hne := queueFull_eq_false.mp hroom
  show ((s.workTail + 1) % ideWorkQueueSize + ideWorkQueueSize - s.workHead) % ideWorkQueueSize = _
  unfold System.queueLen
  simp only [ideWorkQueueSize] at *
  omega

theorem enqueued_queued (hr : RingOk s) (hroom : queueFull s = false) (w : DiskWork) :
    (s.enqueued w).queued = s.queued ++ [w] := by
  have hlen : s.queueLen < ideWorkQueueSize := Nat.mod_lt _ (by decide)
  show CircBuf.window (update s.workQueue s.workTail w) ideWorkQueueSize s.workHead (s.enqueued w).queueLen = _
  rw [enqueued_queueLen hr hroom, CircBuf.window_snoc, hr.tail_eq, CircBuf.window_update hlen, update_self]
  rfl

/-- The slot that is given to the new request is not the one that the worker is about to read. -/
theorem enqueued_held (hr : RingOk s) (hroom : queueFull s = false) (w : DiskWork) :
    (s.enqueued w).held = s.held ++ [w] := by
  have hne := queueFull_eq_false.mp hroom
  have hunder : s.phase.request (update s.workQueue s.workTail w) = s.phase.request s.workQueue := by
    cases hp : s.phase with
    | popped idx =>
      obtain ⟨hi, hh⟩ := hr.popped idx hp
      have hslot : idx ≠ s.workTail := by
        rintro rfl
        exact hne hh.symm
      simp only [Phase.request, update_of_ne hslot]
    | start | waiting | taken | working _ | done _ => rfl
  show s.phase.request (update s.workQueue s.workTail w) ++ (s.enqueued w).queued = _
  rw [enqueued_queued hr hroom, hunder, ← append_assoc]
  rfl

/-- What is enqueued is held, and there is a token more. -/
structure Enqueues (s : System) (w : DiskWork) (s' : System) : Prop where
  tasks : TasksOk s'
  ring : RingOk s'
  held : s'.held = s.held ++ [w]
  files : s'.files = s.files
  worker : s'.worker = s.worker
  current : s'.current = s.current
  switching : s'.switching = s.switching
  pcb : ∀ t, t ≠ s.worker → s'.pcb t = s.pcb t

theorem ideEnqueueWork_spec (hi : TasksOk s) (hr : RingOk s) (hroom : queueFull s = false)
    (hs : ideEnqueueWork s w = some s') : Enqueues s w s' := by
  have hi₁ : TasksOk (s.enqueued w) := { hi with }
  have hlen := enqueued_queueLen hr hroom w
  have hrel := taskSemaphoreRelease_eq hi₁ hr.sleepers
  obtain rfl : _ = s' := Option.some.inj (hrel.symm.trans hs)
  refine ⟨{ hi₁.woken with }, ?_, enqueued_held hr hroom w, rfl, rfl, rfl, rfl, fun t ht => woken_of_ne ht⟩
  refine ⟨hr.head, Nat.mod_lt _ (by decide), hr.popped, ?_, fun t ht => hr.sleepers t (mem_of_mem_tail ht)⟩
  show (s.workCount.currentCount + 1) % 2 ^ 32 + (if s.phase = .taken then 1 else 0) = (s.enqueued w).queueLen
  have hc := hr.count
  have hl : s.queueLen < 64 := Nat.mod_lt _ (by decide)
  rw [hlen]
  omega

/-- The request of a system call. -/
structure Asks (s : System) (w : DiskWork) : Prop where
  task : w.task = s.current
  user : s.current ∈ s.files.tids
  slot : ∃ fd < fdMax, s.files.fdTable (s.current, fd) = some w.handle
  node : ∃ n, s.files.nodeOf w.handle = some n
  space : ∃ x, s.pcb s.current = some x ∧ x.addrSpace = w.addrSpace

theorem Inv.submit (hi : Inv s) (hsw : s.switching = false) (ha : Asks s w) (hs : ideSubmitDisk s w = some s') :
    Inv s' := by
  obtain ⟨x, hx, hrun⟩ := hi.tasks.running hsw
  have hcw : s.current ≠ s.worker := fun h => hi.tasks.workerNot (h ▸ ha.user)
  unfold ideSubmitDisk at hs
  simp only at hs
  split at hs
  · cases hs
    have heax : Acts s.current s (s.modify s.current fun x => { x with eax := -Files.eio }) :=
      .modify hi.tasks (fun _ _ => ⟨rfl, rfl, Iff.rfl⟩) fun _ _ _ _ hr => hr
    have hinv := heax.inv hi (hi.current_not_held hsw)
    rw [← ha.task] at hinv
    exact ⟨{ hinv.tasks with }, { hinv.ring with }, fun v hv => { hinv.held v hv with }, hinv.distinct⟩
  · next hfull =>
    obtain ⟨s₁, he, hs⟩ := bind_eq_some_iff.mp hs
    cases hs
    have hi₀ : TasksOk { s with ledger := { s.ledger with nextCall := s.ledger.nextCall + 1 } } := { hi.tasks with }
    have hr₀ : RingOk { s with ledger := { s.ledger with nextCall := s.ledger.nextCall + 1 } } := { hi.ring with }
    have henq := ideEnqueueWork_spec hi₀ hr₀ (by simpa using hfull) he
    have hcur : s₁.current = w.task := henq.current.trans ha.task.symm
    have hfiles : s₁.files = s.files := henq.files
    have hx₁ : s₁.pcb w.task = some x := by
      rw [ha.task]
      exact (henq.pcb _ hcw).trans hx
    have hcall : Acts w.task s₁ (s₁.modify w.task fun x => { x with call := some w.id }) :=
      .modify henq.tasks (fun _ _ => ⟨rfl, rfl, Iff.rfl⟩) fun _ _ _ _ hr => hr
    have hx₂ := pcb_modify_self hx₁ fun x => { x with call := some w.id }
    have hact : Acts w.task s₁ (taskBlock (s₁.modify w.task fun x => { x with call := some w.id })) := by
      refine hcall.trans ?_
      rw [show taskBlock (s₁.modify w.task fun x => { x with call := some w.id }) =
        { (s₁.modify w.task fun x => { x with call := some w.id }).setState w.task .blocked with switching := true } by
          rw [← hcur]; rfl]
      refine .stop hcall.tasks .blocked hx₂ ?_ ProcessState.noConfusion
      show x.state ≠ .terminated
      rw [hrun]
      exact ProcessState.noConfusion
    have hnot := hi.current_not_held hsw
    have hheld : s₁.held = s.held ++ [w] := henq.held
    refine ⟨hact.tasks, hact.ring.ringOk henq.ring, ?_, ?_⟩
    · rw [hact.ring.held, hheld]
      intro v hv
      rcases mem_append.mp hv with hv | hv
      · have hwait := hi.held v hv
        have hne : v.task ≠ s.worker := hi.worker_not_held v hv
        have hwait₁ : Waiting s₁ v :=
          hwait.mono (henq.pcb _ hne) (hfiles ▸ hwait.task) (fun fd => by rw [hfiles]) (by rw [hfiles])
        exact hact.others v (fun h => hnot v hv (h.trans ha.task)) hwait₁
      · obtain rfl := mem_singleton.mp hv
        obtain ⟨y, hy, hspace⟩ := ha.space
        rw [hx] at hy
        cases hy
        have hpcb : (taskBlock (s₁.modify v.task fun x => { x with call := some v.id })).pcb v.task =
            some { x with call := some v.id, state := .blocked } := by
          show ((s₁.modify v.task _).setState s₁.current .blocked).pcb v.task = _
          rw [hcur]
          exact pcb_modify_self hx₂ _
        obtain ⟨fd, hfd, hslot⟩ := ha.slot
        obtain ⟨n, hn⟩ := ha.node
        rw [← ha.task] at hslot
        exact ⟨show v.task ∈ s₁.files.tids by rw [hfiles, ha.task]; exact ha.user, ⟨_, hpcb, rfl, rfl, hspace⟩,
          ⟨fd, hfd, show s₁.files.fdTable _ = _ by rw [hfiles]; exact hslot⟩,
          ⟨n, show s₁.files.nodeOf _ = _ by rw [hfiles]; exact hn⟩⟩
    · rw [hact.ring.held, hheld, map_append, map_singleton]
      refine hi.distinct.append (nodup_singleton _) fun t ht ht' => ?_
      obtain ⟨v, hv, rfl⟩ := mem_map.mp ht
      exact hnot v hv ((mem_singleton.mp ht').trans ha.task)

/-! ## The worker -/

/-- A request that is processed leaves its task waiting. -/
theorem Inv.ideProcessWork (hi : Inv s) {a : Answer} (hp : s.phase = .working w)
    (hs : ideProcessWork s w a = some s') : Inv { s' with phase := .done w } := by
  unfold Ide.ideProcessWork at hs
  obtain ⟨x, hx, hs⟩ := bind_eq_some_iff.mp hs
  obtain ⟨n, hn, hs⟩ := bind_eq_some_iff.mp hs
  obtain ⟨y, hy, hs⟩ := bind_eq_some_iff.mp hs
  obtain ⟨p, -, hs⟩ := bind_eq_some_iff.mp hs
  split at hs
  · cases hs
  · simp only at hs
    have hset := hi.tasks.files.setOffset hx (ByteMem.u32 (w.offset x y.size + w.moved a))
    have hothers : ∀ t, Handles.Others t s.files (s.files.setHandle w.handle
        { x with offset := ByteMem.u32 (w.offset x y.size + w.moved a) }) := fun t => .setHandle t hx rfl
    generalize hf : (if w.direction = .write then (s.files.setHandle w.handle
      { x with offset := ByteMem.u32 (w.offset x y.size + w.moved a) }).setNode n { y with size := a.size }
      else s.files.setHandle w.handle { x with offset := ByteMem.u32 (w.offset x y.size + w.moved a) }) = files at hs
    have hfiles : Handles.Inv files [] [] ∧ ∀ t, Handles.Others t s.files files := by
      subst hf
      split
      · exact ⟨hset.setSize hy a.size, fun t => (hothers t).trans (.setNode t _ n _)⟩
      · exact ⟨hset, hothers⟩
    cases hs
    have hmod : TasksOk (s.modify w.task fun q => { q with eax := w.result a, diskBytes := ByteMem.u32 (q.diskBytes + w.moved a) }) :=
      hi.tasks.modify (fun _ _ => ⟨rfl, rfl, Iff.rfl⟩) fun _ _ _ _ hr => hr
    have hact := fun t => Acts.files hmod hfiles.1 (hfiles.2 t)
    have hheld : s.held = w :: s.queued := by
      unfold System.held
      rw [hp]
      rfl
    have hcount := hi.ring.count
    rw [hp] at hcount
    refine ⟨{ (hact w.task).tasks with }, ⟨hi.ring.head, hi.ring.tail, fun _ h => Phase.noConfusion h, hcount, hi.ring.sleepers⟩, fun v hv => ?_, ?_⟩
    · have hwait := hi.held v (by rw [hheld]; exact hv)
      have hwait₁ := hwait.modify (t := w.task)
        (f := fun q => { q with eax := w.result a, diskBytes := ByteMem.u32 (q.diskBytes + w.moved a) }) fun _ _ _ => ⟨rfl, rfl, rfl⟩
      exact { (hact (v.task + 1)).others v (Nat.ne_of_lt (Nat.lt_succ_self _)) hwait₁ with }
    · have hd := hi.distinct
      rw [hheld] at hd
      exact hd

theorem queued_cons (hr : RingOk s) (hq : 0 < s.queueLen) :
    s.queued = s.workQueue s.workHead ::
      CircBuf.window s.workQueue ideWorkQueueSize ((s.workHead + 1) % ideWorkQueueSize) (s.queueLen - 1) := by
  obtain ⟨n, hn⟩ : ∃ n, s.queueLen = n + 1 := ⟨s.queueLen - 1, by omega⟩
  unfold System.queued
  rw [hn, CircBuf.window_cons, CircBuf.window_mod, Nat.mod_eq_of_lt hr.head]
  rfl

/-- The worker goes on without a change of what is held. -/
theorem Inv.move (hi : Inv s) (ht : TasksOk s') (hr : RingOk s') (hheld : s'.held = s.held) (hf : s'.files = s.files)
    (hpcb : ∀ t, t ≠ s.worker → s'.pcb t = s.pcb t) : Inv s' := by
  refine ⟨ht, hr, fun w hw => ?_, by rw [hheld]; exact hi.distinct⟩
  rw [hheld] at hw
  have hwait := hi.held w hw
  exact hwait.mono (hpcb _ (hi.worker_not_held w hw)) (by rw [hf]; exact hwait.task) (fun fd => by rw [hf]) (by rw [hf])

theorem Inv.workerSleep (hi : Inv s) (hp : s.phase.request s.workQueue = []) (ht : s.phase ≠ .taken) {waiters : List Tid}
    (hw : ∀ t ∈ waiters, t = s.worker) :
    Inv (workerSleep { s with workCount := { s.workCount with waiters := waiters } }) := by
  obtain ⟨x, hx, -, hterm⟩ := hi.tasks.worker
  have hact : Acts s.worker s _ := .stop hi.tasks .blocked hx hterm ProcessState.noConfusion
  have hcount := hi.ring.count
  rw [if_neg ht] at hcount
  refine hi.move { hact.tasks with } ⟨hi.ring.head, hi.ring.tail, fun _ h => Phase.noConfusion h, hcount, hw⟩ ?_ rfl
    fun t ht => pcb_modify_of_ne ht _
  show [] ++ s.queued = s.phase.request s.workQueue ++ s.queued
  rw [hp]

theorem Inv.takeToken (hi : Inv s) (hp : s.phase.request s.workQueue = []) (ht : s.phase ≠ .taken)
    (hc : s.workCount.currentCount ≠ 0) : Inv (takeToken s) := by
  have hcount := hi.ring.count
  rw [if_neg ht] at hcount
  refine hi.move { hi.tasks with } ⟨hi.ring.head, hi.ring.tail, fun _ h => Phase.noConfusion h, ?_, hi.ring.sleepers⟩ ?_ rfl
    fun _ _ => rfl
  · show s.workCount.currentCount - 1 + 1 = s.queueLen
    omega
  · show [] ++ s.queued = s.phase.request s.workQueue ++ s.queued
    rw [hp]

/-- The slot at the head is taken out of the queue, and the worker will read it. -/
def System.popHead (s : System) : System :=
  { s with workHead := (s.workHead + 1) % ideWorkQueueSize, phase := .popped s.workHead }

theorem popHead_queueLen (hr : RingOk s) (hp : s.phase = .taken) : s.popHead.queueLen + 1 = s.queueLen := by
  have hcount := hr.count
  rw [if_pos hp] at hcount
  have htail := hr.tail
  show (s.workTail + ideWorkQueueSize - (s.workHead + 1) % ideWorkQueueSize) % ideWorkQueueSize + 1 = _
  unfold System.queueLen at *
  simp only [ideWorkQueueSize] at *
  omega

theorem popHead_held (hr : RingOk s) (hp : s.phase = .taken) : s.popHead.held = s.queued := by
  have hlen := popHead_queueLen hr hp
  rw [queued_cons hr (by omega), ← hlen]
  rfl

theorem Inv.pop (hi : Inv s) (hp : s.phase = .taken) : Inv s.popHead := by
  have hcount := hi.ring.count
  rw [if_pos hp] at hcount
  have hlen := popHead_queueLen hi.ring hp
  refine hi.move { hi.tasks with } ⟨Nat.mod_lt _ (by decide), hi.ring.tail, fun idx h => ?_, ?_, hi.ring.sleepers⟩ ?_ rfl
    fun _ _ => rfl
  · cases h
    exact ⟨hi.ring.head, rfl⟩
  · show s.workCount.currentCount + 0 = s.popHead.queueLen
    omega
  · rw [popHead_held hi.ring hp, System.held, hp]
    rfl

theorem Inv.ideWorkerThread (hi : Inv s) {a : Answer} (hs : ideWorkerThread s a = some s') : Inv s' := by
  unfold Ide.ideWorkerThread at hs
  cases hp : s.phase with
  | start =>
    rw [hp] at hs
    obtain rfl := (Option.some.inj hs).symm
    have hreq : s.phase.request s.workQueue = [] := by rw [hp]; rfl
    have ht : s.phase ≠ .taken := by rw [hp]; exact Phase.noConfusion
    split
    · refine hi.workerSleep hreq ht fun t ht => ?_
      rcases mem_append.mp ht with ht | ht
      · exact hi.ring.sleepers t ht
      · exact mem_singleton.mp ht
    · next hc => exact hi.takeToken hreq ht hc
  | waiting =>
    rw [hp] at hs
    obtain rfl := (Option.some.inj hs).symm
    have hreq : s.phase.request s.workQueue = [] := by rw [hp]; rfl
    have ht : s.phase ≠ .taken := by rw [hp]; exact Phase.noConfusion
    split
    · exact hi.workerSleep hreq ht hi.ring.sleepers
    · next hc => exact hi.takeToken hreq ht hc
  | taken =>
    rw [hp] at hs
    cases hs
    exact hi.pop hp
  | popped idx =>
    rw [hp] at hs
    cases hs
    have hcount := hi.ring.count
    rw [hp] at hcount
    refine hi.move { hi.tasks with } ⟨hi.ring.head, hi.ring.tail, fun _ h => Phase.noConfusion h, hcount, hi.ring.sleepers⟩ ?_ rfl
      fun _ _ => rfl
    show [s.workQueue idx] ++ s.queued = s.phase.request s.workQueue ++ s.queued
    rw [hp]
    rfl
  | working w =>
    rw [hp] at hs
    obtain ⟨s₁, h₁, hs⟩ := bind_eq_some_iff.mp hs
    cases hs
    have hinv := hi.ideProcessWork hp h₁
    exact ⟨{ hinv.tasks with }, { hinv.ring with }, fun v hv => { hinv.held v hv with }, hinv.distinct⟩
  | done w =>
    rw [hp] at hs
    obtain ⟨s₁, h₁, hs⟩ := bind_eq_some_iff.mp hs
    cases hs
    rw [taskUnblock_eq] at h₁
    obtain ⟨_, -, rfl⟩ := map_eq_some_iff.mp h₁
    have hact := Acts.wake hi.tasks w.task
    have hheld : s.held = w :: s.queued := by
      unfold System.held
      rw [hp]
      rfl
    have hd := hi.distinct
    rw [hheld] at hd
    obtain ⟨hnot, hd⟩ := nodup_cons.mp hd
    have hcount := hi.ring.count
    rw [hp] at hcount
    refine ⟨{ hact.tasks with }, ⟨hi.ring.head, hi.ring.tail, fun _ h => Phase.noConfusion h, hcount, hi.ring.sleepers⟩,
      fun v hv => ?_, hd⟩
    have hv : v ∈ s.queued := hv
    have hne : v.task ≠ w.task := fun h => hnot (mem_map.mpr ⟨v, hv, h⟩)
    exact { hact.others v hne (hi.held v (by rw [hheld]; exact mem_cons_of_mem w hv)) with }

/-! ## Runs -/

/-- No signal is raised for a task that waits for the disk. -/
def Op.Calm (s : System) : Op → Prop
  | .signal t sig => 16 ≤ sig ∨ ∀ x, s.pcb t = some x → x.state = .blocked → x.call = none
  | _ => True

theorem diskFile_spec {fd : Nat} {h : HandleId} {z : FileHandle} (hs : diskFile s fd = some (h, z)) :
    (∃ fd < fdMax, s.files.fdTable (s.current, fd) = some h) ∧ ∃ n, s.files.nodeOf h = some n := by
  unfold diskFile at hs
  split at hs
  · cases hs
  · next hfd =>
    obtain ⟨h', hslot, hs⟩ := bind_eq_some_iff.mp hs
    obtain ⟨z', hz, hs⟩ := bind_eq_some_iff.mp hs
    obtain ⟨n, hn, hs⟩ := bind_eq_some_iff.mp hs
    obtain ⟨y, -, hs⟩ := bind_eq_some_iff.mp hs
    split at hs
    · cases hs
      exact ⟨⟨fd, Nat.not_le.mp hfd, hslot⟩, n, by rw [Handles.System.nodeOf, hz]; exact hn⟩
    · cases hs

theorem step_of_next {op : Op} (hs : next s op = some s') : step s op = some s' := by
  unfold next at hs
  split at hs
  · exact hs
  · cases hs

theorem start_held (h : Start s) : s.held = [] := by
  unfold System.held System.queued System.queueLen
  rw [h.phase, h.workHead, h.workTail]
  rfl

namespace Inv

/-- What the current task does when it is a user's. -/
theorem acts (hi : Inv s) (hsw : s.switching = false) (h : Acts s.current s s') : Inv s' :=
  h.inv hi (hi.current_not_held hsw)

theorem sysRead (hi : Inv s) (hsw : s.switching = false) (hc : s.current ∈ s.files.tids) {fd userBuf count : Nat}
    (hs : sysRead s fd userBuf count = some s') : Inv s' := by
  unfold Ide.sysRead at hs
  split at hs
  · next h z p hfile hp =>
    split at hs
    · exact hi.acts hsw (.callEnd hi.tasks hc hs)
    · obtain ⟨hslot, hnode⟩ := diskFile_spec hfile
      exact hi.submit hsw ⟨rfl, hc, hslot, hnode, p, hp, rfl⟩ hs
  · cases hs

theorem sysWrite (hi : Inv s) (hsw : s.switching = false) (hc : s.current ∈ s.files.tids) {fd userBuf count : Nat}
    {malloc : Option BufId} {copyOk : Bool} (hs : sysWrite s fd userBuf count malloc copyOk = some s') : Inv s' := by
  unfold Ide.sysWrite at hs
  split at hs
  · next h z p hfile hp =>
    split at hs
    · exact hi.acts hsw (.callEnd hi.tasks hc hs)
    · split at hs
      · exact hi.acts hsw (.callEnd hi.tasks hc hs)
      · next b =>
        split at hs
        · exact hi.acts hsw (.callEnd hi.tasks hc hs)
        · obtain ⟨hslot, hnode⟩ := diskFile_spec hfile
          have hi' : Inv { s with kbufs := b :: s.kbufs } :=
            ⟨{ hi.tasks with }, { hi.ring with }, fun v hv => { hi.held v hv with }, hi.distinct⟩
          exact hi'.submit hsw ⟨rfl, hc, hslot, hnode, p, hp, rfl⟩ hs
  · cases hs

theorem step (hi : Inv s) {op : Op} (hcalm : op.Calm s) (hs : step s op = some s') : Inv s' := by
  have huser : (!s.switching && s.current != s.worker) = true → s.switching = false ∧ s.current ∈ s.files.tids := by
    intro h
    obtain ⟨hsw, hne⟩ : s.switching = false ∧ s.current ≠ s.worker := by simpa using h
    exact ⟨hsw, (hi.tasks.known_current hsw).resolve_right hne⟩
  unfold Ide.step at hs
  simp only at hs
  split at hs
  · cases hs
  · cases op with
    | read fd userBuf count =>
      simp only at hs
      split at hs
      · next hu => exact hi.sysRead (huser hu).1 (huser hu).2 hs
      · cases hs
    | write fd userBuf count malloc copyOk =>
      simp only at hs
      split at hs
      · next hu => exact hi.sysWrite (huser hu).1 (huser hu).2 hs
      · cases hs
    | work a =>
      simp only at hs
      split at hs
      · exact hi.ideWorkerThread hs
      · cases hs
    | wait =>
      simp only at hs
      split at hs
      · split at hs
        · next hw =>
          cases hs
          have hw : s.switching = false ∧ s.current = s.worker := by simpa using hw
          obtain ⟨x, hx, -, hterm⟩ := hi.tasks.worker
          exact hi.acts hw.1 (.stop hi.tasks .blocked (hw.2 ▸ hx) hterm ProcessState.noConfusion)
        · cases hs
      · cases hs
    | irq => exact (Acts.unblock hi.tasks hs).inv hi hi.worker_not_held
    | preempt =>
      simp only at hs
      split at hs
      · next hu =>
        cases hs
        obtain ⟨hsw, -⟩ := huser hu
        obtain ⟨x, hx, hrun⟩ := hi.tasks.running hsw
        refine hi.acts hsw (.stop hi.tasks .ready hx ?_ ProcessState.noConfusion)
        rw [hrun]
        exact ProcessState.noConfusion
      · cases hs
    | dispatch t =>
      simp only at hs
      split at hs
      · next hsw => exact hi.taskYield hsw hs
      · cases hs
    | close fd wordBefore =>
      simp only at hs
      split at hs
      · next hu =>
        obtain ⟨hsw, hc⟩ := huser hu
        obtain ⟨files, hf, hs⟩ := bind_eq_some_iff.mp hs
        have hclose := ok_of_toOption hf
        obtain ⟨hinv, -⟩ := ((hi.tasks.files.ret s.current 0).sysClose hc wordBefore).result hclose
        have hothers := (Handles.Others.ret s.current s.current s.files 0).trans (Handles.sysClose_others hclose)
        have hfiles := Acts.files hi.tasks hinv hothers
        have hcur : s.current ∈ files.tids := by
          rw [hothers.tids]
          exact hc
        exact hi.acts hsw (hfiles.trans (.callEnd hfiles.tasks hcur hs))
      · cases hs
    | signal t signal =>
      simp only at hs
      split at hs
      · next ht =>
        obtain ⟨x, hx, -⟩ := hi.tasks.user t ht
        rcases hcalm with h | h
        · rw [taskIpcSignalRaise, if_pos h] at hs
          cases hs
          exact hi
        · exact (Acts.signalRaise hi.tasks hs).inv hi (hi.not_held hx (h x hx))
      · cases hs
    | exit =>
      simp only at hs
      split at hs
      · next hu => exact hi.acts (huser hu).1 (.exit hi.tasks (huser hu).2 hs)
      · cases hs

theorem start (h : Start s) : Inv s where
  tasks := by
    refine ⟨h.files, h.accept, fun t ht => ?_, ?_, h.workerNot, fun t x hx hn => ?_, fun t ht => ?_, h.apart, fun _ => h.running⟩
    · obtain ⟨x, hx, hp, hn, -, ha⟩ := h.user t ht
      exact ⟨x, hx, hp, hn, ha⟩
    · obtain ⟨x, hx, hp, hr, -⟩ := h.worker
      refine ⟨x, hx, hp, ?_⟩
      rw [hr]
      exact ProcessState.noConfusion
    · by_contra hc
      rw [not_or] at hc
      rw [h.others t hc.1 hc.2] at hx
      cases hx
    · rw [h.zombies] at ht
      cases ht
  ring := by
    refine ⟨by rw [h.workHead]; decide, by rw [h.workTail]; decide, fun idx hp => ?_, ?_, fun t ht => ?_⟩
    · rw [h.phase] at hp
      cases hp
    · rw [h.workCount, h.phase, System.queueLen, h.workHead, h.workTail]
      rfl
    · rw [h.workCount] at ht
      cases ht
  held := by
    rw [start_held h]
    exact fun w hw => nomatch hw
  distinct := by
    rw [start_held h]
    exact nodup_nil

end Inv

/-- Runs in which a task that waits for the disk gets no signal. -/
def CalmRun : System → Prop :=
  Run.Reachable Start fun s s' => ∃ op : Op, op.Calm s ∧ next s op = some s'

theorem CalmRun.inv (h : CalmRun s) : Inv s :=
  h.invariant Inv (fun _ hs => .start hs) fun _ _ hi ⟨_, hc, hs⟩ => hi.step hc (step_of_next hs)

theorem requests_alive (h : CalmRun s) : ∀ w ∈ s.held, Alive s w :=
  fun w hw => (h.inv.held w hw).alive h.inv.tasks

/-! ## A signal for a task that waits -/

theorem requests_alive_read : ∃ s ∈ next (bootSystem 2) (.read 0 0 1), s.held.length = 1 ∧ ∀ w ∈ s.held, Alive s w := by
  have hlen : (next (bootSystem 2) (.read 0 0 1)).map (fun s => s.held.length) = some 1 := by decide +kernel
  obtain ⟨s, hs, hlen⟩ := Option.map_eq_some_iff.mp hlen
  exact ⟨s, hs, hlen, requests_alive
    ((Run.Reachable.start (bootSystem_start (by decide))).step ⟨.read 0 0 1, trivial, hs⟩)⟩

/-- A task dies of a signal and is reaped while its request is in the queue. -/
def killedReader : List Op := [.read 0 0 1, .dispatch 1, .signal 2 15, .preempt, .dispatch 2, .dispatch 1]

theorem not_requests_alive : ¬ ∀ s, Reachable s → ∀ w ∈ s.held, Alive s w := by
  intro hall
  have hend : (Run.exec next (bootSystem 2) killedReader).map
      (fun s => (s.held.map fun w => w.task, (s.pcb 2).isNone)) = some ([2], true) := by decide +kernel
  obtain ⟨s, hs, hend⟩ := Option.map_eq_some_iff.mp hend
  obtain ⟨hheld, hnone⟩ := Prod.mk.inj hend
  have hreach : Reachable s :=
    Run.Reachable.exec (fun _ op _ ht => ⟨op, ht⟩) (Run.Reachable.start (bootSystem_start (by decide))) hs
  obtain ⟨w, hw, htask⟩ := List.mem_map.mp (hheld ▸ List.mem_singleton_self 2)
  obtain ⟨x, hx, -⟩ := (hall s hreach w hw).task
  rw [htask] at hx
  rw [hx] at hnone
  cases hnone

end Serotonin.Ide
