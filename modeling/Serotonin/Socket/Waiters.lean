import Serotonin.Ipc.Calls
import Serotonin.Socket.Model

/-! What waking and waiting change, and the queues: a waiter in a queue stands for a task
that is blocked in a call of that queue, once. -/

namespace Serotonin.Socket

open Function List

/-- What a socket is, and what it refers to. -/
structure Links where
  type : SockType
  state : SockState
  bound : Bool
  path : List UInt8
  peer : Option Sid
  backlog : List Sid
  backlogMax : Nat

def Sock.links (x : Sock) : Links := ⟨x.type, x.state, x.bound, x.path, x.peer, x.backlog, x.backlogMax⟩

/-- Nothing has changed but tasks, rings, waiters and what was noted. -/
structure Quiet (k k' : Kernel) : Prop where
  links : ∀ s, (k'.sock s).links = (k.sock s).links
  live : k'.live = k.live
  bound : k'.bound = k.bound
  fds : k'.fds = k.fds
  refcount : k'.refcount = k.refcount
  made : k'.made = k.made

namespace Quiet

variable {k k' l : Kernel}

theorem refl (k : Kernel) : Quiet k k := ⟨fun _ => rfl, rfl, rfl, rfl, rfl, rfl⟩

theorem trans (h : Quiet k k') (h' : Quiet k' l) : Quiet k l :=
  ⟨fun s => (h'.links s).trans (h.links s), h'.live.trans h.live, h'.bound.trans h.bound,
    h'.fds.trans h.fds, h'.refcount.trans h.refcount, h'.made.trans h.made⟩

theorem type (h : Quiet k k') (s : Sid) : (k'.sock s).type = (k.sock s).type := congrArg Links.type (h.links s)

theorem state (h : Quiet k k') (s : Sid) : (k'.sock s).state = (k.sock s).state :=
  congrArg Links.state (h.links s)

theorem isBound (h : Quiet k k') (s : Sid) : (k'.sock s).bound = (k.sock s).bound :=
  congrArg Links.bound (h.links s)

theorem peer (h : Quiet k k') (s : Sid) : (k'.sock s).peer = (k.sock s).peer := congrArg Links.peer (h.links s)

theorem backlog (h : Quiet k k') (s : Sid) : (k'.sock s).backlog = (k.sock s).backlog :=
  congrArg Links.backlog (h.links s)

end Quiet

theorem sock_modify_self (k : Kernel) (s : Sid) (f : Sock → Sock) : (k.modify s f).sock s = f (k.sock s) :=
  update_self ..

theorem sock_modify_of_ne (k : Kernel) {s s' : Sid} (f : Sock → Sock) (h : s' ≠ s) :
    (k.modify s f).sock s' = k.sock s' := update_of_ne h ..

/-- What a change of one socket leaves alone there, it leaves alone everywhere. -/
theorem sock_modify_field {β : Type} {k : Kernel} {s : Sid} {f : Sock → Sock} (g : Sock → β) (hg : g (f (k.sock s)) = g (k.sock s))
    (x : Sid) : g ((k.modify s f).sock x) = g (k.sock x) := by
  by_cases hx : x = s
  · rw [hx, sock_modify_self, hg]
  · rw [sock_modify_of_ne k f hx]

theorem quiet_modify (k : Kernel) (s : Sid) {f : Sock → Sock} (hf : (f (k.sock s)).links = (k.sock s).links) :
    Quiet k (k.modify s f) := ⟨sock_modify_field _ hf, rfl, rfl, rfl, rfl, rfl⟩

theorem quiet_modifyTask (k : Kernel) (t : Tid) (f : Task → Task) : Quiet k (k.modifyTask t f) :=
  ⟨fun _ => rfl, rfl, rfl, rfl, rfl, rfl⟩

theorem quiet_setWaiters (k : Kernel) (s : Sid) (q : Queue) (ws : List Waiter) :
    Quiet k (k.setWaiters s q ws) := quiet_modify k s rfl

theorem quiet_setRing (k : Kernel) (s : Sid) (r : CircBuf UInt8) : Quiet k (k.setRing s r) := quiet_modify k s rfl

theorem quiet_taskUnblock (k : Kernel) (t : Tid) (bytes : List UInt8) : Quiet k (taskUnblock k t bytes) := by
  unfold taskUnblock
  split
  · exact ⟨fun _ => rfl, rfl, rfl, rfl, rfl, rfl⟩
  · exact .refl k

theorem quiet_wake (k : Kernel) (w : Waiter) : Quiet k (wake k w) :=
  (quiet_modifyTask k w.task _).trans (quiet_taskUnblock _ _ _)

theorem quiet_wakes (ws : List Waiter) : ∀ k, Quiet k (ws.foldl wake k) := by
  induction ws with
  | nil => intro k; exact .refl k
  | cons w ws ih => intro k; exact (quiet_wake k w).trans (ih _)

theorem quiet_sockWakeOne (k : Kernel) (s : Sid) (q : Queue) : Quiet k (sockWakeOne k s q) := by
  unfold sockWakeOne
  split
  · exact .refl k
  · exact (quiet_setWaiters k s q _).trans (quiet_wake _ _)

theorem quiet_sockWakeAll (k : Kernel) (s : Sid) (q : Queue) : Quiet k (sockWakeAll k s q) :=
  (quiet_setWaiters k s q []).trans (quiet_wakes _ _)

theorem quiet_sockReadWakeOne (k : Kernel) (s : Sid) : Quiet k (sockReadWakeOne k s) := by
  unfold sockReadWakeOne
  split
  · exact .refl k
  · dsimp only
    split
    · exact (quiet_setWaiters k s .read _).trans ((quiet_setRing _ s _).trans
        ((quiet_modifyTask _ _ _).trans (quiet_taskUnblock _ _ _)))
    · exact (quiet_setWaiters k s .read _).trans ((quiet_modifyTask _ _ _).trans (quiet_taskUnblock _ _ _))

theorem quiet_waitOn (k : Kernel) (s : Sid) (q : Queue) (w : Waiter) (c : Call) : Quiet k (waitOn k s q w c) :=
  (quiet_setWaiters k s q _).trans (quiet_modifyTask _ _ _)

theorem quiet_sleepOnly (k : Kernel) (t : Tid) (s : Sid) (q : Queue) (c : Call) :
    Quiet k (sleepOnly k t s q c) := quiet_modifyTask k t _

/-! ## Reading and writing touch no links -/

def Outcome.Quiet (k : Kernel) : Outcome → Prop
  | .returns _ _ k' => Socket.Quiet k k'
  | .sleeps k' => Socket.Quiet k k'

theorem quiet_taskIpcUnixSocketRead (k : Kernel) (t : Tid) (s : Sid) (size : Nat) (noMem : Bool) :
    (taskIpcUnixSocketRead k t s size noMem).Quiet k := by
  unfold taskIpcUnixSocketRead
  split
  · exact Quiet.refl k
  split
  · exact Quiet.refl k
  split
  · exact (quiet_setRing k s _).trans (quiet_sockWakeOne _ _ _)
  split
  · exact Quiet.refl k
  split
  · exact Quiet.refl k
  · exact quiet_waitOn k s .read _ _

theorem quiet_taskIpcUnixSocketWrite (k : Kernel) (t : Tid) (s : Sid) (data : List UInt8) (noMem : Bool) :
    (taskIpcUnixSocketWrite k t s data noMem).Quiet k := by
  unfold taskIpcUnixSocketWrite
  split
  · exact Quiet.refl k
  split
  · split
    · exact Quiet.refl k
    split
    · exact Quiet.refl k
    split
    · exact Quiet.refl k
    split
    · exact (quiet_setRing k _ _).trans (quiet_sockReadWakeOne _ _)
    split
    · exact Quiet.refl k
    · exact quiet_waitOn k _ .write _ _
  · split
    · exact Quiet.refl k
    split
    · exact Quiet.refl k
    · exact (quiet_setRing k _ _).trans (quiet_sockReadWakeOne _ _)

theorem Outcome.Quiet.readResult {k l : Kernel} {o : Outcome} (ho : o.Quiet l) (h : Socket.Quiet k l) (t : Tid)
    (buf : Nat) (copyFails : Bool) : (readResult t buf copyFails o).Quiet k := by
  cases o with
  | sleeps k' => exact h.trans ho
  | returns n bytes k' =>
    dsimp only [Socket.readResult]
    split
    · exact h.trans ho
    split
    · exact h.trans ho
    · exact h.trans (Socket.Quiet.trans ho (quiet_modifyTask k' t _))

theorem quiet_sysRecv (k : Kernel) (t : Tid) (s : Sid) (buf len : Nat) (f : Fails) :
    (sysRecv k t s buf len f).Quiet k := by
  have hbuf : Quiet k (setUserBuf k t buf) := quiet_modifyTask k t _
  unfold sysRecv
  split
  · exact Quiet.refl k
  split
  · exact hbuf
  · exact (quiet_taskIpcUnixSocketRead _ t s len f.waiter).readResult hbuf t buf f.copy

theorem quiet_sysRead (k : Kernel) (t : Tid) (s : Sid) (buf len : Nat) (f : Fails) :
    (sysRead k t s buf len f).Quiet k := by
  unfold sysRead
  split
  · exact Quiet.refl k
  · exact (quiet_taskIpcUnixSocketRead _ t s len f.waiter).readResult (quiet_modifyTask k t _) t buf f.copy

theorem quiet_sysSend (k : Kernel) (t : Tid) (s : Sid) (buf : Nat) (data : List UInt8) (f : Fails) :
    (sysSend k t s buf data f).Quiet k := by
  unfold sysSend
  split
  · exact Quiet.refl k
  split
  · exact Quiet.refl k
  split
  · exact Quiet.refl k
  · exact quiet_taskIpcUnixSocketWrite k t s data f.waiter

theorem quiet_sysWrite (k : Kernel) (t : Tid) (s : Sid) (data : List UInt8) (f : Fails) :
    (sysWrite k t s data f).Quiet k := by
  unfold sysWrite
  split
  · exact Quiet.refl k
  split
  · exact Quiet.refl k
  · exact quiet_taskIpcUnixSocketWrite k t s data f.waiter

theorem quiet_finish {k : Kernel} {o : Outcome} (ho : o.Quiet k) (t : Tid) (c : Call) : Quiet k (finish t c o) := by
  cases o with
  | sleeps k' => exact ho
  | returns v bytes k' => exact Quiet.trans ho ⟨fun _ => rfl, rfl, rfl, rfl, rfl, rfl⟩

theorem finish_history (t : Tid) (c : Call) (v : Int) (bytes : List UInt8) (k : Kernel) :
    (finish t c (.returns v bytes k)).history = k.history ++ [⟨t, c, v, bytes⟩] := rfl

/-! ## Queues -/

/-- The call of a task that waits in a queue. -/
def Fits (c : Call) (s : Sid) (w : Waiter) : Queue → Prop
  | .read => c = .read s w.userBuf w.bufSize ∧ w.bufSize ≠ 0
  | .write => ∃ s' data, c = .write s' data
  | .accept => c = .accept s
  | .connect => ∃ client, c = .connect client

structure WaitOk (k : Kernel) : Prop where
  waits : ∀ s q, ∀ w ∈ (k.sock s).waiters q, (k.task w.task).blocked = true ∧
    ∃ c, (k.task w.task).inCall = some (c, s, q) ∧ Fits c s w q
  once : ∀ s q, (((k.sock s).waiters q).map (·.task)).Nodup

/-- Queues, and the calls tasks are blocked in, are as before. -/
structure SameWaits (k k' : Kernel) : Prop where
  waiters : ∀ s, (k'.sock s).waiters = (k.sock s).waiters
  blocked : ∀ t, (k'.task t).blocked = (k.task t).blocked
  inCall : ∀ t, (k'.task t).inCall = (k.task t).inCall

theorem SameWaits.refl (k : Kernel) : SameWaits k k := ⟨fun _ => rfl, fun _ => rfl, fun _ => rfl⟩

theorem SameWaits.trans {k l m : Kernel} (h : SameWaits k l) (h' : SameWaits l m) : SameWaits k m :=
  ⟨fun s => (h'.waiters s).trans (h.waiters s), fun t => (h'.blocked t).trans (h.blocked t),
    fun t => (h'.inCall t).trans (h.inCall t)⟩

theorem sameWaits_modify (k : Kernel) (s : Sid) {f : Sock → Sock}
    (hf : (f (k.sock s)).waiters = (k.sock s).waiters) : SameWaits k (k.modify s f) :=
  ⟨sock_modify_field _ hf, fun _ => rfl, fun _ => rfl⟩

theorem sameWaits_modifyTask (k : Kernel) (t : Tid) {f : Task → Task}
    (hb : (f (k.task t)).blocked = (k.task t).blocked) (hc : (f (k.task t)).inCall = (k.task t).inCall) :
    SameWaits k (k.modifyTask t f) := by
  refine ⟨fun _ => rfl, fun u => ?_, fun u => ?_⟩
  · by_cases hu : u = t
    · rw [hu]
      exact (congrArg Task.blocked (update_self ..)).trans hb
    · exact congrArg Task.blocked (update_of_ne hu ..)
  · by_cases hu : u = t
    · rw [hu]
      exact (congrArg Task.inCall (update_self ..)).trans hc
    · exact congrArg Task.inCall (update_of_ne hu ..)

theorem WaitOk.same {k k' : Kernel} (h : WaitOk k) (hs : SameWaits k k') : WaitOk k' := by
  constructor
  · intro s q w hw
    rw [hs.waiters] at hw
    rw [hs.blocked, hs.inCall]
    exact h.waits s q w hw
  · intro s q
    rw [hs.waiters]
    exact h.once s q

theorem waiters_setWaiters (k : Kernel) (s : Sid) (q : Queue) (ws : List Waiter) (s' : Sid) (q' : Queue) :
    ((k.setWaiters s q ws).sock s').waiters q' = if s' = s ∧ q' = q then ws else (k.sock s').waiters q' := by
  unfold Kernel.setWaiters
  by_cases hs : s' = s
  · subst hs
    rw [sock_modify_self]
    dsimp only
    by_cases hq : q' = q
    · subst hq
      rw [update_self, if_pos ⟨rfl, rfl⟩]
    · rw [update_of_ne hq, if_neg fun h => hq h.2]
  · rw [sock_modify_of_ne k _ hs, if_neg fun h => hs h.1]

/-- Two waiters for the same task are in the same queue. -/
theorem WaitOk.queue_eq {k : Kernel} (h : WaitOk k) {s s' : Sid} {q q' : Queue} {w w' : Waiter}
    (hw : w ∈ (k.sock s).waiters q) (hw' : w' ∈ (k.sock s').waiters q') (ht : w'.task = w.task) :
    s' = s ∧ q' = q := by
  obtain ⟨-, c, hc, -⟩ := h.waits s q w hw
  obtain ⟨-, c', hc', -⟩ := h.waits s' q' w' hw'
  rw [ht, hc] at hc'
  cases hc'
  exact ⟨rfl, rfl⟩

/-- The first waiter leaves its queue, and its task may change. -/
theorem WaitOk.dequeue {k k' : Kernel} {s : Sid} {q : Queue} {w : Waiter} {ws : List Waiter} (h : WaitOk k)
    (hq : (k.sock s).waiters q = w :: ws)
    (hws : ∀ s' q', (k'.sock s').waiters q' = if s' = s ∧ q' = q then ws else (k.sock s').waiters q')
    (hb : ∀ t, t ≠ w.task → (k'.task t).blocked = (k.task t).blocked)
    (hc : ∀ t, t ≠ w.task → (k'.task t).inCall = (k.task t).inCall) : WaitOk k' := by
  have hhead : w ∈ (k.sock s).waiters q := by rw [hq]; exact mem_cons_self
  have hnd := h.once s q
  rw [hq, map_cons, nodup_cons] at hnd
  have hold : ∀ s' q', ∀ w' ∈ (k'.sock s').waiters q', w' ∈ (k.sock s').waiters q' ∧ w'.task ≠ w.task := by
    intro s' q' w' hw'
    rw [hws] at hw'
    split at hw'
    · rename_i heq
      obtain ⟨rfl, rfl⟩ := heq
      refine ⟨by rw [hq]; exact mem_cons_of_mem _ hw', fun ht => hnd.1 ?_⟩
      rw [← ht]
      exact mem_map_of_mem hw'
    · rename_i hne
      exact ⟨hw', fun ht => hne (h.queue_eq hhead hw' ht)⟩
  constructor
  · intro s' q' w' hw'
    obtain ⟨hmem, hne⟩ := hold s' q' w' hw'
    rw [hb _ hne, hc _ hne]
    exact h.waits s' q' w' hmem
  · intro s' q'
    rw [hws]
    split
    · exact hnd.2
    · exact h.once s' q'

theorem sock_taskUnblock (k : Kernel) (t : Tid) (bytes : List UInt8) : (taskUnblock k t bytes).sock = k.sock := by
  unfold taskUnblock
  split <;> rfl

theorem task_modifyTask_self (k : Kernel) (t : Tid) (f : Task → Task) : (k.modifyTask t f).task t = f (k.task t) :=
  update_self ..

theorem task_modifyTask_of_ne (k : Kernel) {t u : Tid} (f : Task → Task) (h : u ≠ t) :
    (k.modifyTask t f).task u = k.task u := update_of_ne h ..

theorem task_taskUnblock_of_ne (k : Kernel) {t u : Tid} (bytes : List UInt8) (h : u ≠ t) :
    (taskUnblock k t bytes).task u = k.task u := by
  unfold taskUnblock
  split
  · exact update_of_ne h ..
  · rfl

theorem task_taskUnblock_self {k : Kernel} {t : Tid} (bytes : List UInt8) (h : (k.task t).blocked = true) :
    (taskUnblock k t bytes).task t = { k.task t with blocked := false, inCall := none } := by
  unfold taskUnblock
  rw [if_pos h]
  exact update_self ..

theorem sock_wake (k : Kernel) (w : Waiter) : (wake k w).sock = k.sock := sock_taskUnblock _ _ _

theorem task_wake_of_ne (k : Kernel) {w : Waiter} {u : Tid} (h : u ≠ w.task) : (wake k w).task u = k.task u :=
  (task_taskUnblock_of_ne _ _ h).trans (task_modifyTask_of_ne k _ h)

/-- A task that was blocked in a call comes out of it. -/
theorem history_taskUnblock {k : Kernel} {t : Tid} (bytes : List UInt8) {c : Call × Sid × Queue}
    (hb : (k.task t).blocked = true) (hc : (k.task t).inCall = some c) :
    (taskUnblock k t bytes).history = k.history ++ [⟨t, c.1, (k.task t).eax, bytes⟩] := by
  unfold taskUnblock
  rw [if_pos hb, hc]
  rfl

theorem history_wake {k : Kernel} {w : Waiter} {c : Call × Sid × Queue} (hb : (k.task w.task).blocked = true)
    (hc : (k.task w.task).inCall = some c) : (wake k w).history = k.history ++ [⟨w.task, c.1, 0, []⟩] := by
  have hself : (k.setEax w.task 0).task w.task = { k.task w.task with eax := 0 } := update_self ..
  unfold wake
  rw [history_taskUnblock [] (c := c) (by rw [hself]; exact hb) (by rw [hself]; exact hc), hself]
  rfl

theorem WaitOk.sockWakeOne {k : Kernel} (h : WaitOk k) (s : Sid) (q : Queue) : WaitOk (sockWakeOne k s q) := by
  unfold Socket.sockWakeOne
  split
  · exact h
  · rename_i w ws hq
    refine h.dequeue hq (fun s' q' => ?_) (fun t ht => ?_) fun t ht => ?_
    · rw [sock_wake, waiters_setWaiters]
    · exact congrArg Task.blocked (task_wake_of_ne _ ht)
    · exact congrArg Task.inCall (task_wake_of_ne _ ht)

theorem sockWakeAll_nil {k : Kernel} {s : Sid} {q : Queue} (hq : (k.sock s).waiters q = []) :
    sockWakeAll k s q = k.setWaiters s q [] := by
  unfold sockWakeAll
  rw [hq]
  rfl

theorem setWaiters_same {k : Kernel} {s : Sid} {q : Queue} {ws : List Waiter} (hq : (k.sock s).waiters q = ws) :
    k.setWaiters s q ws = k := by
  unfold Kernel.setWaiters Kernel.modify
  dsimp only
  rw [← hq, update_eq_self, update_eq_self]

theorem WaitOk.sockReadWakeOne {k : Kernel} (h : WaitOk k) (s : Sid) : WaitOk (sockReadWakeOne k s) := by
  unfold Socket.sockReadWakeOne
  split
  · exact h
  · rename_i w ws hq
    dsimp only
    split
    · refine h.dequeue hq (fun s' q' => ?_) (fun t ht => ?_) fun t ht => ?_
      · have hring := (sameWaits_modify (k.setWaiters s .read ws) s (f := fun x => { x with
          ring := (copyOut ((k.setWaiters s .read ws).sock s).ring ((k.setWaiters s .read ws).task w.task).mem
            w.userBuf (min w.bufSize ((k.setWaiters s .read ws).sock s).ring.dataLen)
            (min w.bufSize ((k.setWaiters s .read ws).sock s).ring.dataLen)).1 }) rfl).waiters s'
        rw [sock_taskUnblock]
        exact (congrFun hring q').trans (waiters_setWaiters k s .read ws s' q')
      · exact congrArg Task.blocked ((task_taskUnblock_of_ne _ _ ht).trans (task_modifyTask_of_ne _ _ ht))
      · exact congrArg Task.inCall ((task_taskUnblock_of_ne _ _ ht).trans (task_modifyTask_of_ne _ _ ht))
    · refine h.dequeue hq (fun s' q' => ?_) (fun t ht => ?_) fun t ht => ?_
      · rw [sock_taskUnblock]
        exact waiters_setWaiters k s .read ws s' q'
      · exact congrArg Task.blocked ((task_taskUnblock_of_ne _ _ ht).trans (task_modifyTask_of_ne _ _ ht))
      · exact congrArg Task.inCall ((task_taskUnblock_of_ne _ _ ht).trans (task_modifyTask_of_ne _ _ ht))

/-- A task that is not blocked has no waiter. -/
theorem WaitOk.task_ne {k : Kernel} (h : WaitOk k) {t : Tid} (ht : (k.task t).blocked = false) {s : Sid}
    {q : Queue} {w : Waiter} (hw : w ∈ (k.sock s).waiters q) : w.task ≠ t := by
  intro he
  obtain ⟨hb, -⟩ := h.waits s q w hw
  rw [he, ht] at hb
  cases hb

theorem WaitOk.sleepOnly {k : Kernel} (h : WaitOk k) {t : Tid} (ht : (k.task t).blocked = false) (s : Sid)
    (q : Queue) (c : Call) : WaitOk (sleepOnly k t s q c) := by
  constructor
  · intro s' q' w hw
    have hne := h.task_ne ht hw
    unfold Socket.sleepOnly
    rw [task_modifyTask_of_ne _ _ hne]
    exact h.waits s' q' w hw
  · exact h.once

theorem WaitOk.waitOn {k : Kernel} (h : WaitOk k) {s : Sid} {q : Queue} {w : Waiter} {c : Call}
    (ht : (k.task w.task).blocked = false) (hc : Fits c s w q) : WaitOk (waitOn k s q w c) := by
  have hws : ∀ s' q', ((Socket.waitOn k s q w c).sock s').waiters q' =
      if s' = s ∧ q' = q then (k.sock s).waiters q ++ [w] else (k.sock s').waiters q' := fun s' q' =>
    waiters_setWaiters k s q _ s' q'
  have hold : ∀ s' q', ∀ w' ∈ (k.sock s').waiters q', ((Socket.waitOn k s q w c).task w'.task).blocked = true ∧
      ∃ c', ((Socket.waitOn k s q w c).task w'.task).inCall = some (c', s', q') ∧ Fits c' s' w' q' := by
    intro s' q' w' hw'
    have hne := h.task_ne ht hw'
    unfold Socket.waitOn
    rw [task_modifyTask_of_ne _ _ hne]
    exact h.waits s' q' w' hw'
  constructor
  · intro s' q' w' hw'
    rw [hws] at hw'
    split at hw'
    · rename_i heq
      obtain ⟨rfl, rfl⟩ := heq
      rcases mem_append.mp hw' with hw' | hw'
      · exact hold s' q' w' hw'
      · rw [mem_singleton.mp hw']
        have hself : (Socket.waitOn k s' q' w c).task w.task =
            { (k.task w.task) with blocked := true, inCall := some (c, s', q') } := update_self ..
        rw [hself]
        exact ⟨rfl, c, rfl, hc⟩
    · exact hold s' q' w' hw'
  · intro s' q'
    rw [hws]
    split
    · rw [map_append, nodup_append]
      refine ⟨h.once s q, by simp, fun a ha b hb hab => ?_⟩
      obtain ⟨w', hw', rfl⟩ := mem_map.mp ha
      rw [map_singleton, mem_singleton] at hb
      exact h.task_ne ht hw' (hab.trans hb)
    · exact h.once s' q'

end Serotonin.Socket
