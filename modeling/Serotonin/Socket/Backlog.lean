import Serotonin.Socket.Liveness

/-! Pending clients. A client that calls connect leaves its socket in the backlog of the
listener and its task in the queue of the connecting tasks; accept takes the first of each.
The two stay in step, and accept pairs the socket that has waited longest. -/

namespace Serotonin.Socket

open Function List

/-- The socket the call was made on. -/
def Call.sock : Call → Sid
  | .read s _ _ | .write s _ | .accept s | .connect s => s

/-- Who waits where, when the clients in `pend` are pending. -/
structure QueueInv (k : Kernel) (pend : Sid → List Sid) : Prop where
  waits : WaitOk k
  inStep : ∀ l, k.live l = true → ((k.sock l).waiters .connect).map (fun w => (k.task w.task).inCall) =
    (pend l).map fun c => some (.connect c, l, .connect)
  idle : ∀ l, k.live l = true → (k.sock l).waiters .accept ≠ [] → pend l = []
  holds : ∀ t c s q, (k.task t).inCall = some (c, s, q) →
    (q = .accept ∨ q = .connect) ∧ ∃ d ∈ k.fds, d.task = t ∧ d.sock = c.sock
  asleep : ∀ t, (k.task t).blocked = false → (k.task t).inCall = none

namespace QueueInv

variable {k k' : Kernel} {pend pend' : Sid → List Sid}

/-- Who waits where is as before; a descriptor may go if its task is not in a call. -/
theorem frame (h : QueueInv k pend) (hs : SameWaits k k') (hl : ∀ l, k'.live l = true → k.live l = true)
    (hp : ∀ l, k'.live l = true → pend' l = pend l)
    (hf : ∀ d ∈ k.fds, (k.task d.task).inCall ≠ none → d ∈ k'.fds) : QueueInv k' pend' where
  waits := h.waits.same hs
  inStep l hlive := by
    have hmap := h.inStep l (hl l hlive)
    rw [hs.waiters, hp l hlive, ← hmap]
    exact map_congr_left fun w _ => hs.inCall w.task
  idle l hlive hne := by
    rw [hs.waiters] at hne
    rw [hp l hlive]
    exact h.idle l (hl l hlive) hne
  holds t c s q hc := by
    rw [hs.inCall] at hc
    obtain ⟨hq, d, hd, rfl, hsock⟩ := h.holds t c s q hc
    refine ⟨hq, d, hf d hd ?_, rfl, hsock⟩
    rw [hc]
    exact Option.some_ne_none _
  asleep t ht := by
    rw [hs.blocked] at ht
    rw [hs.inCall]
    exact h.asleep t ht

/-- A new socket has neither waiters nor pending clients. -/
theorem alloc {s : Sid} {type : SockType} (h : QueueInv k pend) (ha : Allocated k k' s type) :
    QueueInv k' (update pend s []) := by
  obtain ⟨garbage, hself⟩ := ha.self
  refine ⟨ha.waits h.waits, fun l hl => ?_, fun l hl hne => ?_, fun t c s' q hc => ?_, fun t ht => ?_⟩
  · by_cases he : l = s
    · rw [he, hself, update_self]
      rfl
    · rw [ha.other l he, update_of_ne he, ha.task]
      exact h.inStep l (((ha.live l).mp hl).resolve_left he)
  · by_cases he : l = s
    · rw [he, update_self]
    · rw [ha.other l he] at hne
      rw [update_of_ne he]
      exact h.idle l (((ha.live l).mp hl).resolve_left he) hne
  · rw [ha.task] at hc
    rw [ha.fds]
    exact h.holds t c s' q hc
  · rw [ha.task] at ht ⊢
    exact h.asleep t ht

/-- A task falls asleep at `s`. -/
structure Slept (k k' : Kernel) (t : Tid) (c : Call) (s : Sid) (q : Queue) : Prop where
  self : (k'.task t).blocked = true ∧ (k'.task t).inCall = some (c, s, q)
  other : ∀ u, u ≠ t → (k'.task u).blocked = (k.task u).blocked ∧ (k'.task u).inCall = (k.task u).inCall
  live : k'.live = k.live
  fds : k'.fds = k.fds

theorem slept_modifyTask (k : Kernel) (t : Tid) (c : Call) (s : Sid) (q : Queue) :
    Slept k (k.modifyTask t fun x => { x with blocked := true, inCall := some (c, s, q) }) t c s q := by
  refine ⟨?_, fun u hu => ?_, rfl, rfl⟩
  · rw [task_modifyTask_self]
    exact ⟨rfl, rfl⟩
  · rw [task_modifyTask_of_ne k _ hu]
    exact ⟨rfl, rfl⟩

/-- The task joins a queue, and its client the pending ones if it connects. -/
theorem wait {t : Tid} {c : Call} {s : Sid} {q : Queue} (h : QueueInv k pend) (ws : List Waiter)
    (ht : (k.task t).blocked = false) (hw : WaitOk k') (hk : Slept k k' t c s q)
    (hd : (q = .accept ∨ q = .connect) ∧ ∃ d ∈ k.fds, d.task = t ∧ d.sock = c.sock)
    (hws : ∀ s' q', (k'.sock s').waiters q' =
      if s' = s ∧ q' = q then (k.sock s').waiters q' ++ ws else (k.sock s').waiters q')
    (hnew : ∀ w ∈ ws, w.task = t)
    (hpend : ∀ l, k.live l = true → pend' l = if l = s ∧ q = .connect then pend l ++ ws.map (fun _ => c.sock) else pend l)
    (hcall : q = .connect → c = .connect c.sock)
    (hidle : k.live s = true → if q = .accept then pend s = [] else (k.sock s).waiters .accept = []) :
    QueueInv k' pend' := by
  have hother : ∀ s' q', ∀ w ∈ (k.sock s').waiters q', (k'.task w.task).inCall = (k.task w.task).inCall :=
    fun s' q' w hmem => (hk.other w.task (h.waits.task_ne ht hmem)).2
  refine ⟨hw, fun l hl => ?_, fun l hl hne => ?_, fun u c' s' q' hc => ?_, fun u hu => ?_⟩
  · rw [hk.live] at hl
    have hold : ((k.sock l).waiters .connect).map (fun w => (k'.task w.task).inCall) =
        (pend l).map fun c => some (.connect c, l, .connect) :=
      (map_congr_left fun w hmem => hother l .connect w hmem).trans (h.inStep l hl)
    rw [hws, hpend l hl]
    by_cases he : l = s ∧ q = .connect
    · obtain ⟨rfl, rfl⟩ := he
      rw [if_pos ⟨rfl, rfl⟩, if_pos ⟨rfl, rfl⟩, map_append, map_append, hold, map_map]
      congr 1
      refine map_congr_left fun w hmem => ?_
      rw [hnew w hmem, hk.self.2, hcall rfl]
      rfl
    · rw [if_neg fun h => he ⟨h.1, h.2.symm⟩, if_neg he]
      exact hold
  · rw [hk.live] at hl
    rw [hws] at hne
    rw [hpend l hl]
    by_cases he : l = s
    · subst he
      have hi := hidle hl
      by_cases hq : q = .accept
      · subst hq
        rw [if_pos rfl] at hi
        rw [if_neg fun h => nomatch h.2]
        exact hi
      · rw [if_neg hq] at hi
        rw [if_neg fun h => hq h.2.symm] at hne
        exact absurd hi hne
    · rw [if_neg fun h => he h.1] at hne ⊢
      exact h.idle l hl hne
  · rw [hk.fds]
    by_cases hu : u = t
    · subst hu
      rw [hk.self.2] at hc
      cases hc
      exact hd
    · rw [(hk.other u hu).2] at hc
      exact h.holds u c' s' q' hc
  · by_cases he : u = t
    · rw [he, hk.self.1] at hu
      cases hu
    · obtain ⟨hb, hc⟩ := hk.other u he
      rw [hb] at hu
      rw [hc]
      exact h.asleep u hu

/-- The first of a queue is woken; of the connecting tasks, the first pending client goes with it. -/
theorem pop {l : Sid} {q : Queue} {w : Waiter} {ws : List Waiter} (h : QueueInv k pend)
    (hq : (k.sock l).waiters q = w :: ws)
    (hws : ∀ s' q', (k'.sock s').waiters q' = if s' = l ∧ q' = q then ws else (k.sock s').waiters q')
    (hself : (k'.task w.task).inCall = none)
    (hother : ∀ t, t ≠ w.task → (k'.task t).blocked = (k.task t).blocked ∧ (k'.task t).inCall = (k.task t).inCall)
    (hlive : k'.live = k.live) (hfds : k'.fds = k.fds)
    (hpend : ∀ l', k.live l' = true → pend' l' = if l' = l ∧ q = .connect then (pend l').tail else pend l') :
    QueueInv k' pend' := by
  have hhead : w ∈ (k.sock l).waiters q := by rw [hq]; exact mem_cons_self
  have hwaits : WaitOk k' := h.waits.dequeue hq hws (fun t ht => (hother t ht).1) fun t ht => (hother t ht).2
  refine ⟨hwaits, fun l' hl' => ?_, fun l' hl' hne => ?_, fun t c s q' hc => ?_, fun t ht => ?_⟩
  · rw [hlive] at hl'
    have hstep := h.inStep l' hl'
    rw [hws, hpend l' hl']
    by_cases he : l' = l ∧ q = .connect
    · obtain ⟨rfl, rfl⟩ := he
      rw [if_pos ⟨rfl, rfl⟩, if_pos ⟨rfl, rfl⟩]
      have hnodup := h.waits.once l' .connect
      rw [hq, map_cons, nodup_cons] at hnodup
      rw [hq, map_cons] at hstep
      rw [map_tail, ← hstep, tail_cons]
      refine map_congr_left fun w' hw' => (hother w'.task fun he => hnodup.1 ?_).2
      rw [← he]
      exact mem_map_of_mem hw'
    · rw [if_neg fun h => he ⟨h.1, h.2.symm⟩, if_neg he, ← hstep]
      refine map_congr_left fun w' hw' => (hother w'.task fun ht => he ?_).2
      obtain ⟨h1, h2⟩ := h.waits.queue_eq hhead hw' ht
      exact ⟨h1, h2.symm⟩
  · rw [hlive] at hl'
    have hbefore : (k.sock l').waiters .accept ≠ [] := by
      intro hnil
      rw [hws, hnil] at hne
      split at hne
      · rename_i he
        obtain ⟨rfl, rfl⟩ := he
        rw [hq] at hnil
        cases hnil
      · exact hne rfl
    rw [hpend l' hl', h.idle l' hl' hbefore]
    exact ite_self _
  · rw [hfds]
    by_cases ht : t = w.task
    · rw [ht, hself] at hc
      cases hc
    · rw [(hother t ht).2] at hc
      exact h.holds t c s q' hc
  · by_cases he : t = w.task
    · rw [he]
      exact hself
    · obtain ⟨hb, hc⟩ := hother t he
      rw [hb] at ht
      rw [hc]
      exact h.asleep t ht

theorem waitOn {p : Sid → List Sid} {t : Tid} {s : Sid} {q : Queue} {c : Call} (h : QueueInv k pend) (ht : (k.task t).blocked = false)
    (hfits : Fits c s ⟨t, 0, 0⟩ q) (hd : (q = .accept ∨ q = .connect) ∧ ∃ d ∈ k.fds, d.task = t ∧ d.sock = c.sock)
    (hpend : ∀ l, k.live l = true → p l = if l = s ∧ q = .connect then pend l ++ [c.sock] else pend l)
    (hcall : q = .connect → c = .connect c.sock)
    (hidle : k.live s = true → if q = .accept then pend s = [] else (k.sock s).waiters .accept = []) :
    QueueInv (Socket.waitOn k s q ⟨t, 0, 0⟩ c) p := by
  refine h.wait [⟨t, 0, 0⟩] ht (h.waits.waitOn ht hfits) ?_ hd (fun s' q' => ?_) (fun w hw => ?_) hpend hcall
    hidle
  · have hslept := slept_modifyTask (k.setWaiters s q ((k.sock s).waiters q ++ [⟨t, 0, 0⟩])) t c s q
    exact ⟨hslept.self, hslept.other, rfl, rfl⟩
  · refine (waiters_setWaiters k s q _ s' q').trans ?_
    by_cases he : s' = s ∧ q' = q
    · rw [if_pos he, if_pos he, he.1, he.2]
    · rw [if_neg he, if_neg he]
  · rw [mem_singleton.mp hw]

theorem sleepAccept {t : Tid} {s : Sid} (h : QueueInv k pend) (ht : (k.task t).blocked = false)
    (hd : ∃ d ∈ k.fds, d.task = t ∧ d.sock = s) (hidle : pend s = []) :
    QueueInv (sleepOnly k t s .accept (.accept s)) pend := by
  refine h.wait [] ht (h.waits.sleepOnly ht s .accept _) (slept_modifyTask k t _ s .accept) ⟨.inl rfl, hd⟩
    (fun s' q' => ?_) (fun _ hw => nomatch hw) (fun l _ => (if_neg fun h => nomatch h.2).symm) (fun hq => nomatch hq) fun _ => hidle
  rw [append_nil, ite_self]
  rfl

end QueueInv

/-! ## Accepting -/

/-- Accept has made the socket `server` for the client, the first of the backlog. -/
def paired (k : Kernel) (l client server : Sid) (rest : List Sid) (garbage : Nat → UInt8) : Kernel :=
  let k := k.modify l fun x => { x with backlog := rest }
  let k := { k with
    sock := update k.sock server (newSock .stream garbage)
    live := update k.live server true
    made := update k.made server none }
  let k := k.modify server fun x => { x with state := .connected, peer := some client }
  let k := k.modify client fun x => { x with peer := some server, state := .connected }
  { k with made := update k.made server (some client) }

/-- A task that is to be given the accepted socket gets it. -/
def Serves (k : Kernel) (m : Mem) (noMem : Bool) (task : Tid) : Prop :=
  m.addr ≠ none ∧ noMem = false ∧ allocFd k task ≠ none

theorem deliver_eq {k : Kernel} {l client server : Sid} {rest : List Sid} {m : Mem} {task : Tid} {fd : Nat}
    (hback : (k.sock l).backlog = client :: rest) (hm : m.addr = some server) (hfd : allocFd k task = some fd) :
    sockAcceptDeliver k l task m false =
      ({ sockWakeOne (paired k l client server rest m.garbage) l .connect with
        fds := ⟨task, fd, server⟩ :: k.fds
        refcount := update k.refcount server 1 } : Kernel).setEax task fd := by
  have hq := quiet_sockWakeOne (paired k l client server rest m.garbage) l .connect
  have hfrom : allocFd (sockWakeOne (paired k l client server rest m.garbage) l .connect) task = some fd := by
    rw [← hfd]
    unfold allocFd sockFromFd
    rw [hq.fds]
    rfl
  have hmake : sockMakeFdFor (sockWakeOne (paired k l client server rest m.garbage) l .connect) server task false =
      ((fd : Int), { sockWakeOne (paired k l client server rest m.garbage) l .connect with
        fds := ⟨task, fd, server⟩ :: k.fds
        refcount := update k.refcount server 1 }) := by
    unfold sockMakeFdFor
    rw [if_neg (by decide), hfrom]
    dsimp only
    rw [hq.fds, hq.refcount]
    rfl
  have halloc : sockAlloc (k.modify l fun x => { x with backlog := rest }) m .stream = some (server, { k.modify l
      (fun x => { x with backlog := rest }) with
        sock := update (k.modify l fun x => { x with backlog := rest }).sock server (newSock .stream m.garbage)
        live := update k.live server true
        made := update k.made server none }) := by
    unfold sockAlloc
    rw [hm]
    rfl
  unfold sockAcceptDeliver
  rw [hback]
  dsimp only
  rw [halloc]
  show (if (sockMakeFdFor (sockWakeOne (paired k l client server rest m.garbage) l .connect) server task false).1 < 0
    then _ else (sockMakeFdFor (sockWakeOne (paired k l client server rest m.garbage) l .connect) server task
      false).2.setEax task
        (sockMakeFdFor (sockWakeOne (paired k l client server rest m.garbage) l .connect) server task false).1) = _
  rw [hmake, if_neg (Int.not_lt.mpr (Int.natCast_nonneg fd))]

section Paired

variable {k : Kernel} {pend : Sid → List Sid} {l client server : Sid} {rest : List Sid} {garbage : Nat → UInt8}

theorem paired_client : ((paired k l client server rest garbage).sock client).state = .connected := by
  unfold paired
  dsimp only
  rw [sock_modify_self]

theorem paired_peer (x : Sid) : ((paired k l client server rest garbage).sock x).peer =
    if x = client then some server else if x = server then some client else (k.sock x).peer := by
  unfold paired
  dsimp only
  by_cases hc : x = client
  · rw [if_pos hc, hc, sock_modify_self]
  · rw [if_neg hc, sock_modify_of_ne _ _ hc]
    by_cases hs : x = server
    · rw [if_pos hs, hs, sock_modify_self]
    · rw [if_neg hs, sock_modify_of_ne _ _ hs]
      dsimp only
      rw [update_of_ne hs]
      exact sock_modify_field Sock.peer rfl x

theorem paired_made (x : Sid) : (paired k l client server rest garbage).made x =
    if x = server then some client else k.made x := by
  by_cases hs : x = server
  · rw [if_pos hs, hs]
    exact update_self ..
  · rw [if_neg hs]
    exact (update_of_ne hs ..).trans (update_of_ne hs ..)

theorem paired_live (x : Sid) : (paired k l client server rest garbage).live x = true ↔ x = server ∨ k.live x = true := by
  show update k.live server true x = true ↔ _
  by_cases hs : x = server
  · simp [hs]
  · simp [hs]

/-- The other fields of a socket. -/
theorem paired_field {β : Type} (g : Sock → β) (hlink : ∀ x st p, g { x with state := st, peer := p } = g x) (x : Sid) :
    g ((paired k l client server rest garbage).sock x) = if x = server then g (newSock .stream garbage)
      else if x = l then g { k.sock l with backlog := rest } else g (k.sock x) := by
  have hnew : g (update (k.modify l fun y => { y with backlog := rest }).sock server (newSock .stream garbage) x) =
      if x = server then g (newSock .stream garbage)
        else if x = l then g { k.sock l with backlog := rest } else g (k.sock x) := by
    by_cases hs : x = server
    · rw [if_pos hs, hs, update_self]
    · rw [if_neg hs, update_of_ne hs]
      by_cases hl : x = l
      · rw [if_pos hl, hl, sock_modify_self]
      · rw [if_neg hl, sock_modify_of_ne _ _ hl]
  rw [← hnew]
  unfold paired
  dsimp only
  by_cases hc : x = client
  · rw [hc, sock_modify_self, hlink]
    by_cases hs : client = server
    · rw [hs, sock_modify_self, hlink]
    · rw [sock_modify_of_ne _ _ hs]
  · rw [sock_modify_of_ne _ _ hc]
    by_cases hs : x = server
    · rw [hs, sock_modify_self, hlink]
    · rw [sock_modify_of_ne _ _ hs]

theorem paired_backlog (x : Sid) : ((paired k l client server rest garbage).sock x).backlog =
    if x = server then [] else if x = l then rest else (k.sock x).backlog :=
  paired_field Sock.backlog (fun _ _ _ => rfl) x

theorem paired_waiters (x : Sid) : ((paired k l client server rest garbage).sock x).waiters =
    if x = server then fun _ => [] else (k.sock x).waiters := by
  rw [paired_field Sock.waiters (fun _ _ _ => rfl) x]
  by_cases hl : x = l
  · rw [if_pos hl, hl]
    rfl
  · rw [if_neg hl]
    rfl

theorem paired_type (x : Sid) : ((paired k l client server rest garbage).sock x).type =
    if x = server then .stream else (k.sock x).type := by
  rw [paired_field Sock.type (fun _ _ _ => rfl) x]
  by_cases hl : x = l
  · rw [if_pos hl, hl]
    rfl
  · rw [if_neg hl]
    rfl

theorem QueueInv.paired (h : QueueInv k pend) (hfresh : k.live server = false) (l client : Sid) (rest : List Sid)
    (garbage : Nat → UInt8) : QueueInv (paired k l client server rest garbage) (update pend server []) := by
  have halloc : Allocated (k.modify l fun y => { y with backlog := rest })
      { k.modify l (fun y => { y with backlog := rest }) with
        sock := update (k.modify l fun y => { y with backlog := rest }).sock server (newSock .stream garbage)
        live := update k.live server true
        made := update k.made server none } server .stream :=
    sockAlloc_allocated (m := ⟨some server, garbage⟩) (fun s hs => by cases hs; exact hfresh) rfl
  have hrest : QueueInv (k.modify l fun y => { y with backlog := rest }) pend :=
    h.frame (sameWaits_modify k l rfl) (fun _ hl => hl) (fun _ _ => rfl) fun _ hd _ => hd
  have hserver := (hrest.alloc halloc).frame (sameWaits_modify _ server (f := fun x => { x with
    state := .connected, peer := some client }) rfl) (fun _ hl => hl) (fun _ _ => rfl) fun _ hd _ => hd
  have hclient := hserver.frame (sameWaits_modify _ client (f := fun x => { x with
    peer := some server, state := .connected }) rfl) (fun _ hl => hl) (fun _ _ => rfl) fun _ hd _ => hd
  exact hclient.frame ⟨fun _ => rfl, fun _ => rfl, fun _ => rfl⟩ (fun _ hl => hl) (fun _ _ => rfl) fun _ hd _ => hd

end Paired

/-- The first of the connecting tasks is woken, and its client is no longer pending. -/
theorem QueueInv.wakeConnect {k : Kernel} {pend p : Sid → List Sid} {l : Sid} {w : Waiter} {ws : List Waiter}
    (h : QueueInv k pend) (hl : k.live l = true) (hq : (k.sock l).waiters .connect = w :: ws)
    (hpend : ∀ l', k.live l' = true → p l' = if l' = l then (pend l').tail else pend l') :
    QueueInv (sockWakeOne k l .connect) p ∧ ∃ c, (pend l).head? = some c ∧
      (sockWakeOne k l .connect).history = k.history ++ [⟨w.task, .connect c, 0, []⟩] := by
  obtain ⟨hb, call, hcall, -⟩ := h.waits.waits l .connect w (by rw [hq]; exact mem_cons_self)
  have hwake : sockWakeOne k l .connect = wake (k.setWaiters l .connect ws) w := by
    unfold sockWakeOne
    rw [hq]
  have hself : ((sockWakeOne k l .connect).task w.task).inCall = none := by
    rw [hwake]
    unfold wake taskUnblock
    have hblocked : (((k.setWaiters l .connect ws).setEax w.task 0).task w.task).blocked = true :=
      (congrArg Task.blocked (task_modifyTask_self (k.setWaiters l .connect ws) w.task _)).trans hb
    rw [if_pos hblocked]
    exact congrArg Task.inCall (task_modifyTask_self ((k.setWaiters l .connect ws).setEax w.task 0) w.task
      fun x => { x with blocked := false, inCall := none })
  constructor
  · refine h.pop hq (fun s' q' => ?_) hself (fun t ht => ?_) (quiet_sockWakeOne k l .connect).live
      (quiet_sockWakeOne k l .connect).fds fun l' hl' => ?_
    · rw [hwake, sock_wake, waiters_setWaiters]
    · rw [hwake, task_wake_of_ne _ ht]
      exact ⟨rfl, rfl⟩
    · rw [hpend l' hl']
      simp
  · have hstep := h.inStep l hl
    rw [hq, map_cons] at hstep
    cases hp : pend l with
    | nil =>
      rw [hp] at hstep
      cases hstep
    | cons c cs =>
      rw [hp, map_cons] at hstep
      have hcall' : (k.task w.task).inCall = some (.connect c, l, .connect) := (List.cons.inj hstep).1
      refine ⟨c, rfl, ?_⟩
      rw [hwake]
      exact history_wake (k := k.setWaiters l .connect ws) hb hcall'

end Serotonin.Socket
