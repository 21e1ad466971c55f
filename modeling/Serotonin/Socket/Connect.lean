import Serotonin.Socket.Backlog

/-! What connect, accept and close promise each other: connect returns 0 to a client that is
connected to the socket accept has made for it, accept serves the client that has waited
longest, and nobody is left at a listener that goes away. That holds as long as no listener
is closed with clients pending, accept finds memory and a descriptor, and no socket that is
or was connected calls connect again. -/

namespace Serotonin.Socket

open Function List Option

/-- The sockets that are clients, and their peers. -/
structure ClientInv (k : Kernel) : Prop where
  stream : ∀ s, k.live s = true → (k.sock s).type = .stream
  peer : ∀ c p, k.live c = true → k.made c = none → (k.sock c).peer = some p →
    k.made p = some c ∧ (k.sock p).peer = some c
  pending : ∀ l, k.live l = true → ∀ c ∈ (k.sock l).backlog, ∀ d, k.live d = true → k.made d = none →
    (k.sock d).peer ≠ some c

namespace ClientInv

variable {k k' : Kernel}

theorem frame (h : ClientInv k) (ht : ∀ s, (k'.sock s).type = (k.sock s).type)
    (hl : ∀ s, k'.live s = true → k.live s = true) (hm : k'.made = k.made)
    (hp : ∀ s, (k'.sock s).peer = (k.sock s).peer)
    (hb : ∀ l, k'.live l = true → (k'.sock l).backlog ⊆ (k.sock l).backlog) : ClientInv k' where
  stream s hs := by
    rw [ht]
    exact h.stream s (hl s hs)
  peer c p hc := by
    rw [hm, hp, hp]
    exact h.peer c p (hl c hc)
  pending l hlive c hc d hd := by
    rw [hm, hp]
    exact h.pending l (hl l hlive) c (hb l hlive hc) d (hl d hd)

theorem quiet (h : ClientInv k) (hq : Quiet k k') : ClientInv k' :=
  h.frame hq.type (fun s hs => hq.live ▸ hs) hq.made hq.peer fun l _ => by rw [hq.backlog]; exact List.Subset.refl _

/-- A new socket has no peer. -/
theorem alloc {s : Sid} (h : ClientInv k) (hi : PointerInv k) (ha : Allocated k k' s .stream) (hs : k'.made s = none)
    (hm : ∀ x, x ≠ s → k'.made x = k.made x) : ClientInv k' := by
  obtain ⟨garbage, hself⟩ := ha.self
  have hold : ∀ x, x ≠ s → k'.live x = true → k.live x = true := fun x hx hl => ((ha.live x).mp hl).resolve_left hx
  have hdead : ∀ x, k.live x = true → x ≠ s := by
    intro x hl he
    rw [he, ha.fresh] at hl
    cases hl
  have hpeer : ∀ c p, k'.live c = true → (k'.sock c).peer = some p → c ≠ s ∧ (k.sock c).peer = some p := by
    intro c p _ hp
    have hc : c ≠ s := by
      rintro rfl
      rw [hself] at hp
      cases hp
    exact ⟨hc, by rwa [ha.other c hc] at hp⟩
  refine ⟨fun x hx => ?_, fun c p hc hmade hp => ?_, fun l hl c hc d hd hmade hp => ?_⟩
  · by_cases he : x = s
    · rw [he, hself]
      rfl
    · rw [ha.other x he]
      exact h.stream x (hold x he hx)
  · obtain ⟨hcs, hp'⟩ := hpeer c p hc hp
    rw [hm c hcs] at hmade
    have hps := hdead p (hi.peer c p (hold c hcs hc) hp')
    rw [hm p hps, ha.other p hps]
    exact h.peer c p (hold c hcs hc) hmade hp'
  · obtain ⟨hds, hp'⟩ := hpeer d c hd hp
    rw [hm d hds] at hmade
    have hls : l ≠ s := by
      rintro rfl
      rw [hself] at hc
      cases hc
    rw [ha.other l hls] at hc
    exact h.pending l (hold l hls hl) c hc d (hold d hds hd) hmade hp'

/-- A client is queued that is nobody's peer, or that has no peer itself. -/
theorem push {s l : Sid} (h : ClientInv k) (hfree : k.made s = none ∨ (k.sock s).peer = none) :
    ClientInv (k.modify l fun x => { x with backlog := x.backlog ++ [s] }) := by
  have htype : ∀ x, ((k.modify l fun y => { y with backlog := y.backlog ++ [s] }).sock x).type = _ := sock_modify_field Sock.type rfl
  have hpeer : ∀ x, ((k.modify l fun y => { y with backlog := y.backlog ++ [s] }).sock x).peer = _ := sock_modify_field Sock.peer rfl
  refine ⟨fun x hx => ?_, fun c p hc hm hp => ?_, fun l' hl c hc d hd hm hp => ?_⟩
  · rw [htype]
    exact h.stream x hx
  · rw [hpeer] at hp ⊢
    exact h.peer c p hc hm hp
  · rw [hpeer] at hp
    have hor : c ∈ (k.sock l').backlog ∨ c = s := by
      by_cases he : l' = l
      · rw [he, sock_modify_self] at hc
        rw [he]
        simpa using hc
      · rw [sock_modify_of_ne _ _ he] at hc
        exact .inl hc
    rcases hor with hc | rfl
    · exact h.pending l' hl c hc d hd hm hp
    · obtain ⟨hmade, hback⟩ := h.peer d c hd hm hp
      rcases hfree with hf | hf
      · rw [hmade] at hf
        cases hf
      · rw [hback] at hf
        cases hf

theorem paired {l client server : Sid} {rest : List Sid} (h : ClientInv k) (hi : PointerInv k) (hl : k.live l = true)
    (hback : (k.sock l).backlog = client :: rest) (hfresh : k.live server = false) (garbage : Nat → UInt8) :
    ClientInv (paired k l client server rest garbage) := by
  have hdead : ∀ x, k.live x = true → x ≠ server := by
    intro x hx he
    rw [he, hfresh] at hx
    cases hx
  have hclient : k.live client = true := hi.backlog l hl client (by rw [hback]; exact mem_cons_self)
  have hmadeS : (Socket.paired k l client server rest garbage).made server = some client := by
    rw [paired_made, if_pos rfl]
  -- a client that is not the one served is as it was
  have hother : ∀ c p, (Socket.paired k l client server rest garbage).live c = true →
      (Socket.paired k l client server rest garbage).made c = none →
      ((Socket.paired k l client server rest garbage).sock c).peer = some p → c ≠ client →
      k.live c = true ∧ k.made c = none ∧ (k.sock c).peer = some p := by
    intro c p hc hm hp hne
    have hcs : c ≠ server := by
      rintro rfl
      rw [hmadeS] at hm
      cases hm
    rw [paired_made, if_neg hcs] at hm
    rw [paired_peer, if_neg hne, if_neg hcs] at hp
    exact ⟨((paired_live c).mp hc).resolve_left hcs, hm, hp⟩
  refine ⟨fun x hx => ?_, fun c p hc hm hp => ?_, fun l' hl' c hc d hd hm hp => ?_⟩
  · rw [paired_type]
    split
    · rfl
    · rename_i hs
      exact h.stream x (((paired_live x).mp hx).resolve_left hs)
  · by_cases hne : c = client
    · subst hne
      rw [paired_peer, if_pos rfl] at hp
      cases hp
      rw [hmadeS, paired_peer, if_neg (Ne.symm (hdead c hclient)), if_pos rfl]
      exact ⟨rfl, rfl⟩
    · obtain ⟨hc', hm', hp'⟩ := hother c p hc hm hp hne
      have hps := hdead p (hi.peer c p hc' hp')
      have hpc : p ≠ client := by
        rintro rfl
        exact h.pending l hl p (by rw [hback]; exact mem_cons_self) c hc' hm' hp'
      rw [paired_made, if_neg hps, paired_peer, if_neg hpc, if_neg hps]
      exact h.peer c p hc' hm' hp'
  · have hls : l' ≠ server := by
      rintro rfl
      rw [paired_backlog, if_pos rfl] at hc
      cases hc
    have hl'' := ((paired_live l').mp hl').resolve_left hls
    have hc' : c ∈ (k.sock l').backlog := by
      rw [paired_backlog, if_neg hls] at hc
      split at hc
      · rename_i he
        rw [he, hback]
        exact mem_cons_of_mem _ hc
      · exact hc
    by_cases hne : d = client
    · subst hne
      rw [paired_peer, if_pos rfl] at hp
      exact hdead c (hi.backlog l' hl'' c hc') (Option.some.inj hp).symm
    · obtain ⟨hd', hm', hp'⟩ := hother d c hd hm hp hne
      exact h.pending l' hl'' c hc' d hd' hm' hp'

/-- A socket is closed, and its peer is told. -/
theorem closed {s : Sid} (h : ClientInv k) (hc : Closed k k' s) (hm : k'.made = k.made)
    (ht : ∀ x, (k'.sock x).type = (k.sock x).type) : ClientInv k' := by
  have hpeer : ∀ x p, x ≠ s → (k'.sock x).peer = some p →
      (k.sock x).peer = some p ∧ ¬((k.sock s).peer = some x ∧ (k.sock x).peer = some s) := by
    intro x p hx hp
    rw [hc.peer x hx] at hp
    split at hp
    · cases hp
    · rename_i hno
      exact ⟨hp, hno⟩
  refine ⟨fun x hx => ?_, fun c p hl hmade hp => ?_, fun l hl c hb d hd hmade hp => ?_⟩
  · rw [ht]
    exact h.stream x ((hc.live x).mp hx).2
  · obtain ⟨hcs, hl⟩ := (hc.live c).mp hl
    obtain ⟨hp, hno⟩ := hpeer c p hcs hp
    rw [hm] at hmade ⊢
    obtain ⟨hp1, hp2⟩ := h.peer c p hl hmade hp
    refine ⟨hp1, ?_⟩
    have hps : p ≠ s := by
      rintro rfl
      exact hno ⟨hp2, hp⟩
    rw [hc.peer p hps, if_neg, hp2]
    rintro ⟨-, he⟩
    rw [hp2] at he
    exact hcs (Option.some.inj he)
  · obtain ⟨hds, hd⟩ := (hc.live d).mp hd
    obtain ⟨hp, -⟩ := hpeer d c hds hp
    rw [hm] at hmade
    rw [hc.backlog] at hb
    exact h.pending l ((hc.live l).mp hl).2 c hb d hd hmade hp

end ClientInv

/-- The client is connected to a socket that accept has made for it. -/
def ConnectedTo (k : Kernel) (c : Sid) : Prop :=
  (k.sock c).state = .connected ∧ ∃ p, (k.sock c).peer = some p ∧ k.live p = true ∧ k.made p = some c

/-- The task has a descriptor of a new socket, which is paired with the first pending client. -/
structure Served (k k' : Kernel) (l client : Sid) (task : Tid) (fd : Nat) : Prop where
  connected : ConnectedTo k' client
  pair : ∃ server, sockFromFd k' task fd = some server ∧ (k'.sock server).peer = some client ∧
    (k'.sock client).peer = some server
  backlog : (k.sock l).backlog = client :: (k'.sock l).backlog

theorem Served.congr {k k' k'' : Kernel} {l client : Sid} {task : Tid} {fd : Nat} (h : Served k k' l client task fd)
    (hq : Quiet k' k'') : Served k k'' l client task fd := by
  obtain ⟨⟨hstate, p, hp, hlive, hmade⟩, ⟨server, hfd, hs1, hs2⟩, hback⟩ := h
  refine ⟨⟨(hq.state client).trans hstate, p, (hq.peer client).trans hp, ?_, ?_⟩,
    ⟨server, ?_, (hq.peer server).trans hs1, (hq.peer client).trans hs2⟩, ?_⟩
  · rw [hq.live]
    exact hlive
  · rw [hq.made]
    exact hmade
  · rw [← hfd]
    unfold sockFromFd
    rw [hq.fds]
  · rw [hq.backlog]
    exact hback

theorem deliver_served {k : Kernel} {l client server : Sid} {rest : List Sid} {m : Mem} {task : Tid} {fd : Nat}
    (hback : (k.sock l).backlog = client :: rest) (hm : m.addr = some server) (hfd : allocFd k task = some fd)
    (hl : l ≠ server) (hc : client ≠ server) : Served k (sockAcceptDeliver k l task m false) l client task fd := by
  have hq := quiet_sockWakeOne (paired k l client server rest m.garbage) l .connect
  rw [deliver_eq hback hm hfd]
  refine ⟨⟨?_, server, ?_, ?_, ?_⟩, ⟨server, ?_, ?_, ?_⟩, ?_⟩
  · exact (hq.state client).trans paired_client
  · exact (hq.peer client).trans ((paired_peer client).trans (if_pos rfl))
  · show (sockWakeOne (paired k l client server rest m.garbage) l .connect).live server = true
    rw [hq.live]
    exact (paired_live server).mpr (.inl rfl)
  · show (sockWakeOne (paired k l client server rest m.garbage) l .connect).made server = some client
    rw [hq.made, paired_made, if_pos rfl]
  · have hfrom := sockFromFd_cons (sockWakeOne (paired k l client server rest m.garbage) l .connect) task fd fd server
      (update k.refcount server 1)
    rw [if_pos rfl, hq.fds] at hfrom
    exact hfrom
  · refine (hq.peer server).trans ((paired_peer server).trans ?_)
    rw [if_neg hc.symm, if_pos rfl]
  · exact (hq.peer client).trans ((paired_peer client).trans (if_pos rfl))
  · rw [hback]
    refine congrArg (client :: ·) ?_
    exact (((hq.backlog l).trans (paired_backlog l)).trans ((if_neg hl).trans (if_pos rfl))).symm

structure ConnInv (k : Kernel) : Prop where
  pointers : PointerInv k
  clients : ClientInv k
  queues : QueueInv k fun l => (k.sock l).backlog

/-- The clients that a call queues. -/
def arrived (k : Kernel) (t : Tid) : Op → List Sid
  | .connect fd _ _ _ _ => (sockFromFd k t fd).toList
  | _ => []

/-- What the calls that end with a step return: connect 0 to clients that are connected, and
accept a socket that is paired with the first of the clients that are pending, or else they
return errors; and a client whose listener goes away gets an error. -/
structure Honest (k k' : Kernel) (clients : List Sid) (es : List Event) : Prop where
  history : k'.history = k.history ++ es
  connect : ∀ e ∈ es, ∀ c, e.call = .connect c → e.value = 0 ∧ ConnectedTo k' c ∨ e.value < 0
  accept : ∀ e ∈ es, ∀ l, e.call = .accept l →
    (∃ (c : Sid) (fd : Nat), e.value = fd ∧ (∃ server, sockFromFd k' e.task fd = some server ∧
      (k'.sock server).peer = some c ∧ (k'.sock c).peer = some server) ∧
      (k.sock l).backlog ++ clients = c :: (k'.sock l).backlog) ∨ e.value < 0
  gone : ∀ l, k.live l = true → k'.live l = false → ∀ c ∈ (k.sock l).backlog, ∃ e ∈ es, e.call = .connect c ∧ e.value < 0

/-- Nothing ended, and no listener went away. -/
theorem Honest.nothing {k k' : Kernel} (clients : List Sid) (hh : k'.history = k.history)
    (hl : ∀ l, k.live l = true → k'.live l = false → (k.sock l).backlog = []) : Honest k k' clients [] where
  history := hh.trans (append_nil _).symm
  connect _ he := nomatch he
  accept _ he := nomatch he
  gone l hl1 hl2 c hc := by
    rw [hl l hl1 hl2] at hc
    cases hc

theorem Honest.kept {k k' : Kernel} (clients : List Sid) (hh : k'.history = k.history)
    (hl : ∀ l, k.live l = true → k'.live l = true) : Honest k k' clients [] :=
  .nothing clients hh fun l h1 h2 => by
    rw [hl l h1] at h2
    cases h2

theorem Honest.error {k : Kernel} (clients : List Sid) (t : Tid) (call : Call) {v : Int} (hv : v < 0) :
    Honest k { k with history := k.history ++ [⟨t, call, v, []⟩] } clients [⟨t, call, v, []⟩] where
  history := rfl
  connect e he c _ := by
    rw [mem_singleton.mp he]
    exact .inr hv
  accept e he l _ := by
    rw [mem_singleton.mp he]
    exact .inr hv
  gone l hl hl' := by
    have hl'' : k.live l = false := hl'
    rw [hl] at hl''
    cases hl''

/-- What accept makes, and of what. -/
theorem PointerInv.serves {k : Kernel} (h : PointerInv k) {l : Sid} (hl : k.live l = true) {m : Mem} (hm : m.Fresh k)
    {noMem : Bool} {task : Tid} (hs : Serves k m noMem task) {client : Sid} {rest : List Sid}
    (hback : (k.sock l).backlog = client :: rest) : ∃ server fd, m.addr = some server ∧ allocFd k task = some fd ∧
      noMem = false ∧ k.live server = false ∧ l ≠ server ∧ client ≠ server := by
  obtain ⟨haddr, hmem, hfd⟩ := hs
  obtain ⟨server, hserver⟩ := ne_none_iff_exists'.mp haddr
  obtain ⟨fd, hfd⟩ := ne_none_iff_exists'.mp hfd
  have hfresh := hm server hserver
  have hdead : ∀ x, k.live x = true → x ≠ server := by
    intro x hx he
    rw [he, hfresh] at hx
    cases hx
  exact ⟨server, fd, hserver, hfd, hmem, hfresh, hdead l hl,
    hdead client (h.backlog l hl client (by rw [hback]; exact mem_cons_self))⟩

theorem ClientInv.deliver {k : Kernel} (h : ClientInv k) (hi : PointerInv k) {l : Sid} (hl : k.live l = true) {m : Mem}
    (hm : m.Fresh k) {noMem : Bool} {task : Tid} (hs : Serves k m noMem task) {client : Sid} {rest : List Sid}
    (hback : (k.sock l).backlog = client :: rest) : ClientInv (sockAcceptDeliver k l task m noMem) := by
  obtain ⟨server, fd, hserver, hfd, rfl, hfresh, -, -⟩ := hi.serves hl hm hs hback
  rw [deliver_eq hback hserver hfd]
  have hpaired := h.paired hi hl hback hfresh m.garbage
  have hwoken := hpaired.quiet (quiet_sockWakeOne _ l .connect)
  exact hwoken.frame (fun _ => rfl) (fun _ hx => hx) rfl (fun _ => rfl) fun _ _ => List.Subset.refl _

namespace ConnInv

variable {k k' : Kernel}

/-- What the invariant looks at is as before. -/
theorem same (h : ConnInv k) (hp : PointerInv k') (hs : SameWaits k k') (ht : ∀ s, (k'.sock s).type = (k.sock s).type)
    (hlive : k'.live = k.live) (hm : k'.made = k.made) (hpeer : ∀ s, (k'.sock s).peer = (k.sock s).peer)
    (hb : ∀ s, (k'.sock s).backlog = (k.sock s).backlog) (hf : ∀ d ∈ k.fds, d ∈ k'.fds) : ConnInv k' where
  pointers := hp
  clients := h.clients.frame ht (fun _ hl => hlive ▸ hl) hm hpeer fun l _ => by rw [hb]; exact List.Subset.refl _
  queues := h.queues.frame hs (fun _ hl => hlive ▸ hl) (fun l _ => hb l) fun d hd _ => hf d hd

theorem noted (h : ConnInv k) (es : List Event) : ConnInv { k with history := k.history ++ es } :=
  h.same (h.pointers.same ⟨fun _ => rfl, fun _ => rfl, fun _ => rfl, rfl, rfl, rfl, rfl⟩)
    ⟨fun _ => rfl, fun _ => rfl, fun _ => rfl⟩ (fun _ => rfl) rfl rfl (fun _ => rfl) (fun _ => rfl) fun _ hd => hd

/-- Only tasks and waiters have changed. -/
theorem quiet {pend : Sid → List Sid} (h : ConnInv k) (hq : Quiet k k') (hqueues : QueueInv k' pend)
    (hpend : ∀ l, k'.live l = true → (k'.sock l).backlog = pend l) : ConnInv k' where
  pointers := h.pointers.quiet hq
  clients := h.clients.quiet hq
  queues := hqueues.frame (SameWaits.refl k') (fun _ hl => hl) hpend fun _ hd _ => hd

/-- Accept serves the first pending client, and wakes its task. -/
theorem served_accept (h : ConnInv k) {t : Tid} {l : Sid} (hl : k.live l = true) {m : Mem} (hm : m.Fresh k) {noMem : Bool}
    (hs : Serves k m noMem t) {client : Sid} {rest : List Sid} (hback : (k.sock l).backlog = client :: rest) :
    ConnInv (sockAcceptDeliver k l t m noMem) ∧ ∃ (fd : Nat) (u : Tid),
      Served k (sockAcceptDeliver k l t m noMem) l client t fd ∧ ((sockAcceptDeliver k l t m noMem).task t).eax = fd ∧
      (sockAcceptDeliver k l t m noMem).history = k.history ++ [⟨u, .connect client, 0, []⟩] ∧
      ∀ x, k.live x = true → (sockAcceptDeliver k l t m noMem).live x = true := by
  have hpointers := h.pointers.sockAcceptDeliver hl hm t noMem
  have hclients := h.clients.deliver h.pointers hl hm hs hback
  obtain ⟨server, fd, hserver, hfd, rfl, hfresh, hls, hcs⟩ := h.pointers.serves hl hm hs hback
  have hserved := deliver_served hback hserver hfd hls hcs
  have hqueue := h.queues.paired hfresh l client rest m.garbage
  have hpend : update (fun x => (k.sock x).backlog) server [] l = client :: rest := by
    rw [update_of_ne hls]
    exact hback
  obtain ⟨w, ws, hw⟩ : ∃ w ws, ((paired k l client server rest m.garbage).sock l).waiters .connect = w :: ws := by
    have hmap := hqueue.inStep l ((paired_live l).mpr (.inr hl))
    rw [hpend] at hmap
    exact exists_cons_of_ne_nil fun hnil => by rw [hnil] at hmap; cases hmap
  have hwake := hqueue.wakeConnect (p := fun x => ((paired k l client server rest m.garbage).sock x).backlog)
    ((paired_live l).mpr (.inr hl)) hw fun x _ => by
      rw [paired_backlog]
      by_cases hx : x = server
      · rw [if_pos hx, hx, update_self, if_neg hls.symm]
      · rw [if_neg hx, update_of_ne hx]
        by_cases hxl : x = l
        · rw [if_pos hxl, if_pos hxl, hxl, hback]
          rfl
        · rw [if_neg hxl, if_neg hxl]
  obtain ⟨hwoken, c, hhead, hhist⟩ := hwake
  rw [hpend] at hhead
  cases hhead
  have hq := quiet_sockWakeOne (paired k l client server rest m.garbage) l .connect
  rw [deliver_eq hback hserver hfd] at hpointers hclients hserved ⊢
  refine ⟨⟨hpointers, hclients, ?_⟩, fd, w.task, hserved, ?_, hhist, fun x hx => ?_⟩
  · have hsame := sameWaits_modifyTask (sockWakeOne (paired k l client server rest m.garbage) l .connect) t
      (f := fun x => { x with eax := fd }) rfl rfl
    refine hwoken.frame ⟨hsame.waiters, hsame.blocked, hsame.inCall⟩ (fun _ hx => hx) (fun x _ => hq.backlog x)
      fun d hd _ => ?_
    rw [hq.fds] at hd
    exact mem_cons_of_mem _ hd
  · exact congrArg Task.eax (task_modifyTask_self _ t _)
  · show (sockWakeOne (paired k l client server rest m.garbage) l .connect).live x = true
    rw [hq.live]
    exact (paired_live x).mpr (.inr hx)

/-- A client that connects is served at once by the task that has waited longest in accept. -/
theorem served_connect (h : ConnInv k) {s l : Sid} (hs : k.live s = true) (hl : k.live l = true) {m : Mem}
    (hm : m.Fresh k) {noMem : Bool} {w : Waiter} {ws : List Waiter} (hw : (k.sock l).waiters .accept = w :: ws)
    (hserves : Serves k m noMem w.task) (hfree : k.made s = none ∨ (k.sock s).peer = none) {k₃ k₅ : Kernel}
    (hk₃ : k₃ = ((k.modify l fun x => { x with backlog := x.backlog ++ [s] }).setState s .connecting).setWaiters l .accept ws)
    (hk₅ : k₅ = taskUnblock (sockAcceptDeliver k₃ l w.task m noMem) w.task []) :
    ConnInv k₅ ∧ ∃ fd : Nat, Served k₃ k₅ l s w.task fd ∧ k₅.history = k.history ++ [⟨w.task, .accept l, fd, []⟩] ∧
      (k₃.sock l).backlog = (k.sock l).backlog ++ [s] ∧ ∀ x, k.live x = true → k₅.live x = true := by
  have hempty : (k.sock l).backlog = [] := h.queues.idle l hl (by rw [hw]; exact cons_ne_nil _ _)
  have hnone : (k.sock l).waiters .connect = [] := by
    have hmap := h.queues.inStep l hl
    rw [hempty] at hmap
    exact map_eq_nil_iff.mp hmap
  -- the queues before the client is served
  have hpush : PointerInv (k.modify l fun x => { x with backlog := x.backlog ++ [s] }) := by
    refine h.pointers.modify (h.pointers.peer l · hl) (fun c hc => ?_) rfl
    rcases mem_append.mp hc with hc | hc
    · exact h.pointers.backlog l hl c hc
    · rw [mem_singleton.mp hc]
      exact hs
  have hstate : SameRefs (k.modify l fun x => { x with backlog := x.backlog ++ [s] })
      ((k.modify l fun x => { x with backlog := x.backlog ++ [s] }).setState s .connecting) :=
    sameRefs_modify _ s rfl rfl rfl
  have hq₃ := quiet_setWaiters ((k.modify l fun x => { x with backlog := x.backlog ++ [s] }).setState s .connecting) l
    .accept ws
  have hback : ∀ x, (k₃.sock x).backlog = if x = l then [s] else (k.sock x).backlog := by
    intro x
    rw [hk₃, hq₃.backlog, hstate.backlog]
    by_cases hx : x = l
    · rw [if_pos hx, hx, sock_modify_self, hempty, nil_append]
    · rw [if_neg hx, sock_modify_of_ne _ _ hx]
  have hwaiters : ∀ s' q', (k₃.sock s').waiters q' = if s' = l ∧ q' = .accept then ws else (k.sock s').waiters q' := by
    intro s' q'
    have hsame := (sameWaits_modify k l (f := fun x => { x with backlog := x.backlog ++ [s] }) rfl).trans
      (sameWaits_modify _ s (f := fun x => { x with state := .connecting }) rfl)
    rw [hk₃, waiters_setWaiters, ← hsame.waiters s']
    rfl
  have hpointers₃ : PointerInv k₃ := by
    rw [hk₃]
    exact (hpush.setState s .connecting).quiet hq₃
  have hclients₃ : ClientInv k₃ := by
    have htype : ∀ x, (((k.modify l fun x => { x with backlog := x.backlog ++ [s] }).setState s .connecting).sock x).type =
        ((k.modify l fun x => { x with backlog := x.backlog ++ [s] }).sock x).type := sock_modify_field Sock.type rfl
    rw [hk₃]
    exact ((h.clients.push (l := l) hfree).frame htype (fun _ hx => hx) rfl hstate.peer fun x _ => by
      rw [hstate.backlog]; exact List.Subset.refl _).quiet hq₃
  have htask₃ : k₃.task = k.task := by rw [hk₃]; rfl
  have hlive₃ : k₃.live = k.live := by rw [hk₃]; rfl
  have hfds₃ : k₃.fds = k.fds := by rw [hk₃]; rfl
  have hhist₃ : k₃.history = k.history := by rw [hk₃]; rfl
  clear hk₃
  -- the client is served
  obtain ⟨hb, call, hcall, rfl⟩ := h.queues.waits.waits l .accept w (by rw [hw]; exact mem_cons_self)
  have hl₃ : k₃.live l = true := by rw [hlive₃]; exact hl
  have hm₃ : m.Fresh k₃ := fun x hx => by rw [hlive₃]; exact hm x hx
  have hserves₃ : Serves k₃ m noMem w.task := by
    obtain ⟨h1, h2, h3⟩ := hserves
    refine ⟨h1, h2, ?_⟩
    unfold allocFd sockFromFd at h3 ⊢
    rw [hfds₃]
    exact h3
  have hback₃ : (k₃.sock l).backlog = [s] := (hback l).trans (if_pos rfl)
  have hpointers := hpointers₃.sockAcceptDeliver hl₃ hm₃ w.task noMem
  have hclients := hclients₃.deliver hpointers₃ hl₃ hm₃ hserves₃ hback₃
  obtain ⟨server, fd, hserver, hfd, rfl, hfresh, hls, hcs⟩ := hpointers₃.serves hl₃ hm₃ hserves₃ hback₃
  have hserved := deliver_served hback₃ hserver hfd hls hcs
  have hq₅ := quiet_taskUnblock (sockAcceptDeliver k₃ l w.task m false) w.task []
  -- nobody waits in connect, so nobody is woken
  have hwake : sockWakeOne (paired k₃ l s server [] m.garbage) l .connect = paired k₃ l s server [] m.garbage := by
    have hnil : ((paired k₃ l s server [] m.garbage).sock l).waiters .connect = [] := by
      rw [paired_waiters, if_neg hls, hwaiters, if_neg fun h => nomatch h.2]
      exact hnone
    unfold sockWakeOne
    rw [hnil]
  have hk₄ := deliver_eq hback₃ hserver hfd
  rw [hwake] at hk₄
  have hself₄ : (sockAcceptDeliver k₃ l w.task m false).task w.task = { k₃.task w.task with eax := fd } := by
    rw [hk₄]
    exact task_modifyTask_self _ w.task _
  have hhist : k₅.history = k.history ++ [⟨w.task, .accept l, fd, []⟩] := by
    have hunblock := history_taskUnblock (k := sockAcceptDeliver k₃ l w.task m false) (t := w.task) []
      (c := (.accept l, l, .accept)) (by rw [hself₄, htask₃]; exact hb) (by rw [hself₄, htask₃]; exact hcall)
    have hhist₄ : (sockAcceptDeliver k₃ l w.task m false).history = k.history := by
      rw [hk₄, ← hhist₃]
      rfl
    rw [hk₅, hunblock, hself₄, hhist₄]
  -- the queues are those of the kernel whose first accepting task was woken beforehand
  have hself : (taskUnblock k₃ w.task []).task w.task = { k₃.task w.task with blocked := false, inCall := none } :=
    task_taskUnblock_self [] (by rw [htask₃]; exact hb)
  have hqA := quiet_taskUnblock k₃ w.task []
  have hwoken : QueueInv (taskUnblock k₃ w.task []) fun x => (k.sock x).backlog := by
    refine h.queues.pop hw (fun s' q' => ?_) ?_ (fun u hu => ?_) (hqA.live.trans hlive₃) (hqA.fds.trans hfds₃)
      fun x _ => (if_neg fun h => nomatch h.2).symm
    · rw [sock_taskUnblock]
      exact hwaiters s' q'
    · rw [hself]
    · rw [task_taskUnblock_of_ne _ _ hu, htask₃]
      exact ⟨rfl, rfl⟩
  have hfreshA : (taskUnblock k₃ w.task []).live server = false := by
    rw [hqA.live]
    exact hfresh
  have hpaired := hwoken.paired hfreshA l s [] m.garbage
  have hsock₅ : k₅.sock = (paired k₃ l s server [] m.garbage).sock := by
    rw [hk₅, sock_taskUnblock, hk₄]
    rfl
  have hlive₅ : ∀ x, k₅.live x = true ↔ x = server ∨ k.live x = true := by
    intro x
    rw [hk₅, hq₅.live, hk₄, ← hlive₃]
    show (paired k₃ l s server [] m.garbage).live x = true ↔ _
    exact paired_live x
  have hqueues : QueueInv k₅ fun x => (k₅.sock x).backlog := by
    refine hpaired.frame ⟨fun x => ?_, fun u => ?_, fun u => ?_⟩ (fun x hx => ?_) (fun x hx => ?_) fun d hd _ => ?_
    · rw [hsock₅, paired_waiters, paired_waiters, sock_taskUnblock]
    · show (k₅.task u).blocked = ((taskUnblock k₃ w.task []).task u).blocked
      by_cases hu : u = w.task
      · rw [hu, hself, hk₅, task_taskUnblock_self [] (by rw [hself₄, htask₃]; exact hb)]
      · rw [hk₅, task_taskUnblock_of_ne _ _ hu, task_taskUnblock_of_ne _ _ hu, hk₄]
        exact congrArg Task.blocked (task_modifyTask_of_ne _ _ hu)
    · show (k₅.task u).inCall = ((taskUnblock k₃ w.task []).task u).inCall
      by_cases hu : u = w.task
      · rw [hu, hself, hk₅, task_taskUnblock_self [] (by rw [hself₄, htask₃]; exact hb)]
      · rw [hk₅, task_taskUnblock_of_ne _ _ hu, task_taskUnblock_of_ne _ _ hu, hk₄]
        exact congrArg Task.inCall (task_modifyTask_of_ne _ _ hu)
    · rw [paired_live, hqA.live, hlive₃]
      exact (hlive₅ x).mp hx
    · rw [hsock₅, paired_backlog]
      by_cases hxs : x = server
      · rw [if_pos hxs, hxs, update_self]
      · rw [if_neg hxs, update_of_ne hxs, hback]
        by_cases hxl : x = l
        · rw [if_pos hxl, hxl, hempty]
        · rw [if_neg hxl, if_neg hxl]
    · have hd' : d ∈ (taskUnblock k₃ w.task []).fds := hd
      rw [hqA.fds] at hd'
      rw [hk₅, hq₅.fds, hk₄]
      exact mem_cons_of_mem _ hd'
  refine ⟨⟨?_, ?_, hqueues⟩, fd, ?_, hhist, ?_, fun x hx => (hlive₅ x).mpr (.inr hx)⟩
  · rw [hk₅]
    exact hpointers.quiet hq₅
  · rw [hk₅]
    exact hclients.quiet hq₅
  · rw [hk₅]
    exact hserved.congr hq₅
  · rw [hback₃, hempty]
    rfl

theorem sysSocket (h : ConnInv k) {m : Mem} (hm : m.Fresh k) (t : Tid) (domain : Nat) {type : Option SockType}
    (htype : type ≠ some .dgram) (noMem : Bool) : ConnInv (sysSocket k t domain type m noMem).2 ∧
      Honest k (Socket.sysSocket k t domain type m noMem).2 [] [] := by
  have hpointers := h.pointers.sysSocket hm t domain type noMem
  have hsame : Honest k k [] [] := .kept [] rfl fun _ hl => hl
  unfold Socket.sysSocket at hpointers ⊢
  by_cases hdomain : domain ≠ afUnix
  · rw [if_pos hdomain]
    exact ⟨h, hsame⟩
  rw [if_neg hdomain] at hpointers ⊢
  cases type with
  | none => exact ⟨h, hsame⟩
  | some type =>
    dsimp only at hpointers ⊢
    cases ha : sockAlloc k m type with
    | none => exact ⟨h, hsame⟩
    | some p =>
      obtain ⟨s, k₁⟩ := p
      have halloc := sockAlloc_allocated hm ha
      obtain ⟨-, rfl⟩ := sockAlloc_some ha
      have hstream : type = .stream := by
        cases type with
        | stream => rfl
        | dgram => exact absurd rfl htype
      subst hstream
      have hlive : ∀ l, k.live l = true → l ≠ s := by
        intro l hl he
        rw [he, halloc.fresh] at hl
        cases hl
      have hclients := h.clients.alloc h.pointers halloc (update_self ..) fun x hx => update_of_ne hx ..
      have hqueues := h.queues.alloc halloc
      have hback : ∀ x, (update k.sock s (newSock .stream m.garbage) x).backlog =
          update (fun l => (k.sock l).backlog) s [] x := by
        intro x
        by_cases hx : x = s
        · rw [hx, update_self, update_self]
          rfl
        · rw [update_of_ne hx, update_of_ne hx]
      rw [ha] at hpointers
      dsimp only at hpointers ⊢
      obtain ⟨hneg, hk⟩ | ⟨fd, -, -, he⟩ := sockMakeFdFor_cases { k with
        sock := update k.sock s (newSock .stream m.garbage)
        live := update k.live s true
        made := update k.made s none } s t noMem
      · rw [if_pos hneg, hk] at hpointers ⊢
        have hfreed : ∀ x, (Kernel.free { k with
            sock := update k.sock s (newSock .stream m.garbage)
            live := update k.live s true
            made := update k.made s none } s).live x = true → update k.live s true x = true :=
          fun x hx => ((live_free _ s x).mp hx).2
        refine ⟨⟨hpointers, hclients.frame (fun _ => rfl) hfreed rfl (fun _ => rfl) fun _ _ => List.Subset.refl _,
          hqueues.frame ⟨fun _ => rfl, fun _ => rfl, fun _ => rfl⟩ hfreed (fun x _ => hback x) fun _ hd _ => hd⟩, .kept [] rfl fun l hl => ?_⟩
        exact (live_free _ s l).mpr ⟨hlive l hl, (update_of_ne (hlive l hl) ..).trans hl⟩
      · rw [he, if_neg (Int.not_lt.mpr (Int.natCast_nonneg fd))] at hpointers ⊢
        refine ⟨⟨hpointers, hclients.frame (fun _ => rfl) (fun _ hx => hx) rfl (fun _ => rfl) fun _ _ => List.Subset.refl _,
          hqueues.frame ⟨fun _ => rfl, fun _ => rfl, fun _ => rfl⟩ (fun _ hx => hx) (fun x _ => hback x) fun _ hd _ => mem_cons_of_mem _ hd⟩,
          .kept [] rfl fun l hl => ?_⟩
        exact (update_of_ne (hlive l hl) ..).trans hl

/-- The name, the state or the bounds of a socket change. -/
theorem modify (h : ConnInv k) {s : Sid} {f : Sock → Sock} (hp : PointerInv k')
    (hk : k' = { k.modify s f with bound := k'.bound }) (hw : (f (k.sock s)).waiters = (k.sock s).waiters)
    (ht : (f (k.sock s)).type = (k.sock s).type) (hpeer : (f (k.sock s)).peer = (k.sock s).peer)
    (hb : (f (k.sock s)).backlog = (k.sock s).backlog) : ConnInv k' ∧ Honest k k' [] [] := by
  have hfield : ∀ {β : Type} (g : Sock → β), g (f (k.sock s)) = g (k.sock s) → ∀ x, g (k'.sock x) = g (k.sock x) := by
    intro β g hg x
    rw [hk]
    exact sock_modify_field g hg x
  refine ⟨h.same hp ⟨hfield _ hw, fun u => by rw [hk]; rfl, fun u => by rw [hk]; rfl⟩ (hfield _ ht) (by rw [hk]; rfl)
    (by rw [hk]; rfl) (hfield _ hpeer) (hfield _ hb) fun d hd => by rw [hk]; exact hd,
    .kept [] (by rw [hk]; rfl) fun l hl => by rw [hk]; exact hl⟩

theorem unchanged (h : ConnInv k) : ConnInv k ∧ Honest k k [] [] :=
  ⟨h, .kept [] rfl fun _ hl => hl⟩

theorem sysBind (h : ConnInv k) (t : Tid) (fd : Nat) (addr : Addr) :
    ConnInv (sysBind k t fd addr).2 ∧ Honest k (Socket.sysBind k t fd addr).2 [] [] := by
  have hpointers := h.pointers.sysBind t fd addr
  unfold Socket.sysBind at hpointers ⊢
  cases hs : sockFromFd k t fd with
  | none => exact h.unchanged
  | some s =>
    rw [hs] at hpointers
    dsimp only at hpointers ⊢
    by_cases hbound : (k.sock s).bound = true
    · rw [if_pos hbound]
      exact h.unchanged
    rw [if_neg hbound] at hpointers ⊢
    cases addr with
    | none => exact h.unchanged
    | some a =>
      obtain ⟨family, path⟩ := a
      dsimp only at hpointers ⊢
      by_cases hfamily : family ≠ afUnix
      · rw [if_pos hfamily]
        exact h.unchanged
      rw [if_neg hfamily] at hpointers ⊢
      by_cases hused : (unixSocketLookup k path).isSome = true
      · rw [if_pos hused]
        exact h.unchanged
      rw [if_neg hused] at hpointers ⊢
      by_cases hfull : maxBoundSockets ≤ (k.modify s fun x => { x with
          path := path, bound := true, state := .bound }).bound.length
      · rw [if_pos hfull] at hpointers ⊢
        refine h.modify (s := s) (f := fun x => { x with path := path, bound := false, state := .unconnected }) hpointers
          ?_ rfl rfl rfl rfl
        unfold Kernel.modify
        dsimp only
        rw [update_self, update_idem]
      · rw [if_neg hfull] at hpointers ⊢
        exact h.modify (s := s) (f := fun x => { x with path := path, bound := true, state := .bound }) hpointers
          rfl rfl rfl rfl rfl

theorem sysListen (h : ConnInv k) (t : Tid) (fd backlog : Nat) :
    ConnInv (sysListen k t fd backlog).2 ∧ Honest k (Socket.sysListen k t fd backlog).2 [] [] := by
  have hpointers := h.pointers.sysListen t fd backlog
  unfold Socket.sysListen at hpointers ⊢
  cases hs : sockFromFd k t fd with
  | none => exact h.unchanged
  | some s =>
    rw [hs] at hpointers
    dsimp only at hpointers ⊢
    by_cases htype : (k.sock s).type ≠ .stream
    · rw [if_pos htype]
      exact h.unchanged
    rw [if_neg htype] at hpointers ⊢
    by_cases hbound : !(k.sock s).bound
    · rw [if_pos hbound]
      exact h.unchanged
    rw [if_neg hbound] at hpointers ⊢
    exact h.modify (s := s) (f := fun x => { x with
      backlogMax := if min backlog sockBacklogMax = 0 then 1 else min backlog sockBacklogMax
      state := .listening }) hpointers rfl rfl rfl rfl rfl

theorem share {t t' : Tid} {fd fd' : Nat} (h : ConnInv k) (hk : Socket.share k t fd t' fd' = some k') :
    ConnInv k' ∧ Honest k k' [] [] := by
  have hpointers := h.pointers.share hk
  unfold Socket.share at hk
  cases hs : sockFromFd k t fd with
  | none =>
    rw [hs] at hk
    cases hk
  | some s =>
    rw [hs] at hk
    obtain ⟨-, hk⟩ := ite_none_left_eq_some.mp hk
    cases hk
    exact ⟨h.same hpointers ⟨fun _ => rfl, fun _ => rfl, fun _ => rfl⟩ (fun _ => rfl) rfl rfl (fun _ => rfl)
      (fun _ => rfl) fun _ hd => mem_cons_of_mem _ hd, .kept [] rfl fun _ hl => hl⟩

/-- Of a socket without descriptors nobody is in a call, nor is any other socket read or written. -/
theorem queues_empty {pend : Sid → List Sid} {s : Sid} (h : QueueInv k pend) (hl : k.live s = true) (hp : pend s = [])
    (hfd : ∀ d ∈ k.fds, d.sock ≠ s) : (∀ q, (k.sock s).waiters q = []) ∧
      ∀ x, (k.sock x).waiters .read = [] ∧ (k.sock x).waiters .write = [] := by
  have hio : ∀ x q, q ≠ .accept → q ≠ .connect → (k.sock x).waiters q = [] := by
    intro x q h1 h2
    refine eq_nil_iff_forall_not_mem.mpr fun w hw => ?_
    obtain ⟨-, c, hc, -⟩ := h.waits.waits x q w hw
    exact (h.holds w.task c x q hc).1.elim h1 h2
  refine ⟨fun q => ?_, fun x => ⟨hio x .read (by decide) (by decide), hio x .write (by decide) (by decide)⟩⟩
  cases q with
  | read => exact hio s .read (by decide) (by decide)
  | write => exact hio s .write (by decide) (by decide)
  | accept =>
    refine eq_nil_iff_forall_not_mem.mpr fun w hw => ?_
    obtain ⟨-, c, hc, rfl⟩ := h.waits.waits s .accept w hw
    obtain ⟨-, d, hd, -, hsock⟩ := h.holds w.task _ s .accept hc
    exact hfd d hd hsock
  | connect =>
    have hmap := h.inStep s hl
    rw [hp] at hmap
    exact map_eq_nil_iff.mp hmap

end ConnInv

theorem sockWakeAll_empty {k : Kernel} {s : Sid} {q : Queue} (hq : (k.sock s).waiters q = []) : sockWakeAll k s q = k := by
  rw [sockWakeAll_nil hq, setWaiters_same hq]

/-- Nobody waits, and so nobody is woken. -/
theorem close_quiet {k : Kernel} {s : Sid} (hs : ∀ q, (k.sock s).waiters q = [])
    (hio : ∀ x, (k.sock x).waiters .read = [] ∧ (k.sock x).waiters .write = []) :
    SameWaits k (taskIpcUnixSocketClose k s) ∧ (taskIpcUnixSocketClose k s).history = k.history ∧
      (taskIpcUnixSocketClose k s).made = k.made ∧
      ∀ x, ((taskIpcUnixSocketClose k s).sock x).type = (k.sock x).type := by
  have hclosed : SameWaits k (k.setState s .closed) := sameWaits_modify k s rfl
  have hempty : ∀ q, ((k.setState s .closed).sock s).waiters q = [] := fun q =>
    (congrFun (hclosed.waiters s) q).trans (hs q)
  have htype : ∀ x, ((k.setState s .closed).sock x).type = (k.sock x).type := sock_modify_field Sock.type rfl
  have hwakes : sockWakeAll (sockWakeAll (sockWakeAll (sockWakeAll (k.setState s .closed) s .read) s .write) s .accept) s
      .connect = k.setState s .closed := by
    rw [sockWakeAll_empty (hempty .read), sockWakeAll_empty (hempty .write), sockWakeAll_empty (hempty .accept),
      sockWakeAll_empty (hempty .connect)]
  -- the peer loses its peer, and nothing else
  have hpeer : ∃ l, clearPeer (k.setState s .closed) s = l ∧ SameWaits (k.setState s .closed) l ∧
      l.history = k.history ∧ l.made = k.made ∧ ∀ x, (l.sock x).type = ((k.setState s .closed).sock x).type := by
    refine ⟨_, rfl, ?_⟩
    unfold clearPeer
    split
    · exact ⟨SameWaits.refl _, rfl, rfl, fun _ => rfl⟩
    · rename_i p _
      obtain ⟨l, hl, hsame, hhist, hmade, htype'⟩ : ∃ l, (if ((k.setState s .closed).sock p).peer = some s then
          (k.setState s .closed).setPeer p none else k.setState s .closed) = l ∧ SameWaits (k.setState s .closed) l ∧
          l.history = k.history ∧ l.made = k.made ∧
          ∀ x, (l.sock x).type = ((k.setState s .closed).sock x).type := by
        refine ⟨_, rfl, ?_⟩
        split
        · exact ⟨sameWaits_modify _ p rfl, rfl, rfl, setPeer_field Sock.type (fun _ _ => rfl) _ p none⟩
        · exact ⟨SameWaits.refl _, rfl, rfl, fun _ => rfl⟩
      have hp : ∀ q, q = .read ∨ q = .write → (l.sock p).waiters q = [] := by
        intro q hq
        rw [hsame.waiters, hclosed.waiters]
        rcases hq with rfl | rfl
        · exact (hio p).1
        · exact (hio p).2
      rw [hl, sockWakeAll_empty (hp .read (.inl rfl)), sockWakeAll_empty (hp .write (.inr rfl))]
      exact ⟨hsame.trans (sameWaits_modify l s rfl), hhist, hmade, fun x =>
        (setPeer_field Sock.type (fun _ _ => rfl) l s none x).trans (htype' x)⟩
  obtain ⟨l, hl, hsame, hhist, hmade, htype'⟩ := hpeer
  have hfinal : taskIpcUnixSocketClose k s = (if (l.sock s).bound then
      { l with bound := unixSocketUnregister l.bound s } else l).free s := by
    rw [← hl, ← hwakes]
    rfl
  have hall := hclosed.trans hsame
  rw [hfinal]
  split
  · exact ⟨⟨hall.waiters, hall.blocked, hall.inCall⟩, hhist, hmade, fun x => (htype' x).trans (htype x)⟩
  · exact ⟨⟨hall.waiters, hall.blocked, hall.inCall⟩, hhist, hmade, fun x => (htype' x).trans (htype x)⟩

/-- No socket has it as peer but its own. -/
def OnlyPeer (k : Kernel) (s : Sid) : Prop :=
  ∀ s', k.live s' = true → s' ≠ s → (k.sock s').peer = some s → (k.sock s).peer = some s'

namespace ConnInv

variable {k k' : Kernel}

/-- The task of a pending client has a descriptor of it. -/
theorem not_pending (h : ConnInv k) {d : Fd} (hd : d ∈ k.fds) (ht : (k.task d.task).blocked = false)
    (hone : k.refcount d.sock = 1) {l : Sid} (hl : k.live l = true) : d.sock ∉ (k.sock l).backlog := by
  intro hmem
  have hcall : some (Call.connect d.sock, l, Queue.connect) ∈
      ((k.sock l).waiters .connect).map (fun w => (k.task w.task).inCall) := by
    rw [h.queues.inStep l hl]
    exact mem_map_of_mem (f := fun c => some (Call.connect c, l, Queue.connect)) hmem
  obtain ⟨w, -, hw⟩ := mem_map.mp hcall
  obtain ⟨-, e, he, het, hes⟩ := h.queues.holds w.task _ _ _ hw
  have hne : e ≠ d := by
    rintro rfl
    rw [← het, h.queues.asleep e.task ht] at hw
    cases hw
  have hpos := count_pos ((mem_erase_of_ne hne).mpr he)
  have hcount := count_erase hd d.sock
  have hes' : e.sock = d.sock := hes
  rw [if_pos rfl] at hcount
  rw [hes'] at hpos
  have href := h.pointers.refs d hd
  omega

theorem closeFd {t : Tid} {fd : Nat} (h : ConnInv k) (ht : (k.task t).blocked = false)
    (hg : ∀ s, sockFromFd k t fd = some s → k.refcount s = 1 → (k.sock s).backlog = [] ∧ OnlyPeer k s)
    (hc : Socket.closeFd k t fd = some k') : ConnInv k' ∧ Honest k k' [] [] := by
  obtain ⟨d, hfind, hk⟩ := map_eq_some_iff.mp hc
  have hd : d ∈ k.fds := mem_of_find?_eq_some hfind
  have htask : d.task = t := by
    have hp := List.find?_some hfind
    simp only [decide_eq_true_eq] at hp
    exact hp.1
  have hfrom : sockFromFd k t fd = some d.sock := congrArg (Option.map Fd.sock) hfind
  subst htask
  have hpointers := h.pointers.closeFd (fun s hs hone => by
    rw [hfrom] at hs
    cases hs
    exact fun s' hl hne => ⟨h.not_pending hd ht hone hl, (hg d.sock hfrom hone).2 s' hl hne⟩) hc
  have hqueues : QueueInv { k with
      fds := k.fds.erase d
      refcount := update k.refcount d.sock (k.refcount d.sock - 1) } fun l => (k.sock l).backlog := by
    refine h.queues.frame ⟨fun _ => rfl, fun _ => rfl, fun _ => rfl⟩ (fun _ hl => hl) (fun _ _ => rfl) fun e he hcall => ?_
    refine (mem_erase_of_ne ?_).mpr he
    rintro rfl
    exact hcall (h.queues.asleep e.task ht)
  have hclients : ClientInv { k with
      fds := k.fds.erase d
      refcount := update k.refcount d.sock (k.refcount d.sock - 1) } :=
    h.clients.frame (fun _ => rfl) (fun _ hl => hl) rfl (fun _ => rfl) fun _ _ => List.Subset.refl _
  dsimp only at hk
  split at hk
  · -- the last descriptor
    rename_i hzero
    rw [update_self] at hzero
    have hcount := count_erase hd d.sock
    have href := h.pointers.refs d hd
    rw [if_pos rfl] at hcount
    have hone : k.refcount d.sock = 1 := by omega
    obtain ⟨hempty, -⟩ := hg d.sock hfrom hone
    obtain ⟨hs, hio⟩ := queues_empty hqueues (s := d.sock) (h.pointers.fd d hd) hempty fun e he hes => by
      have hsome : 0 < count (k.fds.erase d) e.sock := count_pos he
      rw [hes] at hsome
      omega
    have hclosed := close_closed { k with
      fds := k.fds.erase d
      refcount := update k.refcount d.sock (k.refcount d.sock - 1) } d.sock
    obtain ⟨hsame, hhist, hmade, htype⟩ := close_quiet hs hio
    rw [hk] at hclosed hsame hhist hmade htype
    refine ⟨⟨hpointers, hclients.closed hclosed hmade htype, hqueues.frame hsame (fun l hl => ((hclosed.live l).mp hl).2)
      (fun l _ => hclosed.backlog l) fun e he _ => by rw [hclosed.fds]; exact he⟩, .nothing [] hhist fun l hl hl' => ?_⟩
    by_cases hls : l = d.sock
    · rw [hls]
      exact hempty
    · have hlive := (hclosed.live l).mpr ⟨hls, hl⟩
      rw [hl'] at hlive
      cases hlive
  · subst hk
    exact ⟨⟨hpointers, hclients, hqueues⟩, .kept [] rfl fun _ hl => hl⟩

theorem errored (h : ConnInv k) (clients : List Sid) (t : Tid) (call : Call) {v : Int} (hv : v < 0) :
    ∃ es, ConnInv { k with history := k.history ++ [⟨t, call, v, []⟩] } ∧
      Honest k { k with history := k.history ++ [⟨t, call, v, []⟩] } clients es :=
  ⟨_, h.noted _, .error clients t call hv⟩

theorem sysAccept {t : Tid} {fd : Nat} {l : Sid} (h : ConnInv k) (ht : (k.task t).blocked = false)
    (hs : sockFromFd k t fd = some l) {m : Mem} (hm : m.Fresh k) {noMem : Bool}
    (hg : (k.sock l).state = .listening → (k.sock l).backlog ≠ [] → Serves k m noMem t) (noWaiter : Bool) :
    ∃ es, ConnInv (finish t (.accept l) (sysAccept k t fd m noMem noWaiter)) ∧
      Honest k (finish t (.accept l) (Socket.sysAccept k t fd m noMem noWaiter)) [] es := by
  have hl := h.pointers.fd_live hs
  obtain ⟨d, hfind, hds, hd⟩ := sockFromFd_some hs
  have hdt : d.task = t := by
    have hp := List.find?_some hfind
    simp only [decide_eq_true_eq] at hp
    exact hp.1
  unfold Socket.sysAccept
  rw [hs]
  dsimp only
  split
  · exact h.errored [] t (.accept l) (v := -einval) (by decide)
  rename_i hlisten
  split
  · -- the task sleeps until a client comes
    rename_i hzero
    have hempty : (k.sock l).backlog = [] := eq_nil_of_length_eq_zero hzero
    split
    · have hq := quiet_sleepOnly k t l .accept (.accept l)
      exact ⟨[], h.quiet hq (h.queues.sleepAccept ht ⟨d, hd, hdt, hds⟩ hempty) fun x _ => hq.backlog x,
        .kept [] rfl fun _ hx => hx⟩
    · have hq := quiet_waitOn k l .accept ⟨t, 0, 0⟩ (.accept l)
      have hqueues := h.queues.waitOn (p := fun x => (k.sock x).backlog) ht (q := .accept) (s := l) (c := .accept l) rfl
        ⟨.inl rfl, d, hd, hdt, hds⟩ (fun x _ => (if_neg fun h => nomatch h.2).symm) (fun h => nomatch h) fun _ => hempty
      exact ⟨[], h.quiet hq hqueues fun x _ => hq.backlog x, .kept [] rfl fun _ hx => hx⟩
  · rename_i hzero
    obtain ⟨client, rest, hback⟩ := exists_cons_of_ne_nil fun hnil => hzero (length_eq_zero_iff.mpr hnil)
    have hserves := hg (not_not.mp hlisten) (by rw [hback]; exact cons_ne_nil _ _)
    obtain ⟨hinv, n, u, hserved, heax, hhist, hlive⟩ := h.served_accept hl hm hserves hback
    generalize sockAcceptDeliver k l t m noMem = k₁ at hinv hserved heax hhist hlive
    rw [heax]
    refine ⟨[⟨u, .connect client, 0, []⟩, ⟨t, .accept l, n, []⟩], hinv.noted _, ⟨?_, fun e he c hcall => ?_,
      fun e he l' hcall => ?_, fun x hx hx' => ?_⟩⟩
    · rw [finish_history, hhist, append_assoc]
      rfl
    · rcases mem_cons.mp he with rfl | he
      · cases hcall
        exact .inl ⟨rfl, hserved.connected⟩
      · rw [mem_singleton.mp he] at hcall
        cases hcall
    · rcases mem_cons.mp he with rfl | he
      · cases hcall
      · rw [mem_singleton.mp he] at hcall ⊢
        cases hcall
        refine .inl ⟨client, n, rfl, hserved.pair, ?_⟩
        rw [append_nil]
        exact hserved.backlog
    · have hx'' : k₁.live x = false := hx'
      rw [hlive x hx] at hx''
      cases hx''

end ConnInv

/-- The listener takes the client into its backlog. -/
def Takes (k : Kernel) (l : Sid) : Prop :=
  (k.sock l).state = .listening ∧ (k.sock l).backlog.length < (k.sock l).backlogMax

/-- Connect puts the socket into the backlog of `l`. -/
def Joins (k : Kernel) (s : Sid) (addr : Addr) (l : Sid) : Prop :=
  (k.sock s).state ≠ .connected ∧ ∃ path, addr = some (afUnix, path) ∧ unixSocketLookup k path = some l ∧ Takes k l

/-- A socket that is connected calls connect again only if it still has its peer, and was not
made by accept itself; one that was made by accept has lost its peer before it connects
elsewhere. A task that waits in accept can be served, and if none waits, the client can. -/
structure ConnectGuard (k : Kernel) (s : Sid) (addr : Addr) (m : Mem) (noMem noWaiter : Bool) : Prop where
  again : (k.sock s).state = .connected → k.made s = none ∧ (k.sock s).peer ≠ none
  free : ∀ l, Joins k s addr l → k.made s = none ∨ (k.sock s).peer = none
  served : ∀ l, Joins k s addr l → ∀ w ∈ ((k.sock l).waiters .accept).head?, Serves k m noMem w.task
  waits : ∀ l, Joins k s addr l → (k.sock l).waiters .accept = [] → noWaiter = false

namespace ConnInv

variable {k k' : Kernel}

theorem connectStream {t : Tid} {fd : Nat} {s l : Sid} (h : ConnInv k) (ht : (k.task t).blocked = false)
    (hs : sockFromFd k t fd = some s) (hl : k.live l = true) {m : Mem} (hm : m.Fresh k) {noMem noWaiter : Bool}
    (hfree : Takes k l → k.made s = none ∨ (k.sock s).peer = none)
    (hserves : Takes k l → ∀ w ∈ ((k.sock l).waiters .accept).head?, Serves k m noMem w.task)
    (hwaits : Takes k l → (k.sock l).waiters .accept = [] → noWaiter = false) :
    ∃ es, ConnInv (finish t (.connect s) (connectStream k t s l m noMem noWaiter)) ∧
      Honest k (finish t (.connect s) (Socket.connectStream k t s l m noMem noWaiter)) [s] es := by
  have hlive := h.pointers.fd_live hs
  have hpointers := (h.pointers.connectStream hlive hl hm t noMem noWaiter).finish t (.connect s)
  unfold Socket.connectStream at hpointers ⊢
  by_cases hlisten : (k.sock l).state ≠ .listening
  · rw [if_pos hlisten]
    exact h.errored [s] t (.connect s) (v := -econnrefused) (by decide)
  rw [if_neg hlisten] at hpointers ⊢
  by_cases hfull : (k.sock l).backlogMax ≤ (k.sock l).backlog.length
  · rw [if_pos hfull]
    exact h.errored [s] t (.connect s) (v := -econnrefused) (by decide)
  rw [if_neg hfull] at hpointers ⊢
  have htakes : Takes k l := ⟨not_not.mp hlisten, Nat.lt_of_not_le hfull⟩
  have hsame : SameWaits k ((k.modify l fun x => { x with backlog := x.backlog ++ [s] }).setState s .connecting) :=
    (sameWaits_modify k l rfl).trans (sameWaits_modify _ s rfl)
  have haccept : (((k.modify l fun x => { x with backlog := x.backlog ++ [s] }).setState s .connecting).sock l).waiters
      .accept = (k.sock l).waiters .accept := congrFun (hsame.waiters l) .accept
  cases hw : (k.sock l).waiters .accept with
  | cons w ws =>
    -- a task waits in accept
    rw [hw] at haccept hserves
    dsimp only at hpointers ⊢
    rw [haccept]
    dsimp only
    obtain ⟨hinv, n, hserved, hhist, hback, hkept⟩ := h.served_connect hlive hl hm hw (hserves htakes w rfl) (hfree htakes) rfl rfl
    generalize taskUnblock (sockAcceptDeliver (((k.modify l fun x => { x with backlog := x.backlog ++ [s] }).setState s
      .connecting).setWaiters l .accept ws) l w.task m noMem) w.task [] = k₅ at hinv hserved hhist hback hkept
    refine ⟨[⟨w.task, .accept l, n, []⟩, ⟨t, .connect s, 0, []⟩], hinv.noted _, ⟨?_, fun e he c hcall => ?_,
      fun e he l' hcall => ?_, fun x hx hx' => ?_⟩⟩
    · rw [finish_history, hhist, append_assoc]
      rfl
    · rcases mem_cons.mp he with rfl | he
      · cases hcall
      · rw [mem_singleton.mp he] at hcall ⊢
        cases hcall
        exact .inl ⟨rfl, hserved.connected⟩
    · rcases mem_cons.mp he with rfl | he
      · cases hcall
        refine .inl ⟨s, n, rfl, hserved.pair, ?_⟩
        rw [← hback]
        exact hserved.backlog
      · rw [mem_singleton.mp he] at hcall
        cases hcall
    · have hx'' : k₅.live x = false := hx'
      rw [hkept x hx] at hx''
      cases hx''
  | nil =>
    -- the client waits to be accepted
    rw [hw] at haccept
    dsimp only at hpointers ⊢
    rw [haccept] at hpointers ⊢
    dsimp only at hpointers ⊢
    rw [hwaits htakes hw] at hpointers ⊢
    rw [if_neg (by decide)] at hpointers ⊢
    generalize hk₂ : (k.modify l fun x => { x with backlog := x.backlog ++ [s] }).setState s .connecting = k₂
      at hpointers hsame haccept ⊢
    have hq := quiet_waitOn k₂ l .connect ⟨t, 0, 0⟩ (.connect s)
    have hstate : SameRefs (k.modify l fun x => { x with backlog := x.backlog ++ [s] }) k₂ := by
      rw [← hk₂]
      exact sameRefs_modify _ s rfl rfl rfl
    have hback : ∀ x, (k₂.sock x).backlog = if x = l then (k.sock x).backlog ++ [s] else (k.sock x).backlog := by
      intro x
      rw [hstate.backlog]
      by_cases hx : x = l
      · rw [if_pos hx, hx, sock_modify_self]
      · rw [if_neg hx, sock_modify_of_ne _ _ hx]
    have htype : ∀ x, (k₂.sock x).type = ((k.modify l fun x => { x with backlog := x.backlog ++ [s] }).sock x).type := by
      intro x
      rw [← hk₂]
      exact sock_modify_field Sock.type rfl x
    have hlive₂ : k₂.live = k.live := by rw [← hk₂]; rfl
    have hfds₂ : k₂.fds = k.fds := by rw [← hk₂]; rfl
    have hhist₂ : k₂.history = k.history := by rw [← hk₂]; rfl
    have hmade₂ : k₂.made = k.made := by rw [← hk₂]; rfl
    have hqueues₂ : QueueInv k₂ fun x => (k.sock x).backlog :=
      h.queues.frame hsame (fun x hx => hlive₂ ▸ hx) (fun _ _ => rfl) fun d hd _ => by rw [hfds₂]; exact hd
    obtain ⟨d, hfind, hds, hd⟩ := sockFromFd_some hs
    have hdt : d.task = t := by
      have hp := List.find?_some hfind
      simp only [decide_eq_true_eq] at hp
      exact hp.1
    have hqueues := hqueues₂.waitOn (p := fun x => ((waitOn k₂ l .connect ⟨t, 0, 0⟩ (.connect s)).sock x).backlog)
      (t := t) (s := l) (q := .connect) (c := .connect s) (by rw [hsame.blocked]; exact ht) ⟨s, rfl⟩
      ⟨.inr rfl, d, by rw [hfds₂]; exact hd, hdt, hds⟩ (fun x _ => by
        rw [hq.backlog, hback]
        by_cases hx : x = l
        · rw [if_pos hx, if_pos ⟨hx, rfl⟩]
          rfl
        · rw [if_neg hx, if_neg fun h => hx h.1]) (fun _ => rfl) fun _ => haccept
    refine ⟨[], ⟨hpointers, ?_, hqueues⟩, .kept [s] hhist₂ fun x hx => ?_⟩
    · exact ((h.clients.push (l := l) (hfree htakes)).frame htype (fun x hx => hlive₂ ▸ hx) hmade₂ hstate.peer fun x _ => by
        rw [hstate.backlog]; exact List.Subset.refl _).quiet hq
    · show k₂.live x = true
      rw [hlive₂]
      exact hx

theorem sysConnect {t : Tid} {fd : Nat} {s : Sid} (h : ConnInv k) (ht : (k.task t).blocked = false)
    (hs : sockFromFd k t fd = some s) {addr : Addr} {m : Mem} (hm : m.Fresh k) {noMem noWaiter : Bool}
    (hg : ConnectGuard k s addr m noMem noWaiter) :
    ∃ es, ConnInv (finish t (.connect s) (sysConnect k t fd addr m noMem noWaiter)) ∧
      Honest k (finish t (.connect s) (Socket.sysConnect k t fd addr m noMem noWaiter)) [s] es := by
  have hlive := h.pointers.fd_live hs
  unfold Socket.sysConnect
  rw [hs]
  dsimp only
  split
  · -- the socket is connected already
    rename_i hstate
    obtain ⟨hmade, hpeer⟩ := hg.again hstate
    obtain ⟨p, hp⟩ := ne_none_iff_exists'.mp hpeer
    have hconnected : ConnectedTo k s := ⟨hstate, p, hp, h.pointers.peer s p hlive hp, (h.clients.peer s p hlive hmade hp).1⟩
    refine ⟨[⟨t, .connect s, 0, []⟩], h.noted _, ⟨rfl, fun e he c hcall => ?_, fun e he l hcall => ?_, fun x hx hx' => ?_⟩⟩
    · rw [mem_singleton.mp he] at hcall ⊢
      cases hcall
      exact .inl ⟨rfl, hconnected⟩
    · rw [mem_singleton.mp he] at hcall
      cases hcall
    · have hx'' : k.live x = false := hx'
      rw [hx] at hx''
      cases hx''
  rename_i hstate
  cases addr with
  | none => exact h.errored [s] t (.connect s) (v := -efault) (by decide)
  | some a =>
    obtain ⟨family, path⟩ := a
    dsimp only
    split
    · exact h.errored [s] t (.connect s) (v := -eafnosupport) (by decide)
    rename_i hfamily
    have hunix : family = afUnix := not_not.mp hfamily
    subst hunix
    cases hl : unixSocketLookup k path with
    | none => exact h.errored [s] t (.connect s) (v := -econnrefused) (by decide)
    | some l =>
      dsimp only
      rw [h.clients.stream s hlive]
      have hjoins : Takes k l → Joins k s (some (afUnix, path)) l := fun htakes => ⟨hstate, path, rfl, hl, htakes⟩
      exact h.connectStream ht hs (h.pointers.bound l (mem_of_find?_eq_some hl)) hm
        (fun htakes => hg.free l (hjoins htakes)) (fun htakes => hg.served l (hjoins htakes))
        fun htakes => hg.waits l (hjoins htakes)

end ConnInv

/-! ## Runs -/

/-- The calls of a listener and its clients. -/
def Dialogue : Op → Prop
  | .socket _ type _ _ => type ≠ some .dgram
  | .bind _ _ | .listen _ _ | .accept _ _ _ _ | .connect _ _ _ _ _ | .close _ | .share _ _ _ => True
  | _ => False

/-- Accept finds memory and a descriptor for a client that is pending, no socket is closed while
clients are pending at it or another socket has it as peer, and connect is guarded. -/
def ConnGuard (k : Kernel) (t : Tid) : Op → Prop
  | .accept fd m noMem _ => ∀ l, sockFromFd k t fd = some l → (k.sock l).state = .listening →
    (k.sock l).backlog ≠ [] → Serves k m noMem t
  | .connect fd addr m noMem noWaiter => ∀ s, sockFromFd k t fd = some s → ConnectGuard k s addr m noMem noWaiter
  | .close fd => ∀ s, sockFromFd k t fd = some s → k.refcount s = 1 → (k.sock s).backlog = [] ∧ OnlyPeer k s
  | _ => True

/-- Before the first socket is made, when nobody waits. -/
structure ConnStart (k : Kernel) : Prop extends Init k where
  waiters : ∀ s q, (k.sock s).waiters q = []
  awake : ∀ t, (k.task t).inCall = none

theorem ConnStart.inv {k : Kernel} (h : ConnStart k) : ConnInv k where
  pointers := h.toInit.inv
  clients :=
    { stream := fun s hs => by rw [h.live s] at hs; cases hs
      peer := fun c _ hc => by rw [h.live c] at hc; cases hc
      pending := fun l hl => by rw [h.live l] at hl; cases hl }
  queues :=
    { waits := ⟨fun s q w hw => (by rw [h.waiters s q] at hw; cases hw), fun s q => by rw [h.waiters s q]; exact .nil⟩
      inStep := fun l hl => by rw [h.live l] at hl; cases hl
      idle := fun l hl => by rw [h.live l] at hl; cases hl
      holds := fun t c s q hc => by rw [h.awake t] at hc; cases hc
      asleep := fun t _ => h.awake t }

theorem ConnInv.step {k k' : Kernel} {t : Tid} {op : Op} (h : ConnInv k) (hd : Dialogue op) (hg : ConnGuard k t op)
    (hs : step k t op = some k') : ∃ es, ConnInv k' ∧ Honest k k' (arrived k t op) es := by
  unfold Socket.step at hs
  obtain ⟨hblocked, hs⟩ := ite_none_left_eq_some.mp hs
  rw [Bool.not_eq_true] at hblocked
  cases op with
  | socket domain type m noMem =>
    obtain ⟨hm, hs⟩ := ite_none_right_eq_some.mp hs
    cases hs
    exact ⟨[], h.sysSocket hm t domain hd noMem⟩
  | bind fd addr =>
    cases hs
    exact ⟨[], h.sysBind t fd addr⟩
  | listen fd backlog =>
    cases hs
    exact ⟨[], h.sysListen t fd backlog⟩
  | accept fd m noMem noWaiter =>
    obtain ⟨l, hl, hs⟩ := bind_eq_some_iff.mp hs
    obtain ⟨hm, hs⟩ := ite_none_right_eq_some.mp hs
    cases hs
    exact h.sysAccept hblocked hl hm (hg l hl) noWaiter
  | connect fd addr m noMem noWaiter =>
    obtain ⟨s, hfrom, hs⟩ := bind_eq_some_iff.mp hs
    obtain ⟨hm, hs⟩ := ite_none_right_eq_some.mp hs
    cases hs
    have harrived : arrived k t (.connect fd addr m noMem noWaiter) = [s] := congrArg Option.toList hfrom
    rw [harrived]
    exact h.sysConnect hblocked hfrom hm (hg s hfrom)
  | close fd => exact ⟨[], h.closeFd hblocked hg hs⟩
  | share fd t' fd' => exact ⟨[], h.share hs⟩
  | _ => exact absurd hd id

def ConnStep (k k' : Kernel) : Prop := ∃ t op, Dialogue op ∧ ConnGuard k t op ∧ step k t op = some k'

/-- In every run whose steps are guarded, connect returns 0 only to clients that are connected,
accept returns sockets that are paired with the first pending client, and no client is left
at a listener that goes away. -/
theorem connected_of_guarded {k k' : Kernel} {t : Tid} {op : Op} (h : Run.Reachable ConnStart ConnStep k)
    (hd : Dialogue op) (hg : ConnGuard k t op) (hs : step k t op = some k') : ∃ es, Honest k k' (arrived k t op) es := by
  have hinv := h.invariant ConnInv (fun _ hi => hi.inv) fun _ _ hi ⟨_, _, hd, hg, hs⟩ => by
    obtain ⟨_, hi', -⟩ := hi.step hd hg hs
    exact hi'
  obtain ⟨es, -, hes⟩ := hinv.step hd hg hs
  exact ⟨es, hes⟩

/-! ## A listener that is closed -/

theorem connStart_noSockets : ConnStart noSockets := ⟨init_noSockets, fun _ _ => rfl, fun _ => rfl⟩

/-- Task 1 listens at the socket 10, and task 2 has made the socket 11. -/
def listening : List (Tid × Op) := [(1, .socket 1 (some .stream) ⟨some 10, fun _ => 0⟩ false),
  (1, .bind 0 (some (1, [97]))), (1, .listen 0 1), (2, .socket 1 (some .stream) ⟨some 11, fun _ => 0⟩ false)]

def connecting : Tid × Op := (2, .connect 0 (some (1, [97])) ⟨none, fun _ => 0⟩ false false)

/-- Task 2 connects the socket 11 and waits, and task 1 closes the listener: connect returns 0
to task 2, and its socket is still connecting. -/
theorem not_always_connected : ¬∀ (k k' : Kernel) (t : Tid) (op : Op),
    Run.Reachable ConnStart (fun k k' => ∃ t op, Dialogue op ∧ step k t op = some k') k → Dialogue op →
    step k t op = some k' → ∃ es, Honest k k' (arrived k t op) es := by
  intro h
  have hwait : (Run.exec next noSockets (listening ++ [connecting])).map (fun k => k.history) = some [] := by
    decide +kernel
  have hclose : (Run.exec next noSockets (listening ++ [connecting] ++ [(1, .close 0)])).map
      (fun k => (k.history, (k.sock 11).state)) = some ([⟨2, .connect 11, 0, []⟩], .connecting) := by decide +kernel
  obtain ⟨k, hk, hempty⟩ := Option.map_eq_some_iff.mp hwait
  obtain ⟨k', hk', hend⟩ := Option.map_eq_some_iff.mp hclose
  obtain ⟨hhist, hstate⟩ := Prod.mk.inj hend
  rw [Run.exec_snoc, hk] at hk'
  have hreach : Run.Reachable ConnStart (fun k k' => ∃ t op, Dialogue op ∧ step k t op = some k') k := by
    refine Run.Reachable.execOn (fun op hop l l' hst => ⟨op.1, op.2, ?_, hst⟩) (.start connStart_noSockets) hk
    simp only [listening, connecting, List.cons_append, List.nil_append, List.mem_cons, List.not_mem_nil, or_false] at hop
    rcases hop with rfl | rfl | rfl | rfl | rfl
    · exact fun hd => nomatch hd
    · trivial
    · trivial
    · exact fun hd => nomatch hd
    · trivial
  obtain ⟨es, hes⟩ := h k k' 1 (.close 0) hreach trivial hk'
  have hall := hes.history
  rw [hempty, hhist, List.nil_append] at hall
  rcases hes.connect ⟨2, .connect 11, 0, []⟩ (by rw [← hall]; exact List.mem_singleton.mpr rfl) 11 rfl with
    ⟨-, hconnected, -⟩ | hneg
  · rw [hstate] at hconnected
    cases hconnected
  · cases hneg

def accepting : Tid × Op := (1, .accept 0 ⟨none, fun _ => 0⟩ false false)

def served : Tid × Op := (2, .connect 0 (some (1, [97])) ⟨some 12, fun _ => 0⟩ false false)

/-- Task 1 waits in accept, and is given a socket that is paired with the socket 11 of task 2. -/
theorem connected_of_guarded_accept : ∃ k k' es, Honest k k' [11] es ∧
    es = [⟨1, .accept 10, 1, []⟩, ⟨2, .connect 11, 0, []⟩] := by
  have hbefore : (Run.exec next noSockets listening).map (fun k => (sockFromFd k 1 0, (k.sock 10).backlog)) =
      some (some 10, []) := by decide +kernel
  have hwait : (Run.exec next noSockets (listening ++ [accepting])).map (fun k =>
      (k.history, sockFromFd k 2 0, (k.sock 11).state, k.made 11, unixSocketLookup k [97],
        (k.sock 10).waiters .accept, allocFd k 1)) =
      some ([], some 11, .unconnected, none, some 10, [⟨1, 0, 0⟩], some 1) := rfl
  have hserve : (Run.exec next noSockets (listening ++ [accepting] ++ [served])).map (fun k => k.history) =
      some [⟨1, .accept 10, 1, []⟩, ⟨2, .connect 11, 0, []⟩] := by decide +kernel
  obtain ⟨k₁, hk₁, heq₁⟩ := Option.map_eq_some_iff.mp hbefore
  obtain ⟨hfd₁, hback₁⟩ := Prod.mk.inj heq₁
  obtain ⟨k, hk, heq⟩ := Option.map_eq_some_iff.mp hwait
  obtain ⟨hempty, hfd, hstate, hmade, hlookup, hwaiters, halloc⟩ : k.history = [] ∧ sockFromFd k 2 0 = some 11 ∧
      (k.sock 11).state = .unconnected ∧ k.made 11 = none ∧ unixSocketLookup k [97] = some 10 ∧
      (k.sock 10).waiters .accept = [⟨1, 0, 0⟩] ∧ allocFd k 1 = some 1 := by
    simpa only [Prod.mk.injEq] using heq
  obtain ⟨k', hk', hhist⟩ := Option.map_eq_some_iff.mp hserve
  rw [Run.exec_snoc, hk] at hk'
  rw [Run.exec_snoc, hk₁] at hk
  have hreach₁ : Run.Reachable ConnStart ConnStep k₁ := by
    refine Run.Reachable.execOn (fun op hop l l' hst => ⟨op.1, op.2, ?_, ?_, hst⟩) (.start connStart_noSockets) hk₁
    all_goals
      simp only [listening, List.mem_cons, List.not_mem_nil, or_false] at hop
      rcases hop with rfl | rfl | rfl | rfl
    · exact fun hd => nomatch hd
    · trivial
    · trivial
    · exact fun hd => nomatch hd
    · trivial
    · trivial
    · trivial
    · trivial
  have hreach : Run.Reachable ConnStart ConnStep k := by
    refine hreach₁.step ⟨accepting.1, accepting.2, trivial, fun l hl _ hne => ?_, hk⟩
    have hl : sockFromFd k₁ 1 0 = some l := hl
    rw [hfd₁] at hl
    cases hl
    exact absurd hback₁ hne
  have hjoins : ∀ l, Joins k 11 (some (1, [97])) l → l = 10 := by
    rintro l ⟨-, path, haddr, hl, -⟩
    cases haddr
    rw [hlookup] at hl
    exact (Option.some.inj hl).symm
  have hguard : ConnectGuard k 11 (some (1, [97])) ⟨some 12, fun _ => 0⟩ false false := by
    refine ⟨fun hc => ?_, fun _ _ => .inl hmade, fun l hl w hw => ?_, fun _ _ _ => rfl⟩
    · rw [hstate] at hc
      cases hc
    · rw [hjoins l hl, hwaiters] at hw
      cases hw
      exact ⟨Option.some_ne_none _, rfl, by rw [halloc]; exact Option.some_ne_none _⟩
  have hsafe : ConnGuard k served.1 served.2 := by
    intro s hs
    have hs : sockFromFd k 2 0 = some s := hs
    rw [hfd] at hs
    cases hs
    exact hguard
  obtain ⟨es, hes⟩ := connected_of_guarded hreach (show Dialogue served.2 from trivial) hsafe hk'
  have harrived : arrived k served.1 served.2 = [11] := congrArg Option.toList hfd
  rw [harrived] at hes
  have hall := hes.history
  rw [hempty, hhist, List.nil_append] at hall
  exact ⟨k, k', es, hes, hall.symm⟩

end Serotonin.Socket
