import Serotonin.Lib.Run
import Serotonin.Socket.Waiters

/-! Which sockets the others refer to. Closing a socket clears the back pointer of its peer
and its entry in the table of bound sockets, and nothing else: no pointer is left behind
as long as nothing else refers to the sockets that are closed. -/

namespace Serotonin.Socket

open Function List

/-- Every pointer to a socket refers to one that has not been freed. -/
structure PointersLive (k : Kernel) : Prop where
  fd : ∀ d ∈ k.fds, k.live d.sock = true
  bound : ∀ s ∈ k.bound, k.live s = true
  peer : ∀ s p, k.live s = true → (k.sock s).peer = some p → k.live p = true
  backlog : ∀ s, k.live s = true → ∀ c ∈ (k.sock s).backlog, k.live c = true

/-- No backlog has the socket, and no socket but its own peer has it as peer. -/
def Unshared (k : Kernel) (s : Sid) : Prop :=
  ∀ s', k.live s' = true → s' ≠ s →
    s ∉ (k.sock s').backlog ∧ ((k.sock s').peer = some s → (k.sock s).peer = some s')

/-- A call that drops the last descriptor of a socket finds it unshared. -/
def Guard (k : Kernel) (t : Tid) (op : Op) : Prop :=
  ∀ fd s, op = .close fd → sockFromFd k t fd = some s → k.refcount s = 1 → Unshared k s

def count (fds : List Fd) (s : Sid) : Nat := (fds.filter (·.sock = s)).length

structure PointerInv (k : Kernel) : Prop extends PointersLive k where
  refs : ∀ d ∈ k.fds, k.refcount d.sock = count k.fds d.sock
  flag : ∀ s, s ∈ k.bound ↔ k.live s = true ∧ (k.sock s).bound = true
  once : k.bound.Nodup

/-- What the invariant looks at is as before. -/
structure SameRefs (k k' : Kernel) : Prop where
  peer : ∀ s, (k'.sock s).peer = (k.sock s).peer
  backlog : ∀ s, (k'.sock s).backlog = (k.sock s).backlog
  flag : ∀ s, (k'.sock s).bound = (k.sock s).bound
  live : k'.live = k.live
  bound : k'.bound = k.bound
  fds : k'.fds = k.fds
  refcount : k'.refcount = k.refcount

theorem Quiet.sameRefs {k k' : Kernel} (h : Quiet k k') : SameRefs k k' :=
  ⟨h.peer, h.backlog, h.isBound, h.live, h.bound, h.fds, h.refcount⟩

theorem SameRefs.trans {k l m : Kernel} (h : SameRefs k l) (h' : SameRefs l m) : SameRefs k m :=
  ⟨fun s => (h'.peer s).trans (h.peer s), fun s => (h'.backlog s).trans (h.backlog s),
    fun s => (h'.flag s).trans (h.flag s), h'.live.trans h.live, h'.bound.trans h.bound,
    h'.fds.trans h.fds, h'.refcount.trans h.refcount⟩

theorem sameRefs_modify (k : Kernel) (s : Sid) {f : Sock → Sock} (hp : (f (k.sock s)).peer = (k.sock s).peer)
    (hb : (f (k.sock s)).backlog = (k.sock s).backlog) (hf : (f (k.sock s)).bound = (k.sock s).bound) :
    SameRefs k (k.modify s f) :=
  ⟨sock_modify_field _ hp, sock_modify_field _ hb, sock_modify_field _ hf, rfl, rfl, rfl, rfl⟩

namespace PointerInv

variable {k k' : Kernel}

theorem same (h : PointerInv k) (hs : SameRefs k k') : PointerInv k' where
  fd := by
    rw [hs.fds, hs.live]
    exact h.fd
  bound := by
    rw [hs.bound, hs.live]
    exact h.bound
  peer s p := by
    rw [hs.live, hs.peer]
    exact h.peer s p
  backlog s := by
    rw [hs.live, hs.backlog]
    exact h.backlog s
  refs := by
    rw [hs.fds, hs.refcount]
    exact h.refs
  flag s := by
    rw [hs.bound, hs.live, hs.flag]
    exact h.flag s
  once := by
    rw [hs.bound]
    exact h.once

theorem quiet (h : PointerInv k) (hq : Quiet k k') : PointerInv k' := h.same hq.sameRefs

/-- One socket takes other peers or backlog entries, all of them live. -/
theorem modify (h : PointerInv k) {s : Sid} {f : Sock → Sock}
    (hp : ∀ p, (f (k.sock s)).peer = some p → k.live p = true)
    (hb : ∀ c ∈ (f (k.sock s)).backlog, k.live c = true)
    (hf : (f (k.sock s)).bound = (k.sock s).bound) : PointerInv (k.modify s f) where
  fd := h.fd
  bound := h.bound
  peer s' p hl hs' := by
    by_cases he : s' = s
    · rw [he, sock_modify_self] at hs'
      exact hp p hs'
    · rw [sock_modify_of_ne k f he] at hs'
      exact h.peer s' p hl hs'
  backlog s' hl c hc := by
    by_cases he : s' = s
    · rw [he, sock_modify_self] at hc
      exact hb c hc
    · rw [sock_modify_of_ne k f he] at hc
      exact h.backlog s' hl c hc
  refs := h.refs
  flag s' := by
    by_cases he : s' = s
    · rw [he, sock_modify_self, hf]
      exact h.flag s
    · rw [sock_modify_of_ne k f he]
      exact h.flag s'
  once := h.once

theorem setState (h : PointerInv k) (s : Sid) (st : SockState) : PointerInv (k.setState s st) :=
  h.same (sameRefs_modify k s rfl rfl rfl)

theorem setPeer (h : PointerInv k) {s : Sid} {p : Option Sid} (hp : ∀ q, p = some q → k.live q = true)
    (hs : k.live s = true) : PointerInv (k.setPeer s p) := h.modify hp (h.backlog s hs) rfl

/-- Sockets are freed to which nothing refers that is left. -/
theorem shrink (h : PointerInv k) (hsock : k'.sock = k.sock) (hbound : k'.bound = k.bound)
    (hfds : k'.fds = k.fds) (href : k'.refcount = k.refcount)
    (hlive : ∀ s, k'.live s = true → k.live s = true) (hk : PointersLive k') : PointerInv k' where
  toPointersLive := hk
  refs := by
    rw [hfds, href]
    exact h.refs
  flag s := by
    constructor
    · intro hs
      refine ⟨hk.bound s hs, ?_⟩
      rw [hbound] at hs
      rw [hsock]
      exact ((h.flag s).mp hs).2
    · rintro ⟨hl, hf⟩
      rw [hbound]
      rw [hsock] at hf
      exact (h.flag s).mpr ⟨hlive s hl, hf⟩
  once := by
    rw [hbound]
    exact h.once

end PointerInv

/-! ## Sockets nothing refers to -/

/-- No descriptor, table entry, backlog or peer is the socket, but for the peers of the
sockets in `but`. -/
structure Lone (k : Kernel) (s : Sid) (but : List Sid) : Prop where
  fd : ∀ d ∈ k.fds, d.sock ≠ s
  bound : s ∉ k.bound
  peer : ∀ s', k.live s' = true → s' ∉ but → (k.sock s').peer ≠ some s
  backlog : ∀ s', k.live s' = true → s ∉ (k.sock s').backlog

theorem Lone.quiet {k k' : Kernel} {s : Sid} {but : List Sid} (h : Lone k s but) (hs : SameRefs k k') :
    Lone k' s but where
  fd := by
    rw [hs.fds]
    exact h.fd
  bound := by
    rw [hs.bound]
    exact h.bound
  peer s' := by
    rw [hs.live, hs.peer]
    exact h.peer s'
  backlog s' := by
    rw [hs.live, hs.backlog]
    exact h.backlog s'

theorem live_free (k : Kernel) (s s' : Sid) : (k.free s).live s' = true ↔ s' ≠ s ∧ k.live s' = true := by
  unfold Kernel.free
  dsimp only
  by_cases hs : s' = s
  · rw [hs, update_self]
    simp
  · rw [update_of_ne hs]
    simp [hs]

theorem PointerInv.free {k : Kernel} {s : Sid} (h : PointerInv k) (hs : Lone k s [s]) : PointerInv (k.free s) := by
  refine h.shrink rfl rfl rfl rfl (fun s' hl => ((live_free k s s').mp hl).2)
    ⟨fun d hd => ?_, fun s' hb => ?_, fun s' p hl hp => ?_, fun s' hl c hc => ?_⟩
  · exact (live_free k s _).mpr ⟨hs.fd d hd, h.fd d hd⟩
  · exact (live_free k s s').mpr ⟨fun he => hs.bound (he ▸ hb), h.bound s' hb⟩
  · obtain ⟨hne, hl⟩ := (live_free k s s').mp hl
    refine (live_free k s p).mpr ⟨fun he => ?_, h.peer s' p hl hp⟩
    rw [he] at hp
    exact hs.peer s' hl (by simpa using hne) hp
  · obtain ⟨hne, hl⟩ := (live_free k s s').mp hl
    exact (live_free k s c).mpr ⟨fun he => hs.backlog s' hl (he ▸ hc), h.backlog s' hl c hc⟩

/-- What `sock_alloc` makes. -/
theorem sockAlloc_some {k k' : Kernel} {m : Mem} {type : SockType} {s : Sid}
    (ha : sockAlloc k m type = some (s, k')) : m.addr = some s ∧
      k' = { k with
        sock := update k.sock s (newSock type m.garbage)
        live := update k.live s true
        made := update k.made s none } := by
  unfold sockAlloc at ha
  obtain ⟨a, hm, he⟩ := Option.map_eq_some_iff.mp ha
  cases he
  exact ⟨hm, rfl⟩

structure Allocated (k k' : Kernel) (s : Sid) (type : SockType) : Prop where
  fresh : k.live s = false
  live : ∀ s', k'.live s' = true ↔ s' = s ∨ k.live s' = true
  self : ∃ garbage, k'.sock s = newSock type garbage
  other : ∀ s', s' ≠ s → k'.sock s' = k.sock s'
  bound : k'.bound = k.bound
  fds : k'.fds = k.fds
  refcount : k'.refcount = k.refcount
  task : k'.task = k.task
  history : k'.history = k.history

theorem sockAlloc_allocated {k k' : Kernel} {m : Mem} {type : SockType} {s : Sid} (hm : m.Fresh k)
    (ha : sockAlloc k m type = some (s, k')) : Allocated k k' s type := by
  obtain ⟨haddr, rfl⟩ := sockAlloc_some ha
  refine ⟨hm s haddr, fun s' => ?_, ⟨m.garbage, update_self ..⟩, fun s' hs => update_of_ne hs ..,
    rfl, rfl, rfl, rfl, rfl⟩
  by_cases hs : s' = s
  · simp [hs]
  · simp [hs]

/-- Nobody waits at a new socket. -/
theorem Allocated.waits {k k' : Kernel} {s : Sid} {type : SockType} (ha : Allocated k k' s type) (h : WaitOk k) :
    WaitOk k' := by
  obtain ⟨garbage, hself⟩ := ha.self
  constructor
  · intro s' q w hw
    rw [ha.task]
    by_cases he : s' = s
    · rw [he, hself] at hw
      cases hw
    · rw [ha.other s' he] at hw
      exact h.waits s' q w hw
  · intro s' q
    by_cases he : s' = s
    · rw [he, hself]
      exact .nil
    · rw [ha.other s' he]
      exact h.once s' q

theorem Allocated.inv {k k' : Kernel} {s : Sid} {type : SockType} (ha : Allocated k k' s type)
    (h : PointerInv k) : PointerInv k' ∧ Lone k' s [] := by
  obtain ⟨garbage, hself⟩ := ha.self
  have hdead : ∀ s', k.live s' = true → s' ≠ s := by
    intro s' hl he
    rw [he, ha.fresh] at hl
    cases hl
  have hold : ∀ s', s' ≠ s → k'.live s' = true → k.live s' = true := fun s' hne hl =>
    ((ha.live s').mp hl).resolve_left hne
  have hpeer : ∀ s' p, k'.live s' = true → (k'.sock s').peer = some p → k.live p = true := by
    intro s' p hl hp
    by_cases he : s' = s
    · rw [he, hself] at hp
      cases hp
    · rw [ha.other s' he] at hp
      exact h.peer s' p (hold s' he hl) hp
  have hback : ∀ s', k'.live s' = true → ∀ c ∈ (k'.sock s').backlog, k.live c = true := by
    intro s' hl c hc
    by_cases he : s' = s
    · rw [he, hself] at hc
      cases hc
    · rw [ha.other s' he] at hc
      exact h.backlog s' (hold s' he hl) c hc
  refine ⟨⟨⟨fun d hd => ?_, fun s' hb => ?_, fun s' p hl hp => ?_, fun s' hl c hc => ?_⟩, ?_, fun s' => ?_, ?_⟩,
    ⟨fun d hd => ?_, fun hb => ?_, fun s' hl _ hp => ?_, fun s' hl hc => ?_⟩⟩
  · rw [ha.fds] at hd
    exact (ha.live _).mpr (.inr (h.fd d hd))
  · rw [ha.bound] at hb
    exact (ha.live _).mpr (.inr (h.bound s' hb))
  · exact (ha.live p).mpr (.inr (hpeer s' p hl hp))
  · exact (ha.live c).mpr (.inr (hback s' hl c hc))
  · rw [ha.fds, ha.refcount]
    exact h.refs
  · rw [ha.bound]
    by_cases he : s' = s
    · constructor
      · intro hb
        exact absurd he (hdead s' (h.bound s' hb))
      · rintro ⟨-, hf⟩
        rw [he, hself] at hf
        cases hf
    · rw [ha.other s' he, h.flag s']
      constructor
      · exact fun hx => ⟨(ha.live s').mpr (.inr hx.1), hx.2⟩
      · exact fun hx => ⟨hold s' he hx.1, hx.2⟩
  · rw [ha.bound]
    exact h.once
  · rw [ha.fds] at hd
    exact hdead _ (h.fd d hd)
  · rw [ha.bound] at hb
    exact hdead s (h.bound s hb) rfl
  · exact hdead s (hpeer s' s hl hp) rfl
  · exact hdead s (hback s' hl s hc) rfl

/-! ## Descriptors -/

theorem sockFromFd_some {k : Kernel} {t : Tid} {fd : Nat} {s : Sid} (h : sockFromFd k t fd = some s) :
    ∃ d, k.fds.find? (fun d => d.task = t ∧ d.num = fd) = some d ∧ d.sock = s ∧ d ∈ k.fds := by
  obtain ⟨d, hd, hs⟩ := Option.map_eq_some_iff.mp h
  exact ⟨d, hd, hs, mem_of_find?_eq_some hd⟩

theorem PointerInv.fd_live {k : Kernel} (h : PointerInv k) {t : Tid} {fd : Nat} {s : Sid}
    (hs : sockFromFd k t fd = some s) : k.live s = true := by
  obtain ⟨d, -, rfl, hd⟩ := sockFromFd_some hs
  exact h.fd d hd

theorem count_cons (d : Fd) (fds : List Fd) (s : Sid) :
    count (d :: fds) s = if d.sock = s then count fds s + 1 else count fds s := by
  unfold count
  rw [filter_cons]
  by_cases h : d.sock = s <;> simp [h]

theorem count_zero {fds : List Fd} {s : Sid} (h : ∀ d ∈ fds, d.sock ≠ s) : count fds s = 0 := by
  unfold count
  rw [length_eq_zero_iff, filter_eq_nil_iff]
  intro d hd
  simpa using h d hd

theorem count_pos {fds : List Fd} {d : Fd} (h : d ∈ fds) : 0 < count fds d.sock :=
  length_pos_of_mem (mem_filter.mpr ⟨h, by simp⟩)

theorem count_erase {fds : List Fd} {d : Fd} (h : d ∈ fds) (s : Sid) :
    count fds s = if d.sock = s then count (fds.erase d) s + 1 else count (fds.erase d) s := by
  have hp := (perm_cons_erase h).filter (·.sock = s)
  have hl : count fds s = count (d :: fds.erase d) s := hp.length_eq
  rw [hl, count_cons]

/-- What `sock_make_fd_for` does: nothing, or one more descriptor. -/
theorem sockMakeFdFor_cases (k : Kernel) (s : Sid) (t : Tid) (noMem : Bool) :
    ((sockMakeFdFor k s t noMem).1 < 0 ∧ (sockMakeFdFor k s t noMem).2 = k) ∨
      ∃ fd, noMem = false ∧ allocFd k t = some fd ∧ sockMakeFdFor k s t noMem = ((fd : Int),
        { k with fds := ⟨t, fd, s⟩ :: k.fds, refcount := update k.refcount s 1 }) := by
  have hmem : -enomem < 0 := by decide
  have hfile : -emfile < 0 := by decide
  unfold sockMakeFdFor
  cases noMem with
  | true => exact .inl ⟨hmem, rfl⟩
  | false =>
    rw [if_neg (by decide)]
    cases h : allocFd k t with
    | none => exact .inl ⟨hfile, rfl⟩
    | some fd => exact .inr ⟨fd, rfl, rfl, rfl⟩

/-- One more descriptor of a live socket. -/
theorem PointerInv.addFd {k : Kernel} (h : PointerInv k) {d : Fd} {n : Nat} (hl : k.live d.sock = true)
    (hn : n = count k.fds d.sock + 1) : PointerInv { k with
      fds := d :: k.fds
      refcount := update k.refcount d.sock n } where
  fd e he := by
    rcases mem_cons.mp he with rfl | he
    · exact hl
    · exact h.fd e he
  bound := h.bound
  peer := h.peer
  backlog := h.backlog
  refs e he := by
    dsimp only
    rw [count_cons]
    by_cases hs : d.sock = e.sock
    · rw [if_pos hs, ← hs, update_self]
      exact hn
    · rw [if_neg hs, update_of_ne (fun h => hs h.symm)]
      rcases mem_cons.mp he with rfl | he
      · exact absurd rfl hs
      · exact h.refs e he
  flag := h.flag
  once := h.once

/-! ## Closing -/

theorem mem_unixSocketUnregister {l : List Sid} (h : l.Nodup) (s x : Sid) :
    x ∈ unixSocketUnregister l s ↔ x ∈ l ∧ x ≠ s := by
  induction l with
  | nil => simp [unixSocketUnregister]
  | cons y ys ih =>
    obtain ⟨hy, hys⟩ := nodup_cons.mp h
    unfold unixSocketUnregister
    by_cases he : y = s
    · subst he
      rw [if_pos rfl]
      have hrest : ∀ x, x ∈ ys ↔ x ∈ y :: ys ∧ x ≠ y := by
        intro x
        rw [mem_cons]
        constructor
        · exact fun hx => ⟨.inr hx, fun he => hy (he ▸ hx)⟩
        · exact fun hx => hx.1.resolve_left hx.2
      rw [← hrest]
      rcases eq_nil_or_concat ys with rfl | ⟨zs, z, rfl⟩
      · rfl
      · rw [concat_eq_append]
        simp [or_comm]
    · rw [if_neg he, mem_cons, ih hys, mem_cons]
      constructor
      · rintro (rfl | ⟨hx, hne⟩)
        · exact ⟨.inl rfl, he⟩
        · exact ⟨.inr hx, hne⟩
      · rintro ⟨rfl | hx, hne⟩
        · exact .inl rfl
        · exact .inr ⟨hx, hne⟩

theorem nodup_unixSocketUnregister {l : List Sid} (h : l.Nodup) (s : Sid) : (unixSocketUnregister l s).Nodup := by
  induction l with
  | nil => exact .nil
  | cons y ys ih =>
    obtain ⟨hy, hys⟩ := nodup_cons.mp h
    unfold unixSocketUnregister
    split
    · split
      · exact .nil
      · rename_i last hlast
        have hne : ys ≠ [] := by
          rintro rfl
          cases hlast
        have hz : last = ys.getLast hne := by
          rw [List.getLast?_eq_some_getLast hne] at hlast
          exact (Option.some.inj hlast).symm
        have hp : (last :: ys.dropLast).Perm ys := by
          have hsplit := dropLast_append_getLast hne
          rw [← hz] at hsplit
          calc (last :: ys.dropLast).Perm (ys.dropLast ++ [last]) := perm_append_singleton _ _ |>.symm
            _ = ys := hsplit
        exact hp.nodup_iff.mpr hys
    · refine nodup_cons.mpr ⟨fun hm => ?_, ih hys⟩
      exact hy ((mem_unixSocketUnregister hys s y).mp hm).1

/-- The peer's part of `task_ipc_unix_socket_close`. -/
def clearPeer (k : Kernel) (s : Sid) : Kernel :=
  match (k.sock s).peer with
  | none => k
  | some p =>
    (sockWakeAll (sockWakeAll (if (k.sock p).peer = some s then k.setPeer p none else k) p .read) p .write).setPeer
      s none

theorem close_eq (k : Kernel) (s : Sid) : ∃ k₁, SameRefs k k₁ ∧ taskIpcUnixSocketClose k s =
    (if ((clearPeer k₁ s).sock s).bound then
      { clearPeer k₁ s with bound := unixSocketUnregister (clearPeer k₁ s).bound s }
    else clearPeer k₁ s).free s := by
  refine ⟨sockWakeAll (sockWakeAll (sockWakeAll (sockWakeAll (k.setState s .closed) s .read) s .write) s .accept)
    s .connect, ?_, rfl⟩
  have hstate : SameRefs k (k.setState s .closed) := sameRefs_modify k s rfl rfl rfl
  have hwake := ((quiet_sockWakeAll (k.setState s .closed) s .read).trans ((quiet_sockWakeAll _ s .write).trans
    ((quiet_sockWakeAll _ s .accept).trans (quiet_sockWakeAll _ s .connect))))
  exact hstate.trans hwake.sameRefs

/-- The pointers after the peer has been told. -/
structure PeerCleared (k k' : Kernel) (s : Sid) : Prop where
  other : ∀ s', s' ≠ s → (k'.sock s').peer =
    if (k.sock s).peer = some s' ∧ (k.sock s').peer = some s then none else (k.sock s').peer
  self : (k'.sock s).peer = none
  backlog : ∀ s', (k'.sock s').backlog = (k.sock s').backlog
  flag : ∀ s', (k'.sock s').bound = (k.sock s').bound
  live : k'.live = k.live
  bound : k'.bound = k.bound
  fds : k'.fds = k.fds
  refcount : k'.refcount = k.refcount

theorem setPeer_other (k : Kernel) {s s' : Sid} (p : Option Sid) (h : s' ≠ s) :
    (k.setPeer s p).sock s' = k.sock s' := sock_modify_of_ne k _ h

theorem setPeer_self (k : Kernel) (s : Sid) (p : Option Sid) : (k.setPeer s p).sock s = { k.sock s with peer := p } :=
  sock_modify_self k s _

theorem setPeer_field {β : Type} (g : Sock → β) (hg : ∀ x p, g { x with peer := p } = g x) (k : Kernel) (s : Sid)
    (p : Option Sid) (s' : Sid) : g ((k.setPeer s p).sock s') = g (k.sock s') := sock_modify_field g (hg _ p) s'

theorem clearPeer_cleared (k : Kernel) (s : Sid) : PeerCleared k (clearPeer k s) s := by
  unfold clearPeer
  cases hp : (k.sock s).peer with
  | none =>
    refine ⟨fun s' _ => ?_, hp, fun _ => rfl, fun _ => rfl, rfl, rfl, rfl, rfl⟩
    rw [if_neg]
    rintro ⟨hs, -⟩
    rw [hp] at hs
    cases hs
  | some p =>
    dsimp only
    -- only the back pointer changes before the peer's waiters are woken
    have hback : ∃ l, (if (k.sock p).peer = some s then k.setPeer p none else k) = l ∧
        (∀ s', s' ≠ s → (l.sock s').peer = if some p = some s' ∧ (k.sock s').peer = some s then none
          else (k.sock s').peer) ∧ (∀ s', (l.sock s').backlog = (k.sock s').backlog) ∧
        (∀ s', (l.sock s').bound = (k.sock s').bound) ∧ l.live = k.live ∧ l.bound = k.bound ∧ l.fds = k.fds ∧
        l.refcount = k.refcount := by
      refine ⟨_, rfl, ?_⟩
      split
      · rename_i hps
        refine ⟨fun s' _ => ?_, setPeer_field _ (fun _ _ => rfl) k p none,
          setPeer_field _ (fun _ _ => rfl) k p none, rfl, rfl, rfl, rfl⟩
        by_cases hs : s' = p
        · rw [hs, setPeer_self, if_pos ⟨rfl, hps⟩]
        · rw [setPeer_other k none hs, if_neg fun h => hs (Option.some.inj h.1).symm]
      · rename_i hps
        refine ⟨fun s' _ => ?_, fun _ => rfl, fun _ => rfl, rfl, rfl, rfl, rfl⟩
        rw [if_neg]
        rintro ⟨he, hs⟩
        rw [← Option.some.inj he] at hs
        exact hps hs
    obtain ⟨l, hl, hpeer, hbacklog, hflag, hlive, hbound, hfds, href⟩ := hback
    rw [hl]
    have hq : Quiet l (sockWakeAll (sockWakeAll l p .read) p .write) :=
      (quiet_sockWakeAll l p .read).trans (quiet_sockWakeAll _ p .write)
    refine ⟨fun s' hs => ?_, ?_, fun s' => ?_, fun s' => ?_, hq.live.trans hlive, hq.bound.trans hbound,
      hq.fds.trans hfds, hq.refcount.trans href⟩
    · rw [setPeer_other _ none hs, hq.peer, hp]
      exact hpeer s' hs
    · rw [setPeer_self]
    · rw [setPeer_field Sock.backlog (fun _ _ => rfl), hq.backlog]
      exact hbacklog s'
    · rw [setPeer_field Sock.bound (fun _ _ => rfl), hq.isBound]
      exact hflag s'

/-- An unshared socket without descriptors is closed. -/
theorem PointerInv.close {k : Kernel} {s : Sid} (h : PointerInv k) (hl : k.live s = true)
    (hfd : ∀ d ∈ k.fds, d.sock ≠ s) (hu : Unshared k s) : PointerInv (taskIpcUnixSocketClose k s) := by
  obtain ⟨k₁, hs₁, he⟩ := close_eq k s
  have hc := clearPeer_cleared k₁ s
  rw [he]
  generalize clearPeer k₁ s = k₂ at hc
  have hlive : k₂.live = k.live := hc.live.trans hs₁.live
  have hbound : k₂.bound = k.bound := hc.bound.trans hs₁.bound
  have hfds : k₂.fds = k.fds := hc.fds.trans hs₁.fds
  have href : k₂.refcount = k.refcount := hc.refcount.trans hs₁.refcount
  have hflag : ∀ s', (k₂.sock s').bound = (k.sock s').bound := fun s' => (hc.flag s').trans (hs₁.flag s')
  have hback : ∀ s', (k₂.sock s').backlog = (k.sock s').backlog := fun s' =>
    (hc.backlog s').trans (hs₁.backlog s')
  have hpeer : ∀ s', s' ≠ s → (k₂.sock s').peer =
      if (k.sock s).peer = some s' ∧ (k.sock s').peer = some s then none else (k.sock s').peer := by
    intro s' hs'
    rw [hc.other s' hs', hs₁.peer, hs₁.peer]
  -- the table without the socket
  obtain ⟨table, htable, hmem, hnodup⟩ : ∃ table,
      (if (k₂.sock s).bound then { k₂ with bound := unixSocketUnregister k₂.bound s } else k₂) =
        { k₂ with bound := table } ∧ (∀ x, x ∈ table ↔ x ∈ k.bound ∧ x ≠ s) ∧ table.Nodup := by
    rw [hbound, hflag]
    split
    · exact ⟨_, rfl, mem_unixSocketUnregister h.once s, nodup_unixSocketUnregister h.once s⟩
    · rename_i hf
      refine ⟨k.bound, ?_, fun x => ⟨fun hx => ⟨hx, ?_⟩, fun hx => hx.1⟩, h.once⟩
      · rw [← hbound]
      · rintro rfl
        exact hf ((h.flag x).mp hx).2
  rw [htable]
  have hlive' : ∀ s', (Kernel.free { k₂ with bound := table } s).live s' = true ↔ s' ≠ s ∧ k.live s' = true := by
    intro s'
    rw [live_free]
    show s' ≠ s ∧ k₂.live s' = true ↔ _
    rw [hlive]
  refine ⟨⟨fun d hd => ?_, fun s' hb => ?_, fun s' p hl' hp => ?_, fun s' hl' c hcm => ?_⟩, ?_, fun s' => ?_, hnodup⟩
  · have hd' : d ∈ k.fds := hfds ▸ hd
    exact (hlive' _).mpr ⟨hfd d hd', h.fd d hd'⟩
  · obtain ⟨hb', hne⟩ := (hmem s').mp hb
    exact (hlive' s').mpr ⟨hne, h.bound s' hb'⟩
  · obtain ⟨hne, hl''⟩ := (hlive' s').mp hl'
    have hp' : (k₂.sock s').peer = some p := hp
    rw [hpeer s' hne] at hp'
    split at hp'
    · cases hp'
    · rename_i hno
      refine (hlive' p).mpr ⟨fun he' => ?_, h.peer s' p hl'' hp'⟩
      rw [he'] at hp'
      exact hno ⟨(hu s' hl'' hne).2 hp', hp'⟩
  · obtain ⟨hne, hl''⟩ := (hlive' s').mp hl'
    have hcm' : c ∈ (k.sock s').backlog := hback s' ▸ hcm
    exact (hlive' c).mpr ⟨fun he' => (hu s' hl'' hne).1 (he' ▸ hcm'), h.backlog s' hl'' c hcm'⟩
  · show ∀ d ∈ k₂.fds, k₂.refcount d.sock = count k₂.fds d.sock
    rw [hfds, href]
    exact h.refs
  · show s' ∈ table ↔ _ ∧ (k₂.sock s').bound = true
    rw [hmem, hlive', hflag, h.flag]
    constructor
    · exact fun hx => ⟨⟨hx.2, hx.1.1⟩, hx.1.2⟩
    · exact fun hx => ⟨⟨hx.1.2, hx.2⟩, hx.1.1⟩

/-- One descriptor is closed; if it is the last of its socket, the socket is unshared. -/
theorem PointerInv.closeFd {k k' : Kernel} {t : Tid} {fd : Nat} (h : PointerInv k)
    (hu : ∀ s, sockFromFd k t fd = some s → k.refcount s = 1 → Unshared k s)
    (hc : Socket.closeFd k t fd = some k') : PointerInv k' := by
  obtain ⟨d, hfind, rfl⟩ := Option.map_eq_some_iff.mp hc
  have hd : d ∈ k.fds := mem_of_find?_eq_some hfind
  have hfrom : sockFromFd k t fd = some d.sock := congrArg (Option.map Fd.sock) hfind
  have hpos := count_pos hd
  have hcount := count_erase hd d.sock
  rw [if_pos rfl] at hcount
  have hdrop : PointerInv { k with
      fds := k.fds.erase d
      refcount := update k.refcount d.sock (k.refcount d.sock - 1) } := by
    refine ⟨⟨fun e he => h.fd e (mem_of_mem_erase he), h.bound, h.peer, h.backlog⟩, fun e he => ?_,
      h.flag, h.once⟩
    have hold := h.refs e (mem_of_mem_erase he)
    have hce := count_erase hd e.sock
    dsimp only
    by_cases hs : d.sock = e.sock
    · rw [if_pos hs] at hce
      rw [← hs, update_self, hs, hold, hce]
      rfl
    · rw [if_neg hs] at hce
      rw [update_of_ne (fun h => hs h.symm), hold, hce]
  dsimp only
  split
  · rename_i hz
    rw [update_self] at hz
    have href := h.refs d hd
    have hone : k.refcount d.sock = 1 := by omega
    refine hdrop.close (h.fd d hd) (fun e he hes => ?_) (hu d.sock hfrom hone)
    have hsome : 0 < count (k.fds.erase d) e.sock := count_pos he
    rw [hes] at hsome
    omega
  · exact hdrop

end Serotonin.Socket
