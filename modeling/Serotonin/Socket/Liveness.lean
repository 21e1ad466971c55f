import Serotonin.Socket.Pointers

/-! No pointer to a freed socket, in any run in which the sockets that are closed are
unshared: each call keeps the invariant, and the sockets that a call frees on its way out
are those it has made itself. -/

namespace Serotonin.Socket

open Function List Option

namespace PointerInv

variable {k : Kernel}

theorem lone_mono {s : Sid} {but but' : List Sid} (h : Lone k s but) (hsub : but ⊆ but') : Lone k s but' :=
  ⟨h.fd, h.bound, fun s' hl hs => h.peer s' hl fun hm => hs (hsub hm), h.backlog⟩

/-- The first descriptor of a socket. -/
theorem makeFd (h : PointerInv k) {s : Sid} {but : List Sid} (hs : Lone k s but) (hl : k.live s = true) (t : Tid)
    (fd : Nat) : PointerInv { k with fds := ⟨t, fd, s⟩ :: k.fds, refcount := update k.refcount s 1 } :=
  h.addFd (d := ⟨t, fd, s⟩) hl (by rw [count_zero hs.fd])

theorem sysSocket (h : PointerInv k) {m : Mem} (hm : m.Fresh k) (t : Tid) (domain : Nat)
    (type : Option SockType) (noMem : Bool) : PointerInv (sysSocket k t domain type m noMem).2 := by
  unfold Socket.sysSocket
  split
  · exact h
  cases type with
  | none => exact h
  | some type =>
    dsimp only
    cases ha : sockAlloc k m type with
    | none => exact h
    | some p =>
      obtain ⟨s, k₁⟩ := p
      have halloc := sockAlloc_allocated hm ha
      obtain ⟨h₁, hlone⟩ := halloc.inv h
      dsimp only
      obtain ⟨hneg, hk⟩ | ⟨fd, -, -, he⟩ := sockMakeFdFor_cases k₁ s t noMem
      · rw [if_pos hneg]
        dsimp only
        rw [hk]
        exact h₁.free (lone_mono hlone (nil_subset _))
      · rw [he, if_neg (Int.not_lt.mpr (Int.natCast_nonneg fd))]
        exact h₁.makeFd hlone ((halloc.live s).mpr (.inl rfl)) t fd

/-- The socket joins the table, and its flag is set. -/
theorem register (h : PointerInv k) {s : Sid} (hl : k.live s = true) (hb : (k.sock s).bound = false)
    {f : Sock → Sock} (hp : (f (k.sock s)).peer = (k.sock s).peer)
    (hq : (f (k.sock s)).backlog = (k.sock s).backlog) (hf : (f (k.sock s)).bound = true) :
    PointerInv { k.modify s f with bound := k.bound ++ [s] } := by
  refine ⟨⟨h.fd, fun s' hb' => ?_, fun s' p hl' hp' => ?_, fun s' hl' c hc => ?_⟩, h.refs, fun s' => ?_, ?_⟩
  · rcases mem_append.mp hb' with hb' | hb'
    · exact h.bound s' hb'
    · rw [mem_singleton.mp hb']
      exact hl
  · refine h.peer s' p hl' ?_
    dsimp only at hp'
    by_cases he : s' = s
    · rw [he, sock_modify_self, hp] at hp'
      rw [he]
      exact hp'
    · rwa [sock_modify_of_ne k f he] at hp'
  · refine h.backlog s' hl' c ?_
    dsimp only at hc
    by_cases he : s' = s
    · rw [he, sock_modify_self, hq] at hc
      rw [he]
      exact hc
    · rwa [sock_modify_of_ne k f he] at hc
  · dsimp only
    rw [mem_append, mem_singleton]
    by_cases he : s' = s
    · rw [he, sock_modify_self]
      exact ⟨fun _ => ⟨hl, hf⟩, fun _ => .inr rfl⟩
    · rw [sock_modify_of_ne k f he, h.flag s']
      exact ⟨fun hx => hx.resolve_right he, .inl⟩
  · refine nodup_append.mpr ⟨h.once, by simp, fun a ha b hb' hab => ?_⟩
    rw [hab, mem_singleton.mp hb'] at ha
    have hflag := ((h.flag s).mp ha).2
    rw [hb] at hflag
    cases hflag

theorem sysBind (h : PointerInv k) (t : Tid) (fd : Nat) (addr : Addr) : PointerInv (sysBind k t fd addr).2 := by
  unfold Socket.sysBind
  cases hs : sockFromFd k t fd with
  | none => exact h
  | some s =>
    have hl := h.fd_live hs
    dsimp only
    split
    · exact h
    rename_i hunbound
    cases addr with
    | none => exact h
    | some a =>
      obtain ⟨family, path⟩ := a
      dsimp only
      split
      · exact h
      split
      · exact h
      split
      · -- there is no room in the table, and the flag is cleared again
        rw [Bool.not_eq_true] at hunbound
        refine h.same ⟨fun s' => ?_, fun s' => ?_, fun s' => ?_, rfl, rfl, rfl, rfl⟩
        · by_cases he : s' = s
          · rw [he, sock_modify_self, sock_modify_self]
          · rw [sock_modify_of_ne _ _ he, sock_modify_of_ne _ _ he]
        · by_cases he : s' = s
          · rw [he, sock_modify_self, sock_modify_self]
          · rw [sock_modify_of_ne _ _ he, sock_modify_of_ne _ _ he]
        · by_cases he : s' = s
          · rw [he, sock_modify_self, hunbound]
          · rw [sock_modify_of_ne _ _ he, sock_modify_of_ne _ _ he]
      · exact h.register hl (by simpa using hunbound) (f := fun x => { x with
          path := path, bound := true, state := .bound }) rfl rfl rfl

theorem sysListen (h : PointerInv k) (t : Tid) (fd backlog : Nat) : PointerInv (sysListen k t fd backlog).2 := by
  unfold Socket.sysListen
  cases hs : sockFromFd k t fd with
  | none => exact h
  | some s =>
    dsimp only
    split
    · exact h
    split
    · exact h
    · have hsame := sameRefs_modify k s (f := fun x => { x with
        backlogMax := if min backlog sockBacklogMax = 0 then 1 else min backlog sockBacklogMax
        state := .listening }) rfl rfl rfl
      exact h.same hsame

/-- The first pending client gets a peer, or is left without. -/
theorem sockAcceptDeliver (h : PointerInv k) {l : Sid} (hl : k.live l = true) {m : Mem} (hm : m.Fresh k)
    (t : Tid) (noMem : Bool) : PointerInv (sockAcceptDeliver k l t m noMem) := by
  unfold Socket.sockAcceptDeliver
  split
  · exact h
  rename_i client rest hback
  have hclient : k.live client = true := h.backlog l hl client (by rw [hback]; exact mem_cons_self)
  have h₁ : PointerInv (k.modify l fun x => { x with backlog := rest }) := by
    refine h.modify (h.peer l · hl) (fun c hc => h.backlog l hl c ?_) rfl
    rw [hback]
    exact mem_cons_of_mem _ hc
  dsimp only
  cases ha : sockAlloc (k.modify l fun x => { x with backlog := rest }) m .stream with
  | none => exact h₁.quiet ((quiet_sockWakeOne _ l .connect).trans (quiet_modifyTask _ t _))
  | some p =>
    obtain ⟨server, k₂⟩ := p
    have halloc := sockAlloc_allocated (k := k.modify l fun x => { x with backlog := rest }) hm ha
    obtain ⟨h₂, hlone⟩ := halloc.inv h₁
    have hserver : k₂.live server = true := (halloc.live server).mpr (.inl rfl)
    have hclient₂ : k₂.live client = true := (halloc.live client).mpr (.inr hclient)
    have hne : client ≠ server := by
      rintro rfl
      have hdead : k.live client = false := halloc.fresh
      rw [hclient] at hdead
      cases hdead
    have h₃ := h₂.modify (s := server) (f := fun x => { x with state := .connected, peer := some client })
      (fun p hp => by cases hp; exact hclient₂) (h₂.backlog server hserver) rfl
    have h₄ := h₃.modify (s := client) (f := fun x => { x with peer := some server, state := .connected })
      (fun p hp => by cases hp; exact hserver) (h₃.backlog client hclient₂) rfl
    have hlone₄ : Lone ((k₂.modify server fun x => { x with state := .connected, peer := some client }).modify
        client fun x => { x with peer := some server, state := .connected }) server [client] := by
      refine ⟨hlone.fd, hlone.bound, fun s' hl' hs' hp => ?_, fun s' hl' hb => ?_⟩
      · have hs : s' ≠ client := by simpa using hs'
        rw [sock_modify_of_ne _ _ hs] at hp
        by_cases he : s' = server
        · rw [he, sock_modify_self] at hp
          exact hne (Option.some.inj hp)
        · rw [sock_modify_of_ne _ _ he] at hp
          exact hlone.peer s' hl' (not_mem_nil) hp
      · refine hlone.backlog s' hl' ?_
        by_cases hs : s' = client
        · rw [hs, sock_modify_self] at hb
          rw [sock_modify_of_ne _ _ hne] at hb
          rw [hs]
          exact hb
        · rw [sock_modify_of_ne _ _ hs] at hb
          by_cases he : s' = server
          · rw [he, sock_modify_self] at hb
            rw [he]
            exact hb
          · rwa [sock_modify_of_ne _ _ he] at hb
    dsimp only
    generalize hk₄ : (k₂.modify server fun x => { x with state := .connected, peer := some client }).modify
      client (fun x => { x with peer := some server, state := .connected }) = k₄ at h₄ hlone₄
    have hlive₄ : k₄.live = k₂.live := by rw [← hk₄]; rfl
    have hmade : SameRefs k₄ { k₄ with made := update k₄.made server (some client) } :=
      ⟨fun _ => rfl, fun _ => rfl, fun _ => rfl, rfl, rfl, rfl, rfl⟩
    have hq := hmade.trans (quiet_sockWakeOne _ l .connect).sameRefs
    have h₅ := h₄.same hq
    have hlone₅ := hlone₄.quiet hq
    have hserver₅ := hserver
    have hclient₅ := hclient₂
    rw [← hlive₄, ← hq.live] at hserver₅ hclient₅
    generalize sockWakeOne { k₄ with made := update k₄.made server (some client) } l .connect = k₅
      at h₅ hlone₅ hserver₅ hclient₅
    obtain ⟨hneg, hk⟩ | ⟨fd, -, -, he⟩ := sockMakeFdFor_cases k₅ server t noMem
    · rw [if_pos hneg, hk]
      have h₆ := (h₅.setState server .closed).modify (s := client)
        (f := fun x => { x with peer := none, state := .unconnected }) (fun p hp => nomatch hp)
        ((h₅.setState server .closed).backlog client hclient₅) rfl
      have hclosed : SameRefs k₅ (k₅.setState server .closed) := sameRefs_modify k₅ server rfl rfl rfl
      have hlone₆ := hlone₅.quiet hclosed
      refine PointerInv.quiet (PointerInv.free h₆ ⟨hlone₆.fd, hlone₆.bound, fun s' hl' _ hp => ?_, fun s' hl' hb => ?_⟩)
        (quiet_modifyTask _ t _)
      · by_cases hs : s' = client
        · rw [hs, sock_modify_self] at hp
          cases hp
        · rw [sock_modify_of_ne _ _ hs] at hp
          exact hlone₆.peer s' hl' (by simpa using hs) hp
      · refine hlone₆.backlog s' hl' ?_
        by_cases hs : s' = client
        · rw [hs, sock_modify_self] at hb
          rw [hs]
          exact hb
        · rwa [sock_modify_of_ne _ _ hs] at hb
    · rw [he]
      dsimp only
      rw [if_neg (Int.not_lt.mpr (Int.natCast_nonneg fd))]
      exact (h₅.makeFd hlone₅ hserver₅ t fd).quiet (quiet_modifyTask _ t _)

end PointerInv

/-! ## Calls that may block -/

def Outcome.Pointers : Outcome → Prop
  | .returns _ _ k => PointerInv k
  | .sleeps k => PointerInv k

theorem Outcome.Pointers.finish {o : Outcome} (ho : o.Pointers) (t : Tid) (c : Call) : PointerInv (finish t c o) := by
  cases o with
  | returns v bytes k' => exact PointerInv.same ho ⟨fun _ => rfl, fun _ => rfl, fun _ => rfl, rfl, rfl, rfl, rfl⟩
  | sleeps k' => exact ho

namespace PointerInv

variable {k : Kernel}

theorem sysAccept (h : PointerInv k) {m : Mem} (hm : m.Fresh k) (t : Tid) (fd : Nat) (noMem noWaiter : Bool) :
    (sysAccept k t fd m noMem noWaiter).Pointers := by
  unfold Socket.sysAccept
  cases hs : sockFromFd k t fd with
  | none => exact h
  | some l =>
    dsimp only
    split
    · exact h
    split
    · split
      · exact h.quiet (quiet_sleepOnly k t l .accept _)
      · exact h.quiet (quiet_waitOn k l .accept _ _)
    · exact h.sockAcceptDeliver (h.fd_live hs) hm t noMem

theorem connectStream (h : PointerInv k) {s l : Sid} (hs : k.live s = true) (hl : k.live l = true) {m : Mem}
    (hm : m.Fresh k) (t : Tid) (noMem noWaiter : Bool) : (connectStream k t s l m noMem noWaiter).Pointers := by
  unfold Socket.connectStream
  split
  · exact h
  split
  · exact h
  have hpush : PointerInv (k.modify l fun x => { x with backlog := x.backlog ++ [s] }) := by
    refine h.modify (h.peer l · hl) (fun c hc => ?_) rfl
    rcases mem_append.mp hc with hc | hc
    · exact h.backlog l hl c hc
    · rw [mem_singleton.mp hc]
      exact hs
  have hconnecting := hpush.setState s .connecting
  dsimp only
  split
  · rename_i w ws _
    have hw := hconnecting.quiet (quiet_setWaiters _ l .accept ws)
    exact (hw.sockAcceptDeliver hl hm w.task noMem).quiet (quiet_taskUnblock _ _ _)
  · split
    · exact hconnecting.quiet (quiet_sleepOnly _ t l .connect _)
    · exact hconnecting.quiet (quiet_waitOn _ l .connect _ _)

theorem sysConnect (h : PointerInv k) {m : Mem} (hm : m.Fresh k) (t : Tid) (fd : Nat) (addr : Addr)
    (noMem noWaiter : Bool) : (sysConnect k t fd addr m noMem noWaiter).Pointers := by
  unfold Socket.sysConnect
  cases hs : sockFromFd k t fd with
  | none => exact h
  | some s =>
    dsimp only
    split
    · exact h
    cases addr with
    | none => exact h
    | some a =>
      obtain ⟨family, path⟩ := a
      dsimp only
      split
      · exact h
      cases hl : unixSocketLookup k path with
      | none => exact h
      | some l =>
        have hlive : k.live l = true := h.bound l (mem_of_find?_eq_some hl)
        have hsl := h.fd_live hs
        dsimp only
        cases (k.sock s).type with
        | stream => exact h.connectStream hsl hlive hm t noMem noWaiter
        | dgram =>
          exact h.modify (f := fun x => { x with peer := some l, state := .connected })
            (fun p hp => by cases hp; exact hlive) (h.backlog s hsl) rfl

theorem sysShutdown (h : PointerInv k) (t : Tid) (fd : Nat) : PointerInv (sysShutdown k t fd).2 := by
  unfold Socket.sysShutdown
  cases hs : sockFromFd k t fd with
  | none => exact h
  | some s =>
    have hclosed := (h.setState s .closed).quiet
      ((quiet_sockWakeAll (k.setState s .closed) s .read).trans (quiet_sockWakeAll _ s .write))
    dsimp only
    split
    · exact hclosed
    · exact hclosed.quiet ((quiet_sockWakeAll _ _ .read).trans (quiet_sockWakeAll _ _ .write))

theorem share (h : PointerInv k) {t t' : Tid} {fd fd' : Nat} {k' : Kernel}
    (hk : Socket.share k t fd t' fd' = some k') : PointerInv k' := by
  unfold Socket.share at hk
  cases hs : sockFromFd k t fd with
  | none =>
    rw [hs] at hk
    cases hk
  | some s =>
    rw [hs] at hk
    obtain ⟨-, hk⟩ := ite_none_left_eq_some.mp hk
    obtain ⟨d, -, rfl, hd⟩ := sockFromFd_some hs
    cases hk
    exact h.addFd (d := ⟨t', fd', d.sock⟩) (h.fd d hd) (by rw [h.refs d hd])

end PointerInv

/-! ## Pairs -/

theorem allocFd_free {k : Kernel} {t : Tid} {fd : Nat} (h : allocFd k t = some fd) : sockFromFd k t fd = none := by
  have hp := List.find?_some h
  simpa using hp

/-- The descriptor that was added is found, and those of other numbers as before. -/
theorem sockFromFd_cons (k : Kernel) (t : Tid) (fd fd' : Nat) (s : Sid) (n : Sid → Nat) :
    sockFromFd { k with fds := ⟨t, fd, s⟩ :: k.fds, refcount := n } t fd' =
      if fd = fd' then some s else sockFromFd k t fd' := by
  unfold sockFromFd
  dsimp only
  by_cases h : fd = fd'
  · simp [h]
  · simp [h]

/-- What is left when a socket has been closed. -/
structure Closed (k k' : Kernel) (s : Sid) : Prop where
  live : ∀ s', k'.live s' = true ↔ s' ≠ s ∧ k.live s' = true
  bound : ∀ s', s' ∈ k'.bound → s' ∈ k.bound
  fds : k'.fds = k.fds
  refcount : k'.refcount = k.refcount
  backlog : ∀ s', (k'.sock s').backlog = (k.sock s').backlog
  peer : ∀ s', s' ≠ s → (k'.sock s').peer =
    if (k.sock s).peer = some s' ∧ (k.sock s').peer = some s then none else (k.sock s').peer

theorem unixSocketUnregister_subset (l : List Sid) (s x : Sid) (h : x ∈ unixSocketUnregister l s) : x ∈ l := by
  induction l with
  | nil => exact h
  | cons y ys ih =>
    unfold unixSocketUnregister at h
    split at h
    · split at h
      · cases h
      · rename_i last hlast
        rcases mem_cons.mp h with rfl | h
        · exact mem_cons_of_mem _ (mem_of_getLast? hlast)
        · exact mem_cons_of_mem _ ((dropLast_sublist _).subset h)
    · rcases mem_cons.mp h with rfl | h
      · exact mem_cons_self
      · exact mem_cons_of_mem _ (ih h)

theorem close_closed (k : Kernel) (s : Sid) : Closed k (taskIpcUnixSocketClose k s) s := by
  obtain ⟨k₁, hs₁, he⟩ := close_eq k s
  have hc := clearPeer_cleared k₁ s
  rw [he]
  generalize clearPeer k₁ s = k₂ at hc
  have hcase : ∃ table, (if (k₂.sock s).bound then { k₂ with bound := unixSocketUnregister k₂.bound s } else k₂) =
      { k₂ with bound := table } ∧ ∀ x ∈ table, x ∈ k₂.bound := by
    split
    · exact ⟨_, rfl, unixSocketUnregister_subset k₂.bound s⟩
    · exact ⟨k₂.bound, rfl, fun x hx => hx⟩
  obtain ⟨table, htable, hsub⟩ := hcase
  rw [htable]
  refine ⟨fun s' => ?_, fun s' hb => ?_, hc.fds.trans hs₁.fds, hc.refcount.trans hs₁.refcount,
    fun s' => (hc.backlog s').trans (hs₁.backlog s'), fun s' hne => ?_⟩
  · rw [live_free]
    show s' ≠ s ∧ k₂.live s' = true ↔ _
    rw [hc.live, hs₁.live]
  · have hb' := hsub s' hb
    rwa [hc.bound, hs₁.bound] at hb'
  · show (k₂.sock s').peer = _
    rw [hc.other s' hne, hs₁.peer, hs₁.peer]

/-- The last descriptor of an unshared socket is closed. -/
theorem closePair_last {k : Kernel} (h : PointerInv k) {t : Tid} {fd : Nat} {s : Sid}
    (hs : sockFromFd k t fd = some s) (hone : k.refcount s = 1) (hu : Unshared k s) :
    PointerInv (closePair k t fd) ∧ ∃ d ∈ k.fds, d.task = t ∧ d.num = fd ∧ d.sock = s ∧
      ∃ k₁, k₁.fds = k.fds.erase d ∧ k₁.refcount = update k.refcount s 0 ∧ k₁.sock = k.sock ∧
        k₁.live = k.live ∧ k₁.bound = k.bound ∧ closePair k t fd = taskIpcUnixSocketClose k₁ s := by
  obtain ⟨d, hfind, hd, hmem⟩ := sockFromFd_some hs
  have hprop := List.find?_some hfind
  have hkey : d.task = t ∧ d.num = fd := by simpa using hprop
  have hclose : Socket.closeFd k t fd = some (closePair k t fd) := by
    unfold closePair
    rw [Int.toNat_natCast]
    unfold Socket.closeFd
    rw [hfind]
    rfl
  refine ⟨h.closeFd (fun s' hs' _ => ?_) hclose, d, hmem, hkey.1, hkey.2, hd, { k with
      fds := k.fds.erase d
      refcount := update k.refcount d.sock (k.refcount d.sock - 1) }, rfl, ?_, rfl, rfl, rfl, ?_⟩
  · rw [hs] at hs'
    exact Option.some.inj hs' ▸ hu
  · rw [hd, hone]
  · have hdone := hclose
    unfold Socket.closeFd at hdone
    rw [hfind] at hdone
    have he := Option.some.inj hdone
    rw [← he]
    dsimp only
    rw [if_pos (by rw [update_self, hd, hone]), hd]

/-- `a` is referred to by its peer `b` and by descriptors, and by nothing else. -/
structure Linked (k : Kernel) (a b : Sid) : Prop where
  live : k.live a = true
  ne : a ≠ b
  self : (k.sock a).peer = some b
  peer : ∀ s', k.live s' = true → s' ≠ b → (k.sock s').peer ≠ some a
  backlog : ∀ s', k.live s' = true → a ∉ (k.sock s').backlog
  bound : a ∉ k.bound

theorem Linked.unshared {k : Kernel} {a b : Sid} (h : Linked k a b) : Unshared k a := by
  intro s' hl _
  refine ⟨h.backlog s' hl, fun hp => ?_⟩
  by_cases hs : s' = b
  · rw [hs]
    exact h.self
  · exact absurd hp (h.peer s' hl hs)

theorem Linked.congr {k k' : Kernel} {a b : Sid} (h : Linked k a b) (hs : k'.sock = k.sock)
    (hl : k'.live = k.live) (hb : k'.bound = k.bound) : Linked k' a b := by
  refine ⟨?_, h.ne, ?_, fun s' => ?_, fun s' => ?_, ?_⟩
  · rw [hl]; exact h.live
  · rw [hs]; exact h.self
  · rw [hl, hs]; exact h.peer s'
  · rw [hl, hs]; exact h.backlog s'
  · rw [hb]; exact h.bound

/-- When `a` has been closed, nothing but descriptors refers to its peer. -/
theorem Linked.closed {k k' : Kernel} {a b : Sid} (h : Linked k b a) (hc : Closed k k' a) :
    k'.live b = true ∧ b ∉ k'.bound ∧ ∀ s', k'.live s' = true →
      b ∉ (k'.sock s').backlog ∧ (k'.sock s').peer ≠ some b := by
  refine ⟨(hc.live b).mpr ⟨h.ne, h.live⟩, fun hb => h.bound (hc.bound b hb), fun s' hl => ?_⟩
  obtain ⟨hne, hl⟩ := (hc.live s').mp hl
  rw [hc.backlog, hc.peer s' hne]
  refine ⟨h.backlog s' hl, ?_⟩
  split
  · exact fun hn => nomatch hn
  · exact h.peer s' hl hne

/-- Two new sockets, each the peer of the other. -/
theorem linked_pair {k k₀ k₁ : Kernel} {a b : Sid} {type : SockType} (h : PointerInv k)
    (ha : Allocated k k₀ a type) (hb : Allocated k₀ k₁ b type) :
    let k₂ := (((k₁.setPeer a (some b)).setPeer b (some a)).setState a .connected).setState b .connected
    PointerInv k₂ ∧ Linked k₂ a b ∧ Linked k₂ b a ∧ ∀ d ∈ k₂.fds, d.sock ≠ a ∧ d.sock ≠ b := by
  obtain ⟨h₀, hlone₀⟩ := ha.inv h
  obtain ⟨h₁, hlone₁⟩ := hb.inv h₀
  have hab : a ≠ b := by
    rintro rfl
    have hlive := (ha.live a).mpr (.inl rfl)
    rw [hb.fresh] at hlive
    cases hlive
  have hla : k₁.live a = true := (hb.live a).mpr (.inr ((ha.live a).mpr (.inl rfl)))
  have hlb : k₁.live b = true := (hb.live b).mpr (.inl rfl)
  obtain ⟨gb, hselfb⟩ := hb.self
  obtain ⟨ga, hselfa⟩ := ha.self
  -- nothing in `k₁` refers to the first socket either
  have hfda : ∀ d ∈ k₁.fds, d.sock ≠ a := by
    rw [hb.fds]
    exact hlone₀.fd
  have hlonea : ∀ s', k₁.live s' = true → (k₁.sock s').peer ≠ some a ∧ a ∉ (k₁.sock s').backlog := by
    intro s' hl
    by_cases hs : s' = b
    · rw [hs, hselfb]
      exact ⟨fun hn => (nomatch hn), fun hn => (nomatch hn)⟩
    · rw [hb.other s' hs]
      have hl' := ((hb.live s').mp hl).resolve_left hs
      exact ⟨hlone₀.peer s' hl' not_mem_nil, hlone₀.backlog s' hl'⟩
  intro k₂
  have hpeer : ∀ s', (k₂.sock s').peer =
      if s' = b then some a else if s' = a then some b else (k₁.sock s').peer := by
    intro s'
    have hstate : (k₂.sock s').peer = (((k₁.setPeer a (some b)).setPeer b (some a)).sock s').peer :=
      ((sameRefs_modify ((k₁.setPeer a (some b)).setPeer b (some a)) a
        (f := fun x => { x with state := .connected }) rfl rfl rfl).trans
        (sameRefs_modify _ b (f := fun x => { x with state := .connected }) rfl rfl rfl)).peer s'
    rw [hstate]
    by_cases hs : s' = b
    · rw [if_pos hs, hs, setPeer_self]
    · rw [if_neg hs, setPeer_other _ _ hs]
      by_cases hs' : s' = a
      · rw [if_pos hs', hs', setPeer_self]
      · rw [if_neg hs', setPeer_other _ _ hs']
  have hback : ∀ s', (k₂.sock s').backlog = (k₁.sock s').backlog := by
    intro s'
    have hstate : (k₂.sock s').backlog = (((k₁.setPeer a (some b)).setPeer b (some a)).sock s').backlog :=
      ((sameRefs_modify ((k₁.setPeer a (some b)).setPeer b (some a)) a
        (f := fun x => { x with state := .connected }) rfl rfl rfl).trans
        (sameRefs_modify _ b (f := fun x => { x with state := .connected }) rfl rfl rfl)).backlog s'
    rw [hstate, setPeer_field Sock.backlog (fun _ _ => rfl), setPeer_field Sock.backlog (fun _ _ => rfl)]
  have hinv : PointerInv k₂ :=
    (((h₁.setPeer (p := some b) (fun q hq => by cases hq; exact hlb) hla).setPeer (p := some a)
      (fun q hq => by cases hq; exact hla) hlb).setState a .connected).setState b .connected
  refine ⟨hinv, ⟨hla, hab, ?_, fun s' hl hs hp => ?_, fun s' hl => ?_, ?_⟩,
    ⟨hlb, hab.symm, ?_, fun s' hl hs hp => ?_, fun s' hl => ?_, hlone₁.bound⟩,
    fun d hd => ⟨hfda d hd, hlone₁.fd d hd⟩⟩
  · rw [hpeer, if_neg hab, if_pos rfl]
  · rw [hpeer, if_neg hs] at hp
    split at hp
    · exact hab (Option.some.inj hp).symm
    · exact (hlonea s' hl).1 hp
  · rw [hback]
    exact (hlonea s' hl).2
  · intro hbound
    have hb₁ : a ∈ k₁.bound := hbound
    rw [hb.bound] at hb₁
    exact hlone₀.bound hb₁
  · rw [hpeer, if_pos rfl]
  · rw [hpeer] at hp
    split at hp
    · exact hab (Option.some.inj hp)
    · exact hlone₁.peer s' hl not_mem_nil hp
  · rw [hback]
    exact hlone₁.backlog s' hl

/-- Both of a pair that has no descriptors are freed. -/
theorem PointerInv.freePair {k : Kernel} {a b : Sid} (h : PointerInv k) (ha : Linked k a b) (hb : Linked k b a)
    (hfd : ∀ d ∈ k.fds, d.sock ≠ a ∧ d.sock ≠ b) : PointerInv ((k.free a).free b) := by
  have hlive : ∀ s', ((k.free a).free b).live s' = true ↔ s' ≠ b ∧ s' ≠ a ∧ k.live s' = true := by
    intro s'
    rw [live_free, live_free]
  refine h.shrink rfl rfl rfl rfl (fun s' hl => ((hlive s').mp hl).2.2)
    ⟨fun d hd => ?_, fun s' hs => ?_, fun s' p hl hp => ?_, fun s' hl c hc => ?_⟩
  · exact (hlive _).mpr ⟨(hfd d hd).2, (hfd d hd).1, h.fd d hd⟩
  · exact (hlive s').mpr ⟨fun he => hb.bound (he ▸ hs), fun he => ha.bound (he ▸ hs), h.bound s' hs⟩
  · obtain ⟨hnb, hna, hl⟩ := (hlive s').mp hl
    have hp' : (k.sock s').peer = some p := hp
    refine (hlive p).mpr ⟨fun he => hb.peer s' hl hna (he ▸ hp'), fun he => ha.peer s' hl hnb (he ▸ hp'),
      h.peer s' p hl hp'⟩
  · obtain ⟨hnb, hna, hl⟩ := (hlive s').mp hl
    have hc' : c ∈ (k.sock s').backlog := hc
    exact (hlive c).mpr ⟨fun he => hb.backlog s' hl (he ▸ hc'), fun he => ha.backlog s' hl (he ▸ hc'),
      h.backlog s' hl c hc'⟩

/-- One of a pair is closed, and the other is left to its descriptors. -/
theorem closePair_linked {k : Kernel} (h : PointerInv k) {t : Tid} {fd : Nat} {a b : Sid}
    (hs : sockFromFd k t fd = some a) (hone : k.refcount a = 1) (ha : Linked k a b) (hb : Linked k b a) :
    PointerInv (closePair k t fd) ∧ (closePair k t fd).live b = true ∧ b ∉ (closePair k t fd).bound ∧
      (∀ s', (closePair k t fd).live s' = true →
        b ∉ ((closePair k t fd).sock s').backlog ∧ ((closePair k t fd).sock s').peer ≠ some b) ∧
      (closePair k t fd).refcount b = k.refcount b ∧
      ∃ d ∈ k.fds, d.task = t ∧ d.num = fd ∧ d.sock = a ∧ (closePair k t fd).fds = k.fds.erase d := by
  obtain ⟨hinv, d, hd, hdt, hdn, hds, k₁, hfds, href, hsock, hlive, hbound, he⟩ :=
    closePair_last h hs hone ha.unshared
  have hc := close_closed k₁ a
  rw [← he] at hc
  obtain ⟨h1, h2, h3⟩ := (hb.congr hsock hlive hbound).closed hc
  refine ⟨hinv, h1, h2, h3, ?_, d, hd, hdt, hdn, hds, hc.fds.trans hfds⟩
  rw [hc.refcount, href, update_of_ne hb.ne]

theorem PointerInv.sysSocketpair {k : Kernel} (h : PointerInv k) (t : Tid) (type : Option SockType) (addr : Nat)
    {m0 m1 : Mem} (hm0 : m0.Fresh k) (hm1 : m1.Fresh k) (hne : m0.addr = m1.addr → m0.addr = none)
    (noMem0 noMem1 copyFails : Bool) :
    PointerInv (sysSocketpair k t type addr m0 m1 noMem0 noMem1 copyFails).2 := by
  unfold Socket.sysSocketpair
  cases type with
  | none => exact h
  | some type =>
    dsimp only
    split
    · exact h
    cases ha : sockAlloc k m0 type with
    | none => exact h
    | some p =>
      obtain ⟨a, k₀⟩ := p
      have halloc := sockAlloc_allocated hm0 ha
      have haddr := (sockAlloc_some ha).1
      obtain ⟨h₀, hlone⟩ := halloc.inv h
      have hm1' : m1.Fresh k₀ := by
        intro s hs
        have hsa : s ≠ a := by
          rintro rfl
          have hn := hne (haddr.trans hs.symm)
          rw [haddr] at hn
          cases hn
        have hdead := hm1 s hs
        rw [← Bool.not_eq_true] at hdead ⊢
        exact fun hl => hdead (((halloc.live s).mp hl).resolve_left hsa)
      dsimp only
      cases hb : sockAlloc k₀ m1 type with
      | none => exact h₀.free (lone_mono hlone (nil_subset _))
      | some p =>
        obtain ⟨b, k₁⟩ := p
        obtain ⟨hinv, hla, hlb, hfd⟩ := linked_pair h halloc (sockAlloc_allocated hm1' hb)
        dsimp only at hinv hla hlb hfd ⊢
        generalize (((k₁.setPeer a (some b)).setPeer b (some a)).setState a .connected).setState b .connected = k₂
          at hinv hla hlb hfd
        obtain ⟨hneg, hk⟩ | ⟨fd0, -, hfree0, he0⟩ := sockMakeFdFor_cases k₂ a t noMem0
        · rw [if_pos hneg, hk]
          exact hinv.freePair hla hlb hfd
        rw [he0]
        dsimp only
        rw [if_neg (Int.not_lt.mpr (Int.natCast_nonneg fd0))]
        have hinv₃ := hinv.addFd (d := ⟨t, fd0, a⟩) (n := 1) hla.live (by rw [count_zero fun d hd => (hfd d hd).1])
        have hla₃ : Linked { k₂ with
            fds := ⟨t, fd0, a⟩ :: k₂.fds, refcount := update k₂.refcount a 1 } a b := hla.congr rfl rfl rfl
        have hlb₃ : Linked { k₂ with
            fds := ⟨t, fd0, a⟩ :: k₂.fds, refcount := update k₂.refcount a 1 } b a := hlb.congr rfl rfl rfl
        have hfrom₃ := sockFromFd_cons k₂ t fd0 fd0 a (update k₂.refcount a 1)
        have href₃ : update k₂.refcount a 1 a = 1 := update_self ..
        have hfd₃ : ∀ d ∈ (⟨t, fd0, a⟩ :: k₂.fds : List Fd), d.sock ≠ b := by
          intro d hd
          rcases mem_cons.mp hd with rfl | hd
          · exact hla.ne
          · exact (hfd d hd).2
        dsimp only at hinv₃
        rw [if_pos rfl] at hfrom₃
        generalize hk₃ : ({ k₂ with
          fds := ⟨t, fd0, a⟩ :: k₂.fds, refcount := update k₂.refcount a 1 } : Kernel) = k₃
          at hinv₃ hla₃ hlb₃ hfrom₃
        have hfds₃ : k₃.fds = ⟨t, fd0, a⟩ :: k₂.fds := by rw [← hk₃]
        have hrefs₃ : k₃.refcount a = 1 := by rw [← hk₃]; exact href₃
        rw [← hfds₃] at hfd₃
        obtain ⟨hneg, hk⟩ | ⟨fd1, -, hfree1, he1⟩ := sockMakeFdFor_cases k₃ b t noMem1
        · rw [if_pos hneg, hk]
          obtain ⟨hinv₄, -, hbound₄, href₄, -, d, -, -, -, -, hfds₄⟩ :=
            closePair_linked hinv₃ hfrom₃ hrefs₃ hla₃ hlb₃
          refine hinv₄.free ⟨fun e he => ?_, hbound₄, fun s' hl _ => (href₄ s' hl).2, fun s' hl => (href₄ s' hl).1⟩
          rw [hfds₄] at he
          exact hfd₃ e (mem_of_mem_erase he)
        rw [he1]
        dsimp only
        rw [if_neg (Int.not_lt.mpr (Int.natCast_nonneg fd1))]
        have hinv₄ := hinv₃.addFd (d := ⟨t, fd1, b⟩) (n := 1) hlb₃.live (by rw [count_zero hfd₃])
        have hnum : fd1 ≠ fd0 := by
          rintro rfl
          have hnone := allocFd_free hfree1
          rw [hfrom₃] at hnone
          cases hnone
        have hfrom₄ := sockFromFd_cons k₃ t fd1 fd0 b (update k₃.refcount b 1)
        rw [if_neg hnum, hfrom₃] at hfrom₄
        split
        · -- the first is closed, and then the second, which nothing refers to any more
          have hone : update k₃.refcount b 1 a = 1 := by
            rw [update_of_ne hla.ne]
            exact hrefs₃
          obtain ⟨hinv₅, -, -, href₅, hcount₅, d, -, hdt, hdn, -, hfds₅⟩ :=
            closePair_linked hinv₄ hfrom₄ hone (hla₃.congr rfl rfl rfl) (hlb₃.congr rfl rfl rfl)
          have hhead : (⟨t, fd1, b⟩ : Fd) ≠ d := by
            rintro rfl
            exact hnum hdn
          dsimp only at hfds₅
          rw [erase_cons_tail (by simpa using hhead)] at hfds₅
          have hfrom₅ : sockFromFd (closePair { k₃ with
              fds := ⟨t, fd1, b⟩ :: k₃.fds, refcount := update k₃.refcount b 1 } t fd0) t fd1 = some b := by
            unfold sockFromFd
            rw [hfds₅]
            simp
          dsimp only at hcount₅
          rw [update_self] at hcount₅
          refine (closePair_last hinv₅ hfrom₅ hcount₅ fun s' hl _ => ⟨(href₅ s' hl).1, fun hp => ?_⟩).1
          exact absurd hp (href₅ s' hl).2
        · exact hinv₄

/-! ## Runs -/

/-- Before the first socket is made. -/
structure Init (k : Kernel) : Prop where
  live : ∀ s, k.live s = false
  bound : k.bound = []
  fds : k.fds = []

theorem Init.inv {k : Kernel} (h : Init k) : PointerInv k where
  fd d hd := by rw [h.fds] at hd; cases hd
  bound s hs := by rw [h.bound] at hs; cases hs
  peer s p hl := by rw [h.live s] at hl; cases hl
  backlog s hl := by rw [h.live s] at hl; cases hl
  refs d hd := by rw [h.fds] at hd; cases hd
  flag s := by
    rw [h.bound, h.live s]
    exact ⟨fun hs => (nomatch hs), fun hs => (nomatch hs.1)⟩
  once := by rw [h.bound]; exact .nil

theorem PointerInv.step {k k' : Kernel} {t : Tid} {op : Op} (h : PointerInv k) (hg : Guard k t op)
    (hs : step k t op = some k') : PointerInv k' := by
  unfold Socket.step at hs
  obtain ⟨-, hs⟩ := ite_none_left_eq_some.mp hs
  cases op with
  | socket domain type m noMem =>
    obtain ⟨hm, hs⟩ := ite_none_right_eq_some.mp hs
    cases hs
    exact h.sysSocket hm t domain type noMem
  | bind fd addr =>
    cases hs
    exact h.sysBind t fd addr
  | listen fd backlog =>
    cases hs
    exact h.sysListen t fd backlog
  | accept fd m noMem noWaiter =>
    obtain ⟨l, -, hs⟩ := bind_eq_some_iff.mp hs
    obtain ⟨hm, hs⟩ := ite_none_right_eq_some.mp hs
    cases hs
    exact (h.sysAccept hm t fd noMem noWaiter).finish t _
  | connect fd addr m noMem noWaiter =>
    obtain ⟨s, -, hs⟩ := bind_eq_some_iff.mp hs
    obtain ⟨hm, hs⟩ := ite_none_right_eq_some.mp hs
    cases hs
    exact (h.sysConnect hm t fd addr noMem noWaiter).finish t _
  | socketpair type addr m0 m1 noMem0 noMem1 copyFails =>
    obtain ⟨⟨hm0, hm1, hne⟩, hs⟩ := ite_none_right_eq_some.mp hs
    cases hs
    exact h.sysSocketpair t type addr hm0 hm1 hne noMem0 noMem1 copyFails
  | shutdown fd =>
    cases hs
    exact h.sysShutdown t fd
  | close fd => exact h.closeFd (fun s => hg fd s rfl) hs
  | share fd t' fd' => exact h.share hs
  | recv fd buf len f =>
    obtain ⟨s, -, rfl⟩ := map_eq_some_iff.mp hs
    exact h.quiet (quiet_finish (quiet_sysRecv k t s buf len f) t _)
  | read fd buf len f =>
    obtain ⟨s, -, rfl⟩ := map_eq_some_iff.mp hs
    exact h.quiet (quiet_finish (quiet_sysRead k t s buf len f) t _)
  | send fd buf data f =>
    obtain ⟨s, -, rfl⟩ := map_eq_some_iff.mp hs
    exact h.quiet (quiet_finish (quiet_sysSend k t s buf data f) t _)
  | write fd data f =>
    obtain ⟨s, -, rfl⟩ := map_eq_some_iff.mp hs
    exact h.quiet (quiet_finish (quiet_sysWrite k t s data f) t _)

def Step (k k' : Kernel) : Prop := ∃ t op, step k t op = some k'

/-- A step in which the last descriptor of a socket is closed only when the socket is unshared. -/
def GuardedStep (k k' : Kernel) : Prop := ∃ t op, Guard k t op ∧ step k t op = some k'

/-- In every run in which only unshared sockets are closed no pointer is left behind. -/
theorem pointersLive_of_unshared {k : Kernel} (h : Run.Reachable Init GuardedStep k) : PointersLive k := by
  have hinv := h.invariant PointerInv (fun _ hi => hi.inv) fun _ _ hi ⟨_, _, hg, hs⟩ => hi.step hg hs
  exact hinv.toPointersLive

/-! ## A datagram socket -/

def noSockets : Kernel where
  task := fun _ => ⟨false, 0, 0, fun _ => 0, none⟩
  sock := fun _ => newSock .stream fun _ => 0
  live := fun _ => false
  bound := []
  fds := []
  refcount := fun _ => 0
  made := fun _ => none
  history := []

def next (k : Kernel) (op : Tid × Op) : Option Kernel := step k op.1 op.2

theorem init_noSockets : Init noSockets := ⟨fun _ => rfl, rfl, rfl⟩

/-- Task 1 binds the datagram socket 10, task 2 connects the socket 11 to it, and task 1
closes it: the peer of 11 is freed memory. -/
theorem not_always_pointersLive : ¬∀ k, Run.Reachable Init Step k → PointersLive k := by
  intro h
  have hrun : (Run.exec next noSockets [(1, .socket 1 (some .dgram) ⟨some 10, fun _ => 0⟩ false),
      (1, .bind 0 (some (1, [97]))), (2, .socket 1 (some .dgram) ⟨some 11, fun _ => 0⟩ false),
      (2, .connect 0 (some (1, [97])) ⟨none, fun _ => 0⟩ false false), (1, .close 0)]).map
        (fun k => (k.live 10, k.live 11, (k.sock 11).peer)) = some (false, true, some 10) := by decide +kernel
  obtain ⟨k, hk, heq⟩ := Option.map_eq_some_iff.mp hrun
  obtain ⟨hdead, heq⟩ := Prod.mk.inj heq
  obtain ⟨hlive, hpeer⟩ := Prod.mk.inj heq
  have hreach : Run.Reachable Init Step k :=
    (Run.Reachable.start init_noSockets).exec (fun _ op _ hst => ⟨op.1, op.2, hst⟩) hk
  have hl := (h k hreach).peer 11 10 hlive hpeer
  rw [hdead] at hl
  cases hl

/-- A pair of stream sockets, one of which is closed: the other has no peer any more. -/
theorem pointersLive_of_unshared_pair : ∃ k, (k.sock 11).peer = none ∧ k.live 10 = false ∧ PointersLive k := by
  have hrun : (next noSockets (1, .socketpair (some .stream) 0x400000 ⟨some 10, fun _ => 0⟩
      ⟨some 11, fun _ => 0⟩ false false false)).map (fun k => (k.live, (k.sock 10).peer, (k.sock 11).backlog)) =
      some (Function.update (Function.update (fun _ => false) 10 true) 11 true, some 11, []) := rfl
  have hlast : (Run.exec next noSockets [(1, .socketpair (some .stream) 0x400000 ⟨some 10, fun _ => 0⟩
      ⟨some 11, fun _ => 0⟩ false false false), (1, .close 0)]).map (fun k => ((k.sock 11).peer, k.live 10)) =
      some (none, false) := rfl
  obtain ⟨k, hk, heq⟩ := Option.map_eq_some_iff.mp hrun
  obtain ⟨hlive, heq⟩ := Prod.mk.inj heq
  obtain ⟨hpeer, hback⟩ := Prod.mk.inj heq
  obtain ⟨k', hk', heq'⟩ := Option.map_eq_some_iff.mp hlast
  obtain ⟨hpeer', hdead⟩ := Prod.mk.inj heq'
  have hunshared : Unshared k 10 := by
    intro s' hl hne
    have hs : s' = 11 := by
      by_contra h11
      rw [hlive, Function.update_of_ne h11, Function.update_of_ne hne] at hl
      cases hl
    rw [hs, hback]
    exact ⟨List.not_mem_nil, fun _ => hpeer⟩
  have hclose : step k 1 (.close 0) = some k' := by
    have hsplit : Run.exec next noSockets _ = _ := hk'
    unfold Run.exec at hsplit
    rw [hk] at hsplit
    obtain ⟨l, hl, he⟩ := Option.bind_eq_some_iff.mp hsplit
    cases hl
    obtain ⟨m, hm, he⟩ := Option.bind_eq_some_iff.mp he
    cases he
    exact hm
  have hfrom : sockFromFd k 1 0 = some 10 := by
    have hfd : (next noSockets (1, .socketpair (some .stream) 0x400000 ⟨some 10, fun _ => 0⟩
        ⟨some 11, fun _ => 0⟩ false false false)).map (sockFromFd · 1 0) = some (some 10) := rfl
    rw [hk] at hfd
    exact Option.some.inj hfd
  have hpair : Run.Reachable Init GuardedStep k :=
    (Run.Reachable.start init_noSockets).step ⟨1, _, (by intro fd s he; cases he), hk⟩
  refine ⟨k', hpeer', hdead, pointersLive_of_unshared (hpair.step ⟨1, .close 0, fun fd s he hs _ => ?_, hclose⟩)⟩
  cases he
  rw [hfrom] at hs
  cases hs
  exact hunshared

end Serotonin.Socket
