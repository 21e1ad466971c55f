import Serotonin.Handles.Counts

/-! Every call keeps the counts, so in every state that a run reaches a handle is there as
long as a descriptor leads to it, and the node of a pipe, a socket or a disk file as long as
its handle. -/

namespace Serotonin.Handles

open Function List
open Files (Tid NodeId HandleId FileHandle fdMax)
open RefCount

namespace Inv

variable {s : System} {loose : List HandleId} {pend : List NodeId} {t : Tid} {h : HandleId} {n : NodeId}
  {x : FileHandle} {y : Node}

/-! ## `sys_open` -/

/-- The node is there, and it is no pipe and no socket. -/
def OpenNode (s : System) (o : Option NodeId) : Prop := ∀ n ∈ o, ∃ y, s.node n = some y ∧ y.isChannel = false

theorem OpenNode.notChannel {o : Option NodeId} (ho : OpenNode s o) :
    ∀ n ∈ o, ∀ y, s.node n = some y → y.isChannel = false := fun n hn y hy => by
  obtain ⟨y', hy', hc⟩ := ho n hn
  rw [hy] at hy'
  cases hy'
  exact hc

theorem OpenNode.read {o : Option NodeId} (ho : OpenNode s o) (r : OpenInput) : Returns (r.read s o) fun _ => True := by
  cases o with
  | none => exact .pure trivial
  | some n =>
    obtain ⟨y, hy, -⟩ := ho n rfl
    simp only [OpenInput.read, System.getNode, hy]
    exact .pure trivial

theorem openHandle {o : Option NodeId} {r : OpenInput} (hi : Inv s [] o.toList) (ht : t ∈ s.tids)
    (ho : OpenNode s o) (hr : ∀ h ∈ r.malloc, s.handle h = none) :
    Returns (openHandle s t o r) fun s' => Inv s' [] [] ∧ KeepsNodes s s' := by
  have hi : Inv s [] (o.toList ++ []) := by simpa using hi
  unfold Handles.openHandle
  cases hm : r.malloc with
  | none => exact (hi.vfsClose ho.notChannel).bind fun s' hs' => .pure ⟨hs'.1.ret t _, hs'.2.toKeepsNodes.finish rfl rfl⟩
  | some h =>
    refine (ho.read r).bind fun z _ => ?_
    show Returns (Handles.allocFd (s.newHandle h ⟨o, r.flags, _, 0⟩) t h >>= _) _
    generalize (if r.flags &&& Files.oAppend ≠ 0 then z.size else 0) = offset
    have hget : (s.newHandle h ⟨o, r.flags, offset, 0⟩).handle h = some ⟨o, r.flags, offset, 0⟩ :=
      update_self ..
    have hkeep : KeepsNodes s (s.newHandle h ⟨o, r.flags, offset, 0⟩) := .of_eq rfl rfl
    have hnew := hi.newHandle (h := h) (x := ⟨o, r.flags, offset, 0⟩) (hr h hm) rfl
    refine (hnew.allocFd ht hget).bind fun a ha => ?_
    cases a with
    | some p =>
      obtain ⟨hp, hin⟩ := ha p rfl
      rw [erase_cons_head] at hp
      exact .pure ⟨hp.ret t _, (hkeep.trans hin.toKeepsNodes).finish rfl rfl⟩
    | none =>
      obtain ⟨s₁, hs₁, hi₁, hk₁⟩ := hnew.vfsClose_freeHandle hget ho.notChannel
      refine ⟨s₁.ret t (-Files.eio), ?_, hi₁.ret t _, (hkeep.trans hk₁).finish rfl rfl⟩
      show (Handles.vfsClose _ o >>= fun s => s.freeHandle h >>= fun s => pure (s.ret t (-Files.eio))) = _
      rw [← bind_assoc, hs₁]
      rfl

theorem truncated {o : Option NodeId} {r : OpenInput} (hi : Inv s loose pend) (ho : OpenNode s o) :
    Returns (truncated s o r) fun p => Inv p.2 loose pend ∧ OpenNode p.2 o ∧ SameTables s p.2 := by
  cases o with
  | none => exact .pure ⟨hi, ho, .refl s⟩
  | some n =>
    obtain ⟨y, hy, hc⟩ := ho n rfl
    refine .ite (fun _ => .pure ⟨hi, ho, .refl s⟩) fun _ => ?_
    simp only [System.getNode, hy]
    refine .pure ⟨hi.setNode (fun _ _ => rfl) ?_, fun m hm => ?_, .setNode hy rfl⟩
    · have hn := hi.node n
      rw [hy] at hn
      cases hk : s.keeper n <;> rw [hk] at hn <;> exact hn
    · cases Option.mem_some_iff.mp hm
      exact ⟨_, update_self .., hc⟩

theorem nodeCreated {o : Option NodeId} {r : OpenInput} (hi : Inv s [] o.toList) (ht : t ∈ s.tids)
    (ho : OpenNode s o) (hr : ∀ h ∈ r.malloc, s.handle h = none) :
    Returns (nodeCreated s t o r) fun s' => Inv s' [] [] := by
  unfold Handles.nodeCreated
  have hopen := (hi.openHandle ht ho hr).mono fun s' hs' => hs'.1
  refine .ite (fun _ => (ho.read r).bind fun z _ => .ite (fun _ => ?_) fun _ => hopen) fun _ => hopen
  refine (hi.truncated (r := r) ho).bind fun ⟨v, s₁⟩ ⟨hi₁, ho₁, hsame⟩ => .ite (fun _ => ?_) fun _ => ?_
  · have hi₁ : Inv s₁ [] (o.toList ++ []) := by simpa using hi₁
    exact (hi₁.vfsClose ho₁.notChannel).bind fun s₂ hs₂ => .pure (hs₂.1.ret t _)
  · exact (hi₁.openHandle (hsame.tids ▸ ht) ho₁ fun h hh => by rw [hsame.handle]; exact hr h hh).mono
      fun s' hs' => hs'.1

/-- The second half of `sys_open` for a path that leads to a node. -/
theorem checkOpened {r : OpenInput} (hi : Inv s [] [n]) (ht : t ∈ s.tids) (ho : OpenNode s (some n))
    (hr : ∀ h ∈ r.malloc, s.handle h = none) :
    Returns (checkOpened s t n r) fun s' => Inv s' [] [] := by
  have hi' : Inv s [] ((some n).toList ++ []) := hi
  have hclose : ∀ v, Returns (do let s ← Handles.vfsClose s (some n); return s.ret t v : Except Fault System)
      fun s' => Inv s' [] [] := fun v =>
    (hi'.vfsClose ho.notChannel).bind fun s' hs' => .pure (hs'.1.ret t v)
  obtain ⟨y, hy, -⟩ := ho n rfl
  unfold Handles.checkOpened
  refine .ite (fun _ => hclose _) fun _ => ?_
  simp only [System.getNode, hy]
  exact .ite (fun _ => hclose _) fun _ => nodeCreated (o := some n) hi ht ho hr

theorem vfsCreate {c : Created} (hi : Inv s [] []) (hnone : s.node c.id = none)
    (hch : c.node.flags &&& (vfsFlagPipe ||| vfsFlagSocket) = 0)
    (hdisk : c.node.flags &&& Files.vfsFlagDiskio ≠ 0 ↔ c.onDisk) :
    Inv (vfsCreate s (some c)).2 [] [c.id] ∧ OpenNode (vfsCreate s (some c)).2 (some c.id) := by
  have hch' : Node.isChannel { c.node with refcount := 1 } = false := by simp [Node.isChannel, hch]
  have hdisk' : Node.isDisk { c.node with refcount := 1 } = c.onDisk := by
    rw [Bool.eq_iff_iff, ← hdisk]
    simp [Node.isDisk]
  refine ⟨hi.newNode hnone ?_, fun m hm => ?_⟩
  · cases hc : c.onDisk with
    | true => exact ⟨rfl, fun _ => ⟨hdisk'.trans hc, rfl⟩⟩
    | false => exact ⟨hch', rfl, fun h => absurd (h.symm.trans (hdisk'.trans hc)) Bool.noConfusion⟩
  · cases Option.mem_some_iff.mp hm
    exact ⟨_, update_self .., hch'⟩

theorem sysOpen {r : OpenInput} (hi : Inv s [] []) (ht : t ∈ s.tids) (hr : r.Fits s) :
    Returns (sysOpen s t r) fun s' => Inv s' [] [] := by
  obtain ⟨hfound, hcreated, hmalloc⟩ := hr
  unfold Handles.sysOpen
  refine .ite (fun _ => .pure (hi.ret t _)) fun _ => ?_
  cases hf : r.found with
  | none =>
    refine .ite (fun _ => .ite (fun _ => .pure (hi.ret t _)) fun _ => ?_) fun _ => .pure (hi.ret t _)
    cases hc : r.created with
    | none => exact nodeCreated (o := none) hi ht (fun m hm => absurd hm (Option.not_mem_none m)) hmalloc
    | some c =>
      obtain ⟨hnone, hch, hdisk⟩ := hcreated c hc
      obtain ⟨hi', ho'⟩ := hi.vfsCreate hnone hch hdisk
      exact nodeCreated (o := some c.id) hi' ht ho' hmalloc
  | kept n =>
    rw [hf] at hfound
    obtain ⟨y, hy, hi', hch⟩ := hi.vfsOpen_kept hfound
    simp only [Handles.vfsOpen, System.getNode, hy]
    refine checkOpened hi' ht (fun m hm => ?_) hmalloc
    cases Option.mem_some_iff.mp hm
    exact ⟨_, update_self .., hch⟩
  | made n y =>
    rw [hf] at hfound
    obtain ⟨hnone, hch, hdisk⟩ := hfound
    have hch' : Node.isChannel { y with refcount := 1 } = false := by simp [Node.isChannel, hch]
    refine checkOpened (hi.newNode hnone ⟨rfl, fun _ => ⟨by simpa [Node.isDisk] using hdisk, rfl⟩⟩) ht (fun m hm => ?_) hmalloc
    cases Option.mem_some_iff.mp hm
    exact ⟨_, update_self .., hch'⟩

/-! ## Closing and sharing -/

theorem sysClose {fd : Int} (hi : Inv s [] []) (ht : t ∈ s.tids) (wordBefore : Bool) :
    Returns (sysClose s t fd wordBefore) fun s' => Inv s' [] [] ∧ KeepsNodes s s' := by
  unfold Handles.sysClose
  refine .ite (fun _ => .pure ?_) fun _ => .ite (fun _ => .pure ⟨hi.ret t _, .of_eq rfl rfl⟩) fun _ => ?_
  · split
    · exact ⟨hi, .refl s⟩
    · exact ⟨hi.ret t _, .of_eq rfl rfl⟩
  · exact (hi.closeFd ht _).mono fun s' hs' => ⟨hs'.1, hs'.2.toKeepsNodes.finish rfl rfl⟩

theorem sysDup {oldfd newfd : Int} (hi : Inv s [] []) (ht : t ∈ s.tids) :
    Returns (sysDup s t oldfd newfd) fun s' => Inv s' [] [] ∧ KeepsNodes s s' := by
  unfold Handles.sysDup
  refine .ite (fun _ => .pure ⟨hi.ret t _, .of_eq rfl rfl⟩) fun hold => ?_
  have hold' : oldfd.toNat < fdMax := by omega
  cases hs : s.fdTable (t, oldfd.toNat) with
  | none => exact .pure ⟨hi.ret t _, .of_eq rfl rfl⟩
  | some h =>
    obtain ⟨x, hx⟩ := hi.slot_handle ht hold' hs
    refine .ite (fun _ => (hi.allocFd ht hx).bind fun a ha => ?_) fun hneg => .ite (fun _ => .pure ⟨hi.ret t _, .of_eq rfl rfl⟩)
      fun hnew => .ite (fun _ => .pure ⟨hi.ret t _, .of_eq rfl rfl⟩) fun hne => (hi.closeFd ht newfd.toNat).bind fun s₁ ⟨hi₁, hc₁⟩ => ?_
    · cases a with
      | none => exact .pure ⟨hi.ret t _, .of_eq rfl rfl⟩
      | some p => exact .pure ⟨(ha p rfl).1.ret t _, (ha p rfl).2.toKeepsNodes.finish rfl rfl⟩
    · have hnew' : newfd.toNat < fdMax := by omega
      have hne' : ((t, oldfd.toNat) : Tid × Nat) ≠ (t, newfd.toNat) := fun e => by
        have : oldfd.toNat = newfd.toNat := congrArg Prod.snd e
        omega
      have ht₁ : t ∈ s₁.tids := hc₁.tids ▸ ht
      have hs₁ : s₁.fdTable (t, oldfd.toNat) = some h := (hc₁.other _ hne').trans hs
      obtain ⟨x₁, hx₁⟩ := hi₁.slot_handle ht₁ hold' hs₁
      have hshare := hi₁.share ht₁ hnew' (hc₁.closed hnew') hx₁
      rw [hs₁]
      simp only [System.getHandle, System.setFd, hx₁]
      exact .pure ⟨hshare.ret t _, hc₁.toKeepsNodes.finish rfl rfl⟩

/-! ## Pipes and sockets -/

theorem channelNode_isChannel (c : Files.Cred) {flags : BitVec 32} (mode : BitVec 32)
    (hf : flags = vfsFlagPipe ∨ flags = vfsFlagSocket) : (channelNode c flags mode).isChannel = true := by
  rcases hf with rfl | rfl <;> simp [Node.isChannel, channelNode] <;> decide

theorem newChannel (hi : Inv s loose pend) (hnone : s.node n = none) (hy : y.isChannel = true) :
    Inv (s.newNode n y .caller) loose (n :: pend) :=
  hi.newNode hnone ⟨rfl, fun h => absurd (h.symm.trans hy) Bool.noConfusion⟩

theorem sockMakeFdFor {m : Option Memory} (hi : Inv s [] []) (ht : t ∈ s.tids) (hm : ∀ x ∈ m, x.Fresh s) :
    Returns (sockMakeFdFor s t m) fun p => Inv p.2 [] [] := by
  cases m with
  | none => exact .pure hi
  | some m =>
    obtain ⟨hnode, hhandle⟩ := hm m rfl
    have hi₁ := hi.newChannel hnode (channelNode_isChannel (s.cred t) (sIfsock ||| 0x180) (.inr rfl))
    have hi₂ := hi₁.newHandleOn hhandle Files.oRdwr 0
    refine (hi₂.allocFd ht (update_self ..)).bind fun a ha => ?_
    cases a with
    | some p =>
      have hp := (ha p rfl).1
      rw [erase_cons_head] at hp
      exact .pure hp
    | none =>
      refine (hi₂.freeHandleOn (update_self ..)).bind ?_
      rintro _ ⟨rfl, hi₃⟩
      refine (hi₃.freeNode (update_self ..)).bind ?_
      rintro _ ⟨rfl, hi₄⟩
      exact .pure hi₄

theorem sysSocket {domain type : Nat} {m : SockMemory} (hi : Inv s [] []) (ht : t ∈ s.tids)
    (hm : ∀ x ∈ m.fd, x.Fresh s) : Returns (sysSocket s t domain type m) fun s' => Inv s' [] [] :=
  .ite (fun _ => .pure (hi.ret t _)) fun _ => .ite (fun _ => .pure (hi.ret t _)) fun _ =>
    .ite (fun _ => .pure (hi.ret t _)) fun _ => (hi.sockMakeFdFor ht hm).bind fun _ hp => .pure (hp.ret t _)

theorem sockFromFd {fd : Int} (hi : Inv s [] []) (ht : t ∈ s.tids) : Returns (sockFromFd s t fd) fun _ => True := by
  unfold Handles.sockFromFd
  refine .ite (fun _ => .pure trivial) fun hfd => ?_
  cases hs : s.fdTable (t, fd.toNat) with
  | none => exact .pure trivial
  | some h =>
    obtain ⟨x, hx⟩ := hi.slot_handle ht (by omega) hs
    have hget : s.getHandle h = .ok x := by simp only [System.getHandle, hx]
    refine Returns.bind (Q := fun y => y = x) ⟨x, hget, rfl⟩ fun y hy => ?_
    subst hy
    cases hn : y.node with
    | none => exact .pure trivial
    | some n =>
      obtain ⟨z, hz⟩ := hi.node_isSome (Nat.add_pos_left (hi.openers_pos hx hn) _)
      have hnode : s.getNode n = .ok z := by simp only [System.getNode, hz]
      exact Returns.bind (Q := fun _ => True) ⟨z, hnode, trivial⟩ fun _ _ => .pure trivial

theorem sockAcceptDeliver {m : SockMemory} (hi : Inv s [] []) (ht : t ∈ s.tids) (hm : ∀ x ∈ m.fd, x.Fresh s) :
    Returns (sockAcceptDeliver s t m) fun s' => Inv s' [] [] :=
  .ite (fun _ => .pure (hi.ret t _)) fun _ => (hi.sockMakeFdFor ht hm).bind fun _ hp => .pure (hp.ret t _)

theorem sysAccept {fd : Int} {r : AcceptInput} (hi : Inv s [] []) (ht : t ∈ s.tids)
    (hm : ∀ x ∈ r.memory.fd, x.Fresh s) : Returns (sysAccept s t fd r) fun s' => Inv s' [] [] := by
  refine (hi.sockFromFd ht).bind fun o _ => ?_
  cases o with
  | none => exact .pure (hi.ret t _)
  | some n =>
    refine .ite (fun _ => .pure (hi.ret t _)) fun _ => .ite (fun _ => hi.sockAcceptDeliver ht hm) fun _ => .pure ?_
    refine hi.setWaiters fun t' ht' => ?_
    rcases mem_append.mp ht' with h | h
    · exact hi.waiters n t' h
    · rw [mem_singleton.mp h]
      exact ht

theorem sysConnect {fd : Int} {r : ConnectInput} (hi : Inv s [] []) (ht : t ∈ s.tids)
    (hm : ∀ x ∈ r.memory.fd, x.Fresh s) : Returns (sysConnect s t fd r) fun s' => Inv s' [] [] := by
  refine (hi.sockFromFd ht).bind fun o _ => ?_
  cases o with
  | none => exact .pure (hi.ret t _)
  | some m =>
    cases hl : r.listener with
    | error v =>
      exact .pure (hi.ret t _)
    | ok n =>
      cases hw : s.acceptWaiters n with
      | nil =>
        simp only [hw]
        exact .pure hi
      | cons w ws =>
        simp only [hw]
        -- The connection is made for a task that waits, and a task that waits lives.
        have hw' : w ∈ s.tids := hi.waiters n w (by rw [hw]; exact mem_cons_self)
        have hi' : Inv (s.setWaiters n ws) [] [] := hi.setWaiters fun t' ht' =>
          hi.waiters n t' (by rw [hw]; exact mem_cons_of_mem _ ht')
        exact (hi'.sockAcceptDeliver hw' hm).bind fun s' hs' => .pure (hs'.ret t _)

/-- The two ends of a pipe before they have descriptors. -/
structure PipeEnds (s : System) (rd wr : Memory) : Prop where
  inv : Inv s [rd.handle, wr.handle] []
  readHandle : s.handle rd.handle = some ⟨some rd.node, Files.oRdonly, 0, 0⟩
  writeHandle : s.handle wr.handle = some ⟨some wr.node, Files.oWronly, 0, 0⟩
  readNode : s.keeper rd.node = .caller
  writeNode : s.keeper wr.node = .caller

theorem newPipe {rd wr : Memory} (hi : Inv s [] []) (t : Tid) (hrd : rd.Fresh s) (hwr : wr.Fresh s)
    (hn : rd.node ≠ wr.node) (hh : rd.handle ≠ wr.handle) : PipeEnds (newPipe s t rd wr) rd wr := by
  have hy : (channelNode (s.cred t) vfsFlagPipe (sIfifo ||| 0x180)).isChannel = true := channelNode_isChannel _ _ (.inl rfl)
  have h₁ := hi.newChannel hrd.1 hy
  have h₂ := (h₁.newChannel ((update_of_ne (Ne.symm hn) _ _).trans hwr.1) hy).perm (.refl _) (.swap _ _ _)
  have h₃ := h₂.newHandleOn hrd.2 Files.oRdonly 0
  have h₄ := h₃.newHandleOn ((update_of_ne (Ne.symm hh) _ _).trans hwr.2) Files.oWronly 0
  exact
    { inv := h₄.perm (.swap _ _ _) (.refl _)
      readHandle := (update_of_ne hh _ _).trans (update_self ..)
      writeHandle := update_self ..
      readNode := (update_of_ne hn _ _).trans (update_self ..)
      writeNode := update_self .. }

theorem newPipe_tids (s : System) (t : Tid) (rd wr : Memory) : (Handles.newPipe s t rd wr).tids = s.tids := by
  simp only [Handles.newPipe, System.newHandle_tids, System.newNode_tids]

theorem sysPipe {r : PipeInput} (hi : Inv s [] []) (ht : t ∈ s.tids)
    (hr : ∀ m ∈ r.memory, m.1.Fresh s ∧ m.2.Fresh s ∧ m.1.node ≠ m.2.node ∧ m.1.handle ≠ m.2.handle) :
    Returns (sysPipe s t r) fun s' => Inv s' [] [] := by
  unfold Handles.sysPipe
  refine .ite (fun _ => .pure (hi.ret t _)) fun _ => ?_
  cases hm : r.memory with
  | none => exact .pure (hi.ret t _)
  | some m =>
    obtain ⟨rd, wr⟩ := m
    obtain ⟨hrd, hwr, hn, hh⟩ : rd.Fresh s ∧ wr.Fresh s ∧ rd.node ≠ wr.node ∧ rd.handle ≠ wr.handle := hr (rd, wr) hm
    obtain ⟨hpipe, hrd₁, hwr₁, hkr, hkw⟩ := hi.newPipe t hrd hwr hn hh
    have ht₁ : t ∈ (Handles.newPipe s t rd wr).tids := by
      rw [newPipe_tids]
      exact ht
    show Returns (Handles.allocFd (Handles.newPipe s t rd wr) t rd.handle >>= _) _
    generalize Handles.newPipe s t rd wr = s₁ at *
    refine (hpipe.allocFd ht₁ hrd₁).bind fun a ha => ?_
    cases a with
    | none =>
      refine (hpipe.freeHandleOn hrd₁).bind ?_
      rintro _ ⟨rfl, h₂⟩
      refine (h₂.freeHandleOn ((update_of_ne (Ne.symm hh) _ _).trans hwr₁)).bind ?_
      rintro _ ⟨rfl, h₃⟩
      refine ((h₃.perm (.refl _) (.swap _ _ _)).freeNode hkr).bind ?_
      rintro _ ⟨rfl, h₄⟩
      refine (h₄.freeNode ((update_of_ne (Ne.symm hn) _ _).trans hkw)).bind ?_
      rintro _ ⟨rfl, h₅⟩
      exact .pure (h₅.ret t _)
    | some p =>
      obtain ⟨readFd, s₂⟩ := p
      obtain ⟨h₂, hin₂⟩ := ha _ rfl
      rw [erase_cons_head] at h₂
      have ht₂ : t ∈ s₂.tids := hin₂.tids ▸ ht₁
      have hwr₂ := (hin₂.other wr.handle (Ne.symm hh)).trans hwr₁
      refine (h₂.allocFd ht₂ hwr₂).bind fun a ha => ?_
      cases a with
      | none =>
        refine (h₂.closeFd ht₂ readFd).bind fun s₃ ⟨h₃, hc₃⟩ => ?_
        refine (h₃.freeHandleOn ((hc₃.loose wr.handle mem_cons_self).trans hwr₂)).bind ?_
        rintro _ ⟨rfl, h₄⟩
        refine (h₄.freeNode (hc₃.keeper ▸ hin₂.keeper ▸ hkw)).bind ?_
        rintro _ ⟨rfl, h₅⟩
        exact .pure (h₅.ret t _)
      | some p =>
        obtain ⟨writeFd, s₃⟩ := p
        obtain ⟨h₃, hin₃⟩ := ha _ rfl
        rw [erase_cons_head] at h₃
        refine .ite (fun _ => .pure (h₃.ret t _)) fun _ => ?_
        refine (h₃.closeFd (hin₃.tids ▸ ht₂) readFd).bind fun s₄ ⟨h₄, hc₄⟩ => ?_
        exact (h₄.closeFd (hc₄.tids ▸ hin₃.tids ▸ ht₂) writeFd).bind fun s₅ hs₅ => .pure (hs₅.1.ret t _)

/-! ## Fork and exit -/

/-- The handles of a table gain one reference for each descriptor. -/
theorem shareFds {child : Tid} {fds : List Nat}
    (hs : ∀ fd ∈ fds, ∀ h, s.fdTable (child, fd) = some h → (s.handle h).isSome) :
    Returns (fds.foldlM (shareFd child) s) fun s' => s' = { s with
      handle := fun h => (s.handle h).map fun x =>
        { x with refcount := x.refcount + refs fds (fun fd => s.fdTable (child, fd)) h } } := by
  have hloop := Returns.foldlM (f := shareFd child) (l := fds) (b := s) (fun rest s' => ∃ done, fds = done ++ rest ∧
    s' = { s with handle := fun h => (s.handle h).map fun x =>
      { x with refcount := x.refcount + refs done (fun fd => s.fdTable (child, fd)) h } }) ⟨[], rfl, by simp⟩ ?_
  · refine hloop.mono ?_
    rintro s' ⟨done, hdone, rfl⟩
    rw [append_nil] at hdone
    rw [hdone]
  · rintro fd rest s' ⟨done, hdone, rfl⟩
    have hstep : ∀ h, refs (done ++ [fd]) (fun fd => s.fdTable (child, fd)) h =
        refs done (fun fd => s.fdTable (child, fd)) h + if s.fdTable (child, fd) = some h then 1 else 0 := fun h => by
      rw [refs_append, refs_cons, refs_nil, Nat.zero_add]
    unfold Handles.shareFd
    cases hfd : s.fdTable (child, fd) with
    | none =>
      refine .pure ⟨done ++ [fd], by simp [hdone], ?_⟩
      simp only [hstep, hfd]
      rfl
    | some h =>
      obtain ⟨x, hx⟩ := Option.isSome_iff_exists.mp (hs fd (by simp [hdone]) h hfd)
      simp only [System.getHandle, hx, Option.map_some]
      refine .pure ⟨done ++ [fd], by simp [hdone], ?_⟩
      simp only [hstep, hfd, System.setHandle]
      congr 1
      funext k
      by_cases hk : k = h
      · subst hk
        simp [hx, Nat.add_assoc]
      · simp [hk, Ne.symm hk]

theorem taskFork {child : Tid} (hi : Inv s [] []) (ht : t ∈ s.tids) (hchild : child ∉ s.tids) :
    Returns (taskFork s t child) fun s' => Inv s' [] [] ∧ KeepsNodes s s' := by
  have hdiff : ∀ p ∈ slots s.tids, p.1 ≠ child := fun p hp e => hchild (e ▸ (mem_slots.mp hp).1)
  refine (shareFds fun fd hfd h hh => ?_).mono ?_
  · obtain ⟨x, hx⟩ := hi.slot_handle ht (mem_range.mp hfd) (by simpa using hh)
    simp [hx]
  · rintro s' rfl
    simp only [if_true]
    have hcount : ∀ k, refs (slots (child :: s.tids))
        (fun p => if p.1 = child then s.fdTable (t, p.2) else s.fdTable p) k =
          s.holders k + refs (List.range fdMax) (fun fd => s.fdTable (t, fd)) k := fun k => by
      rw [refs_slots_cons, Nat.add_comm]
      congr 1
      · exact refs_congr (fun p hp => if_neg (hdiff p hp)) k
      · simp
    have hpos : ∀ k, 0 < refs (List.range fdMax) (fun fd => s.fdTable (t, fd)) k → 0 < s.holders k := fun k hk => by
      obtain ⟨fd, hfd, hs⟩ := refs_pos.mp hk
      exact hi.holders_pos ht (mem_range.mp hfd) hs
    refine ⟨?_, .of_eq rfl rfl⟩
    refine ⟨nodup_cons.mpr ⟨hchild, hi.tids⟩, fun m u hu => mem_cons_of_mem _ (hi.waiters m u hu),
      hi.handles, fun k => by simpa using hi.listed k, fun k z hz => ?_, fun k => ?_, hi.loose_nodup,
      fun k hk => absurd hk not_mem_nil, fun m => ?_⟩
    · obtain ⟨x, hx, rfl⟩ := Option.map_eq_some_iff.mp hz
      show x.refcount + _ = refs (slots (child :: s.tids)) _ k
      rw [hcount k, hi.count k x hx]
    · show k ∈ s.handles ↔ 0 < refs (slots (child :: s.tids)) _ k ∨ _
      rw [hcount k, hi.held k]
      have := hpos k
      constructor
      · rintro (h | h)
        · exact .inl (by omega)
        · exact .inr h
      · rintro (h | h)
        · exact .inl (by omega)
        · exact .inr h
    · have hn := hi.node m
      have ho : refs s.handles s.nodeOf m = s.openers m := rfl
      rw [← ho] at hn
      have hsame : ∀ k, s.nodeOf k = ((s.handle k).map fun x =>
          { x with refcount := x.refcount + refs (List.range fdMax) (fun fd => s.fdTable (t, fd)) k }).bind (·.node) := by
        intro k
        rw [System.nodeOf]
        cases s.handle k <;> rfl
      rw [refs_congr (fun k _ => hsame k)] at hn
      exact hn

/-- A task whose table is empty can go. -/
theorem erase (hi : Inv s [] []) (ht : t ∈ s.tids) (hempty : ∀ fd < fdMax, s.fdTable (t, fd) = none)
    (hwait : ∀ n, t ∉ s.acceptWaiters n) : Inv { s with tids := s.tids.erase t } [] [] := by
  have hcount : ∀ k, s.holders k = refs (slots (s.tids.erase t)) s.fdTable k := fun k => by
    have hperm : (slots s.tids).Perm (slots (t :: s.tids.erase t)) := (perm_cons_erase ht).product_right _
    rw [System.holders, refs_perm hperm, refs_slots_cons, refs_eq_zero.mpr, Nat.zero_add]
    intro fd hfd
    rw [hempty fd (mem_range.mp hfd)]
    exact (Option.some_ne_none k).symm
  refine ⟨hi.tids.erase t, fun n u hu => hi.tids.mem_erase_iff.mpr ⟨fun e => hwait n (e ▸ hu), hi.waiters n u hu⟩,
    hi.handles, hi.listed, fun k x hx => (hi.count k x hx).trans (hcount k), fun k => ?_, hi.loose_nodup,
    fun k hk => absurd hk not_mem_nil, hi.node⟩
  rw [hi.held k, hcount k]
  rfl

theorem taskExit (hi : Inv s [] []) (ht : t ∈ s.tids) (hwait : ∀ n, t ∉ s.acceptWaiters n) :
    Returns (taskExit s t) fun s' => Inv s' [] [] ∧ KeepsNodes s s' := by
  have hloop := Returns.foldlM (f := fun s fd => Handles.closeFd s t fd) (l := List.range fdMax) (b := s)
    (fun rest s' => Inv s' [] [] ∧ s'.tids = s.tids ∧ KeepsNodes s s' ∧ (∀ n, ∀ u ∈ s'.acceptWaiters n, u ∈ s.acceptWaiters n) ∧
      ∀ fd < fdMax, fd ∉ rest → s'.fdTable (t, fd) = none)
    ⟨hi, rfl, .refl s, fun _ _ hu => hu, fun fd hfd hn => absurd (mem_range.mpr hfd) hn⟩ ?_
  · exact hloop.bind fun s₁ ⟨hi₁, htids, hk, hw, hempty⟩ => .pure ⟨hi₁.erase (htids ▸ ht)
      (fun fd hfd => hempty fd hfd not_mem_nil) fun n hn => hwait n (hw n t hn), hk.finish rfl rfl⟩
  · rintro fd rest s₁ ⟨hi₁, htids, hk, hw, hempty⟩
    refine (hi₁.closeFd (htids ▸ ht) fd).mono fun s₂ ⟨hi₂, hc⟩ => ⟨hi₂, hc.tids.trans htids, hk.trans hc.toKeepsNodes,
      fun n u hu => hw n u (hc.waiters n u hu), fun fd' hlt hn => ?_⟩
    by_cases he : fd' = fd
    · subst he
      exact hc.closed hlt
    · rw [hc.other (t, fd') fun e => he (congrArg Prod.snd e)]
      exact hempty fd' hlt fun hm => (mem_cons.mp hm).elim he hn

/-! ## Runs -/

theorem run {op : Op} (hi : Inv s [] []) (he : op.Enabled s) : Returns (op.run s) fun s' => Inv s' [] [] := by
  obtain ⟨ht, hw, hf⟩ := he
  cases op with
  | «open» t r => exact hi.sysOpen ht hf
  | close t fd b => exact (hi.sysClose ht b).mono fun s' hs' => hs'.1
  | dup t oldfd newfd => exact (hi.sysDup ht).mono fun s' hs' => hs'.1
  | pipe t r => exact hi.sysPipe ht hf
  | socket t domain type m => exact hi.sysSocket ht hf
  | accept t fd r => exact hi.sysAccept ht hf
  | connect t fd r => exact hi.sysConnect ht hf
  | fork t child => exact (hi.taskFork ht hf).mono fun s' hs' => hs'.1
  | exit t => exact (hi.taskExit ht hw).mono fun s' hs' => hs'.1

theorem bootFd (hi : Inv s [] (n :: pend)) (ht : initPid ∈ s.tids) (fd : Nat) (hfd : fd < fdMax)
    (hfree : s.fdTable (initPid, fd) = none) (hh : s.handle h = none) (flags : BitVec 32) :
    Inv (bootFd s fd h n flags) [] pend := by
  have hnew := hi.newHandleOn hh flags 0
  have hshare := hnew.share ht hfd hfree (update_self ..)
  rw [erase_cons_head] at hshare
  have he : (((s.newHandle h ⟨some n, flags, 0, 0⟩).setFd initPid fd (some h)).setHandle h ⟨some n, flags, 0, 0 + 1⟩) =
      Handles.bootFd s fd h n flags := by
    simp only [Handles.bootFd, System.newHandle, System.setHandle, System.setFd, update_idem]
  exact he ▸ hshare

/-- References to the node of a terminal are not counted. -/
theorem bare (hb : Bare s) {slave : NodeId} (hs : s.keeper slave = .terminal) : Inv s [] [slave, slave, slave] := by
  have hzero : ∀ h, s.holders h = 0 := fun h => refs_eq_zero.mpr fun p _ => by
    rw [hb.fdTable p]
    exact (Option.some_ne_none h).symm
  have hopen : ∀ n, s.openers n = 0 := fun n => by rw [System.openers, hb.handles, refs_nil]
  refine ⟨hb.tids ▸ nodup_singleton _, fun n t ht => ?_, hb.handles ▸ nodup_nil, fun h => ?_, fun h x hx => ?_,
    fun h => ?_, nodup_nil, fun h hh => absurd hh not_mem_nil, fun n => ?_⟩
  · rw [hb.waiters n] at ht
    exact absurd ht not_mem_nil
  · simp [hb.handles, hb.handle h]
  · rw [hb.handle h] at hx
    cases hx
  · simp [hb.handles, hzero h]
  · have hn := hb.nodes n
    by_cases hsl : n = slave
    · subst hsl
      rw [hs] at hn ⊢
      obtain ⟨y, hy, hrest⟩ := hn
      rw [Option.mem_def.mp hy]
      exact hrest
    · rw [hopen, count_eq_zero.mpr (by simp [hsl])]
      cases hk : s.keeper n with
      | caller =>
        rw [hk] at hn
        rw [show s.node n = none from hn]
        rfl
      | fileSystem own =>
        rw [hk] at hn
        obtain ⟨y, hy, hc, href, hd⟩ := hn
        rw [Option.mem_def.mp hy]
        exact ⟨hc, by omega, hd⟩
      | terminal =>
        rw [hk] at hn
        obtain ⟨y, hy, hrest⟩ := hn
        rw [Option.mem_def.mp hy]
        exact hrest

theorem bootFd_fdTable (s : System) (fd : Nat) (h : HandleId) (n : NodeId) (flags : BitVec 32) :
    (Handles.bootFd s fd h n flags).fdTable = update s.fdTable (initPid, fd) (some h) := rfl

theorem bootFd_handle (s : System) (fd : Nat) (h : HandleId) (n : NodeId) (flags : BitVec 32) :
    (Handles.bootFd s fd h n flags).handle = update s.handle h (some ⟨some n, flags, 0, 1⟩) := rfl

theorem boot (hb : Boot s) : Inv s [] [] := by
  obtain ⟨s₀, slave, h₀, h₁, h₂, hbare, hslave, hn, rfl⟩ := hb
  simp only [nodup_cons, mem_cons, not_mem_nil, or_false, not_or] at hn
  obtain ⟨⟨h₀₁, h₀₂⟩, h₁₂, -⟩ := hn
  have ht : initPid ∈ s₀.tids := by simp [hbare.tids]
  have i₀ := (bare hbare hslave).bootFd ht 0 (by decide) (hbare.fdTable _) (hbare.handle h₀) Files.oRdonly
  have i₁ := i₀.bootFd (h := h₁) ht 1 (by decide) (by simp [bootFd_fdTable, hbare.fdTable])
    (by simp [bootFd_handle, hbare.handle, Ne.symm h₀₁]) Files.oWronly
  exact i₁.bootFd (h := h₂) ht 2 (by decide) (by simp [bootFd_fdTable, hbare.fdTable])
    (by simp [bootFd_handle, hbare.handle, Ne.symm h₀₂, Ne.symm h₁₂]) Files.oWronly

theorem reachable (hs : Reachable s) : Inv s [] [] :=
  hs.invariant (fun s => Inv s [] []) (fun _ hb => boot hb) fun _ _ hi ⟨_, he, hrun⟩ => (hi.run he).result hrun

end Inv

/-- The node a descriptor leads to. -/
def System.nodeAt (s : System) (t : Tid) (fd : Nat) : Option NodeId := (s.fdTable (t, fd)).bind s.nodeOf

/-- A handle counts its descriptors and lives as long as it has any; so does the node made for
it, and a node that a file system keeps counts the handles open on it. -/
structure Exact (s : System) : Prop where
  count : ∀ h x, s.handle h = some x → x.refcount = s.holders h
  live : ∀ h, (s.handle h).isSome ↔ 0 < s.holders h
  made : ∀ n, s.keeper n = .caller →
    ((s.node n).isSome ↔ ∃ t ∈ s.tids, ∃ fd < fdMax, s.nodeAt t fd = some n)
  kept : ∀ n own, s.keeper n = .fileSystem own → ∃ y, s.node n = some y ∧ y.refcount = s.openers n + own

theorem Inv.nodeAt {s : System} (hi : Inv s [] []) (n : NodeId) :
    0 < s.openers n ↔ ∃ t ∈ s.tids, ∃ fd < fdMax, s.nodeAt t fd = some n := by
  rw [System.openers, refs_pos]
  constructor
  · rintro ⟨h, hh, hn⟩
    obtain ⟨⟨t, fd⟩, hp, hs⟩ := refs_pos.mp (((hi.held h).mp hh).resolve_right not_mem_nil)
    obtain ⟨ht, hfd⟩ := mem_slots.mp hp
    exact ⟨t, ht, fd, hfd, by rw [System.nodeAt, hs]; exact hn⟩
  · rintro ⟨t, ht, fd, hfd, hn⟩
    obtain ⟨h, hs, hn⟩ := Option.bind_eq_some_iff.mp hn
    exact ⟨h, (hi.held h).mpr (.inl (hi.holders_pos ht hfd hs)), hn⟩

theorem Inv.exact {s : System} (hi : Inv s [] []) : Exact s where
  count := hi.count
  live h := by rw [← hi.listed h, hi.held h, or_iff_left not_mem_nil]
  made n hk := by
    rw [← hi.nodeAt n]
    have hn := hi.node n
    rw [hk] at hn
    cases hy : s.node n with
    | none =>
      rw [hy] at hn
      have : s.openers n + [].count n = 0 := hn
      simp only [Option.isSome_none, Bool.false_eq_true, false_iff]
      omega
    | some y =>
      rw [hy] at hn
      have : s.openers n + [].count n = 1 := hn.1
      simp only [Option.isSome_some, true_iff]
      simp only [count_nil] at this
      omega
  kept n own hk := by
    have hn := hi.node n
    rw [hk] at hn
    cases hy : s.node n with
    | none =>
      rw [hy] at hn
      exact hn.elim
    | some y =>
      rw [hy] at hn
      exact ⟨y, rfl, by simpa using hn.2.1⟩

/-- In every state that a run reaches the counts are exact, and no call uses or frees what was
freed: what it leads to is exact again. -/
theorem refcounts_exact {s : System} (hs : Reachable s) :
    Exact s ∧ ∀ op : Op, op.Enabled s → ∃ s', op.run s = .ok s' ∧ Exact s' := by
  have hi := Inv.reachable hs
  refine ⟨hi.exact, fun op he => ?_⟩
  obtain ⟨s', hs', hi'⟩ := hi.run he
  exact ⟨s', hs', hi'.exact⟩

/-- The first task on a machine with one terminal and one file, its handles at 0, 1 and 2. -/
def firstTask : System :=
  let file : Node := { size := 5, flags := Files.vfsFlagFile, uid := 0, gid := 0, mode := 0, refcount := 1 }
  let bare : System :=
    { tids := [initPid]
      cred := fun _ => ⟨0, 0, 0, 0, []⟩
      fdTable := fun _ => none
      handle := fun _ => none
      node := fun n => if n < 2 then some file else none
      acceptWaiters := fun _ => []
      eax := fun _ => 0
      handles := []
      keeper := fun n => if n = 0 then .terminal else if n = 1 then .fileSystem 1 else .caller }
  bootFd (bootFd (bootFd bare 0 0 0 Files.oRdonly) 1 1 0 Files.oWronly) 2 2 0 Files.oWronly

theorem boot_firstTask : Boot firstTask := by
  refine ⟨_, 0, 0, 1, 2, ⟨rfl, fun _ => rfl, fun _ => rfl, rfl, fun _ => rfl, fun n => ?_⟩, rfl, by decide, rfl⟩
  match n with
  | 0 => exact ⟨_, rfl, rfl, rfl⟩
  | 1 => exact ⟨_, rfl, rfl, rfl, fun h => absurd h (by decide)⟩
  | n + 2 => rfl

theorem refcounts_exact_firstTask :
    Exact firstTask ∧ firstTask.holders 0 = 1 ∧ ∃ s', (Op.fork initPid 2).run firstTask = .ok s' ∧ Exact s' := by
  obtain ⟨hexact, hrun⟩ := refcounts_exact (.start boot_firstTask)
  exact ⟨hexact, by decide, hrun (.fork initPid 2) ⟨by decide, fun _ => List.not_mem_nil,
    (by decide : 2 ∉ firstTask.tids)⟩⟩

end Serotonin.Handles
