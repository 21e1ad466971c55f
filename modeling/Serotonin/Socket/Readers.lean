import Serotonin.Lib.WaitRing
import Serotonin.Socket.Stream

/-! Readers of a socket that sleep while there is something to read. A writer wakes one reader
and hands it what it asked for; what is left stays in the ring, and the next reader asleep. -/

namespace Serotonin.Socket

open Option
open WaitRing (Awake)

/-- The waiter's task is still blocked in the read it waits for. -/
def Asleep (k : Kernel) (s : Sid) (w : Waiter) : Prop :=
  (k.task w.task).blocked = true ∧ (k.task w.task).inCall = some (.read s w.userBuf w.bufSize, s, .read)

/-- No reader of a socket sleeps over data. -/
def ReadersAwake (k : Kernel) : Prop :=
  ∀ s, Awake (Asleep k s) ((k.sock s).waiters .read) (k.sock s).ring.dataLen

/-- Fewer readers sleep than before, and empty rings are still empty. -/
structure Calmer (k k' : Kernel) : Prop where
  queue : ∀ s, (k'.sock s).waiters .read ⊆ (k.sock s).waiters .read
  task : ∀ t s buf size, (k'.task t).blocked = true → (k'.task t).inCall = some (.read s buf size, s, .read) →
    (k.task t).blocked = true ∧ (k.task t).inCall = (k'.task t).inCall
  len : ∀ s, (k.sock s).ring.dataLen = 0 → (k'.sock s).ring.dataLen = 0

namespace Calmer

variable {k l k' : Kernel}

theorem refl (k : Kernel) : Calmer k k := ⟨fun _ => List.Subset.refl _, fun _ _ _ _ h _ => ⟨h, rfl⟩, fun _ h => h⟩

theorem trans (h : Calmer k l) (h' : Calmer l k') : Calmer k k' where
  queue s := List.Subset.trans (h'.queue s) (h.queue s)
  task t s buf size hb hc := by
    obtain ⟨hb', hc'⟩ := h'.task t s buf size hb hc
    obtain ⟨hb'', hc''⟩ := h.task t s buf size hb' (hc'.trans hc)
    exact ⟨hb'', hc''.trans hc'⟩
  len s hs := h'.len s (h.len s hs)

theorem asleep (h : Calmer k k') {s : Sid} {w : Waiter} (hw : Asleep k' s w) : Asleep k s w := by
  obtain ⟨hb, hc⟩ := h.task w.task s w.userBuf w.bufSize hw.1 hw.2
  exact ⟨hb, hc.trans hw.2⟩

theorem awake (h : Calmer k k') (ha : ReadersAwake k) : ReadersAwake k' := fun s =>
  (ha s).mono (fun _ hw hsleep => ⟨h.queue s hw, h.asleep hsleep⟩) (h.len s)

end Calmer

theorem waiters_setRing (k : Kernel) (s : Sid) (r : CircBuf UInt8) (x : Sid) :
    ((k.setRing s r).sock x).waiters .read = (k.sock x).waiters .read :=
  congrFun ((sameWaits_modify k s (f := fun x => { x with ring := r }) rfl).waiters x) .read

theorem sock_setRing_of_ne (k : Kernel) {s x : Sid} (r : CircBuf UInt8) (h : x ≠ s) :
    (k.setRing s r).sock x = k.sock x := sock_modify_of_ne k _ h

theorem sock_setWaiters_of_ne (k : Kernel) {s x : Sid} (q : Queue) (ws : List Waiter) (h : x ≠ s) :
    (k.setWaiters s q ws).sock x = k.sock x := sock_modify_of_ne k _ h

theorem calmer_modifyTask (k : Kernel) (t : Tid) {f : Task → Task}
    (hb : (f (k.task t)).blocked = (k.task t).blocked) (hc : (f (k.task t)).inCall = (k.task t).inCall) :
    Calmer k (k.modifyTask t f) := by
  have hsame := sameWaits_modifyTask k t hb hc
  refine ⟨fun _ => List.Subset.refl _, fun u s buf size hbu _ => ?_, fun _ h => h⟩
  rw [← hsame.blocked u, hsame.inCall u]
  exact ⟨hbu, rfl⟩

theorem calmer_taskUnblock (k : Kernel) (t : Tid) (bytes : List UInt8) : Calmer k (taskUnblock k t bytes) := by
  refine ⟨fun s => by rw [sock_taskUnblock]; exact List.Subset.refl _, fun u s buf size hb hc => ?_, fun s hs => by
    rw [sock_taskUnblock]; exact hs⟩
  by_cases hu : u = t
  · subst hu
    by_cases hblocked : (k.task u).blocked = true
    · rw [task_taskUnblock_self bytes hblocked] at hb
      cases hb
    · unfold taskUnblock at hb
      rw [if_neg hblocked] at hb
      exact absurd hb hblocked
  · rw [task_taskUnblock_of_ne k bytes hu] at hb ⊢
    exact ⟨hb, rfl⟩

theorem calmer_setWaiters (k : Kernel) (s : Sid) (q : Queue) {ws : List Waiter} (hws : ws ⊆ (k.sock s).waiters q) :
    Calmer k (k.setWaiters s q ws) := by
  refine ⟨fun x w hw => ?_, fun _ _ _ _ hb _ => ⟨hb, rfl⟩, fun x hx => ?_⟩
  · rw [waiters_setWaiters] at hw
    split at hw
    · rename_i he
      obtain ⟨rfl, rfl⟩ := he
      exact hws hw
    · exact hw
  · rw [ring_setWaiters]
    exact hx

theorem calmer_wake (k : Kernel) (w : Waiter) : Calmer k (wake k w) :=
  (calmer_modifyTask k w.task rfl rfl).trans (calmer_taskUnblock _ w.task [])

theorem calmer_sockWakeOne (k : Kernel) (s : Sid) (q : Queue) : Calmer k (sockWakeOne k s q) := by
  unfold sockWakeOne
  split
  · exact .refl k
  · rename_i w ws hq
    have hws : ws ⊆ (k.sock s).waiters q := by
      rw [hq]
      exact List.subset_cons_self w ws
    exact (calmer_setWaiters k s q hws).trans (calmer_wake _ w)

theorem calmer_setRing (k : Kernel) (s : Sid) {r : CircBuf UInt8} (hr : (k.sock s).ring.dataLen = 0 → r.dataLen = 0) :
    Calmer k (k.setRing s r) := by
  refine ⟨fun x => ?_, fun _ _ _ _ hb _ => ⟨hb, rfl⟩, fun x hx => ?_⟩
  · rw [waiters_setRing]
    exact List.Subset.refl _
  · unfold Kernel.setRing
    by_cases he : x = s
    · rw [he] at hx ⊢
      rw [sock_modify_self]
      exact hr hx
    · rw [sock_modify_of_ne _ _ he]
      exact hx

/-- A task that goes to sleep in a write is no reader. -/
theorem calmer_waitWrite (k : Kernel) (t : Tid) (p s : Sid) (data : List UInt8) :
    Calmer k (waitOn k p .write ⟨t, 0, 0⟩ (.write s data)) := by
  refine ⟨fun x => ?_, fun u x buf size hb hc => ?_, fun x hx => ?_⟩
  · have hw : ((waitOn k p .write ⟨t, 0, 0⟩ (.write s data)).sock x).waiters .read = (k.sock x).waiters .read :=
      (waiters_setWaiters k p .write _ x .read).trans (if_neg fun h => nomatch h.2)
    rw [hw]
    exact List.Subset.refl _
  · unfold waitOn at hb hc ⊢
    by_cases hu : u = t
    · subst hu
      rw [task_modifyTask_self] at hc
      cases hc
    · rw [task_modifyTask_of_ne _ _ hu] at hb ⊢
      exact ⟨hb, rfl⟩
  · have hring : ((waitOn k p .write ⟨t, 0, 0⟩ (.write s data)).sock x).ring = (k.sock x).ring :=
      ring_setWaiters k p .write _ x
    rw [hring]
    exact hx

/-! ## Reading -/

/-- A reader goes to sleep at an empty ring. -/
theorem readersAwake_waitRead {k : Kernel} (h : ReadersAwake k) (t : Tid) (s : Sid) (buf size : Nat)
    (hempty : (k.sock s).ring.dataLen = 0) : ReadersAwake (waitOn k s .read ⟨t, buf, size⟩ (.read s buf size)) := by
  intro x w hw hasleep
  have hring : ((waitOn k s .read ⟨t, buf, size⟩ (.read s buf size)).sock x).ring = (k.sock x).ring :=
    ring_setWaiters k s .read _ x
  rw [hring]
  by_cases hx : x = s
  · rw [hx]
    exact hempty
  · have hqueue : w ∈ ((k.setWaiters s .read ((k.sock s).waiters .read ++ [⟨t, buf, size⟩])).sock x).waiters .read := hw
    rw [waiters_setWaiters, if_neg fun h => hx h.1] at hqueue
    refine h x w hqueue ?_
    obtain ⟨hb, hc⟩ := hasleep
    by_cases ht : w.task = t
    · -- it sleeps at `s`
      unfold waitOn at hc
      rw [ht, task_modifyTask_self] at hc
      cases hc
      exact absurd rfl hx
    · unfold waitOn at hb hc
      rw [task_modifyTask_of_ne _ _ ht] at hb hc
      exact ⟨hb, hc⟩

def Outcome.Readers : Outcome → Prop
  | .returns _ _ k => ReadersAwake k
  | .sleeps k => ReadersAwake k

theorem readersAwake_taskIpcUnixSocketRead {k : Kernel} (h : ReadersAwake k) (t : Tid) (s : Sid) (size : Nat)
    (noMem : Bool) : (taskIpcUnixSocketRead k t s size noMem).Readers := by
  unfold taskIpcUnixSocketRead
  split
  · exact h
  · split
    · exact h
    · split
      · -- what is read leaves the ring
        refine ((calmer_setRing k s fun hr => ?_).trans (calmer_sockWakeOne _ s .write)).awake h
        show (k.sock s).ring.dataLen - _ = 0
        rw [hr, Nat.zero_sub]
      · rename_i hempty
        split
        · exact h
        · split
          · exact h
          · exact readersAwake_waitRead h t s _ size (Nat.eq_zero_of_not_pos hempty)

theorem Outcome.Readers.readResult {o : Outcome} (ho : o.Readers) (t : Tid) (buf : Nat) (copyFails : Bool) :
    (readResult t buf copyFails o).Readers := by
  cases o with
  | sleeps k => exact ho
  | returns n bytes k =>
    dsimp only [Socket.readResult]
    split
    · exact ho
    · split
      · exact ho
      · exact (calmer_modifyTask k t (f := fun x => { x with mem := storeUser x.mem buf bytes }) rfl rfl).awake ho

theorem Outcome.Readers.finish {o : Outcome} (ho : o.Readers) (t : Tid) (c : Call) :
    ReadersAwake (finish t c o) := by
  cases o with
  | sleeps k => exact ho
  | returns n bytes k => exact ho

theorem readersAwake_setUserBuf {k : Kernel} (h : ReadersAwake k) (t : Tid) (buf : Nat) :
    ReadersAwake (setUserBuf k t buf) := (calmer_modifyTask k t rfl rfl).awake h

theorem readersAwake_sysRecv {k : Kernel} (h : ReadersAwake k) (t : Tid) (s : Sid) (buf len : Nat) (f : Fails) :
    (sysRecv k t s buf len f).Readers := by
  have hbuf := readersAwake_setUserBuf h t buf
  unfold sysRecv
  split
  · exact h
  · split
    · exact hbuf
    · exact (readersAwake_taskIpcUnixSocketRead hbuf t s len f.waiter).readResult t buf f.copy

theorem readersAwake_sysRead {k : Kernel} (h : ReadersAwake k) (t : Tid) (s : Sid) (buf len : Nat) (f : Fails) :
    (sysRead k t s buf len f).Readers := by
  have hbuf := readersAwake_setUserBuf h t buf
  unfold sysRead
  split
  · exact h
  · exact (readersAwake_taskIpcUnixSocketRead hbuf t s len f.waiter).readResult t buf f.copy

/-! ## Writing -/

/-- The ring a write stores into, and the number of bytes it stores there. -/
def stored (k : Kernel) (s : Sid) (data : List UInt8) : Option (Sid × Nat) :=
  (k.sock s).peer.bind fun p =>
    match (k.sock s).type with
    | .stream =>
      if (k.sock s).state ≠ .connected ∨ (k.sock p).state = .closed then none
      else some (p, min data.length ((k.sock p).ring.size - (k.sock p).ring.dataLen))
    | .dgram =>
      if (k.sock p).ring.size < (k.sock p).ring.dataLen + data.length then none else some (p, data.length)

/-- How many bytes a waiting reader has room for. -/
def Waiter.room (w : Waiter) : Nat := if w.userBuf = 0 then 0 else w.bufSize

/-- The first reader in the queue has room for `n` bytes, if another one sleeps behind it. -/
def FirstTakes (k : Kernel) (p : Sid) (n : Nat) : Prop :=
  WaitRing.FirstTakes Waiter.task (Asleep k p) Waiter.room ((k.sock p).waiters .read) n

theorem copyOut_dataLen : ∀ (fuel n : Nat) (r : CircBuf UInt8) (mem : Nat → UInt8) (addr : Nat), n ≤ fuel →
    (copyOut r mem addr fuel n).1.dataLen = r.dataLen - n := by
  intro fuel
  induction fuel with
  | zero =>
    intro n r mem addr hn
    rw [Nat.le_zero.mp hn]
    rfl
  | succ fuel ih =>
    intro n r mem addr hn
    unfold copyOut
    by_cases hz : n = 0
    · rw [if_pos hz, hz]
      rfl
    · rw [if_neg hz]
      refine (ih _ _ _ _ (by omega)).trans ?_
      show r.dataLen - min n 256 - (n - min n 256) = r.dataLen - n
      omega

theorem awake_taskUnblock_self (k : Kernel) (t : Tid) (bytes : List UInt8) :
    ((taskUnblock k t bytes).task t).blocked = false := by
  by_cases hb : (k.task t).blocked = true
  · rw [task_taskUnblock_self bytes hb]
  · unfold taskUnblock
    rw [if_neg hb]
    exact Bool.eq_false_of_not_eq_true hb

/-- The first reader leaves the queue, awake, with what it takes. -/
structure FirstServed (k k' : Kernel) (p : Sid) (w : Waiter) (ws : List Waiter) : Prop where
  waiters : ((k'.sock p).waiters .read) = ws
  len : (k'.sock p).ring.dataLen = (k.sock p).ring.dataLen - min w.room (k.sock p).ring.dataLen
  sock : ∀ x, x ≠ p → k'.sock x = k.sock x
  awake : (k'.task w.task).blocked = false
  task : ∀ u, u ≠ w.task → k'.task u = k.task u

theorem firstServed_sockReadWakeOne {k : Kernel} {p : Sid} {w : Waiter} {ws : List Waiter}
    (hq : (k.sock p).waiters .read = w :: ws) : FirstServed k (sockReadWakeOne k p) p w ws := by
  have hring : ((k.setWaiters p .read ws).sock p).ring = (k.sock p).ring := ring_setWaiters k p .read ws p
  have hwaiters : ((k.setWaiters p .read ws).sock p).waiters .read = ws :=
    (waiters_setWaiters k p .read ws p .read).trans (if_pos ⟨rfl, rfl⟩)
  unfold sockReadWakeOne
  rw [hq]
  dsimp only
  rw [hring]
  by_cases hcopy : 0 < min w.bufSize (k.sock p).ring.dataLen ∧ w.userBuf ≠ 0
  · rw [if_pos hcopy]
    refine ⟨?_, ?_, fun x hx => ?_, awake_taskUnblock_self _ _ _, fun u hu => ?_⟩
    · rw [sock_taskUnblock]
      exact (waiters_setRing (k.setWaiters p .read ws) p _ p).trans hwaiters
    · rw [sock_taskUnblock]
      refine (congrArg CircBuf.dataLen (ring_setRing (k.setWaiters p .read ws) p _)).trans ?_
      rw [copyOut_dataLen _ _ _ _ _ (Nat.le_refl _)]
      unfold Waiter.room
      rw [if_neg hcopy.2]
    · rw [sock_taskUnblock]
      exact (sock_setRing_of_ne (k.setWaiters p .read ws) _ hx).trans (sock_setWaiters_of_ne k .read ws hx)
    · exact (task_taskUnblock_of_ne _ _ hu).trans (task_modifyTask_of_ne _ _ hu)
  · rw [if_neg hcopy]
    refine ⟨?_, ?_, fun x hx => ?_, awake_taskUnblock_self _ _ _, fun u hu => ?_⟩
    · rw [sock_taskUnblock]
      exact hwaiters
    · rw [sock_taskUnblock]
      refine (congrArg CircBuf.dataLen hring).trans ?_
      unfold Waiter.room
      by_cases hbuf : w.userBuf = 0
      · rw [if_pos hbuf, Nat.zero_min, Nat.sub_zero]
      · have hnone : min w.bufSize (k.sock p).ring.dataLen = 0 :=
          Nat.eq_zero_of_not_pos fun hpos => hcopy ⟨hpos, hbuf⟩
        rw [if_neg hbuf, hnone, Nat.sub_zero]
    · rw [sock_taskUnblock]
      exact sock_setWaiters_of_ne k .read ws hx
    · exact (task_taskUnblock_of_ne _ _ hu).trans (task_modifyTask_of_ne _ _ hu)

/-- The writer has put `n` bytes into the ring and wakes a reader. -/
theorem readersAwake_store {k : Kernel} (h : ReadersAwake k) {p : Sid} {n : Nat} {r : CircBuf UInt8}
    (hf : FirstTakes k p n) (hr : r.dataLen = (k.sock p).ring.dataLen + n) :
    ReadersAwake (sockReadWakeOne (k.setRing p r) p) := by
  have hwaiters : ∀ x, ((k.setRing p r).sock x).waiters .read = (k.sock x).waiters .read := waiters_setRing k p r
  cases hq : (k.sock p).waiters .read with
  | nil =>
    have hrun : sockReadWakeOne (k.setRing p r) p = k.setRing p r := by
      unfold sockReadWakeOne
      rw [hwaiters p, hq]
    rw [hrun]
    intro x
    rw [hwaiters x]
    by_cases hx : x = p
    · rw [hx, hq]
      exact WaitRing.awake_nil _ _
    · rw [ring_setRing_of_ne k r hx]
      exact h x
  | cons w ws =>
    have hs := firstServed_sockReadWakeOne ((hwaiters p).trans hq)
    have hasleep : ∀ x w', Asleep (sockReadWakeOne (k.setRing p r) p) x w' → w'.task ≠ w.task ∧ Asleep k x w' := by
      intro x w' ⟨hb, hc⟩
      have hne : w'.task ≠ w.task := by
        intro he
        rw [he, hs.awake] at hb
        cases hb
      rw [hs.task _ hne] at hb hc
      exact ⟨hne, hb, hc⟩
    intro x
    by_cases hx : x = p
    · have hlen := hs.len
      rw [ring_setRing, hr] at hlen
      rw [hx, hs.waiters, hlen]
      have hbefore := h p
      unfold FirstTakes at hf
      rw [hq] at hbefore hf
      exact hbefore.serve hf fun w' _ hw' => hasleep p w' hw'
    · rw [hs.sock x hx]
      refine (h x).mono (fun w' hmem hw' => ⟨(hwaiters x) ▸ hmem, (hasleep x w' hw').2⟩) fun hempty => ?_
      rw [ring_setRing_of_ne k r hx]
      exact hempty

theorem readersAwake_taskIpcUnixSocketWrite {k : Kernel} (h : ReadersAwake k) (t : Tid) (s : Sid)
    (data : List UInt8) (noMem : Bool) (hf : ∀ p n, stored k s data = some (p, n) → FirstTakes k p n) :
    (taskIpcUnixSocketWrite k t s data noMem).Readers := by
  unfold taskIpcUnixSocketWrite
  split
  · exact h
  unfold stored at hf
  cases htype : (k.sock s).type with
  | stream =>
    cases hp : (k.sock s).peer with
    | none => exact h
    | some p =>
      rw [hp, htype] at hf
      dsimp only [bind_some] at hf ⊢
      by_cases hstate : (k.sock s).state ≠ .connected
      · rw [if_pos hstate]
        exact h
      rw [if_neg hstate]
      by_cases hclosed : (k.sock p).state = .closed
      · rw [if_pos hclosed]
        exact h
      rw [if_neg hclosed]
      rw [if_neg fun h => h.elim hstate hclosed] at hf
      split
      · refine readersAwake_store h (hf p _ rfl) ?_
        show _ + (data.take _).length = _
        rw [List.length_take]
        omega
      · split
        · exact h
        · exact (calmer_waitWrite k t p s data).awake h
  | dgram =>
    cases hp : (k.sock s).peer with
    | none => exact h
    | some p =>
      rw [hp, htype] at hf
      dsimp only [bind_some] at hf ⊢
      by_cases hfull : (k.sock p).ring.size < (k.sock p).ring.dataLen + data.length
      · rw [if_pos hfull]
        exact h
      · rw [if_neg hfull] at hf ⊢
        exact readersAwake_store h (hf p _ rfl) rfl

/-! ## Runs of reads and writes -/

/-- Reads and writes, and second descriptors for what is behind one. A write that stores
something finds a first reader that takes it all, if another one sleeps behind it. -/
def ReadersGuard (k : Kernel) (t : Tid) : Op → Prop
  | .recv .. | .read .. | .share .. => True
  | .send fd buf data f => ¬outsideUser buf data.length → f.kbuf = false → f.copy = false →
    ∀ s p n, sockFromFd k t fd = some s → stored k s data = some (p, n) → FirstTakes k p n
  | .write fd data f => ¬(syscallStackBuf < data.length ∧ f.kbuf = true) → f.copy = false →
    ∀ s p n, sockFromFd k t fd = some s → stored k s data = some (p, n) → FirstTakes k p n
  | _ => False

theorem readersAwake_sysSend {k : Kernel} (h : ReadersAwake k) (t : Tid) (s : Sid) (buf : Nat) (data : List UInt8)
    (f : Fails) (hf : ¬outsideUser buf data.length → f.kbuf = false → f.copy = false →
      ∀ p n, stored k s data = some (p, n) → FirstTakes k p n) : (sysSend k t s buf data f).Readers := by
  unfold sysSend
  split
  · exact h
  · split
    · exact h
    · split
      · exact h
      · rename_i hbuf hkbuf hcopy
        exact readersAwake_taskIpcUnixSocketWrite h t s data f.waiter
          (hf hbuf (Bool.eq_false_of_not_eq_true hkbuf) (Bool.eq_false_of_not_eq_true hcopy))

theorem readersAwake_sysWrite {k : Kernel} (h : ReadersAwake k) (t : Tid) (s : Sid) (data : List UInt8) (f : Fails)
    (hf : ¬(syscallStackBuf < data.length ∧ f.kbuf = true) → f.copy = false →
      ∀ p n, stored k s data = some (p, n) → FirstTakes k p n) : (sysWrite k t s data f).Readers := by
  unfold sysWrite
  split
  · exact h
  · split
    · exact h
    · rename_i hkbuf hcopy
      exact readersAwake_taskIpcUnixSocketWrite h t s data f.waiter (hf hkbuf (Bool.eq_false_of_not_eq_true hcopy))

theorem ReadersAwake.step {k k' : Kernel} {t : Tid} {op : Op} (h : ReadersAwake k) (hg : ReadersGuard k t op)
    (hs : step k t op = some k') : ReadersAwake k' := by
  unfold Socket.step at hs
  obtain ⟨-, hs⟩ := ite_none_left_eq_some.mp hs
  cases op with
  | share fd t' fd' =>
    change share k t fd t' fd' = some k' at hs
    unfold share at hs
    split at hs
    · cases hs
    · obtain ⟨-, hs⟩ := ite_none_left_eq_some.mp hs
      cases hs
      exact h
  | recv fd buf len f =>
    obtain ⟨s, -, rfl⟩ := map_eq_some_iff.mp hs
    exact (readersAwake_sysRecv h t s buf len f).finish t _
  | read fd buf len f =>
    obtain ⟨s, -, rfl⟩ := map_eq_some_iff.mp hs
    exact (readersAwake_sysRead h t s buf len f).finish t _
  | send fd buf data f =>
    obtain ⟨s, hfd, rfl⟩ := map_eq_some_iff.mp hs
    exact (readersAwake_sysSend h t s buf data f fun hb hk hc p n => hg hb hk hc s p n hfd).finish t _
  | write fd data f =>
    obtain ⟨s, hfd, rfl⟩ := map_eq_some_iff.mp hs
    exact (readersAwake_sysWrite h t s data f fun hk hc p n => hg hk hc s p n hfd).finish t _
  | _ => exact hg.elim

def ReadersStep (k k' : Kernel) : Prop := ∃ t op, ReadersGuard k t op ∧ step k t op = some k'

def Op.readsOrWrites : Op → Bool
  | .recv .. | .read .. | .send .. | .write .. => true
  | _ => false

/-- A read or a write. -/
def ReadWrite (k k' : Kernel) : Prop := ∃ t op, op.readsOrWrites = true ∧ step k t op = some k'

def NoReaders (k : Kernel) : Prop := ∀ s, (k.sock s).waiters .read = []

theorem NoReaders.awake {k : Kernel} (h : NoReaders k) : ReadersAwake k := by
  intro s
  rw [h s]
  exact WaitRing.awake_nil _ _

end Serotonin.Socket
