import Serotonin.Ide.Lifetime

/-! Every disk request is processed once, in the order of submission, and its task is told the
result when it runs again. The queue, the semaphore and the submitters stay in step: what was
submitted and not yet processed is the request under way and the requests in the queue. -/

namespace Serotonin.Ide

open List
open Files (Tid eio)
open Schedule (ProcessState lowestBit)

/-! ## What is asked of a run -/

namespace System

/-- The requests that are not processed yet. -/
def outstanding (s : System) : List DiskWork :=
  match s.phase with
  | .done _ => s.queued
  | _ => s.held

/-- Whether the worker has taken a token, and not processed a request for it yet. -/
def inProgress (s : System) : Nat :=
  match s.phase with
  | .taken | .popped _ | .working _ => 1
  | .start | .waiting | .done _ => 0

end System

/-- The ledger of a run that goes right. A request waits in its own slot until it is processed,
also when the head has moved on. -/
structure Right (s : System) : Prop where
  order : s.ledger.submitted = s.ledger.processed.map Prod.fst ++ s.outstanding
  once : (s.ledger.submitted.map fun w => w.id).Nodup
  waits : ∀ w ∈ s.outstanding, ∃ x, s.pcb w.task = some x ∧ x.state = .blocked ∧ x.call = some w.id
  stored : ∀ p ∈ s.ledger.processed, ∀ x, s.pcb p.1.task = some x → x.call = some p.1.id →
    x.eax = p.1.result p.2 ∧ (x.state = .ready ∨ s.phase = .done p.1)
  returned : ∀ p ∈ s.ledger.processed, ∀ v, (p.1.id, v) ∈ s.ledger.returned → v = p.1.result p.2
  later : ∀ w ∈ s.outstanding, ∀ v, (w.id, v) ∉ s.ledger.returned
  rejected : ∀ w ∈ s.ledger.rejected, (w.id, -eio) ∈ s.ledger.returned
  kbufs : s.kbufs.Perm (s.outstanding.filterMap fun w => w.kbuf)
  slots : s.workCount.currentCount + s.inProgress = s.outstanding.length
  tokens : s.workCount.currentCount + (if s.phase = .taken then 1 else 0) = s.queueLen
  awake : s.outstanding ≠ [] → ∀ x, s.pcb s.worker = some x → x.state = .blocked → ∃ w, s.phase = .working w
  goesOn : s.switching = false → s.current = s.worker → ∀ a, (step s (.work a)).isSome

/-- Reads, writes and the worker; no task has a signal pending. -/
def StartQuiet (s : System) : Prop := Start s ∧ ∀ t x, s.pcb t = some x → x.signalBitmask = 0

def DiskReachable : System → Prop :=
  Run.Reachable StartQuiet fun s s' => ∃ op : Op, op.isDisk ∧ next s op = some s'

/-- A request is only made when there is room for it. -/
def Op.room (s : System) : Op → Bool
  | .read .. | .write .. => !queueFull s
  | _ => true

def Op.isWork : Op → Bool
  | .work _ => true
  | _ => false

def roomy (s : System) (op : Op) : Option System := if op.isDisk && op.room s then next s op else none

def RoomyRun : System → Prop := Run.Reachable StartQuiet fun s s' => ∃ op : Op, roomy s op = some s'

/-! ## The invariant -/

structure Orderly (s : System) : Prop where
  inv : Inv s
  quiet : ∀ t x, s.pcb t = some x → x.signalBitmask = 0
  free : ∀ t x, s.pcb t = some x → x.state = .running → x.call = none
  defined : s.unreachable = false
  order : s.ledger.submitted = s.ledger.processed.map Prod.fst ++ s.outstanding
  once : (s.ledger.submitted.map fun w => w.id).Nodup
  fresh : ∀ w ∈ s.ledger.submitted, w.id < s.ledger.nextCall
  calls : ∀ t x id, s.pcb t = some x → x.call = some id → t ≠ s.worker ∧ ∃ w ∈ s.ledger.submitted, w.id = id ∧ w.task = t
  stored : ∀ p ∈ s.ledger.processed, ∀ x, s.pcb p.1.task = some x → x.call = some p.1.id →
    x.eax = p.1.result p.2 ∧ (x.state = .ready ∨ s.phase = .done p.1)
  returned : ∀ r ∈ s.ledger.returned, ∃ p ∈ s.ledger.processed, p.1.id = r.1 ∧ p.1.result p.2 = r.2
  rejected : s.ledger.rejected = []
  kbufs : s.kbufs.Perm (s.outstanding.filterMap fun w => w.kbuf)
  noToken : s.phase = .waiting → s.workCount.currentCount = 0 → s.workCount.waiters ≠ []
  asleep : ∀ x, s.pcb s.worker = some x → x.state = .blocked →
    s.phase = .waiting ∧ s.workCount.currentCount = 0 ∨ ∃ w, s.phase = .working w

variable {s s' s'' : System} {t : Tid} {w : DiskWork} {x : Task} {f : Task → Task}

theorem outstanding_held (hw : w ∈ s.outstanding) : w ∈ s.held := by
  unfold System.outstanding at hw
  split at hw
  · exact mem_append_right _ hw
  · exact hw

/-- The worker has no request under way. -/
theorem outstanding_queued (hp : s.phase.request s.workQueue = []) : s.outstanding = s.queued := by
  have hheld : s.held = s.queued := by
    rw [System.held, hp]
    rfl
  unfold System.outstanding
  split
  · rfl
  · exact hheld

theorem outstanding_length (hr : RingOk s) : s.workCount.currentCount + s.inProgress = s.outstanding.length := by
  have hq : s.queued.length = s.queueLen := CircBuf.window_length ..
  have hc := hr.count
  unfold System.inProgress System.outstanding System.held
  cases hp : s.phase with
  | start | waiting | taken | popped _ | working _ | done _ =>
    rw [hp] at hc
    simp [Phase.request, hq] at hc ⊢
    omega

/-- What the worker needs for its request is there. -/
theorem Inv.worker_goesOn (hi : Inv s) (a : Answer) : (Ide.ideWorkerThread s a).isSome := by
  unfold Ide.ideWorkerThread
  cases hp : s.phase with
  | start | waiting | taken | popped _ => rfl
  | working w =>
    obtain ⟨⟨p, hpcb, -⟩, ⟨x, n, y, hx, hn, hy⟩, hspace⟩ := (hi.held w (by simp [System.held, hp, Phase.request])).alive hi.tasks
    simp [Ide.ideProcessWork, hpcb, hx, hn, hy, hspace]
  | done w =>
    obtain ⟨⟨p, hpcb, -⟩, -⟩ := (hi.held w (by simp [System.held, hp, Phase.request])).alive hi.tasks
    simp [taskUnblock_eq, hpcb]

namespace Orderly

theorem processed_submitted (h : Orderly s) {p : DiskWork × Answer} (hp : p ∈ s.ledger.processed) :
    p.1 ∈ s.ledger.submitted := by
  rw [h.order]
  exact mem_append_left _ (mem_map_of_mem hp)

theorem not_processed (h : Orderly s) (hw : w ∈ s.outstanding) {p : DiskWork × Answer} (hp : p ∈ s.ledger.processed) :
    p.1.id ≠ w.id := by
  intro he
  have hn := h.once
  rw [h.order, map_append] at hn
  refine disjoint_of_nodup_append hn ?_ (mem_map_of_mem hw)
  rw [← he]
  exact mem_map_of_mem (mem_map_of_mem hp)

theorem same_answer (h : Orderly s) {p q : DiskWork × Answer} (hp : p ∈ s.ledger.processed) (hq : q ∈ s.ledger.processed)
    (he : p.1.id = q.1.id) : p = q := by
  have hn := h.once
  rw [h.order, map_append, map_map] at hn
  exact inj_on_of_nodup_map hn.of_append_left hp hq he

theorem right (h : Orderly s) : Right s where
  order := h.order
  once := h.once
  waits w hw := by
    obtain ⟨x, hx, hb, hc, -⟩ := (h.inv.held w (outstanding_held hw)).pcb
    exact ⟨x, hx, hb, hc⟩
  stored := h.stored
  returned p hp v hv := by
    obtain ⟨q, hq, hid, hval⟩ := h.returned _ hv
    rw [h.same_answer hp hq hid.symm]
    exact hval.symm
  later w hw v hv := by
    obtain ⟨q, hq, hid, -⟩ := h.returned _ hv
    exact h.not_processed hw hq hid
  rejected w hw := by
    rw [h.rejected] at hw
    cases hw
  kbufs := h.kbufs
  slots := outstanding_length h.inv.ring
  tokens := h.inv.ring.count
  awake hne x hx hb := by
    refine (h.asleep x hx hb).resolve_left fun ⟨hp, hc⟩ => hne ?_
    have hlen := outstanding_length h.inv.ring
    rw [hc, System.inProgress, hp] at hlen
    exact length_eq_zero_iff.mp hlen.symm
  goesOn hsw hc a := by
    have hwork := h.inv.worker_goesOn a
    simpa [step, h.defined, hsw, hc] using hwork

end Orderly

/-! ## Steps -/

namespace System

/-- How far the worker is: five turns of its loop for a request. -/
def turns (s : System) : Nat :=
  5 * s.ledger.processed.length +
    match s.phase with
    | .done _ => 0
    | .start | .waiting => 1
    | .taken => 2
    | .popped _ => 3
    | .working _ => 4

end System

/-- Nothing that was submitted or processed is lost, and the worker took `n` turns, unless all that
was submitted is processed now. -/
structure Goes (n : Nat) (s s' : System) : Prop where
  orderly : Orderly s'
  submitted : s.ledger.submitted <+: s'.ledger.submitted
  processed : s.ledger.processed <+: s'.ledger.processed
  turns : s.ledger.submitted.length ≤ s'.ledger.processed.length ∨ s.turns + n ≤ s'.turns

namespace Goes

theorem refl (h : Orderly s) : Goes 0 s s := ⟨h, prefix_rfl, prefix_rfl, .inr (Nat.le_refl _)⟩

theorem trans {n m : Nat} (h : Goes n s s') (h' : Goes m s' s'') : Goes (n + m) s s'' where
  orderly := h'.orderly
  submitted := h.submitted.trans h'.submitted
  processed := h.processed.trans h'.processed
  turns := by
    have hsub := h.submitted.length_le
    have hproc := h'.processed.length_le
    rcases h.turns with ha | ha
    · exact .inl (Nat.le_trans ha hproc)
    · rcases h'.turns with hb | hb
      · exact .inl (Nat.le_trans hsub hb)
      · exact .inr (by omega)

end Goes

/-! ## What changes nothing for a request -/

theorem afterSignals_quiet (hx : x.signalBitmask = 0) (go : System → System) : afterSignals s t x go = some (go s) := by
  have hnone : taskIpcDeliverSignals s t x = (s, false) := by
    have hbits : x.signalBitmask &&& ~~~x.blockedSignals = 0#32 := by
      rw [hx]
      exact BitVec.zero_and
    unfold taskIpcDeliverSignals
    rw [hbits, show lowestBit 0#32 = none from rfl]
    split
    · rfl
    · split
      · rfl
      · rfl
  unfold afterSignals
  rw [hnone]

theorem systemCallEnd_quiet (hx : s.pcb s.current = some x) (hq : x.signalBitmask = 0) (v : Int) :
    systemCallEnd s v = some (s.modify s.current fun x => { x with eax := v }) := by
  show ((s.modify s.current fun x => { x with eax := v }).pcb s.current).bind
    (fun y => afterSignals (s.modify s.current fun x => { x with eax := v }) s.current y id) = _
  rw [pcb_modify_self hx]
  exact afterSignals_quiet hq id

/-- What a change of a control block leaves as it is. -/
structure Stays (x y : Task) : Prop where
  signals : y.signalBitmask = x.signalBitmask
  call : y.call = x.call
  running : y.state = .running → x.state = .running
  stored : x.call ≠ none → y.eax = x.eax ∧ (x.state = .ready → y.state = .ready)

theorem Stays.refl (x : Task) : Stays x x := ⟨rfl, rfl, id, fun _ => ⟨rfl, id⟩⟩

theorem wake_stays (x : Task) : Stays x (wake x) := by
  unfold wake
  split
  · exact ⟨rfl, rfl, fun h => ProcessState.noConfusion h, fun _ => ⟨rfl, fun _ => rfl⟩⟩
  · exact .refl x

theorem wake_state (x : Task) : (wake x).state ≠ .blocked := by
  unfold wake
  split
  · exact ProcessState.noConfusion
  · next h => exact h

/-- Nothing is submitted or processed, and no task is told another result. -/
structure Keeps (s s' : System) : Prop where
  worker : s'.worker = s.worker
  outstanding : s'.outstanding = s.outstanding
  ledger : s'.ledger = s.ledger
  kbufs : s'.kbufs = s.kbufs
  unreachable : s'.unreachable = s.unreachable
  pcb : ∀ t y, s'.pcb t = some y → ∃ x, s.pcb t = some x ∧ Stays x y
  done : ∀ v, s.phase = .done v → s'.phase = .done v ∨ ∀ y, s'.pcb v.task = some y → y.state = .ready

theorem Orderly.keep (h : Orderly s) (hs : Keeps s s') (hinv : Inv s')
    (hnoToken : s'.phase = .waiting → s'.workCount.currentCount = 0 → s'.workCount.waiters ≠ [])
    (hasleep : ∀ y, s'.pcb s.worker = some y → y.state = .blocked →
      s'.phase = .waiting ∧ s'.workCount.currentCount = 0 ∨ ∃ w, s'.phase = .working w) : Orderly s' := by
  refine { inv := hinv, quiet := fun t y hy => ?_, free := fun t y hy hr => ?_, defined := hs.unreachable.trans h.defined,
           order := ?_, once := ?_, fresh := ?_, calls := fun t y id hy hc => ?_, stored := fun p hp y hy hc => ?_,
           returned := ?_, rejected := ?_, kbufs := ?_, noToken := hnoToken, asleep := fun y hy => hasleep y (hs.worker ▸ hy) }
  · obtain ⟨x, hx, hst⟩ := hs.pcb t y hy
    exact hst.signals.trans (h.quiet t x hx)
  · obtain ⟨x, hx, hst⟩ := hs.pcb t y hy
    exact hst.call.trans (h.free t x hx (hst.running hr))
  · rw [hs.ledger, hs.outstanding]
    exact h.order
  · rw [hs.ledger]
    exact h.once
  · rw [hs.ledger]
    exact h.fresh
  · obtain ⟨x, hx, hst⟩ := hs.pcb t y hy
    rw [hs.worker, hs.ledger]
    exact h.calls t x id hx (hst.call.symm.trans hc)
  · rw [hs.ledger] at hp
    obtain ⟨x, hx, hst⟩ := hs.pcb _ y hy
    have hxc : x.call = some p.1.id := hst.call.symm.trans hc
    obtain ⟨heax, hready⟩ := hst.stored (by simp [hxc])
    obtain ⟨hval, hstate⟩ := h.stored p hp x hx hxc
    refine ⟨heax.trans hval, hstate.elim (fun hr => .inl (hready hr)) fun hd => ?_⟩
    exact (hs.done p.1 hd).elim .inr fun hr => .inl (hr y hy)
  · rw [hs.ledger]
    exact h.returned
  · rw [hs.ledger]
    exact h.rejected
  · rw [hs.kbufs, hs.outstanding]
    exact h.kbufs

/-- Neither a request nor the worker's place in its loop changes. -/
structure Idle (s s' : System) : Prop where
  ring : SameRing s s'
  ledger : s'.ledger = s.ledger
  kbufs : s'.kbufs = s.kbufs
  unreachable : s'.unreachable = s.unreachable
  pcb : ∀ t y, s'.pcb t = some y → ∃ x, s.pcb t = some x ∧ Stays x y
  asleep : ∀ y, s'.pcb s.worker = some y → y.state = .blocked →
    (∃ x, s.pcb s.worker = some x ∧ x.state = .blocked) ∨ ∃ w, s.phase = .working w

theorem SameRing.outstanding (h : SameRing s s') : s'.outstanding = s.outstanding := by
  unfold System.outstanding
  rw [h.phase, h.queued, h.held]

theorem Stays.modify (hf : ∀ x, s.pcb t = some x → Stays x (f x)) :
    ∀ u y, (s.modify t f).pcb u = some y → ∃ x, s.pcb u = some x ∧ Stays x y := by
  intro u y hy
  by_cases hu : u = t
  · subst hu
    rw [pcb_modify] at hy
    obtain ⟨x, hx, rfl⟩ := Option.map_eq_some_iff.mp hy
    exact ⟨x, hx, hf x hx⟩
  · exact ⟨y, (pcb_modify_of_ne hu f).symm.trans hy, .refl y⟩

theorem Idle.modify (hf : ∀ x, s.pcb t = some x → Stays x (f x))
    (hw : t = s.worker → ∀ x, s.pcb t = some x → (f x).state = .blocked → x.state = .blocked ∨ ∃ w, s.phase = .working w) :
    Idle s (s.modify t f) where
  ring := ⟨rfl, rfl, rfl, rfl, rfl, rfl⟩
  ledger := rfl
  kbufs := rfl
  unreachable := rfl
  pcb := Stays.modify hf
  asleep y hy hb := by
    by_cases hu : s.worker = t
    · rw [hu, pcb_modify] at hy
      obtain ⟨x, hx, rfl⟩ := Option.map_eq_some_iff.mp hy
      rw [hu]
      exact (hw hu.symm x hx hb).imp_left fun h => ⟨x, hx, h⟩
    · exact .inl ⟨y, (pcb_modify_of_ne hu f).symm.trans hy, hb⟩

namespace Orderly

theorem idle (h : Orderly s) (hinv : Inv s') (hs : Idle s s') : Goes 0 s s' where
  submitted := hs.ledger ▸ prefix_rfl
  processed := hs.ledger ▸ prefix_rfl
  turns := by
    refine .inr (Nat.le_of_eq ?_)
    unfold System.turns
    rw [hs.ledger, hs.ring.phase, Nat.add_zero]
  orderly := by
    have hkeep : Keeps s s' := ⟨hs.ring.worker, hs.ring.outstanding, hs.ledger, hs.kbufs, hs.unreachable, hs.pcb,
      fun v hv => .inl (hs.ring.phase.trans hv)⟩
    refine h.keep hkeep hinv ?_ fun y hy hb => ?_
    · rw [hs.ring.phase, hs.ring.workCount]
      exact h.noToken
    · rw [hs.ring.phase, hs.ring.workCount]
      rcases hs.asleep y hy hb with ⟨x, hx, hblocked⟩ | hwork
      · exact h.asleep x hx hblocked
      · exact .inr hwork

theorem wait (h : Orderly s) {v : DiskWork} (hinv : Inv (taskBlock s)) (hc : s.current = s.worker) (hp : s.phase = .working v) :
    Goes 0 s (taskBlock s) := by
  have hcall : ∀ x, s.pcb s.current = some x → x.call = none := fun x hx => by
    cases hid : x.call with
    | none => rfl
    | some id => exact absurd hc (h.calls _ x id hx hid).1
  have hs : Idle s (s.setState s.current .blocked) :=
    .modify (fun x hx => ⟨rfl, rfl, fun h => ProcessState.noConfusion h, fun hn => absurd (hcall x hx) hn⟩)
      fun _ _ _ _ => .inr ⟨v, hp⟩
  exact h.idle hinv { hs with ring := { hs.ring with } }

theorem irq (h : Orderly s) (hinv : Inv s') (hs : taskUnblock s s.worker = some s') : Goes 0 s s' := by
  rw [taskUnblock_eq] at hs
  obtain ⟨_, -, rfl⟩ := Option.map_eq_some_iff.mp hs
  exact h.idle hinv (.modify (fun x _ => wake_stays x) fun _ x _ hb => absurd hb (wake_state x))

theorem preempt (h : Orderly s) (hinv : Inv { s.setState s.current .ready with switching := true }) :
    Goes 0 s { s.setState s.current .ready with switching := true } := by
  have hs : Idle s (s.setState s.current .ready) :=
    .modify (fun x _ => ⟨rfl, rfl, fun h => ProcessState.noConfusion h, fun _ => ⟨rfl, fun _ => rfl⟩⟩)
      fun _ _ _ hb => ProcessState.noConfusion hb
  exact h.idle hinv { hs with ring := { hs.ring with } }

theorem callEnd (h : Orderly s) (hinv : Inv s') (hsw : s.switching = false) {v : Int} (hs : systemCallEnd s v = some s') :
    Goes 0 s s' := by
  obtain ⟨x, hx, hrun⟩ := h.inv.tasks.running hsw
  rw [systemCallEnd_quiet hx (h.quiet _ x hx)] at hs
  cases hs
  refine h.idle hinv (.modify (fun y hy => ?_) fun _ _ _ hb => .inl hb)
  obtain rfl : x = y := Option.some.inj (hx.symm.trans hy)
  exact ⟨rfl, rfl, id, fun hn => absurd (h.free _ x hx hrun) hn⟩

theorem reap (h : Orderly s) (hsw : s.switching = true) : Goes 0 s (reapZombies s) := by
  have hback : ∀ t y, (reapZombies s).pcb t = some y → s.pcb t = some y := by
    intro t y hy
    unfold reapZombies at hy
    simp only at hy
    split at hy
    · cases hy
    · exact hy
  refine h.idle ((Acts.reap h.inv.tasks hsw s.worker).inv h.inv h.inv.worker_not_held) ?_
  exact ⟨⟨rfl, rfl, rfl, rfl, rfl, rfl⟩, rfl, rfl, rfl, fun t y hy => ⟨y, hback t y hy, .refl y⟩,
    fun y hy hb => .inl ⟨y, hback _ y hy, hb⟩⟩

/-! ## A task goes on -/

/-- A task that was made ready is told the result of its request. -/
theorem told (h : Orderly s) (hx : s.pcb t = some x) (hr : x.state = .ready) {id : Nat} (hc : x.call = some id) :
    ∃ p ∈ s.ledger.processed, p.1.id = id ∧ p.1.result p.2 = x.eax := by
  obtain ⟨-, w, hw, rfl, rfl⟩ := h.calls t x id hx hc
  rw [h.order] at hw
  rcases mem_append.mp hw with hw | hw
  · obtain ⟨p, hp, rfl⟩ := mem_map.mp hw
    exact ⟨p, hp, rfl, (h.stored p hp x hx hc).1.symm⟩
  · obtain ⟨y, hy, hb, -⟩ := (h.inv.held w (outstanding_held hw)).pcb
    rw [hx] at hy
    cases hy
    rw [hr] at hb
    cases hb

theorem switchTask (h : Orderly s) (hx : s.pcb t = some x) (hr : x.state = .ready) (hinv : Inv (switchTask s t x)) :
    Goes 0 s (switchTask s t x) := by
  have hkernel : x.priv ≠ .user → x.call = none := fun hk => by
    cases hid : x.call with
    | none => rfl
    | some id =>
      have hne := (h.calls t x id hx hid).1
      have hin : t ∈ s.files.tids := (h.inv.tasks.known t x hx (by rw [hr]; exact ProcessState.noConfusion)).resolve_right hne
      obtain ⟨y, hy, hp, -⟩ := h.inv.tasks.user t hin
      rw [hx] at hy
      cases hy
      exact absurd hp hk
  have hnew : (Ide.switchTask s t x).pcb t = some { x with state := .running, call := none } := by
    refine (pcb_modify_self hx _).trans ?_
    by_cases hp : x.priv = .user
    · rw [if_pos hp]
    · rw [if_neg hp, hkernel hp]
  have hold : ∀ u, u ≠ t → (Ide.switchTask s t x).pcb u = s.pcb u := fun u hu => pcb_modify_of_ne hu _
  refine ⟨?_, prefix_rfl, prefix_rfl, .inr (Nat.le_refl _)⟩
  refine { h with inv := hinv, quiet := fun u y hy => ?_, free := fun u y hy hrun => ?_, calls := fun u y id hy hc => ?_,
                  stored := fun p hp y hy hc => ?_, returned := fun r hret => ?_, asleep := fun y hy hb => ?_ }
  · by_cases hu : u = t
    · subst hu
      rw [hnew] at hy
      cases hy
      exact h.quiet u x hx
    · exact h.quiet u y ((hold u hu).symm.trans hy)
  · by_cases hu : u = t
    · subst hu
      rw [hnew] at hy
      cases hy
      rfl
    · exact h.free u y ((hold u hu).symm.trans hy) hrun
  · by_cases hu : u = t
    · subst hu
      rw [hnew] at hy
      cases hy
      cases hc
    · exact h.calls u y id ((hold u hu).symm.trans hy) hc
  · by_cases hu : p.1.task = t
    · rw [hu, hnew] at hy
      cases hy
      cases hc
    · exact h.stored p hp y ((hold _ hu).symm.trans hy) hc
  · rcases mem_append.mp hret with hret | hret
    · exact h.returned r hret
    · split at hret
      · obtain ⟨id, hid, rfl⟩ := mem_map.mp hret
        exact h.told hx hr (Option.mem_toList.mp hid)
      · cases hret
  · by_cases hu : s.worker = t
    · rw [show (Ide.switchTask s t x).worker = t from hu, hnew] at hy
      cases hy
      cases hb
    · exact h.asleep y ((hold _ hu).symm.trans hy) hb

theorem taskYield (h : Orderly s) (hsw : s.switching = true) (hs : taskYield s t = some s') : Goes 0 s s' := by
  have hinv := h.inv.taskYield hsw hs
  have hreap := h.reap hsw
  obtain ⟨x, hx, hs⟩ := Option.bind_eq_some_iff.mp hs
  split at hs
  · next hr =>
    rw [afterSignals_quiet (hreap.orderly.quiet t x hx)] at hs
    cases hs
    exact hreap.trans (hreap.orderly.switchTask hx hr hinv)
  · cases hs

end Orderly

/-! ## Submitting -/

/-- A request was put in the queue, its task waits, and the worker has a token for it. -/
structure Submits (s : System) (w : DiskWork) (s' : System) : Prop where
  worker : s'.worker = s.worker
  phase : s'.phase = s.phase
  outstanding : s'.outstanding = s.outstanding ++ [w]
  ledger : s'.ledger = { s.ledger with nextCall := s.ledger.nextCall + 1, submitted := s.ledger.submitted ++ [w] }
  kbufs : s'.kbufs = s.kbufs
  unreachable : s'.unreachable = s.unreachable
  count : s'.workCount.currentCount ≠ 0
  task : ∃ x, s.pcb w.task = some x ∧ s'.pcb w.task = some { x with call := some w.id, state := .blocked }
  others : ∀ t, t ≠ w.task → s'.pcb t = s.pcb t ∨ t = s.worker ∧ s'.pcb t = (s.pcb t).map wake
  woken : s.workCount.waiters ≠ [] → ∀ y, s'.pcb s.worker = some y → y.state ≠ .blocked

theorem enqueued_outstanding (hr : RingOk s) (hroom : queueFull s = false) (w : DiskWork) :
    (s.enqueued w).outstanding = s.outstanding ++ [w] := by
  have hphase : (s.enqueued w).phase = s.phase := rfl
  unfold System.outstanding
  rw [hphase, enqueued_queued hr hroom, enqueued_held hr hroom]
  cases s.phase <;> rfl

/-- The system after a request was put in the queue, when its task is about to wait. -/
def System.submitted (s : System) (w : DiskWork) : System :=
  { s.enqueued w with
    pcb := s.woken
    workCount := { s.workCount with
      currentCount := (s.workCount.currentCount + 1) % 2 ^ 32, waiters := s.workCount.waiters.tail }
    ledger := { s.ledger with nextCall := s.ledger.nextCall + 1, submitted := s.ledger.submitted ++ [w] } }

theorem ideSubmitDisk_eq (hi : Inv s) (hroom : queueFull s = false) : ideSubmitDisk s w =
    some (taskBlock ((s.submitted w).modify w.task fun x => { x with call := some w.id })) := by
  have hi₁ : TasksOk (System.enqueued { s with ledger := { s.ledger with nextCall := s.ledger.nextCall + 1 } } w) :=
    { hi.tasks with }
  have hfull : ¬ queueFull { s with ledger := { s.ledger with nextCall := s.ledger.nextCall + 1 } } = true :=
    fun h => Bool.false_ne_true (hroom.symm.trans h)
  refine (if_neg hfull).trans ?_
  exact congrArg (fun o : Option System => o.bind fun s => some (taskBlock (s.modify w.task fun x => { x with call := some w.id })))
    (taskSemaphoreRelease_eq hi₁ hi.ring.sleepers)

theorem ideSubmitDisk_spec (hi : Inv s) (ha : Asks s w) (hroom : queueFull s = false)
    (hs : ideSubmitDisk s w = some s') : Submits s w s' := by
  obtain ⟨x, hx, -⟩ := ha.space
  have hcw : s.current ≠ s.worker := fun h => hi.tasks.workerNot (h ▸ ha.user)
  have hx₁ : (s.submitted w).pcb w.task = some x := by
    rw [ha.task]
    exact (woken_of_ne hcw).trans hx
  have hpcb : (taskBlock ((s.submitted w).modify w.task fun x => { x with call := some w.id })).pcb w.task =
      some { x with call := some w.id, state := .blocked } := by
    show (((s.submitted w).modify w.task _).setState s.current .blocked).pcb w.task = _
    rw [← ha.task]
    exact pcb_modify_self (pcb_modify_self hx₁ _) _
  have hothers : ∀ t, t ≠ w.task →
      (taskBlock ((s.submitted w).modify w.task fun x => { x with call := some w.id })).pcb t = s.woken t := by
    intro t ht
    have htc : t ≠ s.current := ha.task ▸ ht
    exact (pcb_modify_of_ne htc _).trans (pcb_modify_of_ne ht _)
  rw [ideSubmitDisk_eq hi hroom] at hs
  cases hs
  refine ⟨rfl, rfl, enqueued_outstanding hi.ring hroom w, rfl, rfl, rfl, ?_, ⟨x, by rw [ha.task]; exact hx, hpcb⟩,
    fun t ht => ?_, fun hw y hy => ?_⟩
  · show (s.workCount.currentCount + 1) % 2 ^ 32 ≠ 0
    have hlen : s.queueLen < 64 := Nat.mod_lt _ (by decide)
    have hcount := hi.ring.count
    omega
  · rw [hothers t ht]
    by_cases htw : t = s.worker
    · unfold System.woken
      split
      · exact .inl rfl
      · rw [htw]
        exact .inr ⟨rfl, pcb_modify s s.worker wake⟩
    · exact .inl (woken_of_ne htw)
  · rw [hothers s.worker (ha.task ▸ hcw.symm), System.woken, if_neg hw, pcb_modify] at hy
    obtain ⟨z, -, rfl⟩ := Option.map_eq_some_iff.mp hy
    exact wake_state z

theorem Submits.back (h : Submits s w s') {y : Task} (ht : t ≠ w.task) (hy : s'.pcb t = some y) :
    ∃ x, s.pcb t = some x ∧ Stays x y := by
  rcases h.others t ht with he | ⟨-, he⟩
  · exact ⟨y, he.symm.trans hy, .refl y⟩
  · obtain ⟨x, hx, rfl⟩ := Option.map_eq_some_iff.mp (he.symm.trans hy)
    exact ⟨x, hx, wake_stays x⟩

theorem filterMap_snoc_perm {α β : Type} (f : α → Option β) (xs : List α) (x : α) :
    ((xs ++ [x]).filterMap f).Perm ((f x).toList ++ xs.filterMap f) := by
  rw [filterMap_append]
  refine perm_append_comm.trans (List.Perm.append_right _ (List.Perm.of_eq ?_))
  cases hf : f x with
  | none => exact filterMap_cons_none hf
  | some y => exact filterMap_cons_some hf

theorem Orderly.submits (h : Orderly s) (hinv : Inv s') (hid : w.id = s.ledger.nextCall) (hu : w.task ≠ s.worker)
    (hs : Submits { s with kbufs := w.kbuf.toList ++ s.kbufs } w s') : Goes 0 s s' := by
  obtain ⟨x, hx, hx'⟩ := hs.task
  have hout : s'.outstanding = s.outstanding ++ [w] := hs.outstanding
  have hsub : s'.ledger.submitted = s.ledger.submitted ++ [w] := by rw [hs.ledger]
  have hproc : s'.ledger.processed = s.ledger.processed := by rw [hs.ledger]
  have hback : ∀ t y, t ≠ w.task → s'.pcb t = some y → ∃ x, s.pcb t = some x ∧ Stays x y := fun t y ht hy => hs.back ht hy
  refine ⟨?_, hsub ▸ prefix_append _ _, hproc ▸ prefix_rfl, .inr (Nat.le_of_eq ?_)⟩
  · refine { inv := hinv, quiet := fun t y hy => ?_, free := fun t y hy hr => ?_, defined := hs.unreachable.trans h.defined,
             order := ?_, once := ?_, fresh := fun v hv => ?_, calls := fun t y id hy hc => ?_, stored := fun p hp y hy hc => ?_,
             returned := ?_, rejected := ?_, kbufs := ?_, noToken := fun _ h0 => absurd h0 hs.count, asleep := fun y hy hb => ?_ }
    · by_cases ht : t = w.task
      · rw [ht, hx'] at hy
        cases hy
        exact h.quiet _ x hx
      · obtain ⟨z, hz, hst⟩ := hback t y ht hy
        exact hst.signals.trans (h.quiet t z hz)
    · by_cases ht : t = w.task
      · rw [ht, hx'] at hy
        cases hy
        cases hr
      · obtain ⟨z, hz, hst⟩ := hback t y ht hy
        exact hst.call.trans (h.free t z hz (hst.running hr))
    · rw [hsub, hproc, hout, h.order, append_assoc]
    · rw [hsub, map_append, map_singleton]
      refine h.once.append (nodup_singleton _) fun id hin hnew => ?_
      obtain ⟨v, hv, rfl⟩ := mem_map.mp hin
      have hlt := h.fresh v hv
      rw [mem_singleton.mp hnew, hid] at hlt
      exact Nat.lt_irrefl _ hlt
    · rw [hsub] at hv
      rw [hs.ledger]
      show v.id < s.ledger.nextCall + 1
      rcases mem_append.mp hv with hv | hv
      · exact Nat.lt_succ_of_lt (h.fresh v hv)
      · rw [mem_singleton.mp hv, hid]
        exact Nat.lt_succ_self _
    · rw [hs.worker, hsub]
      by_cases ht : t = w.task
      · rw [ht, hx'] at hy
        cases hy
        rw [ht]
        exact ⟨hu, w, mem_append_right _ (mem_singleton_self w), Option.some.inj hc, rfl⟩
      · obtain ⟨z, hz, hst⟩ := hback t y ht hy
        obtain ⟨hne, v, hv, hrest⟩ := h.calls t z id hz (hst.call.symm.trans hc)
        exact ⟨hne, v, mem_append_left _ hv, hrest⟩
    · rw [hproc] at hp
      by_cases ht : p.1.task = w.task
      · rw [ht, hx'] at hy
        cases hy
        have hlt := h.fresh p.1 (h.processed_submitted hp)
        rw [← Option.some.inj hc, hid] at hlt
        exact absurd hlt (Nat.lt_irrefl _)
      · obtain ⟨z, hz, hst⟩ := hback _ y ht hy
        have hzc : z.call = some p.1.id := hst.call.symm.trans hc
        obtain ⟨heax, hready⟩ := hst.stored (by simp [hzc])
        obtain ⟨hval, hstate⟩ := h.stored p hp z hz hzc
        rw [hs.phase]
        exact ⟨heax.trans hval, hstate.imp_left hready⟩
    · rw [hs.ledger]
      exact h.returned
    · rw [hs.ledger]
      exact h.rejected
    · rw [hs.kbufs, hout]
      exact (h.kbufs.append_left _).trans (filterMap_snoc_perm _ _ _).symm
    · rw [hs.worker] at hy
      rw [hs.phase]
      rcases hs.others s.worker hu.symm with he | ⟨-, he⟩
      · rcases h.asleep y (he.symm.trans hy) hb with ⟨hw, h0⟩ | hwork
        · exact absurd hb (hs.woken (h.noToken hw h0) y hy)
        · exact .inr hwork
      · obtain ⟨z, -, rfl⟩ := Option.map_eq_some_iff.mp (he.symm.trans hy)
        exact absurd hb (wake_state z)
  · unfold System.turns
    rw [hproc, hs.phase, Nat.add_zero]

/-- Room for the request is all it needs. -/
theorem Orderly.submit (h : Orderly s) (hinv : Inv s') (ha : Asks s w) (hid : w.id = s.ledger.nextCall)
    (hroom : queueFull s = false) (hs : ideSubmitDisk { s with kbufs := w.kbuf.toList ++ s.kbufs } w = some s') :
    Goes 0 s s' := by
  have hi : Inv { s with kbufs := w.kbuf.toList ++ s.kbufs } :=
    ⟨{ h.inv.tasks with }, { h.inv.ring with }, fun v hv => { h.inv.held v hv with }, h.inv.distinct⟩
  have hu : w.task ≠ s.worker := fun he => h.inv.tasks.workerNot (he ▸ ha.task ▸ ha.user)
  exact h.submits hinv hid hu (ideSubmitDisk_spec hi { ha with } hroom hs)

/-! ## The worker -/

theorem ideProcessWork_spec {a : Answer} (hs : ideProcessWork s w a = some s') : ∃ files, s' =
    { s.modify w.task fun p => { p with eax := w.result a, diskBytes := ByteMem.u32 (p.diskBytes + w.moved a) } with
      files := files, kbufs := w.kbuf.elim s.kbufs s.kbufs.erase } := by
  obtain ⟨x, -, hs⟩ := Option.bind_eq_some_iff.mp hs
  obtain ⟨n, -, hs⟩ := Option.bind_eq_some_iff.mp hs
  obtain ⟨y, -, hs⟩ := Option.bind_eq_some_iff.mp hs
  obtain ⟨p, -, hs⟩ := Option.bind_eq_some_iff.mp hs
  split at hs
  · cases hs
  · cases hs
    exact ⟨_, rfl⟩

/-- A buffer is freed with its request. -/
theorem kbuf_freed {bufs : List BufId} {ws : List DiskWork} (h : bufs.Perm ((w :: ws).filterMap fun v => v.kbuf)) :
    (w.kbuf.elim bufs bufs.erase).Perm (ws.filterMap fun v => v.kbuf) := by
  cases hk : w.kbuf with
  | none =>
    rw [filterMap_cons_none hk] at h
    exact h
  | some b =>
    rw [filterMap_cons_some hk] at h
    have he := h.erase b
    rw [erase_cons_head] at he
    exact he

namespace Orderly

/-- The request that was processed is the first that was not. -/
theorem process (h : Orderly s) {a : Answer} (hp : s.phase = .working w)
    (hrun : ∀ x, s.pcb s.worker = some x → x.state = .running) (hs : ideProcessWork s w a = some s')
    (hinv : Inv { s' with
      phase := .done w
      ledger := { s'.ledger with processed := s'.ledger.processed ++ [(w, a)] } }) :
    Goes 1 s { s' with
      phase := .done w
      ledger := { s'.ledger with processed := s'.ledger.processed ++ [(w, a)] } } := by
  have hout : s.outstanding = w :: s.queued := by
    unfold System.outstanding System.held
    rw [hp]
    rfl
  have hheld : w ∈ s.outstanding := by
    rw [hout]
    exact mem_cons_self
  obtain ⟨x, hx, hb, hcall, -⟩ := (h.inv.held w (outstanding_held hheld)).pcb
  have hw : w.task ≠ s.worker := h.inv.worker_not_held w (outstanding_held hheld)
  obtain ⟨files, rfl⟩ := ideProcessWork_spec hs
  have hself := pcb_modify_self hx fun p => { p with eax := w.result a, diskBytes := ByteMem.u32 (p.diskBytes + w.moved a) }
  have hback : ∀ t y, (s.modify w.task fun p =>
      { p with eax := w.result a, diskBytes := ByteMem.u32 (p.diskBytes + w.moved a) }).pcb t = some y →
      ∃ z, s.pcb t = some z ∧ y.signalBitmask = z.signalBitmask ∧ y.call = z.call ∧ y.state = z.state := by
    intro t y hy
    by_cases ht : t = w.task
    · rw [ht, hself] at hy
      cases hy
      exact ⟨x, ht ▸ hx, rfl, rfl, rfl⟩
    · exact ⟨y, (pcb_modify_of_ne ht _).symm.trans hy, rfl, rfl, rfl⟩
  refine ⟨?_, prefix_rfl, prefix_append _ _, .inr ?_⟩
  · refine { h with inv := hinv, quiet := fun t y hy => ?_, free := fun t y hy hr => ?_, order := ?_,
                    calls := fun t y id hy hc => ?_, stored := fun p hpr y hy hc => ?_, returned := fun r hr => ?_,
                    kbufs := ?_, noToken := fun hph => Phase.noConfusion hph, asleep := fun y hy hblocked => ?_ }
    · obtain ⟨z, hz, hsig, -, -⟩ := hback t y hy
      exact hsig.trans (h.quiet t z hz)
    · obtain ⟨z, hz, -, hzc, hzs⟩ := hback t y hy
      exact hzc.trans (h.free t z hz (hzs.symm.trans hr))
    · show s.ledger.submitted = (s.ledger.processed ++ [(w, a)]).map Prod.fst ++ s.queued
      rw [h.order, hout, map_append, append_assoc]
      rfl
    · obtain ⟨z, hz, -, hzc, -⟩ := hback t y hy
      exact h.calls t z id hz (hzc.symm.trans hc)
    · rcases mem_append.mp hpr with hpr | hpr
      · by_cases ht : p.1.task = w.task
        · rw [ht] at hy
          obtain rfl := Option.some.inj (hself.symm.trans hy)
          exact absurd (Option.some.inj (hc.symm.trans hcall)) (h.not_processed hheld hpr)
        · obtain ⟨heax, hstate⟩ := h.stored p hpr y ((pcb_modify_of_ne ht _).symm.trans hy) hc
          refine ⟨heax, .inl (hstate.resolve_right fun hd => ?_)⟩
          rw [hp] at hd
          cases hd
      · obtain rfl := mem_singleton.mp hpr
        obtain rfl := Option.some.inj (hself.symm.trans hy)
        exact ⟨rfl, .inr rfl⟩
    · obtain ⟨p, hpr, hrest⟩ := h.returned r hr
      exact ⟨p, mem_append_left _ hpr, hrest⟩
    · have hk := h.kbufs
      rw [hout] at hk
      exact kbuf_freed hk
    · have hy' : s.pcb s.worker = some y := (pcb_modify_of_ne hw.symm _).symm.trans hy
      rw [hrun y hy'] at hblocked
      cases hblocked
  · unfold System.turns
    rw [hp]
    show 5 * s.ledger.processed.length + 4 + 1 ≤ 5 * (s.ledger.processed ++ [(w, a)]).length + 0
    rw [length_append, length_singleton]
    omega

/-- The worker goes on in its loop. -/
theorem move (h : Orderly s) (hs : Keeps s s') (hinv : Inv s')
    (hnoToken : s'.phase = .waiting → s'.workCount.currentCount = 0 → s'.workCount.waiters ≠ [])
    (hasleep : ∀ y, s'.pcb s.worker = some y → y.state = .blocked → s'.phase = .waiting ∧ s'.workCount.currentCount = 0)
    (hturns : s.outstanding = [] ∨ s.turns + 1 ≤ s'.turns) : Goes 1 s s' where
  submitted := hs.ledger ▸ prefix_rfl
  processed := hs.ledger ▸ prefix_rfl
  turns := by
    refine hturns.imp_left fun h0 => Nat.le_of_eq ?_
    rw [hs.ledger, h.order, h0, append_nil, length_map]
  orderly := h.keep hs hinv hnoToken fun y hy hb => .inl (hasleep y hy hb)

theorem worker_call (h : Orderly s) (hx : s.pcb s.worker = some x) : x.call = none := by
  cases hid : x.call with
  | none => rfl
  | some id => exact absurd rfl (h.calls _ x id hx hid).1

/-- There is nothing to do. -/
theorem sleep (h : Orderly s) {waiters : List Tid} (hp : s.phase = .start ∨ s.phase = .waiting) (hc : s.workCount.currentCount = 0)
    (hw : waiters ≠ []) (hinv : Inv (workerSleep { s with workCount := { s.workCount with waiters := waiters } })) :
    Goes 1 s (workerSleep { s with workCount := { s.workCount with waiters := waiters } }) := by
  have hreq : s.phase.request s.workQueue = [] := by
    rcases hp with hp | hp
    · rw [hp]
      rfl
    · rw [hp]
      rfl
  have hzero : s.inProgress = 0 := by
    rcases hp with hp | hp
    · rw [System.inProgress, hp]
    · rw [System.inProgress, hp]
  have hnone : s.outstanding = [] := by
    have hlen := outstanding_length h.inv.ring
    rw [hc, hzero] at hlen
    exact length_eq_zero_iff.mp hlen.symm
  have hback : ∀ t y, (s.setState s.worker .blocked).pcb t = some y → ∃ x, s.pcb t = some x ∧ Stays x y :=
    Stays.modify fun x hx => ⟨rfl, rfl, fun h => ProcessState.noConfusion h, fun hn => absurd (h.worker_call hx) hn⟩
  refine h.move ⟨rfl, (outstanding_queued hreq).symm, rfl, rfl, rfl, hback, fun v hv => ?_⟩ hinv (fun _ _ => hw)
    (fun _ _ _ => ⟨rfl, hc⟩) (.inl hnone)
  rw [hv] at hp
  exact absurd hp (by simp)

/-- The worker goes on to its next request. -/
theorem takeToken (h : Orderly s) (hp : s.phase = .start ∨ s.phase = .waiting)
    (hrun : ∀ x, s.pcb s.worker = some x → x.state = .running) (hinv : Inv (takeToken s)) : Goes 1 s (takeToken s) := by
  have hreq : s.phase.request s.workQueue = [] := by
    rcases hp with hp | hp
    · rw [hp]
      rfl
    · rw [hp]
      rfl
  refine h.move ⟨rfl, (outstanding_queued hreq).symm, rfl, rfl, rfl, fun t y hy => ⟨y, hy, .refl y⟩, fun v hv => ?_⟩ hinv
    (fun hph => Phase.noConfusion hph) (fun y hy hb => ?_) (.inr ?_)
  · rw [hv] at hp
    exact absurd hp (by simp)
  · rw [hrun y hy] at hb
    cases hb
  · unfold System.turns
    rcases hp with hp | hp
    · rw [hp]
      exact Nat.le_refl _
    · rw [hp]
      exact Nat.le_refl _

/-- The worker's task is unblocked when its request is processed. -/
theorem release (h : Orderly s) (hp : s.phase = .done w) (hrun : ∀ x, s.pcb s.worker = some x → x.state = .running)
    (hinv : Inv { s.modify w.task wake with phase := .start }) : Goes 1 s { s.modify w.task wake with phase := .start } := by
  have hout : s.outstanding = s.queued := by
    unfold System.outstanding
    rw [hp]
  have hheld : w ∈ s.held := by
    rw [System.held, hp]
    exact mem_cons_self
  have hback := Stays.modify (s := s) (t := w.task) fun x _ => wake_stays x
  refine h.move ⟨rfl, hout.symm, rfl, rfl, rfl, hback, fun v hv => .inr fun y hy => ?_⟩ hinv (fun hph => Phase.noConfusion hph)
    (fun y hy hb => ?_) (.inr ?_)
  · obtain rfl : w = v := Phase.done.inj (hp.symm.trans hv)
    obtain ⟨x, hx, hb, -⟩ := (h.inv.held w hheld).pcb
    obtain rfl := Option.some.inj ((pcb_modify_self hx wake).symm.trans hy)
    rw [wake, if_pos hb]
  · have hne := h.inv.worker_not_held w hheld
    rw [hrun y ((pcb_modify_of_ne hne.symm _).symm.trans hy)] at hb
    cases hb
  · unfold System.turns
    rw [hp]
    exact Nat.le_refl _

theorem ideWorkerThread (h : Orderly s) {a : Answer} (hrun : ∀ x, s.pcb s.worker = some x → x.state = .running)
    (hs : ideWorkerThread s a = some s') : Goes 1 s s' := by
  have hinv := h.inv.ideWorkerThread hs
  have hasleep : ∀ y, s.pcb s.worker = some y → y.state ≠ .blocked := fun y hy hb => by
    rw [hrun y hy] at hb
    cases hb
  unfold Ide.ideWorkerThread at hs
  cases hp : s.phase with
  | start =>
    rw [hp] at hs
    obtain rfl := (Option.some.inj hs).symm
    split at hinv
    · next hc =>
      rw [if_pos hc]
      exact h.sleep (.inl hp) hc (append_ne_nil_of_right_ne_nil _ (cons_ne_nil _ _)) hinv
    · next hc =>
      rw [if_neg hc]
      exact h.takeToken (.inl hp) hrun hinv
  | waiting =>
    rw [hp] at hs
    obtain rfl := (Option.some.inj hs).symm
    split at hinv
    · next hc =>
      rw [if_pos hc]
      exact h.sleep (.inr hp) hc (h.noToken hp hc) hinv
    · next hc =>
      rw [if_neg hc]
      exact h.takeToken (.inr hp) hrun hinv
  | taken =>
    rw [hp] at hs
    cases hs
    have hreq : s.phase.request s.workQueue = [] := by
      rw [hp]
      rfl
    refine h.move ⟨rfl, ?_, rfl, rfl, rfl, fun t y hy => ⟨y, hy, .refl y⟩, fun v hv => ?_⟩ hinv
      (fun hph => Phase.noConfusion hph) (fun y hy hb => absurd hb (hasleep y hy)) (.inr ?_)
    · exact (popHead_held h.inv.ring hp).trans (outstanding_queued hreq).symm
    · rw [hp] at hv
      cases hv
    · unfold System.turns
      rw [hp]
      exact Nat.le_refl _
  | popped idx =>
    rw [hp] at hs
    cases hs
    refine h.move ⟨rfl, ?_, rfl, rfl, rfl, fun t y hy => ⟨y, hy, .refl y⟩, fun v hv => ?_⟩ hinv
      (fun hph => Phase.noConfusion hph) (fun y hy hb => absurd hb (hasleep y hy)) (.inr ?_)
    · unfold System.outstanding System.held
      rw [hp]
      rfl
    · rw [hp] at hv
      cases hv
    · unfold System.turns
      rw [hp]
      exact Nat.le_refl _
  | working w =>
    rw [hp] at hs
    obtain ⟨s₁, h₁, hs⟩ := Option.bind_eq_some_iff.mp hs
    cases hs
    exact h.process hp hrun h₁ hinv
  | done w =>
    rw [hp] at hs
    obtain ⟨s₁, h₁, hs⟩ := Option.bind_eq_some_iff.mp hs
    cases hs
    rw [taskUnblock_eq] at h₁
    obtain ⟨_, -, rfl⟩ := Option.map_eq_some_iff.mp h₁
    exact h.release hp hrun hinv

/-! ## Runs -/

theorem sysRead (h : Orderly s) (hsw : s.switching = false) (hc : s.current ∈ s.files.tids) {fd userBuf count : Nat}
    (hroom : queueFull s = false) (hs : sysRead s fd userBuf count = some s') : Goes 0 s s' := by
  have hinv := h.inv.sysRead hsw hc hs
  unfold Ide.sysRead at hs
  split at hs
  · next f z p hfile hp =>
    split at hs
    · exact h.callEnd hinv hsw hs
    · obtain ⟨hslot, hnode⟩ := diskFile_spec hfile
      exact h.submit hinv ⟨rfl, hc, hslot, hnode, p, hp, rfl⟩ rfl hroom hs
  · cases hs

theorem sysWrite (h : Orderly s) (hsw : s.switching = false) (hc : s.current ∈ s.files.tids) {fd userBuf count : Nat}
    {malloc : Option BufId} {copyOk : Bool} (hroom : queueFull s = false)
    (hs : sysWrite s fd userBuf count malloc copyOk = some s') : Goes 0 s s' := by
  have hinv := h.inv.sysWrite hsw hc hs
  unfold Ide.sysWrite at hs
  split at hs
  · next f z p hfile hp =>
    split at hs
    · exact h.callEnd hinv hsw hs
    · split at hs
      · exact h.callEnd hinv hsw hs
      · next b =>
        split at hs
        · exact h.callEnd hinv hsw hs
        · obtain ⟨hslot, hnode⟩ := diskFile_spec hfile
          exact h.submit hinv ⟨rfl, hc, hslot, hnode, p, hp, rfl⟩ rfl hroom hs
  · cases hs

theorem step (h : Orderly s) {op : Op} (hdisk : op.isDisk = true) (hroom : op.room s = true) (hs : step s op = some s') :
    Goes (if op.isWork then 1 else 0) s s' := by
  have huser : (!s.switching && s.current != s.worker) = true → s.switching = false ∧ s.current ∈ s.files.tids := by
    intro hu
    obtain ⟨hsw, hne⟩ : s.switching = false ∧ s.current ≠ s.worker := by simpa using hu
    exact ⟨hsw, (h.inv.tasks.known_current hsw).resolve_right hne⟩
  have hworker : (!s.switching && s.current == s.worker) = true → s.current = s.worker ∧
      ∀ x, s.pcb s.worker = some x → x.state = .running := by
    intro hu
    obtain ⟨hsw, he⟩ : s.switching = false ∧ s.current = s.worker := by simpa using hu
    obtain ⟨y, hy, hr⟩ := h.inv.tasks.running hsw
    refine ⟨he, fun x hx => ?_⟩
    rw [← he, hy] at hx
    cases hx
    exact hr
  have hcalm : op.Calm s := by
    cases op with
    | signal => cases hdisk
    | _ => trivial
  have hinv := h.inv.step hcalm hs
  unfold Ide.step at hs
  simp only at hs
  split at hs
  · cases hs
  · cases op with
    | read fd userBuf count =>
      simp only at hs
      split at hs
      · next hu => exact h.sysRead (huser hu).1 (huser hu).2 (by simpa [Op.room] using hroom) hs
      · cases hs
    | write fd userBuf count malloc copyOk =>
      simp only at hs
      split at hs
      · next hu => exact h.sysWrite (huser hu).1 (huser hu).2 (by simpa [Op.room] using hroom) hs
      · cases hs
    | work a =>
      simp only at hs
      split at hs
      · next hu => exact h.ideWorkerThread (hworker hu).2 hs
      · cases hs
    | wait =>
      simp only at hs
      split at hs
      · next hp =>
        split at hs
        · next hu =>
          cases hs
          exact h.wait hinv (hworker hu).1 hp
        · cases hs
      · cases hs
    | irq => exact h.irq hinv hs
    | preempt =>
      simp only at hs
      split at hs
      · cases hs
        exact h.preempt hinv
      · cases hs
    | dispatch t =>
      simp only at hs
      split at hs
      · next hsw => exact h.taskYield hsw hs
      · cases hs
    | close | signal | exit => cases hdisk

theorem run : ∀ {ops : List Op} {s : System}, Orderly s → Run.exec roomy s ops = some s' → Goes (ops.countP Op.isWork) s s'
  | [], s, h, hs => by
    obtain rfl := Option.some.inj hs
    exact .refl h
  | op :: ops, s, h, hs => by
    obtain ⟨s₁, h₁, hs⟩ := Option.bind_eq_some_iff.mp hs
    unfold roomy at h₁
    split at h₁
    · next hop =>
      rw [Bool.and_eq_true] at hop
      have hgo := h.step hop.1 hop.2 (step_of_next h₁)
      rw [countP_cons, Nat.add_comm]
      exact hgo.trans (run hgo.orderly hs)
    · cases h₁

theorem start (h : StartQuiet s) : Orderly s := by
  obtain ⟨h, hq⟩ := h
  have hcall : ∀ t x, s.pcb t = some x → x.call = none := by
    intro t x hx
    by_cases ht : t ∈ s.files.tids
    · obtain ⟨y, hy, -, -, hc, -⟩ := h.user t ht
      rw [hx] at hy
      cases hy
      exact hc
    · by_cases hw : t = s.worker
      · obtain ⟨y, hy, -, -, hc⟩ := h.worker
        rw [← hw, hx] at hy
        cases hy
        exact hc
      · rw [h.others t ht hw] at hx
        cases hx
  have hout : s.outstanding = [] := by
    have hheld := start_held h
    unfold System.outstanding
    rw [h.phase]
    exact hheld
  refine { inv := .start h, quiet := hq, free := fun t x hx _ => hcall t x hx, defined := h.unreachable, order := ?_, once := ?_,
           fresh := ?_, calls := fun t x id hx hc => ?_, stored := ?_, returned := ?_, rejected := ?_, kbufs := ?_, noToken := ?_,
           asleep := fun x hx hb => ?_ }
  · rw [hout, h.ledger]
    rfl
  · rw [h.ledger]
    exact nodup_nil
  · rw [h.ledger]
    exact fun w hw => absurd hw not_mem_nil
  · rw [hcall t x hx] at hc
    cases hc
  · rw [h.ledger]
    exact fun p hp => absurd hp not_mem_nil
  · rw [h.ledger]
    exact fun r hr => absurd hr not_mem_nil
  · rw [h.ledger]
  · rw [hout, h.kbufs]
    exact List.Perm.refl _
  · rw [h.phase]
    exact fun hp => Phase.noConfusion hp
  · obtain ⟨y, hy, -, hr, -⟩ := h.worker
    rw [hx] at hy
    cases hy
    rw [hr] at hb
    cases hb

end Orderly

theorem RoomyRun.orderly (h : RoomyRun s) : Orderly s := by
  refine h.invariant Orderly (fun _ hs => .start hs) fun a b ha ⟨op, hs⟩ => ?_
  unfold roomy at hs
  split at hs
  · next hop =>
    rw [Bool.and_eq_true] at hop
    exact (ha.step hop.1 hop.2 (step_of_next hs)).orderly
  · cases hs

/-- Five turns of the worker are enough for a request. -/
theorem Goes.completes {n : Nat} (h : Orderly s) (hs : Goes n s s') (hn : 5 * s.outstanding.length ≤ n) :
    s.ledger.submitted <+: s'.ledger.processed.map Prod.fst := by
  have hlen : s.ledger.submitted.length = s.ledger.processed.length + s.outstanding.length := by
    rw [h.order, length_append, length_map]
  have hall : s.ledger.submitted.length ≤ s'.ledger.processed.length := by
    rcases hs.turns with hdone | hturns
    · exact hdone
    · have hend : s'.turns ≤ 5 * s'.ledger.processed.length + 4 := by
        unfold System.turns
        cases s'.phase <;> simp
      have hstart : 5 * s.ledger.processed.length ≤ s.turns := Nat.le_add_right _ _
      omega
  refine prefix_of_prefix_length_le hs.submitted ?_ (by rw [length_map]; exact hall)
  rw [hs.orderly.order]
  exact prefix_append _ _

theorem requests_complete (h : RoomyRun s) : Right s ∧ ∀ ops s', Run.exec roomy s ops = some s' →
    5 * s.outstanding.length ≤ ops.countP Op.isWork → s.ledger.submitted <+: s'.ledger.processed.map Prod.fst :=
  ⟨h.orderly.right, fun _ _ hs hn => (h.orderly.run hs).completes h.orderly hn⟩

theorem bootSystem_quiet {n : Nat} (hn : 0 < n) : StartQuiet (bootSystem n) := by
  refine ⟨bootSystem_start hn, fun t x hx => ?_⟩
  simp only [bootSystem] at hx
  split at hx
  · cases hx
    rfl
  · split at hx
    · cases hx
      rfl
    · cases hx

/-- One task reads, and the worker has its five turns. -/
def readAndWork : List Op := .dispatch 0 :: List.replicate 5 (.work ⟨true, 1, 1, true⟩)

theorem requests_complete_read : ∃ s ∈ roomy (bootSystem 2) (.read 0 0 1), s.outstanding.length = 1 ∧ Right s ∧
    ∃ s' ∈ Run.exec roomy s readAndWork, s.ledger.submitted <+: s'.ledger.processed.map Prod.fst := by
  have hrun : ((roomy (bootSystem 2) (.read 0 0 1)).bind fun s =>
      (Run.exec roomy s readAndWork).map fun _ => s.outstanding.length) = some 1 := by decide +kernel
  obtain ⟨s, hs, hrun⟩ := Option.bind_eq_some_iff.mp hrun
  obtain ⟨s', hs', hlen⟩ := Option.map_eq_some_iff.mp hrun
  have hroomy : RoomyRun s := (Run.Reachable.start (bootSystem_quiet (by decide))).step ⟨.read 0 0 1, hs⟩
  obtain ⟨hright, hall⟩ := requests_complete hroomy
  exact ⟨s, hs, hlen, hright, s', hs', hall _ s' hs' (by rw [hlen]; decide)⟩

/-! ## The queue is full -/

/-- 64 tasks read, one after the other, before the worker has a turn. -/
def manyReaders : List Op := (List.range 63).flatMap (fun i => [.read 0 0 1, .dispatch (63 - i)]) ++ [.read 0 0 1]

theorem not_requests_complete : ¬ ∀ s, DiskReachable s → Right s := by
  intro hall
  have hend : (Run.exec next (bootSystem 64) manyReaders).map
      (fun s => (s.unreachable, s.ledger.rejected.length, s.ledger.returned)) = some (true, 1, []) := by decide +kernel
  obtain ⟨s, hs, hend⟩ := Option.map_eq_some_iff.mp hend
  obtain ⟨-, hend⟩ := Prod.mk.inj hend
  obtain ⟨hrejected, hreturned⟩ := Prod.mk.inj hend
  have hdisk : ∀ op ∈ manyReaders, op.isDisk = true := by decide +kernel
  have hreach : DiskReachable s := Run.Reachable.execOn (fun op hop _ _ ht => ⟨op, hdisk op hop, ht⟩)
    (Run.Reachable.start (bootSystem_quiet (by decide))) hs
  obtain ⟨w, hw⟩ := List.exists_mem_of_length_pos (by rw [hrejected]; exact Nat.zero_lt_one)
  have hret := (hall s hreach).rejected w hw
  rw [hreturned] at hret
  cases hret

end Serotonin.Ide
