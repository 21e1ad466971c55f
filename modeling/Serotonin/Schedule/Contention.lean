import Serotonin.Schedule.Semaphore

/-! System calls that wait for a disk channel. `kernel_yield` saves in the control block
where the kernel was, but `switch_task` goes back there for kernel tasks only: a user task
goes on with the context saved when it entered the kernel. -/

namespace Serotonin.Contention

open Function List Option
open Schedule (Tid ProcessState CpuMode)
open Semaphore (LockSemaphore taskSemaphoreInit)

/-- What kernel code does next, as far as channels and buffers go. `command` starts a
transfer and `transfer` waits for it, which only the IDE worker does without polling. -/
inductive Act where
  | malloc (b : Nat)
  | free (b : Nat)
  | acquire (ch : Nat)
  | command (ch : Nat)
  | transfer (ch : Nat)
  | release (ch : Nat)
deriving DecidableEq

/-- A system call under way, or a round of a kernel task: what is left of it, the value that
its full execution returns, and whether it is in the loop of `task_semaphore_acquire`. -/
structure Call where
  id : Nat
  rest : List Act
  errno : Int
  waiting : Bool
deriving DecidableEq

/-- One action further. -/
def Call.next (c : Call) : Call := { c with rest := c.rest.tail, waiting := false }

/-- `eax` is the one of the saved processor context. -/
structure Task where
  priv : CpuMode
  state : ProcessState
  eax : Int
  call : Option Call

inductive Event where
  | malloc (call b : Nat)
  | free (call b : Nat)
  | acquired (call ch : Nat)
  | returned (call : Nat) (eax : Int)
deriving DecidableEq

def Event.call : Event → Nat
  | .malloc k _ | .free k _ | .acquired k _ | .returned k _ => k

/-- `log` is no part of the kernel: what the calls have done so far, last first. -/
structure System where
  task : Tid → Task
  channelLock : Nat → LockSemaphore
  dmaComplete : Nat → Bool
  ideWorker : Tid
  current : Tid
  switching : Bool
  nextCall : Nat
  log : List Event

namespace System

def setTask (s : System) (t : Tid) (x : Task) : System := { s with task := update s.task t x }

def setState (s : System) (t : Tid) (st : ProcessState) : System :=
  s.setTask t { s.task t with state := st }

def setCall (s : System) (c : Option Call) : System :=
  s.setTask s.current { s.task s.current with call := c }

def setLock (s : System) (ch : Nat) (x : LockSemaphore) : System :=
  { s with channelLock := update s.channelLock ch x }

def note (s : System) (e : Event) : System := { s with log := e :: s.log }

end System

def taskUnblock (s : System) (t : Tid) : System :=
  if (s.task t).state = .blocked then s.setState t .ready else s

/-- Blocked, and on the way to `task_yield` through `kernel_yield`. -/
def kernelYield (s : System) : System := { s.setState s.current .blocked with switching := true }

/-- One round of `task_semaphore_acquire`, with `c` at the call of it. -/
def taskSemaphoreAcquire (s : System) (ch : Nat) (c : Call) : System :=
  let x := s.channelLock ch
  if x.currentCount = 0 then
    let s := if c.waiting then s else s.setLock ch { x with waiters := x.waiters ++ [s.current] }
    kernelYield (s.setCall (some { c with waiting := true }))
  else
    let s := s.setLock ch { x with currentCount := x.currentCount - 1 }
    (s.setCall (some c.next)).note (.acquired c.id ch)

def taskSemaphoreRelease (s : System) (ch : Nat) : System :=
  let x := s.channelLock ch
  let count := (x.currentCount + 1) % 2 ^ 32
  match x.waiters with
  | [] => s.setLock ch { x with currentCount := count }
  | t :: ts => taskUnblock (s.setLock ch { x with currentCount := count, waiters := ts }) t

/-- One action of the call. -/
def act (s : System) (c : Call) : Act → System
  | .malloc b => (s.setCall (some c.next)).note (.malloc c.id b)
  | .free b => (s.setCall (some c.next)).note (.free c.id b)
  | .acquire ch => taskSemaphoreAcquire s ch c
  | .command ch =>
    { s.setCall (some c.next) with
      dmaComplete := update s.dmaComplete ch false }
  | .transfer ch =>
    if s.current = s.ideWorker ∧ s.dmaComplete ch = false then kernelYield s
    else s.setCall (some c.next)
  | .release ch => taskSemaphoreRelease (s.setCall (some c.next)) ch

/-- `switch_task`: the kernel stack of a user task is empty again. -/
def switchTask (s : System) (t : Tid) : System :=
  let x := s.task t
  { s.setTask t { x with state := .running, call := if x.priv = .user then none else x.call } with
    current := t, switching := false }

/-- `call` enters the kernel with the operation in `eax`; `irq` ends a transfer; `unblock`
is any other wakeup. -/
inductive Op where
  | call (operation : Int) (prog : List Act) (errno : Int)
  | act
  | ret
  | yield
  | irq (ch : Nat)
  | unblock (t : Tid)
  | dispatch (t : Tid)

def step (s : System) (op : Op) : Option System :=
  let x := s.task s.current
  match op with
  | .call operation prog errno =>
    if !s.switching ∧ x.call = none then
      let c : Call := ⟨s.nextCall, prog, errno, false⟩
      some { s.setTask s.current { x with eax := operation, call := some c } with nextCall := s.nextCall + 1 }
    else none
  | .act =>
    if s.switching then none
    else match x.call with
      | some c => c.rest.head?.map (act s c)
      | none => none
  | .ret =>
    if s.switching then none
    else match x.call with
      | some c =>
        if c.rest = [] then
          some ((s.setTask s.current { x with eax := c.errno, call := none }).note (.returned c.id c.errno))
        else none
      | none => none
  | .yield =>
    if !s.switching ∧ x.call = none then some { s.setState s.current .ready with switching := true } else none
  | .irq ch => some (taskUnblock { s with dmaComplete := update s.dmaComplete ch true } s.ideWorker)
  | .unblock t => some (taskUnblock s t)
  | .dispatch t => if s.switching ∧ (s.task t).state = .ready then some (switchTask s t) else none

def Step (s s' : System) : Prop := ∃ op, step s op = some s'

/-- Every channel is free and no task is in the kernel. -/
structure Init (s : System) : Prop where
  channelLock : ∀ ch, s.channelLock ch = taskSemaphoreInit 1
  call : ∀ t, (s.task t).call = none
  log : s.log = []

/-! ## Calls -/

def System.calls (s : System) (t : Tid) : Option Call := (s.task t).call

/-- A user task waits for a channel in a system call. -/
structure Waits (s : System) (t : Tid) (c : Call) : Prop where
  user : (s.task t).priv = .user
  blocked : (s.task t).state = .blocked
  call : s.calls t = some c
  waiting : c.waiting = true

/-- What the call `k` has done, last first. -/
def done (s : System) (k : Nat) : List Event := s.log.filter fun e => e.call = k

/-- Buffers of the call that are not freed. -/
def Holds (s : System) (k b : Nat) : Prop := s.log.count (.free k b) < s.log.count (.malloc k b)

/-- From `s` to `s'` the call got its channel, returned its value and freed its buffers. -/
structure Completed (s s' : System) (c : Call) : Prop where
  acquired : ∃ ch, s.log.count (.acquired c.id ch) < s'.log.count (.acquired c.id ch)
  returned : .returned c.id c.errno ∈ s'.log
  freed : ∀ b, ¬Holds s' c.id b

/-- Each call has a number of its own, and one that is under way has not returned. -/
structure Inv (s : System) : Prop where
  fresh : ∀ t c, s.calls t = some c → c.id < s.nextCall
  own : ∀ t t' c c', s.calls t = some c → s.calls t' = some c' → c.id = c'.id → t = t'
  active : ∀ t c v, s.calls t = some c → .returned c.id v ∉ s.log
  logged : ∀ e ∈ s.log, e.call < s.nextCall
  away : ∀ t c, s.calls t = some c → c.waiting = true → (s.task t).priv = .user →
    s.current = t → s.switching = true

/-! ## What a step does to the calls -/

/-- Calls, log and who runs stay as they are. -/
structure Quiet (s s' : System) : Prop where
  calls : s'.calls = s.calls
  priv : ∀ t, (s'.task t).priv = (s.task t).priv
  log : s'.log = s.log
  nextCall : s'.nextCall = s.nextCall
  current : s'.current = s.current
  switching : s.switching = true → s'.switching = true

theorem Quiet.refl (s : System) : Quiet s s := ⟨rfl, fun _ => rfl, rfl, rfl, rfl, id⟩

theorem Quiet.trans {s s' r : System} (h : Quiet s s') (h' : Quiet s' r) : Quiet s r :=
  ⟨h'.calls.trans h.calls, fun t => (h'.priv t).trans (h.priv t), h'.log.trans h.log,
    h'.nextCall.trans h.nextCall, h'.current.trans h.current, fun hs => h'.switching (h.switching hs)⟩

theorem setTask_calls (s : System) (t : Tid) (x : Task) :
    (s.setTask t x).calls = update s.calls t x.call := by
  funext u
  unfold System.calls System.setTask
  by_cases hu : u = t
  · subst hu
    simp only [update_self]
  · simp only [update_of_ne hu]

theorem setTask_priv {s : System} {t : Tid} {x : Task} (hx : x.priv = (s.task t).priv) (u : Tid) :
    ((s.setTask t x).task u).priv = (s.task u).priv := by
  unfold System.setTask
  by_cases hu : u = t
  · subst hu
    simp only [update_self]
    exact hx
  · simp only [update_of_ne hu]

theorem setCall_priv (s : System) (c : Option Call) (t : Tid) :
    ((s.setCall c).task t).priv = (s.task t).priv :=
  setTask_priv (x := { s.task s.current with call := c }) rfl t

theorem quiet_setState (s : System) (t : Tid) (st : ProcessState) : Quiet s (s.setState t st) := by
  refine ⟨?_, setTask_priv rfl, rfl, rfl, rfl, id⟩
  unfold System.setState
  rw [setTask_calls]
  exact update_eq_self t s.calls

theorem quiet_taskUnblock (s : System) (t : Tid) : Quiet s (taskUnblock s t) := by
  unfold taskUnblock
  split
  · exact quiet_setState s t .ready
  · exact .refl s

theorem quiet_setLock (s : System) (ch : Nat) (x : LockSemaphore) : Quiet s (s.setLock ch x) :=
  ⟨rfl, fun _ => rfl, rfl, rfl, rfl, id⟩

theorem quiet_kernelYield (s : System) : Quiet s (kernelYield s) := by
  obtain ⟨h1, h2, h3, h4, h5, -⟩ := quiet_setState s s.current .blocked
  exact ⟨h1, h2, h3, h4, h5, fun _ => rfl⟩

theorem quiet_taskSemaphoreRelease (s : System) (ch : Nat) : Quiet s (taskSemaphoreRelease s ch) := by
  unfold taskSemaphoreRelease
  dsimp only
  split
  · exact quiet_setLock s ch _
  · exact (quiet_setLock s ch _).trans (quiet_taskUnblock _ _)

/-- The running task's call goes on as `c'`, with the events `es`. -/
structure Acts (s : System) (c : Call) (s' : System) (c' : Call) (es : List Event) : Prop where
  calls : s'.calls = update s.calls s.current (some c')
  priv : ∀ t, (s'.task t).priv = (s.task t).priv
  log : s'.log = es ++ s.log
  events : ∀ e ∈ es, e.call = c.id ∧ ∀ v, e ≠ .returned c.id v
  nextCall : s'.nextCall = s.nextCall
  current : s'.current = s.current
  id : c'.id = c.id
  waiting : c'.waiting = true → s'.switching = true

theorem Acts.quiet {s s' r : System} {c c' : Call} {es : List Event} (h : Acts s c s' c' es) (hq : Quiet s' r) :
    Acts s c r c' es :=
  ⟨hq.calls.trans h.calls, fun t => (hq.priv t).trans (h.priv t), hq.log.trans h.log, h.events,
    hq.nextCall.trans h.nextCall, hq.current.trans h.current, h.id, fun hw => hq.switching (h.waiting hw)⟩

theorem acts_setCall {s : System} {c c' : Call} (hid : c'.id = c.id) (hw : c'.waiting = true → s.switching = true) :
    Acts s c (s.setCall (some c')) c' [] :=
  ⟨setTask_calls s s.current _, setTask_priv rfl, rfl, fun _ he => (not_mem_nil he).elim, rfl, rfl, hid, hw⟩

theorem acts_next (s : System) (c : Call) : Acts s c (s.setCall (some c.next)) c.next [] :=
  acts_setCall rfl fun h => nomatch h

theorem Acts.note {s s' : System} {c c' : Call} (h : Acts s c s' c' []) {e : Event}
    (he : e.call = c.id ∧ ∀ v, e ≠ .returned c.id v) : Acts s c (s'.note e) c' [e] :=
  ⟨h.calls, h.priv, congrArg (e :: ·) h.log, fun _ hmem => mem_singleton.mp hmem ▸ he, h.nextCall, h.current,
    h.id, h.waiting⟩

theorem act_acts {s : System} {c : Call} (hc : s.calls s.current = some c) (a : Act) :
    ∃ c' es, Acts s c (act s c a) c' es := by
  cases a with
  | malloc b => exact ⟨c.next, _, (acts_next s c).note ⟨rfl, fun _ h => nomatch h⟩⟩
  | free b => exact ⟨c.next, _, (acts_next s c).note ⟨rfl, fun _ h => nomatch h⟩⟩
  | acquire ch =>
    unfold act taskSemaphoreAcquire
    dsimp only
    split
    · -- the call waits; it is in the queue from its first round on
      have hblocked : ∀ r, Quiet s r →
          Acts s c (kernelYield (r.setCall (some { c with waiting := true }))) { c with waiting := true } [] := by
        intro r hq
        obtain ⟨h1, h2, h3, h4, h5, -⟩ := quiet_kernelYield (r.setCall (some { c with waiting := true }))
        refine ⟨?_, fun t => ?_, h3.trans hq.log, fun _ he => (not_mem_nil he).elim, h4.trans hq.nextCall,
          h5.trans hq.current, rfl, fun _ => rfl⟩
        · rw [h1, ← hq.calls, ← hq.current]
          exact setTask_calls r r.current _
        · exact ((h2 t).trans (setCall_priv r _ t)).trans (hq.priv t)
      refine ⟨_, _, hblocked _ ?_⟩
      split
      · exact .refl s
      · exact quiet_setLock s ch _
    · let x := { s.channelLock ch with currentCount := (s.channelLock ch).currentCount - 1 }
      have hlock := acts_next (s.setLock ch x) c
      have hnote := hlock.note (e := .acquired c.id ch) ⟨rfl, fun _ h => nomatch h⟩
      exact ⟨c.next, [.acquired c.id ch], ⟨hnote.calls, hnote.priv, hnote.log, hnote.events, hnote.nextCall,
        hnote.current, hnote.id, hnote.waiting⟩⟩
  | command ch => exact ⟨c.next, [], (acts_next s c).quiet ⟨rfl, fun _ => rfl, rfl, rfl, rfl, id⟩⟩
  | transfer ch =>
    unfold act
    dsimp only
    split
    · obtain ⟨h1, h2, h3, h4, h5, -⟩ := quiet_kernelYield s
      refine ⟨c, [], ⟨?_, h2, h3, fun _ he => (not_mem_nil he).elim, h4, h5, rfl, fun _ => rfl⟩⟩
      rw [h1, ← hc, update_eq_self]
    · exact ⟨c.next, [], acts_next s c⟩
  | release ch => exact ⟨c.next, [], (acts_next s c).quiet (quiet_taskSemaphoreRelease _ ch)⟩

/-- A step leaves the calls alone, begins one, goes on with the one of the running task,
ends it, or gives the processor to a task, and to a user task without its call. -/
inductive Change (s s' : System) : Prop
  | quiet (h : Quiet s s')
  | begins (c : Call) (hnone : s.calls s.current = none) (hc : c.id = s.nextCall) (hw : c.waiting = false)
      (hcalls : s'.calls = update s.calls s.current (some c)) (hlog : s'.log = s.log)
      (hnext : s'.nextCall = s.nextCall + 1) (hcurrent : s'.current = s.current)
  | acts (c c' : Call) (es : List Event) (hs : s.switching = false) (hc : s.calls s.current = some c)
      (h : Acts s c s' c' es)
  | returns (c : Call) (hs : s.switching = false) (hc : s.calls s.current = some c)
      (hcalls : s'.calls = update s.calls s.current none) (hlog : s'.log = .returned c.id c.errno :: s.log)
      (hnext : s'.nextCall = s.nextCall) (hcurrent : s'.current = s.current)
  | dispatches (t : Tid) (hcalls : s'.calls =
      update s.calls t (if (s.task t).priv = .user then none else s.calls t)) (hlog : s'.log = s.log)
      (hnext : s'.nextCall = s.nextCall) (hcurrent : s'.current = t)

theorem step_change {s s' : System} {op : Op} (hs : step s op = some s') :
    Change s s' ∧ ∀ t, (s'.task t).priv = (s.task t).priv := by
  unfold step at hs
  cases op with
  | call operation prog errno =>
    obtain ⟨⟨-, hnone⟩, hs⟩ := ite_none_right_eq_some.mp hs
    cases hs
    exact ⟨.begins _ hnone rfl rfl (setTask_calls s s.current _) rfl rfl rfl, setTask_priv rfl⟩
  | act =>
    obtain ⟨hsw, hs⟩ := ite_none_left_eq_some.mp hs
    cases hc : (s.task s.current).call with
    | none => rw [hc] at hs; cases hs
    | some c =>
      rw [hc] at hs
      obtain ⟨a, -, rfl⟩ := map_eq_some_iff.mp hs
      obtain ⟨c', es, h⟩ := act_acts hc a
      exact ⟨.acts c c' es (Bool.not_eq_true _ ▸ hsw) hc h, h.priv⟩
  | ret =>
    obtain ⟨hsw, hs⟩ := ite_none_left_eq_some.mp hs
    cases hc : (s.task s.current).call with
    | none => rw [hc] at hs; cases hs
    | some c =>
      rw [hc] at hs
      obtain ⟨-, hs⟩ := ite_none_right_eq_some.mp hs
      cases hs
      exact ⟨.returns c (Bool.not_eq_true _ ▸ hsw) hc (setTask_calls s s.current _) rfl rfl rfl,
        setTask_priv rfl⟩
  | yield =>
    obtain ⟨-, hs⟩ := ite_none_right_eq_some.mp hs
    cases hs
    obtain ⟨h1, h2, h3, h4, h5, -⟩ := quiet_setState s s.current .ready
    exact ⟨.quiet ⟨h1, h2, h3, h4, h5, fun _ => rfl⟩, h2⟩
  | irq ch =>
    cases hs
    have hdone : Quiet s { s with dmaComplete := update s.dmaComplete ch true } :=
      ⟨rfl, fun _ => rfl, rfl, rfl, rfl, id⟩
    have hq := hdone.trans (quiet_taskUnblock _ s.ideWorker)
    exact ⟨.quiet hq, hq.priv⟩
  | unblock t =>
    cases hs
    exact ⟨.quiet (quiet_taskUnblock s t), (quiet_taskUnblock s t).priv⟩
  | dispatch t =>
    obtain ⟨-, hs⟩ := ite_none_right_eq_some.mp hs
    cases hs
    exact ⟨.dispatches t (setTask_calls s t _) rfl rfl rfl, setTask_priv rfl⟩

theorem Init.inv {s : System} (h : Init s) : Inv s := by
  have hnone : ∀ t c, s.calls t ≠ some c := fun t c hc => by
    have hcall : s.calls t = none := h.call t
    rw [hcall] at hc
    cases hc
  refine ⟨fun t c hc => absurd hc (hnone t c), fun t _ c _ hc => absurd hc (hnone t c),
    fun t c _ hc => absurd hc (hnone t c), fun e he => ?_, fun t c hc => absurd hc (hnone t c)⟩
  rw [h.log] at he
  cases he

/-- A task's call is one that was there, as far as its number goes. -/
theorem calls_replaced {s s' : System} {c c' : Call} (hc : s.calls s.current = some c)
    (hcalls : s'.calls = update s.calls s.current (some c')) (hid : c'.id = c.id) :
    ∀ t x, s'.calls t = some x → ∃ y, s.calls t = some y ∧ y.id = x.id ∧ (t ≠ s.current → y = x) := by
  intro t x hx
  rw [hcalls] at hx
  by_cases ht : t = s.current
  · subst ht
    rw [update_self] at hx
    cases hx
    exact ⟨c, hc, hid.symm, fun hne => absurd rfl hne⟩
  · rw [update_of_ne ht] at hx
    exact ⟨x, hx, rfl, fun _ => rfl⟩

theorem Inv.change {s s' : System} (h : Inv s) (hch : Change s s')
    (hpriv : ∀ t, (s'.task t).priv = (s.task t).priv) : Inv s' := by
  cases hch with
  | quiet hq =>
    refine ⟨?_, ?_, ?_, ?_, ?_⟩
    · rw [hq.calls, hq.nextCall]
      exact h.fresh
    · rw [hq.calls]
      exact h.own
    · rw [hq.calls, hq.log]
      exact h.active
    · rw [hq.log, hq.nextCall]
      exact h.logged
    · intro t c hc hw hu hcur
      rw [hq.calls] at hc
      rw [hpriv t] at hu
      rw [hq.current] at hcur
      exact hq.switching (h.away t c hc hw hu hcur)
  | begins c hnone hc hw hcalls hlog hnext hcurrent =>
    have hcase : ∀ t x, s'.calls t = some x → (t = s.current ∧ x = c) ∨ (t ≠ s.current ∧ s.calls t = some x) := by
      intro t x hx
      rw [hcalls] at hx
      by_cases ht : t = s.current
      · subst ht
        rw [update_self] at hx
        exact .inl ⟨rfl, (Option.some.inj hx).symm⟩
      · rw [update_of_ne ht] at hx
        exact .inr ⟨ht, hx⟩
    refine ⟨fun t x hx => ?_, fun t t' x x' hx hx' he => ?_, fun t x v hx => ?_, fun e he => ?_,
      fun t x hx hxw hu hcur => ?_⟩
    · rw [hnext]
      obtain ⟨-, rfl⟩ | ⟨-, hold⟩ := hcase t x hx
      · omega
      · have hlt := h.fresh t x hold
        omega
    · obtain ⟨ht, rfl⟩ | ⟨-, hold⟩ := hcase t x hx
      · obtain ⟨ht', -⟩ | ⟨-, hold'⟩ := hcase t' x' hx'
        · exact ht.trans ht'.symm
        · have hlt := h.fresh t' x' hold'
          omega
      · obtain ⟨-, rfl⟩ | ⟨-, hold'⟩ := hcase t' x' hx'
        · have hlt := h.fresh t x hold
          omega
        · exact h.own t t' x x' hold hold' he
    · rw [hlog]
      obtain ⟨-, rfl⟩ | ⟨-, hold⟩ := hcase t x hx
      · intro hmem
        have hlt : x.id < s.nextCall := h.logged _ hmem
        omega
      · exact h.active t x v hold
    · rw [hlog] at he
      rw [hnext]
      exact Nat.lt_succ_of_lt (h.logged e he)
    · obtain ⟨-, rfl⟩ | ⟨ht, -⟩ := hcase t x hx
      · rw [hw] at hxw
        cases hxw
      · exact absurd (hcurrent ▸ hcur).symm ht
  | acts c c' es hs hc ha =>
    have hold := calls_replaced hc ha.calls ha.id
    refine ⟨fun t x hx => ?_, fun t t' x x' hx hx' he => ?_, fun t x v hx => ?_, fun e he => ?_,
      fun t x hx hxw hu hcur => ?_⟩
    · obtain ⟨y, hy, hid, -⟩ := hold t x hx
      rw [ha.nextCall, ← hid]
      exact h.fresh t y hy
    · obtain ⟨y, hy, hid, -⟩ := hold t x hx
      obtain ⟨y', hy', hid', -⟩ := hold t' x' hx'
      exact h.own t t' y y' hy hy' (hid.trans (he.trans hid'.symm))
    · obtain ⟨y, hy, hid, -⟩ := hold t x hx
      rw [ha.log, ← hid]
      intro hmem
      obtain hmem | hmem := mem_append.mp hmem
      · obtain ⟨hcall, hne⟩ := ha.events _ hmem
        have hcall' : y.id = c.id := hcall
        exact hne v (by rw [hcall'])
      · exact h.active t y v hy hmem
    · rw [ha.log] at he
      rw [ha.nextCall]
      obtain he | he := mem_append.mp he
      · rw [(ha.events e he).1]
        exact h.fresh _ c hc
      · exact h.logged e he
    · rw [ha.calls, show s.current = t from ha.current ▸ hcur, update_self] at hx
      cases hx
      exact ha.waiting hxw
  | returns c hs hc hcalls hlog hnext hcurrent =>
    have hcase : ∀ t x, s'.calls t = some x → t ≠ s.current ∧ s.calls t = some x := by
      intro t x hx
      rw [hcalls] at hx
      by_cases ht : t = s.current
      · subst ht
        rw [update_self] at hx
        cases hx
      · rw [update_of_ne ht] at hx
        exact ⟨ht, hx⟩
    refine ⟨fun t x hx => hnext ▸ h.fresh t x (hcase t x hx).2,
      fun t t' x x' hx hx' he => h.own t t' x x' (hcase t x hx).2 (hcase t' x' hx').2 he, fun t x v hx => ?_,
      fun e he => ?_, fun t x hx hxw hu hcur => absurd (hcurrent ▸ hcur).symm (hcase t x hx).1⟩
    · obtain ⟨ht, hx'⟩ := hcase t x hx
      rw [hlog]
      intro hmem
      obtain heq | hmem := mem_cons.mp hmem
      · exact ht (h.own t s.current x c hx' hc (Event.returned.inj heq).1)
      · exact h.active t x v hx' hmem
    · rw [hlog] at he
      rw [hnext]
      obtain rfl | he := mem_cons.mp he
      · exact h.fresh _ c hc
      · exact h.logged e he
  | dispatches t hcalls hlog hnext hcurrent =>
    have hcase : ∀ u x, s'.calls u = some x → s.calls u = some x ∧ (u = t → (s.task t).priv ≠ .user) := by
      intro u x hx
      rw [hcalls] at hx
      by_cases hu : u = t
      · subst hu
        rw [update_self] at hx
        obtain ⟨hp, hx⟩ := ite_none_left_eq_some.mp hx
        exact ⟨hx, fun _ => hp⟩
      · rw [update_of_ne hu] at hx
        exact ⟨hx, fun he => absurd he hu⟩
    refine ⟨fun u x hx => hnext ▸ h.fresh u x (hcase u x hx).1,
      fun u u' x x' hx hx' he => h.own u u' x x' (hcase u x hx).1 (hcase u' x' hx').1 he,
      fun u x v hx => hlog ▸ h.active u x v (hcase u x hx).1, fun e he => ?_, fun u x hx hxw hu hcur => ?_⟩
    · rw [hlog] at he
      rw [hnext]
      exact h.logged e he
    · have hut : u = t := hcur.symm.trans hcurrent
      exact absurd (hut ▸ (hpriv u ▸ hu)) ((hcase u x hx).2 hut)

/-! ## A call that waits -/

/-- The call `k` of a user task that is off the processor, or nobody's any more. -/
structure Off (k : Nat) (events : List Event) (s : System) : Prop where
  inv : Inv s
  issued : k < s.nextCall
  done : done s k = events
  pending : (∀ v, .returned k v ∉ s.log)
  owner : ∀ t c, s.calls t = some c → c.id = k → (s.task t).priv = .user ∧ (s.current = t → s.switching = true)

theorem Off.change {k : Nat} {events : List Event} {s s' : System} (h : Off k events s) (hch : Change s s')
    (hpriv : ∀ t, (s'.task t).priv = (s.task t).priv) : Off k events s' := by
  have hinv := h.inv.change hch hpriv
  cases hch with
  | quiet hq =>
    refine ⟨hinv, hq.nextCall ▸ h.issued, ?_, fun v => hq.log ▸ h.pending v, fun t c hc hk => ?_⟩
    · rw [← h.done, Contention.done, hq.log]
      rfl
    · rw [hq.calls] at hc
      obtain ⟨hu, hcur⟩ := h.owner t c hc hk
      exact ⟨hpriv t ▸ hu, fun he => hq.switching (hcur (hq.current ▸ he))⟩
  | begins c hnone hc hw hcalls hlog hnext hcurrent =>
    refine ⟨hinv, hnext ▸ Nat.lt_succ_of_lt h.issued, ?_, fun v => hlog ▸ h.pending v, fun t x hx hk => ?_⟩
    · rw [← h.done, Contention.done, hlog]
      rfl
    · rw [hcalls] at hx
      by_cases ht : t = s.current
      · subst ht
        rw [update_self] at hx
        cases hx
        have hlt := h.issued
        omega
      · rw [update_of_ne ht] at hx
        exact ⟨hpriv t ▸ (h.owner t x hx hk).1, fun he => absurd (hcurrent ▸ he).symm ht⟩
  | acts c c' es hs hc ha =>
    have hne : c.id ≠ k := by
      intro hk
      have hsw := (h.owner _ c hc hk).2 rfl
      rw [hs] at hsw
      cases hsw
    refine ⟨hinv, ha.nextCall ▸ h.issued, ?_, fun v hmem => ?_, fun t x hx hk => ?_⟩
    · have hnil : es.filter (fun e => e.call = k) = [] := by
        rw [filter_eq_nil_iff]
        intro e he
        rw [(ha.events e he).1]
        simpa using hne
      rw [← h.done, Contention.done, ha.log, filter_append, hnil]
      rfl
    · rw [ha.log] at hmem
      obtain hmem | hmem := mem_append.mp hmem
      · exact hne (ha.events _ hmem).1.symm
      · exact h.pending v hmem
    · obtain ⟨y, hy, hid, heq⟩ := calls_replaced hc ha.calls ha.id t x hx
      by_cases ht : t = s.current
      · subst ht
        rw [hc] at hy
        cases hy
        exact absurd (hid.trans hk) hne
      · rw [heq ht] at hy
        exact ⟨hpriv t ▸ (h.owner t x hy hk).1, fun he => absurd (ha.current ▸ he).symm ht⟩
  | returns c hs hc hcalls hlog hnext hcurrent =>
    have hne : c.id ≠ k := by
      intro hk
      have hsw := (h.owner _ c hc hk).2 rfl
      rw [hs] at hsw
      cases hsw
    refine ⟨hinv, hnext ▸ h.issued, ?_, fun v hmem => ?_, fun t x hx hk => ?_⟩
    · rw [← h.done, Contention.done, hlog, filter_cons_of_neg]
      · rfl
      · simp [Event.call, hne]
    · rw [hlog] at hmem
      obtain heq | hmem := mem_cons.mp hmem
      · exact hne (Event.returned.inj heq).1.symm
      · exact h.pending v hmem
    · rw [hcalls] at hx
      by_cases ht : t = s.current
      · subst ht
        rw [update_self] at hx
        cases hx
      · rw [update_of_ne ht] at hx
        exact ⟨hpriv t ▸ (h.owner t x hx hk).1, fun he => absurd (hcurrent ▸ he).symm ht⟩
  | dispatches t hcalls hlog hnext hcurrent =>
    refine ⟨hinv, hnext ▸ h.issued, ?_, fun v => hlog ▸ h.pending v, fun u x hx hk => ?_⟩
    · rw [← h.done, Contention.done, hlog]
      rfl
    · rw [hcalls] at hx
      by_cases hu : u = t
      · subst hu
        rw [update_self] at hx
        obtain ⟨hp, hx⟩ := ite_none_left_eq_some.mp hx
        exact absurd (h.owner u x hx hk).1 hp
      · rw [update_of_ne hu] at hx
        exact ⟨hpriv u ▸ (h.owner u x hx hk).1, fun he => absurd (he.symm.trans hcurrent) hu⟩

theorem reachable_inv {s : System} (h : Run.Reachable Init Step s) : Inv s :=
  h.invariant Inv (fun _ hi => hi.inv) fun _ _ hi ⟨_, hs⟩ =>
    hi.change (step_change hs).1 (step_change hs).2

theorem Waits.off {s : System} {t : Tid} {c : Call} (hw : Waits s t c) (h : Inv s) :
    Off c.id (done s c.id) s := by
  refine ⟨h, h.fresh t c hw.call, rfl, fun v => h.active t c v hw.call, fun u x hx hk => ?_⟩
  have hut := h.own u t x c hx hw.call hk
  subst hut
  obtain rfl := Option.some.inj (hx.symm.trans hw.call)
  exact ⟨hw.user, h.away u x hx hw.waiting hw.user⟩

theorem Waits.stays_off {s s' : System} {t : Tid} {c : Call} (hw : Waits s t c) (h : Inv s)
    (hr : Run.Reachable (· = s) Step s') : Off c.id (done s c.id) s' :=
  hr.invariant (Off c.id (done s c.id)) (fun r (he : r = s) => he ▸ hw.off h) fun _ _ ho ⟨_, hs⟩ =>
    ho.change (step_change hs).1 (step_change hs).2

theorem count_done {s : System} {e : Event} : (done s e.call).count e = s.log.count e := by
  unfold done
  rw [count_filter]
  simp

/-- A system call of a user task that waits for a channel is lost: in no run does it get the
channel, return a value, or free what it holds. -/
theorem waiting_call_lost {s s' : System} {t : Tid} {c : Call} (h : Run.Reachable Init Step s)
    (hw : Waits s t c) (hr : Run.Reachable (· = s) Step s') :
    (∀ ch, s'.log.count (.acquired c.id ch) = s.log.count (.acquired c.id ch)) ∧
      (∀ v, .returned c.id v ∉ s'.log) ∧ (∀ b, Holds s' c.id b ↔ Holds s c.id b) ∧ ¬Completed s s' c := by
  have hoff := hw.stays_off (reachable_inv h) hr
  have hcount : ∀ e : Event, e.call = c.id → s'.log.count e = s.log.count e := by
    intro e he
    rw [← count_done, ← count_done, he, hoff.done]
  refine ⟨fun ch => hcount _ rfl, hoff.pending, fun b => ?_, fun hc => hoff.pending _ hc.returned⟩
  unfold Holds
  rw [hcount _ rfl, hcount _ rfl]

/-! ## One disk, two tasks -/

/-- The IDE worker, task 1, runs; task 2 is a user task that is ready. -/
def bootedDisk : System where
  task t :=
    { priv := if t = 1 then .kernel else .user
      state := if t = 1 then .running else .ready
      eax := 0
      call := none }
  channelLock _ := taskSemaphoreInit 1
  dmaComplete _ := false
  ideWorker := 1
  current := 1
  switching := false
  nextCall := 0
  log := []

theorem bootedDisk_init : Init bootedDisk := ⟨fun _ => rfl, fun _ => rfl, rfl⟩

/-- The worker waits for its transfer with the channel locked, and task 2 comes with the
system call `stat`, which has allocated a buffer and wants a directory sector. -/
def contend : List Op :=
  [.call 0 [.acquire 0, .command 0, .transfer 0, .release 0] 0, .act, .act, .act, .dispatch 2,
    .call 15 [.malloc 7, .acquire 0, .command 0, .transfer 0, .release 0, .free 7] 0, .act, .act]

/-- The transfer ends, the worker releases the channel, and task 2 runs. -/
def resolve : List Op := [.irq 0, .dispatch 1, .act, .act, .ret, .yield, .dispatch 2]

def statCall : Call := ⟨1, [.acquire 0, .command 0, .transfer 0, .release 0, .free 7], 0, true⟩

theorem contend_waits : ∃ s, Run.exec step bootedDisk contend = some s ∧ Run.Reachable Init Step s ∧
    Waits s 2 statCall ∧ Holds s statCall.id 7 := by
  have hrun : (Run.exec step bootedDisk contend).map (fun s => ((s.task 2).priv, (s.task 2).state, s.calls 2,
      s.log.count (.malloc 1 7), s.log.count (.free 1 7))) = some (.user, .blocked, some statCall, 1, 0) := by
    decide +kernel
  obtain ⟨s, hs, heq⟩ := map_eq_some_iff.mp hrun
  obtain ⟨hpriv, heq⟩ := Prod.mk.inj heq
  obtain ⟨hstate, heq⟩ := Prod.mk.inj heq
  obtain ⟨hcall, heq⟩ := Prod.mk.inj heq
  obtain ⟨hmalloc, hfree⟩ := Prod.mk.inj heq
  refine ⟨s, hs, (Run.Reachable.start bootedDisk_init).exec (fun _ op _ hst => ⟨op, hst⟩) hs,
    ⟨hpriv, hstate, hcall, rfl⟩, ?_⟩
  unfold Holds
  show s.log.count (.free 1 7) < s.log.count (.malloc 1 7)
  rw [hmalloc, hfree]
  decide

/-- `stat` never completes. -/
theorem not_always_completed : ¬∀ s t c, Run.Reachable Init Step s → Waits s t c →
    ∃ s', Run.Reachable (· = s) Step s' ∧ Completed s s' c := by
  intro h
  obtain ⟨s, -, hreach, hw, -⟩ := contend_waits
  obtain ⟨s', hr, hc⟩ := h s 2 statCall hreach hw
  exact (hw.stays_off (reachable_inv hreach) hr).pending _ hc.returned

/-- Task 2 is back in user mode with the number of the operation in `eax`, and the buffer of
its call stays allocated. -/
theorem waiting_call_lost_stat : ∃ s s', Waits s 2 statCall ∧ Run.exec step s resolve = some s' ∧
    s'.current = 2 ∧ (s'.task 2).eax = 15 ∧ s'.calls 2 = none ∧ Holds s' statCall.id 7 ∧ ¬Completed s s' statCall := by
  obtain ⟨s, hs, hreach, hw, hholds⟩ := contend_waits
  have hrun : ((Run.exec step bootedDisk contend).bind fun s => Run.exec step s resolve).map
      (fun s => (s.current, (s.task 2).eax, s.calls 2)) = some (2, 15, none) := by decide +kernel
  rw [hs, Option.bind_some] at hrun
  obtain ⟨s', hs', heq⟩ := Option.map_eq_some_iff.mp hrun
  obtain ⟨hcur, heq⟩ := Prod.mk.inj heq
  obtain ⟨heax, hcall⟩ := Prod.mk.inj heq
  have h0 : Run.Reachable (· = s) Step s := .start rfl
  have hr : Run.Reachable (· = s) Step s' := h0.exec (fun _ op _ hst => ⟨op, hst⟩) hs'
  obtain ⟨-, -, hkeeps, hnot⟩ := waiting_call_lost hreach hw hr
  exact ⟨s, s', hw, hs', hcur, heax, hcall, (hkeeps 7).mpr hholds, hnot⟩

end Serotonin.Contention
