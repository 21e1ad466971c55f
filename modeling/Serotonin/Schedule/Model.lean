import Mathlib.Algebra.Group.Nat.Defs
import Mathlib.Logic.Function.Basic

/-! The scheduler of `kernel/schedule/schedule.c` and the timer interrupt that
drives it. A task is known by the address of its control block. Tasks wait to
run in one queue for each priority, linked through `rq_next` inside the control
blocks. What runs between two moments at which an interrupt can come in is one
step; `task_yield` and `task_exit` are more than one, with `Mode` saying how far
the processor has got. -/

namespace Serotonin.Schedule

open Function

abbrev Tid := Nat

def exitSigill : Nat := 4
def exitSigalrm : Nat := 14
def priorityDecayRate : Int := 10
def priorityQuantaPunish : Nat := 10
def priorityResetDecay : Nat := 10
def maxPriority : Int := 256
def scheduleQuantum : Nat := 10
def vbeTicksPerFrame : Nat := 8
def esrch : Int := 3
def efault : Int := 14

/-- `(uint32_t)-1`, the value of `waiting_on` for a task that waits for no pid. -/
def noPid : Nat := 0xFFFFFFFF

inductive ProcessState where
  | unused
  | running
  | ready
  | blocked
  | terminated
deriving DecidableEq, Repr

inductive CpuMode where
  | kernel
  | user
deriving DecidableEq, Repr

/-- `process_control_block_t`, the fields that scheduling reads. `eax` is the one
of the saved processor context, `statusWord` what was stored at `status_ptr`. -/
structure Pcb where
  pid : Nat
  state : ProcessState
  priv : CpuMode
  rqNext : Option Tid
  priority : UInt8
  originalPriority : UInt8
  resetCount : UInt8
  quantaUsed : Nat
  waitingOn : Nat
  statusPtr : Option Nat
  statusWord : Option Nat
  signal : Nat
  signalHandlers : Nat → Nat
  signalBitmask : BitVec 32
  blockedSignals : BitVec 32
  inSignalHandler : Bool
  alarmTicks : Nat
  noRequeue : Bool
  eax : Int

structure PrioQueue where
  head : Option Tid
  tail : Option Tid
deriving DecidableEq, Repr

/-- Where the processor is. -/
inductive Mode where
  /-- The current task runs, or the kernel on its behalf. -/
  | running
  /-- The current task was set to wait and is on its way to `task_yield`. -/
  | yielding
  /-- In the loop of `task_yield`. -/
  | switching
  /-- In `task_exit` of the task, before it tells who waits for it. -/
  | exiting (task : Tid) (exit : Nat)
deriving DecidableEq, Repr

/-- The scheduler's static variables. `pending` is no variable of the source: it
records the tasks that were enqueued and not yet dequeued, and nothing reads it. -/
structure Sched where
  pcb : Tid → Pcb
  current : Tid
  taskList : List Tid
  zombieList : List Tid
  nextPid : Nat
  prioQ : UInt8 → PrioQueue
  topBitmap : BitVec 8
  prioBitmap : Nat → BitVec 32
  preemptCount : Nat
  multitaskingReady : Bool
  vbeTicks : Nat
  lastQuantumTick : Nat
  vbeWorkerTask : Tid
  errno : Int
  mode : Mode
  pending : List Tid

namespace Sched

def modify (s : Sched) (t : Tid) (f : Pcb → Pcb) : Sched :=
  { s with pcb := update s.pcb t (f (s.pcb t)) }

def rqNext (s : Sched) (t : Tid) : Option Tid := (s.pcb t).rqNext

def state (s : Sched) (t : Tid) : ProcessState := (s.pcb t).state

def setState (s : Sched) (t : Tid) (st : ProcessState) : Sched :=
  s.modify t fun x => { x with state := st }

def setRqNext (s : Sched) (t : Tid) (n : Option Tid) : Sched :=
  s.modify t fun x => { x with rqNext := n }

def setQueue (s : Sched) (p : UInt8) (head tail : Option Tid) : Sched :=
  { s with prioQ := update s.prioQ p ⟨head, tail⟩ }

def recordEnqueue (s : Sched) (t : Tid) : Sched := { s with pending := t :: s.pending }

def recordDequeue (s : Sched) (t : Tid) : Sched :=
  { s with pending := s.pending.filter (· != t) }

end Sched

/-! ## The run queues -/

def bmSet (s : Sched) (p : UInt8) : Sched :=
  let word := (p >>> 5).toNat
  let bit := (p &&& 31).toNat
  { s with
    prioBitmap := update s.prioBitmap word (s.prioBitmap word ||| (1#32 <<< bit))
    topBitmap := s.topBitmap ||| (1#8 <<< word) }

def bmClear (s : Sched) (p : UInt8) : Sched :=
  let word := (p >>> 5).toNat
  let bit := (p &&& 31).toNat
  let w := s.prioBitmap word &&& ~~~(1#32 <<< bit)
  { s with
    prioBitmap := update s.prioBitmap word w
    topBitmap := if w = 0#32 then s.topBitmap &&& ~~~(1#8 <<< word) else s.topBitmap }

/-- `31 - __builtin_clz(w)` for a word that is not zero. -/
def highestBit {n : Nat} (w : BitVec n) : Nat := Nat.log2 w.toNat

def highestReadyPrio (s : Sched) : Option UInt8 :=
  if s.topBitmap = 0#8 then none
  else
    let word := highestBit s.topBitmap
    let bit := highestBit (s.prioBitmap word)
    some (UInt8.ofNat (word <<< 5 ||| bit))

def enqueue (s : Sched) (t : Tid) : Sched :=
  let p := (s.pcb t).priority
  let q := s.prioQ p
  let s := (s.setRqNext t none).recordEnqueue t
  match q.head, q.tail with
  | none, _ => bmSet (s.setQueue p (some t) (some t)) p
  | some head, some tail => (s.setRqNext tail (some t)).setQueue p (some head) (some t)
  | some head, none => s.setQueue p (some head) (some t)

def dequeue (s : Sched) : Option Tid × Sched :=
  match highestReadyPrio s with
  | none => (none, s)
  | some p =>
    let q := s.prioQ p
    match q.head with
    | none => (none, bmClear s p)
    | some t =>
      let head := s.rqNext t
      let s := (s.setRqNext t none).recordDequeue t
      match head with
      | none => (some t, bmClear (s.setQueue p none none) p)
      | some h => (some t, s.setQueue p (some h) q.tail)

def taskUnblock (s : Sched) (t : Tid) : Sched :=
  if s.state t = .blocked then enqueue (s.setState t .ready) t else s

/-! ## Signals -/

def taskIpcSignalRaise (s : Sched) (t : Tid) (signal : Nat) : Sched :=
  if 16 ≤ signal then s
  else
    let s := s.modify t fun x => { x with signalBitmask := x.signalBitmask ||| (1#32 <<< signal) }
    if s.state t = .blocked then taskUnblock s t else s

/-- `__builtin_ctz`, for a word that is not zero. -/
def lowestBit (w : BitVec 32) : Option Nat := (List.range 32).find? fun i => w.getLsbD i

/-- The state after the delivery, and the signal whose default action ends the
task. What a handler's frame holds on the user stack is left out. -/
def taskIpcDeliverSignals (s : Sched) (t : Tid) : Sched × Option Nat :=
  let x := s.pcb t
  if x.priv ≠ .user then (s, none)
  else if x.inSignalHandler then (s, none)
  else match lowestBit (x.signalBitmask &&& ~~~x.blockedSignals) with
    | none => (s, none)
    | some sig =>
      let s := s.modify t fun x => { x with signalBitmask := x.signalBitmask &&& ~~~(1#32 <<< sig) }
      if x.signalHandlers sig = 0 then (s, some sig)
      else (s.modify t fun x => { x with inSignalHandler := true }, none)

def taskIpcRegisterSignalHandler (s : Sched) (t : Tid) (signal handler : Nat) : Sched :=
  if 16 ≤ signal then s
  else s.modify t fun x => { x with signalHandlers := update x.signalHandlers signal handler }

def sysSigret (s : Sched) : Sched :=
  s.modify s.current fun x => { x with inSignalHandler := false }

/-- The PIT runs at 1000 Hz. -/
def sysAlarm (s : Sched) (seconds : Nat) : Sched :=
  let old := (s.pcb s.current).alarmTicks
  let s := s.modify s.current fun x => { x with alarmTicks := seconds * 1000 % 2 ^ 32 }
  { s with errno := if old = 0 then 0 else ((old + 999) % 2 ^ 32 / 1000 : Nat) }

/-! ## Giving up the processor -/

/-- `reap_zombies`: every zombie but the current task is freed. -/
def reapZombies (s : Sched) : Sched :=
  { s with zombieList := s.zombieList.filter (· == s.current) }

/-- `task_yield` up to its loop. -/
def taskYield (s : Sched) : Sched :=
  let s := reapZombies s
  let s :=
    if s.state s.current = .running then
      let s := s.setState s.current .ready
      if (s.pcb s.current).noRequeue then s else enqueue s s.current
    else s
  { s with mode := .switching }

/-- `preempt_enable` and `switch_task`; entering user mode resets the counter. -/
def switchTask (s : Sched) (next : Tid) : Sched :=
  let s := s.setState next .running
  { s with
    current := next
    preemptCount := if (s.pcb next).priv = .user then 0 else s.preemptCount - 1
    mode := .running }

/-- `task_exit` up to the close of the task's files. There is no way back from a panic. -/
def taskExit (s : Sched) (t : Tid) (exit : Nat) : Option Sched :=
  if (s.pcb t).pid = 1 then none
  else
    let s := s.modify t fun x => { x with state := .terminated, signal := exit }
    some { s with mode := .exiting t exit }

/-- One round of the loop of `task_yield`. -/
def pickNext (s : Sched) : Option Sched :=
  match dequeue s with
  | (none, _) => none
  | (some next, s) =>
    if s.state next = .ready then
      match taskIpcDeliverSignals s next with
      | (s, some sig) => taskExit s next sig
      | (s, none) => some (switchTask s next)
    else some s

/-- The end of a system call: the current task's signals. -/
def systemCallReturn (s : Sched) : Option Sched :=
  match taskIpcDeliverSignals (s.modify s.current fun x => { x with eax := s.errno }) s.current with
  | (s, some sig) => taskExit s s.current sig
  | (s, none) => some s

/-- What `task_exit` leaves in the control block of a task that waited for `pid`. -/
def Pcb.awaited (x : Pcb) (pid exit : Nat) (fails : Bool) : Pcb :=
  { x with
    waitingOn := noPid
    -- the exit status as POSIX encodes it
    statusWord := if fails then x.statusWord else some (exit % 256 * 256)
    state := .ready
    eax := if fails then -efault else pid }

/-- The body of the loop over `task_list` in `task_exit`; `copyFails` is how
`copy_to_user` ends for a waiting task. -/
def notifyWaiter (exited : Tid) (exit : Nat) (copyFails : Tid → Bool) (s : Sched) (t : Tid) : Sched :=
  if (s.pcb t).waitingOn = (s.pcb exited).pid then
    let fails := (s.pcb t).statusPtr.isNone || copyFails t
    enqueue (s.modify t fun x => x.awaited (s.pcb exited).pid exit fails) t
  else s

/-- The rest of `task_exit`, up to the loop of its `task_yield`. -/
def taskExitNotify (s : Sched) (exited : Tid) (exit : Nat) (copyFails : Tid → Bool) : Sched :=
  let s := s.taskList.foldl (notifyWaiter exited exit copyFails) s
  taskYield { s with
    taskList := s.taskList.filter (· != exited), zombieList := exited :: s.zombieList }

/-- `task_block`, before it yields. -/
def taskBlock (s : Sched) : Sched := { s.setState s.current .blocked with mode := .yielding }

def taskLookupByPid (s : Sched) (pid : Nat) : Option Tid :=
  s.taskList.find? fun t => (s.pcb t).pid == pid

/-- Interrupts stay off from the first line to the loop of `task_yield`. -/
def sysWaitpid (s : Sched) (pid : Nat) (statusPtr : Option Nat) : Sched :=
  let wait := taskYield (taskBlock (s.modify s.current fun x =>
    { x with waitingOn := pid, statusPtr := statusPtr }))
  if pid = noPid then wait
  else match taskLookupByPid s pid with
    | none => { s with errno := -esrch }
    | some target => if s.state target = .terminated then { s with errno := 0 } else wait

/-! ## Tasks -/

/-- `task_create`: the fields of a new control block that are not zero. -/
def taskCreate (s : Sched) (t : Tid) (priv : CpuMode) (prio : UInt8) : Sched :=
  let x : Pcb :=
    { pid := s.nextPid, state := .ready, priv := priv, rqNext := none, priority := prio,
      originalPriority := prio, resetCount := 0, quantaUsed := 0, waitingOn := 0, statusPtr := none,
      statusWord := none, signal := 0, signalHandlers := fun _ => 0, signalBitmask := 0,
      blockedSignals := 0, inSignalHandler := false, alarmTicks := 0, noRequeue := false, eax := 0 }
  { s with pcb := update s.pcb t x, nextPid := s.nextPid + 1, taskList := s.taskList ++ [t] }

/-- `task_fork` of a user task: a copy of the parent's control block. -/
def taskFork (s : Sched) (t : Tid) : Sched :=
  let x : Pcb :=
    { s.pcb s.current with
      state := .ready, pid := s.nextPid, signalBitmask := 0, alarmTicks := 0,
      signalHandlers := fun _ => 0 }
  { s with pcb := update s.pcb t x, nextPid := s.nextPid + 1, taskList := s.taskList ++ [t] }

def sysFork (s : Sched) (t : Tid) : Option Sched :=
  if (s.pcb s.current).priv = .kernel then taskExit s s.current exitSigill
  else
    let s := enqueue (taskFork s t) t
    some { s.modify t fun x => { x with eax := 0 } with errno := (s.pcb t).pid }

/-! ## The timer interrupt -/

def clamp (val lo hi : Int) : Int := if val < lo then lo else if hi < val then hi else val

/-- The priority, and the control block with its counters brought up to date. -/
def taskPriorityDecay (x : Pcb) : Int × Pcb :=
  let prio : Int := x.priority.toNat
  if x.quantaUsed < priorityQuantaPunish then (prio, x)
  else if prio = 0 then
    let resetCount := x.resetCount + 1
    if priorityResetDecay ≤ resetCount.toNat then
      let original := if 0 < x.originalPriority then x.originalPriority - 1 else x.originalPriority
      (original.toNat, { x with resetCount := 0, originalPriority := original })
    else (x.originalPriority.toNat, { x with resetCount := resetCount })
  else (clamp (prio - priorityDecayRate) 0 maxPriority, { x with quantaUsed := 0 })

/-- The body of the loop over the alarms. -/
def alarmTick (s : Sched) (t : Tid) : Sched :=
  if 0 < (s.pcb t).alarmTicks then
    let s := s.modify t fun x => { x with alarmTicks := x.alarmTicks - 1 }
    if (s.pcb t).alarmTicks = 0 then taskIpcSignalRaise s t exitSigalrm else s
  else s

/-- What `poll_waiter_tick` does for a waiter whose condition holds. -/
def pollWake (s : Sched) (w : Tid × Int) : Sched :=
  taskUnblock (s.modify w.1 fun x => { x with eax := w.2 }) w.1

/-- The part of the interrupt that wakes: alarms, then `select`, `poll` and
`usleep` waiters. -/
def timerWake (polled : List (Tid × Int)) (s : Sched) : Sched :=
  polled.foldl pollWake (s.taskList.foldl alarmTick s)

/-- The compositor's frame. -/
def frameTick (s : Sched) : Sched :=
  if vbeTicksPerFrame ≤ s.vbeTicks then enqueue { s with vbeTicks := 0 } s.vbeWorkerTask else s

/-- The end of the running task's quantum. `userCode` says whether the interrupt
came while user code ran, `eax` what it had in the register. -/
def quantumTick (userCode : Bool) (eax : Int) (s : Sched) : Sched :=
  if s.preemptCount = 0 ∧ (s.pcb s.current).priv = .user ∧ s.state s.current = .running then
    let s := { s with lastQuantumTick := s.lastQuantumTick + 1 }
    if scheduleQuantum ≤ s.lastQuantumTick ∧ userCode then
      let s := s.modify s.current fun x =>
        let (prio, x) := taskPriorityDecay { x with quantaUsed := x.quantaUsed + 1 }
        { x with priority := UInt8.ofNat prio.toNat, eax := eax }
      taskYield { s with lastQuantumTick := 0 }
    else s
  else s

def irqPitHandler (userCode : Bool) (eax : Int) (polled : List (Tid × Int)) (s : Sched) : Sched :=
  let s := { s with vbeTicks := s.vbeTicks + 1 }
  if s.multitaskingReady then quantumTick userCode eax (frameTick (timerWake polled s)) else s

/-! ## Steps -/

inductive Op where
  | enqueue (t : Tid)
  | dequeue
  | taskYield
  | pickNext
  | taskBlock
  | taskUnblock (t : Tid)
  | signalRaise (t : Tid) (signal : Nat)
  | waitpid (pid : Nat) (statusPtr : Option Nat)
  | exit (exit : Nat)
  | exitNotify (copyFails : Tid → Bool)
  | timer (userCode : Bool) (eax : Int) (polled : List (Tid × Int))
  | signal (signal handler : Nat)
  | sigret
  | alarm (seconds : Nat)
  | systemCallReturn
  | preemptDisable
  | preemptEnable
  | create (t : Tid) (priv : CpuMode) (prio : UInt8)
  | fork (t : Tid)

/-- The address of a new control block: `kernel_malloc` returns none that is
allocated, so no task's and no zombie's. -/
def Unused (s : Sched) (t : Tid) : Prop :=
  t ≠ s.current ∧ t ∉ s.taskList ∧ t ∉ s.zombieList

instance (s : Sched) (t : Tid) : Decidable (Unused s t) := inferInstanceAs (Decidable (_ ∧ _))

/-- What can happen in each mode. Interrupts are off from the loop of
`task_yield` on, and in `task_exit`, where closing files wakes other tasks. -/
def step (s : Sched) : Op → Option Sched
  | .enqueue t => if s.mode = .running then some (enqueue s t) else none
  | .dequeue => if s.mode = .running then some (dequeue s).2 else none
  | .taskYield => if s.mode = .running ∨ s.mode = .yielding then some (taskYield s) else none
  | .pickNext => if s.mode = .switching then pickNext s else none
  | .taskBlock => if s.mode = .running then some (taskBlock s) else none
  | .taskUnblock t => if s.mode ≠ .switching then some (taskUnblock s t) else none
  | .signalRaise t signal => if s.mode ≠ .switching then some (taskIpcSignalRaise s t signal) else none
  | .waitpid pid statusPtr => if s.mode = .running then some (sysWaitpid s pid statusPtr) else none
  | .exit exit => if s.mode = .running then taskExit s s.current exit else none
  | .exitNotify copyFails =>
    match s.mode with
    | .exiting t exit => some (taskExitNotify s t exit copyFails)
    | _ => none
  | .timer userCode eax polled =>
    if s.mode = .running ∨ s.mode = .yielding then some (irqPitHandler userCode eax polled s) else none
  | .signal signal handler =>
    if s.mode = .running then some (taskIpcRegisterSignalHandler s s.current signal handler) else none
  | .sigret => if s.mode = .running then some (sysSigret s) else none
  | .alarm seconds => if s.mode = .running then some (sysAlarm s seconds) else none
  | .systemCallReturn => if s.mode = .running then systemCallReturn s else none
  | .preemptDisable =>
    if s.mode = .running then some { s with preemptCount := s.preemptCount + 1 } else none
  | .preemptEnable =>
    if s.mode = .running then some { s with preemptCount := s.preemptCount - 1 } else none
  | .create t priv prio =>
    if s.mode = .running ∧ Unused s t then some (taskCreate s t priv prio) else none
  | .fork t => if s.mode = .running ∧ Unused s t then sysFork s t else none

end Serotonin.Schedule
