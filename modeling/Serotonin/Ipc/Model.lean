import Serotonin.Lib.CircBuf

/-! Blocking reads and writes: `task_ipc_pipe_read`, `task_ipc_pipe_write` and the
waiters of `schedule.c`, `pty_master_read` of `pty.c`, and the way from `sys_read`
and `sys_write` back to the user task. A user task that blocks gives up its kernel
stack; when it is chosen again, `switch_task` loads its registers from the context
that `system_call` saved on entry. -/

namespace Serotonin.Ipc

open Function

abbrev Tid := Nat

def eio : Int := 5
def ebadf : Int := 9
def enomem : Int := 12
def efault : Int := 14
def epipe : Int := 32
def syscallStackBuf : Nat := 4096
def ptyRingSize : Nat := 65536

inductive Access where
  | rdOnly
  | wrOnly
  | rdWr
  deriving DecidableEq

inductive TaskState where
  | ready
  | running
  | blocked
  | terminated
  deriving DecidableEq

inductive Kind where
  | write
  | read
  deriving DecidableEq

/-- `SYSTEM_CALL_WRITE` and `SYSTEM_CALL_READ`, as they stand in `eax`. -/
def Kind.number : Kind → Int
  | .write => 1
  | .read => 2

/-- `eax` is that of the saved processor context. `inCall` is no part of the kernel:
the call that the task is in, and whether it found that it had to wait. -/
structure Task where
  state : TaskState
  eax : Int
  handlesSigpipe : Bool
  inCall : Option (Kind × Bool)

structure Pipe where
  ring : CircBuf UInt8
  readers : Nat
  writers : Nat
  readWaiters : List Tid
  writeWaiters : List Tid

structure Pty where
  outputRing : CircBuf UInt8
  slaveRefcount : Nat
  masterRefcount : Nat
  outputWaiters : List Tid
  onlcr : Bool

inductive Node where
  | pipeEnd (pipe : Nat) (isReadEnd : Bool)
  | ptyMaster (pty : Nat)

structure Handle where
  access : Access
  node : Node

/-- What a task got from a call: the value in `eax`, and the bytes that the call put
into its buffer or into the ring. -/
structure Result where
  task : Tid
  kind : Kind
  value : Int
  moved : List UInt8
  waits : Bool
  deriving DecidableEq

/-- In user mode, or in `task_yield` with no task running. -/
inductive Mode where
  | user
  | switching
  deriving DecidableEq

/-- `results` is no part of the kernel either: what the calls so far returned. -/
structure Kernel where
  task : Tid → Task
  current : Tid
  mode : Mode
  pipe : Nat → Pipe
  pty : Nat → Pty
  results : List Result

/-- Which allocations and which copy to or from user memory fail. -/
structure Fails where
  kbuf : Bool
  waiter : Bool
  copy : Bool

inductive Outcome where
  | returns (value : Int) (given : List UInt8) (k : Kernel)
  | sleeps (k : Kernel)

namespace Kernel

def modify (k : Kernel) (t : Tid) (f : Task → Task) : Kernel :=
  { k with task := update k.task t (f (k.task t)) }

def setPipe (k : Kernel) (p : Nat) (x : Pipe) : Kernel := { k with pipe := update k.pipe p x }

def setPty (k : Kernel) (q : Nat) (x : Pty) : Kernel := { k with pty := update k.pty q x }

end Kernel

/-! ## Waking up -/

def taskUnblock (k : Kernel) (t : Tid) : Kernel :=
  if (k.task t).state = .blocked then k.modify t fun x => { x with state := .ready } else k

def wakeOneReader (k : Kernel) (p : Nat) : Kernel :=
  match (k.pipe p).readWaiters with
  | [] => k
  | t :: ts => taskUnblock (k.setPipe p { k.pipe p with readWaiters := ts }) t

def wakeOneWriter (k : Kernel) (p : Nat) : Kernel :=
  match (k.pipe p).writeWaiters with
  | [] => k
  | t :: ts => taskUnblock (k.setPipe p { k.pipe p with writeWaiters := ts }) t

def wakeAllReaders (k : Kernel) (p : Nat) : Kernel :=
  (k.pipe p).readWaiters.foldl taskUnblock (k.setPipe p { k.pipe p with readWaiters := [] })

def wakeAllWriters (k : Kernel) (p : Nat) : Kernel :=
  (k.pipe p).writeWaiters.foldl taskUnblock (k.setPipe p { k.pipe p with writeWaiters := [] })

def ptyOutputWakeOne (k : Kernel) (q : Nat) : Kernel :=
  match (k.pty q).outputWaiters with
  | [] => k
  | t :: ts => taskUnblock (k.setPty q { k.pty q with outputWaiters := ts }) t

/-- The current task is blocked, and `task_yield` looks for another. -/
def block (k : Kernel) : Kernel :=
  { k.modify k.current fun x => { x with state := .blocked } with mode := .switching }

/-! ## Pipes and PTY masters -/

def taskIpcPipeRead (k : Kernel) (p : Nat) (isReadEnd : Bool) (size : Nat) (noMem : Bool) : Outcome :=
  if size = 0 then .returns 0 [] k
  else if !isReadEnd then .returns (-ebadf) [] k
  else if 0 < (k.pipe p).ring.dataLen then
    let toRead := min size (k.pipe p).ring.dataLen
    let (bytes, ring) := (k.pipe p).ring.get toRead
    .returns toRead bytes (wakeOneWriter (k.setPipe p { k.pipe p with ring := ring }) p)
  else if (k.pipe p).writers = 0 then .returns 0 [] k
  else if noMem then .returns (-enomem) [] k
  else
    .sleeps (block (k.setPipe p { k.pipe p with readWaiters := (k.pipe p).readWaiters ++ [k.current] }))

/-- A write never waits once it has stored something, so it stores once. -/
def taskIpcPipeWrite (k : Kernel) (p : Nat) (isReadEnd : Bool) (data : List UInt8) (noMem : Bool) :
    Outcome :=
  if data.length = 0 then .returns 0 [] k
  else if isReadEnd then .returns (-ebadf) [] k
  else if (k.pipe p).readers = 0 then .returns (-epipe) [] k
  else if (k.pipe p).ring.dataLen < (k.pipe p).ring.size then
    let toWrite := min data.length ((k.pipe p).ring.size - (k.pipe p).ring.dataLen)
    let ring := (k.pipe p).ring.put (data.take toWrite)
    .returns toWrite [] (wakeOneReader (k.setPipe p { k.pipe p with ring := ring }) p)
  else if noMem then .returns (-enomem) [] k
  else
    .sleeps (block (k.setPipe p { k.pipe p with writeWaiters := (k.pipe p).writeWaiters ++ [k.current] }))

def ptyMasterRead (k : Kernel) (q : Nat) (size : Nat) (noMem : Bool) : Outcome :=
  if size = 0 then .returns 0 [] k
  else if 0 < (k.pty q).outputRing.dataLen then
    let toRead := min size (k.pty q).outputRing.dataLen
    let (bytes, ring) := (k.pty q).outputRing.get toRead
    .returns toRead bytes (k.setPty q { k.pty q with outputRing := ring })
  else if (k.pty q).slaveRefcount = 0 then .returns 0 [] k
  else if noMem then .returns (-enomem) [] k
  else
    .sleeps (block (k.setPty q { k.pty q with outputWaiters := (k.pty q).outputWaiters ++ [k.current] }))

def taskIpcPipeClose (k : Kernel) (p : Nat) (isReadEnd : Bool) : Kernel :=
  if isReadEnd then
    let k := k.setPipe p { k.pipe p with readers := (k.pipe p).readers - 1 }
    if (k.pipe p).readers = 0 then wakeAllWriters k p else k
  else
    let k := k.setPipe p { k.pipe p with writers := (k.pipe p).writers - 1 }
    if (k.pipe p).writers = 0 then wakeAllReaders k p else k

/-- `pty_ring_write`: as much as there is room for. -/
def ptyRingWrite (r : CircBuf UInt8) (data : List UInt8) : CircBuf UInt8 :=
  r.put (data.take (ptyRingSize - r.dataLen))

/-- The loop of `pty_ldisc_output` with `onlcr` set: the ring, and how many bytes
were consumed. -/
def outputOnlcr (r : CircBuf UInt8) : List UInt8 → CircBuf UInt8 × Nat
  | [] => (r, 0)
  | c :: cs =>
    let out := if c = 10 then [13, 10] else [c]
    if ptyRingSize - r.dataLen < out.length then (r, 0)
    else
      let (r, n) := outputOnlcr (ptyRingWrite r out) cs
      (r, n + 1)

/-- `pty_ldisc_output` of a PTY that is not a kernel terminal. -/
def ptyLdiscOutput (k : Kernel) (q : Nat) (data : List UInt8) : Kernel :=
  let pty := k.pty q
  let (ring, consumed) :=
    if pty.onlcr then outputOnlcr pty.outputRing data
    else (ptyRingWrite pty.outputRing data, min data.length (ptyRingSize - pty.outputRing.dataLen))
  let k := k.setPty q { pty with outputRing := ring }
  if 0 < consumed then ptyOutputWakeOne k q else k

/-- The echo of `pty_ldisc_input`. -/
def ptyEcho (k : Kernel) (q : Nat) (data : List UInt8) : Kernel :=
  ptyOutputWakeOne (k.setPty q { k.pty q with outputRing := ptyRingWrite (k.pty q).outputRing data }) q

/-- `pty_free`, when both sides are closed. -/
def ptyFreeIfClosed (k : Kernel) (q : Nat) : Kernel :=
  if (k.pty q).slaveRefcount = 0 ∧ (k.pty q).masterRefcount = 0 then
    (k.pty q).outputWaiters.foldl taskUnblock (k.setPty q { k.pty q with outputWaiters := [] })
  else k

def ptySlaveClose (k : Kernel) (q : Nat) : Kernel :=
  ptyFreeIfClosed (k.setPty q { k.pty q with slaveRefcount := (k.pty q).slaveRefcount - 1 }) q

def ptyMasterClose (k : Kernel) (q : Nat) : Kernel :=
  ptyFreeIfClosed (k.setPty q { k.pty q with masterRefcount := (k.pty q).masterRefcount - 1 }) q

/-! ## System calls -/

/-- What `sys_read` makes of the node's answer: an error as it is, or the bytes copied
to the user. -/
def readResult (f : Fails) : Outcome → Outcome
  | .sleeps k => .sleeps k
  | .returns n bytes k =>
    if n < 0 then .returns (if n = -1 then -eio else n) [] k
    else if n ≠ 0 && f.copy then .returns (-efault) [] k
    else .returns n bytes k

def sysRead (k : Kernel) (h : Handle) (size : Nat) (f : Fails) : Outcome :=
  if h.access = .wrOnly then .returns (-ebadf) [] k
  else if syscallStackBuf < size && f.kbuf then .returns (-enomem) [] k
  else
    match h.node with
    | .pipeEnd p isReadEnd => readResult f (taskIpcPipeRead k p isReadEnd size f.waiter)
    | .ptyMaster q => readResult f (ptyMasterRead k q size f.waiter)

/-- `sys_write` on a pipe. -/
def sysWrite (k : Kernel) (access : Access) (p : Nat) (isReadEnd : Bool) (data : List UInt8) (f : Fails) :
    Outcome :=
  if access = .rdOnly then .returns (-ebadf) [] k
  else if syscallStackBuf < data.length && f.kbuf then .returns (-enomem) [] k
  else if data.length ≠ 0 && f.copy then .returns (-efault) [] k
  else
    match taskIpcPipeWrite k p isReadEnd data f.waiter with
    | .sleeps k => .sleeps k
    | .returns n bytes k => if n < 0 then .returns (if n = -1 then -eio else n) [] k else .returns n bytes k

/-- The entry of `system_call`: the context saved has the number of the call in `eax`. -/
def saveContext (k : Kernel) (kind : Kind) : Kernel :=
  k.modify k.current fun x => { x with eax := kind.number }

/-- The task goes on in user mode with the value, and the result is noted. -/
def deliver (k : Kernel) (kind : Kind) (value : Int) (moved : List UInt8) (waits : Bool) : Kernel :=
  { k with results := ⟨k.current, kind, value, moved, waits⟩ :: k.results }

/-- A task that does not handle SIGPIPE ends before it sees the value. -/
def killCurrent (k : Kernel) : Kernel :=
  { k.modify k.current fun x => { x with state := .terminated } with mode := .switching }

def noteCall (k : Kernel) (kind : Kind) (waits : Bool) : Kernel :=
  k.modify k.current fun x => { x with inCall := some (kind, waits) }

/-- Has the read to wait, as the pipe or PTY stands when it is called? -/
def readWaits (k : Kernel) (h : Handle) (size : Nat) (f : Fails) : Bool :=
  h.access ≠ .wrOnly && !(syscallStackBuf < size && f.kbuf) && size ≠ 0 && !f.waiter &&
    match h.node with
    | .pipeEnd p isReadEnd => isReadEnd && (k.pipe p).ring.dataLen = 0 && (k.pipe p).writers ≠ 0
    | .ptyMaster q => (k.pty q).outputRing.dataLen = 0 && (k.pty q).slaveRefcount ≠ 0

def writeWaits (k : Kernel) (access : Access) (p : Nat) (isReadEnd : Bool) (data : List UInt8) (f : Fails) :
    Bool :=
  access ≠ .rdOnly && !(syscallStackBuf < data.length && f.kbuf) && data.length ≠ 0 && !f.copy &&
    !f.waiter && !isReadEnd && (k.pipe p).readers ≠ 0 && !((k.pipe p).ring.dataLen < (k.pipe p).ring.size)

/-! ## Steps -/

inductive Op where
  | read (h : Handle) (size : Nat) (f : Fails)
  | write (access : Access) (pipe : Nat) (isReadEnd : Bool) (data : List UInt8) (f : Fails)
  | closePipe (pipe : Nat) (isReadEnd : Bool)
  | ptySlaveWrite (pty : Nat) (data : List UInt8)
  | ptyEcho (pty : Nat) (data : List UInt8)
  | ptySlaveClose (pty : Nat)
  | ptyMasterClose (pty : Nat)
  | preempt (eax : Int)
  | dispatch (t : Tid)

def runTask (k : Kernel) (t : Tid) : Kernel :=
  { k with
    task := update k.task t { k.task t with state := .running, inCall := none }
    current := t
    mode := .user }

/-- The task chosen by `task_yield`: a call it was in returns what the context holds. -/
def switchTask (k : Kernel) (t : Tid) : Kernel :=
  match (k.task t).inCall with
  | none => runTask k t
  | some (kind, waits) => deliver (runTask k t) kind (k.task t).eax [] waits

def stepRead (k : Kernel) (h : Handle) (size : Nat) (f : Fails) : Kernel :=
  match sysRead (saveContext k .read) h size f with
  | .returns value given k' => deliver k' .read value given (readWaits k h size f)
  | .sleeps k' => noteCall k' .read (readWaits k h size f)

/-- The bytes a write moved are those by which the ring has grown. -/
def stepWrite (k : Kernel) (access : Access) (p : Nat) (isReadEnd : Bool) (data : List UInt8) (f : Fails) :
    Kernel :=
  match sysWrite (saveContext k .write) access p isReadEnd data f with
  | .returns value _ k' =>
    if value = -epipe ∧ !(k.task k.current).handlesSigpipe then killCurrent k'
    else
      deliver k' .write value
        ((k'.pipe p).ring.contents.drop (k.pipe p).ring.contents.length)
        (writeWaits k access p isReadEnd data f)
  | .sleeps k' => noteCall k' .write (writeWaits k access p isReadEnd data f)

/-- A timer interrupt, with the `eax` that the task had: the task is queued again. -/
def preempt (k : Kernel) (eax : Int) : Kernel :=
  { k.modify k.current fun x => { x with state := .ready, eax := eax } with mode := .switching }

/-- What the running task can do, and what interrupts do meanwhile. -/
def userStep (k : Kernel) : Op → Kernel
  | .read h size f => stepRead k h size f
  | .write access p isReadEnd data f => stepWrite k access p isReadEnd data f
  | .closePipe p isReadEnd => taskIpcPipeClose k p isReadEnd
  | .ptySlaveWrite q data => ptyLdiscOutput k q data
  | .ptyEcho q data => Ipc.ptyEcho k q data
  | .ptySlaveClose q => Ipc.ptySlaveClose k q
  | .ptyMasterClose q => Ipc.ptyMasterClose k q
  | .preempt eax => Ipc.preempt k eax
  | .dispatch _ => k

/-- `none`: the step is not possible in this state. -/
def step (k : Kernel) (op : Op) : Option Kernel :=
  match k.mode, op with
  | .switching, .dispatch t => if (k.task t).state = .ready then some (switchTask k t) else none
  | .switching, _ => none
  | .user, .dispatch _ => none
  | .user, op => some (userStep k op)

end Serotonin.Ipc
