import Serotonin.Ipc.Model
import Serotonin.Socket.Model

/-! The input side of PTYs: `pty_ldisc_input`, the queue of tasks that wait to read from the
slave, and the reads and writes of both sides. A PTY that is a kernel terminal renders what
it echoes; of a screen nothing is kept here. -/

namespace Serotonin.Tty

open Ipc (ptyRingSize ptyRingWrite outputOnlcr)
open Socket (storeUser copyOut)

abbrev Tid := Nat

def einval : Int := 22
def efault : Int := 14
def enomem : Int := 12
def exitSigint : Nat := 2
def ptyLineSize : Nat := 4096
def syscallStackBuf : Nat := 4096

structure Attr where
  echo : Bool
  icanon : Bool
  isig : Bool
  onlcr : Bool
  ccVintr : UInt8
  ccVeof : UInt8
  ccVerase : UInt8
  ccVkill : UInt8

def ptyDefaultAttr : Attr := ⟨true, true, true, true, 3, 4, 8, 21⟩

structure InputWaiter where
  task : Tid
  userBuf : Nat
  bufSize : Nat
  deriving DecidableEq

/-- `lineBuf` is the part of `line_buf` in use, `foreground` the task with the
`foreground_pid`, if there is one. -/
structure Pty where
  kernelVty : Bool
  attr : Attr
  inputRing : CircBuf UInt8
  outputRing : CircBuf UInt8
  lineBuf : List UInt8
  foreground : Option Tid
  inputWaiters : List InputWaiter
  outputWaiters : List Tid
  masterRefcount : Nat
  slaveRefcount : Nat

/-- `eax` is that of the saved context, `userBuf` is `current_user_buf`. `reading` is no part
of the kernel: the PTY from whose slave the blocked task wants to read. -/
structure Task where
  blocked : Bool
  eax : Int
  signalBitmask : Nat
  userBuf : Nat
  mem : Nat → UInt8
  reading : Option Nat

structure Kernel where
  task : Tid → Task
  pty : Nat → Pty

inductive Outcome where
  | returns (value : Int) (bytes : List UInt8) (k : Kernel)
  | sleeps (k : Kernel)

def Outcome.kernel : Outcome → Kernel
  | .returns _ _ k => k
  | .sleeps k => k

/-- Which allocations and which copy to or from user memory fail. -/
structure Fails where
  kbuf : Bool
  waiter : Bool
  copy : Bool

namespace Kernel

def modifyTask (k : Kernel) (t : Tid) (f : Task → Task) : Kernel :=
  { k with task := Function.update k.task t (f (k.task t)) }

def modify (k : Kernel) (q : Nat) (f : Pty → Pty) : Kernel :=
  { k with pty := Function.update k.pty q (f (k.pty q)) }

end Kernel

/-! ## Waking -/

def taskUnblock (k : Kernel) (t : Tid) : Kernel :=
  if (k.task t).blocked then k.modifyTask t fun x => { x with blocked := false, reading := none } else k

/-- The waiter of a task that a signal wakes stays in its queue. -/
def taskIpcSignalRaise (k : Kernel) (t : Tid) (signal : Nat) : Kernel :=
  if 16 ≤ signal then k
  else taskUnblock (k.modifyTask t fun x => { x with signalBitmask := x.signalBitmask ||| 1 <<< signal }) t

def ptyInputWakeOne (k : Kernel) (q : Nat) : Kernel :=
  match (k.pty q).inputWaiters with
  | [] => k
  | w :: ws =>
    let k := k.modify q fun x => { x with inputWaiters := ws }
    let toRead := min w.bufSize (k.pty q).inputRing.dataLen
    if 0 < toRead ∧ w.userBuf ≠ 0 then
      let (r, mem, _) := copyOut (k.pty q).inputRing (k.task w.task).mem w.userBuf toRead toRead
      let k := k.modify q fun x => { x with inputRing := r }
      taskUnblock (k.modifyTask w.task fun x => { x with mem := mem, eax := toRead }) w.task
    else taskUnblock (k.modifyTask w.task fun x => { x with eax := 0 }) w.task

def ptyInputWakeAll (k : Kernel) (q : Nat) : Kernel :=
  (k.pty q).inputWaiters.foldl (fun k _ => ptyInputWakeOne k q) k

def ptyOutputWakeOne (k : Kernel) (q : Nat) : Kernel :=
  match (k.pty q).outputWaiters with
  | [] => k
  | t :: ts => taskUnblock (k.modify q fun x => { x with outputWaiters := ts }) t

/-! ## Line discipline -/

def ptyEcho (k : Kernel) (q : Nat) (data : List UInt8) : Kernel :=
  if (k.pty q).attr.echo && !(k.pty q).kernelVty then
    ptyOutputWakeOne (k.modify q fun x => { x with outputRing := ptyRingWrite x.outputRing data }) q
  else k

def ptyLdiscFlushLine (k : Kernel) (q : Nat) : Kernel :=
  ptyInputWakeOne (k.modify q fun x =>
    { x with inputRing := ptyRingWrite x.inputRing x.lineBuf, lineBuf := [] }) q

/-- `line_buf[line_len++] = c`, as long as there is room. -/
def lineAppend (line : List UInt8) (c : UInt8) : List UInt8 :=
  if line.length < ptyLineSize then line ++ [c] else line

def eraseEcho : List UInt8 := [8, 32, 8]

/-- Erasing the whole line wakes a reader of the master once. -/
def ptyKillLine (k : Kernel) (q : Nat) : Kernel :=
  let erased := k.modify q fun x => { x with lineBuf := [] }
  if (k.pty q).attr.echo && !(k.pty q).kernelVty then
    ptyOutputWakeOne (erased.modify q fun x =>
      { x with outputRing := (k.pty q).lineBuf.foldl (fun r _ => ptyRingWrite r eraseEcho) x.outputRing }) q
  else erased

/-- Does the character interrupt, end the input, erase a character or end a line? -/
def Attr.isIntr (a : Attr) (c : UInt8) : Bool := a.isig && c == a.ccVintr

def Attr.isEof (a : Attr) (c : UInt8) : Bool := a.icanon && c == a.ccVeof

def Attr.isErase (a : Attr) (c : UInt8) : Bool := c == a.ccVerase || c == 8 || c == 0x7F

def isNewline (c : UInt8) : Bool := c == 10 || c == 13

def ptyInterrupt (k : Kernel) (q : Nat) : Kernel :=
  let k := match (k.pty q).foreground with
    | none => k
    | some fg => taskIpcSignalRaise k fg exitSigint
  ptyInputWakeAll (k.modify q fun x => { x with lineBuf := [] }) q

def ptyLdiscInput (k : Kernel) (q : Nat) (c : UInt8) : Kernel :=
  let attr := (k.pty q).attr
  if attr.isIntr c then ptyInterrupt k q
  else if attr.isEof c then ptyLdiscFlushLine k q
  else if attr.icanon then
    if attr.isErase c then
      if (k.pty q).lineBuf.length = 0 then k
      else ptyEcho (k.modify q fun x => { x with lineBuf := x.lineBuf.dropLast }) q eraseEcho
    else if c = attr.ccVkill then ptyKillLine k q
    else if isNewline c then
      ptyLdiscFlushLine (ptyEcho (k.modify q fun x => { x with lineBuf := lineAppend x.lineBuf 10 }) q [13, 10]) q
    else if (k.pty q).lineBuf.length < ptyLineSize then
      ptyEcho (k.modify q fun x => { x with lineBuf := x.lineBuf ++ [c] }) q [c]
    else k
  else
    ptyEcho (ptyInputWakeOne (k.modify q fun x => { x with inputRing := ptyRingWrite x.inputRing [c] }) q) q [c]

/-- The bytes consumed. -/
def ptyLdiscOutput (k : Kernel) (q : Nat) (data : List UInt8) : Nat × Kernel :=
  if (k.pty q).kernelVty then (data.length, k)
  else
    let (ring, consumed) :=
      if (k.pty q).attr.onlcr then outputOnlcr (k.pty q).outputRing data
      else (ptyRingWrite (k.pty q).outputRing data, min data.length (ptyRingSize - (k.pty q).outputRing.dataLen))
    let k := k.modify q fun x => { x with outputRing := ring }
    (consumed, if 0 < consumed then ptyOutputWakeOne k q else k)

/-! ## Both sides -/

def ptySlaveRead (k : Kernel) (t : Tid) (q : Nat) (size : Nat) (noMem : Bool) : Outcome :=
  if size = 0 then .returns 0 [] k
  else if 0 < (k.pty q).inputRing.dataLen then
    let toRead := min size (k.pty q).inputRing.dataLen
    let (bytes, r) := (k.pty q).inputRing.get toRead
    .returns toRead bytes (k.modify q fun x => { x with inputRing := r })
  else if !(k.pty q).kernelVty && (k.pty q).masterRefcount = 0 then .returns 0 [] k
  else if noMem then .returns (-enomem) [] k
  else
    let w := ⟨t, (k.task t).userBuf, size⟩
    .sleeps ((k.modify q fun x => { x with inputWaiters := x.inputWaiters ++ [w] }).modifyTask t fun x =>
      { x with blocked := true, reading := some q })

def ptySlaveWrite (k : Kernel) (q : Nat) (data : List UInt8) : Outcome :=
  if data.length = 0 then .returns 0 [] k
  else .returns (ptyLdiscOutput k q data).1 [] (ptyLdiscOutput k q data).2

def ptyMasterRead (k : Kernel) (t : Tid) (q : Nat) (size : Nat) (noMem : Bool) : Outcome :=
  if size = 0 then .returns 0 [] k
  else if 0 < (k.pty q).outputRing.dataLen then
    let toRead := min size (k.pty q).outputRing.dataLen
    let (bytes, r) := (k.pty q).outputRing.get toRead
    .returns toRead bytes (k.modify q fun x => { x with outputRing := r })
  else if (k.pty q).slaveRefcount = 0 then .returns 0 [] k
  else if noMem then .returns (-enomem) [] k
  else
    .sleeps ((k.modify q fun x => { x with outputWaiters := x.outputWaiters ++ [t] }).modifyTask t fun x =>
      { x with blocked := true, reading := none })

def ptyMasterWrite (k : Kernel) (q : Nat) (data : List UInt8) : Outcome :=
  if data.length = 0 then .returns 0 [] k
  else .returns data.length [] (data.foldl (fun k c => ptyLdiscInput k q c) k)

/-! ## System calls -/

inductive Side where
  | slave
  | master

/-- `vfs_read` and `vfs_write` on the node of one side. -/
def vfsRead (k : Kernel) (t : Tid) (side : Side) (q : Nat) (size : Nat) (noMem : Bool) : Outcome :=
  match side with
  | .slave => ptySlaveRead k t q size noMem
  | .master => ptyMasterRead k t q size noMem

def vfsWrite (k : Kernel) (side : Side) (q : Nat) (data : List UInt8) : Outcome :=
  match side with
  | .slave => ptySlaveWrite k q data
  | .master => ptyMasterWrite k q data

def setUserBuf (k : Kernel) (t : Tid) (buf : Nat) : Kernel := k.modifyTask t fun x => { x with userBuf := buf }

/-- What was read is copied to the caller. -/
def readResult (t : Tid) (buf : Nat) (copyFails : Bool) : Outcome → Outcome
  | .sleeps k => .sleeps k
  | .returns n bytes k =>
    if n ≤ 0 then .returns n [] k
    else if copyFails then .returns (-efault) [] k
    else .returns n bytes (k.modifyTask t fun x => { x with mem := storeUser x.mem buf bytes })

/-- `sys_read` with a handle; a short read uses a buffer on the stack. -/
def sysRead (k : Kernel) (t : Tid) (side : Side) (q buf len : Nat) (f : Fails) : Outcome :=
  if syscallStackBuf < len ∧ f.kbuf then .returns (-enomem) [] k
  else readResult t buf f.copy (vfsRead (setUserBuf k t buf) t side q len f.waiter)

/-- `sys_read` of standard input without one: from the active terminal, which it makes the
task's. -/
def sysReadStdin (k : Kernel) (t : Tid) (q buf len : Nat) (f : Fails) : Outcome :=
  if buf = 0 ∨ len = 0 then .returns (-einval) [] k
  else if (buf + len - 1) % 2 ^ 32 < buf ∨ Socket.outsideUser buf len then .returns (-efault) [] k
  else
    let k := setUserBuf (k.modify q fun x => { x with foreground := some t }) t buf
    if f.kbuf then .returns (-enomem) [] k
    else readResult t buf f.copy (ptySlaveRead k t q len f.waiter)

def sysWrite (k : Kernel) (side : Side) (q : Nat) (data : List UInt8) (f : Fails) : Outcome :=
  if syscallStackBuf < data.length ∧ f.kbuf then .returns (-enomem) [] k
  else if f.copy then .returns (-efault) [] k
  else vfsWrite k side q data

/-! ## Steps -/

/-- `key` is what the keyboard interrupt makes of a key. `sleep`: a task goes to sleep in some
other call. `wake`: a signal wakes a task, or what it waits for elsewhere. -/
inductive Op where
  | read (t : Tid) (side : Side) (q buf len : Nat) (f : Fails)
  | readStdin (t : Tid) (q buf len : Nat) (f : Fails)
  | write (t : Tid) (side : Side) (q : Nat) (data : List UInt8) (f : Fails)
  | key (q : Nat) (data : List UInt8)
  | setAttr (q : Nat) (attr : Attr)
  | sleep (t : Tid)
  | signal (t : Tid) (sig : Nat)
  | wake (t : Tid)

/-- `none`: the step is not possible in this state. A blocked task makes no calls. -/
def step (k : Kernel) : Op → Option Kernel
  | .read t side q buf len f =>
    if (k.task t).blocked then none else some (sysRead k t side q buf len f).kernel
  | .readStdin t q buf len f =>
    if (k.task t).blocked then none else some (sysReadStdin k t q buf len f).kernel
  | .write t side q data f =>
    if (k.task t).blocked then none else some (sysWrite k side q data f).kernel
  | .key q data => some (data.foldl (fun k c => ptyLdiscInput k q c) k)
  | .setAttr q attr => some (k.modify q fun x => { x with attr := attr })
  | .sleep t =>
    if (k.task t).blocked then none
    else some (k.modifyTask t fun x => { x with blocked := true, reading := none })
  | .signal t sig => some (taskIpcSignalRaise k t sig)
  | .wake t => some (taskUnblock k t)

end Serotonin.Tty
