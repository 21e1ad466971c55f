import Serotonin.Handles.Counts
import Serotonin.Schedule.Semaphore
import Serotonin.Lib.CircBuf
import Serotonin.Lib.ByteMem

/-! Disk requests: `ide_submit_disk_read`, `ide_submit_disk_write` and the worker thread of
`ide_pci.c`, the disk path of `sys_read` and `sys_write`, and what may happen to a task that
waits: signals, `task_exit` and the reaping of zombies in `task_yield`. A system call is not
preempted; the worker goes on where it left off. -/

namespace Serotonin.Ide

open Files (Tid NodeId HandleId FileHandle fdMax oRdonly oWronly oAppend eio ebadf efault enomem)
open Schedule (ProcessState CpuMode lowestBit)
open Semaphore (LockSemaphore taskSemaphoreInit)
open ByteMem (u32)

abbrev BufId := Nat
abbrev SpaceId := Nat

def ideWorkQueueSize : Nat := 64

inductive Direction where
  | read
  | write
deriving DecidableEq

/-- `disk_work_t`. `id` is no field of the source. -/
structure DiskWork where
  id : Nat
  task : Tid
  handle : HandleId
  addrSpace : SpaceId
  userBuf : Nat
  count : Nat
  direction : Direction
  kbuf : Option BufId
  flags : BitVec 32
deriving DecidableEq

/-- The control block of a task. `call` is no field of the source: the disk call that the task
waits for. -/
structure Task where
  priv : CpuMode
  state : ProcessState
  eax : Int
  addrSpace : SpaceId
  signalBitmask : BitVec 32
  blockedSignals : BitVec 32
  signalHandlers : Nat → Nat
  inSignalHandler : Bool
  diskBytes : Nat
  call : Option Nat

/-- Where the worker is in its loop. -/
inductive Phase where
  | start
  | waiting
  | taken
  | popped (idx : Nat)
  | working (w : DiskWork)
  | done (w : DiskWork)
deriving DecidableEq

/-- What the worker is answered: whether there is memory, the result of `vfs_read` or
`vfs_write`, the size of the file after it, and whether the copy to the user went well. -/
structure Answer where
  malloc : Bool
  bytes : Int
  size : Nat
  copyOk : Bool
deriving DecidableEq

/-- What was asked for and what came of it; no part of the kernel. -/
structure Ledger where
  nextCall : Nat
  submitted : List DiskWork
  processed : List (DiskWork × Answer)
  rejected : List DiskWork
  returned : List (Nat × Int)

/-- A control block that is freed is gone, and so is an address space. `kbufs` lists the
buffers that a `sys_write` allocated. `unreachable` tells that `__builtin_unreachable()` was
reached. -/
structure System where
  files : Handles.System
  pcb : Tid → Option Task
  zombies : List Tid
  spaces : SpaceId → Bool
  worker : Tid
  current : Tid
  switching : Bool
  workQueue : Nat → DiskWork
  workHead : Nat
  workTail : Nat
  workCount : LockSemaphore
  phase : Phase
  kbufs : List BufId
  unreachable : Bool
  ledger : Ledger

namespace System

def modify (s : System) (t : Tid) (f : Task → Task) : System :=
  { s with pcb := Function.update s.pcb t ((s.pcb t).map f) }

def setState (s : System) (t : Tid) (st : ProcessState) : System := s.modify t fun x => { x with state := st }

end System

/-! ## Tasks -/

/-- A control block that was freed cannot be unblocked. -/
def taskUnblock (s : System) (t : Tid) : Option System :=
  (s.pcb t).map fun x => if x.state = .blocked then s.setState t .ready else s

def taskIpcSignalRaise (s : System) (t : Tid) (signal : Nat) : Option System :=
  if 16 ≤ signal then some s
  else taskUnblock (s.modify t fun x => { x with signalBitmask := x.signalBitmask ||| (1#32 <<< signal) }) t

/-- The state after the delivery, and whether the default action of a signal ends the task. -/
def taskIpcDeliverSignals (s : System) (t : Tid) (x : Task) : System × Bool :=
  if x.priv ≠ .user then (s, false)
  else if x.inSignalHandler then (s, false)
  else match lowestBit (x.signalBitmask &&& ~~~x.blockedSignals) with
    | none => (s, false)
    | some sig =>
      let s := s.modify t fun x => { x with signalBitmask := x.signalBitmask &&& ~~~(1#32 <<< sig) }
      if x.signalHandlers sig = 0 then (s, true)
      else (s.modify t fun x => { x with inSignalHandler := true }, false)

/-- The end of the first task stops the machine. -/
def taskExit (s : System) (t : Tid) : Option System :=
  if t = Handles.initPid then none
  else (Handles.taskExit s.files t).toOption.map fun files =>
    { s.setState t .terminated with
      files := files
      zombies := t :: s.zombies
      switching := true }

def reapZombies (s : System) : System :=
  { s with
    pcb := fun t => if t ∈ s.zombies ∧ t ≠ s.current then none else s.pcb t
    spaces := fun a => s.spaces a &&
      !(s.zombies.any fun t => t != s.current && (s.pcb t).any fun x => x.addrSpace == a)
    zombies := s.zombies.filter (· == s.current) }

/-- `switch_task`. A user task goes back to the context saved when it entered the kernel. -/
def switchTask (s : System) (t : Tid) (x : Task) : System :=
  { s.modify t fun x => { x with state := .running, call := if x.priv = .user then none else x.call } with
    current := t
    switching := false
    ledger := { s.ledger with
      returned := s.ledger.returned ++ (if x.priv = .user then x.call.toList else []).map fun id => (id, x.eax) } }

/-- Signals are delivered to the task, and where none ends it the caller goes on. -/
def afterSignals (s : System) (t : Tid) (x : Task) (go : System → System) : Option System :=
  match taskIpcDeliverSignals s t x with
  | (s, false) => some (go s)
  | (s, true) => taskExit s t

/-- `task_yield` from the choice of the next task on. -/
def taskYield (s : System) (t : Tid) : Option System :=
  ((reapZombies s).pcb t).bind fun x =>
    if x.state = .ready then afterSignals (reapZombies s) t x fun s => switchTask s t x else none

/-- The end of a system call that returns. -/
def systemCallEnd (s : System) (v : Int) : Option System :=
  let s := s.modify s.current fun x => { x with eax := v }
  (s.pcb s.current).bind fun x => afterSignals s s.current x id

/-- `task_block`, on the way to `task_yield`. -/
def taskBlock (s : System) : System := { s.setState s.current .blocked with switching := true }

/-! ## The queue -/

def queueFull (s : System) : Bool := (s.workTail + 1) % ideWorkQueueSize == s.workHead

def taskSemaphoreRelease (s : System) : Option System :=
  let count := (s.workCount.currentCount + 1) % 2 ^ 32
  match s.workCount.waiters with
  | [] => some { s with workCount := { s.workCount with currentCount := count } }
  | t :: ts => taskUnblock { s with workCount := { s.workCount with currentCount := count, waiters := ts } } t

/-- `ide_enqueue_work` when there is room. -/
def ideEnqueueWork (s : System) (w : DiskWork) : Option System :=
  taskSemaphoreRelease { s with
    workQueue := Function.update s.workQueue s.workTail w
    workTail := (s.workTail + 1) % ideWorkQueueSize
    ledger := { s.ledger with submitted := s.ledger.submitted ++ [w] } }

/-- `ide_submit_disk_read` and `ide_submit_disk_write`. When the queue is full they return to
their caller, which goes on with `__builtin_unreachable()`. -/
def ideSubmitDisk (s : System) (w : DiskWork) : Option System :=
  let s := { s with ledger := { s.ledger with nextCall := s.ledger.nextCall + 1 } }
  if queueFull s then
    some { s.modify w.task fun x => { x with eax := -eio } with
      kbufs := w.kbuf.elim s.kbufs s.kbufs.erase
      unreachable := true
      ledger := { s.ledger with rejected := s.ledger.rejected ++ [w] } }
  else do
    let s ← ideEnqueueWork s w
    return (taskBlock (s.modify w.task fun x => { x with call := some w.id }))

/-- The disk file that the descriptor leads to. -/
def diskFile (s : System) (fd : Nat) : Option (HandleId × FileHandle) :=
  if fdMax ≤ fd then none
  else do
    let h ← s.files.fdTable (s.current, fd)
    let x ← s.files.handle h
    let n ← x.node
    let y ← s.files.node n
    if y.isDisk then some (h, x) else none

/-- `sys_read` of a disk file. -/
def sysRead (s : System) (fd userBuf count : Nat) : Option System :=
  match diskFile s fd, s.pcb s.current with
  | some (h, x), some p =>
    if x.flags &&& 3 = oWronly then systemCallEnd s (-ebadf)
    else ideSubmitDisk s ⟨s.ledger.nextCall, s.current, h, p.addrSpace, userBuf, count, .read, none, x.flags⟩
  | _, _ => none

/-- `sys_write` to a disk file; `malloc` is the buffer the user's data is copied to. -/
def sysWrite (s : System) (fd userBuf count : Nat) (malloc : Option BufId) (copyOk : Bool) : Option System :=
  match diskFile s fd, s.pcb s.current with
  | some (h, x), some p =>
    if x.flags &&& 3 = oRdonly then systemCallEnd s (-ebadf)
    else match malloc with
      | none => systemCallEnd s (-enomem)
      | some b =>
        if copyOk = false then systemCallEnd s (-efault)
        else ideSubmitDisk { s with kbufs := b :: s.kbufs }
          ⟨s.ledger.nextCall, s.current, h, p.addrSpace, userBuf, count, .write, some b, x.flags⟩
  | _, _ => none

/-! ## The worker -/

namespace DiskWork

/-- What is stored in `eax` of the task. -/
def result (w : DiskWork) (a : Answer) : Int :=
  match w.direction with
  | .read =>
    if a.malloc = false then -eio
    else if a.bytes < 0 then (if a.bytes = -1 then -eio else a.bytes)
    else if 0 < a.bytes ∧ a.copyOk = false then -efault
    else a.bytes
  | .write => if a.bytes < 0 then (if a.bytes = -1 then -eio else a.bytes) else a.bytes

/-- How far the handle's offset and the task's `disk_bytes` go on. -/
def moved (w : DiskWork) (a : Answer) : Nat := (w.result a).toNat

/-- Where the transfer starts, and the handle's offset is put before it. -/
def offset (w : DiskWork) (x : FileHandle) (size : Nat) : Nat :=
  match w.direction with
  | .read => x.offset
  | .write => if w.flags &&& oAppend ≠ 0 then size else x.offset

end DiskWork

/-- Nothing that was freed is used. -/
def ideProcessWork (s : System) (w : DiskWork) (a : Answer) : Option System := do
  let x ← s.files.handle w.handle
  let n ← x.node
  let y ← s.files.node n
  let _ ← s.pcb w.task
  if w.direction = .read ∧ 0 < a.bytes ∧ s.spaces w.addrSpace = false then none
  else
    let files := s.files.setHandle w.handle { x with offset := u32 (w.offset x y.size + w.moved a) }
    let s := s.modify w.task fun p => { p with eax := w.result a, diskBytes := u32 (p.diskBytes + w.moved a) }
    return { s with
      files := if w.direction = .write then files.setNode n { y with size := a.size } else files
      kbufs := w.kbuf.elim s.kbufs s.kbufs.erase }

/-- The worker in `task_semaphore_acquire`, blocked and on the way to `task_yield`. -/
def workerSleep (s : System) : System :=
  { s.setState s.worker .blocked with phase := .waiting, switching := true }

def takeToken (s : System) : System :=
  { s with workCount := { s.workCount with currentCount := s.workCount.currentCount - 1 }, phase := .taken }

/-- One step of `ide_worker_thread`. -/
def ideWorkerThread (s : System) (a : Answer) : Option System :=
  match s.phase with
  | .start =>
    some (if s.workCount.currentCount = 0 then
        workerSleep { s with workCount := { s.workCount with waiters := s.workCount.waiters ++ [s.worker] } }
      else takeToken s)
  | .waiting => some (if s.workCount.currentCount = 0 then workerSleep s else takeToken s)
  | .taken => some { s with workHead := (s.workHead + 1) % ideWorkQueueSize, phase := .popped s.workHead }
  | .popped idx => some { s with phase := .working (s.workQueue idx) }
  | .working w => do
    let s ← ideProcessWork s w a
    return { s with
      phase := .done w
      ledger := { s.ledger with processed := s.ledger.processed ++ [(w, a)] } }
  | .done w => do
    let s ← taskUnblock s w.task
    return { s with phase := .start }

/-! ## The system -/

/-- `wait` is the worker's wait for the drive and `irq` the end of it, or any other wakeup of
the worker; `preempt` is the timer's. -/
inductive Op where
  | read (fd userBuf count : Nat)
  | write (fd userBuf count : Nat) (malloc : Option BufId) (copyOk : Bool)
  | work (a : Answer)
  | wait
  | irq
  | preempt
  | dispatch (t : Tid)
  | close (fd : Int) (wordBefore : Bool)
  | signal (t : Tid) (signal : Nat)
  | exit
deriving DecidableEq

namespace Op

/-- Reads, writes and the worker, and changes between them. -/
def isDisk : Op → Bool
  | .read .. | .write .. | .work _ | .wait | .irq | .preempt | .dispatch _ => true
  | .close .. | .signal .. | .exit => false

/-- Memory that is allocated was not in use. -/
def fits (s : System) : Op → Bool
  | .write _ _ _ malloc _ => malloc.all fun b => !s.kbufs.contains b
  | _ => true

end Op

/-- Nothing is defined any more once `__builtin_unreachable()` was reached. -/
def step (s : System) (op : Op) : Option System :=
  let user := !s.switching && s.current != s.worker
  if s.unreachable then none
  else match op with
    | .read fd userBuf count => if user then sysRead s fd userBuf count else none
    | .write fd userBuf count malloc copyOk => if user then sysWrite s fd userBuf count malloc copyOk else none
    | .work a => if !s.switching && s.current == s.worker then ideWorkerThread s a else none
    | .wait =>
      match s.phase with
      | .working _ => if !s.switching && s.current == s.worker then some (taskBlock s) else none
      | _ => none
    | .irq => taskUnblock s s.worker
    | .preempt => if user then some { s.setState s.current .ready with switching := true } else none
    | .dispatch t => if s.switching then taskYield s t else none
    | .close fd wordBefore =>
      if user then (Handles.sysClose (s.files.ret s.current 0) s.current fd wordBefore).toOption.bind fun files =>
        systemCallEnd { s with files := files } (files.eax s.current)
      else none
    | .signal t signal => if t ∈ s.files.tids then taskIpcSignalRaise s t signal else none
    | .exit => if user then taskExit s s.current else none

/-- A step with memory that was not in use. -/
def next (s : System) (op : Op) : Option System := if op.fits s then step s op else none

/-- Files are open, and no request was made yet. -/
structure Start (s : System) : Prop where
  files : Handles.Inv s.files [] []
  accept : ∀ n, s.files.acceptWaiters n = []
  user : ∀ t ∈ s.files.tids, ∃ x, s.pcb t = some x ∧ x.priv = .user ∧ x.state ≠ .terminated ∧ x.call = none ∧
    s.spaces x.addrSpace = true
  worker : ∃ x, s.pcb s.worker = some x ∧ x.priv = .kernel ∧ x.state = .ready ∧ x.call = none
  workerNot : s.worker ∉ s.files.tids
  others : ∀ t, t ∉ s.files.tids → t ≠ s.worker → s.pcb t = none
  apart : ∀ t ∈ s.files.tids, ∀ x, s.pcb t = some x → ∀ u y, s.pcb u = some y → u ≠ t → x.addrSpace ≠ y.addrSpace
  running : ∃ x, s.pcb s.current = some x ∧ x.state = .running
  zombies : s.zombies = []
  switching : s.switching = false
  workHead : s.workHead = 0
  workTail : s.workTail = 0
  workCount : s.workCount = taskSemaphoreInit 0
  phase : s.phase = .start
  kbufs : s.kbufs = []
  unreachable : s.unreachable = false
  ledger : s.ledger = ⟨0, [], [], [], []⟩

def Reachable : System → Prop := Run.Reachable Start fun s s' => ∃ op : Op, next s op = some s'

/-! ## A file that many tasks have open -/

def sharedHandle : HandleId := 7
def sharedNode : NodeId := 9

/-- `n` tasks with one disk file open, each as its descriptor 0. -/
def bootFiles (n : Nat) : Handles.System where
  tids := List.range' 1 n
  cred _ := ⟨0, 0, 0, 0, []⟩
  fdTable p := if p.2 = 0 then some sharedHandle else none
  handle h := if h = sharedHandle then some ⟨some sharedNode, Files.oRdwr, 0, n⟩ else none
  node m :=
    if m = sharedNode then some
      { size := 0, flags := Files.vfsFlagFile ||| Files.vfsFlagDiskio, uid := 0, gid := 0, mode := 0x1A4, refcount := 1 }
    else none
  acceptWaiters _ := []
  eax _ := 0
  handles := [sharedHandle]
  keeper _ := .caller

def bootTask (priv : CpuMode) (state : ProcessState) (t : Tid) : Task where
  priv := priv
  state := state
  eax := 0
  addrSpace := t
  signalBitmask := 0
  blockedSignals := 0
  signalHandlers _ := 0
  inSignalHandler := false
  diskBytes := 0
  call := none

/-- Task 0 is the worker, and the last of the others runs. -/
def bootSystem (n : Nat) : System where
  files := bootFiles n
  pcb t :=
    if t = 0 then some (bootTask .kernel .ready t)
    else if t ≤ n then some (bootTask .user (if t = n then .running else .ready) t)
    else none
  zombies := []
  spaces _ := true
  worker := 0
  current := n
  switching := false
  workQueue _ := ⟨0, 0, 0, 0, 0, 0, .read, none, 0⟩
  workHead := 0
  workTail := 0
  workCount := taskSemaphoreInit 0
  phase := .start
  kbufs := []
  unreachable := false
  ledger := ⟨0, [], [], [], []⟩

theorem holders_bootFiles (tids : List Tid) : RefCount.refs (Handles.slots tids)
    (fun p => if p.2 = 0 then some sharedHandle else none) sharedHandle = tids.length := by
  induction tids with
  | nil => rfl
  | cons t tids ih =>
    rw [Handles.refs_slots_cons, ih, List.length_cons, Nat.add_comm]
    congr 1

theorem bootFiles_inv {n : Nat} (hn : 0 < n) : Handles.Inv (bootFiles n) [] [] := by
  have hshared : (bootFiles n).holders sharedHandle = n := by
    refine (holders_bootFiles _).trans ?_
    rw [bootFiles, List.length_range']
  have hother : ∀ h, h ≠ sharedHandle → (bootFiles n).holders h = 0 := fun h hh =>
    RefCount.refs_eq_zero.mpr fun p _ => by
      show (if p.2 = 0 then some sharedHandle else none) ≠ some h
      split
      · exact fun he => hh (Option.some.inj he).symm
      · exact (Option.some_ne_none h).symm
  refine ⟨List.nodup_range' 1, fun _ _ hu => absurd hu List.not_mem_nil, List.nodup_singleton _, fun h => ?_, fun h x hx => ?_, fun h => ?_,
    List.nodup_nil, fun _ hh => absurd hh List.not_mem_nil, fun m => ?_⟩
  · by_cases hh : h = sharedHandle
    · simp [bootFiles, hh]
    · simp [bootFiles, hh]
  · by_cases hh : h = sharedHandle
    · subst hh
      obtain rfl : FileHandle.mk (some sharedNode) Files.oRdwr 0 n = x := by simpa [bootFiles] using hx
      exact hshared.symm
    · simp [bootFiles, hh] at hx
  · by_cases hh : h = sharedHandle
    · rw [hh, hshared]
      simp [bootFiles, hn]
    · rw [hother h hh]
      simp [bootFiles, hh]
  · by_cases hm : m = sharedNode
    · rw [hm]
      refine ⟨?_, fun _ => ⟨?_, rfl⟩⟩
      · rfl
      · decide
    · have hnone : (bootFiles n).node m = none := if_neg hm
      rw [hnone]
      show (bootFiles n).openers m + 0 = 0
      refine RefCount.refs_eq_zero.mpr fun h hh he => hm ?_
      rw [List.mem_singleton.mp hh] at he
      exact (Option.some.inj he).symm

theorem bootSystem_pcb {n : Nat} {t : Tid} (ht : 1 ≤ t ∧ t ≤ n) :
    (bootSystem n).pcb t = some (bootTask .user (if t = n then .running else .ready) t) := by
  have h0 : t ≠ 0 := Nat.ne_of_gt ht.1
  show (if t = 0 then _ else if t ≤ n then _ else _) = _
  rw [if_neg h0, if_pos ht.2]

theorem bootSystem_addrSpace {n : Nat} {t : Tid} {x : Task} (hx : (bootSystem n).pcb t = some x) : x.addrSpace = t := by
  unfold bootSystem at hx
  simp only at hx
  split at hx
  · cases hx
    rfl
  · split at hx
    · cases hx
      rfl
    · cases hx

theorem bootSystem_start {n : Nat} (hn : 0 < n) : Start (bootSystem n) := by
  have hmem : ∀ t, t ∈ (bootSystem n).files.tids ↔ 1 ≤ t ∧ t ≤ n := fun t => by
    show t ∈ List.range' 1 n ↔ _
    rw [List.mem_range'_1, Nat.add_comm 1 n, Nat.lt_succ_iff]
  refine ⟨bootFiles_inv hn, fun _ => rfl, fun t ht => ?_, ⟨_, rfl, rfl, rfl, rfl⟩, fun h => ?_, fun t ht h0 => ?_,
    fun t _ x hx u y hy hne => ?_, ⟨_, bootSystem_pcb ⟨hn, Nat.le_refl n⟩, if_pos rfl⟩, rfl, rfl, rfl, rfl, rfl, rfl, rfl, rfl, rfl⟩
  · refine ⟨_, bootSystem_pcb ((hmem t).mp ht), rfl, ?_, rfl, rfl⟩
    show (if t = n then ProcessState.running else .ready) ≠ .terminated
    split
    · exact ProcessState.noConfusion
    · exact ProcessState.noConfusion
  · have h := (hmem _).mp h
    exact absurd h.1 (Nat.not_lt_zero 0)
  · show (if t = 0 then _ else if t ≤ n then _ else _) = _
    have h0 : t ≠ 0 := h0
    rw [if_neg h0, if_neg fun hle => ht ((hmem t).mpr ⟨Nat.pos_of_ne_zero h0, hle⟩)]
  · rw [bootSystem_addrSpace hx, bootSystem_addrSpace hy]
    exact Ne.symm hne

end Serotonin.Ide
