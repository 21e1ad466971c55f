import Serotonin.Files.Model
import Serotonin.Syscall.UserCopy

/-! The system calls that store through a user pointer, and the delivery of signals. What
the rest of the kernel answers (files, records, allocations) comes in as arguments. A call
that blocks is followed to its wakeup: its task runs no other code and keeps its pages. -/

namespace Serotonin.Syscall

open ByteMem (u32)
open Files (eperm enoent eio ebadf enomem efault einval enosys enametoolong)

def esrch : Int := 3
def ebusy : Int := 16
def enotty : Int := 25
def erange : Int := 34
def eprototype : Int := 107

def fdMax : Nat := 64
def fdSetsize : Nat := 64
def readStdin : Nat := 0
def oWronly : Nat := 1
def syscallStackBuf : Nat := 4096
def vbeNumZLayers : Nat := 16
def systemCallRead : Int := 2
def systemCallRecv : Int := 66
def signalTrampolineAddr : Nat := 0xBFF00000

/-- A word of 32 bits, as it lies in memory. -/
def word (n : Nat) : List UInt8 := [.ofNat n, .ofNat (n / 256), .ofNat (n / 65536), .ofNat (n / 16777216)]

/-- `(int)arg`. -/
def toInt (n : Nat) : Int := if n < 2 ^ 31 then n else n - 2 ^ 32

/-- The check of a range that most handlers make themselves. -/
def badRange (a len : Nat) : Bool := decide (a < userSpaceStart) || decide (userSpaceEnd < u32 (a + len - 1))

/-- The end of a handler that hands a record over. -/
def handOver (sp : Space) (dst : Nat) (record : List UInt8) (ok : Int) : UserM Int := do
  if ← copyToUser sp dst record then return ok else return -efault

/-! ## read and recv -/

/-- What the read function of a driver returns. -/
inductive DriverRead where
  | failed (rc : Int)
  | data (bytes : List UInt8)

/-- What a read comes to: it returns, or the task blocks until a device has an event, until
a terminal or a socket has these bytes, or until a pipe wakes it. -/
inductive VfsRead where
  | returns (r : DriverRead)
  | event (record : List UInt8)
  | ring (bytes : List UInt8)
  | asleep

/-- `dev_keyboard_push_event`, `dev_mouse_push_event` and `dev_serial_deliver_byte`, with a
reader at the head of the queue. Without a buffer `eax` stays what it was. -/
def pushEvent (sp : Space) (buffer bufferSize : Nat) (eax : Int) (event : List UInt8) : UserM Int := do
  if buffer ≠ 0 ∧ event.length ≤ bufferSize then
    if ← copyToUser sp buffer event then return event.length else return -eio
  else return eax

/-- The loop of `pty_input_wake_one` and `sock_read_wake_one`; `n` bounds its rounds. -/
def copyChunks (sp : Space) : Nat → Nat → List UInt8 → UserM Unit
  | 0, _, _ => pure ()
  | n + 1, dst, bytes =>
    if bytes = [] then pure ()
    else do
      let _ ← copyToUser sp dst (bytes.take 256)
      copyChunks sp n (u32 (dst + 256)) (bytes.drop 256)

/-- `pty_input_wake_one` and `sock_read_wake_one`. -/
def wakeOne (sp : Space) (userBuf bufSize : Nat) (ring : List UInt8) : UserM Int := do
  let toRead := min bufSize ring.length
  if 0 < toRead ∧ userBuf ≠ 0 then
    copyChunks sp toRead userBuf (ring.take toRead)
    return toRead
  else return 0

/-- The task is woken with the `eax` of the read. -/
def awaken (sp : Space) (buf bufSize : Nat) (eax : Int) : VfsRead → UserM Int
  | .event record => pushEvent sp buf bufSize eax record
  | .ring bytes => wakeOne sp buf bufSize bytes
  | _ => return eax

/-- `ide_process_work`, for a read. -/
def ideProcessWork (sp : Space) (userBuf : Nat) (allocated : Bool) : DriverRead → UserM Int
  | .failed rc => return if !allocated then -eio else if rc = -1 then -eio else rc
  | .data bytes =>
    if !allocated then return -eio
    else if bytes = [] then return 0
    else handOver sp userBuf bytes bytes.length

/-- An open file: its access mode, and its node on a disk or elsewhere. -/
inductive OpenFile where
  | disk (access : Nat) (r : DriverRead)
  | node (access : Nat) (r : VfsRead)

/-- `terminal` is what the read of the active terminal comes to. -/
def sysRead (sp : Space) (fd buf bufSize : Nat) (file : Option OpenFile) (allocated : Bool) (terminal : VfsRead) :
    UserM Int :=
  if fdMax ≤ fd then return -ebadf
  else match file with
  | some (.disk access r) =>
    if access = oWronly then return -ebadf
    else ideProcessWork sp buf allocated r
  | some (.node access r) =>
    if access = oWronly then return -ebadf
    else if syscallStackBuf < bufSize ∧ !allocated then return -enomem
    else match r with
    | .returns (.failed rc) => return if rc = -1 then -eio else rc
    | .returns (.data bytes) => handOver sp buf bytes bytes.length
    | r => awaken sp buf bufSize systemCallRead r
  | none =>
    if fd = readStdin then
      if buf = 0 ∨ bufSize = 0 then return -einval
      else if u32 (buf + bufSize - 1) < buf ∨ badRange buf bufSize then return -efault
      else if !allocated then return -enomem
      else match terminal with
      | .returns (.failed rc) => return rc
      | .returns (.data bytes) => handOver sp buf bytes bytes.length
      | r => awaken sp buf bufSize systemCallRead r
    else return -ebadf

def sysRecv (sp : Space) (buf len : Nat) (file : Option VfsRead) (allocated : Bool) : UserM Int :=
  match file with
  | none => return -ebadf
  | some r =>
    if badRange buf len then return -efault
    else if !allocated then return -enomem
    else match r with
    | .returns (.failed rc) => return rc
    | .returns (.data bytes) => if bytes = [] then return 0 else handOver sp buf bytes bytes.length
    | r => awaken sp buf len systemCallRecv r

/-! ## Two descriptors, a record -/

/-- The two descriptors are made, or the call fails before. -/
def pairOut (sp : Space) (addr : Nat) (made : Except Int (Nat × Nat)) : UserM Int :=
  if badRange addr 8 then return -efault
  else match made with
  | .error e => return e
  | .ok (a, b) => handOver sp addr (word a ++ word b) 0

def sysPipe (sp : Space) (pipeAddr : Nat) (made : Except Int (Nat × Nat)) : UserM Int := pairOut sp pipeAddr made

def sysPtyOpen (sp : Space) (outPtr : Nat) (made : Except Int (Nat × Nat)) : UserM Int := pairOut sp outPtr made

def sysSocketpair (sp : Space) (typeOk : Bool) (svAddr : Nat) (made : Except Int (Nat × Nat)) : UserM Int :=
  if !typeOk then return -eprototype else pairOut sp svAddr made

/-- `record` is the `struct stat` of the descriptor, if it has one. -/
def sysFstat (sp : Space) (statAddr : Nat) (record : Option (List UInt8)) (size : Nat) : UserM Int :=
  match record with
  | none => return -ebadf
  | some record => if badRange statAddr size then return -efault else handOver sp statAddr record 0

def sysStat (sp : Space) (statAddr : Nat) (pathOk : Bool) (record : Option (List UInt8)) (size : Nat) : UserM Int :=
  if !pathOk then return -enametoolong
  else if badRange statAddr size then return -efault
  else match record with
  | none => return -enoent
  | some record => handOver sp statAddr record 0

/-- `cwd` is a string without its last byte, 0. -/
def sysGetcwd (sp : Space) (buffer size : Nat) (cwd : List UInt8) : UserM Int :=
  if buffer = 0 ∨ size = 0 then return -einval
  else if size < cwd.length + 1 then return -erange
  else handOver sp buffer (cwd ++ [0]) 0

def sysUname (sp : Space) (addr : Nat) (utsname : List UInt8) : UserM Int := handOver sp addr utsname 0

def sys5htSysinfo (sp : Space) (addr : Nat) (sysinfo : List UInt8) : UserM Int := handOver sp addr sysinfo 0

def sys5htQueryInfo (sp : Space) (addr : Nat) (info : List UInt8) : UserM Int :=
  if addr = 0 then return -einval else handOver sp addr info 0

def sys5htPtyGetattr (sp : Space) (attrPtr : Nat) (attr : Option (List UInt8)) : UserM Int :=
  match attr with
  | none => return -enotty
  | some attr => handOver sp attrPtr attr 0

/-- `winsize` is the one of the terminal, if the descriptor is one. -/
def sys5htPtyWinsize (sp : Space) (wsPtr getFlag : Nat) (winsize : Option (List UInt8)) : UserM Int :=
  match winsize with
  | none => return -enotty
  | some winsize =>
    if getFlag ≠ 0 then handOver sp wsPtr winsize 0
    else do
      match ← copyFromUser sp wsPtr (u32 winsize.length) with
      | none => return -efault
      | some _ => return 0

/-- The process that the call waits for does not exist, is over, or exits later on. -/
inductive WaitTarget where
  | missing
  | terminated
  | exits (pid exitCode : Nat)

/-- `sys_waitpid`, and the part of `task_exit` that ends the wait. -/
def sysWaitpid (sp : Space) (statusPtr : Nat) : WaitTarget → UserM Int
  | .missing => return -esrch
  | .terminated => return 0
  | .exits pid exitCode =>
    if statusPtr ≠ 0 then handOver sp statusPtr (word (exitCode % 256 * 256)) pid else return -efault

/-! ## Layers of the screen -/

inductive LayerState where
  | unallocated
  | owned (info : List UInt8)
  | foreign

def badLayer (id : Nat) : Bool := decide (id % 2 ^ 16 = 0) || decide (vbeNumZLayers ≤ id % 2 ^ 16)

def sys5htQueryLayer (sp : Space) (id addr : Nat) (info : List UInt8) : UserM Int :=
  if badLayer id ∨ addr = 0 then return -einval else handOver sp addr info 0

/-- `prepare` is what comes of a configuration: an error, or the address space with the
layer in it and the record of the layer. -/
def sys5htReqBuf (sp : Space) (id cfgPtr addr cfgSize : Nat) (state : LayerState)
    (prepare : List UInt8 → Except Int (Space × List UInt8)) : UserM Int :=
  if badLayer id ∨ cfgPtr = 0 ∨ addr = 0 then return -einval
  else match state with
  | .foreign => return -ebusy
  | .owned info => handOver sp addr info 0
  | .unallocated => do
    match ← copyFromUser sp cfgPtr (u32 cfgSize) with
    | none => return -efault
    | some cfg =>
      match prepare cfg with
      | .error e => return e
      | .ok (sp', info) => handOver sp' addr info 0

def sys5htRcfgLayer (sp : Space) (id cfgPtr addr cfgSize : Nat) (state : LayerState)
    (prepare : List UInt8 → Except Int (Space × List UInt8)) : UserM Int :=
  if badLayer id ∨ cfgPtr = 0 ∨ addr = 0 then return -einval
  else match state with
  | .unallocated => return -enoent
  | .foreign => return -eperm
  | .owned _ => do
    match ← copyFromUser sp cfgPtr (u32 cfgSize) with
    | none => return -efault
    | some cfg =>
      match prepare cfg with
      | .error e => return e
      | .ok (sp', info) => handOver sp' addr info 0

/-! ## Lists -/

/-- The loop of `sys_listdir` over the names, `off` bytes into the buffer. -/
def listdirLoop (sp : Space) (buf size : Nat) : List (List UInt8) → Nat → UserM Int
  | [], off => if off < size then handOver sp (u32 (buf + off)) [0] off else return off
  | name :: names, off => do
    if size ≤ u32 (off + name.length + 1) then return off
    else if ← copyToUser sp (u32 (buf + off)) name then
      if ← copyToUser sp (u32 (buf + off + name.length)) [10] then
        listdirLoop sp buf size names (off + name.length + 1)
      else return -efault
    else return -efault

/-- `names` are those of the directory, where there is one at the path. -/
def sysListdir (sp : Space) (buf size : Nat) (names : Except Int (List (List UInt8))) : UserM Int :=
  if buf = 0 ∨ size = 0 then return -einval
  else match names with
  | .error e => return e
  | .ok names => listdirLoop sp buf size names 0

/-- The loop of `sys_5ht_list_proc` over the tasks, each with its record. -/
def listProcLoop (sp : Space) (buf max : Nat) : List (List UInt8) → Nat → UserM Int
  | [], count => return count
  | record :: records, count => do
    if max ≤ count then return count
    else if ← copyToUser sp (u32 (buf + count * record.length)) record then
      listProcLoop sp buf max records (count + 1)
    else return -efault

def sys5htListProc (sp : Space) (buf max : Nat) (records : List (List UInt8)) : UserM Int :=
  listProcLoop sp buf max records 0

/-! ## select and poll -/

abbrev FdSet := UInt32 × UInt32

def FdSet.bytes (x : FdSet) : List UInt8 := word x.1.toNat ++ word x.2.toNat

/-- A set that the task passed is filled, and the result of the copy ignored. -/
def putSet (sp : Space) (ptr : Nat) (x : FdSet) : UserM Unit := do
  if ptr ≠ 0 then
    let _ ← copyToUser sp ptr x.bytes
  else pure ()

/-- Nothing is read for a null pointer. -/
def getOptional (sp : Space) (ptr len : Nat) : UserM Bool := do
  if ptr ≠ 0 then return (← copyFromUser sp ptr len).isSome else return true

/-- The word `i` of a block of words. -/
def wordAt (bytes : List UInt8) (i : Nat) : Nat :=
  let b k := (bytes.getD (4 * i + k) 0).toNat
  b 0 + 256 * b 1 + 65536 * b 2 + 16777216 * b 3

/-- What the descriptors answer, at once or at a later tick. -/
inductive SelectOutcome where
  | failed (errno : Int)
  | ready (n : Nat) (r w e : FdSet)

def sysSelect (sp : Space) (nfds argsPtr : Nat) (outcome : SelectOutcome) : UserM Int := do
  if toInt nfds < 0 ∨ (fdSetsize : Int) < toInt nfds then return -einval
  else match ← copyFromUser sp argsPtr 16 with
  | none => return -efault
  | some args =>
    if !(← getOptional sp (wordAt args 0) 8) then return -efault
    else if !(← getOptional sp (wordAt args 1) 8) then return -efault
    else if !(← getOptional sp (wordAt args 2) 8) then return -efault
    else if !(← getOptional sp (wordAt args 3) 8) then return -efault
    else match outcome with
    | .failed e => return e
    | .ready n r w e =>
      putSet sp (wordAt args 0) r
      putSet sp (wordAt args 1) w
      putSet sp (wordAt args 2) e
      return n

/-- The array with its `revents` filled in. -/
def fillRevents (pfds : List UInt8) (revents : Nat → UInt16) : List UInt8 :=
  pfds.mapIdx fun i b =>
    if i % 8 = 6 then .ofNat (revents (i / 8)).toNat
    else if i % 8 = 7 then .ofNat ((revents (i / 8)).toNat / 256)
    else b

/-- `ready` is how many descriptors are in the end; without memory for a waiter there is no
end. -/
def sysPoll (sp : Space) (fdsPtr nfds : Nat) (ready : Option Nat) (revents : Nat → UInt16) : UserM Int := do
  if fdSetsize < nfds then return -einval
  else if nfds = 0 then return 0
  else match ← copyFromUser sp fdsPtr (nfds * 8) with
  | none => return -efault
  | some pfds =>
    match ready with
    | none => return -enomem
    | some n =>
      let _ ← copyToUser sp fdsPtr (fillRevents pfds revents)
      return n

/-! ## Direct stores -/

def sysGettimeofday (sp : Space) (timestr ticks : Nat) : UserM Int := do
  let ms := u32 ticks
  storeUser sp timestr (word (ms / 1000))
  storeUser sp (timestr + 4) (word (ms % 1000 * 1000))
  return 0

def sysGetgroups (sp : Space) (size list : Nat) (groups : List UInt16) : UserM Int := do
  if toInt size = 0 then return groups.length
  else if toInt size < groups.length then return -einval
  else
    storeUser sp list (groups.flatMap fun g => [.ofNat g.toNat, .ofNat (g.toNat / 256)])
    return groups.length

/-- What the control block says about signals. -/
structure Signals where
  userMode : Bool
  inSignalHandler : Bool
  bitmask : UInt32
  blocked : UInt32
  handler : Nat → Nat

/-- The signal that comes next, by `__builtin_ctz`. -/
def Signals.next (t : Signals) : Option Nat :=
  if !t.userMode ∨ t.inSignalHandler then none
  else (List.range 32).find? (t.bitmask &&& ~~~t.blocked).toNat.testBit

/-- Without a handler the task exits. -/
def taskIpcDeliverSignals (sp : Space) (t : Signals) (espAtTrap : Nat) : UserM Int := do
  match t.next with
  | none => return -1
  | some sig =>
    if t.handler sig = 0 then return -1
    else
      storeUser sp (espAtTrap + 2 ^ 32 - 8) (word signalTrampolineAddr)
      storeUser sp (espAtTrap + 2 ^ 32 - 4) (word sig)
      return 0

/-! ## All calls -/

/-- A system call, with its arguments and what the rest of the kernel answers, or the
delivery of a signal. `other` are the calls that store nothing for the task. -/
inductive Request where
  | read (fd buf bufSize : UInt32) (file : Option OpenFile) (allocated : Bool) (terminal : VfsRead)
  | recv (buf len : UInt32) (file : Option VfsRead) (allocated : Bool)
  | pipe (pipeAddr : UInt32) (made : Except Int (Nat × Nat))
  | ptyOpen (outPtr : UInt32) (made : Except Int (Nat × Nat))
  | socketpair (typeOk : Bool) (svAddr : UInt32) (made : Except Int (Nat × Nat))
  | fstat (statAddr : UInt32) (record : Option (List UInt8)) (size : Nat)
  | stat (statAddr : UInt32) (pathOk : Bool) (record : Option (List UInt8)) (size : Nat)
  | getcwd (buffer size : UInt32) (cwd : List UInt8)
  | uname (addr : UInt32) (utsname : List UInt8)
  | sysinfo (addr : UInt32) (sysinfo : List UInt8)
  | queryInfo (addr : UInt32) (info : List UInt8)
  | ptyGetattr (attrPtr : UInt32) (attr : Option (List UInt8))
  | ptyWinsize (wsPtr getFlag : UInt32) (winsize : Option (List UInt8))
  | waitpid (statusPtr : UInt32) (target : WaitTarget)
  | queryLayer (id addr : UInt32) (info : List UInt8)
  | reqBuf (id cfgPtr addr : UInt32) (cfgSize : Nat) (state : LayerState)
      (prepare : List UInt8 → Except Int (Space × List UInt8))
  | rcfgLayer (id cfgPtr addr : UInt32) (cfgSize : Nat) (state : LayerState)
      (prepare : List UInt8 → Except Int (Space × List UInt8))
  | listdir (buf size : UInt32) (names : Except Int (List (List UInt8)))
  | listProc (buf max : UInt32) (records : List (List UInt8))
  | select (nfds argsPtr : UInt32) (outcome : SelectOutcome)
  | poll (fdsPtr nfds : UInt32) (ready : Option Nat) (revents : Nat → UInt16)
  | gettimeofday (timestr : UInt32) (ticks : Nat)
  | getgroups (size list : UInt32) (groups : List UInt16)
  | deliverSignals (t : Signals) (espAtTrap : UInt32)
  | other (eax : Int)

def serve (sp : Space) : Request → UserM Int
  | .read fd buf bufSize file allocated terminal =>
    sysRead sp fd.toNat buf.toNat bufSize.toNat file allocated terminal
  | .recv buf len file allocated => sysRecv sp buf.toNat len.toNat file allocated
  | .pipe pipeAddr made => sysPipe sp pipeAddr.toNat made
  | .ptyOpen outPtr made => sysPtyOpen sp outPtr.toNat made
  | .socketpair typeOk svAddr made => sysSocketpair sp typeOk svAddr.toNat made
  | .fstat statAddr record size => sysFstat sp statAddr.toNat record size
  | .stat statAddr pathOk record size => sysStat sp statAddr.toNat pathOk record size
  | .getcwd buffer size cwd => sysGetcwd sp buffer.toNat size.toNat cwd
  | .uname addr utsname => sysUname sp addr.toNat utsname
  | .sysinfo addr sysinfo => sys5htSysinfo sp addr.toNat sysinfo
  | .queryInfo addr info => sys5htQueryInfo sp addr.toNat info
  | .ptyGetattr attrPtr attr => sys5htPtyGetattr sp attrPtr.toNat attr
  | .ptyWinsize wsPtr getFlag winsize => sys5htPtyWinsize sp wsPtr.toNat getFlag.toNat winsize
  | .waitpid statusPtr target => sysWaitpid sp statusPtr.toNat target
  | .queryLayer id addr info => sys5htQueryLayer sp id.toNat addr.toNat info
  | .reqBuf id cfgPtr addr cfgSize state prepare =>
    sys5htReqBuf sp id.toNat cfgPtr.toNat addr.toNat cfgSize state prepare
  | .rcfgLayer id cfgPtr addr cfgSize state prepare =>
    sys5htRcfgLayer sp id.toNat cfgPtr.toNat addr.toNat cfgSize state prepare
  | .listdir buf size names => sysListdir sp buf.toNat size.toNat names
  | .listProc buf max records => sys5htListProc sp buf.toNat max.toNat records
  | .select nfds argsPtr outcome => sysSelect sp nfds.toNat argsPtr.toNat outcome
  | .poll fdsPtr nfds ready revents => sysPoll sp fdsPtr.toNat nfds.toNat ready revents
  | .gettimeofday timestr ticks => sysGettimeofday sp timestr.toNat ticks
  | .getgroups size list groups => sysGetgroups sp size.toNat list.toNat groups
  | .deliverSignals t espAtTrap => taskIpcDeliverSignals sp t espAtTrap.toNat
  | .other eax => return eax

end Serotonin.Syscall
