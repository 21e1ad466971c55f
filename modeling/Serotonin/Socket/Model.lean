import Serotonin.Lib.CircBuf

/-! Unix sockets: `task_ipc_unix_socket_read`, `_write` and `_close` with the waiters of
`schedule.c`, and the calls of `syscall.c` that make, bind, connect and close sockets. A
socket is known by its address; freed memory keeps what it held until it is allocated
again. Descriptor, handle, node and endpoint of a socket live and die together. -/

namespace Serotonin.Socket

open Function

abbrev Tid := Nat
abbrev Sid := Nat

def eio : Int := 5
def ebadf : Int := 9
def enomem : Int := 12
def efault : Int := 14
def einval : Int := 22
def emfile : Int := 24
def enospc : Int := 28
def epipe : Int := 32
def eopnotsupp : Int := 95
def eafnosupport : Int := 106
def eprototype : Int := 107
def enotsock : Int := 108
def econnrefused : Int := 111
def eaddrinuse : Int := 112
def edestaddrreq : Int := 121
def emsgsize : Int := 122
def enotconn : Int := 128

def afUnix : Nat := 1
def sockBufferSize : Nat := 4096
def sockBacklogMax : Nat := 8
def maxBoundSockets : Nat := 64
def fdMax : Nat := 64
def syscallStackBuf : Nat := 4096
def userSpaceStart : Nat := 0x00400000
def userSpaceEnd : Nat := 0xBFFFFFFF

inductive SockType where
  | stream
  | dgram
  deriving DecidableEq

inductive SockState where
  | unconnected
  | bound
  | listening
  | connecting
  | connected
  | closed
  deriving DecidableEq

structure Waiter where
  task : Tid
  userBuf : Nat
  bufSize : Nat
  deriving DecidableEq

inductive Queue where
  | read
  | write
  | accept
  | connect
  deriving DecidableEq

structure Sock where
  type : SockType
  state : SockState
  bound : Bool
  path : List UInt8
  ring : CircBuf UInt8
  waiters : Queue → List Waiter
  peer : Option Sid
  backlog : List Sid
  backlogMax : Nat

/-- The calls a task can block in. -/
inductive Call where
  | read (sock : Sid) (userBuf size : Nat)
  | write (sock : Sid) (data : List UInt8)
  | accept (listener : Sid)
  | connect (client : Sid)
  deriving DecidableEq

/-- What a call returned, and the bytes it put into the caller's buffer. -/
structure Event where
  task : Tid
  call : Call
  value : Int
  bytes : List UInt8
  deriving DecidableEq

/-- `eax` is that of the saved context, `userBuf` is `current_user_buf`. `inCall` is no part
of the kernel: the call the task is blocked in, and the queue it waits in. -/
structure Task where
  blocked : Bool
  eax : Int
  userBuf : Nat
  mem : Nat → UInt8
  inCall : Option (Call × Sid × Queue)

/-- A descriptor of a task. -/
structure Fd where
  task : Tid
  num : Nat
  sock : Sid
  deriving DecidableEq

/-- `made` and `history` are no part of the kernel: the client for which accept made a
socket, and what the calls returned, in order. -/
structure Kernel where
  task : Tid → Task
  sock : Sid → Sock
  live : Sid → Bool
  bound : List Sid
  fds : List Fd
  refcount : Sid → Nat
  made : Sid → Option Sid
  history : List Event

/-- A call returns a value, having put bytes into the caller's buffer, or the task sleeps. -/
inductive Outcome where
  | returns (value : Int) (bytes : List UInt8) (k : Kernel)
  | sleeps (k : Kernel)

/-- Which allocations and which copy to or from user memory fail. -/
structure Fails where
  kbuf : Bool
  waiter : Bool
  copy : Bool

namespace Kernel

def modifyTask (k : Kernel) (t : Tid) (f : Task → Task) : Kernel :=
  { k with task := update k.task t (f (k.task t)) }

def modify (k : Kernel) (s : Sid) (f : Sock → Sock) : Kernel :=
  { k with sock := update k.sock s (f (k.sock s)) }

def setEax (k : Kernel) (t : Tid) (v : Int) : Kernel := k.modifyTask t fun x => { x with eax := v }

def setState (k : Kernel) (s : Sid) (st : SockState) : Kernel := k.modify s fun x => { x with state := st }

def setPeer (k : Kernel) (s : Sid) (p : Option Sid) : Kernel := k.modify s fun x => { x with peer := p }

def setRing (k : Kernel) (s : Sid) (r : CircBuf UInt8) : Kernel := k.modify s fun x => { x with ring := r }

def setWaiters (k : Kernel) (s : Sid) (q : Queue) (ws : List Waiter) : Kernel :=
  k.modify s fun x => { x with waiters := update x.waiters q ws }

def free (k : Kernel) (s : Sid) : Kernel := { k with live := update k.live s false }

end Kernel

/-! ## Waiting and waking -/

/-- The call, if the task was in one, returns what its context holds. -/
def taskUnblock (k : Kernel) (t : Tid) (bytes : List UInt8) : Kernel :=
  if (k.task t).blocked then
    { k.modifyTask t fun x => { x with blocked := false, inCall := none } with
      history := k.history ++ (k.task t).inCall.toList.map fun c => ⟨t, c.1, (k.task t).eax, bytes⟩ }
  else k

/-- `sock_waiter_enqueue`, and the task sleeps. -/
def waitOn (k : Kernel) (s : Sid) (q : Queue) (w : Waiter) (call : Call) : Kernel :=
  (k.setWaiters s q ((k.sock s).waiters q ++ [w])).modifyTask w.task fun x =>
    { x with blocked := true, inCall := some (call, s, q) }

/-- A waiter that was never enqueued: the task sleeps all the same. -/
def sleepOnly (k : Kernel) (t : Tid) (s : Sid) (q : Queue) (call : Call) : Kernel :=
  k.modifyTask t fun x => { x with blocked := true, inCall := some (call, s, q) }

def wake (k : Kernel) (w : Waiter) : Kernel := taskUnblock (k.setEax w.task 0) w.task []

def sockWakeOne (k : Kernel) (s : Sid) (q : Queue) : Kernel :=
  match (k.sock s).waiters q with
  | [] => k
  | w :: ws => wake (k.setWaiters s q ws) w

def sockWakeAll (k : Kernel) (s : Sid) (q : Queue) : Kernel :=
  ((k.sock s).waiters q).foldl wake (k.setWaiters s q [])

/-! ## Reading and writing -/

/-- `copy_to_user` into a buffer that is mapped. -/
def storeUser (mem : Nat → UInt8) (addr : Nat) (bytes : List UInt8) : Nat → UInt8 := fun a =>
  if addr ≤ a then (bytes[a - addr]?).getD (mem a) else mem a

/-- The loop of `sock_read_wake_one`, with `rest` bytes to go: the ring, the user memory and
the bytes copied, 256 at a time. -/
def copyOut (r : CircBuf UInt8) (mem : Nat → UInt8) (addr : Nat) : Nat → Nat →
    CircBuf UInt8 × (Nat → UInt8) × List UInt8
  | 0, _ => (r, mem, [])
  | k + 1, rest =>
    if rest = 0 then (r, mem, [])
    else
      let chunk := min rest 256
      let (tmp, r) := r.get chunk
      let (r, mem, more) := copyOut r (storeUser mem addr tmp) (addr + chunk) k (rest - chunk)
      (r, mem, tmp ++ more)

def sockReadWakeOne (k : Kernel) (s : Sid) : Kernel :=
  match (k.sock s).waiters .read with
  | [] => k
  | w :: ws =>
    let k := k.setWaiters s .read ws
    let toRead := min w.bufSize (k.sock s).ring.dataLen
    if 0 < toRead ∧ w.userBuf ≠ 0 then
      let (r, mem, bytes) := copyOut (k.sock s).ring (k.task w.task).mem w.userBuf toRead toRead
      let k := (k.setRing s r).modifyTask w.task fun x => { x with mem := mem, eax := toRead }
      taskUnblock k w.task bytes
    else taskUnblock (k.setEax w.task 0) w.task []

def peerGone (k : Kernel) (s : Sid) : Bool :=
  match (k.sock s).peer with
  | none => true
  | some p => (k.sock p).state = .closed

def taskIpcUnixSocketRead (k : Kernel) (t : Tid) (s : Sid) (size : Nat) (noMem : Bool) : Outcome :=
  if size = 0 then .returns 0 [] k
  else if (k.sock s).type = .stream ∧ (k.sock s).state ≠ .connected then .returns (-enotconn) [] k
  else if 0 < (k.sock s).ring.dataLen then
    let toRead := min size (k.sock s).ring.dataLen
    let (bytes, r) := (k.sock s).ring.get toRead
    .returns toRead bytes (sockWakeOne (k.setRing s r) s .write)
  else if (k.sock s).type = .stream ∧ peerGone k s then .returns 0 [] k
  else if noMem then .returns (-enomem) [] k
  else .sleeps (waitOn k s .read ⟨t, (k.task t).userBuf, size⟩ (.read s (k.task t).userBuf size))

/-- A write to a peer that is closed also raises SIGPIPE. -/
def taskIpcUnixSocketWrite (k : Kernel) (t : Tid) (s : Sid) (data : List UInt8) (noMem : Bool) : Outcome :=
  if data.length = 0 then .returns 0 [] k
  else
    match (k.sock s).type with
    | .stream =>
      match (k.sock s).peer with
      | none => .returns (-enotconn) [] k
      | some p =>
        if (k.sock s).state ≠ .connected then .returns (-enotconn) [] k
        else if (k.sock p).state = .closed then .returns (-epipe) [] k
        else if (k.sock p).ring.dataLen < (k.sock p).ring.size then
          let toWrite := min data.length ((k.sock p).ring.size - (k.sock p).ring.dataLen)
          .returns toWrite [] (sockReadWakeOne (k.setRing p ((k.sock p).ring.put (data.take toWrite))) p)
        else if noMem then .returns (-enomem) [] k
        else .sleeps (waitOn k p .write ⟨t, 0, 0⟩ (.write s data))
    | .dgram =>
      match (k.sock s).peer with
      | none => .returns (-edestaddrreq) [] k
      | some p =>
        if (k.sock p).ring.size < (k.sock p).ring.dataLen + data.length then .returns (-emsgsize) [] k
        else .returns data.length [] (sockReadWakeOne (k.setRing p ((k.sock p).ring.put data)) p)

/-- The common end of `sys_recv` and `sys_read`. -/
def readResult (t : Tid) (buf : Nat) (copyFails : Bool) : Outcome → Outcome
  | .sleeps k => .sleeps k
  | .returns n bytes k =>
    if n ≤ 0 then .returns n [] k
    else if copyFails then .returns (-efault) [] k
    else .returns n bytes (k.modifyTask t fun x => { x with mem := storeUser x.mem buf bytes })

def outsideUser (buf len : Nat) : Prop := buf < userSpaceStart ∨ userSpaceEnd < (buf + len + (2 ^ 32 - 1)) % 2 ^ 32

instance (buf len : Nat) : Decidable (outsideUser buf len) := inferInstanceAs (Decidable (_ ∨ _))

/-! ## Descriptors -/

def sockFromFd (k : Kernel) (t : Tid) (fd : Nat) : Option Sid :=
  (k.fds.find? fun d => d.task = t ∧ d.num = fd).map (·.sock)

def allocFd (k : Kernel) (t : Tid) : Option Nat :=
  (List.range fdMax).find? fun i => (sockFromFd k t i).isNone

def sockMakeFdFor (k : Kernel) (s : Sid) (t : Tid) (noMem : Bool) : Int × Kernel :=
  if noMem then (-enomem, k)
  else
    match allocFd k t with
    | none => (-emfile, k)
    | some fd =>
      (fd, { k with fds := ⟨t, fd, s⟩ :: k.fds, refcount := update k.refcount s 1 })

/-- A socket as `sock_alloc` leaves it; the buffer is not cleared. -/
def newSock (type : SockType) (garbage : Nat → UInt8) : Sock where
  type := type
  state := .unconnected
  bound := false
  path := []
  ring := ⟨garbage, sockBufferSize, 0, 0, 0⟩
  waiters := fun _ => []
  peer := none
  backlog := []
  backlogMax := 0

/-- `none`: no memory. -/
structure Mem where
  addr : Option Sid
  garbage : Nat → UInt8

def sockAlloc (k : Kernel) (m : Mem) (type : SockType) : Option (Sid × Kernel) :=
  m.addr.map fun s =>
    (s, { k with
      sock := update k.sock s (newSock type m.garbage)
      live := update k.live s true
      made := update k.made s none })

/-! ## Closing -/

/-- The last entry of the table takes the place of the one that leaves. -/
def unixSocketUnregister : List Sid → Sid → List Sid
  | [], _ => []
  | x :: xs, s =>
    if x = s then
      match xs.getLast? with
      | none => []
      | some last => last :: xs.dropLast
    else x :: unixSocketUnregister xs s

def taskIpcUnixSocketClose (k : Kernel) (s : Sid) : Kernel :=
  let k := k.setState s .closed
  let k := sockWakeAll (sockWakeAll (sockWakeAll (sockWakeAll k s .read) s .write) s .accept) s .connect
  let k := match (k.sock s).peer with
    | none => k
    | some p =>
      let k := if (k.sock p).peer = some s then k.setPeer p none else k
      (sockWakeAll (sockWakeAll k p .read) p .write).setPeer s none
  let k := if (k.sock s).bound then { k with bound := unixSocketUnregister k.bound s } else k
  k.free s

def closeFd (k : Kernel) (t : Tid) (fd : Nat) : Option Kernel :=
  (k.fds.find? fun d => d.task = t ∧ d.num = fd).map fun d =>
    let k := { k with
      fds := k.fds.erase d
      refcount := update k.refcount d.sock (k.refcount d.sock - 1) }
    if k.refcount d.sock = 0 then taskIpcUnixSocketClose k d.sock else k

/-! ## System calls -/

def sysSocket (k : Kernel) (t : Tid) (domain : Nat) (type : Option SockType) (m : Mem) (noMem : Bool) :
    Int × Kernel :=
  if domain ≠ afUnix then (-eafnosupport, k)
  else
    match type with
    | none => (-eprototype, k)
    | some type =>
      match sockAlloc k m type with
      | none => (-enomem, k)
      | some (s, k) =>
        let (fd, k) := sockMakeFdFor k s t noMem
        if fd < 0 then (fd, k.free s) else (fd, k)

/-- An address in user memory: `none` when it cannot be read, else the family and the bytes
of the path before its first NUL. -/
abbrev Addr := Option (Nat × List UInt8)

def unixSocketLookup (k : Kernel) (path : List UInt8) : Option Sid :=
  k.bound.find? fun s => (k.sock s).path = path

def sysBind (k : Kernel) (t : Tid) (fd : Nat) (addr : Addr) : Int × Kernel :=
  match sockFromFd k t fd with
  | none => (-enotsock, k)
  | some s =>
    if (k.sock s).bound then (-einval, k)
    else
      match addr with
      | none => (-efault, k)
      | some (family, path) =>
        if family ≠ afUnix then (-eafnosupport, k)
        else if (unixSocketLookup k path).isSome then (-eaddrinuse, k)
        else
          let k := k.modify s fun x => { x with path := path, bound := true, state := .bound }
          if maxBoundSockets ≤ k.bound.length then
            (-enospc, k.modify s fun x => { x with bound := false, state := .unconnected })
          else (0, { k with bound := k.bound ++ [s] })

def sysListen (k : Kernel) (t : Tid) (fd backlog : Nat) : Int × Kernel :=
  match sockFromFd k t fd with
  | none => (-enotsock, k)
  | some s =>
    if (k.sock s).type ≠ .stream then (-eopnotsupp, k)
    else if !(k.sock s).bound then (-einval, k)
    else
      let bmax := min backlog sockBacklogMax
      (0, k.modify s fun x => { x with backlogMax := if bmax = 0 then 1 else bmax, state := .listening })

/-- The result is left in the context of `task`. -/
def sockAcceptDeliver (k : Kernel) (listener : Sid) (task : Tid) (m : Mem) (noMem : Bool) : Kernel :=
  match (k.sock listener).backlog with
  | [] => k
  | client :: rest =>
    let k := k.modify listener fun x => { x with backlog := rest }
    match sockAlloc k m .stream with
    | none => (sockWakeOne k listener .connect).setEax task (-enomem)
    | some (server, k) =>
      let k := k.modify server fun x => { x with state := .connected, peer := some client }
      let k := k.modify client fun x => { x with peer := some server, state := .connected }
      let k := { k with made := update k.made server (some client) }
      let k := sockWakeOne k listener .connect
      let (fd, k) := sockMakeFdFor k server task noMem
      if fd < 0 then
        let k := k.setState server .closed
        let k := k.modify client fun x => { x with peer := none, state := .unconnected }
        (k.free server).setEax task fd
      else k.setEax task fd

def sysAccept (k : Kernel) (t : Tid) (fd : Nat) (m : Mem) (noMem noWaiter : Bool) : Outcome :=
  match sockFromFd k t fd with
  | none => .returns (-enotsock) [] k
  | some l =>
    if (k.sock l).state ≠ .listening then .returns (-einval) [] k
    else if (k.sock l).backlog.length = 0 then
      if noWaiter then .sleeps (sleepOnly k t l .accept (.accept l))
      else .sleeps (waitOn k l .accept ⟨t, 0, 0⟩ (.accept l))
    else
      let k := sockAcceptDeliver k l t m noMem
      .returns (k.task t).eax [] k

/-- The socket is queued at the listener, and taken at once by a task that waits in accept. -/
def connectStream (k : Kernel) (t : Tid) (s l : Sid) (m : Mem) (noMem noWaiter : Bool) : Outcome :=
  if (k.sock l).state ≠ .listening then .returns (-econnrefused) [] k
  else if (k.sock l).backlogMax ≤ (k.sock l).backlog.length then .returns (-econnrefused) [] k
  else
    let k := k.modify l fun x => { x with backlog := x.backlog ++ [s] }
    let k := k.setState s .connecting
    match (k.sock l).waiters .accept with
    | w :: ws =>
      let k := sockAcceptDeliver (k.setWaiters l .accept ws) l w.task m noMem
      .returns 0 [] (taskUnblock k w.task [])
    | [] =>
      if noWaiter then .sleeps (sleepOnly k t l .connect (.connect s))
      else .sleeps (waitOn k l .connect ⟨t, 0, 0⟩ (.connect s))

def sysConnect (k : Kernel) (t : Tid) (fd : Nat) (addr : Addr) (m : Mem) (noMem noWaiter : Bool) : Outcome :=
  match sockFromFd k t fd with
  | none => .returns (-enotsock) [] k
  | some s =>
    if (k.sock s).state = .connected then .returns 0 [] k
    else
      match addr with
      | none => .returns (-efault) [] k
      | some (family, path) =>
        if family ≠ afUnix then .returns (-eafnosupport) [] k
        else
          match unixSocketLookup k path with
          | none => .returns (-econnrefused) [] k
          | some l =>
            match (k.sock s).type with
            | .stream => connectStream k t s l m noMem noWaiter
            | .dgram => .returns 0 [] (k.modify s fun x => { x with peer := some l, state := .connected })

def sysShutdown (k : Kernel) (t : Tid) (fd : Nat) : Int × Kernel :=
  match sockFromFd k t fd with
  | none => (-enotsock, k)
  | some s =>
    let k := sockWakeAll (sockWakeAll (k.setState s .closed) s .read) s .write
    match (k.sock s).peer with
    | none => (0, k)
    | some p => (0, sockWakeAll (sockWakeAll k p .read) p .write)

def closePair (k : Kernel) (t : Tid) (fd : Int) : Kernel := (closeFd k t fd.toNat).getD k

def sysSocketpair (k : Kernel) (t : Tid) (type : Option SockType) (addr : Nat) (m0 m1 : Mem)
    (noMem0 noMem1 copyFails : Bool) : Int × Kernel :=
  match type with
  | none => (-eprototype, k)
  | some type =>
    if outsideUser addr 8 then (-efault, k)
    else
      match sockAlloc k m0 type with
      | none => (-enomem, k)
      | some (s0, k0) =>
        match sockAlloc k0 m1 type with
        | none => (-enomem, k0.free s0)
        | some (s1, k) =>
          let k := (k.setPeer s0 (some s1)).setPeer s1 (some s0)
          let k := (k.setState s0 .connected).setState s1 .connected
          let (fd0, k) := sockMakeFdFor k s0 t noMem0
          if fd0 < 0 then (fd0, (k.free s0).free s1)
          else
            let (fd1, k) := sockMakeFdFor k s1 t noMem1
            if fd1 < 0 then (fd1, (closePair k t fd0).free s1)
            else if copyFails then (-efault, closePair (closePair k t fd0) t fd1)
            else (0, k)

/-- A second descriptor for what is behind one: `sys_dup`, and `task_fork` for the child. -/
def share (k : Kernel) (t : Tid) (fd : Nat) (t' : Tid) (fd' : Nat) : Option Kernel :=
  match sockFromFd k t fd with
  | none => none
  | some s =>
    if (sockFromFd k t' fd').isSome then none
    else some { k with
      fds := ⟨t', fd', s⟩ :: k.fds
      refcount := update k.refcount s (k.refcount s + 1) }

def setUserBuf (k : Kernel) (t : Tid) (buf : Nat) : Kernel := k.modifyTask t fun x => { x with userBuf := buf }

def sysRecv (k : Kernel) (t : Tid) (s : Sid) (buf len : Nat) (f : Fails) : Outcome :=
  if outsideUser buf len then .returns (-efault) [] k
  else if f.kbuf then .returns (-enomem) [] (setUserBuf k t buf)
  else readResult t buf f.copy (taskIpcUnixSocketRead (setUserBuf k t buf) t s len f.waiter)

/-- A short read uses a buffer on the stack. -/
def sysRead (k : Kernel) (t : Tid) (s : Sid) (buf len : Nat) (f : Fails) : Outcome :=
  if syscallStackBuf < len ∧ f.kbuf then .returns (-enomem) [] k
  else readResult t buf f.copy (taskIpcUnixSocketRead (setUserBuf k t buf) t s len f.waiter)

def sysSend (k : Kernel) (t : Tid) (s : Sid) (buf : Nat) (data : List UInt8) (f : Fails) : Outcome :=
  if outsideUser buf data.length then .returns (-efault) [] k
  else if f.kbuf then .returns (-enomem) [] k
  else if f.copy then .returns (-efault) [] k
  else taskIpcUnixSocketWrite k t s data f.waiter

def sysWrite (k : Kernel) (t : Tid) (s : Sid) (data : List UInt8) (f : Fails) : Outcome :=
  if syscallStackBuf < data.length ∧ f.kbuf then .returns (-enomem) [] k
  else if f.copy then .returns (-efault) [] k
  else taskIpcUnixSocketWrite k t s data f.waiter

/-! ## Steps -/

inductive Op where
  | socket (domain : Nat) (type : Option SockType) (m : Mem) (noMem : Bool)
  | bind (fd : Nat) (addr : Addr)
  | listen (fd backlog : Nat)
  | accept (fd : Nat) (m : Mem) (noMem noWaiter : Bool)
  | connect (fd : Nat) (addr : Addr) (m : Mem) (noMem noWaiter : Bool)
  | socketpair (type : Option SockType) (addr : Nat) (m0 m1 : Mem) (noMem0 noMem1 copyFails : Bool)
  | shutdown (fd : Nat)
  | close (fd : Nat)
  | share (fd : Nat) (t' : Tid) (fd' : Nat)
  | recv (fd buf len : Nat) (f : Fails)
  | read (fd buf len : Nat) (f : Fails)
  | send (fd buf : Nat) (data : List UInt8) (f : Fails)
  | write (fd : Nat) (data : List UInt8) (f : Fails)

/-- A call that returns at once is noted. -/
def finish (t : Tid) (call : Call) : Outcome → Kernel
  | .returns v bytes k => { k with history := k.history ++ [⟨t, call, v, bytes⟩] }
  | .sleeps k => k

/-- The allocator hands out no memory that is in use. -/
def Mem.Fresh (k : Kernel) (m : Mem) : Prop := ∀ s, m.addr = some s → k.live s = false

instance (k : Kernel) (m : Mem) : Decidable (m.Fresh k) :=
  match h : m.addr with
  | none => .isTrue fun s hs => by rw [h] at hs; cases hs
  | some a => decidable_of_iff (k.live a = false) ⟨fun ha s hs => by
      rw [h] at hs; cases hs; exact ha, fun hf => hf a h⟩

/-- `none`: the step is not possible in this state. A blocked task makes no calls. -/
def step (k : Kernel) (t : Tid) (op : Op) : Option Kernel :=
  if (k.task t).blocked then none
  else
    match op with
    | .socket domain type m noMem => if m.Fresh k then some (sysSocket k t domain type m noMem).2 else none
    | .bind fd addr => some (sysBind k t fd addr).2
    | .listen fd backlog => some (sysListen k t fd backlog).2
    | .accept fd m noMem noWaiter =>
      (sockFromFd k t fd).bind fun l =>
        if m.Fresh k then some (finish t (.accept l) (sysAccept k t fd m noMem noWaiter)) else none
    | .connect fd addr m noMem noWaiter =>
      (sockFromFd k t fd).bind fun s =>
        if m.Fresh k then some (finish t (.connect s) (sysConnect k t fd addr m noMem noWaiter)) else none
    | .socketpair type addr m0 m1 noMem0 noMem1 copyFails =>
      if m0.Fresh k ∧ m1.Fresh k ∧ (m0.addr = m1.addr → m0.addr = none) then
        some (sysSocketpair k t type addr m0 m1 noMem0 noMem1 copyFails).2
      else none
    | .shutdown fd => some (sysShutdown k t fd).2
    | .close fd => closeFd k t fd
    | .share fd t' fd' => share k t fd t' fd'
    | .recv fd buf len f =>
      (sockFromFd k t fd).map fun s => finish t (.read s buf len) (sysRecv k t s buf len f)
    | .read fd buf len f =>
      (sockFromFd k t fd).map fun s => finish t (.read s buf len) (sysRead k t s buf len f)
    | .send fd buf data f =>
      (sockFromFd k t fd).map fun s => finish t (.write s data) (sysSend k t s buf data f)
    | .write fd data f =>
      (sockFromFd k t fd).map fun s => finish t (.write s data) (sysWrite k t s data f)

end Serotonin.Socket
