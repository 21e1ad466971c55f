import Serotonin.Files.Model
import Serotonin.Lib.RefCount
import Serotonin.Lib.Run

/-! The life of file handles and their nodes: `alloc_fd` and `close_fd` of `user_fs.c`,
`vfs_open` and `vfs_close`, and the calls that make, share and drop handles: open, close,
dup, pipe, socket, accept, connect, fork and exit. Handles and nodes are known by their
addresses, which are used again once they are freed. -/

namespace Serotonin.Handles

open Function
open Files (Tid NodeId HandleId FileHandle Cred fdMax oRdonly oWronly oRdwr oAppend oCreat oTrunc oExcl
  vfsFlagFile vfsFlagDiskio ebadf eio enoent enomem eacces eexist efault einval enosys enametoolong)

def vfsFlagPipe : BitVec 32 := 0x8
def vfsFlagSocket : BitVec 32 := 0x10

def emfile : Int := 24
def eafnosupport : Int := 106
def eprototype : Int := 107
def enotsock : Int := 108

def afUnix : Nat := 1
def sockStream : Nat := 1
def sockDgram : Nat := 2

/-- The task whose end stops the machine. -/
def initPid : Tid := 1

structure Node extends Files.VfsNode where
  refcount : Nat

namespace Node

def isChannel (y : Node) : Bool := y.flags &&& (vfsFlagPipe ||| vfsFlagSocket) != 0
def isSocket (y : Node) : Bool := y.flags &&& vfsFlagSocket != 0
def isDisk (y : Node) : Bool := y.flags &&& vfsFlagDiskio != 0

end Node

/-- Who keeps a node: the handle it was made for; the file system, with so many references
of its own beside those of the handles; or a terminal, whose slave node is handed to the
first task without being opened. No variable of the source. -/
inductive Keeper where
  | caller
  | fileSystem (own : Nat)
  | terminal
deriving DecidableEq

/-- `handles` lists the handles there are; it and `keeper` are no variables of the source. A
socket is known by its node. -/
structure System where
  tids : List Tid
  cred : Tid → Cred
  fdTable : Tid × Nat → Option HandleId
  handle : HandleId → Option FileHandle
  node : NodeId → Option Node
  acceptWaiters : NodeId → List Tid
  eax : Tid → Int
  handles : List HandleId
  keeper : NodeId → Keeper

/-- Memory is used that was freed, or freed again. -/
inductive Fault where
  | handle (h : HandleId)
  | node (n : NodeId)
  | data (b : Nat)
deriving DecidableEq

namespace System

def ret (s : System) (t : Tid) (v : Int) : System := { s with eax := update s.eax t v }

def setFd (s : System) (t : Tid) (fd : Nat) (h : Option HandleId) : System :=
  { s with fdTable := update s.fdTable (t, fd) h }

def setHandle (s : System) (h : HandleId) (x : FileHandle) : System :=
  { s with handle := update s.handle h (some x) }

def setNode (s : System) (n : NodeId) (y : Node) : System :=
  { s with node := update s.node n (some y) }

def setWaiters (s : System) (n : NodeId) (ts : List Tid) : System :=
  { s with acceptWaiters := update s.acceptWaiters n ts }

def getHandle (s : System) (h : HandleId) : Except Fault FileHandle :=
  match s.handle h with
  | none => .error (.handle h)
  | some x => .ok x

def getNode (s : System) (n : NodeId) : Except Fault Node :=
  match s.node n with
  | none => .error (.node n)
  | some y => .ok y

/-- What `kernel_malloc` and the stores after it make of a handle. -/
def newHandle (s : System) (h : HandleId) (x : FileHandle) : System :=
  { s.setHandle h x with handles := h :: s.handles }

def newNode (s : System) (n : NodeId) (y : Node) (k : Keeper) : System :=
  { (s.setNode n y).setWaiters n [] with keeper := update s.keeper n k }

@[simp] theorem newHandle_tids (s : System) (h : HandleId) (x : FileHandle) : (s.newHandle h x).tids = s.tids := rfl

@[simp] theorem newNode_tids (s : System) (n : NodeId) (y : Node) (k : Keeper) : (s.newNode n y k).tids = s.tids := rfl

def freeHandle (s : System) (h : HandleId) : Except Fault System := do
  let _ ← s.getHandle h
  return { s with handle := update s.handle h none, handles := s.handles.erase h }

def freeNode (s : System) (n : NodeId) : Except Fault System := do
  let _ ← s.getNode n
  return { s with
    node := update s.node n none
    keeper := update s.keeper n .caller }

end System

/-! ## Nodes -/

/-- What a path leads to: a node that is in memory, or one that `finddir` makes of an entry
on the disk. -/
inductive Found where
  | none
  | kept (n : NodeId)
  | made (n : NodeId) (y : Files.VfsNode)

def vfsOpen (s : System) : Found → Except Fault (Option NodeId × System)
  | .none => return (none, s)
  | .kept n => do
    let y ← s.getNode n
    return (some n, s.setNode n { y with refcount := y.refcount + 1 })
  | .made n y => return (some n, s.newNode n { y with refcount := 1 } .caller)

def vfsClose (s : System) : Option NodeId → Except Fault System
  | none => return s
  | some n => do
    let y ← s.getNode n
    let s := s.setNode n { y with refcount := y.refcount - 1 }
    if y.refcount - 1 = 0 ∧ y.isDisk then s.freeNode n else return s

/-- A new node starts with one reference. That of a disk file belongs to the handle, that of
a file in memory stays with its directory. -/
structure Created where
  id : NodeId
  node : Files.VfsNode
  onDisk : Bool

def vfsCreate (s : System) (c : Option Created) : Option NodeId × System :=
  match c with
  | none => (none, s)
  | some c =>
    (some c.id, s.newNode c.id { c.node with refcount := 1 } (if c.onDisk then .caller else .fileSystem 0))

/-! ## Descriptors -/

def allocFd (s : System) (t : Tid) (h : HandleId) : Except Fault (Option (Nat × System)) :=
  match (List.range fdMax).find? fun i => (s.fdTable (t, i)).isNone with
  | none => return none
  | some i => do
    let x ← s.getHandle h
    return some (i, (s.setFd t i (some h)).setHandle h { x with refcount := x.refcount + 1 })

/-- What becomes of the node when the last descriptor goes. Closing a socket wakes the tasks
that wait for a connection. -/
def closeNode (s : System) : Option NodeId → Except Fault System
  | none => return s
  | some n => do
    let y ← s.getNode n
    if y.isChannel then
      (s.setWaiters n []).freeNode n
    else vfsClose s (some n)

def closeFd (s : System) (t : Tid) (fd : Nat) : Except Fault System :=
  if fdMax ≤ fd then return s
  else match s.fdTable (t, fd) with
    | none => return s
    | some h => do
      let x ← s.getHandle h
      let s := s.setHandle h { x with refcount := x.refcount - 1 }
      if x.refcount - 1 = 0 then
        let s ← closeNode s x.node
        let s ← s.freeHandle h
        return s.setFd t fd none
      else return s.setFd t fd none

/-! ## `sys_open` -/

/-- `parent` is the directory a new file is to go to, `truncate` what the driver answers, and
`zero` what is read where a node at address zero would be. -/
structure OpenInput where
  flags : BitVec 32
  absPath : Bool
  found : Found
  parent : Option Files.VfsNode
  created : Option Created
  truncate : Int
  zero : Files.VfsNode
  malloc : Option HandleId

def OpenInput.read (r : OpenInput) (s : System) : Option NodeId → Except Fault Files.VfsNode
  | none => return r.zero
  | some n => do
    let y ← s.getNode n
    return y.toVfsNode

def openHandle (s : System) (t : Tid) (node : Option NodeId) (r : OpenInput) : Except Fault System :=
  match r.malloc with
  | none => do
    let s ← vfsClose s node
    return s.ret t (-eio)
  | some h => do
    let y ← r.read s node
    let s := s.newHandle h
      { node := node, flags := r.flags, offset := if r.flags &&& oAppend ≠ 0 then y.size else 0, refcount := 0 }
    match ← allocFd s t h with
    | none =>
      let s ← vfsClose s node
      let s ← s.freeHandle h
      return s.ret t (-eio)
    | some (fd, s) => return s.ret t fd

/-- `vfs_truncate` to nothing; a node at address zero is refused. -/
def truncated (s : System) (node : Option NodeId) (r : OpenInput) : Except Fault (Int × System) :=
  match node with
  | none => return (-1, s)
  | some n =>
    if r.truncate ≠ 0 then return (r.truncate, s)
    else do
      let y ← s.getNode n
      return (0, s.setNode n { y with size := 0 })

/-- From the label `nodeCreated` on. -/
def nodeCreated (s : System) (t : Tid) (node : Option NodeId) (r : OpenInput) : Except Fault System :=
  if r.flags &&& oTrunc ≠ 0 ∧ r.flags &&& 3 ≠ oRdonly then do
    let y ← r.read s node
    if y.flags &&& vfsFlagFile ≠ 0 then
      let (v, s) ← truncated s node r
      if v ≠ 0 then
        let s ← vfsClose s node
        return s.ret t (-enosys)
      else openHandle s t node r
    else openHandle s t node r
  else openHandle s t node r

/-- What is checked of a node that was found. -/
def checkOpened (s : System) (t : Tid) (n : NodeId) (r : OpenInput) : Except Fault System :=
  if r.flags &&& oCreat ≠ 0 ∧ r.flags &&& oExcl ≠ 0 then do
    let s ← vfsClose s (some n)
    return s.ret t (-eexist)
  else do
    let y ← s.getNode n
    let want := Files.wanted r.flags
    if want ≠ 0 ∧ Files.vfsCheckPermission y.toVfsNode (s.cred t) want ≠ 0 then
      let s ← vfsClose s (some n)
      return s.ret t (-eacces)
    else nodeCreated s t (some n) r

def sysOpen (s : System) (t : Tid) (r : OpenInput) : Except Fault System :=
  if r.absPath = false then return s.ret t (-enametoolong)
  else do
    match ← vfsOpen s r.found with
    | (none, s) =>
      if r.flags &&& oCreat ≠ 0 then
        if r.parent.any fun p => Files.vfsCheckDirWrite p (s.cred t) != 0 then return s.ret t (-eacces)
        else
          let (node, s) := vfsCreate s r.created
          nodeCreated s t node r
      else return s.ret t (-enoent)
    | (some n, s) => checkOpened s t n r

/-! ## Closing and sharing -/

/-- A negative descriptor reads a word before the table, and `close_fd` turns it down. -/
def sysClose (s : System) (t : Tid) (fd : Int) (wordBefore : Bool) : Except Fault System :=
  if fd < 0 then return if wordBefore then s else s.ret t (-ebadf)
  else if fdMax ≤ fd ∨ s.fdTable (t, fd.toNat) = none then return s.ret t (-ebadf)
  else closeFd s t fd.toNat

/-- A negative `newfd` asks for any. -/
def sysDup (s : System) (t : Tid) (oldfd newfd : Int) : Except Fault System :=
  if oldfd < 0 ∨ fdMax ≤ oldfd then return s.ret t (-ebadf)
  else match s.fdTable (t, oldfd.toNat) with
    | none => return s.ret t (-ebadf)
    | some h =>
      if newfd < 0 then do
        match ← allocFd s t h with
        | none => return s.ret t (-1)
        | some (fd, s) => return s.ret t fd
      else if fdMax ≤ newfd then return s.ret t (-ebadf)
      else if newfd = oldfd then return s.ret t newfd
      else do
        let s ← closeFd s t newfd.toNat
        let s := s.setFd t newfd.toNat (s.fdTable (t, oldfd.toNat))
        let x ← s.getHandle h
        return (s.setHandle h { x with refcount := x.refcount + 1 }).ret t newfd

/-! ## Pipes and sockets -/

def channelNode (c : Cred) (flags mode : BitVec 32) : Node :=
  { size := 0, flags := vfsFlagFile ||| flags, uid := c.euid, gid := c.egid, mode := mode, refcount := 0 }

def sIfifo : BitVec 32 := 0x1000
def sIfsock : BitVec 32 := 0xC000

structure Memory where
  node : NodeId
  handle : HandleId

/-- The user's address, and what the allocations and the copy give. Where one allocation fails
the others are freed. -/
structure PipeInput where
  addrOk : Bool
  memory : Option (Memory × Memory)
  copyOk : Bool

/-- Two nodes and two handles, filled in. -/
def newPipe (s : System) (t : Tid) (rd wr : Memory) : System :=
  let node := channelNode (s.cred t) vfsFlagPipe (sIfifo ||| 0x180)
  (((s.newNode rd.node node .caller).newNode wr.node node .caller).newHandle rd.handle
    ⟨some rd.node, oRdonly, 0, 0⟩).newHandle wr.handle ⟨some wr.node, oWronly, 0, 0⟩

def sysPipe (s : System) (t : Tid) (r : PipeInput) : Except Fault System :=
  if r.addrOk = false then return s.ret t (-efault)
  else match r.memory with
    | none => return s.ret t (-enomem)
    | some (rd, wr) => do
      let s := newPipe s t rd wr
      match ← allocFd s t rd.handle with
      | none =>
        let s ← s.freeHandle rd.handle
        let s ← s.freeHandle wr.handle
        let s ← s.freeNode rd.node
        let s ← s.freeNode wr.node
        return s.ret t (-emfile)
      | some (readFd, s) =>
        match ← allocFd s t wr.handle with
        | none =>
          let s ← closeFd s t readFd
          let s ← s.freeHandle wr.handle
          let s ← s.freeNode wr.node
          return s.ret t (-emfile)
        | some (writeFd, s) =>
          if r.copyOk then return s.ret t 0
          else
            let s ← closeFd s t readFd
            let s ← closeFd s t writeFd
            return s.ret t (-efault)

def sockMakeFdFor (s : System) (t : Tid) (m : Option Memory) : Except Fault (Int × System) :=
  match m with
  | none => return (-enomem, s)
  | some m => do
    let s := s.newNode m.node (channelNode (s.cred t) vfsFlagSocket (sIfsock ||| 0x180)) .caller
    let s := s.newHandle m.handle ⟨some m.node, oRdwr, 0, 0⟩
    match ← allocFd s t m.handle with
    | none =>
      let s ← s.freeHandle m.handle
      let s ← s.freeNode m.node
      return (-emfile, s)
    | some (fd, s) => return (fd, s)

/-- Memory for the socket, and for its descriptor. -/
structure SockMemory where
  sock : Bool
  fd : Option Memory

def sysSocket (s : System) (t : Tid) (domain type : Nat) (m : SockMemory) : Except Fault System :=
  if domain ≠ afUnix then return s.ret t (-eafnosupport)
  else if type ≠ sockStream ∧ type ≠ sockDgram then return s.ret t (-eprototype)
  else if m.sock = false then return s.ret t (-enomem)
  else do
    let (fd, s) ← sockMakeFdFor s t m.fd
    return s.ret t fd

def sockFromFd (s : System) (t : Tid) (fd : Int) : Except Fault (Option NodeId) :=
  if fd < 0 ∨ fdMax ≤ fd then return none
  else match s.fdTable (t, fd.toNat) with
    | none => return none
    | some h => do
      let x ← s.getHandle h
      match x.node with
      | none => return none
      | some n =>
        let y ← s.getNode n
        return if y.isSocket then some n else none

def sockAcceptDeliver (s : System) (t : Tid) (m : SockMemory) : Except Fault System :=
  if m.sock = false then return s.ret t (-enomem)
  else do
    let (fd, s) ← sockMakeFdFor s t m.fd
    return s.ret t fd

/-- Whether the socket listens, and whether a client is waiting. -/
structure AcceptInput where
  listening : Bool
  pending : Bool
  memory : SockMemory

def sysAccept (s : System) (t : Tid) (fd : Int) (r : AcceptInput) : Except Fault System := do
  match ← sockFromFd s t fd with
  | none => return s.ret t (-enotsock)
  | some n =>
    if r.listening = false then return s.ret t (-einval)
    else if r.pending then sockAcceptDeliver s t r.memory
    else return s.setWaiters n (s.acceptWaiters n ++ [t])

/-- The listener with room that the address names, or why there is none. -/
structure ConnectInput where
  listener : Except Int NodeId
  memory : SockMemory

def sysConnect (s : System) (t : Tid) (fd : Int) (r : ConnectInput) : Except Fault System := do
  match ← sockFromFd s t fd with
  | none => return s.ret t (-enotsock)
  | some _ =>
    match r.listener with
    | .error v => return s.ret t v
    | .ok n =>
      match s.acceptWaiters n with
      | [] => return s
      | w :: ws =>
        let s ← sockAcceptDeliver (s.setWaiters n ws) w r.memory
        return s.ret t 0

/-! ## Fork and exit -/

def shareFd (child : Tid) (s : System) (fd : Nat) : Except Fault System :=
  match s.fdTable (child, fd) with
  | none => return s
  | some h => do
    let x ← s.getHandle h
    return s.setHandle h { x with refcount := x.refcount + 1 }

def taskFork (s : System) (parent child : Tid) : Except Fault System :=
  (List.range fdMax).foldlM (shareFd child)
    { s with
      tids := child :: s.tids
      cred := update s.cred child (s.cred parent)
      fdTable := fun p => if p.1 = child then s.fdTable (parent, p.2) else s.fdTable p }

def taskExit (s : System) (t : Tid) : Except Fault System := do
  let s ← (List.range fdMax).foldlM (fun s fd => closeFd s t fd) s
  return { s with tids := s.tids.erase t }

/-! ## The system -/

inductive Op where
  | open (t : Tid) (r : OpenInput)
  | close (t : Tid) (fd : Int) (wordBefore : Bool)
  | dup (t : Tid) (oldfd newfd : Int)
  | pipe (t : Tid) (r : PipeInput)
  | socket (t : Tid) (domain type : Nat) (m : SockMemory)
  | accept (t : Tid) (fd : Int) (r : AcceptInput)
  | connect (t : Tid) (fd : Int) (r : ConnectInput)
  | fork (t child : Tid)
  | exit (t : Tid)

namespace Op

def task : Op → Tid
  | .open t _ | .close t _ _ | .dup t _ _ | .pipe t _ | .socket t _ _ _ | .accept t _ _ | .connect t _ _
  | .fork t _ | .exit t => t

def run (s : System) : Op → Except Fault System
  | .open t r => sysOpen s t r
  | .close t fd b => sysClose s t fd b
  | .dup t oldfd newfd => sysDup s t oldfd newfd
  | .pipe t r => sysPipe s t r
  | .socket t domain type m => sysSocket s t domain type m
  | .accept t fd r => sysAccept s t fd r
  | .connect t fd r => sysConnect s t fd r
  | .fork t child => taskFork s t child
  | .exit t => taskExit s t

end Op

/-- `kernel_malloc` gives memory that is not in use. -/
def Memory.Fresh (s : System) (m : Memory) : Prop := s.node m.node = none ∧ s.handle m.handle = none

/-- The file systems make nodes of the kinds they have: the node of a disk file is marked, and
a node they keep is not made anew. -/
def OpenInput.Fits (s : System) (r : OpenInput) : Prop :=
  (match r.found with
    | .none => True
    | .kept n => s.keeper n ≠ .caller
    | .made n y => s.node n = none ∧
      y.flags &&& (vfsFlagPipe ||| vfsFlagSocket) = 0 ∧ y.flags &&& vfsFlagDiskio ≠ 0) ∧
  (∀ c ∈ r.created, s.node c.id = none ∧ c.node.flags &&& (vfsFlagPipe ||| vfsFlagSocket) = 0 ∧
    (c.node.flags &&& vfsFlagDiskio ≠ 0 ↔ c.onDisk)) ∧
  ∀ h ∈ r.malloc, s.handle h = none

def Op.Fits (s : System) : Op → Prop
  | .open _ r => r.Fits s
  | .pipe _ r => ∀ m ∈ r.memory, m.1.Fresh s ∧ m.2.Fresh s ∧ m.1.node ≠ m.2.node ∧ m.1.handle ≠ m.2.handle
  | .socket _ _ _ m => ∀ x ∈ m.fd, x.Fresh s
  | .accept _ _ r => ∀ x ∈ r.memory.fd, x.Fresh s
  | .connect _ _ r => ∀ x ∈ r.memory.fd, x.Fresh s
  | .fork _ child => child ∉ s.tids
  | .exit t => t ≠ initPid
  | .close .. | .dup .. => True

/-- A task makes a call when it lives and does not wait for a connection. -/
def Op.Enabled (s : System) (op : Op) : Prop :=
  op.task ∈ s.tids ∧ (∀ n, op.task ∉ s.acceptWaiters n) ∧ op.Fits s

def Step (s s' : System) : Prop := ∃ op : Op, op.Enabled s ∧ op.run s = .ok s'

/-- The nodes there are when the first task starts, none of them made for a handle. -/
def BootNode (k : Keeper) (y : Option Node) : Prop :=
  match k with
  | .caller => y = none
  | .fileSystem own => ∃ y' ∈ y, y'.isChannel = false ∧ y'.refcount = own ∧ (y'.isDisk → 0 < own)
  | .terminal => ∃ y' ∈ y, y'.isChannel = false ∧ y'.isDisk = false

/-- Before the first task has descriptors. -/
structure Bare (s : System) : Prop where
  tids : s.tids = [initPid]
  fdTable : ∀ p, s.fdTable p = none
  handle : ∀ h, s.handle h = none
  handles : s.handles = []
  waiters : ∀ n, s.acceptWaiters n = []
  nodes : ∀ n, BootNode (s.keeper n) (s.node n)

def bootFd (s : System) (fd : Nat) (h : HandleId) (slave : NodeId) (flags : BitVec 32) : System :=
  (s.newHandle h ⟨some slave, flags, 0, 1⟩).setFd initPid fd (some h)

/-- The first task is given the slave of the first terminal three times. -/
def Boot (s : System) : Prop :=
  ∃ s₀ slave h₀ h₁ h₂, Bare s₀ ∧ s₀.keeper slave = .terminal ∧ [h₀, h₁, h₂].Nodup ∧
    s = bootFd (bootFd (bootFd s₀ 0 h₀ slave oRdonly) 1 h₁ slave oWronly) 2 h₂ slave oWronly

abbrev Reachable : System → Prop := Run.Reachable Boot Step

end Serotonin.Handles
