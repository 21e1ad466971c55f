import Serotonin.Files.Model
import Serotonin.Handles.Counts
import Serotonin.Lib.RefCount
import Serotonin.Lib.Run

/-! The life of a terminal: the table of `pty.c`, whose slots are taken by
`sys_5ht_pty_open` and given back when the last side is closed, and the descriptors that
lead to its two sides. A slave can also be opened by its name below `/dev/pts`, which stays
when the slot is given back. -/

namespace Serotonin.PtyTable

open Function
open Files (Tid HandleId fdMax oCreat oExcl oTrunc oRdonly ebadf eexist eacces enosys eio enomem efault)
open Handles (slots emfile initPid)
open RefCount

def ptyMax : Nat := 16
def numKernelVtys : Nat := 4

inductive Side where
  | slave
  | master
deriving DecidableEq

/-- The nodes a handle can be open on: the two of a terminal, the one `devfs` has for its
name, and any other. -/
inductive Node where
  | slave (q : Nat)
  | master (q : Nat)
  | device (q : Nat)
  | other
deriving DecidableEq

/-- The terminal and the side that a node leads to. Both slave nodes lead to one side. -/
def Node.side : Node → Option (Nat × Side)
  | .slave q | .device q => some (q, .slave)
  | .master q => some (q, .master)
  | .other => none

structure Pty where
  allocated : Bool
  kernelVty : Bool
  slaveNode : Option Node
  masterNode : Option Node
  slaveRefcount : Nat
  masterRefcount : Nat

namespace Pty

def refcount (p : Pty) : Side → Nat
  | .slave => p.slaveRefcount
  | .master => p.masterRefcount

/-- A count is never taken below zero. -/
def drop (p : Pty) : Side → Pty
  | .slave => { p with slaveRefcount := p.slaveRefcount - 1 }
  | .master => { p with masterRefcount := p.masterRefcount - 1 }

/-- `pty_free` on the slot. -/
def free (p : Pty) : Pty :=
  if p.allocated = false then p
  else if p.kernelVty then p
  else { p with allocated := false, kernelVty := false }

/-- `pty_slave_close` and `pty_master_close` on the slot. -/
def close (p : Pty) (side : Side) : Pty :=
  let p := p.drop side
  if p.slaveRefcount = 0 ∧ p.masterRefcount = 0 then p.free else p

end Pty

structure Handle where
  node : Option Node
  flags : BitVec 32
  refcount : Nat

def Handle.side (x : Handle) : Option (Nat × Side) := x.node.bind Node.side

/-- `handles` lists the handles that are not freed; it is no variable of the source.
`registered` tells which names there are below `/dev/pts`. -/
structure System where
  tids : List Tid
  fdTable : Tid × Nat → Option HandleId
  handle : HandleId → Handle
  handles : List HandleId
  pty : Nat → Pty
  registered : Nat → Bool
  eax : Tid → Int

namespace System

def ret (s : System) (t : Tid) (v : Int) : System := { s with eax := update s.eax t v }

def setFd (s : System) (t : Tid) (fd : Nat) (h : Option HandleId) : System :=
  { s with fdTable := update s.fdTable (t, fd) h }

def setHandle (s : System) (h : HandleId) (x : Handle) : System :=
  { s with handle := update s.handle h x }

def setPty (s : System) (q : Nat) (p : Pty) : System := { s with pty := update s.pty q p }

end System

/-! ## The table -/

def ptyFree (s : System) (q : Nat) : System := s.setPty q (s.pty q).free

/-- Whether there is memory for the nodes and for an entry of `/dev/pts`. -/
structure AllocInput where
  slaveNode : Bool
  masterNode : Bool
  entry : Bool

/-- `pty_alloc`. A name that is there already gets the terminal as it stands. -/
def ptyAlloc (s : System) (r : AllocInput) : Option (Nat × System) :=
  match (List.range' numKernelVtys (ptyMax - numKernelVtys)).find? fun q => !(s.pty q).allocated with
  | none => none
  | some q =>
    let p : Pty :=
      { allocated := true
        kernelVty := false
        slaveNode := if r.slaveNode then some (.slave q) else none
        masterNode := if r.masterNode then some (.master q) else none
        slaveRefcount := 1
        masterRefcount := 1 }
    some (q, { s.setPty q p with
      registered := update s.registered q (s.registered q || r.entry) })

/-- The node's `close`: `devfs_close` passes it on, and other nodes do not concern a
terminal. -/
def vfsClose (s : System) (n : Option Node) : System :=
  match n.bind Node.side with
  | none => s
  | some (q, side) => s.setPty q ((s.pty q).close side)

/-! ## Descriptors -/

/-- `alloc_fd` on a handle that has just been filled in. -/
def allocFd (s : System) (t : Tid) (h : HandleId) (x : Handle) : Option (Nat × System) :=
  match (List.range fdMax).find? fun i => (s.fdTable (t, i)).isNone with
  | none => none
  | some i =>
    some (i, { (s.setFd t i (some h)).setHandle h { x with refcount := x.refcount + 1 } with
      handles := h :: s.handles })

def closeFd (s : System) (t : Tid) (fd : Nat) : System :=
  if fdMax ≤ fd then s
  else match s.fdTable (t, fd) with
    | none => s
    | some h =>
      let x := s.handle h
      let s := s.setHandle h { x with refcount := x.refcount - 1 }
      if x.refcount - 1 = 0 then
        let s := vfsClose s x.node
        { s with handles := s.handles.erase h }.setFd t fd none
      else s.setFd t fd none

/-! ## Calls -/

structure PtyOpenInput where
  addrOk : Bool
  alloc : AllocInput
  malloc : Option (HandleId × HandleId)
  copyOk : Bool

/-- `sys_5ht_pty_open`; the first address is the master's. -/
def sysPtyOpen (s : System) (t : Tid) (r : PtyOpenInput) : System :=
  if r.addrOk = false then s.ret t (-efault)
  else match ptyAlloc s r.alloc with
    | none => s.ret t (-enomem)
    | some (q, s) =>
      match r.malloc with
      | none => (ptyFree s q).ret t (-enomem)
      | some (m, l) =>
        match allocFd s t m { node := (s.pty q).masterNode, flags := Files.oRdwr, refcount := 0 } with
        | none => (ptyFree s q).ret t (-emfile)
        | some (masterFd, s) =>
          match allocFd s t l { node := (s.pty q).slaveNode, flags := Files.oRdwr, refcount := 0 } with
          | none => (ptyFree (closeFd s t masterFd) q).ret t (-emfile)
          | some (slaveFd, s) =>
            if r.copyOk then s.ret t 0
            else (closeFd (closeFd s t masterFd) t slaveFd).ret t (-efault)

/-- `node` has the owner and the mode of the device, and `malloc` the new handle. -/
structure OpenInput where
  flags : BitVec 32
  cred : Files.Cred
  node : Files.VfsNode
  malloc : Option HandleId

/-- `sys_open` on the name of a slave. `devfs_open` has nothing to call, and a device cannot be
truncated. -/
def sysOpenSlave (s : System) (t : Tid) (q : Nat) (r : OpenInput) : System :=
  let refuse (v : Int) : System := (vfsClose s (some (.device q))).ret t (-v)
  let want := Files.wanted r.flags
  if r.flags &&& oCreat ≠ 0 ∧ r.flags &&& oExcl ≠ 0 then refuse eexist
  else if want ≠ 0 ∧ Files.vfsCheckPermission r.node r.cred want ≠ 0 then refuse eacces
  else if r.flags &&& oTrunc ≠ 0 ∧ r.flags &&& 3 ≠ oRdonly then refuse enosys
  else match r.malloc with
    | none => refuse eio
    | some h =>
      match allocFd s t h { node := some (.device q), flags := r.flags, refcount := 0 } with
      | none => refuse eio
      | some (fd, s) => s.ret t fd

/-- A descriptor for anything else. -/
def sysOpenOther (s : System) (t : Tid) (flags : BitVec 32) (h : HandleId) : System :=
  match allocFd s t h { node := some .other, flags := flags, refcount := 0 } with
  | none => s.ret t (-eio)
  | some (fd, s) => s.ret t fd

/-- A negative descriptor reads a word before the table, and `close_fd` turns it down. -/
def sysClose (s : System) (t : Tid) (fd : Int) (wordBefore : Bool) : System :=
  if fd < 0 then if wordBefore then s else s.ret t (-ebadf)
  else if fdMax ≤ fd ∨ s.fdTable (t, fd.toNat) = none then s.ret t (-ebadf)
  else closeFd s t fd.toNat

/-- One more descriptor for a handle. -/
def share (s : System) (t : Tid) (fd : Nat) (h : HandleId) : System :=
  (s.setFd t fd (some h)).setHandle h { s.handle h with refcount := (s.handle h).refcount + 1 }

/-- A negative `newfd` asks for any. -/
def sysDup (s : System) (t : Tid) (oldfd newfd : Int) : System :=
  if oldfd < 0 ∨ fdMax ≤ oldfd then s.ret t (-ebadf)
  else match s.fdTable (t, oldfd.toNat) with
    | none => s.ret t (-ebadf)
    | some h =>
      if newfd < 0 then
        match (List.range fdMax).find? fun i => (s.fdTable (t, i)).isNone with
        | none => s.ret t (-1)
        | some i => (share s t i h).ret t i
      else if fdMax ≤ newfd then s.ret t (-ebadf)
      else if newfd = oldfd then s.ret t newfd
      else (share (closeFd s t newfd.toNat) t newfd.toNat h).ret t newfd

/-- Every descriptor of the child is one more for its handle. -/
def taskFork (s : System) (parent child : Tid) : System :=
  (List.range fdMax).foldl
    (fun s fd => match s.fdTable (parent, fd) with
      | none => s
      | some h => share s child fd h)
    { s with tids := child :: s.tids, fdTable := fun p => if p.1 = child then none else s.fdTable p }

def taskExit (s : System) (t : Tid) : System :=
  let s := (List.range fdMax).foldl (fun s fd => closeFd s t fd) s
  { s with tids := s.tids.erase t }

/-! ## The system -/

inductive Op where
  | ptyOpen (t : Tid) (r : PtyOpenInput)
  | openSlave (t : Tid) (q : Nat) (r : OpenInput)
  | openOther (t : Tid) (flags : BitVec 32) (h : HandleId)
  | close (t : Tid) (fd : Int) (wordBefore : Bool)
  | dup (t : Tid) (oldfd newfd : Int)
  | fork (t child : Tid)
  | exit (t : Tid)

namespace Op

def task : Op → Tid
  | .ptyOpen t _ | .openSlave t _ _ | .openOther t _ _ | .close t _ _ | .dup t _ _ | .fork t _ | .exit t => t

def run (s : System) : Op → System
  | .ptyOpen t r => sysPtyOpen s t r
  | .openSlave t q r => sysOpenSlave s t q r
  | .openOther t flags h => sysOpenOther s t flags h
  | .close t fd b => sysClose s t fd b
  | .dup t oldfd newfd => sysDup s t oldfd newfd
  | .fork t child => taskFork s t child
  | .exit t => taskExit s t

/-- `kernel_malloc` gives memory that is not in use, and a name is found when it is there. -/
def Fits (s : System) : Op → Prop
  | .ptyOpen _ r => ∀ p ∈ r.malloc, p.1 ∉ s.handles ∧ p.2 ∉ s.handles ∧ p.1 ≠ p.2
  | .openSlave _ q r => s.registered q ∧ ∀ h ∈ r.malloc, h ∉ s.handles
  | .openOther _ _ h => h ∉ s.handles
  | .fork _ child => child ∉ s.tids
  | .close .. | .dup .. | .exit .. => True

end Op

def Step (op : Op) (s s' : System) : Prop := op.task ∈ s.tids ∧ op.Fits s ∧ s' = op.run s

/-- After `pty_init`: the kernel holds the slave side of its own terminals, and no other slot
is taken. -/
structure Boot (s : System) : Prop where
  tids : s.tids.Nodup
  fdTable : ∀ p, s.fdTable p = none
  handles : s.handles = []
  kernel : ∀ q < numKernelVtys, (s.pty q).allocated ∧ (s.pty q).kernelVty ∧
    (s.pty q).slaveRefcount = 1 ∧ (s.pty q).masterRefcount = 0
  user : ∀ q, numKernelVtys ≤ q → (s.pty q).allocated = false ∧ (s.pty q).kernelVty = false

def Reachable : System → Prop := Run.Reachable Boot fun s s' => ∃ op, Step op s s'

end Serotonin.PtyTable
