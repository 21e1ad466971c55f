import Mathlib.Algebra.Group.Nat.Defs
import Mathlib.Logic.Function.Basic

/-! Open files: `sys_open`, `sys_read`, `sys_write` and the calls around them in
`kernel/syscall/syscall.c`, the checks of `vfs_perm.c` and the descriptors of `user_fs.c`.
What the file system under a node answers is an argument of each call. -/

namespace Serotonin.Files

open Function

abbrev Tid := Nat
abbrev NodeId := Nat
abbrev HandleId := Nat

def fdMax : Nat := 64
def ngroupsMax : Nat := 16
def readStdin : Nat := 0
def writeStdout : Nat := 1
def writeStderr : Nat := 2
def seekSet : Nat := 0
def seekCur : Nat := 1
def seekEnd : Nat := 2

def permRead : BitVec 32 := 4
def permWrite : BitVec 32 := 2
def permExec : BitVec 32 := 1

def oRdonly : BitVec 32 := 0
def oWronly : BitVec 32 := 1
def oRdwr : BitVec 32 := 2
def oAppend : BitVec 32 := 0x8
def oCreat : BitVec 32 := 0x200
def oTrunc : BitVec 32 := 0x400
def oExcl : BitVec 32 := 0x800

def sIfmt : BitVec 32 := 0xF000
def sIsuid : BitVec 32 := 0x800
def sIsgid : BitVec 32 := 0x400

def vfsFlagFile : BitVec 32 := 0x1
def vfsFlagDiskio : BitVec 32 := 0x20

def eperm : Int := 1
def enoent : Int := 2
def eio : Int := 5
def ebadf : Int := 9
def enomem : Int := 12
def eacces : Int := 13
def efault : Int := 14
def eexist : Int := 17
def einval : Int := 22
def enosys : Int := 88
def enametoolong : Int := 91

structure VfsNode where
  size : Nat
  flags : BitVec 32
  uid : Nat
  gid : Nat
  mode : BitVec 32

/-- What a task may do, of its control block. -/
structure Cred where
  uid : Nat
  gid : Nat
  euid : Nat
  egid : Nat
  groups : List Nat

/-- `file_handle_t`; the node is missing when `vfs_create` found no place for a new file. -/
structure FileHandle where
  node : Option NodeId
  flags : BitVec 32
  offset : Nat
  refcount : Nat

/-- A call that was let through: it succeeded, or it was handed to the disk worker, which
makes no check of its own. -/
inductive Access where
  | read (handle : HandleId)
  | write (handle : HandleId)
  | truncate (node : NodeId)
deriving DecidableEq

structure DiskWork where
  task : Tid
  handle : HandleId
  isRead : Bool
  flags : BitVec 32

/-- A handle is known by when it was made, the address being used again. The log, newest
first, is no variable of the source. -/
structure FileState where
  node : NodeId → VfsNode
  handle : HandleId → Option FileHandle
  nextHandle : HandleId
  cred : Tid → Cred
  fdTable : Tid → Nat → Option HandleId
  current : Tid
  errno : Int
  eax : Tid → Int
  work : List DiskWork
  log : List Access

namespace FileState

def proc (s : FileState) : Cred := s.cred s.current

def fail (s : FileState) (e : Int) : FileState := { s with errno := -e }

def record (s : FileState) (a : Access) : FileState := { s with log := a :: s.log }

def modifyHandle (s : FileState) (h : HandleId) (f : FileHandle → FileHandle) : FileState :=
  { s with handle := update s.handle h ((s.handle h).map f) }

def setFd (s : FileState) (t : Tid) (fd : Nat) (h : Option HandleId) : FileState :=
  { s with fdTable := update s.fdTable t (update (s.fdTable t) fd h) }

def modifyCred (s : FileState) (f : Cred → Cred) : FileState :=
  { s with cred := update s.cred s.current (f s.proc), errno := 0 }

def modifyNode (s : FileState) (n : NodeId) (f : VfsNode → VfsNode) : FileState :=
  { s with node := update s.node n (f (s.node n)) }

end FileState

/-! ## Permissions -/

def procInGroup (proc : Cred) (gid : Nat) : Bool := proc.egid == gid || proc.groups.contains gid

def vfsCheckPermission (node : VfsNode) (proc : Cred) (want : BitVec 32) : Int :=
  if proc.euid = 0 then 0
  else if node.mode = 0 then 0
  else
    let perm :=
      if proc.euid = node.uid then node.mode >>> 6 &&& 7
      else if procInGroup proc node.gid then node.mode >>> 3 &&& 7
      else node.mode &&& 7
    if perm &&& want = want then 0 else -1

def vfsCheckDirWrite (dir : VfsNode) (proc : Cred) : Int :=
  vfsCheckPermission dir proc (permWrite ||| permExec)

/-! ## Descriptors -/

/-- `refcount` counts the descriptors that share the handle. -/
def allocFd (s : FileState) (t : Tid) (h : HandleId) : Option (Nat × FileState) :=
  ((List.range fdMax).find? fun i => (s.fdTable t i).isNone).map fun i =>
    (i, (s.setFd t i (some h)).modifyHandle h fun x => { x with refcount := x.refcount + 1 })

/-- With the last descriptor the handle is freed. What closing does to the node is left
out. -/
def closeFd (s : FileState) (t : Tid) (fd : Nat) : FileState :=
  match s.fdTable t fd with
  | none => s
  | some h =>
    let freed := (s.handle h).any fun x => x.refcount - 1 == 0
    let s :=
      if freed then { s with handle := update s.handle h none }
      else s.modifyHandle h fun x => { x with refcount := x.refcount - 1 }
    s.setFd t fd none

/-! ## `sys_open` -/

/-- The flags, and what the path leads to. `opened` is what `vfs_open` finds, and the rest
is used in turn: the directory and the new node, the truncation, and the memory for the
handle. -/
structure OpenInput where
  flags : BitVec 32
  absPath : Bool
  opened : Option NodeId
  parent : Option NodeId
  created : Option (NodeId × VfsNode)
  truncate : Int
  malloc : Bool

def wanted (flags : BitVec 32) : BitVec 32 :=
  let acc := flags &&& 3
  (if acc = oRdonly ∨ acc = oRdwr then permRead else 0) |||
    (if acc = oWronly ∨ acc = oRdwr then permWrite else 0)

/-- The handle and its descriptor. There is no result where a NULL node is read. -/
def openHandle (s : FileState) (node : Option NodeId) (r : OpenInput) : Option FileState :=
  if r.malloc = false then some (s.fail eio)
  else
    let offset := if r.flags &&& oAppend ≠ 0 then node.map fun n => (s.node n).size else some 0
    offset.map fun offset =>
      let x : FileHandle := { node := node, flags := r.flags, offset := offset, refcount := 0 }
      let s' : FileState :=
        { s with handle := update s.handle s.nextHandle (some x), nextHandle := s.nextHandle + 1 }
      match allocFd s' s.current s.nextHandle with
      | none => s.fail eio
      | some (fd, s') => { s' with errno := fd }

/-- From the label `nodeCreated` on. -/
def nodeCreated (s : FileState) (node : Option NodeId) (r : OpenInput) : Option FileState :=
  if r.flags &&& oTrunc ≠ 0 ∧ r.flags &&& 3 ≠ oRdonly then
    node.bind fun n =>
      if (s.node n).flags &&& vfsFlagFile ≠ 0 then
        if r.truncate ≠ 0 then some (s.fail enosys)
        else openHandle ((s.modifyNode n fun x => { x with size := 0 }).record (.truncate n)) node r
      else openHandle s node r
  else openHandle s node r

def sysOpen (s : FileState) (r : OpenInput) : Option FileState :=
  if r.absPath = false then some (s.fail enametoolong)
  else match r.opened with
    | none =>
      if r.flags &&& oCreat ≠ 0 then
        if r.parent.any fun p => vfsCheckDirWrite (s.node p) s.proc != 0 then some (s.fail eacces)
        else match r.created with
          | none => nodeCreated s none r
          | some (n, x) => nodeCreated (s.modifyNode n fun _ => x) (some n) r
      else some (s.fail enoent)
    | some n =>
      if r.flags &&& oCreat ≠ 0 ∧ r.flags &&& oExcl ≠ 0 then some (s.fail eexist)
      else if wanted r.flags ≠ 0 ∧ vfsCheckPermission (s.node n) s.proc (wanted r.flags) ≠ 0 then
        some (s.fail eacces)
      else nodeCreated s (some n) r

/-! ## Reading and writing -/

/-- The answers to a read or a write: of `kernel_malloc`, of the driver, with the size the
node has then, of the copy from or to the user's buffer; and whether the queue of the disk
worker is full. -/
structure IoInput where
  malloc : Bool
  value : Int
  size : Nat
  copyFails : Bool
  queueFull : Bool

def ioError (value : Int) : Int := if value = -1 then -eio else value

/-- `ide_submit_disk_read` and `ide_submit_disk_write`. Code marked as unreachable follows
a full queue. -/
def ideSubmit (s : FileState) (w : DiskWork) (io : IoInput) : Option FileState :=
  if io.queueFull then none else some { s with work := s.work ++ [w] }

/-- Without a handle, descriptor 0 is the terminal. -/
def sysRead (s : FileState) (fd : Nat) (io : IoInput) : Option FileState :=
  if fdMax ≤ fd then some (s.fail ebadf)
  else match s.fdTable s.current fd with
    | none => some (if fd = readStdin then { s with errno := io.value } else s.fail ebadf)
    | some h => (s.handle h).bind fun x =>
      if x.flags &&& 3 = oWronly then some (s.fail ebadf)
      else x.node.bind fun n =>
        if (s.node n).flags &&& vfsFlagDiskio ≠ 0 then
          ideSubmit (s.record (.read h)) ⟨s.current, h, true, x.flags⟩ io
        else if io.malloc = false then some (s.fail enomem)
        else if io.value < 0 then some { s with errno := ioError io.value }
        else if io.copyFails then some (s.fail efault)
        else
          let s := s.modifyHandle h fun x => { x with offset := (x.offset + io.value.toNat) % 2 ^ 32 }
          some { s.record (.read h) with errno := io.value }

/-- Without a handle, descriptors 1 and 2 are the terminal. -/
def sysWrite (s : FileState) (fd : Nat) (io : IoInput) : Option FileState :=
  if fdMax ≤ fd then some (s.fail ebadf)
  else match s.fdTable s.current fd with
    | none => some (if fd = writeStdout ∨ fd = writeStderr then { s with errno := io.value } else s.fail ebadf)
    | some h => (s.handle h).bind fun x =>
      if x.flags &&& 3 = oRdonly then some (s.fail ebadf)
      else x.node.bind fun n =>
        if (s.node n).flags &&& vfsFlagDiskio ≠ 0 then
          if io.malloc = false then some (s.fail enomem)
          else if io.copyFails then some (s.fail efault)
          else ideSubmit (s.record (.write h)) ⟨s.current, h, false, x.flags⟩ io
        else
          let append := x.flags &&& oAppend ≠ 0
          let s := if append then s.modifyHandle h fun x => { x with offset := (s.node n).size } else s
          if io.malloc = false then some (s.fail enomem)
          else if io.copyFails then some (s.fail efault)
          else if io.value < 0 then some { s with errno := ioError io.value }
          else
            let s := s.modifyHandle h fun x => { x with offset := (x.offset + io.value.toNat) % 2 ^ 32 }
            some { (s.modifyNode n fun y => { y with size := io.size }).record (.write h) with
              errno := io.value }

/-- The disk worker takes the first request of the queue. -/
def ideProcessWork (s : FileState) (io : IoInput) : Option FileState :=
  match s.work with
  | [] => none
  | w :: ws =>
    let s := { s with work := ws }
    (s.handle w.handle).bind fun x => x.node.map fun n =>
      let answer : Int → FileState → FileState := fun v s => { s with eax := update s.eax w.task v }
      let advance : FileState → FileState := fun s =>
        s.modifyHandle w.handle fun x => { x with offset := (x.offset + io.value.toNat) % 2 ^ 32 }
      if w.isRead then
        if io.malloc = false then answer (-eio) s
        else if io.value < 0 then answer (ioError io.value) s
        else if 0 < io.value ∧ io.copyFails then answer (-efault) s
        else answer io.value (advance s)
      else
        let s := if w.flags &&& oAppend ≠ 0 then
          s.modifyHandle w.handle fun x => { x with offset := (s.node n).size } else s
        if io.value < 0 then answer (ioError io.value) s
        else answer io.value ((advance s).modifyNode n fun y => { y with size := io.size })

/-! ## Other calls on handles -/

/-- `close_fd` for every descriptor, as `task_exit` does it. -/
def closeAll (s : FileState) (t : Tid) : FileState := (List.range fdMax).foldl (fun s fd => closeFd s t fd) s

/-- The new offset, in 64 bits. A call the kernel takes for illegal ends the task. -/
def sysLseek (s : FileState) (fd : Nat) (offset : Int) (whence : Nat) : Option FileState :=
  if fdMax ≤ fd then some (closeAll s s.current)
  else match s.fdTable s.current fd with
    | none => some (closeAll s s.current)
    | some h => (s.handle h).bind fun x => x.node.map fun n =>
      if whence = seekSet ∨ whence = seekCur ∨ whence = seekEnd then
        let base : Nat :=
          if whence = seekSet then 0 else if whence = seekCur then x.offset else (s.node n).size
        let offset := base + offset
        if offset < 0 then s.fail einval
        else
          let offset := offset.toNat % 2 ^ 32
          { s.modifyHandle h fun x => { x with offset := offset } with errno := (BitVec.ofNat 32 offset).toInt }
      else closeAll s s.current

def sysClose (s : FileState) (fd : Nat) : FileState :=
  if fdMax ≤ fd ∨ s.fdTable s.current fd = none then s.fail ebadf else closeFd s s.current fd

/-- A negative `newfd` asks for any. -/
def sysDup (s : FileState) (oldfd newfd : Int) : FileState :=
  if oldfd < 0 ∨ fdMax ≤ oldfd then s.fail ebadf
  else match s.fdTable s.current oldfd.toNat with
    | none => s.fail ebadf
    | some h =>
      if newfd < 0 then
        match allocFd s s.current h with
        | none => { s with errno := -1 }
        | some (fd, s') => { s' with errno := fd }
      else if fdMax ≤ newfd then s.fail ebadf
      else if newfd = oldfd then { s with errno := newfd }
      else
        let s := closeFd s s.current newfd.toNat
        { (s.setFd s.current newfd.toNat (some h)).modifyHandle h fun x =>
            { x with refcount := x.refcount + 1 } with errno := newfd }

/-- The child shares the handles. -/
def taskFork (s : FileState) (child : Tid) : FileState :=
  let s := { s with
    cred := update s.cred child s.proc
    fdTable := update s.fdTable child (s.fdTable s.current) }
  (List.range fdMax).foldl (fun s fd =>
    match s.fdTable child fd with
    | none => s
    | some h => s.modifyHandle h fun x => { x with refcount := x.refcount + 1 }) s

/-- The handle of a pipe, a socket or a terminal. -/
def makeFd (s : FileState) (node : NodeId) (flags : BitVec 32) : FileState :=
  let x : FileHandle := { node := some node, flags := flags, offset := 0, refcount := 0 }
  let s' : FileState :=
    { s with handle := update s.handle s.nextHandle (some x), nextHandle := s.nextHandle + 1 }
  match allocFd s' s.current s.nextHandle with
  | none => s.fail enomem
  | some (fd, s') => { s' with errno := fd }

/-! ## Credentials and modes -/

def sysSetuid (s : FileState) (uid : Nat) : FileState :=
  if s.proc.euid = 0 then s.modifyCred fun c => { c with uid := uid, euid := uid }
  else if uid = s.proc.uid then s.modifyCred fun c => { c with euid := uid }
  else s.fail eperm

def sysSetgid (s : FileState) (gid : Nat) : FileState :=
  if s.proc.euid = 0 then s.modifyCred fun c => { c with gid := gid, egid := gid }
  else if gid = s.proc.gid then s.modifyCred fun c => { c with egid := gid }
  else s.fail eperm

def sysSeteuid (s : FileState) (euid : Nat) : FileState :=
  if s.proc.euid = 0 ∨ euid = s.proc.uid then s.modifyCred fun c => { c with euid := euid } else s.fail eperm

def sysSetegid (s : FileState) (egid : Nat) : FileState :=
  if s.proc.euid = 0 ∨ egid = s.proc.gid then s.modifyCred fun c => { c with egid := egid } else s.fail eperm

def sysSetgroups (s : FileState) (groups : List Nat) : FileState :=
  if s.proc.euid ≠ 0 then s.fail eperm
  else if ngroupsMax < groups.length then s.fail einval
  else s.modifyCred fun c => { c with groups := groups }

/-- What a new program image does to the credentials. -/
def execCred (s : FileState) (node : NodeId) : FileState :=
  let x := s.node node
  s.modifyCred fun c =>
    { c with
      euid := if x.mode &&& sIsuid ≠ 0 then x.uid else c.euid
      egid := if x.mode &&& sIsgid ≠ 0 then x.gid else c.egid }

def sysChmod (s : FileState) (node : Option NodeId) (mode : BitVec 32) : FileState :=
  match node with
  | none => s.fail enoent
  | some n =>
    if s.proc.euid ≠ 0 ∧ s.proc.euid ≠ (s.node n).uid then s.fail eperm
    else { s.modifyNode n fun x => { x with mode := x.mode &&& sIfmt ||| mode &&& ~~~sIfmt } with errno := 0 }

/-- 65535 leaves an owner as it is. -/
def sysChown (s : FileState) (node : Option NodeId) (uid gid : Nat) : FileState :=
  match node with
  | none => s.fail enoent
  | some n =>
    let clear := ~~~(sIsuid ||| sIsgid)
    if s.proc.euid = 0 then
      { s.modifyNode n fun x =>
          { x with
            uid := if uid = 65535 then x.uid else uid
            gid := if gid = 65535 then x.gid else gid
            mode := x.mode &&& clear } with errno := 0 }
    else if s.proc.euid = (s.node n).uid ∧ uid = 65535 ∧ gid ≠ 65535 ∧ procInGroup s.proc gid then
      { s.modifyNode n fun x => { x with gid := gid, mode := x.mode &&& clear } with errno := 0 }
    else s.fail eperm

/-! ## Steps -/

inductive Op where
  | open (r : OpenInput)
  | read (fd : Nat) (io : IoInput)
  | write (fd : Nat) (io : IoInput)
  | lseek (fd : Nat) (offset : Int) (whence : Nat)
  | close (fd : Nat)
  | dup (oldfd newfd : Int)
  | fork (child : Tid)
  | exit
  | make (node : NodeId) (flags : BitVec 32)
  | work (io : IoInput)
  | setuid (uid : Nat)
  | setgid (gid : Nat)
  | seteuid (euid : Nat)
  | setegid (egid : Nat)
  | setgroups (groups : List Nat)
  | exec (node : NodeId)
  | chmod (node : Option NodeId) (mode : BitVec 32)
  | chown (node : Option NodeId) (uid gid : Nat)
  | switch (t : Tid)

def step (s : FileState) : Op → Option FileState
  | .open r => sysOpen s r
  | .read fd io => sysRead s fd io
  | .write fd io => sysWrite s fd io
  | .lseek fd offset whence => sysLseek s fd offset whence
  | .close fd => some (sysClose s fd)
  | .dup oldfd newfd => some (sysDup s oldfd newfd)
  | .fork child => some (taskFork s child)
  | .exit => some (closeAll s s.current)
  | .make node flags => some (makeFd s node flags)
  | .work io => ideProcessWork s io
  | .setuid uid => some (sysSetuid s uid)
  | .setgid gid => some (sysSetgid s gid)
  | .seteuid euid => some (sysSeteuid s euid)
  | .setegid egid => some (sysSetegid s egid)
  | .setgroups groups => some (sysSetgroups s groups)
  | .exec node => some (execCred s node)
  | .chmod node mode => some (sysChmod s node mode)
  | .chown node uid gid => some (sysChown s node uid gid)
  | .switch t => some { s with current := t }

end Serotonin.Files
