import Serotonin.Handles.Model

/-! `tmpfs.c` and the calls that reach it: open, read, write, close, unlink, rmdir and mkdir,
with the path walk of `vfs.c`. A path is its parts between slashes, below the mount point;
a path that leaves the file system leads nowhere here. Buffers are known by their
addresses, which are used again once they are freed. -/

namespace Serotonin.Tmpfs

open Function
open Files (Tid NodeId HandleId FileHandle Cred fdMax oRdonly oWronly oAppend oCreat oTrunc oExcl
  vfsFlagFile ebadf eio enoent enomem eacces eexist efault enosys enametoolong)
open Handles (System Node Fault)

abbrev BufId := Nat
abbrev Name := List UInt8

def vfsFlagDirectory : BitVec 32 := 0x2

def enotdir : Int := 20
def eisdir : Int := 21
def enotempty : Int := 90

def sIsvtx : BitVec 32 := 0x0200
def sIfreg : BitVec 32 := 0x8000
def sIfdir : BitVec 32 := 0x4000

def dot : Name := [46]
def dotdot : Name := [46, 46]

/-- How many nodes a path walk remembers, that of the mount point's parent included. -/
def pathDepth : Nat := 64

structure TmpfsFile where
  data : Option BufId
  size : Nat
deriving DecidableEq

/-- A mounted tmpfs: `nodes` lists the nodes that have its operations. -/
structure Mount where
  sys : System
  root : NodeId
  nodes : List NodeId
  name : NodeId → Name
  file : NodeId → TmpfsFile
  entries : NodeId → List NodeId
  buffer : BufId → Option (List UInt8)

namespace Mount

def ret (f : Mount) (t : Tid) (v : Int) : Mount := { f with sys := f.sys.ret t v }

/-! ## Buffers -/

def setFile (f : Mount) (n : NodeId) (x : TmpfsFile) : Mount := { f with file := update f.file n x }

/-- The size of a file stands in its node, too. -/
def setSize (f : Mount) (n : NodeId) (y : Node) (size : Nat) : Mount :=
  { f with sys := f.sys.setNode n { y with size := size } }

def getData (f : Mount) (n : NodeId) : Except Fault (List UInt8) :=
  match (f.file n).data with
  | none => return []
  | some b =>
    match f.buffer b with
    | none => .error (.data b)
    | some bytes => return bytes

def freeData (f : Mount) (n : NodeId) : Except Fault Mount :=
  match (f.file n).data with
  | none => return f
  | some b => do
    let _ ← f.getData n
    return { f with buffer := update f.buffer b none }

def newData (f : Mount) (n : NodeId) (b : BufId) (bytes : List UInt8) (size : Nat) : Mount :=
  { f.setFile n ⟨some b, size⟩ with buffer := update f.buffer b (some bytes) }

def putData (f : Mount) (n : NodeId) (bytes : List UInt8) : Mount :=
  match (f.file n).data with
  | none => f
  | some b => { f with buffer := update f.buffer b (some bytes) }

end Mount

/-- `memcpy` into a buffer, as far as the buffer goes. -/
def store (bytes : List UInt8) (offset : Nat) (new : List UInt8) : List UInt8 :=
  (bytes.take offset ++ new ++ bytes.drop (offset + new.length)).take bytes.length

/-! ## Files -/

def tmpfsRead (f : Mount) (n : NodeId) (offset size : Nat) : Except Fault (Int × List UInt8) := do
  let y ← f.sys.getNode n
  if y.flags &&& vfsFlagFile = 0 then return (-1, [])
  else if (f.file n).size ≤ offset then return (0, [])
  else
    let bytesToRead := if (f.file n).size < (offset + size) % 2 ^ 32 then (f.file n).size - offset else size
    let data ← f.getData n
    return (bytesToRead, (data.drop offset).take bytesToRead)

/-- `mem` is the memory for a longer buffer. -/
def tmpfsWrite (f : Mount) (n : NodeId) (offset : Nat) (bytes : List UInt8) (mem : BufId) :
    Except Fault (Int × Mount) := do
  let y ← f.sys.getNode n
  if y.flags &&& vfsFlagFile = 0 then return (-1, f)
  else
    let newSize := (offset + bytes.length) % 2 ^ 32
    if (f.file n).size < newSize then
      let old ← f.getData n
      let f' ← f.freeData n
      let data := store (List.replicate newSize 0) 0 (old.take (f.file n).size)
      let f' := (f'.newData n mem data newSize).setSize n y newSize
      return (bytes.length, f'.putData n (store data offset bytes))
    else
      let data ← f.getData n
      return (bytes.length, f.putData n (store data offset bytes))

def tmpfsTruncate (f : Mount) (n : NodeId) (size : Nat) (mem : Option BufId) : Except Fault (Int × Mount) := do
  let y ← f.sys.getNode n
  if y.flags &&& vfsFlagFile = 0 then return (-1, f)
  else if size = (f.file n).size then return (0, f.setSize n y size)
  else if size = 0 then
    let f ← f.freeData n
    return (0, (f.setFile n ⟨none, 0⟩).setSize n y 0)
  else match mem with
    | none => return (-1, f)
    | some b =>
      let old ← f.getData n
      let f' ← f.freeData n
      let data := store (List.replicate size 0) 0 (old.take (min (f.file n).size size))
      return (0, (f'.newData n b data size).setSize n y size)

/-! ## Directories -/

/-- The walk through the entries of a directory. -/
def scan (f : Mount) (name : Name) : List NodeId → Except Fault (Option NodeId)
  | [] => return none
  | e :: es => do
    let _ ← f.sys.getNode e
    if f.name e = name then return some e else scan f name es

def tmpfsFinddir (f : Mount) (dir : NodeId) (name : Name) : Except Fault (Option NodeId) := do
  let y ← f.sys.getNode dir
  if y.flags &&& vfsFlagDirectory = 0 then return none else scan f name (f.entries dir)

def link (f : Mount) (dir n : NodeId) (name : Name) : Mount :=
  { f with
    nodes := n :: f.nodes
    name := update f.name n name
    file := update f.file n ⟨none, 0⟩
    entries := update (update f.entries n []) dir (n :: f.entries dir) }

/-- `tmpfs_create_file` and `tmpfs_create_dir`: `own` is the reference the new node starts
with, which for a file is handed to its first handle. -/
def tmpfsCreate (f : Mount) (c : Cred) (dir : NodeId) (name : Name) (n : NodeId) (flags mode : BitVec 32) (own : Nat) :
    Except Fault (Option NodeId × Mount) := do
  let y ← f.sys.getNode dir
  if y.flags &&& vfsFlagDirectory = 0 then return (none, f)
  else
    let node : Node := { size := 0, flags := flags, uid := c.euid, gid := c.egid, mode := mode, refcount := 1 }
    return (some n, link { f with sys := f.sys.newNode n node (.fileSystem own) } dir n name)

/-- The end of `tmpfs_unlink` and `tmpfs_rmdir`. -/
def remove (f : Mount) (dir n : NodeId) : Except Fault Mount := do
  let sys ← f.sys.freeNode n
  return { f with
    sys := sys
    nodes := f.nodes.erase n
    file := update f.file n ⟨none, 0⟩
    entries := update f.entries dir ((f.entries dir).erase n) }

def tmpfsUnlink (f : Mount) (dir : NodeId) (name : Name) : Except Fault (Int × Mount) := do
  match ← tmpfsFinddir f dir name with
  | none => return (-1, f)
  | some n =>
    let y ← f.sys.getNode n
    if y.flags &&& vfsFlagDirectory ≠ 0 then return (-1, f)
    else if 1 < y.refcount then return (-1, f)
    else
      let f ← f.freeData n
      let f ← remove f dir n
      return (0, f)

def tmpfsRmdir (f : Mount) (dir : NodeId) (name : Name) : Except Fault (Int × Mount) := do
  match ← tmpfsFinddir f dir name with
  | none => return (-1, f)
  | some n =>
    let y ← f.sys.getNode n
    if y.flags &&& vfsFlagDirectory = 0 then return (-1, f)
    else if 1 < y.refcount then return (-1, f)
    else if f.entries n ≠ [] then return (-1, f)
    else
      let f ← remove f dir n
      return (0, f)

/-! ## Paths -/

/-- `above` are the nodes the walk came through, the latest first. -/
def resolve (f : Mount) : List Name → NodeId → List NodeId → Except Fault (Option NodeId)
  | [], current, _ => return some current
  | part :: parts, current, above =>
    if part = [] ∨ part = dot then resolve f parts current above
    else if part = dotdot then
      match above with
      | _ :: p :: above => resolve f parts p (p :: above)
      | _ => return none
    else do
      match ← tmpfsFinddir f current part with
      | none => return none
      | some n => resolve f parts n (if above.length + 1 < pathDepth then n :: above else above)

def vfsResolvePath (f : Mount) (path : List Name) : Except Fault (Option NodeId) := resolve f path f.root [f.root]

def vfsOpen (f : Mount) (path : List Name) : Except Fault (Option NodeId × Mount) := do
  match ← vfsResolvePath f path with
  | none => return (none, f)
  | some n =>
    let (_, sys) ← Handles.vfsOpen f.sys (.kept n)
    return (some n, { f with sys := sys })

def vfsClose (f : Mount) (n : Option NodeId) : Except Fault Mount := do
  let sys ← Handles.vfsClose f.sys n
  return { f with sys := sys }

/-- A path as `split_path` splits it. -/
structure Path where
  absPath : Bool
  dir : List Name
  name : Name

def Path.full (p : Path) : List Name := p.dir ++ [p.name]

/-- `vfs_unlink` and `vfs_rmdir`, with the operation of the driver. -/
def vfsRemove (op : Mount → NodeId → Name → Except Fault (Int × Mount)) (f : Mount) (path : Path) :
    Except Fault (Int × Mount) := do
  match ← vfsOpen f path.dir with
  | (none, f) => return (-1, f)
  | (some dir, f) =>
    let (v, f) ← op f dir path.name
    let f ← vfsClose f (some dir)
    return (v, f)

def vfsCreate (f : Mount) (c : Cred) (path : Path) (n : NodeId) (flags mode : BitVec 32) (own : Nat) :
    Except Fault (Option NodeId × Mount) := do
  match ← vfsOpen f path.dir with
  | (none, f) => return (none, f)
  | (some dir, f) =>
    let (new, f) ← tmpfsCreate f c dir path.name n flags mode own
    let f ← vfsClose f (some dir)
    return (new, f)

/-- Whether the task may not change the directory of the path. -/
def dirRefused (f : Mount) (t : Tid) (path : Path) : Except Fault Bool := do
  match ← vfsResolvePath f path.dir with
  | none => return false
  | some dir =>
    let y ← f.sys.getNode dir
    return Files.vfsCheckDirWrite y.toVfsNode (f.sys.cred t) != 0

/-! ## `sys_open` -/

structure OpenReq where
  path : Path
  flags : BitVec 32
  umask : BitVec 32
  node : NodeId
  zero : Files.VfsNode
  malloc : Option HandleId

/-- What the end of `sys_open` reads of a request. -/
def OpenReq.input (r : OpenReq) : Handles.OpenInput :=
  { flags := r.flags, absPath := r.path.absPath, found := .none, parent := none, created := none, truncate := 0,
    zero := r.zero, malloc := r.malloc }

def openHandle (f : Mount) (t : Tid) (node : Option NodeId) (r : OpenReq) : Except Fault Mount := do
  let sys ← Handles.openHandle f.sys t node r.input
  return { f with sys := sys }

/-- `vfs_truncate` to nothing; a node at address zero is refused. -/
def truncated (f : Mount) : Option NodeId → Except Fault (Int × Mount)
  | none => return (-1, f)
  | some n => tmpfsTruncate f n 0 none

/-- From the label `nodeCreated` on. -/
def nodeCreated (f : Mount) (t : Tid) (node : Option NodeId) (r : OpenReq) : Except Fault Mount :=
  if r.flags &&& oTrunc ≠ 0 ∧ r.flags &&& 3 ≠ oRdonly then do
    let y ← r.input.read f.sys node
    if y.flags &&& vfsFlagFile ≠ 0 then
      let (v, f) ← truncated f node
      if v ≠ 0 then
        let f ← vfsClose f node
        return f.ret t (-enosys)
      else openHandle f t node r
    else openHandle f t node r
  else openHandle f t node r

def checkOpened (f : Mount) (t : Tid) (n : NodeId) (r : OpenReq) : Except Fault Mount :=
  if r.flags &&& oCreat ≠ 0 ∧ r.flags &&& oExcl ≠ 0 then do
    let f ← vfsClose f (some n)
    return f.ret t (-eexist)
  else do
    let y ← f.sys.getNode n
    let want := Files.wanted r.flags
    if want ≠ 0 ∧ Files.vfsCheckPermission y.toVfsNode (f.sys.cred t) want ≠ 0 then
      let f ← vfsClose f (some n)
      return f.ret t (-eacces)
    else nodeCreated f t (some n) r

def sysOpen (f : Mount) (t : Tid) (r : OpenReq) : Except Fault Mount :=
  if r.path.absPath = false then return f.ret t (-enametoolong)
  else do
    match ← vfsOpen f r.path.full with
    | (none, f) =>
      if r.flags &&& oCreat ≠ 0 then
        if ← dirRefused f t r.path then return f.ret t (-eacces)
        else
          let (node, f) ← vfsCreate f (f.sys.cred t) r.path r.node vfsFlagFile (sIfreg ||| 0x1B6 &&& ~~~r.umask) 0
          nodeCreated f t node r
      else return f.ret t (-enoent)
    | (some n, f) => checkOpened f t n r

/-! ## Reading and writing -/

/-- `other` is what the driver of another file system or of a terminal answers. -/
structure IoReq where
  fd : Nat
  malloc : Bool
  copyOk : Bool
  other : Int

def advance (f : Mount) (t : Tid) (h : HandleId) (x : FileHandle) (v : Int) : Mount :=
  { f with sys := (f.sys.setHandle h { x with offset := (x.offset + v.toNat) % 2 ^ 32 }).ret t v }

def ioError (v : Int) : Int := if v = -1 then -eio else v

def sysRead (f : Mount) (t : Tid) (size : Nat) (io : IoReq) : Except Fault Mount :=
  if fdMax ≤ io.fd then return f.ret t (-ebadf)
  else match f.sys.fdTable (t, io.fd) with
    | none => return f.ret t io.other
    | some h => do
      let x ← f.sys.getHandle h
      if x.flags &&& 3 = oWronly then return f.ret t (-ebadf)
      else if io.malloc = false then return f.ret t (-enomem)
      else match x.node with
        | none => return f.ret t (-eio)
        | some n =>
          let _ ← f.sys.getNode n
          if n ∈ f.nodes then
            let (v, _) ← tmpfsRead f n x.offset size
            if v < 0 then return f.ret t (ioError v)
            else if io.copyOk = false then return f.ret t (-efault)
            else return advance f t h x v
          else return f.ret t io.other

def toEnd (x : FileHandle) (y : Node) : FileHandle :=
  if x.flags &&& oAppend ≠ 0 then { x with offset := y.size } else x

def sysWrite (f : Mount) (t : Tid) (bytes : List UInt8) (mem : BufId) (io : IoReq) : Except Fault Mount :=
  if fdMax ≤ io.fd then return f.ret t (-ebadf)
  else match f.sys.fdTable (t, io.fd) with
    | none => return f.ret t io.other
    | some h => do
      let x ← f.sys.getHandle h
      if x.flags &&& 3 = oRdonly then return f.ret t (-ebadf)
      else match x.node with
        | none => return f.ret t (if io.malloc = false then -enomem else if io.copyOk = false then -efault else -eio)
        | some n =>
          let y ← f.sys.getNode n
          if n ∈ f.nodes then
            let x := toEnd x y
            let f := { f with sys := f.sys.setHandle h x }
            if io.malloc = false then return f.ret t (-enomem)
            else if io.copyOk = false then return f.ret t (-efault)
            else
              let (v, f) ← tmpfsWrite f n x.offset bytes mem
              if v < 0 then return f.ret t (ioError v) else return advance f t h x v
          else return f.ret t io.other

/-! ## Removing and making -/

/-- The sticky bit leaves a file to its owner. -/
def sticky (dir y : Files.VfsNode) (c : Cred) : Bool :=
  dir.mode &&& sIsvtx != 0 && c.euid != 0 && c.euid != y.uid && c.euid != dir.uid

/-- What `sys_unlink` and `sys_rmdir` test of the directory. -/
def checkRemove (f : Mount) (t : Tid) (path : Path) (y : Files.VfsNode) : Except Fault Int := do
  match ← vfsResolvePath f path.dir with
  | none => return 0
  | some dir =>
    let z ← f.sys.getNode dir
    return if Files.vfsCheckDirWrite z.toVfsNode (f.sys.cred t) ≠ 0 ∨ sticky z.toVfsNode y (f.sys.cred t) then -eacces
      else 0

/-- The tests of `sys_unlink`: zero lets it go on. -/
def checkUnlink (f : Mount) (t : Tid) (path : Path) : Except Fault Int :=
  if path.absPath = false then return -enametoolong
  else do
    match ← vfsResolvePath f path.full with
    | none => return -enoent
    | some n =>
      let y ← f.sys.getNode n
      if y.flags &&& vfsFlagDirectory ≠ 0 then return -eisdir else checkRemove f t path y.toVfsNode

def sysUnlink (f : Mount) (t : Tid) (path : Path) : Except Fault Mount := do
  let v ← checkUnlink f t path
  if v ≠ 0 then return f.ret t v
  else
    let (v, f) ← vfsRemove tmpfsUnlink f path
    return f.ret t (if v ≠ 0 then -eio else 0)

def checkRmdir (f : Mount) (t : Tid) (path : Path) : Except Fault Int :=
  if path.absPath = false then return -enametoolong
  else do
    match ← vfsResolvePath f path.full with
    | none => return -enoent
    | some n =>
      let y ← f.sys.getNode n
      if y.flags &&& vfsFlagDirectory = 0 then return -enotdir
      else
        let v ← checkRemove f t path y.toVfsNode
        if v ≠ 0 then return v else return if f.entries n = [] then 0 else -enotempty

def sysRmdir (f : Mount) (t : Tid) (path : Path) : Except Fault Mount := do
  let v ← checkRmdir f t path
  if v ≠ 0 then return f.ret t v
  else
    let (v, f) ← vfsRemove tmpfsRmdir f path
    return f.ret t (if v ≠ 0 then -eio else 0)

def sysMkdir (f : Mount) (t : Tid) (path : Path) (umask : BitVec 32) (n : NodeId) : Except Fault Mount :=
  if path.absPath = false then return f.ret t (-enametoolong)
  else do
    match ← vfsResolvePath f path.full with
    | some _ => return f.ret t (-eexist)
    | none =>
      if ← dirRefused f t path then return f.ret t (-eacces)
      else
        let (new, f) ← vfsCreate f (f.sys.cred t) path n vfsFlagDirectory (sIfdir ||| 0x1FF &&& ~~~umask) 1
        return f.ret t (if new.isSome then 0 else -eio)

/-! ## The system -/

inductive Op where
  | open (t : Tid) (r : OpenReq)
  | read (t : Tid) (size : Nat) (io : IoReq)
  | write (t : Tid) (bytes : List UInt8) (mem : BufId) (io : IoReq)
  | unlink (t : Tid) (path : Path)
  | rmdir (t : Tid) (path : Path)
  | mkdir (t : Tid) (path : Path) (umask : BitVec 32) (n : NodeId)
  | close (t : Tid) (fd : Int) (wordBefore : Bool)
  | dup (t : Tid) (oldfd newfd : Int)
  | fork (t child : Tid)
  | exit (t : Tid)

namespace Op

def task : Op → Tid
  | .open t _ | .read t _ _ | .write t _ _ _ | .unlink t _ | .rmdir t _ | .mkdir t _ _ _ | .close t _ _ | .dup t _ _
  | .fork t _ | .exit t => t

def withSys (f : Mount) (sys : Except Fault System) : Except Fault Mount := sys.map fun s => { f with sys := s }

def run (f : Mount) : Op → Except Fault Mount
  | .open t r => sysOpen f t r
  | .read t size io => sysRead f t size io
  | .write t bytes mem io => sysWrite f t bytes mem io
  | .unlink t path => sysUnlink f t path
  | .rmdir t path => sysRmdir f t path
  | .mkdir t path umask n => sysMkdir f t path umask n
  | .close t fd b => withSys f (Handles.sysClose f.sys t fd b)
  | .dup t oldfd newfd => withSys f (Handles.sysDup f.sys t oldfd newfd)
  | .fork t child => withSys f (Handles.taskFork f.sys t child)
  | .exit t => withSys f (Handles.taskExit f.sys t)

/-- `kernel_malloc` gives memory that is not in use, and a new task a number that is not. -/
def Fits (f : Mount) : Op → Prop
  | .open _ r => f.sys.node r.node = none ∧ ∀ h ∈ r.malloc, f.sys.handle h = none
  | .write _ _ mem _ => f.buffer mem = none
  | .mkdir _ _ _ n => f.sys.node n = none
  | .fork _ child => child ∉ f.sys.tids
  | .exit t => t ≠ Handles.initPid
  | _ => True

def Enabled (f : Mount) (op : Op) : Prop :=
  op.task ∈ f.sys.tids ∧ (∀ n, op.task ∉ f.sys.acceptWaiters n) ∧ op.Fits f

end Op

def Step (f f' : Mount) : Prop := ∃ op : Op, op.Enabled f ∧ op.run f = .ok f'

/-- An empty file system that is mounted. -/
structure Boot (f : Mount) : Prop where
  sys : Handles.Boot f.sys
  root : f.sys.keeper f.root = .fileSystem 1
  nodes : f.nodes = [f.root]
  file : ∀ n, f.file n = ⟨none, 0⟩
  entries : ∀ n, f.entries n = []
  buffer : ∀ b, f.buffer b = none

abbrev Reachable : Mount → Prop := Run.Reachable Boot Step

end Serotonin.Tmpfs
