import Serotonin.Files.Privilege

/-! The mode and the owner of a file over a run of calls. A name leads to a node that stays
in memory (the nodes of tmpfs and devfs, and the root of a disk), or to an entry of a FAT32
directory, for which each lookup makes a node of its own. What the calls do to the names is
an argument of theirs, as what the drivers answer is. -/

namespace Serotonin.Files.Owners

open Function
open Option (map_eq_some_iff bind_eq_some_iff)

def sIfifo : BitVec 32 := 0x1000
def sIflnk : BitVec 32 := 0xA000
def sIsvtx : BitVec 32 := 0x200
def vfsFlagSymlink : BitVec 32 := 0x4
def vfsFlagPipe : BitVec 32 := 0x8

def enotdir : Int := 20
def eisdir : Int := 21
def enotempty : Int := 90

/-! ## `sys_stat`, `sys_unlink` and `sys_rmdir` -/

structure Stat where
  mode : BitVec 32
  uid : Nat
  gid : Nat
  size : Nat
  blksize : Nat
  blocks : Nat

def fillStatFromNode (node : VfsNode) : Stat :=
  { mode :=
      if node.mode ≠ 0 then node.mode
      else if node.flags &&& vfsFlagPipe ≠ 0 then sIfifo ||| 0x1B6
      else if node.flags &&& vfsFlagDirectory ≠ 0 then sIfdir ||| 0x1ED
      else if node.flags &&& vfsFlagSymlink ≠ 0 then sIflnk ||| 0x1FF
      else sIfreg ||| 0x1A4
    uid := node.uid
    gid := node.gid
    size := node.size
    blksize := 4096
    blocks := (node.size + 511) % 2 ^ 32 / 512 }

/-- The answers to a call on a path: the buffer is the user's, the driver opens the node, the
record can be copied. -/
structure StatInput where
  inUser : Bool
  accepts : Bool
  copies : Bool

def sysStat (s : Users) (path : Path) (r : StatInput) : Users × Option Stat :=
  match path with
  | .tooLong => ({ s with files := s.files.fail enametoolong }, none)
  | path =>
    if r.inUser = false then ({ s with files := s.files.fail efault }, none)
    else
      let (node, s) := s.vfsResolvePath path
      match node.filter fun _ => r.accepts with
      | none => ({ s with files := s.files.fail enoent }, none)
      | some n =>
        if r.copies = false then ({ s with files := s.files.fail efault }, none)
        else ({ s with files := { s.files with errno := 0 } }, some (fillStatFromNode (s.node n)))

/-- The directory does not let the task remove the file; in a sticky one only its owner and the
file's do. -/
def dirRefuses (dir node : VfsNode) (proc : Cred) : Bool :=
  vfsCheckDirWrite dir proc != 0 ||
    dir.mode &&& sIsvtx != 0 && proc.euid != 0 && proc.euid != node.uid && proc.euid != dir.uid

/-- A removal: what is asked of the node first, what is left to ask once the directory agrees,
and the answer of the driver. -/
def removal (s : Users) (path parent : Path) (first last : VfsNode → Option Int) (done : Bool) : Users :=
  match path with
  | .tooLong => { s with files := s.files.fail enametoolong }
  | path =>
    let (node, s) := s.vfsResolvePath path
    match node with
    | none => { s with files := s.files.fail enoent }
    | some n => match first (s.node n) with
      | some e => { s with files := s.files.fail e }
      | none =>
        let (dir, s) := s.vfsResolvePath parent
        if dir.any fun d => dirRefuses (s.node d) (s.node n) s.files.proc then
          { s with files := s.files.fail eacces }
        else match last (s.node n) with
          | some e => { s with files := s.files.fail e }
          | none =>
            if done then { s with files := { s.files with errno := 0 } }
            else { s with files := s.files.fail eio }

def sysUnlink (s : Users) (path parent : Path) (done : Bool) : Users :=
  removal s path parent (fun x => if x.flags &&& vfsFlagDirectory ≠ 0 then some eisdir else none)
    (fun _ => none) done

def sysRmdir (s : Users) (path parent : Path) (hasRmdir hasEntries done : Bool) : Users :=
  removal s path parent
    (fun x => if x.flags &&& vfsFlagDirectory = 0 then some enotdir
      else if hasRmdir = false then some enosys else none)
    (fun _ => if hasEntries then some enotempty else none) done

def sysUmask (s : Users) (arg : BitVec 32) : Users :=
  { s with
    files := { s.files with errno := (s.umask s.files.current).toInt }
    umask := update s.umask s.files.current (arg &&& 0x1FF) }

/-! ## Names -/

inductive Target where
  | node (n : NodeId)
  | entry (e : Nat)

/-- What a directory entry says of its file, apart from where its data is. -/
structure Entry where
  dir : Bool
  readOnly : Bool
  size : Nat

structure World (Name : Type) where
  users : Users
  lead : Name → Option Target
  entry : Nat → Entry

inductive Change where
  | chmod (mode : BitVec 32)
  | chown (uid gid : BitVec 32)

def Change.run : Change → FileState → Option NodeId → FileState
  | .chmod mode => fun f n => sysChmod f n mode
  | .chown uid gid => fun f n => sysChown f n (id16 uid) (id16 gid)

/-- The calls of `syscall.c` on the descriptors a task has, and the disk worker. -/
def onHandle : Op → Bool
  | .read .. | .write .. | .lseek .. | .close .. | .dup .. | .exit | .make .. | .work .. => true
  | _ => false

/-- An argument that is too long once the working directory stands before it is no name. -/
inductive Call (Name : Type) where
  | change (path : Option Name) (c : Change)
  | stat (path : Option Name) (r : StatInput)
  | open (flags : BitVec 32) (path parent : Option Name) (accepts : Bool) (driver : Option Driver)
      (truncate : Int) (malloc : Bool)
  | mkdir (path parent : Option Name) (driver : Option Driver)
  | unlink (path parent : Option Name) (done : Bool)
  | rmdir (path parent : Option Name) (hasRmdir hasEntries done : Bool)
  | execve (path : Option Name) (loads : Bool)
  | setuid (arg : BitVec 32)
  | seteuid (arg : BitVec 32)
  | setgid (arg : BitVec 32)
  | setegid (arg : BitVec 32)
  | setgroups (size : BitVec 32) (list : Nat → BitVec 16)
  | umask (arg : BitVec 32)
  | fork
  | io (op : Op)

variable {Name : Type}

namespace World

def path (s : World Name) : Option Name → Path
  | none => .tooLong
  | some p => match s.lead p with
    | none => .missing
    | some (.node n) => .node n
    | some (.entry e) => .entry (s.entry e).dir (s.entry e).readOnly (s.entry e).size

/-- For `vfs_open`, a node that its driver does not open is none. -/
def opened (s : World Name) (p : Option Name) (accepts : Bool) : Path :=
  match p with
  | none => .tooLong
  | some p => if accepts then s.path (some p) else .missing

def schedule (s : World Name) (t : Tid) : World Name := { s with users := s.users.schedule t }

def call (s : World Name) : Call Name → Option Users
  | .change path c => some (s.users.onPath (s.path path) c.run)
  | .stat path r => some (sysStat s.users (s.path path) r).1
  | .open flags path parent accepts driver truncate malloc =>
    s.users.sysOpen ⟨flags, s.opened path accepts, s.path parent, driver, truncate, malloc⟩
  | .mkdir path parent driver => some (s.users.sysMkdir (s.path path) (s.path parent) driver)
  | .unlink path parent done => some (sysUnlink s.users (s.path path) (s.path parent) done)
  | .rmdir path parent hasRmdir hasEntries done =>
    some (sysRmdir s.users (s.path path) (s.path parent) hasRmdir hasEntries done)
  | .execve path loads => some (s.users.onPath (s.path path) (sysExecve loads))
  | .setuid arg => s.users.call (.setuid arg)
  | .seteuid arg => s.users.call (.seteuid arg)
  | .setgid arg => s.users.call (.setgid arg)
  | .setegid arg => s.users.call (.setegid arg)
  | .setgroups size list => s.users.call (.setgroups size list)
  | .umask arg => some (sysUmask s.users arg)
  | .fork => some s.users.sysFork
  | .io op => if onHandle op then (Files.step s.users.files op).map fun f => { s.users with files := f } else none

def errno (s : World Name) : Int := s.users.files.errno

end World

/-- What a call does to the names: a new file gets some that led nowhere, a removed one loses
its own. -/
def Renames (s s' : World Name) : Call Name → Prop
  | .open .. | .mkdir .. => ∀ p x, s.lead p = some x → s'.lead p = some x
  | .unlink .. | .rmdir .. => ∀ p, s'.lead p = s.lead p ∨ s'.lead p = none ∧ s'.errno = 0
  | _ => s'.lead = s.lead

/-- A task makes a call. The attributes of a directory entry are those it was made with; its
size is as the driver writes it. -/
structure Step (s : World Name) (op : Tid × Call Name) (s' : World Name) : Prop where
  task : op.1 < s.users.nextTid
  call : (s.schedule op.1).call op.2 = some s'.users
  names : Renames s s' op.2
  entries : ∀ p e, s.lead p = some (.entry e) →
    (s'.entry e).dir = (s.entry e).dir ∧ (s'.entry e).readOnly = (s.entry e).readOnly

/-- The drivers give every node a type. -/
def Typed (s : World Name) : Prop := ∀ n < s.users.nextNode, (s.users.node n).mode &&& sIfmt ≠ 0

/-! ## The effect of a change -/

/-- The file with the new mode or the new owner. -/
def Change.asks (c : Change) (x : VfsNode) : VfsNode :=
  match c with
  | .chmod mode => { x with mode := x.mode &&& sIfmt ||| mode &&& ~~~sIfmt }
  | .chown uid gid =>
    { x with
      uid := if id16 uid = 65535 then x.uid else id16 uid
      gid := if id16 gid = 65535 then x.gid else id16 gid
      mode := x.mode &&& ~~~(sIsuid ||| sIsgid) }

/-- The node that a lookup of the name gives. -/
def World.shown (s : World Name) (p : Name) : Option VfsNode :=
  match s.lead p with
  | none => none
  | some (.node n) => if n < s.users.nextNode then some (s.users.node n) else none
  | some (.entry e) => some (fat32Node (s.entry e).dir (s.entry e).readOnly (s.entry e).size)

/-- Every call on the name goes by the mode and the owner of `y`: what `sys_stat` gives, the
check of `sys_open`, and the check and the new identity of `sys_execve`. -/
structure Sees (s : World Name) (p : Name) (y : VfsNode) : Prop where
  stat : ∀ t r st, (sysStat (s.schedule t).users (s.path (some p)) r).2 = some st →
    st.mode = y.mode ∧ st.uid = y.uid ∧ st.gid = y.gid
  «open» : ∀ t flags parent driver truncate malloc u, ¬(flags &&& oCreat ≠ 0 ∧ flags &&& oExcl ≠ 0) →
    (s.schedule t).users.sysOpen ⟨flags, s.path (some p), parent, driver, truncate, malloc⟩ = some u →
      (u.files.errno = -eacces ↔ wanted flags ≠ 0 ∧ vfsCheckPermission y (s.users.cred t) (wanted flags) ≠ 0)
  refused : ∀ t loads, ((s.schedule t).users.onPath (s.path (some p)) (sysExecve loads)).files.errno = -eacces ↔
    vfsCheckPermission y (s.users.cred t) permExec ≠ 0
  execve : ∀ t, vfsCheckPermission y (s.users.cred t) permExec = 0 →
    ((s.schedule t).users.onPath (s.path (some p)) (sysExecve true)).cred t =
      { s.users.cred t with
        euid := if y.mode &&& sIsuid ≠ 0 then y.uid else (s.users.cred t).euid
        egid := if y.mode &&& sIsgid ≠ 0 then y.gid else (s.users.cred t).egid }

/-- The call changes, through any name, the file that the name leads to. -/
def Changes (p : Name) (s : World Name) (op : Tid × Call Name) (s' : World Name) : Prop :=
  ∃ q c, op.2 = .change (some q) c ∧ s.lead q = s.lead p ∧ s'.errno = 0

/-- A call that neither removes the file nor changes its mode or its owner. -/
def Undisturbed (p : Name) (s : World Name) (op : Tid × Call Name) (s' : World Name) : Prop :=
  Step s op s' ∧ s'.lead p = s.lead p ∧ ¬Changes p s op s'

/-- After the change that led from `s` to `s₁`, what the name shows is the file with the
change, until that is removed or changed again. -/
def Lasts (s s₁ : World Name) (p : Name) (c : Change) : Prop :=
  ∀ x, s.shown p = some x → ∀ ops s', Run.Trace (Undisturbed p) s₁ ops s' → Sees s' p (c.asks x)

/-- The change asks for no more than what every lookup of the entry makes anyway. -/
def Change.AsksNothing (c : Change) (e : Entry) : Prop :=
  match c with
  | .chmod mode => mode &&& ~~~sIfmt = fat32Mode e.dir e.readOnly &&& ~~~sIfmt
  | .chown uid gid => (id16 uid = 0 ∨ id16 uid = 65535) ∧ (id16 gid = 0 ∨ id16 gid = 65535)

/-- The name leads to a node that stays in memory, or the change asks for nothing. -/
def Persists (s : World Name) (p : Name) (c : Change) : Prop :=
  ∀ e, s.lead p = some (.entry e) → c.AsksNothing (s.entry e)

/-! ## Calls on descriptors -/

/-- The nodes keep their modes and owners. -/
def SameOwners (f f' : FileState) : Prop := ∀ n, SameOwner (f'.node n) (f.node n)

variable {f f' g : FileState}

theorem SameOwners.of_node (h : f'.node = f.node) : SameOwners f f' := fun n => by
  rw [h]
  exact .refl _

theorem SameOwners.trans (h : SameOwners f g) (h' : SameOwners g f') : SameOwners f f' := fun n =>
  ⟨(h' n).1.trans (h n).1, (h' n).2.1.trans (h n).2.1, (h' n).2.2.trans (h n).2.2⟩

theorem modifyNode_self (f : FileState) (n : NodeId) (x : VfsNode → VfsNode) :
    (f.modifyNode n x).node n = x (f.node n) := update_self ..

theorem modifyNode_other (f : FileState) {n m : NodeId} (x : VfsNode → VfsNode) (h : m ≠ n) :
    (f.modifyNode n x).node m = f.node m := update_of_ne h ..

theorem sameOwners_resize (f : FileState) (n : NodeId) (size : Nat) :
    SameOwners f (f.modifyNode n fun x => { x with size := size }) := by
  intro m
  by_cases hmn : m = n
  · subst hmn
    rw [modifyNode_self]
    exact ⟨rfl, rfl, rfl⟩
  · rw [modifyNode_other f _ hmn]
    exact .refl _

theorem closeFd_node (f : FileState) (t : Tid) (fd : Nat) : (closeFd f t fd).node = f.node := by
  unfold closeFd
  split
  · rfl
  · dsimp only
    split <;> rfl

theorem closeAll_node (f : FileState) (t : Tid) : (closeAll f t).node = f.node := by
  unfold closeAll
  generalize List.range fdMax = fds
  induction fds generalizing f with
  | nil => rfl
  | cons fd fds ih => exact (ih _).trans (closeFd_node f t fd)

theorem allocFd_node {t : Tid} {h : HandleId} {fd : Nat} (ha : allocFd f t h = some (fd, f')) :
    f'.node = f.node := by
  obtain ⟨i, -, hi⟩ := map_eq_some_iff.mp ha
  cases hi
  rfl

theorem ideSubmit_node {w : DiskWork} {io : IoInput} (hs : ideSubmit f w io = some f') : f'.node = f.node := by
  unfold ideSubmit at hs
  split at hs
  · cases hs
  · cases hs
    rfl

theorem sysRead_node {fd : Nat} {io : IoInput} (hs : sysRead f fd io = some f') : f'.node = f.node := by
  have hquiet : ∀ e, some { f with errno := e } = some f' → f'.node = f.node := fun e he => by
    cases he
    rfl
  unfold sysRead at hs
  split at hs
  · exact hquiet _ hs
  split at hs
  · split at hs
    · exact hquiet _ hs
    · exact hquiet _ hs
  obtain ⟨x, -, hs⟩ := bind_eq_some_iff.mp hs
  split at hs
  · exact hquiet _ hs
  obtain ⟨n, -, hs⟩ := bind_eq_some_iff.mp hs
  split at hs
  · exact (ideSubmit_node hs).trans rfl
  split at hs
  · exact hquiet _ hs
  split at hs
  · exact hquiet _ hs
  split at hs
  · exact hquiet _ hs
  · cases hs
    rfl

theorem sysWrite_sameOwners {fd : Nat} {io : IoInput} (hs : sysWrite f fd io = some f') : SameOwners f f' := by
  have hquiet : ∀ e, some { f with errno := e } = some f' → SameOwners f f' := fun e he => by
    cases he
    exact .of_node rfl
  unfold sysWrite at hs
  split at hs
  · exact hquiet _ hs
  split at hs
  · split at hs
    · exact hquiet _ hs
    · exact hquiet _ hs
  rename_i h _
  obtain ⟨x, -, hs⟩ := bind_eq_some_iff.mp hs
  split at hs
  · exact hquiet _ hs
  obtain ⟨n, -, hs⟩ := bind_eq_some_iff.mp hs
  split at hs
  · split at hs
    · exact hquiet _ hs
    split at hs
    · exact hquiet _ hs
    · exact .of_node ((ideSubmit_node hs).trans rfl)
  · dsimp only at hs
    have hg : SameOwners f (if x.flags &&& oAppend ≠ 0 then f.modifyHandle h fun y =>
        { y with offset := (f.node n).size } else f) := by
      split
      · exact .of_node rfl
      · exact .of_node rfl
    generalize (if x.flags &&& oAppend ≠ 0 then f.modifyHandle h fun y =>
      { y with offset := (f.node n).size } else f) = g at hs hg
    split at hs
    · cases hs
      exact hg.trans (.of_node rfl)
    split at hs
    · cases hs
      exact hg.trans (.of_node rfl)
    split at hs
    · cases hs
      exact hg.trans (.of_node rfl)
    · cases hs
      exact hg.trans (sameOwners_resize g n io.size)

theorem ideProcessWork_sameOwners {io : IoInput} (hs : ideProcessWork f io = some f') : SameOwners f f' := by
  unfold ideProcessWork at hs
  split at hs
  · cases hs
  rename_i w ws _
  obtain ⟨x, -, hs⟩ := bind_eq_some_iff.mp hs
  obtain ⟨n, -, hs⟩ := map_eq_some_iff.mp hs
  dsimp only at hs
  split at hs
  · split at hs
    · exact hs ▸ .of_node rfl
    split at hs
    · exact hs ▸ .of_node rfl
    split at hs
    · exact hs ▸ .of_node rfl
    · exact hs ▸ .of_node rfl
  · have hg : ∀ c : Prop, ∀ [Decidable c], SameOwners f (if c then ({ f with work := ws } : FileState).modifyHandle
        w.handle fun y => { y with offset := (f.node n).size } else { f with work := ws }) := by
      intro c _
      split
      · exact .of_node rfl
      · exact .of_node rfl
    split at hs
    · exact hs ▸ (hg _).trans (.of_node rfl)
    · exact hs ▸ (hg _).trans (sameOwners_resize _ n io.size)

theorem sysLseek_node {fd : Nat} {offset : Int} {whence : Nat} (hs : sysLseek f fd offset whence = some f') :
    f'.node = f.node := by
  unfold sysLseek at hs
  split at hs
  · exact Option.some.inj hs ▸ closeAll_node f _
  split at hs
  · exact Option.some.inj hs ▸ closeAll_node f _
  obtain ⟨x, -, hs⟩ := bind_eq_some_iff.mp hs
  obtain ⟨n, -, hs⟩ := map_eq_some_iff.mp hs
  dsimp only at hs
  split at hs
  · generalize hbase :
      ((if whence = seekSet then 0 else if whence = seekCur then x.offset else (f.node n).size : Nat) : Int) + offset = base at hs
    split at hs
    · exact hs ▸ rfl
    · exact hs ▸ rfl
  · exact hs ▸ closeAll_node f _

theorem sysDup_node (f : FileState) (oldfd newfd : Int) : (sysDup f oldfd newfd).node = f.node := by
  unfold sysDup
  split
  · rfl
  split
  · rfl
  split
  · split
    · rfl
    · rename_i ha
      exact (allocFd_node ha :)
  split
  · rfl
  split
  · rfl
  · exact closeFd_node f _ _

theorem makeFd_node (f : FileState) (node : NodeId) (flags : BitVec 32) : (makeFd f node flags).node = f.node := by
  unfold makeFd
  dsimp only
  split
  · rfl
  · rename_i ha
    exact (allocFd_node ha :)

theorem onHandle_sameOwners {op : Op} (ho : onHandle op = true) (hs : Files.step f op = some f') : SameOwners f f' := by
  cases op with
  | read fd io => exact .of_node (sysRead_node hs)
  | write fd io => exact sysWrite_sameOwners hs
  | lseek fd offset whence => exact .of_node (sysLseek_node hs)
  | close fd =>
    cases hs
    refine .of_node ?_
    unfold sysClose
    split
    · rfl
    · exact closeFd_node f _ fd
  | dup oldfd newfd =>
    cases hs
    exact .of_node (sysDup_node f oldfd newfd)
  | exit =>
    cases hs
    exact .of_node (closeAll_node f _)
  | make node flags =>
    cases hs
    exact .of_node (makeFd_node f node flags)
  | work io => exact ideProcessWork_sameOwners hs
  | _ => cases ho

/-! ## Calls on paths -/

theorem openHandle_node {node : Option NodeId} {r : OpenInput} (hs : openHandle f node r = some f') :
    f'.node = f.node := by
  unfold openHandle at hs
  split at hs
  · cases hs
    rfl
  · obtain ⟨offset, -, hs⟩ := map_eq_some_iff.mp hs
    dsimp only at hs
    split at hs
    · cases hs
      rfl
    · rename_i ha
      cases hs
      exact (allocFd_node ha :)

theorem nodeCreated_sameOwners {node : Option NodeId} {r : OpenInput} (hs : nodeCreated f node r = some f') :
    SameOwners f f' := by
  unfold nodeCreated at hs
  split at hs
  · obtain ⟨n, -, hs⟩ := bind_eq_some_iff.mp hs
    split at hs
    · split at hs
      · cases hs
        exact .of_node rfl
      · exact (sameOwners_resize f n 0).trans (.of_node ((openHandle_node hs).trans rfl))
    · exact .of_node (openHandle_node hs)
  · exact .of_node (openHandle_node hs)

/-- The new node, if one is made, has been given its number and its fields before. -/
theorem sysOpen_sameOwners {r : OpenInput} (hmade : ∀ n x, r.created = some (n, x) → f.node n = x)
    (hs : sysOpen f r = some f') : SameOwners f f' := by
  have hfail : ∀ e, some (f.fail e) = some f' → SameOwners f f' := fun e he => by
    cases he
    exact .of_node rfl
  unfold sysOpen at hs
  split at hs
  · exact hfail _ hs
  split at hs
  · split at hs
    · split at hs
      · exact hfail _ hs
      · split at hs
        · exact nodeCreated_sameOwners hs
        · rename_i n x hc
          have hsame : (f.modifyNode n fun _ => x).node = f.node := by
            show update f.node n x = f.node
            rw [← hmade n x hc]
            exact update_eq_self ..
          exact (SameOwners.of_node hsame).trans (nodeCreated_sameOwners hs)
    · exact hfail _ hs
  · split at hs
    · exact hfail _ hs
    · split at hs
      · exact hfail _ hs
      · exact nodeCreated_sameOwners hs

/-! ## Nodes over a call -/

theorem typed_or {a : BitVec 32} (b : BitVec 32) (h : a &&& sIfmt ≠ 0) : (a ||| b) &&& sIfmt ≠ 0 := by
  intro hz
  rw [BitVec.and_comm, BitVec.and_or_distrib_left] at hz
  rw [BitVec.and_comm] at h
  exact h (BitVec.or_eq_zero_iff.mp hz).1

theorem fat32Mode_typed : ∀ dir readOnly : Bool, fat32Mode dir readOnly &&& sIfmt ≠ 0 := by decide

theorem driverNode_typed (d : Driver) (proc : Cred) (umask : BitVec 32) (dir : Bool) :
    (driverNode d proc umask dir).mode &&& sIfmt ≠ 0 := by
  cases d with
  | fat32 => exact fat32Mode_typed dir false
  | tmpfs =>
    cases dir with
    | false => exact typed_or _ (by decide)
    | true => exact typed_or _ (by decide)

/-- A change leaves the type of the file. -/
theorem Change.asks_typed (c : Change) {x : VfsNode} (hx : x.mode &&& sIfmt ≠ 0) :
    (c.asks x).mode &&& sIfmt ≠ 0 := by
  cases c with
  | chmod mode =>
    refine typed_or _ ?_
    rwa [BitVec.and_assoc, BitVec.and_self]
  | chown uid gid =>
    show x.mode &&& ~~~(sIsuid ||| sIsgid) &&& sIfmt ≠ 0
    rwa [BitVec.and_assoc, show ~~~(sIsuid ||| sIsgid) &&& sIfmt = sIfmt from by decide]

theorem typed_ne_zero {a : BitVec 32} (h : a &&& sIfmt ≠ 0) : a ≠ 0 := by
  rintro rfl
  exact h (by decide)

/-- The nodes that were there keep their modes and owners, and the new ones have a type. -/
structure Kept (s s' : Users) : Prop where
  next : s.nextNode ≤ s'.nextNode
  old : ∀ n < s.nextNode, SameOwner (s'.node n) (s.node n)
  new : ∀ n < s'.nextNode, s.nextNode ≤ n → (s'.node n).mode &&& sIfmt ≠ 0

variable {u u' v : Users}

theorem Kept.of_files (h : SameOwners u.files u'.files) (hn : u'.nextNode = u.nextNode) : Kept u u' :=
  ⟨Nat.le_of_eq hn.symm, fun n _ => h n, fun _ hlt hle => absurd (hn ▸ hlt) (Nat.not_lt.mpr hle)⟩

theorem Kept.of_node (h : u'.files.node = u.files.node) (hn : u'.nextNode = u.nextNode) : Kept u u' :=
  .of_files (.of_node h) hn

theorem Kept.refl (u : Users) : Kept u u := .of_node rfl rfl

theorem Kept.trans (h : Kept u v) (h' : Kept v u') : Kept u u' where
  next := Nat.le_trans h.next h'.next
  old n hn := by
    obtain ⟨huid, hgid, hmode⟩ := h'.old n (Nat.lt_of_lt_of_le hn h.next)
    obtain ⟨huid', hgid', hmode'⟩ := h.old n hn
    exact ⟨huid.trans huid', hgid.trans hgid', hmode.trans hmode'⟩
  new n hlt hle := by
    by_cases hv : n < v.nextNode
    · rw [(h'.old n hv).2.2]
      exact h.new n hv hle
    · exact h'.new n hlt (Nat.not_lt.mp hv)

theorem newNode_node (u : Users) (x : VfsNode) : (u.newNode x).node u.nextNode = x := update_self ..

theorem newNode_old (u : Users) (x : VfsNode) {n : NodeId} (hn : n ≠ u.nextNode) :
    (u.newNode x).node n = u.node n := update_of_ne hn ..

theorem Kept.newNode (u : Users) {x : VfsNode} (hx : x.mode &&& sIfmt ≠ 0) : Kept u (u.newNode x) where
  next := Nat.le_succ _
  old n hn := by
    rw [newNode_old u x (Nat.ne_of_lt hn)]
    exact .refl _
  new n hlt hle := by
    obtain rfl : n = u.nextNode := Nat.le_antisymm (Nat.lt_succ_iff.mp hlt) hle
    rwa [newNode_node]

theorem vfsResolvePath_kept (u : Users) (path : Path) : Kept u (u.vfsResolvePath path).2 := by
  cases path with
  | entry dir readOnly size => exact .newNode u (fat32Mode_typed dir readOnly)
  | _ => exact .refl u

/-- A call that leaves the nodes alone once the path is resolved. -/
theorem onPath_kept (u : Users) (path : Path) {f : FileState → Option NodeId → FileState}
    (hf : ∀ g n, (f g n).node = g.node) : Kept u (u.onPath path f) := by
  have hrest : Kept u
      { (u.vfsResolvePath path).2 with files := f (u.vfsResolvePath path).2.files (u.vfsResolvePath path).1 } :=
    (vfsResolvePath_kept u path).trans (.of_node (hf _ _) rfl)
  cases path with
  | tooLong => exact .of_node rfl rfl
  | _ => exact hrest

theorem sysExecve_node (loads : Bool) (f : FileState) (n : Option NodeId) : (sysExecve loads f n).node = f.node := by
  unfold sysExecve
  split
  · rfl
  · split
    · rfl
    · split <;> rfl

theorem sysStat_kept (u : Users) (path : Path) (r : StatInput) : Kept u (sysStat u path r).1 := by
  have hres := vfsResolvePath_kept u path
  unfold sysStat
  split
  · exact .of_node rfl rfl
  · split
    · exact .of_node rfl rfl
    · dsimp only
      split
      · exact hres.trans (.of_node rfl rfl)
      · split
        · exact hres.trans (.of_node rfl rfl)
        · exact hres.trans (.of_node rfl rfl)

theorem removal_kept (u : Users) (path parent : Path) (first last : VfsNode → Option Int) (done : Bool) :
    Kept u (removal u path parent first last done) := by
  have hres := vfsResolvePath_kept u path
  have hdir := hres.trans (vfsResolvePath_kept (u.vfsResolvePath path).2 parent)
  unfold removal
  split
  · exact .of_node rfl rfl
  · dsimp only
    split
    · exact hres.trans (.of_node rfl rfl)
    · split
      · exact hres.trans (.of_node rfl rfl)
      · split
        · exact hdir.trans (.of_node rfl rfl)
        · split
          · exact hdir.trans (.of_node rfl rfl)
          · split
            · exact hdir.trans (.of_node rfl rfl)
            · exact hdir.trans (.of_node rfl rfl)

theorem openResolved_kept {r : OpenCall} {absPath : Bool} {opened parent : Option NodeId}
    (h : u.openResolved r absPath opened parent = some u') : Kept u u' := by
  unfold Users.openResolved at h
  obtain ⟨files, hopen, h⟩ := map_eq_some_iff.mp h
  cases h
  cases hd : r.driver with
  | none =>
    rw [hd] at hopen
    exact .of_files (sysOpen_sameOwners (fun _ _ h => by cases h) hopen) rfl
  | some d =>
    rw [hd] at hopen
    refine (Kept.newNode u (driverNode_typed d u.files.proc (u.umask u.files.current) false)).trans
      (.of_files (sysOpen_sameOwners (fun n x h => ?_) hopen) rfl)
    cases h
    exact newNode_node u _

theorem sysOpen_kept {r : OpenCall} (h : u.sysOpen r = some u') : Kept u u' :=
  ((vfsResolvePath_kept u r.path).trans (vfsResolvePath_kept _ r.parent)).trans (openResolved_kept h)

theorem sysMkdir_kept (u : Users) (path parent : Path) (driver : Option Driver) :
    Kept u (u.sysMkdir path parent driver) := by
  have hres := vfsResolvePath_kept u path
  have hdir := hres.trans (vfsResolvePath_kept (u.vfsResolvePath path).2 parent)
  unfold Users.sysMkdir
  split
  · exact .of_node rfl rfl
  · dsimp only
    split
    · exact hres.trans (.of_node rfl rfl)
    · unfold Users.mkdirResolved
      split
      · exact hdir.trans (.of_node rfl rfl)
      · split
        · exact hdir.trans (.of_node rfl rfl)
        · rename_i d
          have hnew := driverNode_typed d ((u.vfsResolvePath path).2.vfsResolvePath parent).2.files.proc
            (((u.vfsResolvePath path).2.vfsResolvePath parent).2.umask
              ((u.vfsResolvePath path).2.vfsResolvePath parent).2.files.current) true
          exact (hdir.trans (.newNode _ hnew)).trans (.of_node rfl rfl)

theorem ids_node (f : FileState) : (∀ id, (sysSetuid f id).node = f.node) ∧ (∀ id, (sysSeteuid f id).node = f.node) ∧
    (∀ id, (sysSetgid f id).node = f.node) ∧ (∀ id, (sysSetegid f id).node = f.node) ∧
      ∀ ids, (sysSetgroups f ids).node = f.node := by
  refine ⟨fun id => ?_, fun id => ?_, fun id => ?_, fun id => ?_, fun ids => ?_⟩
  · unfold sysSetuid
    split
    · rfl
    · split <;> rfl
  · unfold sysSeteuid
    split <;> rfl
  · unfold sysSetgid
    split
    · rfl
    · split <;> rfl
  · unfold sysSetegid
    split <;> rfl
  · unfold sysSetgroups
    split
    · rfl
    · split <;> rfl

/-- A change is made or it fails. -/
theorem change_cases (c : Change) (f : FileState) (n : Option NodeId) :
    (∃ m, n = some m ∧ c.run f n = { f.modifyNode m c.asks with errno := 0 }) ∨
      (c.run f n).node = f.node ∧ (c.run f n).errno < 0 := by
  have hfail : ∀ e : Int, 0 < e → (f.fail e).node = f.node ∧ (f.fail e).errno < 0 := fun e he =>
    ⟨rfl, by show -e < 0; omega⟩
  cases n with
  | none =>
    cases c with
    | chmod mode => exact .inr (hfail enoent (by decide))
    | chown uid gid => exact .inr (hfail enoent (by decide))
  | some m =>
    cases c with
    | chmod mode =>
      unfold Change.run sysChmod
      dsimp only
      split
      · exact .inr (hfail eperm (by decide))
      · exact .inl ⟨m, rfl, rfl⟩
    | chown uid gid =>
      unfold Change.run sysChown
      dsimp only
      split
      · exact .inl ⟨m, rfl, rfl⟩
      split
      · -- the owner of the file gives it to another group
        rename_i howner
        obtain ⟨-, huid, hgid, -⟩ := howner
        refine .inl ⟨m, rfl, ?_⟩
        have hasks : (Change.chown uid gid).asks = fun x =>
            { x with gid := id16 gid, mode := x.mode &&& ~~~(sIsuid ||| sIsgid) } := by
          funext x
          simp only [Change.asks, huid, if_true, if_neg hgid]
        rw [hasks]
      · exact .inr (hfail eperm (by decide))

/-- A change through a path: of a node in memory, or of nothing that a later lookup finds. -/
theorem onPath_change (u : Users) (path : Path) (c : Change) : Kept u (u.onPath path c.run) ∨
    ∃ m, path = .node m ∧ m < u.nextNode ∧ u.onPath path c.run =
      { u with files := { u.files.modifyNode m c.asks with errno := 0 } } := by
  cases path with
  | tooLong => exact .inl (.of_node rfl rfl)
  | missing =>
    rcases change_cases c u.files none with ⟨m, hm, -⟩ | ⟨hnode, -⟩
    · cases hm
    · exact .inl (.of_node hnode rfl)
  | node m =>
    by_cases hm : m < u.nextNode
    · have hpath : u.onPath (.node m) c.run = { u with files := c.run u.files (some m) } := by
        show ({ u with files := c.run u.files (if m < u.nextNode then some m else none) } : Users) = _
        rw [if_pos hm]
      rw [hpath]
      rcases change_cases c u.files (some m) with ⟨k, hk, hrun⟩ | ⟨hnode, -⟩
      · cases hk
        exact .inr ⟨m, rfl, hm, by rw [hrun]⟩
      · exact .inl (.of_node hnode rfl)
    · have hpath : u.onPath (.node m) c.run = { u with files := c.run u.files none } := by
        show ({ u with files := c.run u.files (if m < u.nextNode then some m else none) } : Users) = _
        rw [if_neg hm]
      rw [hpath]
      rcases change_cases c u.files none with ⟨k, hk, -⟩ | ⟨hnode, -⟩
      · cases hk
      · exact .inl (.of_node hnode rfl)
  | entry dir readOnly size =>
    refine .inl ?_
    have hpath : u.onPath (.entry dir readOnly size) c.run =
        { u.newNode (fat32Node dir readOnly size) with
          files := c.run (u.newNode (fat32Node dir readOnly size)).files (some u.nextNode) } := rfl
    have hnew := Kept.newNode u (x := fat32Node dir readOnly size) (fat32Mode_typed dir readOnly)
    rw [hpath]
    rcases change_cases c (u.newNode (fat32Node dir readOnly size)).files (some u.nextNode) with
      ⟨k, hk, hrun⟩ | ⟨hnode, -⟩
    · -- the change is made on the node that was made for it
      cases hk
      rw [hrun]
      refine ⟨Nat.le_succ _, fun n hn => ?_, fun n hlt hle => ?_⟩
      · show SameOwner (((u.newNode (fat32Node dir readOnly size)).files.modifyNode u.nextNode c.asks).node n)
          (u.node n)
        rw [modifyNode_other _ _ (Nat.ne_of_lt hn)]
        exact hnew.old n hn
      · obtain rfl : n = u.nextNode := Nat.le_antisymm (Nat.lt_succ_iff.mp hlt) hle
        show (((u.newNode (fat32Node dir readOnly size)).files.modifyNode u.nextNode c.asks).node u.nextNode).mode &&&
          sIfmt ≠ 0
        rw [modifyNode_self]
        exact c.asks_typed (hnew.new u.nextNode (Nat.lt_succ_self _) (Nat.le_refl _))
    · exact hnew.trans (.of_node hnode rfl)

variable {s s' s₁ : World Name} {op : Tid × Call Name} {p : Name} {c : Change} {t : Tid}

/-- A call leaves the nodes as they are, or it is a change of one of them. -/
theorem Step.cases (h : Step s op s') : Kept s.users s'.users ∨
    ∃ q c m, op.2 = .change (some q) c ∧ s.lead q = some (.node m) ∧ m < s.users.nextNode ∧ s'.errno = 0 ∧
      s'.users.nextNode = s.users.nextNode ∧
        s'.users.node = update s.users.node m (c.asks (s.users.node m)) := by
  have hsched : Kept s.users (s.schedule op.1).users := .of_node rfl rfl
  have hcall := h.call
  have hids := ids_node (s.schedule op.1).users.files
  generalize hk : op.2 = k at hcall
  cases k with
  | change path c =>
    obtain hu := Option.some.inj hcall
    rcases onPath_change (s.schedule op.1).users (s.path path) c with hkept | ⟨m, hm, hlt, hrun⟩
    · exact .inl (hu ▸ hsched.trans hkept)
    · cases path with
      | none => cases hm
      | some q =>
        have hlead : s.lead q = some (.node m) := by
          unfold World.path at hm
          dsimp only at hm
          split at hm <;> cases hm
          assumption
        have hu' := hu.symm.trans hrun
        refine .inr ⟨q, c, m, rfl, hlead, hlt, ?_, ?_, ?_⟩
        · unfold World.errno
          rw [hu']
        · rw [hu']
          rfl
        · rw [hu']
          rfl
  | stat path r => exact .inl (Option.some.inj hcall ▸ hsched.trans (sysStat_kept ..))
  | «open» flags path parent accepts driver truncate malloc => exact .inl (hsched.trans (sysOpen_kept hcall))
  | mkdir path parent driver => exact .inl (Option.some.inj hcall ▸ hsched.trans (sysMkdir_kept ..))
  | unlink path parent done => exact .inl (Option.some.inj hcall ▸ hsched.trans (removal_kept ..))
  | rmdir path parent hasRmdir hasEntries done =>
    exact .inl (Option.some.inj hcall ▸ hsched.trans (removal_kept ..))
  | execve path loads => exact .inl (Option.some.inj hcall ▸ hsched.trans (onPath_kept _ _ (sysExecve_node loads)))
  | setuid arg => exact .inl (Option.some.inj hcall ▸ hsched.trans (.of_node (hids.1 _) rfl))
  | seteuid arg => exact .inl (Option.some.inj hcall ▸ hsched.trans (.of_node (hids.2.1 _) rfl))
  | setgid arg => exact .inl (Option.some.inj hcall ▸ hsched.trans (.of_node (hids.2.2.1 _) rfl))
  | setegid arg => exact .inl (Option.some.inj hcall ▸ hsched.trans (.of_node (hids.2.2.2.1 _) rfl))
  | setgroups size list => exact .inl (Option.some.inj hcall ▸ hsched.trans (.of_node (hids.2.2.2.2 _) rfl))
  | umask arg => exact .inl (Option.some.inj hcall ▸ hsched.trans (.of_node rfl rfl))
  | fork => exact .inl (Option.some.inj hcall ▸ hsched.trans (.of_node (Users.taskFork_same _ _).2 rfl))
  | io o =>
    unfold World.call at hcall
    dsimp only at hcall
    split at hcall
    · rename_i ho
      obtain ⟨f, hf, hu⟩ := map_eq_some_iff.mp hcall
      exact .inl (hu ▸ hsched.trans (.of_files (onHandle_sameOwners ho hf) rfl))
    · cases hcall

theorem Step.typed (h : Step s op s') (hs : Typed s) : Typed s' := by
  intro n hn
  rcases h.cases with hkept | ⟨q, c, m, -, -, -, -, hnext, hnode⟩
  · by_cases hold : n < s.users.nextNode
    · rw [(hkept.old n hold).2.2]
      exact hs n hold
    · exact hkept.new n hn (Nat.not_lt.mp hold)
  · rw [hnext] at hn
    rw [hnode]
    by_cases hnm : n = m
    · subst hnm
      rw [update_self]
      exact c.asks_typed (hs n hn)
    · rw [update_of_ne hnm]
      exact hs n hn

theorem run_typed {s₀ : World Name} {ops : List (Tid × Call Name)} (h₀ : Typed s₀)
    (h : Run.Trace Step s₀ ops s) : Typed s := by
  induction h with
  | nil => exact h₀
  | snoc _ hstep ih => exact hstep.typed ih

/-! ## What a name shows -/

/-- What a name shows is what resolving its path gives. -/
theorem resolve_shown {x : VfsNode} (h : s.shown p = some x) : s.path (some p) ≠ .tooLong ∧
    ∃ n v, s.users.vfsResolvePath (s.path (some p)) = (some n, v) ∧ n < v.nextNode ∧ v.node n = x ∧
      v.files.cred = s.users.files.cred ∧ v.files.current = s.users.files.current := by
  unfold World.shown at h
  unfold World.path
  dsimp only
  split at h
  · cases h
  · rename_i n _
    split at h
    · rename_i hn
      cases h
      refine ⟨nofun, n, s.users, ?_, hn, rfl, rfl, rfl⟩
      show ((if n < s.users.nextNode then some n else none), s.users) = _
      rw [if_pos hn]
    · cases h
  · cases h
    exact ⟨nofun, _, _, rfl, Nat.lt_succ_self _, newNode_node .., rfl, rfl⟩

theorem vfsCheckPermission_congr {x y : VfsNode} (h : SameOwner x y) (proc : Cred) (want : BitVec 32) :
    vfsCheckPermission x proc want = vfsCheckPermission y proc want := by
  unfold vfsCheckPermission
  rw [h.1, h.2.1, h.2.2]

theorem fillStatFromNode_mode {x : VfsNode} (h : x.mode ≠ 0) : (fillStatFromNode x).mode = x.mode := if_pos h

theorem sysStat_resolved {path : Path} {n : NodeId} {r : StatInput} {st : Stat} (hpath : path ≠ .tooLong)
    (hres : u.vfsResolvePath path = (some n, v)) (h : (sysStat u path r).2 = some st) :
    st = fillStatFromNode (v.node n) := by
  unfold sysStat at h
  split at h
  · exact absurd rfl hpath
  · split at h
    · cases h
    · rw [hres] at h
      dsimp only at h
      split at h
      · cases h
      · rename_i m hm
        obtain ⟨hn, -⟩ := Option.filter_eq_some_iff.mp hm
        cases hn
        split at h
        · cases h
        · exact (Option.some.inj h).symm

theorem onPath_resolved {path : Path} {n : NodeId} {f : FileState → Option NodeId → FileState} (hpath : path ≠ .tooLong)
    (hres : u.vfsResolvePath path = (some n, v)) : u.onPath path f = { v with files := f v.files (some n) } := by
  unfold Users.onPath
  split
  · exact absurd rfl hpath
  · rw [hres]

theorem fail_errno_ne (f : FileState) {e : Int} (he : e ≠ eacces) : (f.fail e).errno ≠ -eacces := fun h =>
  he (Int.neg_inj.mp h)

/-- Behind the check of the permissions, no other error says that access is denied. -/
theorem nodeCreated_errno {n : NodeId} {r : OpenInput} (hs : nodeCreated f (some n) r = some f') :
    f'.errno ≠ -eacces := by
  have hopen : ∀ g : FileState, openHandle g (some n) r = some f' → f'.errno ≠ -eacces := by
    intro g hg
    unfold openHandle at hg
    split at hg
    · cases hg
      exact fail_errno_ne g (by decide)
    · obtain ⟨offset, -, hg⟩ := map_eq_some_iff.mp hg
      dsimp only at hg
      split at hg
      · cases hg
        exact fail_errno_ne g (by decide)
      · rename_i fd g' _
        cases hg
        show (fd : Int) ≠ -13
        omega
  unfold nodeCreated at hs
  split at hs
  · rw [Option.bind_some] at hs
    split at hs
    · split at hs
      · cases hs
        exact fail_errno_ne f (by decide)
      · exact hopen _ hs
    · exact hopen _ hs
  · exact hopen _ hs

theorem sysOpen_errno {n : NodeId} {r : OpenInput} (habs : r.absPath = true) (hopened : r.opened = some n)
    (hexcl : ¬(r.flags &&& oCreat ≠ 0 ∧ r.flags &&& oExcl ≠ 0)) (hs : Files.sysOpen f r = some f') :
    f'.errno = -eacces ↔ wanted r.flags ≠ 0 ∧ vfsCheckPermission (f.node n) f.proc (wanted r.flags) ≠ 0 := by
  unfold Files.sysOpen at hs
  rw [if_neg (by rw [habs]; decide), hopened] at hs
  dsimp only at hs
  rw [if_neg hexcl] at hs
  split at hs
  · rename_i hc
    cases hs
    exact iff_of_true rfl hc
  · rename_i hc
    exact iff_of_false (nodeCreated_errno hs) hc

theorem sysOpen_resolved {flags : BitVec 32} {path parent : Path} {driver : Option Driver} {truncate : Int}
    {malloc : Bool} {n : NodeId} (hpath : path ≠ .tooLong) (hres : u.vfsResolvePath path = (some n, v)) (hn : n < v.nextNode)
    (hexcl : ¬(flags &&& oCreat ≠ 0 ∧ flags &&& oExcl ≠ 0))
    (hs : u.sysOpen ⟨flags, path, parent, driver, truncate, malloc⟩ = some u') :
    u'.files.errno = -eacces ↔ wanted flags ≠ 0 ∧ vfsCheckPermission (v.node n) v.files.proc (wanted flags) ≠ 0 := by
  have hs : (v.vfsResolvePath parent).2.openResolved ⟨flags, path, parent, driver, truncate, malloc⟩ true (some n)
      (v.vfsResolvePath parent).1 = some u' := by
    unfold Users.sysOpen at hs
    dsimp only at hs
    rw [hres] at hs
    cases path with
    | tooLong => exact absurd rfl hpath
    | _ => exact hs
  unfold Users.openResolved at hs
  obtain ⟨files, hopen, hs⟩ := map_eq_some_iff.mp hs
  cases hs
  -- looking up the directory and making a new node leave the one that was found
  have hparent := vfsResolvePath_kept v parent
  have hproc : (v.vfsResolvePath parent).2.files.proc = v.files.proc := Users.vfsResolvePath_proc v parent
  generalize (v.vfsResolvePath parent).2 = w at hopen hparent hproc
  have hmade : ∀ x : Option VfsNode, (∀ y, x = some y → y.mode &&& sIfmt ≠ 0) →
      Kept w (x.elim w w.newNode) ∧ (x.elim w w.newNode).files.proc = w.files.proc := by
    intro x hx
    cases x with
    | none => exact ⟨.refl w, rfl⟩
    | some y => exact ⟨.newNode w (hx y rfl), rfl⟩
  obtain ⟨hkept, hproc'⟩ := hmade (driver.map fun d => driverNode d w.files.proc (w.umask w.files.current) false) (by
    intro y hy
    obtain ⟨d, -, rfl⟩ := map_eq_some_iff.mp hy
    exact driverNode_typed d _ _ _)
  dsimp only at hopen
  generalize (driver.map fun d => driverNode d w.files.proc (w.umask w.files.current) false).elim w w.newNode = z
    at hopen hkept hproc'
  have hcheck : vfsCheckPermission (z.files.node n) z.files.proc (wanted flags) =
      vfsCheckPermission (v.node n) v.files.proc (wanted flags) := by
    rw [hproc', hproc]
    exact vfsCheckPermission_congr ((hparent.trans hkept).old n hn) _ _
  rw [← hcheck]
  exact sysOpen_errno rfl rfl hexcl hopen

/-- The calls on a name go by the node that it shows. -/
theorem Sees.of_shown {x y : VfsNode} (h : s.shown p = some x) (hxy : SameOwner x y) (hy : y.mode ≠ 0) :
    Sees s p y where
  stat t r st hst := by
    obtain ⟨hpath, n, v, hres, -, hnode, -, -⟩ := resolve_shown (s := s.schedule t) h
    rw [sysStat_resolved hpath hres hst, hnode]
    exact ⟨(fillStatFromNode_mode (hxy.2.2 ▸ hy)).trans hxy.2.2, hxy.1, hxy.2.1⟩
  «open» t flags parent driver truncate malloc u hexcl hs := by
    obtain ⟨hpath, n, v, hres, hn, hnode, hcred, hcur⟩ := resolve_shown (s := s.schedule t) h
    rw [sysOpen_resolved hpath hres hn hexcl hs, hnode, vfsCheckPermission_congr hxy]
    unfold FileState.proc
    rw [hcred, hcur]
    exact Iff.rfl
  refused t loads := by
    obtain ⟨hpath, n, v, hres, -, hnode, hcred, hcur⟩ := resolve_shown (s := s.schedule t) h
    have hproc : v.files.proc = s.users.cred t := by
      unfold FileState.proc
      rw [hcred, hcur]
      rfl
    have hcheck : vfsCheckPermission (v.files.node n) v.files.proc permExec =
        vfsCheckPermission y (s.users.cred t) permExec := by
      rw [hproc, ← vfsCheckPermission_congr hxy, ← hnode]
      rfl
    rw [show (s.schedule t).users.onPath (s.path (some p)) (sysExecve loads) = _ from onPath_resolved hpath hres,
      ← hcheck]
    unfold sysExecve
    dsimp only
    split
    · rename_i hc
      exact iff_of_true rfl hc
    · rename_i hc
      refine iff_of_false ?_ hc
      split
      · exact (by decide : (0 : Int) ≠ -eacces)
      · exact fail_errno_ne _ (by decide)
  execve t hc := by
    obtain ⟨hpath, n, v, hres, -, hnode, hcred, hcur⟩ := resolve_shown (s := s.schedule t) h
    have hproc : v.files.proc = s.users.cred t := by
      unfold FileState.proc
      rw [hcred, hcur]
      rfl
    have hsame : SameOwner (v.files.node n) y := by
      rw [show v.files.node n = x from hnode]
      exact hxy
    rw [show (s.schedule t).users.onPath (s.path (some p)) (sysExecve true) = _ from onPath_resolved hpath hres]
    unfold sysExecve
    dsimp only
    rw [vfsCheckPermission_congr hsame, hproc, if_neg (not_not.mpr hc), if_pos rfl]
    show update v.files.cred v.files.current _ t = _
    rw [show v.files.current = t from hcur, update_self, hproc, hsame.1, hsame.2.1, hsame.2.2]

/-- The identity of a file after a run that leaves it alone. -/
theorem run_undisturbed {ops : List (Tid × Call Name)} {n : NodeId} (hp : s.lead p = some (.node n))
    (hn : n < s.users.nextNode) (h : Run.Trace (Undisturbed p) s ops s') :
    s'.lead p = some (.node n) ∧ n < s'.users.nextNode ∧ SameOwner (s'.users.node n) (s.users.node n) := by
  induction h with
  | nil => exact ⟨hp, hn, .refl _⟩
  | snoc _ hstep ih =>
    rename_i v v' _
    obtain ⟨hlead, hlt, hsame⟩ := ih
    obtain ⟨hstep, hkeeps, hno⟩ := hstep
    refine ⟨hkeeps.trans hlead, ?_⟩
    rcases hstep.cases with hkept | ⟨q, c, m, hop, hq, -, hok, hnext, hnode⟩
    · obtain ⟨huid, hgid, hmode⟩ := hkept.old n hlt
      exact ⟨Nat.lt_of_lt_of_le hlt hkept.next, huid.trans hsame.1, hgid.trans hsame.2.1, hmode.trans hsame.2.2⟩
    · have hne : n ≠ m := by
        rintro rfl
        exact hno ⟨q, c, hop, hq.trans hlead.symm, hok⟩
      rw [hnode, update_of_ne hne]
      exact ⟨hnext ▸ hlt, hsame⟩

/-- An entry keeps its attributes as long as the name leads to it. -/
theorem run_entry {ops : List (Tid × Call Name)} {e : Nat} (hp : s.lead p = some (.entry e))
    (h : Run.Trace (Undisturbed p) s ops s') : s'.lead p = some (.entry e) ∧
      (s'.entry e).dir = (s.entry e).dir ∧ (s'.entry e).readOnly = (s.entry e).readOnly := by
  induction h with
  | nil => exact ⟨hp, rfl, rfl⟩
  | snoc _ hstep ih =>
    obtain ⟨hlead, hdir, hro⟩ := ih
    obtain ⟨hdir', hro'⟩ := hstep.1.entries _ _ hlead
    exact ⟨hstep.2.1.trans hlead, hdir'.trans hdir, hro'.trans hro⟩

/-! ## Which changes last -/

theorem Sees.shown {x y : VfsNode} (h : Sees s p y) (hx : s.shown p = some x) (hm : x.mode ≠ 0) : SameOwner x y := by
  obtain ⟨hpath, n, v, hres, -, hnode, -, -⟩ := resolve_shown (s := s.schedule 0) hx
  have hstat : ∃ st, (sysStat (s.schedule 0).users (s.path (some p)) ⟨true, true, true⟩).2 = some st := by
    unfold sysStat
    split
    · rename_i hlong
      exact absurd hlong hpath
    · rw [show (s.schedule 0).users.vfsResolvePath (s.path (some p)) = (some n, v) from hres]
      exact ⟨_, rfl⟩
  obtain ⟨st, hst⟩ := hstat
  obtain ⟨hmode, huid, hgid⟩ := h.stat 0 _ st hst
  rw [sysStat_resolved hpath hres hst, hnode] at hmode huid hgid
  exact ⟨huid, hgid, (fillStatFromNode_mode hm).symm.trans hmode⟩

theorem split_mode (a m : BitVec 32) : a = a &&& sIfmt ||| m &&& ~~~sIfmt ↔ m &&& ~~~sIfmt = a &&& ~~~sIfmt := by
  constructor
  · intro h
    calc m &&& ~~~sIfmt = (a &&& sIfmt ||| m &&& ~~~sIfmt) &&& ~~~sIfmt := by
          rw [BitVec.and_or_distrib_right, BitVec.and_assoc, BitVec.and_assoc, BitVec.and_self,
            show sIfmt &&& ~~~sIfmt = 0#32 from by decide, BitVec.and_zero, BitVec.zero_or]
      _ = a &&& ~~~sIfmt := by rw [← h]
  · intro h
    rw [h, ← BitVec.and_or_distrib_left, show sIfmt ||| ~~~sIfmt = BitVec.allOnes 32 from by decide, BitVec.and_allOnes]

theorem owner_zero (id : Nat) : 0 = (if id = 65535 then 0 else id) ↔ id = 0 ∨ id = 65535 := by
  split
  · rename_i h
    exact iff_of_true rfl (.inr h)
  · rename_i h
    exact ⟨fun hz => .inl hz.symm, fun ho => (ho.resolve_right h).symm⟩

theorem fat32Mode_clear : ∀ dir readOnly : Bool,
    fat32Mode dir readOnly &&& ~~~(sIsuid ||| sIsgid) = fat32Mode dir readOnly := by decide

/-- Every lookup makes the node anew, so a change shows if there was none to make. -/
theorem asksNothing_iff (c : Change) (e : Entry) (size : Nat) :
    SameOwner (fat32Node e.dir e.readOnly size) (c.asks (fat32Node e.dir e.readOnly e.size)) ↔ c.AsksNothing e := by
  cases c with
  | chmod mode => exact ⟨fun h => (split_mode _ _).mp h.2.2, fun h => ⟨rfl, rfl, (split_mode _ _).mpr h⟩⟩
  | chown uid gid =>
    exact ⟨fun h => ⟨(owner_zero _).mp h.1, (owner_zero _).mp h.2.1⟩,
      fun h => ⟨(owner_zero _).mpr h.1, (owner_zero _).mpr h.2, (fat32Mode_clear e.dir e.readOnly).symm⟩⟩

theorem shown_entry {e : Nat} (h : s.lead p = some (.entry e)) :
    s.shown p = some (fat32Node (s.entry e).dir (s.entry e).readOnly (s.entry e).size) := by
  unfold World.shown
  rw [h]

theorem shown_node {n : NodeId} (h : s.lead p = some (.node n)) :
    s.shown p = if n < s.users.nextNode then some (s.users.node n) else none := by
  unfold World.shown
  rw [h]

/-- A change of a node that succeeds is made on that node. -/
theorem Step.change_node {n : NodeId} (h : Step s (t, .change (some p) c) s₁) (hok : s₁.errno = 0)
    (hlead : s.lead p = some (.node n)) (hn : n < s.users.nextNode) :
    s₁.users.nextNode = s.users.nextNode ∧ s₁.users.node n = c.asks (s.users.node n) := by
  have hcall : (s.schedule t).users.onPath (s.path (some p)) c.run = s₁.users := Option.some.inj h.call
  have hpath : s.path (some p) = .node n := by
    unfold World.path
    dsimp only
    rw [hlead]
  have hres : (s.schedule t).users.vfsResolvePath (.node n) = (some n, (s.schedule t).users) := by
    show ((if n < s.users.nextNode then some n else none), (s.schedule t).users) = _
    rw [if_pos hn]
  rw [hpath, onPath_resolved (by rintro ⟨⟩) hres] at hcall
  rcases change_cases c (s.schedule t).users.files (some n) with ⟨m, hm, hrun⟩ | ⟨-, herr⟩
  · cases hm
    rw [← hcall]
    refine ⟨rfl, ?_⟩
    show (c.run (s.schedule t).users.files (some n)).node n = _
    rw [hrun]
    exact modifyNode_self ..
  · unfold World.errno at hok
    rw [← hcall] at hok
    exact absurd hok (Int.ne_of_lt herr)

/-- A change that succeeds is what the name shows from then on exactly when the name leads to
a node in memory, or the change asks for no more than every lookup makes anyway. -/
theorem lasts_iff {s₀ : World Name} {before : List (Tid × Call Name)} (h₀ : Typed s₀)
    (hrun : Run.Trace Step s₀ before s) (hstep : Step s (t, .change (some p) c) s₁) (hok : s₁.errno = 0) :
    Lasts s s₁ p c ↔ Persists s p c := by
  have hnames : s₁.lead = s.lead := hstep.names
  constructor
  · intro hl e he
    obtain ⟨hdir, hro⟩ := hstep.entries p e he
    have hsees := hl _ (shown_entry he) [] s₁ .nil
    have hsame := hsees.shown (shown_entry (hnames ▸ he)) (typed_ne_zero (fat32Mode_typed _ _))
    rw [hdir, hro] at hsame
    exact (asksNothing_iff c (s.entry e) _).mp hsame
  · intro hp x hx ops s' htrace
    cases hlead : s.lead p with
    | none =>
      unfold World.shown at hx
      rw [hlead] at hx
      cases hx
    | some target =>
      cases target with
      | node n =>
        rw [shown_node hlead] at hx
        split at hx
        · rename_i hn
          cases hx
          obtain ⟨hnext, hnode⟩ := hstep.change_node hok hlead hn
          obtain ⟨hlead', hn', hsame⟩ := run_undisturbed (hnames ▸ hlead) (hnext ▸ hn) htrace
          refine .of_shown ((shown_node hlead').trans (if_pos hn')) (hnode ▸ hsame) ?_
          exact typed_ne_zero (c.asks_typed (run_typed h₀ hrun n hn))
        · cases hx
      | entry e =>
        obtain ⟨hdir, hro⟩ := hstep.entries p e hlead
        obtain ⟨hlead', hdir', hro'⟩ := run_entry (hnames ▸ hlead) htrace
        rw [shown_entry hlead] at hx
        cases hx
        refine .of_shown (shown_entry hlead') ?_ (typed_ne_zero (c.asks_typed (fat32Mode_typed _ _)))
        rw [hdir', hro', hdir, hro]
        exact (asksNothing_iff c (s.entry e) _).mpr (hp e hlead)

/-- A file in memory and one on disk, and a task of root's. -/
def twoFiles : World Bool :=
  { users :=
      { setuidProgram with
        files := { setuidProgram.files with
          node := fun _ => { size := 16, flags := vfsFlagFile, uid := 1000, gid := 1000, mode := 0x8180 }
          cred := fun _ => { uid := 0, gid := 0, euid := 0, egid := 0, groups := [] } } }
    lead := fun p => some (if p then .node 0 else .entry 0)
    entry := fun _ => { dir := false, readOnly := false, size := 16 } }

theorem twoFiles_typed : Typed twoFiles := fun _ _ => (by decide : (0x8180 : BitVec 32) &&& sIfmt ≠ 0)

def madeSetuid (p : Bool) : World Bool :=
  { twoFiles with users := (twoFiles.schedule 0).users.onPath (twoFiles.path (some p)) (Change.chmod 0x9ED).run }

theorem twoFiles_step (p : Bool) : Step twoFiles (0, .change (some p) (.chmod 0x9ED)) (madeSetuid p) :=
  ⟨Nat.zero_lt_one, rfl, rfl, fun _ _ _ => ⟨rfl, rfl⟩⟩

theorem lasts_iff_node : (madeSetuid true).errno = 0 ∧ Lasts twoFiles (madeSetuid true) true (.chmod 0x9ED) :=
  ⟨rfl, (lasts_iff twoFiles_typed .nil (twoFiles_step true) rfl).mpr fun _ he => by cases he⟩

/-- `chmod(path, 04755)` of a file on a FAT32 disk returns 0, and the file still has mode 0644. -/
theorem not_always_lasts : ¬∀ (s s₁ : World Bool) (t : Tid) (p : Bool) (c : Change), Typed s →
    Step s (t, .change (some p) c) s₁ → s₁.errno = 0 → Lasts s s₁ p c := by
  intro h
  have hl := h twoFiles (madeSetuid false) 0 false (.chmod 0x9ED) twoFiles_typed (twoFiles_step false) rfl
  have hsame := (hl _ rfl [] _ .nil).shown (x := fat32Node false false 16) rfl (by decide)
  exact absurd hsame.2.2 (by decide)

end Serotonin.Files.Owners
