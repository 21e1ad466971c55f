import Serotonin.Files.Model
import Serotonin.Lib.Run

/-! Tasks that are not root, and the calls that change who a task or a file belongs to. The
arguments are the 32-bit words the calls get; the new nodes are those of `tmpfs.c` and
`fat32.c`. -/

namespace Serotonin.Files

open Function

def sIfreg : BitVec 32 := 0x8000
def sIfdir : BitVec 32 := 0x4000
def vfsFlagDirectory : BitVec 32 := 0x2

/-- `(uint16_t)` of an argument. -/
def id16 (arg : BitVec 32) : Nat := arg.toNat % 65536

/-! ## Nodes the drivers make -/

inductive Driver where
  | tmpfs
  | fat32

/-- `tmpfs_create_file` and `tmpfs_create_dir` give the new node to the task. -/
def tmpfsNode (proc : Cred) (umask : BitVec 32) (dir : Bool) : VfsNode :=
  { size := 0
    flags := if dir then vfsFlagDirectory else vfsFlagFile
    uid := proc.euid
    gid := proc.egid
    mode := if dir then sIfdir ||| 0x1FF &&& ~~~umask else sIfreg ||| 0x1B6 &&& ~~~umask }

def fat32Mode (dir readOnly : Bool) : BitVec 32 :=
  if dir then sIfdir ||| 0x1ED else sIfreg ||| (if readOnly then 0x124 else 0x1A4)

/-- `fat32_create` and `fat32_mkdir`, and the node of a directory entry in `fat32_finddir`. -/
def fat32Node (dir readOnly : Bool) (size : Nat) : VfsNode :=
  { size := size
    flags := (if dir then vfsFlagDirectory else vfsFlagFile) ||| vfsFlagDiskio
    uid := 0
    gid := 0
    mode := fat32Mode dir readOnly }

def driverNode (d : Driver) (proc : Cred) (umask : BitVec 32) (dir : Bool) : VfsNode :=
  match d with
  | .tmpfs => tmpfsNode proc umask dir
  | .fat32 => fat32Node dir false 0

/-! ## Calls -/

/-- What a path leads to. For an entry on disk each lookup makes a node of its own. -/
inductive Path where
  | tooLong
  | missing
  | node (n : NodeId)
  | entry (dir readOnly : Bool) (size : Nat)

/-- A node or a task is there when its number has been given out. -/
structure Users where
  files : FileState
  nextNode : NodeId
  umask : Tid → BitVec 32
  nextTid : Tid

namespace Users

def node (s : Users) : NodeId → VfsNode := s.files.node

def cred (s : Users) : Tid → Cred := s.files.cred

def newNode (s : Users) (x : VfsNode) : Users :=
  { s with files := s.files.modifyNode s.nextNode fun _ => x, nextNode := s.nextNode + 1 }

/-- `vfs_resolve_path`. -/
def vfsResolvePath (s : Users) : Path → Option NodeId × Users
  | .tooLong | .missing => (none, s)
  | .node n => (if n < s.nextNode then some n else none, s)
  | .entry dir readOnly size => (some s.nextNode, s.newNode (fat32Node dir readOnly size))

/-- A call on the node that a path leads to. -/
def onPath (s : Users) (p : Path) (f : FileState → Option NodeId → FileState) : Users :=
  match p with
  | .tooLong => { s with files := s.files.fail enametoolong }
  | p =>
    let (n, s) := s.vfsResolvePath p
    { s with files := f s.files n }

end Users

/-- The effect of a program that was loaded is `execCred`. -/
def sysExecve (loads : Bool) (s : FileState) : Option NodeId → FileState
  | none => s.fail enoent
  | some n =>
    if vfsCheckPermission (s.node n) s.proc permExec ≠ 0 then s.fail eacces
    else if loads then execCred s n
    else s.fail eio

/-- Where the path and the path of its directory lead, and the driver that makes the new
node, if one can. -/
structure OpenCall where
  flags : BitVec 32
  path : Path
  parent : Path
  driver : Option Driver
  truncate : Int
  malloc : Bool

namespace Users

/-- The call on the nodes that the paths lead to. A new node that is not used in the end
keeps its number. -/
def openResolved (s : Users) (r : OpenCall) (absPath : Bool) (opened parent : Option NodeId) : Option Users :=
  let made := r.driver.map fun d => driverNode d s.files.proc (s.umask s.files.current) false
  let created := made.map fun x => (s.nextNode, x)
  let s := made.elim s s.newNode
  (Files.sysOpen s.files ⟨r.flags, absPath, opened, parent, created, r.truncate, r.malloc⟩).map fun files =>
    { s with files := files }

def sysOpen (s : Users) (r : OpenCall) : Option Users :=
  let absPath := match r.path with
    | .tooLong => false
    | _ => true
  let (opened, s) := s.vfsResolvePath r.path
  let (parent, s) := s.vfsResolvePath r.parent
  s.openResolved r absPath opened parent

/-- From the check of the directory on. -/
def mkdirResolved (s : Users) (dir : Option NodeId) (driver : Option Driver) : Users :=
  if dir.any fun p => vfsCheckDirWrite (s.node p) s.files.proc != 0 then { s with files := s.files.fail eacces }
  else match driver with
    | none => { s with files := s.files.fail eio }
    | some d =>
      let s := s.newNode (driverNode d s.files.proc (s.umask s.files.current) true)
      { s with files := { s.files with errno := 0 } }

def sysMkdir (s : Users) (path parent : Path) (driver : Option Driver) : Users :=
  match path with
  | .tooLong => { s with files := s.files.fail enametoolong }
  | path =>
    let (existing, s) := s.vfsResolvePath path
    if existing.isSome then { s with files := s.files.fail eexist }
    else
      let (dir, s) := s.vfsResolvePath parent
      s.mkdirResolved dir driver

def sysFork (s : Users) : Users :=
  { s with
    files := { taskFork s.files s.nextTid with errno := s.nextTid }
    umask := update s.umask s.nextTid (s.umask s.files.current)
    nextTid := s.nextTid + 1 }

end Users

inductive UserCall where
  | setuid (arg : BitVec 32)
  | seteuid (arg : BitVec 32)
  | setgid (arg : BitVec 32)
  | setegid (arg : BitVec 32)
  | setgroups (size : BitVec 32) (list : Nat → BitVec 16)
  | chmod (path : Path) (mode : BitVec 32)
  | chown (path : Path) (uid gid : BitVec 32)
  | open (r : OpenCall)
  | mkdir (path parent : Path) (driver : Option Driver)
  | fork
  | execve (path : Path) (loads : Bool)

namespace Users

/-- A negative size is above `NGROUPS_MAX` too. -/
def call (s : Users) : UserCall → Option Users
  | .setuid arg => some { s with files := sysSetuid s.files (id16 arg) }
  | .seteuid arg => some { s with files := sysSeteuid s.files (id16 arg) }
  | .setgid arg => some { s with files := sysSetgid s.files (id16 arg) }
  | .setegid arg => some { s with files := sysSetegid s.files (id16 arg) }
  | .setgroups size list =>
    some { s with files := sysSetgroups s.files ((List.range size.toNat).map fun i => (list i).toNat) }
  | .chmod path mode => some (s.onPath path fun f n => sysChmod f n mode)
  | .chown path uid gid => some (s.onPath path fun f n => sysChown f n (id16 uid) (id16 gid))
  | .open r => s.sysOpen r
  | .mkdir path parent driver => some (s.sysMkdir path parent driver)
  | .fork => some s.sysFork
  | .execve path loads => some (s.onPath path (sysExecve loads))

def schedule (s : Users) (t : Tid) : Users := { s with files := { s.files with current := t } }

end Users

def Unprivileged (c : Cred) : Prop := c.uid ≠ 0 ∧ c.euid ≠ 0

/-- A task that is not root makes a call. -/
def UserStep (s : Users) (op : Tid × UserCall) (s' : Users) : Prop :=
  op.1 < s.nextTid ∧ Unprivileged (s.cred op.1) ∧ (s.schedule op.1).call op.2 = some s'

/-! ## What a task has -/

def Cred.gids (c : Cred) : List Nat := c.gid :: c.egid :: c.groups

/-- A file that makes who executes it root. -/
def SetuidRoot (x : VfsNode) : Prop := x.uid = 0 ∧ x.mode &&& sIsuid ≠ 0

/-- Reading and writing leave this of a node. -/
def SameOwner (x y : VfsNode) : Prop := x.uid = y.uid ∧ x.gid = y.gid ∧ x.mode = y.mode

theorem SameOwner.refl (x : VfsNode) : SameOwner x x := ⟨rfl, rfl, rfl⟩

/-- Masked bits outside `m` are outside it still. -/
theorem masked_and {a m : BitVec 32} (umask : BitVec 32) (h : a &&& m = 0) : a &&& ~~~umask &&& m = 0 := by
  rw [BitVec.and_assoc, BitVec.and_comm (~~~umask), ← BitVec.and_assoc, h]
  exact BitVec.zero_and

theorem tmpfsNode_mode (proc : Cred) (umask : BitVec 32) (dir : Bool) :
    (tmpfsNode proc umask dir).mode &&& sIsuid = 0 := by
  have hor : ∀ a b : BitVec 32, a &&& sIsuid = 0 → b &&& sIsuid = 0 → (a ||| b) &&& sIsuid = 0 := by
    intro a b ha hb
    rw [BitVec.and_comm, BitVec.and_or_distrib_left, BitVec.and_comm, ha, BitVec.and_comm, hb]
    exact BitVec.or_zero
  cases dir with
  | false => exact hor _ _ (by decide) (masked_and umask (by decide))
  | true => exact hor _ _ (by decide) (masked_and umask (by decide))

theorem fat32Mode_isuid : ∀ dir readOnly : Bool, fat32Mode dir readOnly &&& sIsuid = 0 := by decide

theorem fat32Mode_isgid : ∀ dir readOnly : Bool, fat32Mode dir readOnly &&& sIsgid = 0 := by decide

/-- No driver makes a file that gives the rights of root. -/
theorem driverNode_not_setuidRoot (d : Driver) (proc : Cred) (umask : BitVec 32) (dir : Bool) :
    ¬SetuidRoot (driverNode d proc umask dir) := by
  rintro ⟨-, hmode⟩
  cases d with
  | tmpfs => exact hmode (tmpfsNode_mode proc umask dir)
  | fat32 => exact hmode (fat32Mode_isuid dir false)

/-! ## What the calls leave alone -/

/-- A task that is not root goes on to be none, gets no group, and makes no file that
gives the rights of root. -/
structure Tame (f f' : FileState) : Prop where
  current : f'.current = f.current
  others : ∀ u ≠ f.current, f'.cred u = f.cred u
  euid : f'.proc.euid ≠ 0
  gids : f'.proc.gids ⊆ f.proc.gids
  nodes : ∀ n, SetuidRoot (f'.node n) → SetuidRoot (f.node n)

variable {f f' : FileState}

theorem Tame.trans {g : FileState} (h : Tame f g) (h' : Tame g f') : Tame f f' where
  current := h'.current.trans h.current
  others u hu := (h'.others u (h.current ▸ hu)).trans (h.others u hu)
  euid := h'.euid
  gids := List.Subset.trans h'.gids h.gids
  nodes n hn := h.nodes n (h'.nodes n hn)

/-- Neither the credentials nor the files change. -/
theorem Tame.of_same (hf : Unprivileged f.proc) (hcur : f'.current = f.current) (hcred : f'.cred = f.cred)
    (hnodes : ∀ n, SetuidRoot (f'.node n) → SetuidRoot (f.node n)) : Tame f f' := by
  have hproc : f'.proc = f.proc := by
    unfold FileState.proc
    rw [hcur, hcred]
  exact ⟨hcur, fun u _ => by rw [hcred], hproc ▸ hf.2, hproc ▸ List.Subset.refl _, hnodes⟩

theorem Tame.errno (h : Tame f f') (e : Int) : Tame f { f' with errno := e } :=
  ⟨h.current, h.others, h.euid, h.gids, h.nodes⟩

theorem Tame.fail (hf : Unprivileged f.proc) (e : Int) : Tame f (f.fail e) :=
  .of_same hf rfl rfl fun _ h => h

theorem proc_modifyCred (f : FileState) (c : Cred → Cred) : (f.modifyCred c).proc = c f.proc :=
  update_self ..

theorem Tame.modifyCred {c : Cred → Cred} (heuid : (c f.proc).euid ≠ 0)
    (hgids : (c f.proc).gids ⊆ f.proc.gids) : Tame f (f.modifyCred c) where
  current := rfl
  others u hu := update_of_ne hu ..
  euid := by rwa [proc_modifyCred]
  gids := by rwa [proc_modifyCred]
  nodes _ h := h

/-- A change to one file that does not make it give the rights of root. -/
theorem Tame.modifyNode (hf : Unprivileged f.proc) (n : NodeId) {x : VfsNode → VfsNode}
    (hx : SetuidRoot (x (f.node n)) → SetuidRoot (f.node n)) : Tame f (f.modifyNode n x) := by
  refine .of_same hf rfl rfl fun m hm => ?_
  by_cases hmn : m = n
  · subst hmn
    refine hx ?_
    rwa [show (f.modifyNode m x).node m = x (f.node m) from update_self ..] at hm
  · rwa [show (f.modifyNode n x).node m = f.node m from update_of_ne hmn ..] at hm

/-! ## The calls on ids -/

theorem sysSetuid_tame (hf : Unprivileged f.proc) (uid : Nat) : Tame f (sysSetuid f uid) := by
  unfold sysSetuid
  rw [if_neg hf.2]
  split
  · rename_i huid
    exact .modifyCred (huid ▸ hf.1) (List.Subset.refl _)
  · exact .fail hf _

theorem sysSeteuid_tame (hf : Unprivileged f.proc) (euid : Nat) : Tame f (sysSeteuid f euid) := by
  unfold sysSeteuid
  split
  · rename_i heuid
    exact .modifyCred (heuid.resolve_left hf.2 ▸ hf.1) (List.Subset.refl _)
  · exact .fail hf _

/-- The effective group becomes the real one. -/
theorem gids_setegid (c : Cred) : ({ c with egid := c.gid } : Cred).gids ⊆ c.gids := by
  intro g hg
  simp only [Cred.gids, List.mem_cons] at hg ⊢
  tauto

theorem sysSetgid_tame (hf : Unprivileged f.proc) (gid : Nat) : Tame f (sysSetgid f gid) := by
  unfold sysSetgid
  rw [if_neg hf.2]
  split
  · rename_i hgid
    subst hgid
    exact .modifyCred hf.2 (gids_setegid _)
  · exact .fail hf _

theorem sysSetegid_tame (hf : Unprivileged f.proc) (egid : Nat) : Tame f (sysSetegid f egid) := by
  unfold sysSetegid
  split
  · rename_i hegid
    obtain rfl := hegid.resolve_left hf.2
    exact .modifyCred hf.2 (gids_setegid _)
  · exact .fail hf _

theorem sysSetgroups_tame (hf : Unprivileged f.proc) (groups : List Nat) : Tame f (sysSetgroups f groups) := by
  unfold sysSetgroups
  rw [if_pos hf.2]
  exact .fail hf _

/-! ## The calls on files -/

/-- Only the owner changes the mode, and the owner is not root. -/
theorem sysChmod_tame (hf : Unprivileged f.proc) (n : Option NodeId) (mode : BitVec 32) :
    Tame f (sysChmod f n mode) := by
  unfold sysChmod
  cases n with
  | none => exact .fail hf _
  | some n =>
    dsimp only
    split
    · exact .fail hf _
    · rename_i hown
      have huid : f.proc.euid = (f.node n).uid := not_not.mp fun h => hown ⟨hf.2, h⟩
      exact (Tame.modifyNode hf n fun hroot => absurd (huid.trans hroot.1) hf.2).errno 0

theorem sysChown_tame (hf : Unprivileged f.proc) (n : Option NodeId) (uid gid : Nat) :
    Tame f (sysChown f n uid gid) := by
  unfold sysChown
  cases n with
  | none => exact .fail hf _
  | some n =>
    dsimp only
    rw [if_neg hf.2]
    split
    · rename_i hown
      exact (Tame.modifyNode hf n fun hroot => absurd (hown.1.trans hroot.1) hf.2).errno 0
    · exact .fail hf _

theorem openHandle_tame (hf : Unprivileged f.proc) {node : Option NodeId} {r : OpenInput}
    (hs : openHandle f node r = some f') : Tame f f' := by
  unfold openHandle at hs
  split at hs
  · cases hs
    exact .fail hf _
  · obtain ⟨offset, -, hs⟩ := Option.map_eq_some_iff.mp hs
    dsimp only at hs
    split at hs
    · cases hs
      exact .of_same hf rfl rfl fun _ h => h
    · rename_i fd g ha
      cases hs
      obtain ⟨i, -, hi⟩ := Option.map_eq_some_iff.mp ha
      cases hi
      exact .of_same hf rfl rfl fun _ h => h

theorem nodeCreated_tame (hf : Unprivileged f.proc) {node : Option NodeId} {r : OpenInput}
    (hs : nodeCreated f node r = some f') : Tame f f' := by
  unfold nodeCreated at hs
  split at hs
  · obtain ⟨n, -, hs⟩ := Option.bind_eq_some_iff.mp hs
    split at hs
    · split at hs
      · cases hs
        exact .fail hf _
      · -- a truncated file keeps its owner and its mode
        have htrunc : Tame f (f.modifyNode n fun x => { x with size := 0 }) := .modifyNode hf n fun h => h
        have hrecord : Tame f ((f.modifyNode n fun x => { x with size := 0 }).record (.truncate n)) :=
          htrunc.trans (.of_same hf rfl rfl fun _ h => h)
        exact hrecord.trans (openHandle_tame hf hs)
    · exact openHandle_tame hf hs
  · exact openHandle_tame hf hs

theorem sysOpen_tame (hf : Unprivileged f.proc) {r : OpenInput}
    (hmade : ∀ n x, r.created = some (n, x) → ¬SetuidRoot x) (hs : sysOpen f r = some f') : Tame f f' := by
  unfold sysOpen at hs
  split at hs
  · cases hs
    exact .fail hf _
  split at hs
  · split at hs
    · split at hs
      · cases hs
        exact .fail hf _
      · split at hs
        · exact nodeCreated_tame hf hs
        · rename_i n x hc
          exact (Tame.modifyNode hf n fun h => absurd h (hmade n x hc)).trans (nodeCreated_tame hf hs)
    · cases hs
      exact .fail hf _
  · split at hs
    · cases hs
      exact .fail hf _
    · split at hs
      · cases hs
        exact .fail hf _
      · exact nodeCreated_tame hf hs

/-- A file with neither of the bits gives nothing. -/
theorem sysExecve_tame (hf : Unprivileged f.proc) (loads : Bool) {n : NodeId}
    (hsuid : (f.node n).mode &&& sIsuid = 0) (hsgid : (f.node n).mode &&& sIsgid = 0) :
    Tame f (sysExecve loads f (some n)) := by
  unfold sysExecve
  dsimp only
  split
  · exact .fail hf _
  · split
    · unfold execCred
      dsimp only
      rw [hsuid, hsgid]
      exact .modifyCred hf.2 (List.Subset.refl _)
    · exact .fail hf _

/-! ## Runs -/

namespace Users

/-- The files that give the rights of root are files of `s₀` that did. -/
def OnlyOld (s₀ s : Users) : Prop :=
  ∀ n < s.nextNode, SetuidRoot (s.node n) → n < s₀.nextNode ∧ SetuidRoot (s₀.node n)

/-- A step that is tame and gives numbers to harmless new nodes only. -/
structure Grows (s s' : Users) : Prop where
  tame : Tame s.files s'.files
  tids : s'.nextTid = s.nextTid
  fresh : ∀ n < s'.nextNode, SetuidRoot (s'.node n) → n < s.nextNode

variable {s s' : Users}

theorem Grows.of_tame (h : Tame s.files s'.files) (htids : s'.nextTid = s.nextTid)
    (hnodes : s'.nextNode = s.nextNode) : Grows s s' :=
  ⟨h, htids, fun _ hn _ => hnodes ▸ hn⟩

theorem Grows.trans {u : Users} (h : Grows s u) (h' : Grows u s') : Grows s s' where
  tame := h.tame.trans h'.tame
  tids := h'.tids.trans h.tids
  fresh n hn hroot := h.fresh n (h'.fresh n hn hroot) (h'.tame.nodes n hroot)

theorem Grows.newNode (hs : Unprivileged s.files.proc) {x : VfsNode} (hx : ¬SetuidRoot x) : Grows s (s.newNode x) where
  tame := Tame.modifyNode (x := fun _ => x) hs s.nextNode fun h => absurd h hx
  tids := rfl
  fresh n hn hroot := by
    rcases Nat.lt_succ_iff_lt_or_eq.mp hn with hlt | rfl
    · exact hlt
    · rw [show (s.newNode x).node s.nextNode = x from update_self ..] at hroot
      exact absurd hroot hx

theorem fat32Node_not_setuidRoot (dir readOnly : Bool) (size : Nat) : ¬SetuidRoot (fat32Node dir readOnly size) :=
  fun h => h.2 (fat32Mode_isuid dir readOnly)

theorem vfsResolvePath_grows (hs : Unprivileged s.files.proc) (p : Path) : Grows s (s.vfsResolvePath p).2 := by
  have hsame : Grows s s := .of_tame (.of_same hs rfl rfl fun _ h => h) rfl rfl
  cases p with
  | tooLong => exact hsame
  | missing => exact hsame
  | node n => exact hsame
  | entry dir readOnly size => exact .newNode hs (fat32Node_not_setuidRoot dir readOnly size)

theorem vfsResolvePath_proc (s : Users) (p : Path) : (s.vfsResolvePath p).2.files.proc = s.files.proc := by
  cases p <;> rfl

theorem vfsResolvePath_unprivileged (hs : Unprivileged s.files.proc) (p : Path) :
    Unprivileged (s.vfsResolvePath p).2.files.proc := by
  rwa [vfsResolvePath_proc]

theorem onPath_grows (hs : Unprivileged s.files.proc) (p : Path) {f : FileState → Option NodeId → FileState}
    (hf : ∀ g : FileState, Unprivileged g.proc → ∀ n, Tame g (f g n)) : Grows s (s.onPath p f) := by
  have hrest : Grows s
      { (s.vfsResolvePath p).2 with files := f (s.vfsResolvePath p).2.files (s.vfsResolvePath p).1 } :=
    (vfsResolvePath_grows hs p).trans (.of_tame (hf _ (vfsResolvePath_unprivileged hs p) _) rfl rfl)
  cases p with
  | tooLong => exact .of_tame (.fail hs _) rfl rfl
  | missing => exact hrest
  | node n => exact hrest
  | entry dir readOnly size => exact hrest

theorem openResolved_grows (hs : Unprivileged s.files.proc) {r : OpenCall} {absPath : Bool}
    {opened parent : Option NodeId} (h : s.openResolved r absPath opened parent = some s') : Grows s s' := by
  unfold openResolved at h
  obtain ⟨files, hopen, h⟩ := Option.map_eq_some_iff.mp h
  cases h
  cases hd : r.driver with
  | none =>
    rw [hd] at hopen
    exact .of_tame (sysOpen_tame hs (fun _ _ h => by cases h) hopen) rfl rfl
  | some d =>
    rw [hd] at hopen
    have hnot := driverNode_not_setuidRoot d s.files.proc (s.umask s.files.current) false
    refine (Grows.newNode hs hnot).trans (.of_tame (sysOpen_tame (f := (s.newNode _).files) hs ?_ hopen) rfl rfl)
    intro n x h
    cases h
    exact hnot

theorem sysOpen_grows (hs : Unprivileged s.files.proc) {r : OpenCall} (h : s.sysOpen r = some s') : Grows s s' := by
  have hu := vfsResolvePath_unprivileged hs r.path
  have hparent := (vfsResolvePath_grows hs r.path).trans (vfsResolvePath_grows hu r.parent)
  exact hparent.trans (openResolved_grows (vfsResolvePath_unprivileged hu r.parent) h)

theorem mkdirResolved_grows (hs : Unprivileged s.files.proc) (dir : Option NodeId) (driver : Option Driver) :
    Grows s (s.mkdirResolved dir driver) := by
  unfold mkdirResolved
  split
  · exact .of_tame (.fail hs _) rfl rfl
  · split
    · exact .of_tame (.fail hs _) rfl rfl
    · rename_i d
      have hnew := Grows.newNode hs (driverNode_not_setuidRoot d s.files.proc (s.umask s.files.current) true)
      exact hnew.trans (.of_tame (.of_same hs rfl rfl fun _ h => h) rfl rfl)

theorem sysMkdir_grows (hs : Unprivileged s.files.proc) (path parent : Path) (driver : Option Driver) :
    Grows s (s.sysMkdir path parent driver) := by
  have hpath := vfsResolvePath_grows hs path
  have hu := vfsResolvePath_unprivileged hs path
  have hfails : Grows s { (s.vfsResolvePath path).2 with files := (s.vfsResolvePath path).2.files.fail eexist } :=
    hpath.trans (.of_tame (.fail hu _) rfl rfl)
  have hmakes := (hpath.trans (vfsResolvePath_grows hu parent)).trans
    (mkdirResolved_grows (vfsResolvePath_unprivileged hu parent)
      ((s.vfsResolvePath path).2.vfsResolvePath parent).1 driver)
  unfold sysMkdir
  split
  · exact .of_tame (.fail hs _) rfl rfl
  · dsimp only
    split
    · exact hfails
    · exact hmakes

/-- A program that was loaded, the one call that can give rights. -/
def Executes (s : Users) (c : UserCall) (n : NodeId) (s' : Users) : Prop :=
  c = .execve (.node n) true ∧ n < s.nextNode ∧ s' = { s with files := execCred s.files n }

theorem onPath_execve (hs : Unprivileged s.files.proc) (p : Path) (loads : Bool) :
    Grows s (s.onPath p (sysExecve loads)) ∨
      ∃ n, Executes s (.execve p loads) n (s.onPath p (sysExecve loads)) := by
  cases p with
  | tooLong => exact .inl (.of_tame (.fail hs _) rfl rfl)
  | missing => exact .inl (.of_tame (.fail hs _) rfl rfl)
  | node n =>
    show Grows s { s with files := sysExecve loads s.files (if n < s.nextNode then some n else none) } ∨
      ∃ m, Executes s _ m { s with files := sysExecve loads s.files (if n < s.nextNode then some n else none) }
    by_cases hn : n < s.nextNode
    · rw [if_pos hn]
      unfold sysExecve
      dsimp only
      split
      · exact .inl (.of_tame (.fail hs _) rfl rfl)
      · split
        · rename_i hloads
          exact .inr ⟨n, by rw [hloads], hn, rfl⟩
        · exact .inl (.of_tame (.fail hs _) rfl rfl)
    · rw [if_neg hn]
      exact .inl (.of_tame (.fail hs _) rfl rfl)
  | entry dir readOnly size =>
    -- the node of a directory entry has neither of the bits
    have hnew := Grows.newNode hs (fat32Node_not_setuidRoot dir readOnly size)
    have hs' : Unprivileged (s.newNode (fat32Node dir readOnly size)).files.proc := hs
    have hnode : (s.newNode (fat32Node dir readOnly size)).files.node s.nextNode = fat32Node dir readOnly size :=
      update_self ..
    refine .inl (hnew.trans (.of_tame (sysExecve_tame hs' loads ?_ ?_) rfl rfl))
    · rw [hnode]
      exact fat32Mode_isuid dir readOnly
    · rw [hnode]
      exact fat32Mode_isgid dir readOnly

/-- A call is tame, a fork, or the start of a program. -/
theorem call_cases (hs : Unprivileged s.files.proc) {c : UserCall} (h : s.call c = some s') :
    Grows s s' ∨ (c = .fork ∧ s' = s.sysFork) ∨ ∃ n, Executes s c n s' := by
  cases c with
  | setuid arg =>
    cases h
    exact .inl (.of_tame (sysSetuid_tame hs _) rfl rfl)
  | seteuid arg =>
    cases h
    exact .inl (.of_tame (sysSeteuid_tame hs _) rfl rfl)
  | setgid arg =>
    cases h
    exact .inl (.of_tame (sysSetgid_tame hs _) rfl rfl)
  | setegid arg =>
    cases h
    exact .inl (.of_tame (sysSetegid_tame hs _) rfl rfl)
  | setgroups size list =>
    cases h
    exact .inl (.of_tame (sysSetgroups_tame hs _) rfl rfl)
  | chmod path mode =>
    cases h
    exact .inl (onPath_grows hs path fun g hg n => sysChmod_tame hg n mode)
  | chown path uid gid =>
    cases h
    exact .inl (onPath_grows hs path fun g hg n => sysChown_tame hg n _ _)
  | «open» r => exact .inl (sysOpen_grows hs h)
  | mkdir path parent driver =>
    cases h
    exact .inl (sysMkdir_grows hs path parent driver)
  | fork =>
    cases h
    exact .inr (.inl ⟨rfl, rfl⟩)
  | execve path loads =>
    cases h
    rcases onPath_execve hs path loads with hgrows | hexec
    · exact .inl hgrows
    · exact .inr (.inr hexec)

/-- The new task has what its parent has. -/
theorem taskFork_same (f : FileState) (child : Tid) :
    (taskFork f child).cred = update f.cred child f.proc ∧ (taskFork f child).node = f.node := by
  unfold taskFork
  refine List.foldlRecOn (motive := fun s : FileState => s.cred = update f.cred child f.proc ∧ s.node = f.node)
    (List.range fdMax) _ ⟨rfl, rfl⟩ fun s hs fd _ => ?_
  split
  · exact hs
  · exact hs

/-- What a step gives: to a task that was there, and to the new one as to its parent `t`. -/
structure Gives (s : Users) (t : Tid) (c : UserCall) (s' : Users) : Prop where
  euid : ∀ u < s'.nextTid, (s'.cred u).euid = 0 →
    u < s.nextTid ∧ (s.cred u).euid = 0 ∨
      u = t ∧ ∃ n, c = .execve (.node n) true ∧ n < s.nextNode ∧ SetuidRoot (s.node n)
  gids : ∀ u < s'.nextTid, ∀ g ∈ (s'.cred u).gids,
    g ∈ (s.cred (if u < s.nextTid then u else t)).gids ∨
      u = t ∧ ∃ n, c = .execve (.node n) true ∧ (s.node n).mode &&& sIsgid ≠ 0 ∧ g = (s.node n).gid
  old : ∀ n < s'.nextNode, SetuidRoot (s'.node n) → n < s.nextNode ∧ SetuidRoot (s.node n)

variable {t : Tid} {c : UserCall}

theorem Grows.gives (h : Grows (s.schedule t) s') : Gives s t c s' where
  euid u hu he := by
    by_cases hut : u = t
    · rw [hut] at he
      have hcur : s'.files.current = t := h.tame.current
      exact absurd he (hcur ▸ h.tame.euid)
    · rw [show s'.cred u = s.cred u from h.tame.others u hut] at he
      exact .inl ⟨h.tids ▸ hu, he⟩
  gids u hu g hg := by
    have hlt : u < s.nextTid := h.tids ▸ hu
    rw [if_pos hlt]
    by_cases hut : u = t
    · subst hut
      have hcur : s'.files.current = u := h.tame.current
      exact .inl (h.tame.gids (by rw [FileState.proc, hcur]; exact hg))
    · rw [show s'.cred u = s.cred u from h.tame.others u hut] at hg
      exact .inl hg
  old n hn hroot := ⟨h.fresh n hn hroot, h.tame.nodes n hroot⟩

theorem sysFork_cred (s : Users) : s.sysFork.cred = update s.cred s.nextTid s.files.proc :=
  (taskFork_same s.files s.nextTid).1

theorem sysFork_node (s : Users) : s.sysFork.node = s.node := (taskFork_same s.files s.nextTid).2

theorem sysFork_gives (ht : Unprivileged (s.cred t)) : Gives s t c (s.schedule t).sysFork := by
  have hcred : (s.schedule t).sysFork.cred = update s.cred s.nextTid (s.cred t) := sysFork_cred _
  have hnode : (s.schedule t).sysFork.node = s.node := sysFork_node _
  have htid : (s.schedule t).sysFork.nextTid = s.nextTid + 1 := rfl
  have hnext : (s.schedule t).sysFork.nextNode = s.nextNode := rfl
  generalize (s.schedule t).sysFork = s' at *
  refine ⟨fun u hu he => ?_, fun u hu g hg => ?_, fun n hn hroot => ⟨hnext ▸ hn, hnode ▸ hroot⟩⟩
  · rw [hcred] at he
    rcases Nat.lt_succ_iff_lt_or_eq.mp (htid ▸ hu) with hlt | rfl
    · rw [update_of_ne (Nat.ne_of_lt hlt)] at he
      exact .inl ⟨hlt, he⟩
    · rw [update_self] at he
      exact absurd he ht.2
  · rw [hcred] at hg
    rcases Nat.lt_succ_iff_lt_or_eq.mp (htid ▸ hu) with hlt | rfl
    · rw [update_of_ne (Nat.ne_of_lt hlt)] at hg
      exact .inl (by rwa [if_pos hlt])
    · rw [update_self] at hg
      exact .inl (by rwa [if_neg (Nat.lt_irrefl _)])

theorem Executes.gives (ht : Unprivileged (s.cred t)) {n : NodeId} (h : Executes (s.schedule t) c n s') :
    Gives s t c s' := by
  obtain ⟨rfl, hn, rfl⟩ := h
  have hself : Users.cred { s.schedule t with files := execCred (s.schedule t).files n } t =
      { s.cred t with
        euid := if (s.node n).mode &&& sIsuid ≠ 0 then (s.node n).uid else (s.cred t).euid
        egid := if (s.node n).mode &&& sIsgid ≠ 0 then (s.node n).gid else (s.cred t).egid } :=
    update_self ..
  have hothers : ∀ u, u ≠ t →
      Users.cred { s.schedule t with files := execCred (s.schedule t).files n } u = s.cred u := fun u hu =>
    update_of_ne hu ..
  refine ⟨fun u hu he => ?_, fun u hu g hg => ?_, fun m hm hroot => ⟨hm, hroot⟩⟩
  · by_cases hut : u = t
    · subst hut
      rw [hself] at he
      dsimp only at he
      split at he
      · rename_i hbit
        exact .inr ⟨rfl, n, rfl, hn, he, hbit⟩
      · exact absurd he ht.2
    · exact .inl ⟨hu, hothers u hut ▸ he⟩
  · rw [if_pos (show u < s.nextTid from hu)]
    by_cases hut : u = t
    · subst hut
      rw [hself] at hg
      simp only [Cred.gids, List.mem_cons] at hg ⊢
      rcases hg with hg | hg | hg
      · exact .inl (.inl hg)
      · split at hg
        · rename_i hbit
          exact .inr ⟨trivial, n, rfl, hbit, hg⟩
        · exact .inl (.inr (.inl hg))
      · exact .inl (.inr (.inr hg))
    · exact .inl (hothers u hut ▸ hg)

theorem step_gives (h : UserStep s (t, c) s') : Gives s t c s' := by
  obtain ⟨-, ht, hcall⟩ := h
  rcases call_cases (s := s.schedule t) ht hcall with hgrows | ⟨rfl, rfl⟩ | ⟨n, hexec⟩
  · exact hgrows.gives
  · exact sysFork_gives ht
  · exact hexec.gives ht

theorem run_onlyOld {s₀ : Users} {ops : List (Tid × UserCall)} (h : Run.Trace UserStep s₀ ops s) : OnlyOld s₀ s := by
  induction h with
  | nil => exact fun n hn hroot => ⟨hn, hroot⟩
  | snoc _ hstep ih =>
    intro n hn hroot
    obtain ⟨hn', hroot'⟩ := (step_gives hstep).old n hn hroot
    exact ih n hn' hroot'

end Users

/-- In every run of tasks that are not root, whoever becomes root does so by executing a
file that belonged to root and had the set-user-id bit when the run started, and a group
is gained only through a file with the set-group-id bit. -/
theorem privileges_confined {s₀ s s' : Users} {ops : List (Tid × UserCall)} {t : Tid} {c : UserCall}
    (hrun : Run.Trace UserStep s₀ ops s) (hstep : UserStep s (t, c) s') :
    (∀ u < s'.nextTid, (s'.cred u).euid = 0 → u < s.nextTid ∧ (s.cred u).euid = 0 ∨
      u = t ∧ ∃ n, c = .execve (.node n) true ∧ n < s₀.nextNode ∧ SetuidRoot (s₀.node n)) ∧
    ∀ u < s'.nextTid, ∀ g ∈ (s'.cred u).gids, g ∈ (s.cred (if u < s.nextTid then u else t)).gids ∨
      u = t ∧ ∃ n, c = .execve (.node n) true ∧ (s.node n).mode &&& sIsgid ≠ 0 ∧ g = (s.node n).gid := by
  have hgives := Users.step_gives hstep
  refine ⟨fun u hu he => ?_, hgives.gids⟩
  rcases hgives.euid u hu he with hold | ⟨hut, n, hc, hn, hroot⟩
  · exact .inl hold
  · obtain ⟨hn', hroot'⟩ := Users.run_onlyOld hrun n hn hroot
    exact .inr ⟨hut, n, hc, hn', hroot'⟩

/-- Node 0 is a program of root's with both bits, and every task is user 1000. -/
def setuidProgram : Users :=
  { files :=
      { node := fun _ => { size := 16, flags := vfsFlagFile, uid := 0, gid := 0, mode := 0x8DED }
        handle := fun _ => none
        nextHandle := 0
        cred := fun _ => { uid := 1000, gid := 1000, euid := 1000, egid := 1000, groups := [] }
        fdTable := fun _ _ => none
        current := 0
        errno := 0
        eax := fun _ => 0
        work := []
        log := [] }
    nextNode := 1
    umask := fun _ => 0x12
    nextTid := 1 }

/-- The task forks, and its child executes the program. -/
theorem privileges_confined_program : ∃ s s' : Users, UserStep s (1, .execve (.node 0) true) s' ∧
    (s'.cred 1).euid = 0 ∧ 0 < setuidProgram.nextNode ∧ SetuidRoot (setuidProgram.node 0) := by
  have hfork : UserStep setuidProgram (0, .fork) (setuidProgram.schedule 0).sysFork :=
    ⟨Nat.zero_lt_one, ⟨by decide, by decide⟩, rfl⟩
  have hexec : ∃ s', UserStep (setuidProgram.schedule 0).sysFork (1, .execve (.node 0) true) s' ∧
      (s'.cred 1).euid = 0 ∧ 1 < s'.nextTid :=
    ⟨_, ⟨by decide, ⟨by decide, by decide⟩, rfl⟩, by decide, by decide⟩
  obtain ⟨s', hstep, hroot, htid⟩ := hexec
  rcases (privileges_confined (.snoc .nil hfork) hstep).1 1 htid hroot with ⟨-, hwas⟩ | ⟨-, n, hc, hn, hn'⟩
  · exact absurd hwas (by decide)
  · cases hc
    exact ⟨_, _, hstep, hroot, hn, hn'⟩

end Serotonin.Files
