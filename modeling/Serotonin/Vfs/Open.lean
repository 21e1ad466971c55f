import Serotonin.Vfs.Chdir

/-! `sys_open` in `syscall.c`, with `vfs_open`, `vfs_create` and `split_path` of `vfs.c`, over any file
system. A path that leads to nothing is created on request, and the end of `sys_open` takes the new node
whether there is one or not. -/

namespace Serotonin.Vfs

open Function
open Files (VfsNode Cred vfsCheckPermission vfsCheckDirWrite wanted vfsFlagFile fdMax oRdonly oAppend
  oCreat oTrunc oExcl
  enoent eio eacces eexist enosys enametoolong)

/-- What is mounted, in any of its states. `create` gives no node where a directory has no such operation.
A truncation may change the size of a file and its data, not where the paths lead. -/
structure Driver (σ ν : Type) where
  tree : σ → Tree ν
  attrs : σ → ν → VfsNode
  opens : σ → ν → Bool
  create : σ → ν → Name → Option ν × σ
  truncate : σ → ν → Int × σ
  truncate_tree : ∀ fs n, tree (truncate fs n).2 = tree fs

structure Handle (ν : Type) where
  node : Option ν
  flags : BitVec 32
  offset : Nat
deriving DecidableEq

/-- The file systems, and the descriptors of the task; `handles` is the number of handles in memory. -/
structure State (σ ν : Type) where
  fs : σ
  fdTable : Nat → Option (Handle ν)
  handles : Nat
  errno : Int

/-- `malloc` is whether there is memory for a handle, `zero` what is read where a node at address zero
would be. -/
structure OpenReq where
  cwd : Name
  path : Name
  flags : BitVec 32
  cred : Cred
  malloc : Bool
  zero : VfsNode

variable {σ ν : Type}

def State.fail (s : State σ ν) (e : Int) : State σ ν := { s with errno := -e }

/-! ## Paths -/

/-- What is behind the last slash. -/
def afterLast (path : Name) : Name := (path.reverse.takeWhile (· ≠ slash)).reverse

def splitPath (path : Name) : Name × Name :=
  let tmp := path.take (pathMax - 1)
  match Paths.beforeLast slash tmp with
  | none => ([slash], tmp)
  | some [] => ([slash], afterLast tmp)
  | some parent => (parent, afterLast tmp)

namespace Driver

variable (D : Driver σ ν)

/-- The node that `vfs_resolve_path` returns. -/
def resolve (fs : σ) (path : Name) : Option ν :=
  match vfsResolvePath (D.tree fs) path with
  | .ok (o, _) => o.map Obj.node
  | .error _ => none

def vfsOpen (fs : σ) (path : Name) : Option ν := (D.resolve fs path).filter (D.opens fs)

def vfsCreate (fs : σ) (path : Name) : Option ν × σ :=
  match D.vfsOpen fs (splitPath path).1 with
  | none => (none, fs)
  | some dir => D.create fs dir (splitPath path).2

/-- Whether the task may not change the directory of the path. -/
def dirRefused (fs : σ) (path : Name) (cred : Cred) : Bool :=
  (D.resolve fs (splitPath path).1).any fun dir => vfsCheckDirWrite (D.attrs fs dir) cred != 0

/-! ## The call -/

/-- A read through the pointer to a node. -/
def read (fs : σ) (r : OpenReq) : Option ν → VfsNode
  | none => r.zero
  | some n => D.attrs fs n

def allocFd (s : State σ ν) : Option Nat := (List.range fdMax).find? fun fd => (s.fdTable fd).isNone

def openHandle (s : State σ ν) (node : Option ν) (r : OpenReq) : State σ ν :=
  if r.malloc = false then s.fail eio
  else
    let offset := if r.flags &&& oAppend ≠ 0 then (D.read s.fs r node).size else 0
    match allocFd s with
    | none => s.fail eio
    | some fd =>
      { s with
        fdTable := update s.fdTable fd (some ⟨node, r.flags, offset⟩)
        handles := s.handles + 1
        errno := fd }

/-- `vfs_truncate` to nothing, which refuses NULL. -/
def vfsTruncate (fs : σ) : Option ν → Int × σ
  | none => (-1, fs)
  | some n => D.truncate fs n

def truncates (fs : σ) (node : Option ν) (r : OpenReq) : Prop :=
  r.flags &&& oTrunc ≠ 0 ∧ r.flags &&& 3 ≠ oRdonly ∧ (D.read fs r node).flags &&& vfsFlagFile ≠ 0

instance (fs : σ) (node : Option ν) (r : OpenReq) : Decidable (D.truncates fs node r) := inferInstanceAs (Decidable (_ ∧ _))

/-- From the label `nodeCreated` on. -/
def nodeCreated (s : State σ ν) (node : Option ν) (r : OpenReq) : State σ ν :=
  if D.truncates s.fs node r then
    let (v, fs) := D.vfsTruncate s.fs node
    let s := { s with fs := fs }
    if v ≠ 0 then s.fail enosys else D.openHandle s node r
  else D.openHandle s node r

def sysOpen (s : State σ ν) (r : OpenReq) : State σ ν :=
  match buildAbsPath r.cwd r.path with
  | none => s.fail enametoolong
  | some absPath =>
    match D.vfsOpen s.fs absPath with
    | none =>
      if r.flags &&& oCreat ≠ 0 then
        if D.dirRefused s.fs absPath r.cred then s.fail eacces
        else
          let (node, fs) := D.vfsCreate s.fs absPath
          D.nodeCreated { s with fs := fs } node r
      else s.fail enoent
    | some n =>
      if r.flags &&& oCreat ≠ 0 ∧ r.flags &&& oExcl ≠ 0 then s.fail eexist
      else if wanted r.flags ≠ 0 ∧ vfsCheckPermission (D.attrs s.fs n) r.cred (wanted r.flags) ≠ 0 then s.fail eacces
      else D.nodeCreated s (some n) r

/-! ## What it has to do -/

/-- The descriptor is one of a handle with the node that the path leads to. -/
def Opened (s : State σ ν) (absPath : Name) : Prop :=
  0 ≤ s.errno → ∃ h n, s.fdTable s.errno.toNat = some h ∧ h.node = some n ∧ D.resolve s.fs absPath = some n

/-- The path leads to nothing, and a file cannot be made there. -/
def CannotCreate (fs : σ) (absPath : Name) (r : OpenReq) : Prop :=
  D.vfsOpen fs absPath = none ∧ r.flags &&& oCreat ≠ 0 ∧
    (D.dirRefused fs absPath r.cred = true ∨ (D.vfsCreate fs absPath).1 = none)

/-- An error, and nothing else. -/
def Unchanged (s s' : State σ ν) : Prop := s'.errno < 0 ∧ s' = { s with errno := s'.errno }

def OpenClean (s : State σ ν) (r : OpenReq) : Prop :=
  ∀ absPath, buildAbsPath r.cwd r.path = some absPath →
    D.Opened (D.sysOpen s r) absPath ∧ (D.CannotCreate s.fs absPath r → Unchanged s (D.sysOpen s r))

/-- The call fails behind `nodeCreated`: no memory for a handle, no free descriptor, or a truncation that
does not succeed. -/
def FailsLate (s : State σ ν) (node : Option ν) (r : OpenReq) : Prop :=
  r.malloc = false ∨ allocFd s = none ∨ (D.truncates s.fs node r ∧ (D.vfsTruncate s.fs node).1 ≠ 0)

/-- If a file is to be made, then the path leads to the node that the driver makes; or the driver makes none
and changes nothing, and the call fails for another reason. -/
def MayCreate (s : State σ ν) (r : OpenReq) : Prop :=
  ∀ absPath, buildAbsPath r.cwd r.path = some absPath → D.vfsOpen s.fs absPath = none → r.flags &&& oCreat ≠ 0 →
    D.dirRefused s.fs absPath r.cred = false →
      match D.vfsCreate s.fs absPath with
      | (some n, fs) => D.resolve fs absPath = some n ∨ D.FailsLate { s with fs := fs } (some n) r
      | (none, fs) => fs = s.fs ∧ D.FailsLate s none r

variable {D} {s : State σ ν} {r : OpenReq} {node : Option ν} {absPath : Name}

theorem resolve_congr {fs fs' : σ} (h : D.tree fs' = D.tree fs) : D.resolve fs' absPath = D.resolve fs absPath := by
  unfold resolve
  rw [h]

/-- A handle with its descriptor, or an error. -/
theorem openHandle_cases (s : State σ ν) (node : Option ν) (r : OpenReq) :
    ((r.malloc = false ∨ allocFd s = none) ∧ D.openHandle s node r = s.fail eio) ∨
      ∃ fd h, r.malloc = true ∧ allocFd s = some fd ∧ h.node = node ∧
        D.openHandle s node r = { s with fdTable := update s.fdTable fd (some h), handles := s.handles + 1, errno := fd } := by
  unfold openHandle
  cases hmalloc : r.malloc with
  | false => exact .inl ⟨.inl rfl, if_pos rfl⟩
  | true =>
    rw [if_neg nofun]
    cases halloc : allocFd s with
    | none => exact .inl ⟨.inr rfl, rfl⟩
    | some fd => exact .inr ⟨fd, _, rfl, rfl, rfl, rfl⟩

/-- The end of `sys_open` fails, or the descriptor has a handle with the node that was given. -/
theorem nodeCreated_cases (s : State σ ν) (node : Option ν) (r : OpenReq) :
    (D.FailsLate s node r ∧ ∃ fs e, 0 < e ∧ (node = none → fs = s.fs) ∧
        D.nodeCreated s node r = State.fail { s with fs := fs } e) ∨
      (¬D.FailsLate s node r ∧ ∃ fs fd h, D.tree fs = D.tree s.fs ∧ h.node = node ∧
        D.nodeCreated s node r =
          { s with fs := fs, fdTable := update s.fdTable fd (some h), handles := s.handles + 1, errno := fd }) := by
  unfold nodeCreated
  by_cases htrunc : D.truncates s.fs node r
  · rw [if_pos htrunc]
    dsimp only
    by_cases hv : (D.vfsTruncate s.fs node).1 ≠ 0
    · rw [if_pos hv]
      refine .inl ⟨.inr (.inr ⟨htrunc, hv⟩), _, enosys, by decide, fun hnone => ?_, rfl⟩
      rw [hnone]
      rfl
    · rw [if_neg hv]
      have hsome : node ≠ none := by
        rintro rfl
        exact hv (by change (-1 : Int) ≠ 0; decide)
      have htree : D.tree (D.vfsTruncate s.fs node).2 = D.tree s.fs := by
        cases node with
        | none => rfl
        | some n => exact D.truncate_tree _ _
      rcases openHandle_cases { s with fs := (D.vfsTruncate s.fs node).2 } node r with ⟨hfail, hrun⟩ | ⟨fd, h, hm, ha, hnode, hrun⟩
      · exact .inl ⟨hfail.imp id .inl, _, eio, by decide, fun hnone => absurd hnone hsome, hrun⟩
      · refine .inr ⟨?_, _, fd, h, htree, hnode, hrun⟩
        rintro (hno | hno | ⟨-, hno⟩)
        · exact absurd (hm.symm.trans hno) nofun
        · exact absurd (ha.symm.trans hno) nofun
        · exact hv hno
  · rw [if_neg htrunc]
    rcases openHandle_cases s node r with ⟨hfail, hrun⟩ | ⟨fd, h, hm, ha, hnode, hrun⟩
    · exact .inl ⟨hfail.imp id .inl, s.fs, eio, by decide, fun _ => rfl, hrun⟩
    · refine .inr ⟨?_, s.fs, fd, h, rfl, hnode, hrun⟩
      rintro (hno | hno | ⟨hno, -⟩)
      · exact absurd (hm.symm.trans hno) nofun
      · exact absurd (ha.symm.trans hno) nofun
      · exact htrunc hno

theorem opened_of_fail {s : State σ ν} {e : Int} (he : 0 < e) : D.Opened (s.fail e) absPath := by
  intro h0
  have hneg : (s.fail e).errno = -e := rfl
  omega

/-- With a node that the path leads to, the end of `sys_open` is right. -/
theorem opened_nodeCreated {n : ν} (h : D.resolve s.fs absPath = some n ∨ D.FailsLate s (some n) r) :
    D.Opened (D.nodeCreated s (some n) r) absPath := by
  rcases nodeCreated_cases s (some n) r with ⟨-, fs, e, he, -, hrun⟩ | ⟨hno, fs, fd, hd, htree, hnode, hrun⟩
  · rw [hrun]
    exact opened_of_fail he
  · rw [hrun]
    refine fun _ => ⟨hd, n, ?_, hnode, ?_⟩
    · exact update_self ..
    · rw [resolve_congr htree]
      exact h.resolve_right hno

theorem vfsOpen_resolve {fs : σ} {n : ν} (h : D.vfsOpen fs absPath = some n) : D.resolve fs absPath = some n :=
  (Option.filter_eq_some_iff.mp h).1

/-- `sys_open` on a path that is to be created. -/
theorem sysOpen_create (habs : buildAbsPath r.cwd r.path = some absPath) (hopen : D.vfsOpen s.fs absPath = none)
    (hcreat : r.flags &&& oCreat ≠ 0) (hdir : D.dirRefused s.fs absPath r.cred = false) :
    D.sysOpen s r = D.nodeCreated { s with fs := (D.vfsCreate s.fs absPath).2 } (D.vfsCreate s.fs absPath).1 r := by
  unfold sysOpen
  rw [habs]
  dsimp only
  rw [hopen]
  dsimp only
  rw [if_pos hcreat, hdir, if_neg nofun]

/-- The NULL of a create that fails is taken for a node. So `sys_open` is right as long as creates succeed,
or where the failure of the create is followed by another. -/
theorem openClean_iff (D : Driver σ ν) (s : State σ ν) (r : OpenReq) : D.OpenClean s r ↔ D.MayCreate s r := by
  constructor
  · intro hclean absPath habs hopen hcreat hdir
    obtain ⟨hopened, hfailed⟩ := hclean absPath habs
    rw [sysOpen_create habs hopen hcreat hdir] at hopened hfailed
    cases hnew : D.vfsCreate s.fs absPath with
    | mk node fs =>
      rw [hnew] at hopened hfailed
      cases node with
      | some n =>
        rcases nodeCreated_cases { s with fs := fs } (some n) r with ⟨hfail, -⟩ | ⟨-, fs', fd, h, htree, hnode, hrun⟩
        · exact .inr hfail
        · rw [hrun] at hopened
          obtain ⟨h', n', hfd, hn', hres⟩ := hopened (Int.natCast_nonneg fd)
          have hsame : h' = h := Option.some.inj (hfd.symm.trans (Function.update_self ..))
          cases (hsame ▸ hn').symm.trans hnode
          exact .inl ((resolve_congr htree).symm.trans hres)
      | none =>
        obtain ⟨hneg, hsame⟩ := hfailed ⟨hopen, hcreat, .inr (by rw [hnew])⟩
        rcases nodeCreated_cases { s with fs := fs } none r with ⟨hfail, fs', e, he, hfs, hrun⟩ | ⟨-, fs', fd, h, -, -, hrun⟩
        · rw [hrun] at hsame
          have hsamefs : fs = s.fs := (hfs rfl).symm.trans (congrArg State.fs hsame)
          subst hsamefs
          exact ⟨rfl, hfail⟩
        · rw [hrun] at hneg
          exact absurd hneg (Int.not_lt.mpr (Int.natCast_nonneg fd))
  · intro hmay absPath habs
    cases hopen : D.vfsOpen s.fs absPath with
    | some n =>
      refine ⟨?_, fun h => absurd (hopen.symm.trans h.1) nofun⟩
      unfold sysOpen
      rw [habs]
      dsimp only
      rw [hopen]
      dsimp only
      split
      · exact opened_of_fail (by decide)
      · split
        · exact opened_of_fail (by decide)
        · exact opened_nodeCreated (.inl (vfsOpen_resolve hopen))
    | none =>
      by_cases hcreat : r.flags &&& oCreat ≠ 0
      · cases hdir : D.dirRefused s.fs absPath r.cred with
        | true =>
          have hrun : D.sysOpen s r = s.fail eacces := by
            unfold sysOpen
            rw [habs]
            dsimp only
            rw [hopen]
            dsimp only
            rw [if_pos hcreat, hdir, if_pos rfl]
          rw [hrun]
          exact ⟨opened_of_fail (by decide), fun _ => ⟨by change -eacces < 0; decide, rfl⟩⟩
        | false =>
          have hnew := hmay absPath habs hopen hcreat hdir
          rw [sysOpen_create habs hopen hcreat hdir]
          cases hcreate : D.vfsCreate s.fs absPath with
          | mk node fs =>
            rw [hcreate] at hnew
            cases node with
            | some n =>
              refine ⟨opened_nodeCreated hnew, fun hcannot => ?_⟩
              rcases hcannot.2.2 with hrefused | hnone
              · exact absurd (hdir.symm.trans hrefused) nofun
              · rw [hcreate] at hnone
                cases hnone
            | none =>
              obtain ⟨rfl, hlate⟩ := hnew
              rcases nodeCreated_cases s none r with ⟨-, fs, e, he, hfs, hrun⟩ | ⟨hno, -⟩
              · obtain rfl := hfs rfl
                change D.Opened (D.nodeCreated s none r) absPath ∧ (_ → Unchanged s (D.nodeCreated s none r))
                rw [hrun]
                exact ⟨opened_of_fail he, fun _ => ⟨by change -e < 0; omega, rfl⟩⟩
              · exact absurd hlate hno
      · have hrun : D.sysOpen s r = s.fail enoent := by
          unfold sysOpen
          rw [habs]
          dsimp only
          rw [hopen]
          dsimp only
          rw [if_neg hcreat]
        rw [hrun]
        exact ⟨opened_of_fail (by decide), fun h => absurd h.2.1 hcreat⟩

end Driver

/-! ## A directory of files -/

/-- The root directory and the files in it, by their names. -/
def flatTree (fs : List Name) : Tree (Option Name) where
  root := none
  isDirectory n := n.isNone
  isDisk _ := false
  finddir n name := if n = none ∧ name ∈ fs then some (some name) else none
  mounts := []

def flatDriver : Driver (List Name) (Option Name) where
  tree := flatTree
  attrs _ n := { size := 0, flags := if n.isNone then 2 else vfsFlagFile, uid := 0, gid := 0, mode := 0 }
  opens _ _ := true
  create fs n name := if n = none then (some (some name), name :: fs) else (none, fs)
  truncate fs _ := (0, fs)
  truncate_tree _ _ := rfl

def emptyState : State (List Name) (Option Name) where
  fs := []
  fdTable _ := none
  handles := 0
  errno := 0

/-- An open of the path for writing, by root, that may make the file. -/
def createReq (path : Name) : OpenReq where
  cwd := [slash]
  path := path
  flags := oCreat ||| 1
  cred := { uid := 0, gid := 0, euid := 0, egid := 0, groups := [] }
  malloc := true
  zero := { size := 0, flags := 0, uid := 0, gid := 0, mode := 0 }

/-- Where the directory of the path is missing, the descriptor is one of a handle without a node. -/
theorem not_openClean : ¬flatDriver.OpenClean emptyState (createReq [47, 120, 47, 121]) := by
  intro hclean
  have habs : buildAbsPath [slash] [47, 120, 47, 121] = some [47, 120, 47, 121] := by decide
  have hrun : (flatDriver.sysOpen emptyState (createReq [47, 120, 47, 121])).errno = 0 := by decide
  have hnode : (flatDriver.sysOpen emptyState (createReq [47, 120, 47, 121])).fdTable 0 = some ⟨none, oCreat ||| 1, 0⟩ := by
    decide
  obtain ⟨h, n, hfd, hn, -⟩ := (hclean _ habs).1 (Int.le_of_eq hrun.symm)
  rw [hrun] at hfd
  cases hfd.symm.trans hnode
  cases hn

end Serotonin.Vfs
