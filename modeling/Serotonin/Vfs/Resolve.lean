import Serotonin.Lib.Paths

/-! `vfs_resolve_path` of `vfs.c`, over whatever the lookups of the mounted file systems find. The nodes
that a lookup makes for an entry on disk are numbered in the order in which they are made. -/

namespace Serotonin.Vfs

abbrev Name := List UInt8

def slash : UInt8 := 47
def dot : Name := [46]
def dotdot : Name := [46, 46]

/-- The size of a buffer for a path. -/
def pathMax : Nat := 256

/-- The sizes of `stack` and `diskio_allocs`. -/
def stackMax : Nat := 64
def allocsMax : Nat := 64

/-- What is mounted. A node without `finddir` finds nothing. -/
structure Tree (ν : Type) where
  root : ν
  isDirectory : ν → Bool
  isDisk : ν → Bool
  finddir : ν → Name → Option ν
  mounts : List (Name × ν)

/-- A node in memory, with its number if the walk has made it. -/
structure Obj (ν : Type) where
  node : ν
  number : Option Nat
deriving DecidableEq

/-- The variables of the loop; `stack` has its top first, and `made` counts the nodes on disk. -/
structure Walk (ν : Type) where
  current : Obj ν
  stack : List (Obj ν)
  resolved : Name
  allocs : List Nat
  made : Nat

inductive Fault where
  | freed (number : Nat)
deriving DecidableEq

variable {ν : Type} (T : Tree ν)

def vfsLookupMount (path : Name) : Option ν := T.mounts.lookup path

/-! ## One token -/

/-- `resolved` up to its last slash. -/
def popLast (resolved : Name) : Name :=
  match Paths.beforeLast slash resolved with
  | none => resolved
  | some [] => [slash]
  | some before => before

/-- `next_path`, if it fits. -/
def nextPath (resolved token : Name) : Option Name :=
  if 1 < resolved.length then
    if pathMax ≤ resolved.length + 1 then none
    else if pathMax ≤ resolved.length + 1 + token.length then none
    else some (resolved ++ slash :: token)
  else if pathMax ≤ 1 + token.length then none
  else some (slash :: token)

namespace Walk

def start : Walk ν where
  current := ⟨T.root, none⟩
  stack := [⟨T.root, none⟩]
  resolved := [slash]
  allocs := []
  made := 0

def up (w : Walk ν) : Walk ν :=
  match w.stack with
  | _ :: d :: below =>
    { w with
      current := d
      stack := d :: below
      resolved := if 1 < w.resolved.length then popLast w.resolved else w.resolved }
  | _ => w

/-- The node is the current one from now on, and remembered if the stack has room. -/
def enter (w : Walk ν) (o : Obj ν) (next : Name) : Walk ν :=
  { w with
    current := o
    stack := if w.stack.length < stackMax then o :: w.stack else w.stack
    resolved := next }

/-- What `finddir` has found; a node on disk is noted if `diskio_allocs` has room. -/
def take (w : Walk ν) (child : ν) (next : Name) : Walk ν :=
  if T.isDisk child then
    { w with
      allocs := if w.allocs.length < allocsMax then w.allocs ++ [w.made] else w.allocs
      made := w.made + 1 }.enter ⟨child, some w.made⟩ next
  else w.enter ⟨child, none⟩ next

def down (w : Walk ν) (token : Name) : Option (Walk ν) :=
  if T.isDirectory w.current.node then
    match nextPath w.resolved token with
    | none => none
    | some next =>
      match vfsLookupMount T next with
      | some m => some (w.enter ⟨m, none⟩ next)
      | none =>
        match T.finddir w.current.node token with
        | none => none
        | some child => some (w.take T child next)
  else none

def component (w : Walk ν) (token : Name) : Option (Walk ν) :=
  if token = dot then some w else if token = dotdot then some w.up else w.down T token

end Walk

/-! ## The whole path -/

/-- The loop over the tokens, with the variables as it leaves them. -/
def resolveTokens : List Name → Walk ν → Option (Obj ν) × Walk ν
  | [], w => (some w.current, w)
  | token :: tokens, w =>
    match w.component T token with
    | none => (none, w)
    | some w => resolveTokens tokens w

/-- `vfs_put`, of a node that the walk has made. -/
def vfsPut (number : Nat) (live : List Nat) : Except Fault (List Nat) :=
  if number ∈ live then .ok (live.erase number) else .error (.freed number)

def resolveCleanup (keep : Option Nat) : List Nat → List Nat → Except Fault (List Nat)
  | [], live => .ok live
  | number :: allocs, live =>
    if some number = keep then resolveCleanup keep allocs live
    else do
      let live ← vfsPut number live
      resolveCleanup keep allocs live

/-- The node, and which of the nodes that were made are in memory still. -/
def vfsResolvePath (path : Name) : Except Fault (Option (Obj ν) × List Nat) :=
  if path.head? = some slash then do
    let (r, w) := resolveTokens T (Paths.parts slash (path.take (pathMax - 1))) (Walk.start T)
    let live ← resolveCleanup (r.bind Obj.number) w.allocs (List.range w.made)
    return (r, live)
  else return (none, [])

end Serotonin.Vfs
