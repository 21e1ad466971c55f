import Serotonin.Files.Model
import Serotonin.Vfs.Lookup

/-! `sys_chdir` in `syscall.c`, which resolves a path first and then brings it into a canonical form. -/

namespace Serotonin.Vfs

open List
open Files (enoent enametoolong eacces)
open Paths (text IsPart)

def enotdir : Int := 20

/-- The size of `segments`. -/
def segmentsMax : Nat := 64

inductive Stop where
  | vfs (f : Fault)
  | outOfRange (index : Nat)
deriving DecidableEq

variable {ν : Type} (T : Tree ν)

def buildAbsPath (cwd path : Name) : Option Name :=
  if path.head? = some slash then
    if pathMax ≤ path.length then none else some path
  else if 1 < cwd.length then
    if pathMax < cwd.length + 1 + path.length + 1 then none else some (cwd ++ slash :: path)
  else if pathMax < cwd.length + path.length + 1 then none
  else some (cwd ++ path)

/-- One component of the path; `segments` has the last one first. -/
def segmentStep (segments : List Name) (part : Name) : Except Stop (List Name) :=
  if part = dot then .ok segments
  else if part = dotdot then .ok segments.tail
  else if segments.length < segmentsMax then .ok (part :: segments)
  else .error (.outOfRange segments.length)

def segmentsOf (segments : List Name) : List Name → Except Stop (List Name)
  | [] => .ok segments
  | part :: parts =>
    match segmentStep segments part with
    | .error e => .error e
    | .ok segments => segmentsOf segments parts

/-- The loop that writes the segments behind `out`, and whether there is room for them. -/
def copySegments (out : Name) (remaining : Nat) : List Name → Bool × Name
  | [] => (true, out)
  | segment :: segments =>
    if remaining < segment.length + 2 then (false, out)
    else copySegments (out ++ slash :: segment) (remaining - (segment.length + 1)) segments

def rebuildCwd (cwd : Name) (segments : List Name) : Int × Name :=
  if segments = [] then (0, [slash])
  else
    match copySegments [] pathMax segments.reverse with
    | (true, out) => (0, out)
    | (false, out) => (-enametoolong, out ++ cwd.drop out.length)

/-- `vfs_put` of the node that the path leads to. -/
def putNode (o : Obj ν) (live : List Nat) : Except Stop (List Nat) :=
  match o.number with
  | none => .ok live
  | some number => (vfsPut number live).mapError .vfs

/-- The result, and `cwd` as it is left; `mayExec` is `vfs_check_permission` for `PERM_EXEC`. -/
def sysChdir (mayExec : ν → Bool) (cwd path : Name) : Except Stop (Int × Name) :=
  match buildAbsPath cwd path with
  | none => .ok (-enametoolong, cwd)
  | some absPath => do
    match ← (vfsResolvePath T absPath).mapError .vfs with
    | (none, _) => return (-enoent, cwd)
    | (some o, live) => do
      let _ ← putNode o live
      if T.isDirectory o.node = false then return (-enotdir, cwd)
      else if mayExec o.node = false then return (-eacces, cwd)
      else do
        let segments ← segmentsOf [] (Paths.parts slash (absPath.take (pathMax - 1)))
        return rebuildCwd cwd segments

/-! ## What a `chdir` has to do -/

/-- A component of a canonical path. -/
def IsName (p : Name) : Prop := IsPart slash p ∧ p ≠ dot ∧ p ≠ dotdot

def Canonical (path : Name) : Prop := ∃ l, (∀ p ∈ l, IsName p) ∧ path = showPath l

def NodeAt (path : Name) (n : ν) : Prop := ∃ o live, vfsResolvePath T path = .ok (some o, live) ∧ o.node = n

/-- No access outside an array; a new `cwd` that is canonical and leads to the directory that the path leads
to, or the old one. -/
def ChdirOk (mayExec : ν → Bool) (cwd path : Name) : Prop :=
  ∃ ret cwd', sysChdir T mayExec cwd path = .ok (ret, cwd') ∧
    (ret = 0 → Canonical cwd' ∧ ∃ absPath n, buildAbsPath cwd path = some absPath ∧ NodeAt T absPath n ∧
      T.isDirectory n = true ∧ NodeAt T cwd' n) ∧
    (ret ≠ 0 → cwd' = cwd)

/-- The path leads to a directory that may be entered. -/
def Accepted (mayExec : ν → Bool) (parts : List Name) : Prop :=
  Reached T [] parts ∧ ∃ n, lookup T (normalize parts) = some n ∧ T.isDirectory n = true ∧ mayExec n = true

/-- No more than 64 components are open at a time. -/
def FewOpen (l : List Name) : List Name → Prop
  | [] => True
  | part :: parts => (normStep l part).length ≤ segmentsMax ∧ FewOpen (normStep l part) parts

variable {T} {mayExec : ν → Bool} {cwd path absPath : Name} {l parts : List Name} {part : Name}

theorem buildAbsPath_isPath (hcwd : cwd.head? = some slash) (h : buildAbsPath cwd path = some absPath) : IsPath absPath := by
  obtain ⟨s, rfl⟩ := List.head?_eq_some_iff.mp hcwd
  unfold buildAbsPath at h
  split at h
  · next habs =>
    split at h
    · cases h
    · next hlen =>
      cases h
      exact ⟨habs, Nat.lt_of_not_le hlen⟩
  · split at h
    · split at h
      · cases h
      · cases h
        refine ⟨rfl, ?_⟩
        simp only [length_append, length_cons] at *
        omega
    · split at h
      · cases h
      · cases h
        refine ⟨rfl, ?_⟩
        simp only [length_append, length_cons] at *
        omega

/-! ## Canonical paths -/

theorem isName_normStep (hl : ∀ c ∈ l, IsName c) (hpart : IsPart slash part) : ∀ c ∈ normStep l part, IsName c := by
  unfold normStep
  split
  · exact hl
  · next hdot =>
    split
    · exact fun c hc => hl c (mem_of_mem_tail hc)
    · next hup => exact forall_mem_cons.mpr ⟨⟨hpart, hdot, hup⟩, hl⟩

theorem isName_foldl : ∀ {parts l : List Name}, (∀ c ∈ l, IsName c) → (∀ p ∈ parts, IsPart slash p) →
    ∀ c ∈ parts.foldl normStep l, IsName c
  | [], _, hl, _ => hl
  | part :: parts, l, hl, h => by
    obtain ⟨hpart, hparts⟩ := forall_mem_cons.mp h
    rw [foldl_cons]
    exact isName_foldl (isName_normStep hl hpart) hparts

theorem length_text_foldl : ∀ (parts l : List Name),
    (text slash (parts.foldl normStep l)).length ≤ (text slash l).length + (parts.map fun p => p.length + 1).sum
  | [], _ => Nat.le_refl _
  | part :: parts, l => by
    have hstep := length_text_normStep l part
    have hrest := length_text_foldl parts (normStep l part)
    rw [map_cons, sum_cons, foldl_cons]
    omega

theorem IsPath.length_text_normalize (h : IsPath path) : (text slash (normalize (Paths.parts slash path))).length < pathMax := by
  have hsum := h.sum_parts_lt
  have hle := length_text_foldl (Paths.parts slash path) []
  simp only [text, length_nil, Nat.zero_add] at hle
  exact Nat.lt_of_le_of_lt hle hsum

/-- Names are only pushed. -/
theorem foldl_names : ∀ {names l : List Name}, (∀ p ∈ names, IsName p) → names.foldl normStep l = names.reverse ++ l
  | [], _, _ => rfl
  | p :: names, l, h => by
    obtain ⟨⟨-, hdot, hup⟩, hnames⟩ := forall_mem_cons.mp h
    rw [foldl_cons, normStep_name hdot hup, foldl_names hnames]
    simp

theorem inStep_names : ∀ {names l : List Name}, (∀ p ∈ names, IsName p) → InStep T l names
  | [], _, _ => trivial
  | _ :: _, _, h => ⟨fun hup => absurd hup (h _ mem_cons_self).2.2,
      fun _ => inStep_names fun q hq => h q (mem_cons_of_mem _ hq)⟩

theorem removedDirs_names : ∀ {names l : List Name}, (∀ p ∈ names, IsName p) → RemovedDirs T l names
  | [], _, _ => trivial
  | _ :: _, _, h => ⟨fun hup => absurd hup (h _ mem_cons_self).2.2,
      removedDirs_names fun q hq => h q (mem_cons_of_mem _ hq)⟩

theorem parts_showPath (h : ∀ p ∈ l, IsName p) : Paths.parts slash (showPath l) = l.reverse := by
  cases l with
  | nil => decide
  | cons c l => exact Paths.parts_text fun p hp => (h p hp).1

theorem showPath_isPath (hlen : (text slash l).length < pathMax) : IsPath (showPath l) := by
  cases l with
  | nil => exact ⟨rfl, by decide⟩
  | cons c l =>
    refine ⟨?_, hlen⟩
    have hhead : ∀ (l : List Name) (c : Name), (text slash (c :: l)).head? = some slash := by
      intro l
      induction l with
      | nil => exact fun _ => rfl
      | cons d l ih =>
        intro c
        rw [text, List.head?_append, ih d]
        rfl
    exact hhead l c

theorem nodeAt_of_walked {o : Obj ν} (h : (walked T path).1 = some o) : NodeAt T path o.node := by
  obtain ⟨live, hrun, -⟩ := vfsResolvePath_spec T path
  exact ⟨o, live, h ▸ hrun, rfl⟩

/-- A canonical path leads where its components lead. -/
theorem nodeAt_showPath {n : ν} (hl : ∀ p ∈ l, IsName p) (hlen : (text slash l).length < pathMax) (hn : lookup T l = some n) :
    NodeAt T (showPath l) n := by
  have hnames : ∀ p ∈ l.reverse, IsName p := fun p hp => hl p (mem_reverse.mp hp)
  have hparts := parts_showPath hl
  have hfold : l.reverse.foldl normStep [] = l := by
    rw [foldl_names hnames, reverse_reverse, append_nil]
  obtain ⟨hyes, -⟩ := (showPath_isPath hlen).walked_spec (T := T) (hparts ▸ inStep_names hnames)
  rw [hparts, normalize, hfold, hn] at hyes
  obtain ⟨o, ho, hnode⟩ := hyes (reached_of_normal (removedDirs_names hnames) (by rw [hfold, hn]; exact nofun))
  cases hnode
  exact nodeAt_of_walked ho

/-! ## The two arrays -/

theorem segmentsOf_of_few : ∀ {parts l : List Name}, FewOpen l parts → segmentsOf l parts = .ok (parts.foldl normStep l)
  | [], _, _ => rfl
  | part :: parts, l, h => by
    have hstep : segmentStep l part = .ok (normStep l part) := by
      have hlen := h.1
      unfold segmentStep
      unfold normStep at hlen ⊢
      split
      · rfl
      · split
        · rfl
        · next hdot hup =>
          rw [if_neg hdot, if_neg hup] at hlen
          exact if_pos hlen
    rw [segmentsOf, hstep]
    exact segmentsOf_of_few h.2

theorem segmentsOf_of_many : ∀ {parts l : List Name}, l.length ≤ segmentsMax → ¬FewOpen l parts →
    ∃ e, segmentsOf l parts = .error e
  | [], _, _, h => absurd trivial h
  | part :: parts, l, hl, h => by
    have hnext : ∀ l', segmentStep l part = .ok l' → l' = normStep l part ∧ (normStep l part).length ≤ segmentsMax := by
      intro l' hrun
      unfold segmentStep at hrun
      unfold normStep
      split at hrun
      · next hdot =>
        cases hrun
        rw [if_pos hdot]
        exact ⟨rfl, hl⟩
      · next hdot =>
        rw [if_neg hdot]
        split at hrun
        · next hup =>
          cases hrun
          rw [if_pos hup]
          exact ⟨rfl, Nat.le_trans (by simp) hl⟩
        · next hup =>
          rw [if_neg hup]
          split at hrun
          · next hroom =>
            cases hrun
            exact ⟨rfl, hroom⟩
          · cases hrun
    unfold segmentsOf
    cases hrun : segmentStep l part with
    | error e => exact ⟨e, rfl⟩
    | ok l' =>
      obtain ⟨rfl, hlen⟩ := hnext l' hrun
      exact segmentsOf_of_many hlen fun hfew => h ⟨hlen, hfew⟩

/-- The text that was short enough for `abs_path` is short enough for `cwd`. -/
theorem copySegments_eq : ∀ {segments l : List Name}, (text slash (segments.reverse ++ l)).length < pathMax →
    copySegments (text slash l) (pathMax - (text slash l).length) segments = (true, text slash (segments.reverse ++ l))
  | [], _, _ => rfl
  | segment :: segments, l, h => by
    have happ : (segment :: segments).reverse ++ l = segments.reverse ++ (segment :: l) := by simp
    rw [happ] at h ⊢
    have hnext : (text slash (segment :: l)).length = (text slash l).length + (segment.length + 1) := by
      simp [text]
    have hle : (text slash (segment :: l)).length ≤ (text slash (segments.reverse ++ (segment :: l))).length := by
      rw [Paths.length_text, Paths.length_text, map_append, sum_append]
      exact Nat.le_add_left _ _
    rw [copySegments, if_neg (by omega)]
    have hrest := copySegments_eq h
    rw [hnext, Nat.sub_add_eq] at hrest
    exact hrest

theorem rebuildCwd_eq (hlen : (text slash l).length < pathMax) : rebuildCwd cwd l = (0, showPath l) := by
  cases l with
  | nil => rfl
  | cons c l =>
    have hcopy : copySegments (text slash []) (pathMax - (text slash []).length) (c :: l).reverse =
        (true, text slash ((c :: l).reverse.reverse ++ [])) := copySegments_eq (by simpa using hlen)
    rw [reverse_reverse, append_nil] at hcopy
    unfold rebuildCwd
    rw [if_neg (cons_ne_nil c l)]
    change (match copySegments (text slash []) (pathMax - (text slash []).length) (c :: l).reverse with
      | (true, out) => (0, out)
      | (false, out) => (-enametoolong, out ++ cwd.drop out.length)) = _
    rw [hcopy]
    rfl

/-! ## The call -/

/-- The node of a walk can be put: it was kept. -/
theorem putNode_ok {o : Obj ν} {live : List Nat} (hrun : vfsResolvePath T path = .ok (some o, live)) :
    ∃ live', putNode o live = .ok live' := by
  obtain ⟨live', hrun', -, hmem⟩ := vfsResolvePath_spec T path
  obtain ⟨hwalked, rfl⟩ := Prod.mk.inj (Except.ok.inj (hrun'.symm.trans hrun))
  unfold putNode
  cases hnumber : o.number with
  | none => exact ⟨live', rfl⟩
  | some k =>
    have hin : k ∈ live' := (hmem k).mpr ⟨noted_walked.2 o hwalked k hnumber, fun _ => by rw [hwalked]; exact hnumber⟩
    refine ⟨live'.erase k, ?_⟩
    simp only [vfsPut, if_pos hin]
    rfl

/-- What the call does once the path has led to a node. -/
theorem sysChdir_found (mayExec : ν → Bool) {o : Obj ν} (habs : buildAbsPath cwd path = some absPath) (hwalked : (walked T absPath).1 = some o) :
    sysChdir T mayExec cwd path =
      if T.isDirectory o.node = false then .ok (-enotdir, cwd)
      else if mayExec o.node = false then .ok (-eacces, cwd)
      else (segmentsOf [] (Paths.parts slash (absPath.take (pathMax - 1)))).map (rebuildCwd cwd) := by
  obtain ⟨live, hrun, -⟩ := vfsResolvePath_spec T absPath
  rw [hwalked] at hrun
  obtain ⟨live', hput⟩ := putNode_ok hrun
  unfold sysChdir
  rw [habs]
  dsimp only
  rw [hrun]
  simp only [Except.mapError, bind, Except.bind, hput, pure, Except.pure]
  split
  · rfl
  · split
    · rfl
    · cases segmentsOf [] (Paths.parts slash (absPath.take (pathMax - 1))) <;> rfl

theorem sysChdir_missing (habs : buildAbsPath cwd path = some absPath) (hwalked : (walked T absPath).1 = none) :
    sysChdir T mayExec cwd path = .ok (-enoent, cwd) := by
  obtain ⟨live, hrun, -⟩ := vfsResolvePath_spec T absPath
  rw [hwalked] at hrun
  unfold sysChdir
  rw [habs]
  dsimp only
  rw [hrun]
  rfl

/-- A failure that leaves `cwd` as it was is right. -/
theorem chdirOk_of_failed {ret : Int} (h : sysChdir T mayExec cwd path = .ok (ret, cwd)) (hret : ret ≠ 0) :
    ChdirOk T mayExec cwd path := ⟨ret, cwd, h, fun h0 => absurd h0 hret, fun _ => rfl⟩

/-- While the stack of `vfs_resolve_path` is in step, the one thing that can go wrong is the array of the
segments, which has room for 64. -/
theorem chdirOk_iff (hcwd : cwd.head? = some slash)
    (hstep : ∀ absPath, buildAbsPath cwd path = some absPath → InStep T [] (Paths.parts slash absPath)) :
    ChdirOk T mayExec cwd path ↔ ∀ absPath, buildAbsPath cwd path = some absPath →
      Accepted T mayExec (Paths.parts slash absPath) → FewOpen [] (Paths.parts slash absPath) := by
  cases habs : buildAbsPath cwd path with
  | none =>
    have hlong : sysChdir T mayExec cwd path = .ok (-enametoolong, cwd) := by
      unfold sysChdir
      rw [habs]
    exact ⟨fun _ _ h => absurd h nofun, fun _ => chdirOk_of_failed hlong (by decide)⟩
  | some absPath =>
    have hpath := buildAbsPath_isPath hcwd habs
    have htake : absPath.take (pathMax - 1) = absPath := List.take_of_length_le (Nat.le_sub_one_of_lt hpath.short)
    obtain ⟨hyes, hno⟩ := hpath.walked_spec (hstep absPath habs)
    constructor
    · rintro ⟨ret, cwd', hrun, -⟩ _ heq ⟨hreached, n, hn, hdir, hexec⟩
      cases heq
      obtain ⟨o, ho, hnode⟩ := hyes hreached
      cases hnode.symm.trans hn
      rw [sysChdir_found mayExec habs ho, hdir, hexec, if_neg nofun, if_neg nofun, htake] at hrun
      by_contra hmany
      obtain ⟨e, he⟩ := segmentsOf_of_many (Nat.zero_le _) hmany
      rw [he] at hrun
      cases hrun
    · intro hfew
      by_cases hreached : Reached T [] (Paths.parts slash absPath)
      · obtain ⟨o, ho, hnode⟩ := hyes hreached
        have hfound := sysChdir_found mayExec habs ho
        cases hdir : T.isDirectory o.node with
        | false =>
          rw [hdir, if_pos rfl] at hfound
          exact chdirOk_of_failed hfound (by decide)
        | true =>
          cases hexec : mayExec o.node with
          | false =>
            rw [hdir, hexec, if_neg nofun, if_pos rfl] at hfound
            exact chdirOk_of_failed hfound (by decide)
          | true =>
            have hlen := hpath.length_text_normalize
            have hnames : ∀ p ∈ normalize (Paths.parts slash absPath), IsName p :=
              isName_foldl nofun fun p hp => Paths.isPart_of_mem hp
            rw [hdir, hexec, if_neg nofun, if_neg nofun, htake,
              segmentsOf_of_few (hfew absPath rfl ⟨hreached, o.node, hnode, hdir, hexec⟩)] at hfound
            change _ = Except.ok (rebuildCwd cwd (normalize (Paths.parts slash absPath))) at hfound
            rw [rebuildCwd_eq hlen] at hfound
            refine ⟨0, _, hfound, fun _ => ⟨⟨_, hnames, rfl⟩, absPath, o.node, habs, ?_, hdir, ?_⟩, fun h => absurd rfl h⟩
            · exact nodeAt_of_walked ho
            · exact nodeAt_showPath hnames hlen hnode
      · exact chdirOk_of_failed (sysChdir_missing habs (hno hreached)) (by decide)

/-- `..` from `/a/a` -/
theorem chdirOk_up : ChdirOk nested (fun _ => true) [47, 97, 47, 97] dotdot := by
  have habs : buildAbsPath [47, 97, 47, 97] dotdot = some [47, 97, 47, 97, 47, 46, 46] := by decide
  have hparts : Paths.parts slash [47, 97, 47, 97, 47, 46, 46] = [[97], [97], dotdot] := by decide
  refine (chdirOk_iff rfl fun absPath h => ?_).mpr fun absPath h _ => ?_
  · cases habs.symm.trans h
    rw [hparts]
    exact ⟨by decide, fun _ => ⟨by decide, fun _ => ⟨by decide, fun _ => trivial⟩⟩⟩
  · cases habs.symm.trans h
    rw [hparts]
    exact ⟨by decide, by decide, by decide, trivial⟩

theorem sysChdir_deepPath : sysChdir nested (fun _ => true) [47] (deepPath 65) = .error (.outOfRange 64) := by decide +kernel

/-- A path of 65 directories writes behind the array. -/
theorem not_chdirOk : ¬ChdirOk nested (fun _ => true) [47] (deepPath 65) := by
  rintro ⟨ret, cwd', hrun, -⟩
  rw [sysChdir_deepPath] at hrun
  cases hrun

end Serotonin.Vfs
