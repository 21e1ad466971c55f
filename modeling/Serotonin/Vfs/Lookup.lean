import Serotonin.Vfs.Cleanup

/-! Where a path leads: `.` and `..` are taken away first, and the other components are looked up one
after another from the root. -/

namespace Serotonin.Vfs

open List
open Paths (text IsPart)

variable {ν : Type} (T : Tree ν)

/-- The node that the components lead to, of which the last one comes first. -/
def lookup : List Name → Option ν
  | [] => some T.root
  | c :: l => (lookup l).bind fun d =>
    if T.isDirectory d then (vfsLookupMount T (text slash (c :: l))).or (T.finddir d c) else none

/-- The open components behind one more part of a path. -/
def normStep (l : List Name) (part : Name) : List Name :=
  if part = dot then l else if part = dotdot then l.tail else part :: l

/-- The path without `.` and `..`. -/
def normalize (parts : List Name) : List Name := parts.foldl normStep []

/-- Every component that a `..` takes away is a directory. -/
def RemovedDirs (l : List Name) : List Name → Prop
  | [] => True
  | part :: parts =>
    (part = dotdot → l ≠ [] → ∃ d, lookup T l = some d ∧ T.isDirectory d = true) ∧ RemovedDirs (normStep l part) parts

/-- The lookup of every component finds a node, of those that are taken away, too. -/
def Reached (l : List Name) : List Name → Prop
  | [] => True
  | part :: parts => lookup T (normStep l part) ≠ none ∧ Reached (normStep l part) parts

/-- No `..` comes where more than 63 components are open, as far as the path is walked. -/
def InStep (l : List Name) : List Name → Prop
  | [] => True
  | part :: parts =>
    (part = dotdot → l.length < stackMax) ∧ (lookup T (normStep l part) ≠ none → InStep (normStep l part) parts)

/-- The node that the path without `.` and `..` leads to, or NULL where that walk fails or a component that
was taken away is no directory. -/
def LeadsTo (path : Name) (n : Option ν) : Prop :=
  let parts := Paths.parts slash path
  (RemovedDirs T [] parts ∧ n = lookup T (normalize parts)) ∨ (¬RemovedDirs T [] parts ∧ n = none)

/-- `vfs_resolve_path` returns that node. -/
def Resolves (path : Name) : Prop :=
  ∃ r live, vfsResolvePath T path = .ok (r, live) ∧ LeadsTo T path (r.map Obj.node)

variable {T} {l parts : List Name} {part : Name} {w : Walk ν}

@[simp] theorem normStep_dot : normStep l dot = l := if_pos rfl

@[simp] theorem normStep_dotdot : normStep l dotdot = l.tail := by
  unfold normStep
  rw [if_neg (by decide), if_pos rfl]

theorem normStep_name (h1 : part ≠ dot) (h2 : part ≠ dotdot) : normStep l part = part :: l := by
  unfold normStep
  rw [if_neg h1, if_neg h2]

theorem lookup_tail_ne_none {c : Name} (h : lookup T (c :: l) ≠ none) : lookup T l ≠ none := by
  intro hl
  exact h (by rw [lookup, hl, Option.bind_none])

/-- A text of components is no shorter without the last one. -/
theorem length_text_normStep (l : List Name) (part : Name) : (text slash (normStep l part)).length ≤ (text slash l).length + (part.length + 1) := by
  unfold normStep
  split
  · omega
  · split
    · cases l with
      | nil => exact Nat.zero_le _
      | cons c l =>
        simp only [tail_cons, text, length_append]
        omega
    · simp only [text, length_append, length_cons]
      omega

theorem isPart_normStep (hl : ∀ c ∈ l, IsPart slash c) (hpart : IsPart slash part) :
    ∀ c ∈ normStep l part, IsPart slash c := by
  unfold normStep
  split
  · exact hl
  · split
    · exact fun c hc => hl c (mem_of_mem_tail hc)
    · exact forall_mem_cons.mpr ⟨hpart, hl⟩

/-! ## The two walks -/

/-- `resolved` for the open components. -/
def showPath : List Name → Name
  | [] => [slash]
  | l => text slash l

@[simp] theorem showPath_cons {c : Name} : showPath (c :: l) = text slash (c :: l) := rfl

/-- The open components whose nodes the stack remembers. -/
def shallow : List Name → List (List Name)
  | [] => [[]]
  | c :: l => if l.length + 1 < stackMax then (c :: l) :: shallow l else shallow l

/-- The walk is where its open components lead. -/
structure At (T : Tree ν) (w : Walk ν) (l : List Name) : Prop where
  current : lookup T l = some w.current.node
  resolved : w.resolved = showPath l
  stack : w.stack.map (fun o => some o.node) = (shallow l).map (lookup T)

theorem start_at : At T (Walk.start T) [] := ⟨rfl, rfl, rfl⟩

theorem length_shallow : ∀ l : List Name, (shallow l).length = min l.length (stackMax - 1) + 1
  | [] => rfl
  | c :: l => by
    have ih := length_shallow l
    unfold shallow
    split <;> simp only [length_cons, stackMax] at * <;> omega

theorem shallow_of_lt (h : l.length < stackMax) : ∃ below, shallow l = l :: below := by
  cases l with
  | nil => exact ⟨[], rfl⟩
  | cons c l => exact ⟨shallow l, if_pos h⟩

theorem one_lt_text {c : Name} (hc : IsPart slash c) : 1 < (text slash (c :: l)).length := by
  have hpos := length_pos_iff.mpr hc.1
  simp only [text, length_append, length_cons]
  omega

theorem popLast_text {c : Name} (hc : IsPart slash c) : popLast (text slash (c :: l)) = showPath l := by
  unfold popLast
  rw [text, Paths.beforeLast_append hc.2]
  cases l with
  | nil => rfl
  | cons d l =>
    have hne : text slash (d :: l) ≠ [] := by simp [text]
    cases htext : text slash (d :: l) with
    | nil => exact absurd htext hne
    | cons a s =>
      dsimp only
      rw [← htext]
      rfl

theorem nextPath_showPath {c : Name} (hl : ∀ c ∈ l, IsPart slash c) (hlen : (text slash (c :: l)).length < pathMax) :
    nextPath (showPath l) c = some (text slash (c :: l)) := by
  simp only [text, length_append, length_cons, pathMax] at hlen
  unfold nextPath
  cases l with
  | nil =>
    simp only [text, length_nil] at hlen
    simp only [showPath, length_singleton, Nat.lt_irrefl, if_false]
    rw [if_neg (by simp only [pathMax]; omega)]
    rfl
  | cons d l =>
    rw [showPath_cons, if_pos (one_lt_text (hl d mem_cons_self)), if_neg, if_neg]
    · rfl
    · simp only [pathMax, text, length_append, length_cons] at *
      omega
    · simp only [pathMax, text, length_append, length_cons] at *
      omega

namespace At

variable (h : At T w l)

include h

theorem up (hl : ∀ c ∈ l, IsPart slash c) (hshort : l.length < stackMax) : At T w.up l.tail := by
  cases l with
  | nil =>
    have hlen : w.stack.length = 1 := by simpa [shallow] using congrArg List.length h.stack
    obtain ⟨o, ho⟩ := length_eq_one_iff.mp hlen
    have hup : w.up = w := by
      unfold Walk.up
      rw [ho]
    rw [hup]
    exact h
  | cons c l =>
    have hstack := h.stack
    obtain ⟨below, hbelow⟩ := shallow_of_lt (l := l) (Nat.lt_of_succ_lt hshort)
    have hshallow : shallow (c :: l) = (c :: l) :: shallow l := if_pos hshort
    rw [hshallow, hbelow] at hstack
    obtain ⟨o, rest, hw, -, hrest⟩ := map_eq_cons_iff.mp hstack
    obtain ⟨d, deeper, rfl, hd, hdeeper⟩ := map_eq_cons_iff.mp hrest
    have hup : w.up = { w with current := d, stack := d :: deeper, resolved := showPath l } := by
      unfold Walk.up
      rw [hw, h.resolved]
      dsimp only
      rw [showPath_cons, if_pos (one_lt_text (hl c mem_cons_self)),
        popLast_text (hl c mem_cons_self)]
    rw [hup]
    exact ⟨hd.symm, rfl, hbelow ▸ by rw [map_cons, hd, hdeeper]; rfl⟩

/-- A node goes on the stack exactly where its components are shallow. -/
theorem enter {o : Obj ν} {c : Name} (ho : lookup T (c :: l) = some o.node) (w' : Walk ν) (hstack : w'.stack = w.stack) :
    At T (w'.enter o (text slash (c :: l))) (c :: l) := by
  refine ⟨ho, rfl, ?_⟩
  have hlen : w.stack.length = min l.length (stackMax - 1) + 1 := by
    rw [← length_shallow, ← length_map (f := lookup T), ← h.stack, length_map]
  unfold Walk.enter shallow
  rw [hstack]
  by_cases hroom : l.length + 1 < stackMax
  · rw [if_pos hroom, if_pos (by simp only [stackMax] at *; omega), map_cons, map_cons, h.stack, ho]
  · rw [if_neg hroom, if_neg (by simp only [stackMax] at *; omega), h.stack]

/-- Down to a component that the lookup finds, or nowhere. -/
theorem down {c : Name} (hl : ∀ c ∈ l, IsPart slash c) (hlen : (text slash (c :: l)).length < pathMax) :
    match lookup T (c :: l) with
    | none => w.down T c = none
    | some _ => ∃ w', w.down T c = some w' ∧ At T w' (c :: l) := by
  have hlookup : lookup T (c :: l) = if T.isDirectory w.current.node then
      (vfsLookupMount T (text slash (c :: l))).or (T.finddir w.current.node c) else none := by
    rw [lookup, h.current, Option.bind_some]
  unfold Walk.down
  rw [h.resolved, nextPath_showPath hl hlen]
  by_cases hdir : T.isDirectory w.current.node = true
  · rw [if_pos hdir] at hlookup
    rw [if_pos hdir]
    dsimp only
    cases hmount : vfsLookupMount T (text slash (c :: l)) with
    | some m =>
      rw [hmount, Option.some_or] at hlookup
      rw [hlookup]
      exact ⟨_, rfl, h.enter (o := ⟨m, none⟩) hlookup w rfl⟩
    | none =>
      rw [hmount, Option.none_or] at hlookup
      cases hfind : T.finddir w.current.node c with
      | none =>
        rw [hlookup, hfind]
      | some child =>
        rw [hfind] at hlookup
        rw [hlookup]
        refine ⟨_, rfl, ?_⟩
        unfold Walk.take
        split
        · exact h.enter (o := ⟨child, some w.made⟩) hlookup _ rfl
        · exact h.enter (o := ⟨child, none⟩) hlookup w rfl
  · rw [if_neg hdir] at hlookup
    rw [hlookup, if_neg hdir]

/-- One token leads where the components with the token lead. -/
theorem component (hl : ∀ c ∈ l, IsPart slash c) (hshort : part = dotdot → l.length < stackMax)
    (hlen : (text slash (normStep l part)).length < pathMax) :
    match lookup T (normStep l part) with
    | none => w.component T part = none
    | some _ => ∃ w', w.component T part = some w' ∧ At T w' (normStep l part) := by
  unfold Walk.component
  by_cases hdot : part = dot
  · subst hdot
    rw [normStep_dot, h.current, if_pos rfl]
    exact ⟨w, rfl, h⟩
  by_cases hup : part = dotdot
  · subst hup
    have hat := h.up hl (hshort rfl)
    rw [normStep_dotdot, hat.current, if_neg (by decide), if_pos rfl]
    exact ⟨w.up, rfl, hat⟩
  · rw [if_neg hdot, if_neg hup]
    rw [normStep_name hdot hup] at hlen ⊢
    exact h.down hl hlen

end At

/-- The loop finds what the open components lead to, if the lookups on the way succeed. -/
theorem resolveTokens_spec {parts l : List Name} {w : Walk ν} (h : At T w l) (hl : ∀ c ∈ l, IsPart slash c)
    (hparts : ∀ p ∈ parts, IsPart slash p) (hstep : InStep T l parts)
    (hlen : (text slash l).length + (parts.map fun p => p.length + 1).sum < pathMax) :
    (Reached T l parts → ∃ o, (resolveTokens T parts w).1 = some o ∧ lookup T (parts.foldl normStep l) = some o.node) ∧
      (¬Reached T l parts → (resolveTokens T parts w).1 = none) := by
  induction parts generalizing l w with
  | nil => exact ⟨fun _ => ⟨w.current, rfl, h.current⟩, fun hnot => absurd trivial hnot⟩
  | cons part parts ih =>
    obtain ⟨hpart, hparts⟩ := forall_mem_cons.mp hparts
    rw [map_cons, sum_cons] at hlen
    have htext := length_text_normStep l part
    have hcomp := h.component hl hstep.1 (by omega)
    have hl' := isPart_normStep hl hpart
    unfold resolveTokens Reached
    cases hlookup : lookup T (normStep l part) with
    | none =>
      rw [hlookup] at hcomp
      rw [hcomp]
      exact ⟨fun hr => absurd rfl hr.1, fun _ => rfl⟩
    | some n =>
      rw [hlookup] at hcomp
      obtain ⟨w', hrun, h'⟩ := hcomp
      have hne : lookup T (normStep l part) ≠ none := by simp [hlookup]
      obtain ⟨hyes, hno⟩ := ih h' hl' hparts (hstep.2 hne) (by omega)
      rw [hrun]
      exact ⟨fun hr => hyes hr.2, fun hr => hno fun hrest => hr ⟨Option.some_ne_none n, hrest⟩⟩

/-! ## Reached and removed components -/

theorem lookup_of_normal : ∀ {parts l : List Name}, RemovedDirs T l parts → lookup T (parts.foldl normStep l) ≠ none →
    lookup T l ≠ none
  | [], _, _, h => h
  | part :: parts, l, hdirs, h => by
    have hnext := lookup_of_normal hdirs.2 h
    by_cases hdot : part = dot
    · rwa [hdot, normStep_dot] at hnext
    by_cases hup : part = dotdot
    · cases l with
      | nil => exact nofun
      | cons c l =>
        obtain ⟨d, hd, -⟩ := hdirs.1 hup (cons_ne_nil c l)
        simp [hd]
    · rw [normStep_name hdot hup] at hnext
      exact lookup_tail_ne_none hnext

/-- Where the walk without the components that were taken away succeeds, and these are directories,
no lookup on the way fails. -/
theorem reached_of_normal : ∀ {parts l : List Name}, RemovedDirs T l parts → lookup T (parts.foldl normStep l) ≠ none →
    Reached T l parts
  | [], _, _, _ => trivial
  | _ :: _, _, hdirs, h => ⟨lookup_of_normal hdirs.2 h, reached_of_normal hdirs.2 h⟩

/-- An absolute path that fits in the buffers. -/
structure IsPath (path : Name) : Prop where
  absolute : path.head? = some slash
  short : path.length < pathMax

namespace IsPath

variable {path : Name} (hpath : IsPath path)

include hpath

theorem sum_parts_lt : ((Paths.parts slash path).map fun p => p.length + 1).sum < pathMax := by
  have hlt := hpath.short
  obtain ⟨s, rfl⟩ := List.head?_eq_some_iff.mp hpath.absolute
  exact Nat.lt_of_le_of_lt (Paths.sum_parts_le s) hlt

theorem walked_eq (T : Tree ν) : walked T path = resolveTokens T (Paths.parts slash path) (Walk.start T) := by
  unfold walked
  rw [if_pos hpath.absolute, take_of_length_le (Nat.le_sub_one_of_lt hpath.short)]

theorem walked_spec (hstep : InStep T [] (Paths.parts slash path)) :
    (Reached T [] (Paths.parts slash path) → ∃ o, (walked T path).1 = some o ∧
        lookup T (normalize (Paths.parts slash path)) = some o.node) ∧
      (¬Reached T [] (Paths.parts slash path) → (walked T path).1 = none) := by
  rw [hpath.walked_eq]
  refine resolveTokens_spec start_at nofun (fun p hp => Paths.isPart_of_mem hp) hstep ?_
  simpa [text] using hpath.sum_parts_lt

end IsPath

theorem Resolves.leadsTo {path : Name} (h : Resolves T path) : LeadsTo T path ((walked T path).1.map Obj.node) := by
  obtain ⟨live, hrun, -⟩ := vfsResolvePath_spec T path
  obtain ⟨r, live', hrun', hleads⟩ := h
  obtain ⟨rfl, -⟩ := Prod.mk.inj (Except.ok.inj (hrun.symm.trans hrun'))
  exact hleads

/-- The stack and the text stay in step as long as no `..` comes below the 63rd level. Then the one
difference to the lookup without `.` and `..` is that a `..` may follow a file. -/
theorem resolves_iff {path : Name} (hpath : IsPath path) (hstep : InStep T [] (Paths.parts slash path)) :
    Resolves T path ↔ (Reached T [] (Paths.parts slash path) → RemovedDirs T [] (Paths.parts slash path)) := by
  obtain ⟨live, hrun, -⟩ := vfsResolvePath_spec T path
  obtain ⟨hyes, hno⟩ := hpath.walked_spec hstep
  constructor
  · intro hres hreached
    obtain ⟨o, ho, -⟩ := hyes hreached
    rcases hres.leadsTo with ⟨hdirs, -⟩ | ⟨-, hnone⟩
    · exact hdirs
    · rw [ho] at hnone
      cases hnone
  · intro hdirs
    refine ⟨_, live, hrun, ?_⟩
    by_cases hreached : Reached T [] (Paths.parts slash path)
    · obtain ⟨o, ho, hlookup⟩ := hyes hreached
      exact .inl ⟨hdirs hreached, by rw [ho, hlookup]; rfl⟩
    · rw [hno hreached]
      by_cases hd : RemovedDirs T [] (Paths.parts slash path)
      · refine .inl ⟨hd, ?_⟩
        by_contra hne
        exact hreached (reached_of_normal hd (Ne.symm hne))
      · exact .inr ⟨hd, rfl⟩

/-- `/a/../a` -/
def backPath : Name := [47, 97, 47, 46, 46, 47, 97]

theorem resolves_backPath : Resolves nested backPath := by
  have hparts : Paths.parts slash backPath = [[97], dotdot, [97]] := by decide
  refine (resolves_iff ⟨rfl, by decide⟩ ?_).mpr fun _ => ?_
  · rw [hparts]
    exact ⟨by decide, fun _ => ⟨by decide, fun _ => ⟨by decide, fun _ => trivial⟩⟩⟩
  · rw [hparts]
    exact ⟨by decide, fun _ _ => ⟨1, by decide, rfl⟩, by decide, trivial⟩

/-! ## A path below the 63rd level, and a path through a file -/

def deepUpPath : Name := deepPath 65 ++ slash :: dotdot

/-- A file `f` in the root. -/
def oneFile : Tree Bool where
  root := true
  isDirectory n := n
  isDisk _ := false
  finddir _ name := if name = [102] then some false else none
  mounts := []

def fileUpPath : Name := [47, 102, 47, 46, 46]

theorem walked_deepUpPath : (walked nested deepUpPath).1.map Obj.node = some 62 ∧
    lookup nested (normalize (Paths.parts slash deepUpPath)) = some 64 := by decide +kernel

theorem not_resolves_deep : ¬Resolves nested deepUpPath := by
  intro hres
  obtain ⟨hwalked, hlookup⟩ := walked_deepUpPath
  rcases hres.leadsTo with ⟨-, hnode⟩ | ⟨-, hnode⟩
  · rw [hwalked, hlookup] at hnode
    cases hnode
  · rw [hwalked] at hnode
    cases hnode

theorem not_resolves_file : ¬Resolves oneFile fileUpPath := by
  intro hres
  have hparts : Paths.parts slash fileUpPath = [[102], dotdot] := by decide
  have hwalked : (walked oneFile fileUpPath).1.map Obj.node = some true := by decide
  rcases hres.leadsTo with ⟨hdirs, -⟩ | ⟨-, hnode⟩
  · rw [hparts] at hdirs
    obtain ⟨d, hd, hdir⟩ := hdirs.2.1 rfl (by decide)
    cases hd.symm.trans (show lookup oneFile [[102]] = some false by decide)
    cases hdir
  · rw [hwalked] at hnode
    cases hnode

/-- From the 65th level `..` leads to the 62nd, and a `..` behind a file leads to its directory. -/
theorem not_resolves : (IsPath deepUpPath ∧ ¬Resolves nested deepUpPath) ∧ (IsPath fileUpPath ∧ ¬Resolves oneFile fileUpPath) :=
  ⟨⟨⟨by decide +kernel, by decide +kernel⟩, not_resolves_deep⟩, ⟨rfl, by decide⟩, not_resolves_file⟩

end Serotonin.Vfs
