import Serotonin.Handles.Counts

/-! What closing a descriptor, or all of a task's, leaves alone. -/

namespace Serotonin.Handles

open Files (Tid HandleId fdMax)

/-- The tables of the other tasks stay as they are, and a handle that is left is open on the
same node. -/
structure Others (t : Tid) (s s' : System) : Prop where
  fdTable : ∀ p : Tid × Nat, p.1 ≠ t → s'.fdTable p = s.fdTable p
  nodeOf : ∀ h, (s'.handle h).isSome → s'.nodeOf h = s.nodeOf h
  isSome : ∀ h, (s'.handle h).isSome → (s.handle h).isSome
  tids : s'.tids = s.tids
  waiters : ∀ n, ∀ u ∈ s'.acceptWaiters n, u ∈ s.acceptWaiters n

variable {s s' s'' : System} {t : Tid}

namespace Others

theorem of_same (t : Tid) (hf : s'.fdTable = s.fdTable) (hh : s'.handle = s.handle) (ht : s'.tids = s.tids)
    (hw : ∀ n, ∀ u ∈ s'.acceptWaiters n, u ∈ s.acceptWaiters n) : Others t s s' where
  fdTable p _ := congrFun hf p
  nodeOf h _ := by rw [System.nodeOf, System.nodeOf, hh]
  isSome h hs := hh ▸ hs
  tids := ht
  waiters := hw

theorem refl (t : Tid) (s : System) : Others t s s := .of_same t rfl rfl rfl fun _ _ hu => hu

theorem trans (h : Others t s s') (h' : Others t s' s'') : Others t s s'' where
  fdTable p hp := (h'.fdTable p hp).trans (h.fdTable p hp)
  nodeOf k hk := (h'.nodeOf k hk).trans (h.nodeOf k (h'.isSome k hk))
  isSome k hk := h.isSome k (h'.isSome k hk)
  tids := h'.tids.trans h.tids
  waiters n u hu := h.waiters n u (h'.waiters n u hu)

theorem ret (t u : Tid) (s : System) (v : Int) : Others t s (s.ret u v) := .of_same t rfl rfl rfl fun _ _ hu => hu

theorem setFd (t : Tid) (s : System) (fd : Nat) (h : Option HandleId) : Others t s (s.setFd t fd h) where
  fdTable _ hp := Function.update_of_ne (fun he => hp (congrArg Prod.fst he)) _ _
  nodeOf _ _ := rfl
  isSome _ hk := hk
  tids := rfl
  waiters _ _ hu := hu

theorem setHandle (t : Tid) {h : HandleId} {x z : Files.FileHandle} (hx : s.handle h = some x) (hz : z.node = x.node) :
    Others t s (s.setHandle h z) where
  fdTable _ _ := rfl
  nodeOf k _ := congrFun (Inv.nodeOf_setHandle hx hz) k
  isSome k hk := by
    rwa [Inv.isSome_setHandle hx] at hk
  tids := rfl
  waiters _ _ hu := hu

theorem freeHandle {h : HandleId} (hs : s.freeHandle h = .ok s') : Others t s s' := by
  unfold System.freeHandle System.getHandle at hs
  cases hx : s.handle h with
  | none =>
    rw [hx] at hs
    cases hs
  | some x =>
    rw [hx] at hs
    cases hs
    refine ⟨fun _ _ => rfl, fun k hk => ?_, fun k hk => ?_, rfl, fun _ _ hu => hu⟩
    all_goals
      have hne : k ≠ h := by
        rintro rfl
        simp at hk
    · simp [System.nodeOf, hne]
    · simpa [hne] using hk

end Others

theorem freeNode_others {n : Files.NodeId} (hs : s.freeNode n = .ok s') : Others t s s' := by
  unfold System.freeNode at hs
  cases hy : s.getNode n with
  | error e =>
    rw [hy] at hs
    cases hs
  | ok y =>
    rw [hy] at hs
    cases hs
    exact .of_same t rfl rfl rfl fun _ _ hu => hu

theorem closeNode_others {o : Option Files.NodeId} (hs : closeNode s o = .ok s') : Others t s s' := by
  cases o with
  | none =>
    cases hs
    exact .refl t s
  | some n =>
    simp only [closeNode, System.getNode] at hs
    cases hy : s.node n with
    | none =>
      rw [hy] at hs
      cases hs
    | some y =>
      simp only [hy, vfsClose, System.getNode, bind, Except.bind] at hs
      split at hs
      · have hw : Others t s (s.setWaiters n []) := .of_same t rfl rfl rfl fun m u hu => by
          by_cases hm : m = n
          · subst hm
            simp [System.setWaiters] at hu
          · simpa [System.setWaiters, hm] using hu
        exact hw.trans (freeNode_others hs)
      · have hset : Others t s (s.setNode n { y with refcount := y.refcount - 1 }) := .of_same t rfl rfl rfl fun _ _ hu => hu
        split at hs
        · exact hset.trans (freeNode_others hs)
        · cases hs
          exact hset

theorem closeFd_others {fd : Nat} (hs : closeFd s t fd = .ok s') : Others t s s' := by
  unfold closeFd at hs
  split at hs
  · cases hs
    exact .refl t s
  · cases hfd : s.fdTable (t, fd) with
    | none =>
      rw [hfd] at hs
      cases hs
      exact .refl t s
    | some h =>
      simp only [hfd, System.getHandle] at hs
      cases hx : s.handle h with
      | none =>
        rw [hx] at hs
        cases hs
      | some x =>
        simp only [hx, bind, Except.bind] at hs
        have hset : Others t s (s.setHandle h { x with refcount := x.refcount - 1 }) := .setHandle t hx rfl
        split at hs
        · cases hc : closeNode (s.setHandle h { x with refcount := x.refcount - 1 }) x.node with
          | error e =>
            rw [hc] at hs
            cases hs
          | ok s₁ =>
            simp only [hc] at hs
            cases hf : s₁.freeHandle h with
            | error e =>
              rw [hf] at hs
              cases hs
            | ok s₂ =>
              rw [hf] at hs
              cases hs
              exact ((hset.trans (closeNode_others hc)).trans (.freeHandle hf)).trans (.setFd t s₂ fd none)
        · cases hs
          exact hset.trans (.setFd t _ fd none)

theorem sysClose_others {fd : Int} {b : Bool} (hs : sysClose s t fd b = .ok s') : Others t s s' := by
  unfold sysClose at hs
  split at hs
  · split at hs
    all_goals cases hs
    · exact .refl t s
    · exact .ret t t s _
  · split at hs
    · cases hs
      exact .ret t t s _
    · exact closeFd_others hs

theorem taskExit_others (hs : taskExit s t = .ok s') :
    ∃ s₁, Others t s s₁ ∧ s' = { s₁ with tids := s₁.tids.erase t } := by
  have hloop : ∀ (l : List Nat) (s s' : System), l.foldlM (fun s fd => closeFd s t fd) s = .ok s' → Others t s s' := by
    intro l
    induction l with
    | nil =>
      intro s s' hs
      cases hs
      exact .refl t s
    | cons fd l ih =>
      intro s s' hs
      rw [List.foldlM_cons] at hs
      cases hc : closeFd s t fd with
      | error e =>
        rw [hc] at hs
        cases hs
      | ok s₁ =>
        rw [hc] at hs
        exact (closeFd_others hc).trans (ih s₁ s' hs)
  unfold taskExit at hs
  cases hl : (List.range fdMax).foldlM (fun s fd => closeFd s t fd) s with
  | error e =>
    rw [hl] at hs
    cases hs
  | ok s₁ =>
    rw [hl] at hs
    cases hs
    exact ⟨s₁, hloop _ _ _ hl, rfl⟩

/-! ## A file that is read or written -/

/-- The size of a node is no matter of who refers to it. -/
theorem Inv.setSize {loose : List HandleId} {pend : List Files.NodeId} (hi : Inv s loose pend) {n : Files.NodeId} {y : Node}
    (hy : s.node n = some y) (size : Nat) : Inv (s.setNode n { y with size := size }) loose pend := by
  have hn := hi.node n
  rw [hy] at hn
  refine hi.setNode (fun _ _ => rfl) ?_
  cases hk : s.keeper n <;> rw [hk] at hn
  · exact hn
  · exact hn
  · exact hn

theorem Others.setNode (t : Tid) (s : System) (n : Files.NodeId) (y : Node) : Others t s (s.setNode n y) :=
  .of_same t rfl rfl rfl fun _ _ hu => hu

end Serotonin.Handles
