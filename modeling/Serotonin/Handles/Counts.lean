import Serotonin.Handles.Model
import Serotonin.Lib.Returns
import Mathlib.Data.List.ProdSigma
import Mathlib.Data.List.Perm.Basic

/-! What the counts of handles and nodes stand for, kept by every step of a call. A call in
progress may have handles that no descriptor leads to yet, and references to nodes that no
handle has yet; the invariant lists both. -/

namespace Serotonin.Handles

open Function List
open Files (Tid NodeId HandleId FileHandle fdMax)
open RefCount

/-- The places of all descriptor tables. -/
def slots (tids : List Tid) : List (Tid × Nat) := tids ×ˢ List.range fdMax

theorem mem_slots {tids : List Tid} {p : Tid × Nat} : p ∈ slots tids ↔ p.1 ∈ tids ∧ p.2 < fdMax := by
  rw [slots, mem_product, mem_range]

theorem slots_nodup {tids : List Tid} (h : tids.Nodup) : (slots tids).Nodup := h.product nodup_range

theorem refs_slots_cons (t : Tid) (tids : List Tid) (f : Tid × Nat → Option HandleId) (h : HandleId) :
    refs (slots (t :: tids)) f h = refs (List.range fdMax) (fun fd => f (t, fd)) h + refs (slots tids) f h := by
  rw [slots, product_cons, refs_append, refs_map]
  rfl

/-- How many descriptors lead to the handle. -/
def System.holders (s : System) (h : HandleId) : Nat := refs (slots s.tids) s.fdTable h

def System.nodeOf (s : System) (h : HandleId) : Option NodeId := (s.handle h).bind (·.node)

/-- How many handles are open on the node. -/
def System.openers (s : System) (n : NodeId) : Nat := refs s.handles s.nodeOf n

/-- What a node is like with `c` references held by handles and the call in progress. -/
def NodeOk : Keeper → Option Node → Nat → Prop
  | .caller, none, c => c = 0
  | .caller, some y, c => c = 1 ∧ (y.isChannel = false → y.isDisk ∧ y.refcount = 1)
  | .fileSystem own, some y, c => y.isChannel = false ∧ y.refcount = c + own ∧ (y.isDisk → 0 < own)
  | .terminal, some y, _ => y.isChannel = false ∧ y.isDisk = false
  | .fileSystem _, none, _ => False
  | .terminal, none, _ => False

/-- Inside a call, `loose` are the handles without a descriptor, and `pend` are the nodes
referred to without a handle. -/
structure Inv (s : System) (loose : List HandleId) (pend : List NodeId) : Prop where
  tids : s.tids.Nodup
  waiters : ∀ n, ∀ t ∈ s.acceptWaiters n, t ∈ s.tids
  handles : s.handles.Nodup
  listed : ∀ h, h ∈ s.handles ↔ (s.handle h).isSome
  count : ∀ h x, s.handle h = some x → x.refcount = s.holders h
  held : ∀ h, h ∈ s.handles ↔ 0 < s.holders h ∨ h ∈ loose
  loose_nodup : loose.Nodup
  loose_zero : ∀ h ∈ loose, s.holders h = 0
  node : ∀ n, NodeOk (s.keeper n) (s.node n) (s.openers n + pend.count n)

variable {s : System} {loose : List HandleId} {pend : List NodeId} {t : Tid} {h : HandleId} {n : NodeId}
  {x : FileHandle} {y : Node}

namespace Inv

theorem ret (hi : Inv s loose pend) (t : Tid) (v : Int) : Inv (s.ret t v) loose pend :=
  ⟨hi.tids, hi.waiters, hi.handles, hi.listed, hi.count, hi.held, hi.loose_nodup, hi.loose_zero, hi.node⟩

theorem setWaiters (hi : Inv s loose pend) {ts : List Tid} (ht : ∀ t ∈ ts, t ∈ s.tids) :
    Inv (s.setWaiters n ts) loose pend :=
  { hi with
    waiters := fun m t hm => by
      by_cases hmn : m = n
      · subst hmn
        exact ht t (by simpa [System.setWaiters] using hm)
      · exact hi.waiters m t (by simpa [System.setWaiters, hmn] using hm) }

theorem handle_isSome (hi : Inv s loose pend) (hh : 0 < s.holders h) : ∃ x, s.handle h = some x :=
  Option.isSome_iff_exists.mp ((hi.listed h).mp ((hi.held h).mpr (.inl hh)))

theorem notMem_of_none (hi : Inv s loose pend) (hh : s.handle h = none) : h ∉ s.handles := fun hm => by
  simpa [hh] using (hi.listed h).mp hm

theorem holders_pos (_hi : Inv s loose pend) (ht : t ∈ s.tids) {fd : Nat} (hfd : fd < fdMax)
    (hs : s.fdTable (t, fd) = some h) : 0 < s.holders h :=
  refs_pos.mpr ⟨(t, fd), mem_slots.mpr ⟨ht, hfd⟩, hs⟩

theorem slot_handle (hi : Inv s loose pend) (ht : t ∈ s.tids) {fd : Nat} (hfd : fd < fdMax)
    (hs : s.fdTable (t, fd) = some h) : ∃ x, s.handle h = some x :=
  hi.handle_isSome (hi.holders_pos ht hfd hs)

/-! ## Handles -/

/-- A node with a reference is there. -/
theorem node_isSome (hi : Inv s loose pend) (hc : 0 < s.openers n + pend.count n) : ∃ y, s.node n = some y := by
  have hn := hi.node n
  cases hy : s.node n with
  | some y => exact ⟨y, rfl⟩
  | none =>
    rw [hy] at hn
    cases hk : s.keeper n <;> rw [hk] at hn
    · exact absurd hn (Nat.ne_of_gt hc)
    · exact hn.elim
    · exact hn.elim

theorem pend_isSome (hi : Inv s loose pend) (hn : n ∈ pend) : ∃ y, s.node n = some y :=
  hi.node_isSome (Nat.add_pos_right _ (count_pos_iff.mpr hn))

theorem openers_pos (hi : Inv s loose pend) (hx : s.handle h = some x) (hn : x.node = some n) :
    0 < s.openers n :=
  refs_pos.mpr ⟨h, (hi.listed h).mpr (by rw [hx]; rfl), by rw [System.nodeOf, hx]; exact hn⟩

theorem count_toList (o : Option NodeId) (n : NodeId) :
    (o.toList ++ pend).count n = (if o = some n then 1 else 0) + pend.count n := by
  rw [count_append]
  cases o with
  | none => rfl
  | some m => simp [count_singleton]

theorem newHandle (hi : Inv s loose (x.node.toList ++ pend)) (hh : s.handle h = none) (hx : x.refcount = 0) :
    Inv (s.newHandle h x) (h :: loose) pend := by
  have hnot := hi.notMem_of_none hh
  have hzero : s.holders h = 0 := by
    by_contra hc
    exact hnot ((hi.held h).mpr (.inl (Nat.pos_of_ne_zero hc)))
  refine ⟨hi.tids, hi.waiters, nodup_cons.mpr ⟨hnot, hi.handles⟩, fun k => ?_, fun k z hk => ?_,
    fun k => ?_, nodup_cons.mpr ⟨fun hm => hnot ((hi.held h).mpr (.inr hm)), hi.loose_nodup⟩,
    fun k hk => ?_, fun n => ?_⟩
  · by_cases hkh : k = h
    · subst hkh
      simp [System.newHandle, System.setHandle]
    · simp [System.newHandle, System.setHandle, hkh, hi.listed k]
  · by_cases hkh : k = h
    · subst hkh
      have he : x = z := by simpa [System.newHandle, System.setHandle] using hk
      rw [← he, hx]
      exact hzero.symm
    · exact hi.count k z (by simpa [System.newHandle, System.setHandle, hkh] using hk)
  · show k ∈ h :: s.handles ↔ 0 < s.holders k ∨ k ∈ h :: loose
    rw [mem_cons, mem_cons, hi.held k]
    tauto
  · show s.holders k = 0
    rcases mem_cons.mp hk with rfl | hk
    · exact hzero
    · exact hi.loose_zero k hk
  · have hn := hi.node n
    have ho : (s.newHandle h x).openers n = s.openers n + if x.node = some n then 1 else 0 := by
      have hat : (s.newHandle h x).nodeOf h = x.node := by
        simp [System.nodeOf, System.newHandle, System.setHandle]
      have hrest : refs s.handles (s.newHandle h x).nodeOf n = refs s.handles s.nodeOf n :=
        refs_congr (fun k hk => by
          have hkh : k ≠ h := fun e => hnot (e ▸ hk)
          simp [System.nodeOf, System.newHandle, System.setHandle, hkh]) n
      show refs (h :: s.handles) (s.newHandle h x).nodeOf n = _
      rw [refs_cons, hat, hrest]
      rfl
    rw [count_toList, ← Nat.add_assoc, ← ho] at hn
    exact hn

theorem newHandleOn (hi : Inv s loose (n :: pend)) (hh : s.handle h = none) (flags : BitVec 32) (offset : Nat) :
    Inv (s.newHandle h ⟨some n, flags, offset, 0⟩) (h :: loose) pend := hi.newHandle hh rfl

/-- A handle without a descriptor is freed; its reference to a node remains to be dropped. -/
theorem freeHandle (hi : Inv s (h :: loose) pend) (hx : s.handle h = some x) :
    Returns (s.freeHandle h) fun s' =>
      s' = { s with handle := update s.handle h none, handles := s.handles.erase h } ∧
        Inv s' loose (x.node.toList ++ pend) := by
  have hmem : h ∈ s.handles := (hi.held h).mpr (.inr mem_cons_self)
  obtain ⟨hnot, hnodup⟩ := nodup_cons.mp hi.loose_nodup
  refine ⟨_, by simp only [System.freeHandle, System.getHandle, hx]; rfl, rfl, hi.tids, hi.waiters,
    hi.handles.erase h, fun k => ?_, fun k z hk => ?_, fun k => ?_, hnodup,
    fun k hk => hi.loose_zero k (mem_cons_of_mem _ hk), fun n => ?_⟩
  · by_cases hkh : k = h
    · subst hkh
      simp [hi.handles.mem_erase_iff]
    · simp [hi.handles.mem_erase_iff, hkh, hi.listed k]
  · by_cases hkh : k = h
    · subst hkh
      simp at hk
    · exact hi.count k z (by simpa [hkh] using hk)
  · have hzero := hi.loose_zero h mem_cons_self
    show k ∈ s.handles.erase h ↔ 0 < s.holders k ∨ k ∈ loose
    rw [hi.handles.mem_erase_iff, hi.held k, mem_cons]
    by_cases hkh : k = h
    · subst hkh
      simp [hzero, hnot]
    · simp [hkh]
  · have hn := hi.node n
    have hat : s.nodeOf h = x.node := by simp [System.nodeOf, hx]
    have ho : s.openers n = refs (s.handles.erase h)
        (System.nodeOf { s with handle := update s.handle h none, handles := s.handles.erase h }) n +
          if x.node = some n then 1 else 0 := by
      rw [System.openers, refs_erase hmem, hat]
      congr 1
      refine refs_congr (fun k hk => ?_) n
      have hkh : k ≠ h := ((hi.handles.mem_erase_iff).mp hk).1
      simp [System.nodeOf, hkh]
    rw [ho, Nat.add_assoc, ← count_toList] at hn
    exact hn

theorem freeHandleOn (hi : Inv s (h :: loose) pend) {flags : BitVec 32} {offset refcount : Nat}
    (hx : s.handle h = some ⟨some n, flags, offset, refcount⟩) :
    Returns (s.freeHandle h) fun s' =>
      s' = { s with handle := update s.handle h none, handles := s.handles.erase h } ∧
        Inv s' loose (n :: pend) := hi.freeHandle hx

/-! ## Nodes -/

theorem setNode (hi : Inv s loose pend) {pend' : List NodeId} (hp : ∀ m, m ≠ n → pend'.count m = pend.count m)
    (hn : NodeOk (s.keeper n) (some y) (s.openers n + pend'.count n)) : Inv (s.setNode n y) loose pend' :=
  { hi with
    node := fun m => by
      show NodeOk (s.keeper m) (update s.node n (some y) m) (s.openers m + pend'.count m)
      by_cases hm : m = n
      · subst hm
        rwa [update_self]
      · rw [update_of_ne hm, hp m hm]
        exact hi.node m }

theorem newNode (hi : Inv s loose pend) (hnone : s.node n = none) {k : Keeper} (hk : NodeOk k (some y) 1) :
    Inv (s.newNode n y k) loose (n :: pend) := by
  have hw : Inv (s.setWaiters n []) loose pend := hi.setWaiters fun t ht => absurd ht not_mem_nil
  refine { hw with node := fun m => ?_ }
  show NodeOk (update s.keeper n k m) (update s.node n (some y) m) (s.openers m + (n :: pend).count m)
  by_cases hm : m = n
  · subst hm
    have hz : s.openers m + pend.count m = 0 := by
      by_contra hc
      obtain ⟨y', hy'⟩ := hi.node_isSome (Nat.pos_of_ne_zero hc)
      rw [hnone] at hy'
      cases hy'
    rw [update_self, update_self, count_cons_self, ← Nat.add_assoc, hz]
    exact hk
  · rw [update_of_ne hm, update_of_ne hm, count_cons_of_ne (Ne.symm hm)]
    exact hi.node m

theorem node_update (hi : Inv s loose pend) {s' : System} {k : Keeper} {o : Option Node}
    (hk : s'.keeper = update s.keeper n k) (hn : s'.node = update s.node n o)
    (ho : NodeOk k o (s.openers n + pend.count n)) (m : NodeId) :
    NodeOk (s'.keeper m) (s'.node m) (s.openers m + pend.count m) := by
  rw [hk, hn]
  by_cases hm : m = n
  · subst hm
    rwa [update_self, update_self]
  · rw [update_of_ne hm, update_of_ne hm]
    exact hi.node m

/-- A new node that a file system keeps, and that nothing refers to. -/
theorem newKept (hi : Inv s loose pend) (hnone : s.node n = none) {k : Keeper} (hk : NodeOk k (some y) 0) :
    Inv (s.newNode n y k) loose pend := by
  have hw : Inv (s.setWaiters n []) loose pend := hi.setWaiters fun t ht => absurd ht not_mem_nil
  have hz : s.openers n + pend.count n = 0 := by
    by_contra hc
    obtain ⟨y', hy'⟩ := hi.node_isSome (Nat.pos_of_ne_zero hc)
    rw [hnone] at hy'
    cases hy'
  exact { hw with node := hi.node_update rfl rfl (hz.symm ▸ hk) }

/-- A file system drops a node that nothing refers to. -/
theorem freeKept (hi : Inv s loose pend) (hy : s.node n = some y) (hz : s.openers n + pend.count n = 0) :
    Returns (s.freeNode n) fun s' =>
      s' = { s with node := update s.node n none, keeper := update s.keeper n .caller } ∧
        Inv s' loose pend := by
  refine ⟨_, by simp only [System.freeNode, System.getNode, hy]; rfl, rfl, ?_⟩
  exact { hi with node := hi.node_update rfl rfl hz }

/-- The one reference to a node made for its handle is dropped with the node. -/
theorem freeNode (hi : Inv s loose (n :: pend)) (hk : s.keeper n = .caller) :
    Returns (s.freeNode n) fun s' =>
      s' = { s with
        node := update s.node n none, keeper := update s.keeper n .caller } ∧
        Inv s' loose pend := by
  obtain ⟨y, hy⟩ := hi.pend_isSome mem_cons_self
  refine ⟨_, by simp only [System.freeNode, System.getNode, hy]; rfl, rfl, { hi with node := fun m => ?_ }⟩
  show NodeOk (update s.keeper n .caller m) (update s.node n none m) (s.openers m + pend.count m)
  have hm := hi.node m
  by_cases hmn : m = n
  · subst hmn
    rw [hk, hy, count_cons_self] at hm
    rw [update_self, update_self]
    have hone : s.openers m + (pend.count m + 1) = 1 := hm.1
    show s.openers m + pend.count m = 0
    omega
  · rw [count_cons_of_ne (Ne.symm hmn)] at hm
    rwa [update_of_ne hmn, update_of_ne hmn]

/-- No node gets another keeper or other flags. -/
structure KeepsNodes (s s' : System) : Prop where
  keeper : s'.keeper = s.keeper
  flags : ∀ m y', s'.node m = some y' → ∃ y, s.node m = some y ∧ y'.flags = y.flags

namespace KeepsNodes

theorem of_eq {s' : System} (hk : s'.keeper = s.keeper) (hn : s'.node = s.node) : KeepsNodes s s' :=
  ⟨hk, fun _ y hy => ⟨y, hn ▸ hy, rfl⟩⟩

theorem refl (s : System) : KeepsNodes s s := of_eq rfl rfl

theorem trans {s' s'' : System} (h : KeepsNodes s s') (h' : KeepsNodes s' s'') : KeepsNodes s s'' where
  keeper := h'.keeper.trans h.keeper
  flags m y hy := by
    obtain ⟨y', hy', he'⟩ := h'.flags m y hy
    obtain ⟨y'', hy'', he''⟩ := h.flags m y' hy'
    exact ⟨y'', hy'', he'.trans he''⟩

theorem start {s' s'' : System} (h : KeepsNodes s' s'') (hk : s'.keeper = s.keeper) (hn : s'.node = s.node) :
    KeepsNodes s s'' := (of_eq hk hn).trans h

theorem finish {s' s'' : System} (h : KeepsNodes s s') (hk : s''.keeper = s'.keeper) (hn : s''.node = s'.node) :
    KeepsNodes s s'' := h.trans (of_eq hk hn)

theorem setNode (hy : s.node n = some y) {y' : Node} (hf : y'.flags = y.flags) : KeepsNodes s (s.setNode n y') where
  keeper := rfl
  flags m z hz := by
    by_cases hm : m = n
    · subst hm
      refine ⟨y, hy, ?_⟩
      rw [← hf]
      exact congrArg (fun w : Node => w.flags) (Option.some.inj (hz.symm.trans (update_self ..)))
    · exact ⟨z, (update_of_ne hm _ _).symm.trans hz, rfl⟩

theorem freeNode (hk : s.keeper n = .caller) : KeepsNodes s
    { s with node := update s.node n none, keeper := update s.keeper n .caller } where
  keeper := by rw [← hk, update_eq_self]
  flags m z hz := by
    by_cases hm : m = n
    · subst hm
      simp at hz
    · exact ⟨z, (update_of_ne hm _ _).symm.trans hz, rfl⟩

end KeepsNodes

/-- Nodes may have changed, descriptors and handles have not. -/
structure SameTables (s s' : System) : Prop extends KeepsNodes s s' where
  tids : s'.tids = s.tids
  fdTable : s'.fdTable = s.fdTable
  handle : s'.handle = s.handle
  handles : s'.handles = s.handles
  waiters : ∀ m, ∀ u ∈ s'.acceptWaiters m, u ∈ s.acceptWaiters m

theorem SameTables.refl (s : System) : SameTables s s :=
  ⟨.refl s, rfl, rfl, rfl, rfl, fun _ _ hu => hu⟩

theorem SameTables.setNode (hy : s.node n = some y) {y' : Node} (hf : y'.flags = y.flags) :
    SameTables s (s.setNode n y') := ⟨.setNode hy hf, rfl, rfl, rfl, rfl, fun _ _ hu => hu⟩

/-- `vfs_close` drops one reference to a node that is no pipe and no socket. -/
theorem vfsClose {o : Option NodeId} (hi : Inv s loose (o.toList ++ pend))
    (hch : ∀ n ∈ o, ∀ y, s.node n = some y → y.isChannel = false) :
    Returns (vfsClose s o) fun s' => Inv s' loose pend ∧ SameTables s s' := by
  cases o with
  | none => exact .pure ⟨hi, .refl s⟩
  | some n =>
    have hi : Inv s loose (n :: pend) := hi
    obtain ⟨y, hy⟩ := hi.pend_isSome mem_cons_self
    have hnc := hch n rfl y hy
    have hn := hi.node n
    rw [hy, count_cons_self, ← Nat.add_assoc] at hn
    have hp : ∀ m, m ≠ n → pend.count m = (n :: pend).count m := fun m hm =>
      (count_cons_of_ne (Ne.symm hm)).symm
    simp only [Handles.vfsClose, System.getNode, hy]
    cases hk : s.keeper n with
    | caller =>
      rw [hk] at hn
      obtain ⟨hdisk, href⟩ := hn.2 hnc
      refine .ite (fun _ => ?_) fun hc => absurd ⟨by omega, hdisk⟩ hc
      obtain ⟨s₁, hs₁, rfl, hi₁⟩ := hi.freeNode hk
      refine ⟨_, by simp only [System.freeNode, System.getNode, System.setNode, update_self]; rfl, ?_, ?_⟩
      · simpa only [System.setNode, update_idem] using hi₁
      · refine ⟨?_, rfl, rfl, rfl, rfl, fun _ _ hu => hu⟩
        simpa only [System.setNode, update_idem] using KeepsNodes.freeNode hk
    | fileSystem own =>
      rw [hk] at hn
      obtain ⟨_, href, hdisk⟩ := hn
      refine .ite (fun hc => ?_) fun _ => .pure ⟨hi.setNode hp ?_, .setNode hy rfl⟩
      · have := hdisk hc.2
        omega
      · rw [hk]
        exact ⟨hnc, by show y.refcount - 1 = _; omega, hdisk⟩
    | terminal =>
      rw [hk] at hn
      refine .ite (fun hc => ?_) fun _ => .pure ⟨hi.setNode hp ?_, .setNode hy rfl⟩
      · rw [hn.2] at hc
        exact absurd hc.2 Bool.false_ne_true
      · rw [hk]
        exact hn

/-- What becomes of a node with its handle. -/
theorem closeNode {o : Option NodeId} (hi : Inv s loose (o.toList ++ pend)) :
    Returns (closeNode s o) fun s' => Inv s' loose pend ∧ SameTables s s' := by
  cases o with
  | none => exact .pure ⟨hi, .refl s⟩
  | some n =>
    have hi : Inv s loose (n :: pend) := hi
    obtain ⟨y, hy⟩ := hi.pend_isSome mem_cons_self
    have hn := hi.node n
    rw [hy, count_cons_self] at hn
    simp only [Handles.closeNode, System.getNode, hy]
    refine .ite (fun hc => ?_) fun hc => ?_
    · have hk : s.keeper n = .caller := by
        cases hk : s.keeper n with
        | caller => rfl
        | fileSystem own =>
          rw [hk] at hn
          exact absurd hc (by rw [hn.1]; exact Bool.false_ne_true)
        | terminal =>
          rw [hk] at hn
          exact absurd hc (by rw [hn.1]; exact Bool.false_ne_true)
      have hw : Inv (s.setWaiters n []) loose (n :: pend) := hi.setWaiters fun t ht => absurd ht not_mem_nil
      refine (hw.freeNode hk).mono ?_
      rintro s' ⟨rfl, hi'⟩
      have hkeep : KeepsNodes s (s.setWaiters n []) := .of_eq rfl rfl
      refine ⟨hi', ⟨hkeep.trans (.freeNode hk), rfl, rfl, rfl, rfl, fun m u hu => ?_⟩⟩
      · by_cases hmn : m = n
        · subst hmn
          simp [System.setWaiters] at hu
        · simpa [System.setWaiters, hmn] using hu
    · refine hi.vfsClose (o := some n) fun m hm y' hy' => ?_
      cases Option.mem_some_iff.mp hm
      rw [hy] at hy'
      cases hy'
      simpa using hc

/-- Opening a node that is kept takes a reference to it. -/
theorem vfsOpen_kept (hi : Inv s loose pend) (hk : s.keeper n ≠ .caller) :
    ∃ y, s.node n = some y ∧ Inv (s.setNode n { y with refcount := y.refcount + 1 }) loose (n :: pend) ∧
      y.isChannel = false := by
  have hn := hi.node n
  have hp : ∀ m, m ≠ n → (n :: pend).count m = pend.count m := fun m hm => count_cons_of_ne (Ne.symm hm)
  cases hy : s.node n with
  | none =>
    rw [hy] at hn
    cases h : s.keeper n <;> rw [h] at hn
    · exact absurd h hk
    · exact hn.elim
    · exact hn.elim
  | some y =>
    rw [hy] at hn
    refine ⟨y, rfl, hi.setNode hp ?_, ?_⟩
    all_goals cases h : s.keeper n <;> rw [h] at hn
    · exact absurd h hk
    · obtain ⟨hc, href, hdisk⟩ := hn
      exact ⟨hc, by rw [count_cons_self]; show y.refcount + 1 = _; omega, hdisk⟩
    · exact hn
    · exact absurd h hk
    · exact hn.1
    · exact hn.1

/-! ## Descriptors -/

theorem nodeOf_setHandle (hx : s.handle h = some x) {z : FileHandle} (hz : z.node = x.node) :
    (s.setHandle h z).nodeOf = s.nodeOf := by
  funext k
  by_cases hk : k = h
  · subst hk
    simp [System.nodeOf, System.setHandle, hx, hz]
  · simp [System.nodeOf, System.setHandle, hk]

theorem isSome_setHandle (hx : s.handle h = some x) (z : FileHandle) (k : HandleId) :
    ((s.setHandle h z).handle k).isSome = (s.handle k).isSome := by
  by_cases hk : k = h
  · subst hk
    simp [System.setHandle, hx]
  · simp [System.setHandle, hk]

theorem holders_setFd (hi : Inv s loose pend) (ht : t ∈ s.tids) {fd : Nat} (hfd : fd < fdMax) (v : Option HandleId)
    (k : HandleId) : (s.setFd t fd v).holders k + (if s.fdTable (t, fd) = some k then 1 else 0) =
      s.holders k + if v = some k then 1 else 0 :=
  refs_update (slots_nodup hi.tids) (mem_slots.mpr ⟨ht, hfd⟩) v k

/-- Reading and writing move the offset only. -/
theorem setOffset (hi : Inv s loose pend) (hx : s.handle h = some x) (offset : Nat) :
    Inv (s.setHandle h { x with offset := offset }) loose pend :=
  { hi with
    listed := fun k => by
      rw [isSome_setHandle hx]
      exact hi.listed k
    count := fun k z hz => by
      by_cases hk : k = h
      · subst hk
        have he : FileHandle.mk x.node x.flags offset x.refcount = z := by simpa [System.setHandle] using hz
        rw [← he]
        exact hi.count k x hx
      · exact hi.count k z (by simpa [System.setHandle, hk] using hz)
    node := fun n => by
      have ho : System.openers (s.setHandle h { x with offset := offset }) n = s.openers n :=
        congrArg (fun f => refs s.handles f n) (nodeOf_setHandle hx rfl)
      rw [ho]
      exact hi.node n }

/-- An empty place of a table is made to lead to a handle. -/
theorem share (hi : Inv s loose pend) (ht : t ∈ s.tids) {fd : Nat} (hfd : fd < fdMax)
    (hfree : s.fdTable (t, fd) = none) (hx : s.handle h = some x) :
    Inv ((s.setFd t fd (some h)).setHandle h { x with refcount := x.refcount + 1 }) (loose.erase h) pend := by
  have hcount : ∀ k, (s.setFd t fd (some h)).holders k = s.holders k + if h = k then 1 else 0 := fun k => by
    simpa [hfree] using hi.holders_setFd ht hfd (some h) k
  refine ⟨hi.tids, hi.waiters, hi.handles, fun k => ?_, fun k z hk => ?_, fun k => ?_, hi.loose_nodup.erase h,
    fun k hk => ?_, fun n => ?_⟩
  · rw [isSome_setHandle (s := s.setFd t fd (some h)) hx]
    exact hi.listed k
  · show z.refcount = (s.setFd t fd (some h)).holders k
    rw [hcount]
    by_cases hkh : h = k
    · subst hkh
      have he : FileHandle.mk x.node x.flags x.offset (x.refcount + 1) = z := by simpa [System.setHandle] using hk
      rw [← he, if_pos rfl, ← hi.count h x hx]
    · rw [if_neg hkh]
      exact hi.count k z (by simpa [System.setHandle, System.setFd, Ne.symm hkh] using hk)
  · show k ∈ s.handles ↔ 0 < (s.setFd t fd (some h)).holders k ∨ k ∈ loose.erase h
    rw [hcount, hi.loose_nodup.mem_erase_iff]
    by_cases hkh : h = k
    · subst hkh
      simp [(hi.listed h).mpr (by rw [hx]; rfl)]
    · simp [hkh, Ne.symm hkh, hi.held k]
  · obtain ⟨hkh, hk⟩ := hi.loose_nodup.mem_erase_iff.mp hk
    show (s.setFd t fd (some h)).holders k = 0
    rw [hcount, if_neg (Ne.symm hkh)]
    exact hi.loose_zero k hk
  · have hn := hi.node n
    have ho : System.openers ((s.setFd t fd (some h)).setHandle h { x with refcount := x.refcount + 1 }) n = s.openers n :=
      congrArg (fun f => refs s.handles f n) (nodeOf_setHandle (s := s.setFd t fd (some h)) hx rfl)
    rw [ho]
    exact hn

/-- A place of a table is made empty: the handle loses a reference, and with the last one it
is on its own. -/
theorem unshare (hi : Inv s loose pend) (ht : t ∈ s.tids) {fd : Nat} (hfd : fd < fdMax)
    (hs : s.fdTable (t, fd) = some h) (hx : s.handle h = some x) :
    Inv ((s.setFd t fd none).setHandle h { x with refcount := x.refcount - 1 })
      (if x.refcount - 1 = 0 then h :: loose else loose) pend := by
  have hcount : ∀ k, (s.setFd t fd none).holders k + (if h = k then 1 else 0) = s.holders k := fun k => by
    simpa [hs] using hi.holders_setFd ht hfd none k
  have hpos := hi.holders_pos ht hfd hs
  have hnot : h ∉ loose := fun hm => Nat.ne_of_gt hpos (hi.loose_zero h hm)
  have href := hi.count h x hx
  have hself := hcount h
  rw [if_pos rfl] at hself
  refine ⟨hi.tids, hi.waiters, hi.handles, fun k => ?_, fun k z hk => ?_, fun k => ?_, ?_, fun k hk => ?_,
    fun n => ?_⟩
  · rw [isSome_setHandle (s := s.setFd t fd none) hx]
    exact hi.listed k
  · show z.refcount = (s.setFd t fd none).holders k
    by_cases hkh : h = k
    · subst hkh
      have he : FileHandle.mk x.node x.flags x.offset (x.refcount - 1) = z := by simpa [System.setHandle] using hk
      rw [← he]
      show x.refcount - 1 = _
      omega
    · have hk := hi.count k z (by simpa [System.setHandle, System.setFd, Ne.symm hkh] using hk)
      have := hcount k
      rw [if_neg hkh] at this
      omega
  · show k ∈ s.handles ↔ 0 < (s.setFd t fd none).holders k ∨ _
    by_cases hkh : h = k
    · subst hkh
      refine iff_of_true ((hi.listed h).mpr (by rw [hx]; rfl)) ?_
      by_cases hz : x.refcount - 1 = 0
      · exact .inr (by rw [if_pos hz]; exact mem_cons_self)
      · exact .inl (by omega)
    · have := hcount k
      rw [if_neg hkh, Nat.add_zero] at this
      rw [this, hi.held k]
      split
      · rw [mem_cons]
        simp [Ne.symm hkh]
      · rfl
  · split
    · exact nodup_cons.mpr ⟨hnot, hi.loose_nodup⟩
    · exact hi.loose_nodup
  · show (s.setFd t fd none).holders k = 0
    split at hk
    · rcases mem_cons.mp hk with rfl | hk
      · omega
      · have := hi.loose_zero k hk
        have := hcount k
        omega
    · have := hi.loose_zero k hk
      have := hcount k
      omega
  · have hn := hi.node n
    have ho : System.openers ((s.setFd t fd none).setHandle h { x with refcount := x.refcount - 1 }) n = s.openers n :=
      congrArg (fun f => refs s.handles f n) (nodeOf_setHandle (s := s.setFd t fd none) hx rfl)
    rw [ho]
    exact hn

/-- The other places of the table stay as they are, and so do the handles of the call in
progress. -/
structure ClosesFd (s : System) (loose : List HandleId) (t : Tid) (fd : Nat) (s' : System) : Prop extends
    KeepsNodes s s' where
  tids : s'.tids = s.tids
  closed : fd < fdMax → s'.fdTable (t, fd) = none
  other : ∀ p, p ≠ (t, fd) → s'.fdTable p = s.fdTable p
  loose : ∀ k ∈ loose, s'.handle k = s.handle k
  waiters : ∀ m, ∀ u ∈ s'.acceptWaiters m, u ∈ s.acceptWaiters m

theorem ClosesFd.refl (s : System) (loose : List HandleId) {fd : Nat} (hs : fd < fdMax → s.fdTable (t, fd) = none) :
    ClosesFd s loose t fd s :=
  ⟨.refl s, rfl, hs, fun _ _ => rfl, fun _ _ => rfl, fun _ _ hu => hu⟩

/-- What becomes of a node does not depend on the tables. -/
theorem closeNode_tables (s : System) (o : Option NodeId) (f : Tid × Nat → Option HandleId)
    (g : HandleId → Option FileHandle) (l : List HandleId) :
    Handles.closeNode { s with fdTable := f, handle := g, handles := l } o =
      (Handles.closeNode s o).map fun s' => { s' with fdTable := f, handle := g, handles := l } := by
  cases o with
  | none => rfl
  | some n =>
    simp only [Handles.closeNode, Handles.vfsClose, System.getNode, System.freeNode, System.setWaiters, System.setNode]
    cases hn : s.node n with
    | none => rfl
    | some y =>
      show (if y.isChannel = true then _ else _) = Except.map _ (if y.isChannel = true then _ else _)
      split
      · rfl
      · show (if y.refcount - 1 = 0 ∧ y.isDisk = true then _ else _) =
          Except.map _ (if y.refcount - 1 = 0 ∧ y.isDisk = true then _ else _)
        split
        · simp only [update_self]
          rfl
        · rfl

/-- The node is closed before its handle is freed; the other order is the same. -/
theorem closeNode_freeHandle (hx : s.handle h = some x) (o : Option NodeId) :
    (Handles.closeNode s o >>= fun w => w.freeHandle h) =
      Handles.closeNode { s with handle := update s.handle h none, handles := s.handles.erase h } o := by
  have hself := closeNode_tables s o s.fdTable s.handle s.handles
  rw [show Handles.closeNode { s with handle := update s.handle h none, handles := s.handles.erase h } o = _
    from closeNode_tables s o s.fdTable (update s.handle h none) (s.handles.erase h)]
  cases hw : Handles.closeNode s o with
  | error e => rfl
  | ok w =>
    have hw' : w = { w with fdTable := s.fdTable, handle := s.handle, handles := s.handles } :=
      Except.ok.inj (hw.symm.trans (hself.trans (by rw [hw]; rfl)))
    show w.freeHandle h = _
    rw [hw']
    simp only [System.freeHandle, System.getHandle, hx]
    rfl

theorem closeNode_setFd (s : System) (o : Option NodeId) (t : Tid) (fd : Nat) (v : Option HandleId) :
    (Handles.closeNode s o).map (fun w => w.setFd t fd v) = Handles.closeNode (s.setFd t fd v) o := by
  have hself := closeNode_tables s o s.fdTable s.handle s.handles
  rw [show Handles.closeNode (s.setFd t fd v) o = _ from
    closeNode_tables s o (update s.fdTable (t, fd) v) s.handle s.handles]
  cases hw : Handles.closeNode s o with
  | error e => rfl
  | ok w =>
    have hw' : w = { w with fdTable := s.fdTable, handle := s.handle, handles := s.handles } :=
      Except.ok.inj (hw.symm.trans (hself.trans (by rw [hw]; rfl)))
    show Except.ok (w.setFd t fd v) = _
    rw [hw']
    rfl

theorem closeNode_eq_vfsClose {o : Option NodeId} (hch : ∀ n ∈ o, ∀ y, s.node n = some y → y.isChannel = false) :
    Handles.closeNode s o = Handles.vfsClose s o := by
  cases o with
  | none => rfl
  | some n =>
    cases hy : s.node n with
    | none => simp only [Handles.closeNode, Handles.vfsClose, System.getNode, hy]; rfl
    | some y =>
      simp only [Handles.closeNode, System.getNode, hy]
      exact if_neg (by simp [hch n rfl y hy])

/-- A handle that never got a descriptor goes with its reference to the node. -/
theorem vfsClose_freeHandle (hi : Inv s (h :: loose) pend) (hx : s.handle h = some x)
    (hch : ∀ n ∈ x.node, ∀ y, s.node n = some y → y.isChannel = false) :
    Returns (Handles.vfsClose s x.node >>= fun w => w.freeHandle h) fun s' =>
      Inv s' loose pend ∧ KeepsNodes s s' := by
  obtain ⟨s₁, -, rfl, hi₁⟩ := hi.freeHandle hx
  rw [← closeNode_eq_vfsClose hch, closeNode_freeHandle hx]
  exact hi₁.closeNode.mono fun s' hs' => ⟨hs'.1, hs'.2.toKeepsNodes.start rfl rfl⟩

theorem closeFd (hi : Inv s loose pend) (ht : t ∈ s.tids) (fd : Nat) :
    Returns (closeFd s t fd) fun s' => Inv s' loose pend ∧ ClosesFd s loose t fd s' := by
  unfold Handles.closeFd
  refine .ite (fun hfd => .pure ⟨hi, .refl s loose fun hlt => absurd hfd (Nat.not_le.mpr hlt)⟩) fun hfd => ?_
  have hfd : fd < fdMax := Nat.not_le.mp hfd
  cases hs : s.fdTable (t, fd) with
  | none => exact .pure ⟨hi, .refl s loose fun _ => hs⟩
  | some h =>
    obtain ⟨x, hx⟩ := hi.slot_handle ht hfd hs
    have hloose : ∀ k ∈ loose, k ≠ h := fun k hk e =>
      Nat.ne_of_gt (hi.holders_pos ht hfd hs) (e ▸ hi.loose_zero k hk)
    have hu := hi.unshare ht hfd hs hx
    simp only [System.getHandle, hx]
    refine .ite (fun hz => ?_) fun hz => ?_
    · rw [if_pos hz] at hu
      obtain ⟨s₁, hs₁, rfl, hi₁⟩ := hu.freeHandle (x := { x with refcount := x.refcount - 1 })
        (by simp [System.setHandle])
      obtain ⟨s₂, hs₂, hi₂, hsame⟩ := hi₁.closeNode
      refine ⟨s₂, ?_, hi₂, ⟨hsame.toKeepsNodes.start rfl rfl, hsame.tids, fun _ => ?_, fun p hp => ?_,
        fun k hk => ?_, hsame.waiters⟩⟩
      · have hget : (s.setHandle h { x with refcount := x.refcount - 1 }).handle h =
            some { x with refcount := x.refcount - 1 } := by simp [System.setHandle]
        calc
          _ = (Handles.closeNode (s.setHandle h { x with refcount := x.refcount - 1 }) x.node >>=
                fun w => w.freeHandle h).map fun w => w.setFd t fd none := by
            cases Handles.closeNode (s.setHandle h { x with refcount := x.refcount - 1 }) x.node with
            | error e => rfl
            | ok w => cases hw : w.freeHandle h <;> simp only [bind, Except.bind, hw] <;> rfl
          _ = _ := by rw [closeNode_freeHandle hget, closeNode_setFd]; exact hs₂
      · rw [hsame.fdTable]
        exact update_self ..
      · rw [hsame.fdTable]
        exact update_of_ne hp _ _
      · rw [hsame.handle]
        show update (update s.handle h _) h none k = s.handle k
        rw [update_of_ne (hloose k hk), update_of_ne (hloose k hk)]
    · rw [if_neg hz] at hu
      refine .pure ⟨hu, ⟨.of_eq rfl rfl, rfl, fun _ => update_self ..,
        fun p hp => update_of_ne hp _ _, fun k hk => ?_, fun _ _ hu => hu⟩⟩
      exact update_of_ne (hloose k hk) _ _

/-- Where `alloc_fd` finds a place, the handle is shared there. -/
structure Installs (s : System) (h : HandleId) (s' : System) : Prop extends KeepsNodes s s' where
  tids : s'.tids = s.tids
  other : ∀ k, k ≠ h → s'.handle k = s.handle k

theorem allocFd (hi : Inv s loose pend) (ht : t ∈ s.tids) (hx : s.handle h = some x) :
    Returns (allocFd s t h) fun r => ∀ p ∈ r, Inv p.2 (loose.erase h) pend ∧ Installs s h p.2 := by
  unfold Handles.allocFd
  cases hf : (List.range fdMax).find? fun i => (s.fdTable (t, i)).isNone with
  | none => exact .pure fun p hp => absurd hp (Option.not_mem_none p)
  | some i =>
    have hfree : s.fdTable (t, i) = none := by simpa using List.find?_some hf
    have hlt : i < fdMax := mem_range.mp (mem_of_find?_eq_some hf)
    simp only [System.getHandle, hx]
    refine .pure fun p hp => ?_
    cases Option.mem_some_iff.mp hp
    exact ⟨hi.share ht hlt hfree hx, ⟨.of_eq rfl rfl, rfl, fun k hk => update_of_ne hk _ _⟩⟩

theorem perm (hi : Inv s loose pend) {loose' : List HandleId} {pend' : List NodeId} (hl : loose.Perm loose')
    (hp : pend.Perm pend') : Inv s loose' pend' :=
  { hi with
    held := fun h => by rw [hi.held h, hl.mem_iff]
    loose_nodup := hl.nodup_iff.mp hi.loose_nodup
    loose_zero := fun h hh => hi.loose_zero h (hl.mem_iff.mpr hh)
    node := fun n => by
      rw [← hp.count_eq]
      exact hi.node n }

end Inv

end Serotonin.Handles
