import Serotonin.Handles.Calls
import Serotonin.Tmpfs.Model

/-! The tree of a tmpfs and the buffers of its files, and what walks, opening and writing make
of them. -/

namespace Serotonin.Tmpfs

open Function Option
open Files (Tid NodeId HandleId FileHandle)
open Handles (System Node Fault)
open Handles.Inv (KeepsNodes OpenNode)

/-- A node stands in one directory, a buffer belongs to one file. A file made by `sys_open`
starts without a reference that is not its handle's. -/
structure Tree (f : Mount) : Prop where
  nodup : f.nodes.Nodup
  root : f.root ∈ f.nodes
  dir : ∀ d n, n ∈ f.entries d → d ∈ f.nodes ∧ ∀ y, f.sys.node d = some y → y.flags &&& vfsFlagDirectory ≠ 0
  entry : ∀ d n, n ∈ f.entries d → n ∈ f.nodes ∧ n ≠ f.root
  once : ∀ d, (f.entries d).Nodup
  single : ∀ d d' n, n ∈ f.entries d → n ∈ f.entries d' → d = d'
  keeper : ∀ n ∈ f.nodes, f.sys.keeper n = .fileSystem 1 ∨
    f.sys.keeper n = .fileSystem 0 ∧ ∀ y, f.sys.node n = some y → y.flags &&& vfsFlagDirectory = 0
  data : ∀ n b, (f.file n).data = some b → (f.buffer b).isSome
  owner : ∀ n m b, (f.file n).data = some b → (f.file m).data = some b → n = m

/-- In the middle of a call; `pend` are the nodes it has opened. -/
structure Mid (f : Mount) (pend : List NodeId) : Prop where
  inv : Handles.Inv f.sys [] pend
  tree : Tree f

variable {f : Mount} {pend : List NodeId} {n : NodeId} {t : Tid}

namespace Mid

theorem keeper_ne (hm : Mid f pend) (hn : n ∈ f.nodes) : f.sys.keeper n ≠ .caller := by
  rcases hm.tree.keeper n hn with h | ⟨h, -⟩ <;> rw [h] <;> exact Handles.Keeper.noConfusion

theorem node_isSome (hm : Mid f pend) (hn : n ∈ f.nodes) : ∃ y, f.sys.node n = some y ∧ y.isChannel = false := by
  obtain ⟨y, hy, -, hc⟩ := hm.inv.vfsOpen_kept (hm.keeper_ne hn)
  exact ⟨y, hy, hc⟩

theorem openNode (hm : Mid f pend) (hn : n ∈ f.nodes) : OpenNode f.sys (some n) := fun m hmn => by
  cases mem_some_iff.mp hmn
  exact hm.node_isSome hn

theorem notMem (hm : Mid f pend) (hn : f.sys.node n = none) : n ∉ f.nodes := fun h => by
  obtain ⟨y, hy, -⟩ := hm.node_isSome h
  rw [hn] at hy
  cases hy

/-- The rest of the kernel goes on beside the tree. -/
theorem withSys (hm : Mid f pend) {s : System} {pend' : List NodeId} (hi : Handles.Inv s [] pend')
    (hk : KeepsNodes f.sys s) : Mid { f with sys := s } pend' where
  inv := hi
  tree :=
    { hm.tree with
      dir := fun d n hn => by
        obtain ⟨hd, hflags⟩ := hm.tree.dir d n hn
        refine ⟨hd, fun y hy => ?_⟩
        obtain ⟨y', hy', he⟩ := hk.flags d y hy
        rw [he]
        exact hflags y' hy'
      keeper := fun n hn => by
        rw [hk.keeper]
        refine (hm.tree.keeper n hn).imp_right fun ⟨h0, hflags⟩ => ⟨h0, fun y hy => ?_⟩
        obtain ⟨y', hy', he⟩ := hk.flags n y hy
        rw [he]
        exact hflags y' hy' }

theorem ret (hm : Mid f pend) (t : Tid) (v : Int) : Mid (f.ret t v) pend :=
  hm.withSys (hm.inv.ret t v) (.of_eq rfl rfl)

/-! ## Walks -/

theorem getNode (hm : Mid f pend) (hn : n ∈ f.nodes) : Returns (f.sys.getNode n) fun y => f.sys.node n = some y := by
  obtain ⟨y, hy, -⟩ := hm.node_isSome hn
  simp only [System.getNode, hy]
  exact .ok rfl

theorem scan (hm : Mid f pend) (name : Name) : ∀ es : List NodeId, (∀ e ∈ es, e ∈ f.nodes) →
    Returns (scan f name es) fun o => o = es.find? fun e => f.name e = name := by
  intro es
  induction es with
  | nil => exact fun _ => .pure rfl
  | cons e es ih =>
    intro hes
    refine (hm.getNode (hes e List.mem_cons_self)).bind fun y _ => .ite (fun he => .pure ?_) fun he => ?_
    · simp [he]
    · simpa [he] using ih fun e' he' => hes e' (List.mem_cons_of_mem _ he')

/-- What a name leads to in a directory. -/
theorem tmpfsFinddir (hm : Mid f pend) {d : NodeId} (hd : d ∈ f.nodes) (name : Name) :
    Returns (tmpfsFinddir f d name) fun o => ∀ n ∈ o, n ∈ f.entries d ∧
      (f.entries d).find? (fun e => f.name e = name) = some n := by
  refine (hm.getNode hd).bind fun _ _ => .ite (fun _ => .pure fun n hn => absurd hn (not_mem_none n)) fun _ =>
    (hm.scan name _ fun e he => (hm.tree.entry d e he).1).mono fun o ho n hn => ?_
  have hfind := ho.symm.trans (mem_def.mp hn)
  exact ⟨List.mem_of_find?_eq_some hfind, hfind⟩

theorem resolve (hm : Mid f pend) : ∀ (parts : List Name) (current : NodeId) (above : List NodeId),
    current ∈ f.nodes → (∀ a ∈ above, a ∈ f.nodes) →
      Returns (resolve f parts current above) fun o => ∀ n ∈ o, n ∈ f.nodes := by
  intro parts
  induction parts with
  | nil =>
    intro current above hc _
    refine .pure fun n hn => ?_
    rw [← mem_some_iff.mp hn]
    exact hc
  | cons part parts ih =>
    intro current above hc ha
    have hnone : ∀ n ∈ (none : Option NodeId), n ∈ f.nodes := fun n hn => absurd hn (not_mem_none n)
    refine .ite (fun _ => ih current above hc ha) fun _ => .ite (fun _ => ?_) fun _ => ?_
    · match above, ha with
      | [], _ => exact .pure hnone
      | [_], _ => exact .pure hnone
      | _ :: p :: above, ha =>
        exact ih p (p :: above) (ha p (List.mem_cons_of_mem _ List.mem_cons_self)) fun a hp =>
          ha a (List.mem_cons_of_mem _ hp)
    · refine (hm.tmpfsFinddir hc part).bind fun o ho => ?_
      cases o with
      | none => exact .pure hnone
      | some n =>
        have hn := (hm.tree.entry current n (ho n rfl).1).1
        refine ih n _ hn fun a h => ?_
        split at h
        · rcases List.mem_cons.mp h with rfl | h
          · exact hn
          · exact ha a h
        · exact ha a h

theorem vfsResolvePath (hm : Mid f pend) (path : List Name) :
    Returns (vfsResolvePath f path) fun o => ∀ n ∈ o, n ∈ f.nodes :=
  hm.resolve path f.root [f.root] hm.tree.root fun a ha => by
    rw [List.mem_singleton.mp ha]
    exact hm.tree.root

end Mid

/-! ## Opening and closing -/

/-- Only the counts of nodes have changed. -/
structure SameTree (f f' : Mount) : Prop extends KeepsNodes f.sys f'.sys where
  tids : f'.sys.tids = f.sys.tids
  handle : f'.sys.handle = f.sys.handle
  handles : f'.sys.handles = f.sys.handles
  tree : f' = { f with sys := f'.sys }

namespace Mid

theorem vfsClose {o : Option NodeId} (hm : Mid f (o.toList ++ pend)) (ho : ∀ n ∈ o, n ∈ f.nodes) :
    Returns (vfsClose f o) fun f' => Mid f' pend ∧ SameTree f f' := by
  have hch : ∀ n ∈ o, ∀ y, f.sys.node n = some y → y.isChannel = false := fun n hn =>
    OpenNode.notChannel (hm.openNode (ho n hn)) n rfl
  exact (hm.inv.vfsClose hch).bind fun s ⟨hi, hs⟩ => .pure ⟨hm.withSys hi hs.toKeepsNodes,
    ⟨hs.toKeepsNodes, hs.tids, hs.handle, hs.handles, rfl⟩⟩

theorem vfsOpen (hm : Mid f pend) (path : List Name) : Returns (vfsOpen f path) fun p =>
    Mid p.2 (p.1.toList ++ pend) ∧ SameTree f p.2 ∧ Tmpfs.vfsResolvePath f path = .ok p.1 ∧ ∀ n ∈ p.1, n ∈ f.nodes := by
  refine (hm.vfsResolvePath path).eq.bind fun o ⟨hr, ho⟩ => ?_
  cases o with
  | none => exact .pure ⟨hm, ⟨.refl _, rfl, rfl, rfl, rfl⟩, hr, fun n hn => absurd hn (not_mem_none n)⟩
  | some n =>
    have hn := ho n rfl
    obtain ⟨y, hy, hi, -⟩ := hm.inv.vfsOpen_kept (hm.keeper_ne hn)
    simp only [Handles.vfsOpen, System.getNode, hy]
    refine .pure ⟨hm.withSys hi (.setNode hy rfl), ⟨.setNode hy rfl, rfl, rfl, rfl, rfl⟩, hr, fun m hmn => ?_⟩
    rw [← mem_some_iff.mp hmn]
    exact hn

end Mid

/-! ## Buffers -/

/-- Files and their buffers have changed, directories have not. -/
structure SameDirs (f f' : Mount) : Prop extends KeepsNodes f.sys f'.sys where
  tids : f'.sys.tids = f.sys.tids
  handle : f'.sys.handle = f.sys.handle
  nodes : f'.nodes = f.nodes
  entries : f'.entries = f.entries

theorem SameDirs.refl (f : Mount) : SameDirs f f := ⟨.refl _, rfl, rfl, rfl, rfl⟩

theorem SameDirs.ret (f : Mount) (t : Tid) (v : Int) : SameDirs f (f.ret t v) := ⟨.of_eq rfl rfl, rfl, rfl, rfl, rfl⟩

theorem SameTree.sameDirs {f' : Mount} (h : SameTree f f') : SameDirs f f' :=
  ⟨h.toKeepsNodes, h.tids, h.handle, by rw [h.tree], by rw [h.tree]⟩

theorem Tree.getData (ht : Tree f) (n : NodeId) : Returns (f.getData n) fun _ => True := by
  unfold Mount.getData
  cases hd : (f.file n).data with
  | none => exact .pure trivial
  | some b =>
    obtain ⟨bytes, hb⟩ := isSome_iff_exists.mp (ht.data n b hd)
    simp only [hb]
    exact .pure trivial

/-- One file gets another buffer, or none. -/
theorem Tree.setFile (ht : Tree f) (x : TmpfsFile) {buffer : BufId → Option (List UInt8)}
    (hother : ∀ m, m ≠ n → ∀ b, (f.file m).data = some b → (buffer b).isSome)
    (hx : ∀ b, x.data = some b → (buffer b).isSome ∧ ∀ m, m ≠ n → (f.file m).data ≠ some b) :
    Tree { f.setFile n x with buffer := buffer } :=
  { ht with
    data := fun m b hb => by
      by_cases hm : m = n
      · subst hm
        exact (hx b (by simpa [Mount.setFile] using hb)).1
      · exact hother m hm b (by simpa [Mount.setFile, hm] using hb)
    owner := fun m m' b hb hb' => by
      by_cases hm : m = n
      · subst hm
        by_contra hne
        have hxb : x.data = some b := by simpa [Mount.setFile] using hb
        exact (hx b hxb).2 m' (Ne.symm hne) (by simpa [Mount.setFile, Ne.symm hne] using hb')
      · have hmb : (f.file m).data = some b := by simpa [Mount.setFile, hm] using hb
        by_cases hm' : m' = n
        · subst hm'
          exact absurd hmb ((hx b (by simpa [Mount.setFile] using hb')).2 m hm)
        · exact ht.owner m m' b hmb (by simpa [Mount.setFile, hm'] using hb') }

/-- The buffer of one file goes, those of the others stay. -/
theorem Tree.freeData (ht : Tree f) (n : NodeId) : Returns (f.freeData n) fun f' =>
    ∃ buffer, f' = { f with buffer := buffer } ∧
      (∀ m, m ≠ n → ∀ b, (f.file m).data = some b → (buffer b).isSome) ∧
      ∀ b, f.buffer b = none → buffer b = none := by
  unfold Mount.freeData
  cases hd : (f.file n).data with
  | none => exact .pure ⟨f.buffer, rfl, fun m _ b hb => ht.data m b hb, fun b hb => hb⟩
  | some old =>
    refine (ht.getData n).bind fun _ _ => .pure ⟨_, rfl, fun m hm b hb => ?_, fun b hb => ?_⟩
    · have hne : b ≠ old := fun e => hm (ht.owner m n b hb (e ▸ hd))
      rw [update_of_ne hne]
      exact ht.data m b hb
    · rw [update_apply]
      split
      · rfl
      · exact hb

theorem Tree.putData (ht : Tree f) (n : NodeId) (bytes : List UInt8) : Tree (f.putData n bytes) := by
  unfold Mount.putData
  cases hd : (f.file n).data with
  | none => exact ht
  | some b =>
    refine { ht with data := fun m b' hb' => ?_ }
    show (update f.buffer b (some bytes) b').isSome
    by_cases hb : b' = b
    · subst hb
      simp
    · rw [update_of_ne hb]
      exact ht.data m b' hb'

namespace Mid

theorem setSize (hm : Mid f pend) {y : Node} (hy : f.sys.node n = some y) (size : Nat) :
    Mid (f.setSize n y size) pend := by
  refine hm.withSys (hm.inv.setNode (fun _ _ => rfl) ?_) (.setNode hy rfl)
  have hn := hm.inv.node n
  rw [hy] at hn
  cases hk : f.sys.keeper n <;> rw [hk] at hn <;> exact hn

theorem sameDirs_setSize {y : Node} (hy : f.sys.node n = some y) (size : Nat) : SameDirs f (f.setSize n y size) :=
  ⟨.setNode hy rfl, rfl, rfl, rfl, rfl⟩

/-- The old buffer goes, and a new one takes its place. -/
theorem replaceData (hm : Mid f pend) {f' : Mount} {buffer : BufId → Option (List UInt8)} {b : BufId}
    (hf : f' = { f with buffer := buffer })
    (hother : ∀ m, m ≠ n → ∀ b, (f.file m).data = some b → (buffer b).isSome) (hnone : f.buffer b = none)
    (bytes : List UInt8) (size : Nat) : Mid (f'.newData n b bytes size) pend := by
  subst hf
  have hfresh : ∀ m, (f.file m).data ≠ some b := fun m hb => by
    have := hm.tree.data m b hb
    rw [hnone] at this
    exact absurd this Bool.false_ne_true
  refine ⟨hm.inv, hm.tree.setFile ⟨some b, size⟩ (fun m hne b' hb' => ?_) fun b' hb' => ?_⟩
  · by_cases hbb : b' = b
    · subst hbb
      exact absurd hb' (hfresh m)
    · rw [update_of_ne hbb]
      exact hother m hne b' hb'
  · cases hb'
    exact ⟨by simp, fun m _ => hfresh m⟩

theorem tmpfsRead (hm : Mid f pend) (hn : n ∈ f.nodes) (offset size : Nat) :
    Returns (tmpfsRead f n offset size) fun _ => True :=
  (hm.getNode hn).bind fun _ _ => .ite (fun _ => .pure trivial) fun _ => .ite (fun _ => .pure trivial) fun _ =>
    (hm.tree.getData n).bind fun _ _ => .pure trivial

theorem tmpfsWrite (hm : Mid f pend) (hn : n ∈ f.nodes) (offset : Nat) (bytes : List UInt8) {mem : BufId}
    (hmem : f.buffer mem = none) :
    Returns (tmpfsWrite f n offset bytes mem) fun p => Mid p.2 pend ∧ SameDirs f p.2 := by
  refine (hm.getNode hn).bind fun y hy => .ite (fun _ => .pure ⟨hm, .refl f⟩) fun _ => .ite (fun _ => ?_) fun _ => ?_
  · refine (hm.tree.getData n).bind fun old _ => (hm.tree.freeData n).bind ?_
    rintro f' ⟨buffer, rfl, hother, -⟩
    have hnew := hm.replaceData rfl hother hmem
      (store (List.replicate ((offset + bytes.length) % 2 ^ 32) 0) 0 (old.take (f.file n).size)) ((offset + bytes.length) % 2 ^ 32)
    have hsize := hnew.setSize hy ((offset + bytes.length) % 2 ^ 32)
    refine .pure ⟨⟨?_, hsize.tree.putData n _⟩, ?_⟩
    · simpa [Mount.putData, Mount.newData, Mount.setFile, Mount.setSize] using hsize.inv
    · simp only [Mount.putData, Mount.newData, Mount.setFile, Mount.setSize, update_self]
      exact ⟨.setNode hy rfl, rfl, rfl, rfl, rfl⟩
  · refine (hm.tree.getData n).bind fun data _ => .pure ⟨⟨?_, hm.tree.putData n _⟩, ?_⟩
    · unfold Mount.putData
      cases (f.file n).data <;> exact hm.inv
    · unfold Mount.putData
      cases (f.file n).data <;> exact ⟨.refl _, rfl, rfl, rfl, rfl⟩

/-- `tmpfs_truncate` to nothing. -/
theorem truncated {o : Option NodeId} (hm : Mid f pend) (ho : ∀ n ∈ o, n ∈ f.nodes) :
    Returns (truncated f o) fun p => Mid p.2 pend ∧ SameDirs f p.2 := by
  cases o with
  | none => exact .pure ⟨hm, .refl f⟩
  | some n =>
    refine (hm.getNode (ho n rfl)).bind fun y hy => .ite (fun _ => .pure ⟨hm, .refl f⟩) fun _ => .ite
      (fun _ => .pure ⟨hm.setSize hy 0, sameDirs_setSize hy 0⟩) fun _ => ?_
    rw [if_pos rfl]
    refine (hm.tree.freeData n).bind ?_
    rintro f' ⟨buffer, rfl, hother, -⟩
    have hfile : Mid { f.setFile n ⟨none, 0⟩ with buffer := buffer } pend :=
      ⟨hm.inv, hm.tree.setFile ⟨none, 0⟩ hother fun b hb => absurd hb (by simp)⟩
    exact .pure ⟨hfile.setSize hy 0, ⟨.setNode hy rfl, rfl, rfl, rfl, rfl⟩⟩

end Mid

end Serotonin.Tmpfs
