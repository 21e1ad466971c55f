import Serotonin.Tmpfs.Tree

/-! Open files keep their nodes as long as no file that `sys_open` made is unlinked while one
handle is open on it: the count of such a file takes no notice of that handle. -/

namespace Serotonin.Tmpfs

open Function List
open Files (Tid NodeId HandleId FileHandle)
open Handles (System Node Fault Keeper NodeOk)
open Handles.Inv (KeepsNodes OpenNode)

variable {f : Mount} {pend : List NodeId} {n dir : NodeId} {t : Tid}

/-! ## Entries that come and go -/

theorem entries_of_notMem (hm : Mid f pend) (hn : n ∉ f.nodes) : f.entries n = [] :=
  eq_nil_iff_forall_not_mem.mpr fun m h => hn (hm.tree.dir n m h).1

theorem mem_entries_link (hm : Mid f pend) (hn : n ∉ f.nodes) (sys : System) (name : Name) (d m : NodeId) :
    m ∈ (link { f with sys := sys } dir n name).entries d ↔ d = dir ∧ m = n ∨ m ∈ f.entries d := by
  show m ∈ update (update f.entries n []) dir (n :: f.entries dir) d ↔ _
  by_cases hd : d = dir
  · subst hd
    simp
  · rw [update_of_ne hd]
    by_cases hdn : d = n
    · subst hdn
      simp [hd, entries_of_notMem hm hn]
    · simp [hd, hdn]

/-- A new node is linked into a directory. -/
theorem Mid.link (hm : Mid f pend) (hd : dir ∈ f.nodes)
    (hflags : ∀ y, f.sys.node dir = some y → y.flags &&& vfsFlagDirectory ≠ 0) (hnone : f.sys.node n = none)
    {y : Node} {k : Keeper} (hk : k = .fileSystem 1 ∨ k = .fileSystem 0 ∧ y.flags &&& vfsFlagDirectory = 0)
    {pend' : List NodeId} (hi : Handles.Inv (f.sys.newNode n y k) [] pend') (name : Name) :
    Mid (link { f with sys := f.sys.newNode n y k } dir n name) pend' := by
  have hnot := hm.notMem hnone
  have hne : ∀ m ∈ f.nodes, m ≠ n := fun m h e => hnot (e ▸ h)
  have hmem := @mem_entries_link f pend n dir hm hnot (f.sys.newNode n y k) name
  refine ⟨hi,
    { nodup := nodup_cons.mpr ⟨hnot, hm.tree.nodup⟩
      root := mem_cons_of_mem _ hm.tree.root
      dir := fun d m h => ?_
      entry := fun d m h => ?_
      once := fun d => ?_
      single := fun d d' m h h' => ?_
      keeper := fun m h => ?_
      data := fun m b hb => ?_
      owner := fun m m' b hb hb' => ?_ }⟩
  · have hold : d ∈ f.nodes ∧ ∀ z, f.sys.node d = some z → z.flags &&& vfsFlagDirectory ≠ 0 := by
      rcases (hmem d m).mp h with ⟨rfl, -⟩ | h
      · exact ⟨hd, hflags⟩
      · exact hm.tree.dir d m h
    exact ⟨mem_cons_of_mem _ hold.1, fun z hz =>
      hold.2 z ((update_of_ne (hne d hold.1) _ _).symm.trans hz)⟩
  · rcases (hmem d m).mp h with ⟨-, rfl⟩ | h
    · exact ⟨mem_cons_self, (hne f.root hm.tree.root).symm⟩
    · obtain ⟨h, hr⟩ := hm.tree.entry d m h
      exact ⟨mem_cons_of_mem _ h, hr⟩
  · show (update (update f.entries n []) dir (n :: f.entries dir) d).Nodup
    by_cases hdd : d = dir
    · subst hdd
      rw [update_self]
      exact nodup_cons.mpr ⟨fun h => hnot (hm.tree.entry d n h).1, hm.tree.once d⟩
    · rw [update_of_ne hdd]
      by_cases hdn : d = n
      · subst hdn
        rw [update_self]
        exact nodup_nil
      · rw [update_of_ne hdn]
        exact hm.tree.once d
  · have hold : ∀ e, n ∉ f.entries e := fun e h => hnot (hm.tree.entry e n h).1
    rcases (hmem d m).mp h with ⟨hdd, hmn⟩ | hin <;> rcases (hmem d' m).mp h' with ⟨hdd', hmn'⟩ | hin'
    · exact hdd.trans hdd'.symm
    · exact absurd (hmn ▸ hin') (hold d')
    · exact absurd (hmn' ▸ hin) (hold d)
    · exact hm.tree.single d d' m hin hin'
  · show update f.sys.keeper n k m = _ ∨ update f.sys.keeper n k m = _ ∧
      ∀ z, update f.sys.node n (some y) m = some z → _
    rcases mem_cons.mp h with rfl | h
    · rw [update_self, update_self]
      exact hk.imp_right fun ⟨h0, hf⟩ => ⟨h0, fun z hz => Option.some.inj hz ▸ hf⟩
    · rw [update_of_ne (hne m h), update_of_ne (hne m h)]
      exact hm.tree.keeper m h
  · by_cases hmn : m = n
    · subst hmn
      simp [Tmpfs.link] at hb
    · exact hm.tree.data m b (by simpa [Tmpfs.link, hmn] using hb)
  · have hof : ∀ j, (update f.file n ⟨none, 0⟩ j).data = some b → (f.file j).data = some b := fun j hj => by
      by_cases hjn : j = n
      · subst hjn
        simp at hj
      · simpa [hjn] using hj
    exact hm.tree.owner m m' b (hof m hb) (hof m' hb')

/-- What a removal leaves: an entry that is gone was a node that is gone. -/
structure Removes (f f' : Mount) : Prop where
  gone : ∀ d m, m ∈ f.entries d → m ∈ f'.entries d ∨ f'.sys.node m = none
  stays : ∀ m, m ∈ f.nodes → m ∈ f'.nodes ∨ f'.sys.node m = none

/-- A node that nothing refers to is taken out of its directory and freed. -/
theorem Mid.remove (hm : Mid f pend) (hn : n ∈ f.entries dir) (hz : f.sys.openers n + pend.count n = 0)
    (hempty : f.entries n = []) {buffer : BufId → Option (List UInt8)}
    (hother : ∀ m, m ≠ n → ∀ b, (f.file m).data = some b → (buffer b).isSome) :
    Returns (remove { f with buffer := buffer } dir n) fun f' => Mid f' pend ∧ Removes f f' := by
  obtain ⟨hnodes, hroot⟩ := hm.tree.entry dir n hn
  obtain ⟨y, hy, -⟩ := hm.node_isSome hnodes
  refine (hm.inv.freeKept hy hz).bind ?_
  rintro _ ⟨rfl, hi⟩
  have hmem : ∀ d m, m ∈ update f.entries dir ((f.entries dir).erase n) d ↔ m ∈ f.entries d ∧ m ≠ n := by
    intro d m
    by_cases hd : d = dir
    · subst hd
      rw [update_self, (hm.tree.once d).mem_erase_iff, and_comm]
    · rw [update_of_ne hd]
      exact (and_iff_left_of_imp fun h (e : m = n) => hd (hm.tree.single d dir m h (e ▸ hn))).symm
  have hnode : ∀ m, m ≠ n → update f.sys.node n none m = f.sys.node m := fun m h => update_of_ne h _ _
  have hfile : ∀ m b, (update f.file n ⟨none, 0⟩ m).data = some b → m ≠ n ∧ (f.file m).data = some b := by
    intro m b hb
    by_cases hmn : m = n
    · subst hmn
      simp at hb
    · exact ⟨hmn, by simpa [hmn] using hb⟩
  refine .pure ⟨⟨hi,
    { nodup := hm.tree.nodup.erase n
      root := hm.tree.nodup.mem_erase_iff.mpr ⟨Ne.symm hroot, hm.tree.root⟩
      dir := fun d m h => ?_
      entry := fun d m h => ?_
      once := fun d => ?_
      single := fun d d' m h h' => hm.tree.single d d' m ((hmem d m).mp h).1 ((hmem d' m).mp h').1
      keeper := fun m h => ?_
      data := fun m b hb => hother m (hfile m b hb).1 b (hfile m b hb).2
      owner := fun m m' b hb hb' => hm.tree.owner m m' b (hfile m b hb).2 (hfile m' b hb').2 }⟩,
    { gone := fun d m h => ?_, stays := fun m h => ?_ }⟩
  · have h := ((hmem d m).mp h).1
    obtain ⟨hd, hflags⟩ := hm.tree.dir d m h
    have hdn : d ≠ n := fun e => by
      rw [e, hempty] at h
      exact not_mem_nil h
    exact ⟨hm.tree.nodup.mem_erase_iff.mpr ⟨hdn, hd⟩, fun z hz => hflags z ((hnode d hdn).symm.trans hz)⟩
  · obtain ⟨h, hmn⟩ := (hmem d m).mp h
    obtain ⟨hmf, hmr⟩ := hm.tree.entry d m h
    exact ⟨hm.tree.nodup.mem_erase_iff.mpr ⟨hmn, hmf⟩, hmr⟩
  · show (update f.entries dir ((f.entries dir).erase n) d).Nodup
    by_cases hd : d = dir
    · subst hd
      rw [update_self]
      exact (hm.tree.once d).erase n
    · rw [update_of_ne hd]
      exact hm.tree.once d
  · obtain ⟨hmn, h⟩ := hm.tree.nodup.mem_erase_iff.mp h
    show update f.sys.keeper n .caller m = _ ∨ update f.sys.keeper n .caller m = _ ∧
      ∀ z, update f.sys.node n none m = some z → _
    rw [update_of_ne hmn, hnode m hmn]
    exact hm.tree.keeper m h
  · by_cases hmn : m = n
    · exact .inr (hmn ▸ update_self ..)
    · exact .inl ((hmem d m).mpr ⟨h, hmn⟩)
  · by_cases hmn : m = n
    · exact .inr (hmn ▸ update_self ..)
    · exact .inl (hm.tree.nodup.mem_erase_iff.mpr ⟨hmn, h⟩)

namespace Removes

theorem refl (f : Mount) : Removes f f := ⟨fun _ _ h => .inl h, fun _ h => .inl h⟩

theorem trans {f' f'' : Mount} (h : Removes f f') (h' : Removes f' f'')
    (hnone : ∀ m, f'.sys.node m = none → f''.sys.node m = none) : Removes f f'' where
  gone d m hin := (h.gone d m hin).elim (h'.gone d m) fun hn => .inr (hnone m hn)
  stays m hin := (h.stays m hin).elim (h'.stays m) fun hn => .inr (hnone m hn)

theorem of_sameDirs {f' : Mount} (h : SameDirs f f') : Removes f f' where
  gone _ _ hin := .inl (h.entries ▸ hin)
  stays _ hin := .inl (h.nodes ▸ hin)

theorem of_sameTree {f' : Mount} (h : SameTree f f') : Removes f f' := of_sameDirs h.sameDirs

end Removes

theorem Removes.ret {f' : Mount} (h : Removes f f') (t : Tid) (v : Int) : Removes f (f'.ret t v) := ⟨h.gone, h.stays⟩

/-- Nothing is taken out of a directory. -/
structure Grows (f f' : Mount) : Prop where
  entries : ∀ d m, m ∈ f.entries d → m ∈ f'.entries d
  nodes : ∀ m, m ∈ f.nodes → m ∈ f'.nodes

namespace Grows

theorem removes {f' : Mount} (h : Grows f f') : Removes f f' :=
  ⟨fun d m hin => .inl (h.entries d m hin), fun m hin => .inl (h.nodes m hin)⟩

theorem trans {f' f'' : Mount} (h : Grows f f') (h' : Grows f' f'') : Grows f f'' :=
  ⟨fun d m hin => h'.entries d m (h.entries d m hin), fun m hin => h'.nodes m (h.nodes m hin)⟩

theorem of_sameDirs {f' : Mount} (h : SameDirs f f') : Grows f f' :=
  ⟨fun _ _ hin => h.entries ▸ hin, fun _ hin => h.nodes ▸ hin⟩

theorem of_sameTree {f' : Mount} (h : SameTree f f') : Grows f f' := of_sameDirs h.sameDirs

theorem ret {f' : Mount} (h : Grows f f') (t : Tid) (v : Int) : Grows f (f'.ret t v) := ⟨h.entries, h.nodes⟩

end Grows

theorem node_none {s s' : System} (h : KeepsNodes s s') (m : NodeId) (hm : s.node m = none) : s'.node m = none := by
  cases hm' : s'.node m with
  | none => rfl
  | some y =>
    obtain ⟨z, hz, -⟩ := h.flags m y hm'
    rw [hm] at hz
    cases hz

namespace Mid

/-! ## Unlinking -/

/-- A count of at most one leaves no reference but that of the handle a made file came with. -/
theorem refs_zero (hm : Mid f pend) (hn : n ∈ f.nodes) {y : Node} (hy : f.sys.node n = some y) (href : ¬1 < y.refcount)
    (hmade : f.sys.keeper n = .fileSystem 0 → f.sys.openers n + pend.count n ≠ 1) :
    f.sys.openers n + pend.count n = 0 := by
  have hi := hm.inv.node n
  rw [hy] at hi
  rcases hm.tree.keeper n hn with hk | ⟨hk, -⟩ <;> rw [hk] at hi
  · have := hi.2.1
    omega
  · have := hi.2.1
    have := hmade hk
    omega

theorem tmpfsUnlink (hm : Mid f [dir]) (hd : dir ∈ f.nodes) (name : Name)
    (hspare : ∀ n, (f.entries dir).find? (fun e => f.name e = name) = some n →
      f.sys.keeper n = .fileSystem 0 → f.sys.openers n ≠ 1) :
    Returns (tmpfsUnlink f dir name) fun p => Mid p.2 [dir] ∧ Removes f p.2 := by
  refine (hm.tmpfsFinddir hd name).bind fun o ho => ?_
  cases o with
  | none => exact .pure ⟨hm, .refl f⟩
  | some n =>
    obtain ⟨hin, hfind⟩ := ho n rfl
    have hn := (hm.tree.entry dir n hin).1
    refine (hm.getNode hn).bind fun y hy => .ite (fun _ => .pure ⟨hm, .refl f⟩) fun hfile => .ite
      (fun _ => .pure ⟨hm, .refl f⟩) fun href => ?_
    have hfile : y.flags &&& vfsFlagDirectory = 0 := not_not.mp hfile
    have hne : n ≠ dir := fun e => (hm.tree.dir dir n hin).2 y (e ▸ hy) hfile
    have hcount : [dir].count n = 0 := count_eq_zero.mpr fun h => hne (mem_singleton.mp h)
    have hz := hm.refs_zero hn hy href fun hk => by
      rw [hcount]
      exact hspare n hfind hk
    have hempty : f.entries n = [] := eq_nil_iff_forall_not_mem.mpr fun m h => (hm.tree.dir n m h).2 y hy hfile
    refine (hm.tree.freeData n).bind ?_
    rintro _ ⟨buffer, rfl, hother, -⟩
    exact (hm.remove hin hz hempty hother).bind fun f' hf' => .pure hf'

theorem tmpfsRmdir (hm : Mid f [dir]) (hd : dir ∈ f.nodes) (name : Name) :
    Returns (tmpfsRmdir f dir name) fun p => Mid p.2 [dir] ∧ Removes f p.2 := by
  refine (hm.tmpfsFinddir hd name).bind fun o ho => ?_
  cases o with
  | none => exact .pure ⟨hm, .refl f⟩
  | some n =>
    obtain ⟨hin, -⟩ := ho n rfl
    have hn := (hm.tree.entry dir n hin).1
    refine (hm.getNode hn).bind fun y hy => .ite (fun _ => .pure ⟨hm, .refl f⟩) fun hdir => .ite
      (fun _ => .pure ⟨hm, .refl f⟩) fun href => .ite (fun _ => .pure ⟨hm, .refl f⟩) fun hempty => ?_
    -- No directory is made by `sys_open`.
    have hz := hm.refs_zero hn hy href fun hk => by
      rcases hm.tree.keeper n hn with h | ⟨-, h⟩
      · rw [hk] at h
        cases h
      · exact absurd (h y hy) hdir
    exact (hm.remove hin hz (not_not.mp hempty) fun m _ b hb => hm.tree.data m b hb).bind fun f' hf' => .pure hf'

/-- The directory is open while the driver works on it. -/
theorem vfsRemove (hm : Mid f []) (path : Path) {op : Mount → NodeId → Name → Except Fault (Int × Mount)}
    (hop : ∀ f' dir, Mid f' [dir] → SameTree f f' → Tmpfs.vfsResolvePath f path.dir = .ok (some dir) → dir ∈ f'.nodes →
      Returns (op f' dir path.name) fun p => Mid p.2 [dir] ∧ Removes f' p.2) :
    Returns (vfsRemove op f path) fun p => Mid p.2 [] ∧ Removes f p.2 := by
  refine (hm.vfsOpen path.dir).bind fun ⟨o, f₁⟩ ⟨hm₁, hs₁, hr, ho⟩ => ?_
  cases o with
  | none => exact .pure ⟨hm₁, .of_sameTree hs₁⟩
  | some dir =>
    have hd : dir ∈ f₁.nodes := by
      rw [hs₁.sameDirs.nodes]
      exact ho dir rfl
    refine (hop f₁ dir hm₁ hs₁ hr hd).bind fun ⟨v, f₂⟩ ⟨hm₂, hr₂⟩ => ?_
    have hd₂ : dir ∈ f₂.nodes := (hr₂.stays dir hd).resolve_right fun hnone => by
      obtain ⟨y, hy⟩ := hm₂.inv.pend_isSome mem_cons_self
      rw [hnone] at hy
      cases hy
    refine (vfsClose (o := some dir) hm₂ fun m h => Option.mem_some_iff.mp h ▸ hd₂).bind fun f₃ ⟨hm₃, hs₃⟩ => ?_
    have h₁₂ : Removes f f₂ := ⟨fun d m h => hr₂.gone d m (hs₁.sameDirs.entries ▸ h),
      fun m h => hr₂.stays m (hs₁.sameDirs.nodes ▸ h)⟩
    exact .pure ⟨hm₃, h₁₂.trans (.of_sameTree hs₃) (node_none hs₃.toKeepsNodes)⟩

theorem checkRemove (hm : Mid f pend) (t : Tid) (path : Path) (y : Files.VfsNode) :
    Returns (checkRemove f t path y) fun _ => True := by
  refine (hm.vfsResolvePath path.dir).bind fun o ho => ?_
  cases o with
  | none => exact .pure trivial
  | some d => exact (hm.getNode (ho d rfl)).bind fun _ _ => .pure trivial

theorem checkUnlink (hm : Mid f pend) (t : Tid) (path : Path) : Returns (checkUnlink f t path) fun _ => True := by
  refine .ite (fun _ => .pure trivial) fun _ => (hm.vfsResolvePath path.full).bind fun o ho => ?_
  cases o with
  | none => exact .pure trivial
  | some n => exact (hm.getNode (ho n rfl)).bind fun y _ => .ite (fun _ => .pure trivial) fun _ => hm.checkRemove t path _

theorem checkRmdir (hm : Mid f pend) (t : Tid) (path : Path) : Returns (checkRmdir f t path) fun _ => True := by
  refine .ite (fun _ => .pure trivial) fun _ => (hm.vfsResolvePath path.full).bind fun o ho => ?_
  cases o with
  | none => exact .pure trivial
  | some n =>
    exact (hm.getNode (ho n rfl)).bind fun y _ => .ite (fun _ => .pure trivial) fun _ =>
      (hm.checkRemove t path _).bind fun _ _ => .ite (fun _ => .pure trivial) fun _ => .pure trivial

end Mid

/-- The file is not one that `sys_open` made and that one handle is open on. -/
def Spares (f : Mount) (path : Path) : Prop :=
  ∀ dir, vfsResolvePath f path.dir = .ok (some dir) →
    ∀ n, (f.entries dir).find? (fun e => f.name e = path.name) = some n →
      f.sys.keeper n = .fileSystem 0 → f.sys.openers n ≠ 1

namespace Mid

theorem sysUnlink (hm : Mid f []) (t : Tid) (path : Path) (hspare : Tmpfs.checkUnlink f t path = .ok 0 → Spares f path) :
    Returns (sysUnlink f t path) fun f' => Mid f' [] ∧ Removes f f' := by
  refine (hm.checkUnlink t path).eq.bind fun v ⟨hv, _⟩ => .ite (fun _ => .pure ⟨hm.ret t v, ?_⟩) fun hv0 => ?_
  · exact .of_sameDirs (.ret f t v)
  · have hs := hspare (hv.trans (congrArg Except.ok (not_not.mp hv0)))
    refine (hm.vfsRemove path fun f' dir hm' hs' hr hd => ?_).bind fun p hp => .pure ⟨hp.1.ret t _, ?_⟩
    · refine hm'.tmpfsUnlink hd path.name fun n hfind hk => ?_
      have hsame := hs'.tree
      rw [hs'.keeper] at hk
      rw [hsame] at hfind
      have hof : f'.sys.nodeOf = f.sys.nodeOf := funext fun k => by rw [System.nodeOf, System.nodeOf, hs'.handle]
      rw [System.openers, hs'.handles, hof]
      exact hs dir hr n hfind hk
    · exact hp.2.ret t _

theorem sysRmdir (hm : Mid f []) (t : Tid) (path : Path) :
    Returns (sysRmdir f t path) fun f' => Mid f' [] ∧ Removes f f' := by
  refine (hm.checkRmdir t path).bind fun v _ => .ite (fun _ => .pure ⟨hm.ret t v, ?_⟩) fun _ => ?_
  · exact .of_sameDirs (.ret f t v)
  · refine (hm.vfsRemove path fun f' dir hm' _ _ hd => hm'.tmpfsRmdir hd path.name).bind fun p hp =>
      .pure ⟨hp.1.ret t _, ?_⟩
    exact hp.2.ret t _

/-! ## Opening -/

theorem dirRefused (hm : Mid f pend) (t : Tid) (path : Path) : Returns (dirRefused f t path) fun _ => True := by
  refine (hm.vfsResolvePath path.dir).bind fun o ho => ?_
  cases o with
  | none => exact .pure trivial
  | some d => exact (hm.getNode (ho d rfl)).bind fun _ _ => .pure trivial

theorem tmpfsCreate (hm : Mid f pend) (hd : dir ∈ f.nodes) (c : Files.Cred) (name : Name) {flags mode : BitVec 32}
    {own : Nat} {pend' : List NodeId} (hnone : f.sys.node n = none)
    (hown : own = 1 ∨ own = 0 ∧ flags &&& vfsFlagDirectory = 0)
    (hnew : Handles.Inv (f.sys.newNode n
      { size := 0, flags := flags, uid := c.euid, gid := c.egid, mode := mode, refcount := 1 } (.fileSystem own)) [] pend') :
    Returns (tmpfsCreate f c dir name n flags mode own) fun p => p = (none, f) ∨ p.1 = some n ∧ n ∈ p.2.nodes ∧
      Mid p.2 pend' ∧ Grows f p.2 ∧ dir ∈ p.2.nodes ∧ p.2.sys.tids = f.sys.tids ∧ p.2.sys.handle = f.sys.handle := by
  refine (hm.getNode hd).bind fun y hy => .ite (fun _ => .pure (.inl rfl)) fun hdir => .pure (.inr ⟨rfl,
    mem_cons_self, ?_, ?_, mem_cons_of_mem _ hd, rfl, rfl⟩)
  · exact hm.link hd (fun z hz => Option.some.inj (hy.symm.trans hz) ▸ hdir) hnone
      (hown.imp (congrArg Keeper.fileSystem) fun ⟨h, hf⟩ => ⟨congrArg Keeper.fileSystem h, hf⟩) hnew name
  · exact
      { entries := fun d m h => (mem_entries_link hm (hm.notMem hnone) _ _ d m).mpr (.inr h)
        nodes := fun m h => mem_cons_of_mem _ h }

/-- A new node with the references `extra` to it. -/
theorem vfsCreate (hm : Mid f []) (c : Files.Cred) (path : Path) {flags mode : BitVec 32} {own : Nat}
    (extra : List NodeId) (hnone : f.sys.node n = none)
    (hown : own = 1 ∨ own = 0 ∧ flags &&& vfsFlagDirectory = 0)
    (hnew : ∀ s : System, ∀ p, Handles.Inv s [] p → s.node n = none → Handles.Inv (s.newNode n
      { size := 0, flags := flags, uid := c.euid, gid := c.egid, mode := mode, refcount := 1 } (.fileSystem own)) [] (extra ++ p)) :
    Returns (vfsCreate f c path n flags mode own) fun p => (∀ m ∈ p.1, m = n ∧ m ∈ p.2.nodes) ∧
      Mid p.2 (if p.1.isSome then extra else []) ∧ Grows f p.2 ∧ p.2.sys.tids = f.sys.tids ∧
        p.2.sys.handle = f.sys.handle := by
  have hnomem : ∀ m ∈ (none : Option NodeId), False := fun m h => Option.not_mem_none m h
  refine (hm.vfsOpen path.dir).bind fun ⟨o, f₁⟩ ⟨hm₁, hs₁, _, ho⟩ => ?_
  cases o with
  | none => exact .pure ⟨fun m h => (hnomem m h).elim, hm₁, .of_sameTree hs₁, hs₁.tids, hs₁.handle⟩
  | some dir =>
    have hd : dir ∈ f₁.nodes := by
      rw [hs₁.sameDirs.nodes]
      exact ho dir rfl
    have hnone₁ := node_none hs₁.toKeepsNodes n hnone
    refine (hm₁.tmpfsCreate hd c path.name hnone₁ hown (hnew f₁.sys _ hm₁.inv hnone₁)).bind fun ⟨o, f₂⟩ h₂ => ?_
    rcases h₂ with h₂ | ⟨ho₂, hn₂, hm₂, hr₂, hd₂, ht₂, hh₂⟩
    · cases h₂
      exact (vfsClose (o := some dir) hm₁ fun m h => Option.mem_some_iff.mp h ▸ hd).bind fun f₂ ⟨hm₂, hs₂⟩ => .pure
        ⟨fun m h => (hnomem m h).elim, hm₂, (Grows.of_sameTree hs₁).trans (.of_sameTree hs₂),
          hs₂.tids.trans hs₁.tids, hs₂.handle.trans hs₁.handle⟩
    · cases ho₂
      have hperm : (extra ++ [dir]).Perm ((some dir : Option NodeId).toList ++ extra) := perm_append_comm
      have hm₂' : Mid f₂ ((some dir : Option NodeId).toList ++ extra) := ⟨hm₂.inv.perm (.refl _) hperm, hm₂.tree⟩
      refine (hm₂'.vfsClose fun m h => Option.mem_some_iff.mp h ▸ hd₂).bind fun f₃ ⟨hm₃, hs₃⟩ => .pure ⟨fun m h => ?_,
        hm₃, ?_, hs₃.tids.trans (ht₂.trans hs₁.tids), hs₃.handle.trans (hh₂.trans hs₁.handle)⟩
      · cases Option.mem_some_iff.mp h
        exact ⟨rfl, hs₃.sameDirs.nodes ▸ hn₂⟩
      · exact ((Grows.of_sameTree hs₁).trans hr₂).trans (.of_sameTree hs₃)

theorem openNodes (hm : Mid f pend) {o : Option NodeId} (ho : ∀ n ∈ o, n ∈ f.nodes) : OpenNode f.sys o :=
  fun n hn => hm.node_isSome (ho n hn)

theorem openHandle {o : Option NodeId} {r : OpenReq} (hm : Mid f o.toList) (ht : t ∈ f.sys.tids)
    (ho : ∀ n ∈ o, n ∈ f.nodes) (hr : ∀ h ∈ r.malloc, f.sys.handle h = none) :
    Returns (openHandle f t o r) fun f' => Mid f' [] ∧ Grows f f' :=
  (hm.inv.openHandle ht (hm.openNodes ho) hr).bind fun _ hs => .pure ⟨hm.withSys hs.1 hs.2,
    ⟨fun _ _ h => h, fun _ h => h⟩⟩

theorem nodeCreated {o : Option NodeId} {r : OpenReq} (hm : Mid f o.toList) (ht : t ∈ f.sys.tids)
    (ho : ∀ n ∈ o, n ∈ f.nodes) (hr : ∀ h ∈ r.malloc, f.sys.handle h = none) :
    Returns (nodeCreated f t o r) fun f' => Mid f' [] ∧ Grows f f' := by
  have hopen := hm.openHandle ht ho hr
  refine .ite (fun _ => ((hm.openNodes ho).read r.input).bind fun z _ => .ite (fun _ => ?_) fun _ => hopen)
    fun _ => hopen
  refine (hm.truncated ho).bind fun ⟨v, f₁⟩ ⟨hm₁, hs₁⟩ => ?_
  have ho₁ : ∀ n ∈ o, n ∈ f₁.nodes := fun n hn => hs₁.nodes ▸ ho n hn
  refine .ite (fun _ => ?_) fun _ => ?_
  · have hm₁' : Mid f₁ (o.toList ++ []) := by simpa using hm₁
    exact (hm₁'.vfsClose ho₁).bind fun f₂ ⟨hm₂, hs₂⟩ => .pure ⟨hm₂.ret t _,
      ((Grows.of_sameDirs hs₁).trans (.of_sameTree hs₂)).ret t _⟩
  · refine (hm₁.openHandle (hs₁.tids ▸ ht) ho₁ fun h hh => by rw [hs₁.handle]; exact hr h hh).mono fun f₂ ⟨hm₂, hr₂⟩ =>
      ⟨hm₂, (Grows.of_sameDirs hs₁).trans hr₂⟩

theorem checkOpened {r : OpenReq} (hm : Mid f [n]) (ht : t ∈ f.sys.tids) (hn : n ∈ f.nodes)
    (hr : ∀ h ∈ r.malloc, f.sys.handle h = none) :
    Returns (checkOpened f t n r) fun f' => Mid f' [] ∧ Grows f f' := by
  have ho : ∀ m ∈ (some n : Option NodeId), m ∈ f.nodes := fun m h => Option.mem_some_iff.mp h ▸ hn
  have hm' : Mid f ((some n).toList ++ []) := hm
  have hclose : ∀ v, Returns (do let f ← Tmpfs.vfsClose f (some n); return f.ret t v : Except Fault Mount)
      fun f' => Mid f' [] ∧ Grows f f' := fun v =>
    (hm'.vfsClose ho).bind fun f₁ ⟨hm₁, hs₁⟩ => .pure ⟨hm₁.ret t v, (Grows.of_sameTree hs₁).ret t v⟩
  exact .ite (fun _ => hclose _) fun _ => (hm.getNode hn).bind fun y _ => .ite (fun _ => hclose _) fun _ =>
    nodeCreated (o := some n) hm ht ho hr

/-- A new file is no pipe, no socket and no disk file. -/
theorem newFile_ok {uid gid : Nat} {mode : BitVec 32} : NodeOk (.fileSystem 0)
    (some { size := 0, flags := Files.vfsFlagFile, uid := uid, gid := gid, mode := mode, refcount := 1 }) 1 := by
  refine ⟨?_, rfl, fun h => absurd h ?_⟩
  · simp [Node.isChannel, Files.vfsFlagFile, Handles.vfsFlagPipe, Handles.vfsFlagSocket]
  · simp [Node.isDisk, Files.vfsFlagFile, Files.vfsFlagDiskio]

theorem newDir_ok {uid gid : Nat} {mode : BitVec 32} : NodeOk (.fileSystem 1)
    (some { size := 0, flags := vfsFlagDirectory, uid := uid, gid := gid, mode := mode, refcount := 1 }) 0 := by
  refine ⟨?_, rfl, fun _ => Nat.one_pos⟩
  simp [Node.isChannel, vfsFlagDirectory, Handles.vfsFlagPipe, Handles.vfsFlagSocket]

theorem sysOpen {r : OpenReq} (hm : Mid f []) (ht : t ∈ f.sys.tids) (hnode : f.sys.node r.node = none)
    (hr : ∀ h ∈ r.malloc, f.sys.handle h = none) :
    Returns (sysOpen f t r) fun f' => Mid f' [] ∧ Grows f f' := by
  refine .ite (fun _ => .pure ⟨hm.ret t _, .of_sameDirs (.ret f t _)⟩) fun _ =>
    (hm.vfsOpen r.path.full).bind fun ⟨o, f₁⟩ ⟨hm₁, hs₁, _, ho⟩ => ?_
  have hr₁ : ∀ h ∈ r.malloc, f₁.sys.handle h = none := fun h hh => by rw [hs₁.handle]; exact hr h hh
  cases o with
  | some n =>
    exact (checkOpened hm₁ (hs₁.tids ▸ ht) (hs₁.sameDirs.nodes ▸ ho n rfl) hr₁).mono fun f' hf' =>
      ⟨hf'.1, (Grows.of_sameTree hs₁).trans hf'.2⟩
  | none =>
    refine .ite (fun _ => (dirRefused hm₁ t r.path).bind fun b _ => .ite
      (fun _ => .pure ⟨ret hm₁ t _, (Grows.of_sameTree hs₁).ret t _⟩) fun _ => ?_)
      fun _ => .pure ⟨ret hm₁ t _, (Grows.of_sameTree hs₁).ret t _⟩
    have hnone₁ := node_none hs₁.toKeepsNodes r.node hnode
    refine (vfsCreate hm₁ (f₁.sys.cred t) r.path [r.node] hnone₁ (.inr ⟨rfl, rfl⟩) fun s p hi hs => hi.newNode hs
      newFile_ok).bind
        fun ⟨o₂, f₂⟩ ⟨ho₂, hm₂, hr₂, ht₂, hh₂⟩ => ?_
    have hlist : (if o₂.isSome then [r.node] else []) = o₂.toList := by
      cases o₂ with
      | none => rfl
      | some m =>
        rw [(ho₂ m rfl).1]
        rfl
    have hm₂ : Mid f₂ (if o₂.isSome then [r.node] else []) := hm₂
    rw [hlist] at hm₂
    refine (hm₂.nodeCreated (r := r) (t := t) (ht₂ ▸ hs₁.tids ▸ ht) (fun m h => (ho₂ m h).2) fun h hh => ?_).mono
      fun f' hf' => ⟨hf'.1, ((Grows.of_sameTree hs₁).trans hr₂).trans hf'.2⟩
    rw [hh₂]
    exact hr₁ h hh

/-! ## Reading, writing and making directories -/

theorem setOffset (hm : Mid f pend) {h : HandleId} {x : FileHandle} (hx : f.sys.handle h = some x) (offset : Nat) :
    Mid { f with sys := f.sys.setHandle h { x with offset := offset } } pend :=
  hm.withSys (hm.inv.setOffset hx offset) (.of_eq rfl rfl)

theorem sysRead {size : Nat} {io : IoReq} (hm : Mid f []) (ht : t ∈ f.sys.tids) :
    Returns (sysRead f t size io) fun f' => Mid f' [] ∧ Grows f f' := by
  have hret : ∀ v, Mid (f.ret t v) [] ∧ Grows f (f.ret t v) := fun v => ⟨hm.ret t v, .of_sameDirs (.ret f t v)⟩
  unfold Tmpfs.sysRead
  refine .ite (fun _ => .pure (hret _)) fun hfd => ?_
  cases hs : f.sys.fdTable (t, io.fd) with
  | none => exact .pure (hret _)
  | some h =>
    obtain ⟨x, hx⟩ := hm.inv.slot_handle ht (Nat.not_le.mp hfd) hs
    simp only [System.getHandle, hx]
    refine .ite (fun _ => .pure (hret _)) fun _ => .ite (fun _ => .pure (hret _)) fun _ => ?_
    cases hn : x.node with
    | none =>
      exact .pure (hret _)
    | some n =>
      obtain ⟨y, hy⟩ := hm.inv.node_isSome (Nat.add_pos_left (hm.inv.openers_pos hx hn) _)
      simp only [System.getNode, hy]
      refine .ite (fun hmem => ?_) fun _ => .pure (hret _)
      refine (hm.tmpfsRead hmem x.offset size).bind fun v _ => .ite (fun _ => .pure (hret _)) fun _ => .ite
        (fun _ => .pure (hret _)) fun _ => .pure ⟨(hm.setOffset hx _).ret t _, ⟨fun _ _ h => h, fun _ h => h⟩⟩

/-- The end of `sys_write`, the offset being where it belongs. -/
theorem writeAt {bytes : List UInt8} {mem : BufId} {h : HandleId} {x : FileHandle} (hm : Mid f [])
    (hx : f.sys.handle h = some x) (hn : n ∈ f.nodes) (hmem : f.buffer mem = none) :
    Returns (Tmpfs.tmpfsWrite f n x.offset bytes mem) fun p =>
      (∀ v, Mid (p.2.ret t v) [] ∧ Grows f (p.2.ret t v)) ∧
        Mid (advance p.2 t h x p.1) [] ∧ Grows f (advance p.2 t h x p.1) := by
  refine (hm.tmpfsWrite hn x.offset bytes hmem).mono fun ⟨v, f₁⟩ ⟨hm₁, hs₁⟩ => ⟨fun w => ⟨hm₁.ret t w,
    (Grows.of_sameDirs hs₁).ret t w⟩, ?_, ?_⟩
  · exact (setOffset hm₁ ((congrFun hs₁.handle h).trans hx) _).ret t _
  · have hg := Grows.of_sameDirs hs₁
    exact ⟨hg.entries, hg.nodes⟩

theorem sysWrite {bytes : List UInt8} {mem : BufId} {io : IoReq} (hm : Mid f []) (ht : t ∈ f.sys.tids)
    (hmem : f.buffer mem = none) :
    Returns (sysWrite f t bytes mem io) fun f' => Mid f' [] ∧ Grows f f' := by
  have hret : ∀ v, Mid (f.ret t v) [] ∧ Grows f (f.ret t v) := fun v => ⟨hm.ret t v, .of_sameDirs (.ret f t v)⟩
  unfold Tmpfs.sysWrite
  refine .ite (fun _ => .pure (hret _)) fun hfd => ?_
  cases hs : f.sys.fdTable (t, io.fd) with
  | none => exact .pure (hret _)
  | some h =>
    obtain ⟨x, hx⟩ := hm.inv.slot_handle ht (Nat.not_le.mp hfd) hs
    simp only [System.getHandle, hx]
    refine .ite (fun _ => .pure (hret _)) fun _ => ?_
    cases hn : x.node with
    | none =>
      exact .pure (hret _)
    | some n =>
      obtain ⟨y, hy⟩ := hm.inv.node_isSome (Nat.add_pos_left (hm.inv.openers_pos hx hn) _)
      simp only [System.getNode, hy]
      refine .ite (fun hmemn => ?_) fun _ => .pure (hret _)
      have hm₁ : Mid { f with sys := f.sys.setHandle h (toEnd x y) } [] := by
        unfold toEnd
        split
        · exact hm.setOffset hx y.size
        · exact hm.setOffset hx x.offset
      have hx₁ : (f.sys.setHandle h (toEnd x y)).handle h = some (toEnd x y) := update_self ..
      have hret₁ : ∀ v, Mid (Mount.ret { f with sys := f.sys.setHandle h (toEnd x y) } t v) [] ∧
          Grows f (Mount.ret { f with sys := f.sys.setHandle h (toEnd x y) } t v) := fun v =>
        ⟨hm₁.ret t v, ⟨fun _ _ h => h, fun _ h => h⟩⟩
      refine .ite (fun _ => .pure (hret₁ _)) fun _ => .ite (fun _ => .pure (hret₁ _)) fun _ => ?_
      refine (hm₁.writeAt (t := t) hx₁ hmemn hmem).bind fun p hp => .ite (fun _ => .pure ?_) fun _ => .pure ?_
      · obtain ⟨hm₂, hg₂⟩ := hp.1 (ioError p.1)
        exact ⟨hm₂, hg₂.entries, hg₂.nodes⟩
      · obtain ⟨_, hm₂, hg₂⟩ := hp
        exact ⟨hm₂, hg₂.entries, hg₂.nodes⟩

theorem sysMkdir {path : Path} {umask : BitVec 32} (hm : Mid f []) (hnone : f.sys.node n = none) :
    Returns (sysMkdir f t path umask n) fun f' => Mid f' [] ∧ Grows f f' := by
  have hret : ∀ v, Mid (f.ret t v) [] ∧ Grows f (f.ret t v) := fun v => ⟨hm.ret t v, .of_sameDirs (.ret f t v)⟩
  refine .ite (fun _ => .pure (hret _)) fun _ => (hm.vfsResolvePath path.full).bind fun o _ => ?_
  cases o with
  | some m => exact .pure (hret _)
  | none =>
    refine (hm.dirRefused t path).bind fun b _ => .ite (fun _ => .pure (hret _)) fun _ => ?_
    refine (hm.vfsCreate (f.sys.cred t) path [] hnone (.inl rfl) fun s p hi hs => hi.newKept hs newDir_ok).bind
      fun ⟨o, f₁⟩ ⟨_, hm₁, hg₁, _, _⟩ => .pure ⟨?_, hg₁.ret t _⟩
    refine ret ?_ t _
    simpa using hm₁

/-! ## Runs -/

/-- What only handles and tasks take part in leaves the tree alone. -/
theorem besides {e : Except Fault System} (hm : Mid f [])
    (he : Returns e fun s => Handles.Inv s [] [] ∧ KeepsNodes f.sys s) :
    Returns (Op.withSys f e) fun f' => Mid f' [] ∧ Removes f f' := by
  obtain ⟨s, rfl, hi, hk⟩ := he
  exact .ok ⟨hm.withSys hi hk, ⟨fun _ _ h => .inl h, fun _ h => .inl h⟩⟩

end Mid

/-- The condition on a call. -/
def Op.Spares (f : Mount) : Op → Prop
  | .unlink t path => checkUnlink f t path = .ok 0 → Tmpfs.Spares f path
  | _ => True

namespace Mid

theorem run {op : Op} (hm : Mid f []) (he : op.Enabled f) (hs : op.Spares f) :
    Returns (op.run f) fun f' => Mid f' [] ∧ Removes f f' := by
  obtain ⟨ht, hw, hf⟩ := he
  cases op with
  | «open» t r => exact (hm.sysOpen ht hf.1 hf.2).mono fun f' ⟨hm', hg⟩ => ⟨hm', hg.removes⟩
  | read t size io => exact (hm.sysRead ht).mono fun f' ⟨hm', hg⟩ => ⟨hm', hg.removes⟩
  | write t bytes mem io => exact (hm.sysWrite ht hf).mono fun f' ⟨hm', hg⟩ => ⟨hm', hg.removes⟩
  | unlink t path => exact hm.sysUnlink t path hs
  | rmdir t path => exact hm.sysRmdir t path
  | mkdir t path umask n => exact (hm.sysMkdir hf).mono fun f' ⟨hm', hg⟩ => ⟨hm', hg.removes⟩
  | close t fd b => exact hm.besides (hm.inv.sysClose ht b)
  | dup t oldfd newfd => exact hm.besides (hm.inv.sysDup ht)
  | fork t child => exact hm.besides (hm.inv.taskFork ht hf)
  | exit t => exact hm.besides (hm.inv.taskExit ht hw)

theorem boot (hb : Boot f) : Mid f [] where
  inv := .boot hb.sys
  tree :=
    { nodup := hb.nodes ▸ nodup_singleton _
      root := hb.nodes ▸ mem_singleton_self _
      dir := fun d n hn => by
        rw [hb.entries] at hn
        exact absurd hn not_mem_nil
      entry := fun d n hn => by
        rw [hb.entries] at hn
        exact absurd hn not_mem_nil
      once := fun d => hb.entries d ▸ nodup_nil
      single := fun d d' n hn => by
        rw [hb.entries] at hn
        exact absurd hn not_mem_nil
      keeper := fun n hn => by
        rw [hb.nodes, mem_singleton] at hn
        exact .inl (hn ▸ hb.root)
      data := fun n b hd => by
        rw [hb.file] at hd
        cases hd
      owner := fun n m b hd => by
        rw [hb.file] at hd
        cases hd }

end Mid

/-- No open handle leads to a node or a buffer that was freed. -/
def Safe (f : Mount) : Prop :=
  ∀ h x n, f.sys.handle h = some x → x.node = some n →
    (f.sys.node n).isSome ∧ ∀ b, (f.file n).data = some b → (f.buffer b).isSome

theorem Mid.safe (hm : Mid f []) : Safe f := fun h x n hx hn => by
  obtain ⟨y, hy⟩ := hm.inv.node_isSome (Nat.add_pos_left (hm.inv.openers_pos hx hn) _)
  exact ⟨by rw [hy]; rfl, fun b hb => hm.tree.data n b hb⟩

def SparingStep (f f' : Mount) : Prop := ∃ op : Op, op.Enabled f ∧ op.Spares f ∧ op.run f = .ok f'

/-- One terminal, and a directory at node 1. -/
def bareSystem : System :=
  let dir : Node := { size := 0, flags := vfsFlagDirectory, uid := 0, gid := 0, mode := 0x1FF, refcount := 1 }
  { tids := [Handles.initPid]
    cred := fun _ => ⟨0, 0, 0, 0, []⟩
    fdTable := fun _ => none
    handle := fun _ => none
    node := fun n => if n < 2 then some dir else none
    acceptWaiters := fun _ => []
    eax := fun _ => 0
    handles := []
    keeper := fun n => if n = 0 then .terminal else if n = 1 then .fileSystem 1 else .caller }

def mounted : Mount where
  sys := Handles.bootFd (Handles.bootFd (Handles.bootFd bareSystem 0 0 0 Files.oRdonly) 1 1 0 Files.oWronly) 2 2 0
    Files.oWronly
  root := 1
  nodes := [1]
  name := fun _ => []
  file := fun _ => ⟨none, 0⟩
  entries := fun _ => []
  buffer := fun _ => none

theorem boot_mounted : Boot mounted := by
  refine ⟨⟨bareSystem, 0, 0, 1, 2, ⟨rfl, fun _ => rfl, fun _ => rfl, rfl, fun _ => rfl, fun n => ?_⟩, rfl, by decide, rfl⟩,
    rfl, rfl, fun _ => rfl, fun _ => rfl, fun _ => rfl⟩
  match n with
  | 0 => exact ⟨_, rfl, rfl, rfl⟩
  | 1 => exact ⟨_, rfl, rfl, rfl, fun h => absurd h (by decide)⟩
  | n + 2 => rfl

/-- `open("/a", O_CREAT | O_RDWR)`. -/
def madeFile : OpenReq :=
  { path := ⟨true, [], [97]⟩
    flags := Files.oCreat ||| 2
    umask := 0
    node := 2
    zero := ⟨0, 0, 0, 0, 0⟩
    malloc := some 3 }

end Serotonin.Tmpfs
