import Serotonin.Schedule.Mmu

/-! The directory in CR3 belongs to a live address space, and no kernel stack in use is on
the free list. Two things break this. `task_yield` loads the directory of the task that it
has chosen before it delivers that task's signals; if one ends the task, the `task_yield` of
its `task_exit` reaps it, for it is not the current task, with its directory still in CR3.
And the kernel tasks run on the directory that init had when they were made, which init's
own `sys_execve` destroys. In every run without these two all is well. -/

namespace Serotonin.Mmu
open Function Option
open Schedule Ownership
open List (mem_filter mem_cons nodup_cons mem_cons_self mem_cons_of_mem not_mem_nil mem_append mem_singleton)

/-- What should always hold. -/
structure Sound (m : Machine) : Prop where
  cr3 : m.cr3 = m.kernelPdir ∨ m.cr3 ∈ m.addressSpaces
  kernelStacks : ∀ t, t = m.sched.current ∨ t ∈ m.sched.taskList → kernelStack m t ∉ m.freeKernelStacks

/-! ## The invariant -/

/-- Whose control block, address space and stack are not freed yet. -/
def allocated (s : Sched) : Set Tid := {t | t ∈ s.taskList ∨ t ∈ s.zombieList}

structure Lists (s : Sched) : Prop where
  current : s.current ∈ allocated s
  apart : ∀ t ∈ s.zombieList, t ∉ s.taskList
  zombies : s.zombieList.Nodup
  init : ∀ t ∈ s.zombieList, (s.pcb t).pid ≠ 1

/-- A directory that is not destroyed as long as these tasks are not reaped. -/
def Kept (m : Machine) (who : Tid → Prop) (frame : Nat) : Prop :=
  frame = m.kernelPdir ∨
    frame ∈ m.addressSpaces ∧ ∀ t ∈ allocated m.sched, m.addressSpace t = some frame → who t

structure Spaces (m : Machine) : Prop where
  held : Held (allocated m.sched) m.addressSpace {a | a ∈ m.addressSpaces}
  user : ∀ t ∈ m.sched.taskList, (m.sched.pcb t).priv = .user → (m.addressSpace t).isSome
  /-- Init, which is never reaped, may share its directory with the kernel tasks. -/
  kernel : ∀ t ∈ m.sched.taskList, (m.sched.pcb t).priv ≠ .user →
    Kept m (fun u => (m.sched.pcb u).pid = 1) (m.pcbCr3 t)
  cr3 : Kept m (fun u => u = m.sched.current ∨ (m.sched.pcb u).pid = 1) m.cr3
  loading : ∀ old, m.loading = some (some old) →
    old ∈ m.addressSpaces ∧ old ≠ m.cr3 ∧ ∀ t ∈ allocated m.sched, m.addressSpace t ≠ some old

/-- Outside what `alloc_kernel_stack` has left to give. -/
def Carved (m : Machine) (base : Nat) : Prop := base < kernelStackBottom ∨ m.nextKernelStack ≤ base

structure Stacks (m : Machine) : Prop where
  held : Held (allocated m.sched) (fun t => some (kernelStack m t))
    {b | b ∉ m.freeKernelStacks ∧ Carved m b}
  carved : ∀ b ∈ m.freeKernelStacks, Carved m b
  nodup : m.freeKernelStacks.Nodup
  bottom : kernelStackBottom ≤ m.nextKernelStack

structure Core (m : Machine) : Prop where
  lists : Lists m.sched
  spaces : Spaces m
  kernelStacks : Stacks m

structure Inv (m : Machine) : Prop extends Core m where
  running : m.sched.mode ≠ .switching → m.sched.current ∈ m.sched.taskList
  exiting : ∀ t exit, m.sched.mode = .exiting t exit →
    t = m.sched.current ∧ (m.sched.pcb t).pid ≠ 1
  idle : m.sched.mode = .switching → m.loading = none

theorem Inv.sound {m : Machine} (h : Inv m) : Sound m := by
  refine ⟨h.spaces.cr3.imp id And.left, fun t ht => ?_⟩
  have hall : t ∈ allocated m.sched := by
    rcases ht with rfl | ht
    · exact h.lists.current
    · exact .inl ht
  exact (h.kernelStacks.held.used t hall _ rfl).1

theorem Kept.mono {m : Machine} {who who' : Tid → Prop} {frame : Nat} (h : Kept m who frame)
    (hw : ∀ t, who t → who' t) : Kept m who' frame :=
  h.imp id fun ⟨hm, hh⟩ => ⟨hm, fun t ht he => hw t (hh t ht he)⟩

/-! ## Steps of the scheduler -/

theorem Owners.allocated {s s' : Sched} (h : Owners s s') : allocated s' = allocated s := by
  unfold Mmu.allocated
  rw [h.taskList, h.zombieList]

theorem Owners.lists {s s' : Sched} (h : Owners s s') (hl : Lists s) : Lists s' := by
  refine ⟨?_, ?_, ?_, fun t ht => ?_⟩
  · rw [Owners.allocated h, h.current]
    exact hl.current
  · rw [h.taskList, h.zombieList]
    exact hl.apart
  · rw [h.zombieList]
    exact hl.zombies
  · rw [h.pid]
    exact hl.init t (h.zombieList ▸ ht)

/-- The tasks stay as they are. -/
theorem Core.owners {m : Machine} {s : Sched} (h : Core m) (ho : Owners m.sched s) :
    Core { m with sched := s } := by
  have hall := Owners.allocated ho
  have hkept : ∀ {who who' : Tid → Prop} {frame : Nat}, (∀ t, who t → who' t) → Kept m who frame →
      Kept { m with sched := s } who' frame := by
    intro who who' frame hw hk
    refine hk.imp id fun ⟨hm, hh⟩ => ⟨hm, fun t ht he => hw t (hh t ?_ he)⟩
    exact hall ▸ ht
  refine ⟨Owners.lists ho h.lists, ⟨?_, fun t ht hp => ?_, fun t ht hp => ?_, ?_, ?_⟩, ?_⟩
  · rw [hall]
    exact h.spaces.held
  · rw [ho.priv] at hp
    exact h.spaces.user t (ho.taskList ▸ ht) hp
  · rw [ho.priv] at hp
    exact hkept (fun u hu => (ho.pid u).trans hu) (h.spaces.kernel t (ho.taskList ▸ ht) hp)
  · exact hkept (fun u hu => hu.imp (fun he => he.trans ho.current.symm) (ho.pid u).trans) h.spaces.cr3
  · rw [hall]
    exact h.spaces.loading
  · obtain ⟨h1, h2, h3, h4⟩ := h.kernelStacks
    refine ⟨?_, h2, h3, h4⟩
    rw [hall]
    exact h1

/-! ## Reaping -/

theorem reapZombie_sched (m : Machine) (z : Tid) : (reapZombie m z).sched =
    { m.sched with zombieList := m.sched.zombieList.filter (· != z) } := by
  unfold reapZombie
  dsimp only
  have hd : ∀ (e : Machine) a, (destroyAddressSpace e a).sched = e.sched := by
    intro e a
    cases a <;> rfl
  rw [hd]
  split
  · rfl
  · unfold freeKernelStack
    split <;> rfl

theorem allocated_reapZombie {m : Machine} {z : Tid} (hl : Lists m.sched) (hz : z ∈ m.sched.zombieList) :
    allocated (reapZombie m z).sched = {t ∈ allocated m.sched | t ≠ z} := by
  rw [reapZombie_sched]
  ext t
  constructor
  · rintro (ht | ht)
    · exact ⟨.inl ht, fun he => hl.apart z hz (he ▸ ht)⟩
    · obtain ⟨ht, hne⟩ := mem_filter.mp ht
      exact ⟨.inr ht, bne_iff_ne.mp hne⟩
  · rintro ⟨ht | ht, hne⟩
    · exact .inl ht
    · exact .inr (mem_filter.mpr ⟨ht, bne_iff_ne.mpr hne⟩)

theorem Lists.reapZombie {m : Machine} {z : Tid} (h : Lists m.sched) (hz : z ∈ m.sched.zombieList)
    (hc : z ≠ m.sched.current) : Lists (reapZombie m z).sched := by
  refine ⟨?_, ?_, ?_, ?_⟩
  · rw [allocated_reapZombie h hz, reapZombie_sched]
    exact ⟨h.current, hc.symm⟩
  · rw [reapZombie_sched]
    exact fun t ht => h.apart t (mem_filter.mp ht).1
  · rw [reapZombie_sched]
    exact h.zombies.filter _
  · rw [reapZombie_sched]
    exact fun t ht => h.init t (mem_filter.mp ht).1

theorem reapZombie_fields (m : Machine) (z : Tid) :
    (reapZombie m z).cr3 = m.cr3 ∧ (reapZombie m z).kernelPdir = m.kernelPdir ∧
      (reapZombie m z).addressSpace = m.addressSpace ∧ (reapZombie m z).pcbCr3 = m.pcbCr3 ∧
      (reapZombie m z).esp0 = m.esp0 ∧ (reapZombie m z).nextKernelStack = m.nextKernelStack ∧
      (reapZombie m z).loading = m.loading := by
  have hd : ∀ (e : Machine) a, (destroyAddressSpace e a).cr3 = e.cr3 ∧
      (destroyAddressSpace e a).kernelPdir = e.kernelPdir ∧
      (destroyAddressSpace e a).addressSpace = e.addressSpace ∧
      (destroyAddressSpace e a).pcbCr3 = e.pcbCr3 ∧ (destroyAddressSpace e a).esp0 = e.esp0 ∧
      (destroyAddressSpace e a).nextKernelStack = e.nextKernelStack ∧
      (destroyAddressSpace e a).loading = e.loading := by
    intro e a
    cases a with
    | none => exact ⟨rfl, rfl, rfl, rfl, rfl, rfl, rfl⟩
    | some a => exact ⟨rfl, rfl, rfl, rfl, rfl, rfl, rfl⟩
  unfold Mmu.reapZombie freeKernelStack
  dsimp only
  split
  · exact hd _ _
  split
  · exact hd _ _
  · exact hd _ _

/-- What is left of the address spaces and of the free stacks. -/
theorem reapZombie_lists (m : Machine) (z : Tid) :
    (∀ a, a ∈ (reapZombie m z).addressSpaces ↔ a ∈ m.addressSpaces ∧ m.addressSpace z ≠ some a) ∧
      ((reapZombie m z).freeKernelStacks = m.freeKernelStacks ∨
        (reapZombie m z).freeKernelStacks = kernelStack m z :: m.freeKernelStacks) := by
  have hd : ∀ (e : Machine) as, (∀ a, a ∈ (destroyAddressSpace e as).addressSpaces ↔
      a ∈ e.addressSpaces ∧ as ≠ some a) ∧
      (destroyAddressSpace e as).freeKernelStacks = e.freeKernelStacks := by
    intro e as
    cases as with
    | none => exact ⟨fun a => ⟨fun h => ⟨h, nofun⟩, And.left⟩, rfl⟩
    | some b =>
      refine ⟨fun a => mem_filter.trans (and_congr_right fun _ => ?_), rfl⟩
      rw [bne_iff_ne, ne_comm, ne_eq, ne_eq, Option.some.injEq]
  unfold Mmu.reapZombie freeKernelStack
  dsimp only
  split
  · exact ⟨(hd _ _).1, .inl (hd _ _).2⟩
  split
  · exact ⟨(hd _ _).1, .inl (hd _ _).2⟩
  · exact ⟨(hd _ _).1, .inr (hd _ _).2⟩

theorem Spaces.reapZombie {m : Machine} {z : Tid} (h : Spaces m) (hl : Lists m.sched)
    (hz : z ∈ m.sched.zombieList) (hc : z ≠ m.sched.current) : Spaces (reapZombie m z) := by
  obtain ⟨hcr3, hk, has, hpc, -, -, hld⟩ := reapZombie_fields m z
  have hmem := (reapZombie_lists m z).1
  have hall := allocated_reapZombie hl hz
  have hkept : ∀ {who : Tid → Prop} {frame : Nat}, ¬who z → Kept m who frame →
      Kept (Mmu.reapZombie m z) who frame := by
    intro who frame hw hkp
    unfold Kept
    rw [hk, has, hall, hmem]
    exact hkp.imp id fun ⟨hm, hh⟩ => ⟨⟨hm, fun he => hw (hh z (.inr hz) he)⟩, fun t ht => hh t ht.1⟩
  have hlive := h.held.release (i := z) (.inr hz)
  refine ⟨?_, fun t ht => ?_, fun t ht => ?_, ?_, ?_⟩
  · rw [hall, has]
    exact hlive.mono subset_rfl fun a ha => (hmem a).mpr ha
  · rw [reapZombie_sched] at ht ⊢
    rw [has]
    exact h.user t ht
  · rw [hpc]
    rw [reapZombie_sched] at ht ⊢
    exact fun hp => hkept (hl.init z hz) (h.kernel t ht hp)
  · rw [hcr3]
    have hcur := hkept (fun hw => hw.elim hc (hl.init z hz)) h.cr3
    rw [reapZombie_sched]
    exact hcur
  · rw [hld, hcr3, hall, has]
    intro old hold
    obtain ⟨h1, h2, h3⟩ := h.loading old hold
    exact ⟨(hmem old).mpr ⟨h1, h3 z (.inr hz)⟩, h2, fun t ht => h3 t ht.1⟩

theorem Stacks.reapZombie {m : Machine} {z : Tid} (h : Stacks m) (hl : Lists m.sched)
    (hz : z ∈ m.sched.zombieList) : Stacks (reapZombie m z) := by
  obtain ⟨-, -, -, -, hesp, hnext, -⟩ := reapZombie_fields m z
  have hall := allocated_reapZombie hl hz
  have hown : (fun t => some (kernelStack (Mmu.reapZombie m z) t)) = fun t => some (kernelStack m t) := by
    unfold kernelStack
    rw [hesp]
  obtain ⟨hnot, hcarved⟩ := h.held.used z (.inr hz) _ rfl
  have hlive := h.held.release (i := z) (.inr hz)
  have hfree := (reapZombie_lists m z).2
  unfold Carved at hcarved
  refine ⟨?_, fun b hb => ?_, ?_, ?_⟩
  · rw [hall, hown]
    refine hlive.mono subset_rfl fun b hb => ⟨fun hm => ?_, ?_⟩
    · rcases hfree with he | he
      · rw [he] at hm
        exact hb.1.1 hm
      · rw [he] at hm
        rcases mem_cons.mp hm with hm | hm
        · exact hb.2 (congrArg some hm.symm)
        · exact hb.1.1 hm
    · unfold Carved
      rw [hnext]
      exact hb.1.2
  · unfold Carved
    rw [hnext]
    rcases hfree with he | he
    · exact h.carved b (he ▸ hb)
    · rw [he] at hb
      rcases mem_cons.mp hb with hbz | hb
      · rw [hbz]
        exact hcarved
      · exact h.carved b hb
  · rcases hfree with he | he
    · rw [he]
      exact h.nodup
    · rw [he]
      exact nodup_cons.mpr ⟨hnot, h.nodup⟩
  · rw [hnext]
    exact h.bottom

theorem Core.reapZombie {m : Machine} {z : Tid} (h : Core m) (hz : z ∈ m.sched.zombieList)
    (hc : z ≠ m.sched.current) : Core (reapZombie m z) :=
  ⟨h.lists.reapZombie hz hc, h.spaces.reapZombie h.lists hz hc, h.kernelStacks.reapZombie h.lists hz⟩

theorem Core.reapAll : ∀ {l : List Tid} {m : Machine}, Core m → l.Nodup →
    (∀ z ∈ l, z ∈ m.sched.zombieList ∧ z ≠ m.sched.current) → Core (l.foldl Mmu.reapZombie m)
  | [], _, h, _, _ => h
  | z :: l, m, h, hnd, hl => by
    obtain ⟨hzl, hnd⟩ := nodup_cons.mp hnd
    obtain ⟨hz, hc⟩ := hl z mem_cons_self
    show Core (l.foldl Mmu.reapZombie (Mmu.reapZombie m z))
    refine Core.reapAll (h.reapZombie hz hc) hnd fun y hy => ?_
    obtain ⟨hm, hne⟩ := hl y (mem_cons_of_mem z hy)
    rw [reapZombie_sched]
    exact ⟨mem_filter.mpr ⟨hm, bne_iff_ne.mpr fun he => hzl (he ▸ hy)⟩, hne⟩

theorem Core.reapZombies {m : Machine} (h : Core m) : Core (reapZombies m) := by
  refine Core.reapAll h (h.lists.zombies.filter _) fun z hz => ?_
  obtain ⟨hm, hne⟩ := mem_filter.mp hz
  exact ⟨hm, bne_iff_ne.mp hne⟩

theorem reapAll_sched : ∀ (l : List Tid) (m : Machine), (l.foldl reapZombie m).sched =
    { m.sched with zombieList := m.sched.zombieList.filter fun z => z ∉ l }
  | [], m => by
    have hall : m.sched.zombieList.filter (fun z => z ∉ ([] : List Tid)) = m.sched.zombieList :=
      List.filter_eq_self.mpr fun z _ => decide_eq_true not_mem_nil
    rw [hall]
    rfl
  | z :: l, m => by
    have hcons : (m.sched.zombieList.filter (· != z)).filter (fun y => y ∉ l) =
        m.sched.zombieList.filter fun y => y ∉ z :: l := by
      rw [List.filter_filter]
      refine List.filter_congr fun y _ => ?_
      by_cases hy : y = z <;> simp [hy]
    refine (reapAll_sched l (reapZombie m z)).trans ?_
    rw [reapZombie_sched, ← hcons]

/-- The scheduler sees the zombies go as in its own model. -/
theorem reapZombies_sched (m : Machine) : (reapZombies m).sched = Schedule.reapZombies m.sched := by
  have hleft : m.sched.zombieList.filter
      (fun z => z ∉ m.sched.zombieList.filter (· != m.sched.current)) =
        m.sched.zombieList.filter (· == m.sched.current) := by
    refine List.filter_congr fun z hz => ?_
    by_cases hc : z = m.sched.current <;> simp [hc, hz]
  unfold reapZombies Schedule.reapZombies
  rw [reapAll_sched, hleft]

/-! ## The scheduler below -/

@[simp] theorem follow_sched (m : Machine) (s : Sched) : (follow m s).sched = s := by
  unfold follow
  split
  · rfl
  · rfl

theorem pickNext_sched (m : Machine) : (pickNext m).map (·.sched) = Schedule.pickNext m.sched := by
  unfold pickNext Schedule.pickNext
  cases hr : dequeue m.sched with
  | mk r d =>
    cases r with
    | none => rfl
    | some next =>
      dsimp only
      split
      · cases hdel : taskIpcDeliverSignals d next with
        | mk e sig =>
          cases sig with
          | none => rfl
          | some sig =>
            dsimp only
            rw [map_map]
            exact map_id'
      · rfl

/-- Address spaces and stacks only follow what the scheduler does. -/
theorem schedStep_sched {m m' : Machine} {op : Schedule.Op} (h : schedStep m op = some m') :
    Schedule.step m.sched op = some m'.sched := by
  have hfollow : (Schedule.step m.sched op).map (follow m) = some m' →
      Schedule.step m.sched op = some m'.sched := by
    intro hs
    obtain ⟨s, hstep, rfl⟩ := map_eq_some_iff.mp hs
    rw [hstep, follow_sched]
  unfold schedStep at h
  split at h
  · cases h
  · cases h
  · obtain ⟨hm, h⟩ := ite_none_right_eq_some.mp h
    unfold Schedule.step
    dsimp only
    rw [if_pos hm, ← pickNext_sched, h]
    rfl
  · split at h
    · rename_i t exit hm
      cases h
      unfold Schedule.step taskExitNotify
      dsimp only
      rw [hm, follow_sched]
    · cases h
  · exact hfollow h

/-- A call that is not resumed leaves its old address space to nobody. -/
theorem Core.forget {m : Machine} (h : Core m) : Core { m with loading := none } :=
  ⟨h.lists, ⟨h.spaces.held, h.spaces.user, h.spaces.kernel, h.spaces.cr3, nofun⟩, ⟨h.kernelStacks.held,
    h.kernelStacks.carved, h.kernelStacks.nodup, h.kernelStacks.bottom⟩⟩

/-- A step into the loop of `task_yield`. -/
theorem Core.yields {m : Machine} {s : Sched} (h : Core m) (ho : Owners (Schedule.reapZombies m.sched) s)
    (hm : s.mode = .switching) : Inv (follow m s) := by
  rw [← reapZombies_sched] at ho
  unfold follow
  rw [if_pos hm]
  refine ⟨(h.reapZombies.owners ho).forget, fun hne => absurd hm hne, fun t exit he => ?_, fun _ => rfl⟩
  rw [hm] at he
  cases he

theorem Inv.follow {m : Machine} {s : Sched} (h : Inv m) (hm : m.sched.mode ≠ .switching)
    (hf : Follows m.sched s) : Inv (follow m s) := by
  by_cases hs : s.mode = .switching
  · exact h.toCore.yields (hf.yields hs) hs
  have ho := hf.stays hs
  unfold Mmu.follow
  rw [if_neg hs]
  refine ⟨h.toCore.owners ho, fun _ => ?_, fun t exit he => ?_, fun hy => absurd hy hs⟩
  · show s.current ∈ s.taskList
    rw [ho.current, ho.taskList]
    exact h.running hm
  · show t = s.current ∧ (s.pcb t).pid ≠ 1
    rw [ho.current, ho.pid]
    exact (hf.exiting t exit he).elim (h.exiting t exit) id

/-! ## Choosing a task -/

/-- The next task's directory is loaded; only its holder or init can have it. -/
theorem Core.dispatch {m : Machine} {next : Tid} {s : Sched} (h : Core m) (hn : next ∈ m.sched.taskList)
    (hl : m.loading = none) (hp : ∀ t, (s.pcb t).pid = (m.sched.pcb t).pid)
    (hv : ∀ t, (s.pcb t).priv = (m.sched.pcb t).priv) (ht : s.taskList = m.sched.taskList)
    (hz : s.zombieList = m.sched.zombieList) (hc : s.current = next) {cr3 : Nat}
    (hcr3 : Kept m (fun t => t = next ∨ (m.sched.pcb t).pid = 1) cr3) :
    Core { m with sched := s, cr3 := cr3 } := by
  have hall : allocated s = allocated m.sched := by
    unfold allocated
    rw [ht, hz]
  have hkept : ∀ {who who' : Tid → Prop} {frame : Nat}, (∀ t, who t → who' t) → Kept m who frame →
      Kept { m with sched := s, cr3 := cr3 } who' frame := by
    intro who who' frame hw hk
    refine hk.imp id fun ⟨hm, hh⟩ => ⟨hm, fun t ht he => hw t (hh t ?_ he)⟩
    exact hall ▸ ht
  refine ⟨⟨?_, ?_, ?_, fun t htz => ?_⟩, ⟨?_, fun t htl hpr => ?_, fun t htl hpr => ?_, ?_, ?_⟩, ?_⟩
  · exact .inl (by rw [hc, ht]; exact hn)
  · rw [ht, hz]
    exact h.lists.apart
  · rw [hz]
    exact h.lists.zombies
  · rw [hp]
    exact h.lists.init t (hz ▸ htz)
  · rw [hall]
    exact h.spaces.held
  · rw [hv] at hpr
    exact h.spaces.user t (ht ▸ htl) hpr
  · rw [hv] at hpr
    exact hkept (fun u hu => (hp u).trans hu) (h.spaces.kernel t (ht ▸ htl) hpr)
  · exact hkept (fun u hu => hu.imp (fun he => he.trans hc.symm) (hp u).trans) hcr3
  · intro old hold
    rw [hl] at hold
    cases hold
  · obtain ⟨h1, h2, h3, h4⟩ := h.kernelStacks
    refine ⟨?_, h2, h3, h4⟩
    rw [hall]
    exact h1

/-- A listed user task holds its address space alone. -/
theorem Spaces.keptUser {m : Machine} {t : Tid} {as : Nat} (h : Spaces m) (ht : t ∈ m.sched.taskList)
    (ha : m.addressSpace t = some as) (who : Tid → Prop) : Kept m (fun u => u = t ∨ who u) as :=
  .inr ⟨h.held.used t (.inl ht) as ha, fun u hu hua => .inl (h.held.apart u hu t (.inl ht) as hua ha)⟩

theorem deliverSignals_user {s : Sched} {t : Tid} {sig : Nat} {e : Sched}
    (h : taskIpcDeliverSignals s t = (e, some sig)) : (s.pcb t).priv = .user := by
  by_contra hp
  unfold taskIpcDeliverSignals at h
  rw [if_pos hp] at h
  cases h

/-- What the choice has to find: the task it comes to, if it is ready, is on the task list,
and no signal is about to end it unless it is the task that gave up the processor. -/
def Dispatchable (s : Sched) : Prop :=
  ∀ next ∈ (dequeue s).1, (dequeue s).2.state next = .ready →
    next ∈ s.taskList ∧ ((taskIpcDeliverSignals (dequeue s).2 next).2.isSome → next = s.current)

instance (s : Sched) : Decidable (Dispatchable s) := inferInstanceAs (Decidable (∀ _ ∈ (dequeue s).1, _))

theorem Inv.pickNext {m m' : Machine} (h : Inv m) (hm : m.sched.mode = .switching)
    (hg : Dispatchable m.sched) (hs : pickNext m = some m') : Inv m' := by
  have hidle := h.idle hm
  unfold Mmu.pickNext at hs
  have hd := sameTasks_dequeue m.sched
  unfold Dispatchable at hg
  cases hr : dequeue m.sched with
  | mk r d =>
    rw [hr] at hs hd hg
    cases r with
    | none => cases hs
    | some next =>
      dsimp only at hs hd hg
      have hcore : Core { m with sched := d } := h.toCore.owners hd.owners
      split at hs
      swap
      · cases hs
        have hmode : d.mode = .switching := hd.mode.trans hm
        refine ⟨hcore, fun hne => absurd hmode hne, fun t exit he => ?_, fun _ => hidle⟩
        rw [show ({ m with sched := d } : Machine).sched.mode = .switching from hmode] at he
        cases he
      rename_i hready
      obtain ⟨hlist, hkill⟩ := hg next rfl hready
      have hnext : next ∈ d.taskList := hd.taskList ▸ hlist
      have ho := owners_deliverSignals d next
      have hmode := mode_deliverSignals d next
      cases hdel : taskIpcDeliverSignals d next with
      | mk e sig =>
        rw [hdel] at hs ho hkill hmode
        cases sig with
        | some sig =>
          -- the task that gave up the processor is chosen again, and ends
          have huser := deliverSignals_user hdel
          obtain ⟨as, has⟩ := isSome_iff_exists.mp (hcore.spaces.user next hnext huser)
          obtain ⟨s, hexit, hs⟩ := map_eq_some_iff.mp hs
          rw [if_pos huser, show m.addressSpace next = some as from has] at hs
          cases hs
          obtain ⟨hox, hmx, hpid⟩ := owners_taskExit hexit
          have hos := ho.trans hox
          have hcur : s.current = next := hos.current.trans (hd.current.trans (hkill rfl).symm)
          refine ⟨hcore.dispatch hnext hidle hos.pid hos.priv hos.taskList hos.zombieList hcur
            (hcore.spaces.keptUser hnext has _), fun _ => ?_, fun t exit he => ?_, fun hy => ?_⟩
          · show s.current ∈ s.taskList
            rw [hcur, hos.taskList]
            exact hnext
          · have het : s.mode = .exiting t exit := he
            rw [hmx] at het
            cases het
            exact ⟨hcur.symm, fun hp => hpid ((hox.pid next).symm.trans hp)⟩
          · have hys : s.mode = .switching := hy
            rw [hmx] at hys
            cases hys
        | none =>
          cases hs
          have hrun := owners_setState e next .running
          have hos := ho.trans hrun
          have hlistEnd : next ∈ (Schedule.switchTask e next).taskList := by
            show next ∈ e.taskList
            rw [ho.taskList]
            exact hnext
          have hpr := ho.priv next
          refine ⟨?_, fun _ => hlistEnd, fun t exit he => (nomatch he), fun hy => (nomatch hy)⟩
          by_cases huser : (d.pcb next).priv = .user
          · obtain ⟨as, has⟩ := isSome_iff_exists.mp (hcore.spaces.user next hnext huser)
            rw [if_pos huser, show m.addressSpace next = some as from has]
            unfold Mmu.switchTask
            rw [if_pos (hpr.trans huser)]
            exact hcore.dispatch (s := Schedule.switchTask e next) hnext hidle hos.pid hos.priv hos.taskList
              hos.zombieList rfl
              (hcore.spaces.keptUser hnext has _)
          · rw [if_neg huser]
            unfold Mmu.switchTask
            rw [if_neg fun he => huser (hpr.symm.trans he)]
            exact hcore.dispatch (s := Schedule.switchTask e next) hnext hidle hos.pid hos.priv hos.taskList
              hos.zombieList rfl
              ((hcore.spaces.kernel next hnext huser).mono fun t ht => .inr ht)

/-! ## The end of a task -/

theorem Inv.taskExitNotify {m : Machine} {t : Tid} {exit : Nat} (h : Inv m)
    (hm : m.sched.mode = .exiting t exit) (copyFails : Tid → Bool) :
    Inv (taskExitNotify m t exit copyFails) := by
  obtain ⟨hcur, hpid⟩ := h.exiting t exit hm
  have hlist : t ∈ m.sched.taskList := hcur ▸ h.running fun he => by rw [hm] at he; cases he
  have hzombie : t ∉ m.sched.zombieList := fun hz => h.lists.apart t hz hlist
  let s : Sched := { m.sched with
    taskList := m.sched.taskList.filter (· != t), zombieList := t :: m.sched.zombieList }
  have hall : allocated s = allocated m.sched := by
    ext u
    constructor
    · rintro (hu | hu)
      · exact .inl (mem_filter.mp hu).1
      · rcases mem_cons.mp hu with rfl | hu
        · exact .inl hlist
        · exact .inr hu
    · rintro (hu | hu)
      · by_cases hut : u = t
        · exact .inr (mem_cons.mpr (.inl hut))
        · exact .inl (mem_filter.mpr ⟨hu, bne_iff_ne.mpr hut⟩)
      · exact .inr (mem_cons_of_mem t hu)
  have hkept : ∀ {who : Tid → Prop} {frame : Nat}, Kept m who frame →
      Kept { m with sched := s } who frame := by
    intro who frame hk
    refine hk.imp id fun ⟨hm, hh⟩ => ⟨hm, fun u hu he => hh u ?_ he⟩
    exact hall ▸ hu
  have hmem : ∀ u ∈ s.taskList, u ∈ m.sched.taskList := fun u hu => (mem_filter.mp hu).1
  have hcore : Core { m with sched := s } := by
    refine ⟨⟨?_, fun u hu hul => ?_, ?_, fun u hu => ?_⟩,
      ⟨?_, fun u hu => h.spaces.user u (hmem u hu), fun u hu hp => hkept (h.spaces.kernel u (hmem u hu) hp),
        hkept h.spaces.cr3, ?_⟩, ?_⟩
    · rw [hall]
      exact h.lists.current
    · obtain ⟨hul, hut⟩ := mem_filter.mp hul
      rcases mem_cons.mp hu with rfl | hu
      · exact bne_iff_ne.mp hut rfl
      · exact h.lists.apart u hu hul
    · exact nodup_cons.mpr ⟨hzombie, h.lists.zombies⟩
    · rcases mem_cons.mp hu with rfl | hu
      · exact hpid
      · exact h.lists.init u hu
    · rw [hall]
      exact h.spaces.held
    · rw [hall]
      exact h.spaces.loading
    · obtain ⟨h1, h2, h3, h4⟩ := h.kernelStacks
      refine ⟨?_, h2, h3, h4⟩
      rw [hall]
      exact h1
  exact hcore.yields (owners_taskExitNotify m.sched t exit copyFails) rfl

/-! ## New tasks -/

/-- The stack is nobody's, and is given once. -/
theorem allocKernelStack_spec {m m' : Machine} {base : Nat} (h : Stacks m)
    (ha : allocKernelStack m = some (base, m')) :
    ∃ free next, m' = { m with freeKernelStacks := free, nextKernelStack := next } ∧
      base ∉ {b | b ∉ m.freeKernelStacks ∧ Carved m b} ∧
      insert base {b | b ∉ m.freeKernelStacks ∧ Carved m b} ⊆ {b | b ∉ free ∧ Carved m' b} ∧
      (∀ b ∈ free, Carved m' b) ∧ free.Nodup ∧ kernelStackBottom ≤ next := by
  unfold allocKernelStack at ha
  split at ha
  · rename_i b rest hfree
    cases ha
    have hnd := nodup_cons.mp (hfree ▸ h.nodup)
    have hmem : ∀ x ∈ base :: rest, Carved m x := fun x hx => h.carved x (hfree ▸ hx)
    refine ⟨rest, m.nextKernelStack, rfl, fun hb => hb.1 (hfree ▸ mem_cons_self), ?_,
      fun x hx => hmem x (mem_cons_of_mem _ hx), hnd.2, h.bottom⟩
    rintro x (rfl | hx)
    · exact ⟨hnd.1, hmem x mem_cons_self⟩
    · exact ⟨fun hm => hx.1 (hfree ▸ mem_cons_of_mem _ hm), hx.2⟩
  · rename_i hfree
    split at ha
    · cases ha
    rename_i hroom
    obtain ⟨rfl, rfl⟩ := Prod.mk.inj (Option.some.inj ha)
    have hsize : 0 < kernelStackSize := by decide
    have hnew : m.nextKernelStack - kernelStackSize < m.nextKernelStack := by omega
    have hlow : kernelStackBottom ≤ m.nextKernelStack - kernelStackSize := by omega
    refine ⟨m.freeKernelStacks, _, rfl, fun hb => ?_, ?_, fun x hx => ?_, h.nodup, hlow⟩
    · rcases hb.2 with hb | hb <;> omega
    · rintro x (hx | hx)
      · rw [hx]
        exact ⟨hfree ▸ not_mem_nil, .inr le_rfl⟩
      · exact ⟨hx.1, hx.2.imp id fun hle => Nat.le_trans (Nat.le_of_lt hnew) hle⟩
    · rw [hfree] at hx
      cases hx

theorem allocKernelStack_create {m m' : Machine} {base frame : Nat}
    (h : allocKernelStack (createAddressSpace m frame) = some (base, m')) :
    ∃ e, allocKernelStack m = some (base, e) ∧ m' = createAddressSpace e frame := by
  unfold allocKernelStack at h ⊢
  rw [show (createAddressSpace m frame).freeKernelStacks = m.freeKernelStacks from rfl,
    show (createAddressSpace m frame).nextKernelStack = m.nextKernelStack from rfl] at h
  split at h
  · cases h
    exact ⟨_, rfl, rfl⟩
  · split at h
    · cases h
    · rename_i hroom
      obtain ⟨rfl, rfl⟩ := Prod.mk.inj (Option.some.inj h)
      dsimp only
      rw [if_neg hroom]
      exact ⟨_, rfl, rfl⟩

/-- A new task comes to the list, with a stack and perhaps an address space of its own. -/
theorem Core.spawn {m m' : Machine} {t : Tid} {base : Nat} (h : Core m) (s : Sched) (as : Option Nat)
    (frame : Nat) (ht : t ∉ allocated m.sched) (hpid : ∀ u, u ≠ t → (s.pcb u).pid = (m.sched.pcb u).pid)
    (hpriv : ∀ u, u ≠ t → (s.pcb u).priv = (m.sched.pcb u).priv)
    (hl : s.taskList = m.sched.taskList ++ [t]) (hz : s.zombieList = m.sched.zombieList)
    (hc : s.current = m.sched.current) (hfresh : ∀ a, as = some a → a ∉ m.addressSpaces)
    (huser : (s.pcb t).priv = .user → as.isSome)
    (hkernel : (s.pcb t).priv ≠ .user → Kept m (fun u => (m.sched.pcb u).pid = 1) frame)
    (ha : allocKernelStack m = some (base, m')) :
    Core { m' with
      sched := s
      addressSpace := update m.addressSpace t as
      addressSpaces := as.toList ++ m.addressSpaces
      pcbCr3 := update m.pcbCr3 t frame
      esp0 := update m.esp0 t (base + kernelStackSize) } := by
  obtain ⟨free, next, rfl, hbase, hused, hcarved, hnd, hbottom⟩ := allocKernelStack_spec h.kernelStacks ha
  have hall : allocated s = insert t (allocated m.sched) := by
    ext u
    unfold allocated
    rw [hl, hz]
    constructor
    · rintro (hu | hu)
      · rcases mem_append.mp hu with hu | hu
        · exact .inr (.inl hu)
        · exact .inl (mem_singleton.mp hu)
      · exact .inr (.inr hu)
    · rintro (rfl | hu | hu)
      · exact .inl (List.mem_append_right _ (mem_singleton.mpr rfl))
      · exact .inl (List.mem_append_left _ hu)
      · exact .inr hu
  have hold : ∀ u, u ∈ allocated m.sched → u ≠ t := fun u hu he => ht (he ▸ hu)
  have hlist : ∀ u ∈ s.taskList, u = t ∨ u ∈ m.sched.taskList := by
    intro u hu
    rw [hl] at hu
    exact (mem_append.mp hu).symm.imp mem_singleton.mp id
  have hmem : ∀ a, a ∈ m.addressSpaces → a ∈ as.toList ++ m.addressSpaces := fun a ha =>
    List.mem_append_right _ ha
  have hkept : ∀ {who who' : Tid → Prop} {x : Nat}, (∀ u, u ≠ t → who u → who' u) → Kept m who x →
      x = m.kernelPdir ∨ x ∈ as.toList ++ m.addressSpaces ∧
        ∀ u ∈ allocated s, update m.addressSpace t as u = some x → who' u := by
    intro who who' x hw hk
    refine hk.imp id fun ⟨hm, hh⟩ => ⟨hmem x hm, fun u hu he => ?_⟩
    rw [hall] at hu
    rcases hu with rfl | hu
    · rw [update_self] at he
      exact absurd hm (hfresh x he)
    · have hut := hold u hu
      rw [update_of_ne hut] at he
      exact hw u hut (hh u hu he)
  refine ⟨⟨?_, fun u hu hul => ?_, ?_, fun u hu => ?_⟩,
    ⟨?_, fun u hu hp => ?_, fun u hu hp => ?_, ?_, fun old hld => ?_⟩, ⟨?_, hcarved, hnd, hbottom⟩⟩
  · rw [hall, hc]
    exact .inr h.lists.current
  · have hu' : u ∈ m.sched.zombieList := hz ▸ hu
    exact (hlist u hul).elim (hold u (.inr hu')) (h.lists.apart u hu')
  · rw [hz]
    exact h.lists.zombies
  · have hu' : u ∈ m.sched.zombieList := hz ▸ hu
    rw [hpid u (hold u (.inr hu'))]
    exact h.lists.init u hu'
  · rw [hall]
    cases as with
    | none => exact h.spaces.held.bare ht
    | some a =>
      refine (h.spaces.held.give t (hfresh a rfl)).mono subset_rfl ?_
      rintro x (rfl | hx)
      · exact mem_cons_self
      · exact mem_cons_of_mem _ hx
  · rcases hlist u hu with rfl | hul
    · dsimp only
      rw [update_self]
      exact huser hp
    · have hut := hold u (.inl hul)
      dsimp only at hp ⊢
      rw [update_of_ne hut]
      rw [hpriv u hut] at hp
      exact h.spaces.user u hul hp
  · rcases hlist u hu with rfl | hul
    · dsimp only
      rw [update_self]
      exact hkept (fun v hv hw => (hpid v hv).trans hw) (hkernel hp)
    · have hut := hold u (.inl hul)
      dsimp only at hp ⊢
      rw [update_of_ne hut]
      rw [hpriv u hut] at hp
      exact hkept (fun v hv hw => (hpid v hv).trans hw) (h.spaces.kernel u hul hp)
  · exact hkept (fun v hv hw => hw.imp (fun he => he.trans hc.symm) (hpid v hv).trans) h.spaces.cr3
  · obtain ⟨h1, h2, h3⟩ := h.spaces.loading old hld
    refine ⟨hmem old h1, h2, fun u hu he => ?_⟩
    rw [hall] at hu
    dsimp only at he
    rcases hu with rfl | hu
    · rw [update_self] at he
      exact hfresh old he h1
    · rw [update_of_ne (hold u hu)] at he
      exact h3 u hu he
  · rw [hall]
    refine cast ?_ ((h.kernelStacks.held.give t hbase).mono subset_rfl hused)
    congr 1
    funext u
    unfold kernelStack
    by_cases hut : u = t
    · subst hut
      dsimp only
      rw [update_self, update_self, Nat.add_sub_cancel]
    · dsimp only
      rw [update_of_ne hut, update_of_ne hut]

theorem notAllocated {s : Sched} {t : Tid} (h : Unused s t) : t ∉ allocated s :=
  fun ht => ht.elim h.2.1 h.2.2

theorem Inv.sysFork {m m' : Machine} {t : Tid} {frame : Nat} (h : Inv m) (hm : m.sched.mode = .running)
    (hu : Unused m.sched t) (hf : Fresh m frame)
    (hs : sysFork m t frame = some m') : Inv m' := by
  have hne : m.sched.mode ≠ .switching := by
    rw [hm]
    nofun
  have hcur := h.running hne
  obtain ⟨s, hfork, hs⟩ := bind_eq_some_iff.mp hs
  unfold Schedule.sysFork at hfork
  split at hfork
  · rename_i hkernel
    rw [if_pos hkernel] at hs
    cases hs
    have hfl := follows_taskExit (.refl m.sched) hfork
    have hmode := (owners_taskExit hfork).2.1
    have hinv := h.follow hne hfl
    unfold Mmu.follow at hinv
    rwa [if_neg (by rw [hmode]; nofun)] at hinv
  · rename_i huser
    rw [if_neg huser] at hs
    obtain ⟨⟨base, e⟩, halloc, hs⟩ := map_eq_some_iff.mp hs
    obtain ⟨e, hstack, rfl⟩ := allocKernelStack_create halloc
    cases hs
    cases hfork
    have hpcb : ∀ u, u ≠ t → (taskFork m.sched t).pcb u = m.sched.pcb u := fun u hut =>
      update_of_ne hut ..
    have hq := ((sameTasks_enqueue (taskFork m.sched t) t).owners.trans
      (owners_modify (Schedule.enqueue (taskFork m.sched t) t) t (f := fun x => { x with eax := 0 })
        (fun _ => rfl) fun _ => rfl))
    have hcore := h.toCore.spawn { (Schedule.enqueue (taskFork m.sched t) t).modify t fun x =>
        { x with eax := 0 } with errno := ((Schedule.enqueue (taskFork m.sched t) t).pcb t).pid }
      (some frame) frame (notAllocated hu)
      (fun u hut => (hq.pid u).trans (by rw [hpcb u hut])) (fun u hut => (hq.priv u).trans (by rw [hpcb u hut]))
      hq.taskList hq.zombieList hq.current (fun a ha => Option.some.inj ha ▸ hf.2) (fun _ => rfl)
      (fun hp => absurd ?_ hp) hstack
    · have hmode : (Schedule.enqueue (taskFork m.sched t) t).mode = .running :=
        (sameTasks_enqueue (taskFork m.sched t) t).mode.trans hm
      obtain ⟨free, next, rfl, -⟩ := allocKernelStack_spec h.kernelStacks hstack
      refine ⟨hcore, fun _ => ?_, fun u exit he => ?_, fun hy => ?_⟩
      · exact hq.current.symm ▸ hq.taskList.symm ▸ List.mem_append_left _ hcur
      · have he' : (Schedule.enqueue (taskFork m.sched t) t).mode = .exiting u exit := he
        rw [hmode] at he'
        cases he'
      · have hy' : (Schedule.enqueue (taskFork m.sched t) t).mode = .switching := hy
        rw [hmode] at hy'
        cases hy'
    · refine (hq.priv t).trans ?_
      unfold taskFork
      dsimp only
      rw [update_self]
      cases hp : (m.sched.pcb m.sched.current).priv with
      | kernel => exact absurd hp huser
      | user => rfl

/-! ## `sys_execve` -/

/-- The current user task goes to a new address space. -/
theorem Core.kernelLoadElf {m : Machine} {frame : Nat} (h : Core m) (hcur : m.sched.current ∈ m.sched.taskList)
    (hf : Fresh m frame) (hu : (m.sched.pcb m.sched.current).priv = .user) :
    Core { kernelLoadElf m m.sched.current frame with
      loading := some (m.addressSpace m.sched.current) } := by
  have hall : insert m.sched.current (allocated m.sched) = allocated m.sched :=
    Set.insert_eq_of_mem (.inl hcur)
  have hheld := h.spaces.held.give m.sched.current hf.2
  rw [hall] at hheld
  have hkept : ∀ {who : Tid → Prop} {x : Nat}, Kept m who x →
      x = m.kernelPdir ∨ x ∈ frame :: m.addressSpaces ∧ ∀ u ∈ allocated m.sched,
        update m.addressSpace m.sched.current (some frame) u = some x → who u := by
    intro who x hk
    refine hk.imp id fun ⟨hm, hh⟩ => ⟨mem_cons_of_mem _ hm, fun u hu he => ?_⟩
    by_cases huc : u = m.sched.current
    · rw [huc, update_self] at he
      exact absurd (Option.some.inj he ▸ hm) hf.2
    · rw [update_of_ne huc] at he
      exact hh u hu he
  refine ⟨h.lists, ⟨?_, fun u hul hp => ?_, fun u hul hp => ?_, ?_, fun old hold => ?_⟩,
    ⟨h.kernelStacks.held, h.kernelStacks.carved, h.kernelStacks.nodup, h.kernelStacks.bottom⟩⟩
  · refine hheld.mono subset_rfl ?_
    rintro x (rfl | hx)
    · exact mem_cons_self
    · exact mem_cons_of_mem _ hx
  · by_cases huc : u = m.sched.current
    · show (update m.addressSpace m.sched.current (some frame) u).isSome
      rw [huc, update_self]
      rfl
    · show (update m.addressSpace m.sched.current (some frame) u).isSome
      rw [update_of_ne huc]
      exact h.spaces.user u hul hp
  · have huc : u ≠ m.sched.current := fun he => hp (he ▸ hu)
    show Kept _ _ (update m.pcbCr3 m.sched.current frame u)
    rw [update_of_ne huc]
    exact hkept (h.spaces.kernel u hul hp)
  · refine .inr ⟨mem_cons_self, fun u hu he => .inl ?_⟩
    by_contra huc
    have huc' : u ≠ m.sched.current := huc
    have he' : update m.addressSpace m.sched.current (some frame) u = some frame := he
    rw [update_of_ne huc'] at he'
    exact hf.2 (h.spaces.held.used u hu frame he')
  · have hold' : m.addressSpace m.sched.current = some old := Option.some.inj hold
    have hlive := h.spaces.held.used _ (.inl hcur) old hold'
    have hne : old ≠ frame := fun he => hf.2 (he ▸ hlive)
    exact ⟨mem_cons_of_mem _ hlive, hne, h.spaces.held.dropped (.inl hcur) hf.2 hold'⟩

/-- Nothing of an attempt that fails is left. -/
theorem Core.sysExecve {m : Machine} {frame : Nat} (h : Core m) (load : Load)
    (hcur : m.sched.current ∈ m.sched.taskList) (hf : Fresh m frame)
    (hu : (m.sched.pcb m.sched.current).priv = .user) : Core (sysExecve m load frame) := by
  have herrno : ∀ e, Core { m with sched := { m.sched with errno := e } } := fun e =>
    h.owners (owners_of_pcb rfl rfl rfl rfl)
  cases load with
  | rejected errno => exact herrno _
  | noBuffer =>
    have hback : (frame :: m.addressSpaces).filter (· != frame) = m.addressSpaces := by
      have hself : ¬(frame != frame) = true := fun he => bne_iff_ne.mp he rfl
      rw [List.filter_cons_of_neg (p := (· != frame)) hself, List.filter_eq_self]
      exact fun a ha => bne_iff_ne.mpr fun he => hf.2 (he ▸ ha)
    unfold Mmu.sysExecve destroyAddressSpace createAddressSpace
    dsimp only
    rw [hback]
    exact herrno _
  | loaded => exact h.kernelLoadElf hcur hf hu

theorem Inv.sysExecve {m : Machine} {load : Load} {frame : Nat} (h : Inv m) (hm : m.sched.mode = .running)
    (hf : Fresh m frame) (hu : (m.sched.pcb m.sched.current).priv = .user) :
    Inv (sysExecve m load frame) := by
  have hne : m.sched.mode ≠ .switching := by
    rw [hm]
    nofun
  have hcur := h.running hne
  have hcore := h.toCore.sysExecve load hcur hf hu
  have hkeep : (Mmu.sysExecve m load frame).sched.mode = m.sched.mode ∧
      (Mmu.sysExecve m load frame).sched.current = m.sched.current ∧
      (Mmu.sysExecve m load frame).sched.taskList = m.sched.taskList := by
    cases load with
    | rejected errno => exact ⟨rfl, rfl, rfl⟩
    | noBuffer => exact ⟨rfl, rfl, rfl⟩
    | loaded => exact ⟨rfl, rfl, rfl⟩
  obtain ⟨hmode, hc, hl⟩ := hkeep
  refine ⟨hcore, fun _ => ?_, fun t exit he => ?_, fun hy => absurd (hmode.symm.trans hy) hne⟩
  · rw [hc, hl]
    exact hcur
  · rw [hmode, hm] at he
    cases he

/-- No kernel task runs on the directory that the call takes away. -/
def Replaceable (m : Machine) : Prop :=
  ∀ t ∈ m.sched.taskList, (m.sched.pcb t).priv ≠ .user → m.loading ≠ some (some (m.pcbCr3 t))

instance (m : Machine) : Decidable (Replaceable m) := inferInstanceAs (Decidable (∀ _ ∈ m.sched.taskList, _))

theorem Core.destroyOld {m : Machine} {oldas : Option Nat} (h : Core m) (hld : m.loading = some oldas)
    (hg : Replaceable m) : Core (destroyAddressSpace { m with loading := none } oldas) := by
  cases oldas with
  | none => exact h.forget
  | some old =>
    obtain ⟨-, hcr3, hnobody⟩ := h.spaces.loading old hld
    have hmem : ∀ x, x ∈ m.addressSpaces.filter (· != old) ↔ x ∈ m.addressSpaces ∧ x ≠ old := fun x =>
      mem_filter.trans (and_congr_right fun _ => bne_iff_ne)
    have hkept : ∀ {who : Tid → Prop} {x : Nat}, x ≠ old → Kept m who x →
        Kept (destroyAddressSpace { m with loading := none } (some old)) who x := fun hx hk =>
      hk.imp id fun ⟨hm, hh⟩ => ⟨(hmem _).mpr ⟨hm, hx⟩, hh⟩
    refine ⟨h.lists, ⟨?_, h.spaces.user, fun t ht hp => ?_, hkept hcr3.symm h.spaces.cr3, nofun⟩,
      ⟨h.kernelStacks.held, h.kernelStacks.carved, h.kernelStacks.nodup, h.kernelStacks.bottom⟩⟩
    · exact (h.spaces.held.lose hnobody).mono subset_rfl fun x hx => (hmem x).mpr hx
    · exact hkept (fun he => hg t ht hp (hld.trans (he ▸ rfl))) (h.spaces.kernel t ht hp)

theorem Inv.sysExecveDone {m : Machine} {oldas : Option Nat} (h : Inv m) (hld : m.loading = some oldas)
    (hg : Replaceable m) : Inv (sysExecveDone m oldas) := by
  have hcore := h.toCore.destroyOld hld hg
  have hset := owners_modify (destroyAddressSpace { m with loading := none } oldas).sched
    (destroyAddressSpace { m with loading := none } oldas).sched.current
    (f := fun x => { x with signalHandlers := fun _ => 0, signalBitmask := 0, inSignalHandler := false })
    (fun _ => rfl) fun _ => rfl
  exact hcore.yields ((follows_taskYield hset).yields rfl) rfl

/-! ## Runs -/

/-- What the choice of a task and the end of `sys_execve` have to find. -/
def Guarded (m : Machine) : Op → Prop
  | .sched .pickNext => Dispatchable m.sched
  | .execveDone => Replaceable m
  | _ => True

theorem Inv.schedStep {m m' : Machine} (h : Inv m) (op : Schedule.Op) (hg : Guarded m (.sched op))
    (hs : schedStep m op = some m') : Inv m' := by
  have hinner : op.Inner → (Schedule.step m.sched op).map (Mmu.follow m) = some m' → Inv m' := by
    intro hop hs
    obtain ⟨s, hstep, rfl⟩ := map_eq_some_iff.mp hs
    refine h.follow (fun he => ?_) (follows_step op hop hstep)
    unfold Schedule.step at hstep
    cases op
    case pickNext => exact hop
    all_goals simp [he] at hstep
  unfold Mmu.schedStep at hs
  cases op with
  | create t priv prio => cases hs
  | fork t => cases hs
  | pickNext =>
    obtain ⟨hm, hs⟩ := ite_none_right_eq_some.mp hs
    exact h.pickNext hm hg hs
  | exitNotify copyFails =>
    dsimp only at hs
    split at hs
    · rename_i t exit hm
      cases hs
      exact h.taskExitNotify hm copyFails
    · cases hs
  | enqueue t => exact hinner trivial hs
  | dequeue => exact hinner trivial hs
  | taskYield => exact hinner trivial hs
  | taskBlock => exact hinner trivial hs
  | taskUnblock t => exact hinner trivial hs
  | signalRaise t signal => exact hinner trivial hs
  | waitpid pid statusPtr => exact hinner trivial hs
  | exit exit => exact hinner trivial hs
  | timer userCode eax polled => exact hinner trivial hs
  | signal signal handler => exact hinner trivial hs
  | sigret => exact hinner trivial hs
  | alarm seconds => exact hinner trivial hs
  | systemCallReturn => exact hinner trivial hs
  | preemptDisable => exact hinner trivial hs
  | preemptEnable => exact hinner trivial hs

/-- What one step preserves. -/
theorem Inv.step {m m' : Machine} {op : Op} (h : Inv m) (hg : Guarded m op)
    (hs : step m op = some m') : Inv m' := by
  unfold Mmu.step at hs
  cases op with
  | sched op => exact h.schedStep op hg hs
  | fork t frame =>
    obtain ⟨⟨hm, -, hu, hf⟩, hs⟩ := ite_none_right_eq_some.mp hs
    exact h.sysFork hm hu hf hs
  | execve load frame =>
    obtain ⟨⟨hm, -, hf, hu⟩, hs⟩ := ite_none_right_eq_some.mp hs
    cases hs
    exact h.sysExecve hm hf hu
  | execveDone =>
    dsimp only at hs
    split at hs
    · rename_i oldas hld
      obtain ⟨-, hs⟩ := ite_none_right_eq_some.mp hs
      cases hs
      exact h.sysExecveDone hld hg
    · cases hs

/-! ## Boot -/

/-- Between the first tasks: the directory in CR3 is the kernel's or init's. -/
structure Booting (m : Machine) (tasks : List Tid) : Prop extends Core m where
  shared : Kept m (fun t => (m.sched.pcb t).pid = 1) m.cr3
  taskList : m.sched.taskList = tasks
  zombieList : m.sched.zombieList = []
  mode : m.sched.mode = .running
  current : m.sched.current ∈ tasks
  notLoading : m.loading = none

theorem Booting.inv {m : Machine} {tasks : List Tid} (h : Booting m tasks) : Inv m := by
  refine ⟨h.toCore, fun _ => h.taskList ▸ h.current, fun t exit he => ?_, fun hy => ?_⟩
  · rw [h.mode] at he
    cases he
  · rw [h.mode] at hy
    cases hy

theorem Booting.owners {m : Machine} {tasks : List Tid} {s : Sched} (h : Booting m tasks)
    (ho : Owners m.sched s) (hm : s.mode = m.sched.mode) : Booting { m with sched := s } tasks := by
  refine ⟨h.toCore.owners ho, ?_, ho.taskList.trans h.taskList, ho.zombieList.trans h.zombieList,
    hm.trans h.mode, ?_, h.notLoading⟩
  · refine h.shared.imp id fun ⟨hmem, hh⟩ => ⟨hmem, fun t ht he => (ho.pid t).trans (hh t ?_ he)⟩
    exact Owners.allocated ho ▸ ht
  · show s.current ∈ tasks
    rw [ho.current]
    exact h.current

theorem Booting.enqueue {m : Machine} {tasks : List Tid} (h : Booting m tasks) (t : Tid) :
    Booting (enqueue m t) tasks :=
  h.owners (sameTasks_enqueue m.sched t).owners (sameTasks_enqueue m.sched t).mode

theorem Booting.unused {m : Machine} {tasks : List Tid} (h : Booting m tasks) {t : Tid} (ht : t ∉ tasks) :
    t ∉ allocated m.sched := by
  rintro (hm | hm)
  · exact ht (h.taskList ▸ hm)
  · rw [h.zombieList] at hm
    cases hm

theorem taskCreate_other (s : Sched) {t u : Tid} (priv : CpuMode) (prio : UInt8) (hu : u ≠ t) :
    (Schedule.taskCreate s t priv prio).pcb u = s.pcb u := update_of_ne hu ..

theorem taskCreate_self (s : Sched) (t : Tid) (priv : CpuMode) (prio : UInt8) :
    ((Schedule.taskCreate s t priv prio).pcb t).pid = s.nextPid ∧
      ((Schedule.taskCreate s t priv prio).pcb t).priv = priv := by
  unfold Schedule.taskCreate
  dsimp only
  rw [update_self]
  exact ⟨rfl, rfl⟩

/-- A kernel task shares the directory in CR3. -/
theorem Booting.kernelTask {m m' : Machine} {tasks : List Tid} {t : Tid} {prio : UInt8} (h : Booting m tasks)
    (ht : t ∉ tasks) (hs : taskCreate m t .kernel prio = some m') : Booting m' (tasks ++ [t]) := by
  obtain ⟨⟨base, e⟩, ha, hs⟩ := map_eq_some_iff.mp hs
  cases hs
  have hother := fun u (hu : u ≠ t) => taskCreate_other m.sched .kernel prio hu
  have hunused := h.unused ht
  have hcore := h.toCore.spawn (Schedule.taskCreate m.sched t .kernel prio) none m.cr3
    hunused (fun u hu => by rw [hother u hu]) (fun u hu => by rw [hother u hu]) rfl rfl rfl
    (fun a he => nomatch he) (fun hp => absurd ((taskCreate_self m.sched t .kernel prio).2.symm.trans hp) nofun)
    (fun _ => h.shared) ha
  obtain ⟨free, next, rfl, -⟩ := allocKernelStack_spec h.kernelStacks ha
  refine ⟨hcore, ?_, ?_, h.zombieList, h.mode, List.mem_append_left _ h.current, h.notLoading⟩
  · refine h.shared.imp id fun ⟨hmem, hh⟩ => ⟨hmem, fun u hu he => ?_⟩
    by_cases hut : u = t
    · rw [hut] at he
      dsimp only at he
      rw [update_self] at he
      cases he
    · dsimp only at he ⊢
      rw [update_of_ne hut] at he
      rw [hother u hut]
      refine hh u ?_ he
      exact hu.imp (fun hl => (mem_append.mp hl).resolve_right fun hx => hut (mem_singleton.mp hx)) id
  · show m.sched.taskList ++ [t] = tasks ++ [t]
    rw [h.taskList]

theorem booting_multitaskingInit {b : Boot} (hesp : b.esp < kernelStackBottom) :
    Booting (multitaskingInit b) [b.kernel] := by
  have hone : ∀ t ∈ allocated (multitaskingInit b).sched, t = b.kernel := by
    rintro t (ht | ht)
    · exact mem_singleton.mp ht
    · cases ht
  have hkernel : ∀ t ∈ [b.kernel], ((multitaskingInit b).sched.pcb t).priv = .kernel := by
    intro t ht
    rw [mem_singleton.mp ht]
    unfold multitaskingInit
    dsimp only
    rw [update_self]
  have hbase : ∀ t, kernelStack (multitaskingInit b) t < kernelStackBottom := fun t =>
    Nat.lt_of_le_of_lt (Nat.sub_le ..) hesp
  have hnone : ∀ t r, (multitaskingInit b).addressSpace t ≠ some r := fun t r he => nomatch he
  refine ⟨⟨⟨.inl mem_cons_self, nofun, List.nodup_nil, nofun⟩,
    ⟨⟨fun t _ r he => absurd he (hnone t r), fun t _ _ _ r he => absurd he (hnone t r)⟩, fun t ht hp => ?_,
      fun _ _ _ => .inl rfl, .inl rfl, fun _ he => nomatch he⟩,
    ⟨⟨fun t _ r hr => ?_, fun t ht u hu _ _ _ => (hone t ht).trans (hone u hu).symm⟩, nofun, List.nodup_nil, ?_⟩⟩,
    .inl rfl, rfl, rfl, rfl, mem_cons_self, rfl⟩
  · rw [hkernel t ht] at hp
    cases hp
  · rw [← Option.some.inj hr]
    exact ⟨not_mem_nil, .inl (hbase t)⟩
  · show kernelStackBottom ≤ kernelStackTop
    decide

/-- Init gets its address space as its program is loaded. -/
theorem Booting.init {b : Boot} {m m' : Machine} (h : Booting m [b.kernel]) (hpid : m.sched.nextPid = 1)
    (hne : b.init ≠ b.kernel) (hf : b.initPdir ∉ m.addressSpaces)
    (hs : taskCreate m b.init .user 254 = some m') :
    Booting (kernelLoadElf m' b.init b.initPdir) [b.kernel, b.init] := by
  obtain ⟨⟨base, e⟩, ha, hs⟩ := map_eq_some_iff.mp hs
  cases hs
  have hother := fun u (hu : u ≠ b.init) => taskCreate_other m.sched .user 254 hu
  have hself := taskCreate_self m.sched b.init .user 254
  have hunused := h.unused fun hm => hne (mem_singleton.mp hm)
  have hcore := h.toCore.spawn (Schedule.taskCreate m.sched b.init .user 254) (some b.initPdir)
    b.initPdir hunused (fun u hu => by rw [hother u hu]) (fun u hu => by rw [hother u hu]) rfl rfl rfl
    (fun a he => Option.some.inj he ▸ hf) (fun _ => rfl) (fun hp => absurd hself.2 hp) ha
  obtain ⟨free, next, rfl, -⟩ := allocKernelStack_spec h.kernelStacks ha
  have hl : m.sched.taskList ++ [b.init] = [b.kernel, b.init] := by
    rw [h.taskList]
    rfl
  -- init alone holds the new directory
  have hinit : ∀ u, u ∈ allocated (Schedule.taskCreate m.sched b.init .user 254) →
      update m.addressSpace b.init (some b.initPdir) u = some b.initPdir →
        ((Schedule.taskCreate m.sched b.init .user 254).pcb u).pid = 1 := by
    intro u hu he
    by_cases hui : u = b.init
    · rw [hui]
      exact hself.1.trans hpid
    · rw [update_of_ne hui] at he
      refine absurd (h.spaces.held.used u ?_ _ he) hf
      exact hu.imp (fun hm => (mem_append.mp hm).resolve_right fun hx => hui (mem_singleton.mp hx)) id
  have hsame : ∀ c, update (update m.addressSpace b.init none) b.init (some b.initPdir) =
      update m.addressSpace b.init (some b.initPdir) ∧
      update (update m.pcbCr3 b.init c) b.init b.initPdir =
        update m.pcbCr3 b.init b.initPdir := fun c =>
    ⟨update_idem .., update_idem ..⟩
  obtain ⟨hsame, hsame'⟩ := hsame m.cr3
  unfold kernelLoadElf createAddressSpace
  dsimp only
  rw [hsame, hsame']
  refine ⟨⟨hcore.lists, ⟨hcore.spaces.held, hcore.spaces.user, hcore.spaces.kernel,
      .inr ⟨mem_cons_self, fun u hu he => .inr (hinit u hu he)⟩, fun old hold => ?_⟩,
      ⟨hcore.kernelStacks.held, hcore.kernelStacks.carved, hcore.kernelStacks.nodup, hcore.kernelStacks.bottom⟩⟩,
    .inr ⟨mem_cons_self, hinit⟩, hl, h.zombieList, h.mode, ?_, h.notLoading⟩
  · have hold' : m.loading = some (some old) := hold
    rw [h.notLoading] at hold'
    cases hold'
  · exact mem_cons.mpr (.inl (mem_singleton.mp h.current))

def Boot.tasks (b : Boot) : List Tid := [b.kernel, b.init, b.idle, b.vbeWorker, b.ideWorker]

/-- The control blocks are apart, the boot stack lies below the window of the kernel stacks,
and init's page directory is a frame of its own. -/
structure Boot.Proper (b : Boot) : Prop where
  tasks : b.tasks.Nodup
  esp : b.esp < kernelStackBottom
  frame : b.initPdir ≠ b.kernelPdir

theorem Inv.boot {b : Boot} {m : Machine} (hb : b.Proper) (hs : kernelMainHigh b = some m) : Inv m := by
  have hnd := hb.tasks
  unfold Boot.tasks at hnd
  simp only [nodup_cons, mem_cons, not_mem_nil, or_false, not_or] at hnd
  obtain ⟨⟨hki, hkd, hkv, hkw⟩, ⟨hid, hiv, hiw⟩, ⟨hdv, hdw⟩, hvw, -⟩ := hnd
  have hidle : b.idle ∉ [b.kernel, b.init] := by grind
  have hvbe : b.vbeWorker ∉ [b.kernel, b.init] ++ [b.idle] := by grind
  have hide : b.ideWorker ∉ [b.kernel, b.init] ++ [b.idle] ++ [b.vbeWorker] := by grind
  unfold kernelMainHigh at hs
  obtain ⟨m1, h1, hs⟩ := bind_eq_some_iff.mp hs
  obtain ⟨m2, h2, hs⟩ := bind_eq_some_iff.mp hs
  obtain ⟨m3, h3, hs⟩ := bind_eq_some_iff.mp hs
  obtain ⟨m4, h4, hs⟩ := bind_eq_some_iff.mp hs
  cases hs
  have hi := (booting_multitaskingInit hb.esp).init rfl (fun he => hki he.symm) not_mem_nil h1
  have hi := hi.kernelTask hidle h2
  have hi := (hi.enqueue b.idle).kernelTask hvbe h3
  have hm := owners_modify m3.sched b.vbeWorker (f := fun x => { x with noRequeue := true })
    (fun _ => rfl) fun _ => rfl
  have hset : Owners m3.sched { m3.sched.modify b.vbeWorker fun x => { x with noRequeue := true } with
      vbeWorkerTask := b.vbeWorker } := ⟨hm.pid, hm.priv, rfl, rfl, rfl⟩
  have hi := ((hi.owners hset rfl).enqueue b.init).kernelTask hide h4
  have hready : Owners (enqueue m4 b.ideWorker).sched
      { (enqueue m4 b.ideWorker).sched with multitaskingReady := true } := owners_of_pcb rfl rfl rfl rfl
  exact ((hi.enqueue b.ideWorker).owners hready rfl).inv

/-- The kernel before its first `task_yield`. -/
def Init (m : Machine) : Prop := ∃ b : Boot, b.Proper ∧ kernelMainHigh b = some m

def Step (m m' : Machine) : Prop := ∃ op, step m op = some m'

def GuardedStep (m m' : Machine) : Prop := ∃ op, Guarded m op ∧ step m op = some m'

/-- Over whole runs in which nobody is killed at its dispatch and the directory that kernel
tasks run on is not replaced, CR3 holds a live directory and no stack in use is free. -/
theorem sound_of_guarded {m : Machine} (h : Run.Reachable Init GuardedStep m) : Sound m := by
  refine (h.invariant Inv ?_ ?_).sound
  · rintro m ⟨b, hb, hm⟩
    exact Inv.boot hb hm
  · rintro m m' hi ⟨op, hg, hs⟩
    exact hi.step hg hs

/-! ## A task killed at its dispatch -/

/-- The step, if it finds what it has to find. -/
def guardedNext (m : Machine) (op : Op) : Option Machine :=
  match op with
  | .sched .pickNext => if Dispatchable m.sched then step m op else none
  | .execveDone => if Replaceable m then step m op else none
  | _ => step m op

theorem guardedNext_step {m m' : Machine} {op : Op} (h : guardedNext m op = some m') :
    GuardedStep m m' := by
  unfold guardedNext at h
  split at h
  · obtain ⟨hg, h⟩ := ite_none_right_eq_some.mp h
    exact ⟨.sched .pickNext, hg, h⟩
  · obtain ⟨hg, h⟩ := ite_none_right_eq_some.mp h
    exact ⟨.execveDone, hg, h⟩
  · rename_i hpick hdone
    refine ⟨op, ?_, h⟩
    unfold Guarded
    split
    · exact absurd rfl hpick
    · exact absurd rfl hdone
    · trivial

def boot : Boot :=
  { kernel := 1, init := 2, idle := 3, vbeWorker := 4, ideWorker := 5, kernelPdir := 100, initPdir := 101
    esp := 0x200000 }

theorem boot_proper : boot.Proper := ⟨by decide, by decide, by decide⟩

/-- Init makes a child and raises a signal on it before the child ever runs. The child is
chosen, its directory loaded, and it is reaped at once. -/
theorem not_always_live : ¬∀ m, Run.Reachable Init Step m → Sound m := by
  intro h
  have hrun : ((kernelMainHigh boot).bind fun m => Run.exec step m [.sched .taskYield, .sched .pickNext,
      .fork 6 102, .sched (.signalRaise 6 15), .sched .taskYield, .sched .pickNext,
      .sched (.exitNotify fun _ => false)]).map
        (fun m => (m.cr3, m.kernelPdir, m.addressSpaces)) = some (102, 100, [101]) := by
    decide +kernel
  obtain ⟨m, hm, he⟩ := Option.map_eq_some_iff.mp hrun
  obtain ⟨m0, h0, hm⟩ := Option.bind_eq_some_iff.mp hm
  simp only [Prod.mk.injEq] at he
  obtain ⟨hcr3, hkernel, hspaces⟩ := he
  have hreach : Run.Reachable Init Step m0 := .start ⟨boot, boot_proper, h0⟩
  have hsound := h m (hreach.exec (fun s op t hs => ⟨op, hs⟩) hm)
  rcases hsound.cr3 with hc | hc
  · rw [hcr3, hkernel] at hc
    cases hc
  · rw [hcr3, hspaces] at hc
    cases hc with
    | tail _ hc => cases hc

/-- The child runs, loads a program of its own and exits; then it is init's turn. -/
theorem sound_of_guarded_exit : ∃ m, ((kernelMainHigh boot).bind fun m => Run.exec guardedNext m
    [.sched .taskYield, .sched .pickNext, .fork 6 102, .sched .taskYield, .sched .pickNext,
      .execve .loaded 103, .execveDone, .sched .pickNext, .sched .taskYield, .sched .pickNext,
      .sched (.exit 0), .sched (.exitNotify fun _ => false), .sched .pickNext]) = some m ∧
      m.cr3 = 101 ∧ Sound m := by
  have hrun : ((kernelMainHigh boot).bind fun m => Run.exec guardedNext m
    [.sched .taskYield, .sched .pickNext, .fork 6 102, .sched .taskYield, .sched .pickNext,
      .execve .loaded 103, .execveDone, .sched .pickNext, .sched .taskYield, .sched .pickNext,
      .sched (.exit 0), .sched (.exitNotify fun _ => false), .sched .pickNext]).map (·.cr3) = some 101 := by
    decide +kernel
  obtain ⟨m, hm, hcr3⟩ := Option.map_eq_some_iff.mp hrun
  obtain ⟨m0, h0, he⟩ := Option.bind_eq_some_iff.mp hm
  have hreach : Run.Reachable Init GuardedStep m0 := .start ⟨boot, boot_proper, h0⟩
  have hend : Run.Reachable Init GuardedStep m :=
    hreach.exec (fun s op t (hs : guardedNext s op = some t) => guardedNext_step hs) he
  exact ⟨m, hm, hcr3, sound_of_guarded hend⟩

end Serotonin.Mmu
