import Serotonin.Schedule.Conservation
import Serotonin.Schedule.Spaces

/-! The run queues in the whole kernel. From boot on, address spaces, forks and new programs come and go
around the scheduler, and what its own steps keep is kept. -/

namespace Serotonin.Mmu
open Option
open Schedule

variable {m m' : Machine} {s : Sched} {k t : Tid} {tasks queued : List Tid}

/-! ## Boot -/

/-- Boot runs on the first task; the others are ready, and some of them queued. -/
structure Made (k : Tid) (tasks queued : List Tid) (s : Sched) : Prop where
  inv : Schedule.Inv s
  current : s.current = k
  first : k ∈ tasks
  taskList : s.taskList = tasks
  zombieList : s.zombieList = []
  pending : s.pending = queued
  known : ∀ u ∈ queued, u ∈ tasks
  ready : ∀ u ∈ tasks, u ≠ k → s.state u = .ready

theorem Made.taskCreate (h : Made k tasks queued s) (ht : t ∉ tasks) (priv : CpuMode) (prio : UInt8) :
    Made k (tasks ++ [t]) queued (Schedule.taskCreate s t priv prio) := by
  have hunused : Unused s t := by
    rw [Unused, h.current, h.taskList, h.zombieList]
    exact ⟨fun he => ht (he ▸ h.first), ht, List.not_mem_nil⟩
  refine ⟨h.inv.spawn hunused fun hp => ht (h.known t (h.pending ▸ hp)), h.current, List.mem_append_left _ h.first,
    congrArg (· ++ [t]) h.taskList, h.zombieList, h.pending, fun u hu => List.mem_append_left _ (h.known u hu),
    fun u hu hne => ?_⟩
  by_cases hut : u = t
  · rw [hut]
    simp [Sched.state, Schedule.taskCreate]
  · rw [Sched.state, taskCreate_other s priv prio hut]
    exact h.ready u ((List.mem_append.mp hu).resolve_right fun hx => hut (List.mem_singleton.mp hx)) hne

theorem Made.enqueue (h : Made k tasks queued s) (ht : t ∈ tasks) (hne : t ≠ k) (hq : t ∉ queued) :
    Made k tasks (t :: queued) (Schedule.enqueue s t) := by
  have hsame := sameTasks_enqueue s t
  have hready := h.ready t ht hne
  have hcan : CanEnqueue s t :=
    ⟨h.pending ▸ hq, by rw [hready]; decide, by rw [hready]; decide, fun he => absurd (he.trans h.current) hne⟩
  refine ⟨h.inv.enqueue hcan, hsame.current.trans h.current, h.first, hsame.taskList.trans h.taskList,
    hsame.zombieList.trans h.zombieList, ?_, List.forall_mem_cons.mpr ⟨ht, h.known⟩, fun u hu huk => ?_⟩
  · rw [enqueue_pending, h.pending]
  · rw [hsame.state]
    exact h.ready u hu huk

theorem allocKernelStack_sched {base : Nat} (h : allocKernelStack m = some (base, m')) : m'.sched = m.sched := by
  unfold allocKernelStack at h
  split at h
  · exact (Prod.mk.inj (some.inj h)).2 ▸ rfl
  · obtain ⟨-, h⟩ := ite_none_left_eq_some.mp h
    exact (Prod.mk.inj (some.inj h)).2 ▸ rfl

theorem taskCreate_sched {priv : CpuMode} {prio : UInt8} (h : taskCreate m t priv prio = some m') :
    m'.sched = Schedule.taskCreate m.sched t priv prio := by
  obtain ⟨⟨base, e⟩, ha, rfl⟩ := map_eq_some_iff.mp h
  rw [← allocKernelStack_sched ha]

/-- Three tasks are queued when `kernel_main_high` gives up the processor. -/
theorem made_kernelMainHigh {b : Boot} (hb : b.Proper) (hs : kernelMainHigh b = some m) : Schedule.Inv m.sched := by
  have hnd : [b.kernel, b.init, b.idle, b.vbeWorker, b.ideWorker].Nodup := hb.tasks
  simp only [List.nodup_cons, List.mem_cons, List.not_mem_nil, or_false, not_or] at hnd
  obtain ⟨⟨hki, hkd, hkv, hkw⟩, ⟨hid, hiv, hiw⟩, ⟨hdv, hdw⟩, hvw, -⟩ := hnd
  unfold kernelMainHigh at hs
  obtain ⟨m1, h1, hs⟩ := bind_eq_some_iff.mp hs
  obtain ⟨m2, h2, hs⟩ := bind_eq_some_iff.mp hs
  obtain ⟨m3, h3, hs⟩ := bind_eq_some_iff.mp hs
  obtain ⟨m4, h4, hs⟩ := bind_eq_some_iff.mp hs
  cases hs
  have hm : Made b.kernel [b.kernel] [] (multitaskingInit b).sched := by
    refine ⟨Schedule.Init.inv ⟨fun _ => rfl, rfl, fun _ => rfl, rfl, List.nodup_singleton _, rfl⟩, rfl,
      List.mem_singleton_self _, rfl, rfl, rfl, fun u hu => absurd hu List.not_mem_nil, fun u hu hne => ?_⟩
    exact absurd (List.mem_singleton.mp hu) hne
  have hm := taskCreate_sched h1 ▸ hm.taskCreate (t := b.init) (by grind) .user 254
  have hm := taskCreate_sched h2 ▸ hm.taskCreate (t := b.idle) (by grind) .kernel 0
  have hm := hm.enqueue (t := b.idle) (by grind) (by grind) (by grind)
  have hm := taskCreate_sched h3 ▸ hm.taskCreate (t := b.vbeWorker) (by grind) .kernel 255
  have hnoRequeue : Made b.kernel [b.kernel, b.init, b.idle, b.vbeWorker] [b.idle]
      { m3.sched.modify b.vbeWorker fun x => { x with noRequeue := true } with vbeWorkerTask := b.vbeWorker } := by
    have hinv := hm.inv.modify_unqueued (t := b.vbeWorker) (f := fun x => { x with noRequeue := true })
      (by rw [hm.pending]; grind) fun _ => rfl
    refine ⟨hinv.of_sameQueues ⟨rfl, rfl, rfl⟩ hinv.awake hinv.idle hinv.tasks, hm.current, hm.first, hm.taskList,
      hm.zombieList, hm.pending, hm.known, fun u hu hne => ?_⟩
    have hstate := modify_pcb_field (s := m3.sched) (t := b.vbeWorker) (f := fun x => { x with noRequeue := true })
      Pcb.state (fun _ => rfl) u
    exact hstate.trans (hm.ready u hu hne)
  have hm := hnoRequeue.enqueue (t := b.init) (by grind) (by grind) (by grind)
  have hm := taskCreate_sched h4 ▸ hm.taskCreate (t := b.ideWorker) (by grind) .kernel 10
  have hm := (hm.enqueue (t := b.ideWorker) (by grind) (by grind) (by grind)).inv
  exact hm.of_sameQueues ⟨rfl, rfl, rfl⟩ hm.awake hm.idle hm.tasks

/-! ## Runs -/

/-- What the scheduler takes for granted; programs and address spaces take nothing. -/
def Granted (m : Machine) : Op → Prop
  | .sched op => Schedule.Guarded m.sched op
  | .fork t _ => Schedule.Guarded m.sched (.fork t)
  | _ => True

def GrantedStep (m m' : Machine) : Prop := ∃ op, Granted m op ∧ step m op = some m'

theorem inv_step {op : Op} (h : Schedule.Inv m.sched) (hg : Granted m op) (hs : step m op = some m') :
    Schedule.Inv m'.sched := by
  cases op with
  | sched op => exact h.step hg (schedStep_sched hs)
  | fork t frame =>
    obtain ⟨⟨-, -, hunused, -⟩, hs⟩ := ite_none_right_eq_some.mp hs
    obtain ⟨s, hfork, hs⟩ := bind_eq_some_iff.mp hs
    have hsched : m'.sched = s := by
      split at hs
      · exact some.inj hs ▸ rfl
      · obtain ⟨r, -, rfl⟩ := map_eq_some_iff.mp hs
        rfl
    exact hsched ▸ h.sysFork hunused hg.1 hg.2 hfork
  | execve load frame =>
    obtain ⟨-, hs⟩ := ite_none_right_eq_some.mp hs
    obtain rfl := some.inj hs
    cases load with
    | loaded => exact h
    | _ => exact h.of_sameQueues ⟨rfl, rfl, rfl⟩ h.awake h.idle h.tasks
  | execveDone =>
    unfold step at hs
    dsimp only at hs
    split at hs
    · rename_i oldas hl
      obtain ⟨-, hs⟩ := ite_none_right_eq_some.mp hs
      obtain rfl := some.inj hs
      rw [sysExecveDone, follow_sched]
      have hleft : (destroyAddressSpace { m with loading := none } oldas).sched = m.sched := by
        cases oldas <;> rfl
      rw [hleft]
      refine Schedule.Inv.taskYield (h.modify m.sched.current (f := fun x => { x with
        signalHandlers := fun _ => 0, signalBitmask := 0, inSignalHandler := false }) ?_ ?_ ?_)
      all_goals exact fun _ => rfl
    · cases hs

/-- Init loads its program. -/
def launch : List Op := [.sched .taskYield, .sched .pickNext, .execve .loaded 103, .execveDone, .sched .pickNext]

end Serotonin.Mmu
