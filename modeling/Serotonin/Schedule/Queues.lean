import Serotonin.Schedule.Model
import Serotonin.Lib.Chain

/-! The run queues as lists of tasks: what links the control blocks to such
lists, and what the scheduler's operations do to them. -/

namespace Serotonin.Schedule
open Function
open Chain

/-- The queue of each priority `p` runs through the tasks `L p`. -/
structure Linked (s : Sched) (L : UInt8 → List Tid) : Prop where
  chain : ∀ p, IsChain s.rqNext (s.prioQ p).head (L p)
  tail : ∀ p, (s.prioQ p).tail = (L p).getLast?
  apart : ∀ p q t, t ∈ L p → t ∈ L q → p = q
  pending : ∀ t, t ∈ s.pending ↔ ∃ p, t ∈ L p

/-- The queues and the record of what is in them are the same. -/
structure SameQueues (s s' : Sched) : Prop where
  rqNext : s'.rqNext = s.rqNext
  prioQ : s'.prioQ = s.prioQ
  pending : s'.pending = s.pending

theorem Linked.congr {s s' : Sched} {L : UInt8 → List Tid} (h : Linked s L)
    (hs : SameQueues s s') : Linked s' L := by
  refine ⟨fun p => ?_, fun p => ?_, h.apart, fun t => ?_⟩
  · rw [hs.rqNext, hs.prioQ]; exact h.chain p
  · rw [hs.prioQ]; exact h.tail p
  · rw [hs.pending]; exact h.pending t

/-! ## One control block changed -/

@[simp] theorem modify_pcb_self (s : Sched) (t : Tid) (f : Pcb → Pcb) :
    (s.modify t f).pcb t = f (s.pcb t) := by simp [Sched.modify]

theorem modify_pcb_ne {s : Sched} {t u : Tid} {f : Pcb → Pcb} (h : u ≠ t) :
    (s.modify t f).pcb u = s.pcb u := by simp [Sched.modify, h]

/-- A field that the change leaves alone. -/
theorem modify_pcb_field {β : Type} {s : Sched} {t : Tid} {f : Pcb → Pcb} (g : Pcb → β) (hg : ∀ x, g (f x) = g x) (u : Tid) :
    g ((s.modify t f).pcb u) = g (s.pcb u) := by
  by_cases hu : u = t
  · rw [hu, modify_pcb_self, hg]
  · rw [modify_pcb_ne hu]

/-- Delivering a signal changes what one control block says of signals. -/
theorem deliverSignals_eq (s : Sched) (t : Tid) : ∃ bits handling, (taskIpcDeliverSignals s t).1 =
    s.modify t fun x => { x with signalBitmask := bits, inSignalHandler := handling } := by
  have hsame : s = s.modify t fun x =>
      { x with signalBitmask := (s.pcb t).signalBitmask, inSignalHandler := (s.pcb t).inSignalHandler } := by
    show s = { s with pcb := Function.update s.pcb t (s.pcb t) }
    rw [update_eq_self]
  unfold taskIpcDeliverSignals
  dsimp only
  split
  · exact ⟨_, _, hsame⟩
  split
  · exact ⟨_, _, hsame⟩
  split
  · exact ⟨_, _, hsame⟩
  rename_i sig _
  split
  · exact ⟨_, (s.pcb t).inSignalHandler, rfl⟩
  · refine ⟨(s.pcb t).signalBitmask &&& ~~~(1#32 <<< sig), true, ?_⟩
    simp only [Sched.modify, update_self, update_idem]

@[simp] theorem rqNext_setRqNext (s : Sched) (t : Tid) (n : Option Tid) :
    (s.setRqNext t n).rqNext = setNext s.rqNext t n := by
  funext u
  by_cases h : u = t
  · subst h; simp [Sched.rqNext, Sched.setRqNext]
  · simp [Sched.rqNext, Sched.setRqNext, modify_pcb_ne h, setNext_ne h]

/-- A change of any field but the link. -/
theorem sameQueues_modify (s : Sched) (t : Tid) {f : Pcb → Pcb}
    (hf : ∀ x, (f x).rqNext = x.rqNext) : SameQueues s (s.modify t f) := by
  refine ⟨?_, rfl, rfl⟩
  funext u
  by_cases h : u = t
  · subst h; simp [Sched.rqNext, hf]
  · simp [Sched.rqNext, modify_pcb_ne h]

theorem sameQueues_setState (s : Sched) (t : Tid) (st : ProcessState) :
    SameQueues s (s.setState t st) := sameQueues_modify s t fun _ => rfl

@[simp] theorem state_setState_self (s : Sched) (t : Tid) (st : ProcessState) :
    (s.setState t st).state t = st := by simp [Sched.setState, Sched.state]

theorem state_setState_ne {s : Sched} {t u : Tid} {st : ProcessState} (h : u ≠ t) :
    (s.setState t st).state u = s.state u := by
  simp only [Sched.setState, Sched.state, modify_pcb_ne h]

/-! ## Two states that differ in links and bitmaps -/

/-- Everything but the queues and their bitmaps is the same; a control block may
differ in its link. -/
structure SameTasks (s s' : Sched) : Prop where
  pcb : ∀ t, ∃ n, s'.pcb t = { s.pcb t with rqNext := n }
  current : s'.current = s.current
  taskList : s'.taskList = s.taskList
  zombieList : s'.zombieList = s.zombieList
  worker : s'.vbeWorkerTask = s.vbeWorkerTask
  vbeTicks : s'.vbeTicks = s.vbeTicks
  mode : s'.mode = s.mode

theorem SameTasks.refl (s : Sched) : SameTasks s s := ⟨fun _ => ⟨_, rfl⟩, rfl, rfl, rfl, rfl, rfl, rfl⟩

theorem SameTasks.trans {s t u : Sched} (h : SameTasks s t) (h' : SameTasks t u) :
    SameTasks s u := by
  refine ⟨fun x => ?_, h'.current.trans h.current, h'.taskList.trans h.taskList,
    h'.zombieList.trans h.zombieList, h'.worker.trans h.worker, h'.vbeTicks.trans h.vbeTicks,
    h'.mode.trans h.mode⟩
  obtain ⟨n, hn⟩ := h.pcb x
  obtain ⟨m, hm⟩ := h'.pcb x
  exact ⟨m, by rw [hm, hn]⟩

theorem SameTasks.state {s s' : Sched} (h : SameTasks s s') (t : Tid) : s'.state t = s.state t := by
  obtain ⟨n, hn⟩ := h.pcb t
  simp only [Sched.state, hn]

theorem SameTasks.noRequeue {s s' : Sched} (h : SameTasks s s') (t : Tid) :
    (s'.pcb t).noRequeue = (s.pcb t).noRequeue := by
  obtain ⟨n, hn⟩ := h.pcb t
  rw [hn]

theorem sameTasks_setRqNext (s : Sched) (t : Tid) (n : Option Tid) :
    SameTasks s (s.setRqNext t n) := by
  refine ⟨fun u => ?_, rfl, rfl, rfl, rfl, rfl, rfl⟩
  by_cases h : u = t
  · subst h; exact ⟨n, modify_pcb_self ..⟩
  · exact ⟨(s.pcb u).rqNext, modify_pcb_ne h⟩

/-- What is outside the control blocks and not a queue does not matter here. -/
theorem SameTasks.of_pcb {s s' : Sched} (hp : s'.pcb = s.pcb) (hc : s'.current = s.current)
    (ht : s'.taskList = s.taskList) (hz : s'.zombieList = s.zombieList)
    (hw : s'.vbeWorkerTask = s.vbeWorkerTask) (hv : s'.vbeTicks = s.vbeTicks)
    (hm : s'.mode = s.mode) : SameTasks s s' :=
  ⟨fun _ => ⟨_, by rw [hp]⟩, hc, ht, hz, hw, hv, hm⟩

theorem sameTasks_setQueue (s : Sched) (p : UInt8) (h t : Option Tid) :
    SameTasks s (s.setQueue p h t) := .of_pcb rfl rfl rfl rfl rfl rfl rfl

theorem sameTasks_bmSet (s : Sched) (p : UInt8) : SameTasks s (bmSet s p) :=
  .of_pcb rfl rfl rfl rfl rfl rfl rfl

theorem sameTasks_bmClear (s : Sched) (p : UInt8) : SameTasks s (bmClear s p) :=
  .of_pcb rfl rfl rfl rfl rfl rfl rfl

theorem sameTasks_enqueue (s : Sched) (t : Tid) : SameTasks s (enqueue s t) := by
  have h1 : SameTasks s ((s.setRqNext t none).recordEnqueue t) :=
    (sameTasks_setRqNext s t none).trans (.of_pcb rfl rfl rfl rfl rfl rfl rfl)
  unfold enqueue
  dsimp only
  split
  · exact (h1.trans (sameTasks_setQueue ..)).trans (sameTasks_bmSet ..)
  · exact (h1.trans (sameTasks_setRqNext ..)).trans (sameTasks_setQueue ..)
  · exact h1.trans (sameTasks_setQueue ..)

theorem sameTasks_dequeue (s : Sched) : SameTasks s (dequeue s).2 := by
  unfold dequeue
  split
  · exact .refl s
  rename_i p _
  dsimp only
  split
  · exact sameTasks_bmClear s p
  rename_i t _
  have h1 : SameTasks s ((s.setRqNext t none).recordDequeue t) :=
    (sameTasks_setRqNext s t none).trans (.of_pcb rfl rfl rfl rfl rfl rfl rfl)
  split
  · exact (h1.trans (sameTasks_setQueue ..)).trans (sameTasks_bmClear ..)
  · exact h1.trans (sameTasks_setQueue ..)

/-! ## Queues as lists -/

theorem sameQueues_bmClear (s : Sched) (p : UInt8) : SameQueues s (bmClear s p) := ⟨rfl, rfl, rfl⟩

@[simp] theorem enqueue_pending (s : Sched) (t : Tid) : (enqueue s t).pending = t :: s.pending := by
  unfold enqueue
  dsimp only
  split <;> rfl

/-- One queue changed, and the others left alone: what has to be shown for the
queues to be lists again. -/
theorem Linked.update {s s' : Sched} {L : UInt8 → List Tid} {p : UInt8} {head tail : Option Tid}
    (h : Linked s L) (xs : List Tid)
    (hq : s'.prioQ = Function.update s.prioQ p ⟨head, tail⟩)
    (hchain : IsChain s'.rqNext head xs) (htail : tail = xs.getLast?)
    (hrest : ∀ q, q ≠ p → IsChain s'.rqNext (s.prioQ q).head (L q))
    (hapart : ∀ q, q ≠ p → ∀ t, t ∈ xs → t ∉ L q)
    (hpending : ∀ t, t ∈ s'.pending ↔ t ∈ xs ∨ ∃ q, q ≠ p ∧ t ∈ L q) :
    Linked s' (Function.update L p xs) := by
  refine ⟨fun q => ?_, fun q => ?_, fun q r t hqt hrt => ?_, fun t => ?_⟩
  · rw [hq]
    by_cases hqp : q = p
    · subst hqp; rw [update_self, update_self]; exact hchain
    · rw [update_of_ne hqp, update_of_ne hqp]; exact hrest q hqp
  · rw [hq]
    by_cases hqp : q = p
    · subst hqp; rw [update_self, update_self]; exact htail
    · rw [update_of_ne hqp, update_of_ne hqp]; exact h.tail q
  · by_cases hqp : q = p <;> by_cases hrp : r = p
    · rw [hqp, hrp]
    · subst hqp
      rw [update_self] at hqt
      rw [update_of_ne hrp] at hrt
      exact absurd hrt (hapart r hrp t hqt)
    · subst hrp
      rw [update_self] at hrt
      rw [update_of_ne hqp] at hqt
      exact absurd hqt (hapart q hqp t hrt)
    · rw [update_of_ne hqp] at hqt
      rw [update_of_ne hrp] at hrt
      exact h.apart q r t hqt hrt
  · rw [hpending]
    constructor
    · rintro (ht | ⟨q, hqp, ht⟩)
      · exact ⟨p, by rwa [update_self]⟩
      · exact ⟨q, by rwa [update_of_ne hqp]⟩
    · rintro ⟨q, ht⟩
      by_cases hqp : q = p
      · subst hqp; rw [update_self] at ht; exact .inl ht
      · rw [update_of_ne hqp] at ht; exact .inr ⟨q, hqp, ht⟩

theorem Linked.notMem {s : Sched} {L : UInt8 → List Tid} {t : Tid} (h : Linked s L)
    (ht : t ∉ s.pending) (p : UInt8) : t ∉ L p := fun hp => ht ((h.pending t).mpr ⟨p, hp⟩)

/-- A task that is in no queue goes behind the last one of its priority. -/
theorem Linked.enqueue {s : Sched} {L : UInt8 → List Tid} {t : Tid} (h : Linked s L)
    (ht : t ∉ s.pending) :
    Linked (enqueue s t) (Function.update L (s.pcb t).priority (L (s.pcb t).priority ++ [t])) := by
  have hpend := enqueue_pending s t
  unfold Schedule.enqueue at hpend ⊢
  generalize (s.pcb t).priority = p at hpend ⊢
  have hchain := h.chain p
  have htail := h.tail p
  have hapart : ∀ q, q ≠ p → ∀ u, u ∈ L p ++ [t] → u ∉ L q := by
    intro q hqp u hu hq
    rcases List.mem_append.mp hu with hu | hu
    · exact hqp (h.apart q p u hq hu)
    · rw [List.mem_singleton.mp hu] at hq
      exact h.notMem ht q hq
  have hmem : ∀ u, u ∈ t :: s.pending ↔ u ∈ L p ++ [t] ∨ ∃ q, q ≠ p ∧ u ∈ L q := by
    intro u
    rw [List.mem_cons, h.pending, List.mem_append, List.mem_singleton]
    constructor
    · rintro (hu | ⟨q, hu⟩)
      · exact .inl (.inr hu)
      · by_cases hqp : q = p
        · exact .inl (.inl (hqp ▸ hu))
        · exact .inr ⟨q, hqp, hu⟩
    · rintro ((hu | hu) | ⟨q, _, hu⟩)
      · exact .inr ⟨p, hu⟩
      · exact .inl hu
      · exact .inr ⟨q, hu⟩
  have hother : ∀ q, q ≠ p → IsChain (setNext s.rqNext t none) (s.prioQ q).head (L q) :=
    fun q _ => (h.chain q).setNext_of_notMem (h.notMem ht q)
  dsimp only at hpend ⊢
  split
  · -- an empty queue
    rename_i hh
    rw [hh] at hchain hpend
    have hnil : L p = [] := by
      cases hL : L p with
      | nil => rfl
      | cons y ys => rw [hL] at hchain; cases hchain.1
    refine Linked.update h _ rfl ?_ (by simp) (fun q hq => ?_) hapart (by rw [hpend]; exact hmem)
    · show IsChain (Sched.rqNext (s.setRqNext t none)) _ _
      rw [rqNext_setRqNext, hnil]
      exact ⟨rfl, setNext_self ..⟩
    · show IsChain (Sched.rqNext (s.setRqNext t none)) _ _
      rw [rqNext_setRqNext]
      exact hother q hq
  · -- the last task of the queue gets the link
    rename_i head tail hh htl
    rw [hh] at hchain hpend
    rw [htl] at htail hpend
    obtain ⟨ys, hys⟩ := List.getLast?_eq_some_iff.mp htail.symm
    have hnext : Sched.rqNext ((((s.setRqNext t none).recordEnqueue t).setRqNext tail (some t)).setQueue p
        (some head) (some t)) = setNext (setNext s.rqNext t none) tail (some t) := by
      show Sched.rqNext (Sched.setRqNext _ tail (some t)) = _
      rw [rqNext_setRqNext]
      show setNext (Sched.rqNext (s.setRqNext t none)) tail (some t) = _
      rw [rqNext_setRqNext]
    refine Linked.update h _ rfl ?_ (by simp) (fun q hq => ?_) hapart (by rw [hpend]; exact hmem)
    · rw [hnext]
      have hout := h.notMem ht p
      rw [hys] at hchain hout ⊢
      exact hchain.snoc hout
    · rw [hnext]
      refine (hother q hq).setNext_of_notMem fun hm => ?_
      exact hq (h.apart q p tail hm (by rw [hys]; simp))
  · -- a queue with a head has a tail
    rename_i head hh htl
    rw [htl] at htail
    rw [List.getLast?_eq_none_iff.mp htail.symm, hh] at hchain
    cases hchain

/-- The head of the queue that is looked at leaves it. -/
theorem Linked.dequeueHead {s : Sched} {L : UInt8 → List Tid} {p : UInt8} {t : Tid} (h : Linked s L)
    (hp : highestReadyPrio s = some p) (hh : (s.prioQ p).head = some t) :
    ∃ ys, L p = t :: ys ∧ (dequeue s).1 = some t ∧ (dequeue s).2.pending = s.pending.filter (· != t) ∧
      Linked (dequeue s).2 (Function.update L p ys) := by
  have hchain := h.chain p
  have htail := h.tail p
  rw [hh] at hchain
  obtain ⟨ys, hys, hty, hrest⟩ := hchain.behead
  have htp : t ∈ L p := by rw [hys]; simp
  have hother : ∀ q, q ≠ p → IsChain (setNext s.rqNext t none) (s.prioQ q).head (L q) :=
    fun q hq => (h.chain q).setNext_of_notMem fun hm => hq (h.apart q p t hm htp)
  have hapart : ∀ q, q ≠ p → ∀ u, u ∈ ys → u ∉ L q := fun q hq u hu hq' =>
    hq (h.apart q p u hq' (by rw [hys]; simp [hu]))
  have hmem : ∀ u, u ∈ s.pending.filter (· != t) ↔ u ∈ ys ∨ ∃ q, q ≠ p ∧ u ∈ L q := by
    intro u
    rw [List.mem_filter, bne_iff_ne, h.pending]
    constructor
    · rintro ⟨⟨q, hq⟩, hne⟩
      by_cases hqp : q = p
      · subst hqp
        rw [hys, List.mem_cons] at hq
        exact .inl (hq.resolve_left hne)
      · exact .inr ⟨q, hqp, hq⟩
    · rintro (hu | ⟨q, hqp, hu⟩)
      · exact ⟨⟨p, by rw [hys]; simp [hu]⟩, fun he => hty (he ▸ hu)⟩
      · exact ⟨⟨q, hu⟩, fun he => hqp (h.apart q p u hu (he ▸ htp))⟩
  refine ⟨ys, hys, ?_⟩
  unfold Schedule.dequeue
  simp only [hp, hh]
  split
  · -- the queue is empty now
    rename_i hn
    rw [hn] at hrest
    have hnil : ys = [] := by
      cases ys with
      | nil => rfl
      | cons y ys => cases hrest.1
    subst hnil
    refine ⟨rfl, rfl, Linked.update (p := p) h [] rfl rfl rfl (fun q hq => ?_) hapart hmem⟩
    show IsChain (Sched.rqNext (s.setRqNext t none)) _ _
    rw [rqNext_setRqNext]
    exact hother q hq
  · rename_i x hn
    rw [hn] at hrest
    obtain ⟨zs, hzs, _⟩ := hrest.behead
    refine ⟨rfl, rfl, Linked.update (p := p) h _ rfl ?_ ?_ (fun q hq => ?_) hapart hmem⟩
    · show IsChain (Sched.rqNext (s.setRqNext t none)) _ _
      rw [rqNext_setRqNext]
      exact hrest
    · rw [htail, hys, hzs, List.getLast?_cons_cons]
    · show IsChain (Sched.rqNext (s.setRqNext t none)) _ _
      rw [rqNext_setRqNext]
      exact hother q hq

theorem dequeue_of_none {s : Sched} (hp : highestReadyPrio s = none) : dequeue s = (none, s) := by
  unfold dequeue
  rw [hp]

theorem dequeue_of_empty {s : Sched} {p : UInt8} (hp : highestReadyPrio s = some p)
    (hh : (s.prioQ p).head = none) : dequeue s = (none, bmClear s p) := by
  unfold dequeue
  simp only [hp, hh]

/-- What `dequeue` returns was in a queue, and is in none any more. -/
theorem Linked.dequeue {s : Sched} {L : UInt8 → List Tid} (h : Linked s L) :
    ∃ L', Linked (dequeue s).2 L' ∧
      (∀ u, u ∈ (dequeue s).2.pending ↔ u ∈ s.pending ∧ (dequeue s).1 ≠ some u) ∧
      ∀ t, (dequeue s).1 = some t → t ∈ s.pending := by
  cases hp : highestReadyPrio s with
  | none =>
    rw [dequeue_of_none hp]
    exact ⟨L, h, by simp, by simp⟩
  | some p =>
    cases hh : (s.prioQ p).head with
    | none =>
      rw [dequeue_of_empty hp hh]
      exact ⟨L, h.congr (sameQueues_bmClear s p), fun u => by simp [bmClear], by simp⟩
    | some t =>
      obtain ⟨ys, hys, ht, hpend, hl⟩ := h.dequeueHead hp hh
      refine ⟨_, hl, fun u => ?_, fun u hu => ?_⟩
      · rw [hpend, ht, List.mem_filter, bne_iff_ne, ne_eq, ne_eq, Option.some_inj, eq_comm (a := t)]
      · rw [ht] at hu
        cases hu
        exact (h.pending t).mpr ⟨p, by rw [hys]; simp⟩

end Serotonin.Schedule
