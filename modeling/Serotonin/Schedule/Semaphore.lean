import Mathlib.Data.List.Basic
import Serotonin.Schedule.Model
import Serotonin.Lib.Run

/-! Counting semaphores: `task_semaphore_acquire` and `task_semaphore_release` of
`schedule.c`, called by kernel tasks, which `kernel_yield` resumes where they left off.
A release takes the first task from the queue of waiters and makes it ready; that
task looks at the count again when it runs. If the token is gone by then it blocks
once more, and this time it is in no queue. -/

namespace Serotonin.Semaphore

open Function Option
open Schedule (Tid ProcessState)

structure LockSemaphore where
  maxCount : Nat
  currentCount : Nat
  waiters : List Tid

/-- Whether a task is in the loop of `task_semaphore_acquire`. -/
inductive Phase where
  | outside
  | acquiring
deriving DecidableEq

/-- `releases` and `acquires` count the releases made and the acquires completed. -/
structure System where
  semaphore : LockSemaphore
  state : Tid → ProcessState
  phase : Tid → Phase
  current : Tid
  switching : Bool
  releases : Nat
  acquires : Nat

def taskSemaphoreInit (count : Nat) : LockSemaphore := ⟨count, count, []⟩

def enqueueWaiter (s : System) (t : Tid) : System :=
  { s with semaphore := { s.semaphore with waiters := s.semaphore.waiters ++ [t] } }

/-- The task blocks, on its way to `task_yield`. -/
def sleep (s : System) (phase : Phase) : System :=
  { s with
    state := update s.state s.current .blocked
    phase := update s.phase s.current phase
    switching := true }

def takeToken (s : System) : System :=
  { s with
    semaphore := { s.semaphore with currentCount := s.semaphore.currentCount - 1 }
    phase := update s.phase s.current .outside
    acquires := s.acquires + 1 }

def taskSemaphoreAcquire (s : System) : System :=
  if s.semaphore.currentCount = 0 then sleep (enqueueWaiter s s.current) .acquiring else takeToken s

/-- Back from `kernel_yield`: the condition of the loop. -/
def acquireResumed (s : System) : System :=
  if s.semaphore.currentCount = 0 then sleep s .acquiring else takeToken s

def taskUnblock (s : System) (t : Tid) : System :=
  if s.state t = .blocked then { s with state := update s.state t .ready } else s

def taskSemaphoreRelease (s : System) : System :=
  let count := (s.semaphore.currentCount + 1) % 2 ^ 32
  match s.semaphore.waiters with
  | [] =>
    { s with semaphore := { s.semaphore with currentCount := count }, releases := s.releases + 1 }
  | t :: ts =>
    taskUnblock { s with
      semaphore := { s.semaphore with currentCount := count, waiters := ts }
      releases := s.releases + 1 } t

/-- `release` is a task's or an interrupt's. `block` and `unblock` are other waits. -/
inductive Op where
  | acquire
  | resume
  | release
  | yield
  | block
  | unblock (t : Tid)
  | dispatch (t : Tid)
deriving DecidableEq

def step (s : System) : Op → Option System
  | .acquire =>
    if !s.switching ∧ s.phase s.current = .outside then some (taskSemaphoreAcquire s) else none
  | .resume => if !s.switching ∧ s.phase s.current = .acquiring then some (acquireResumed s) else none
  | .release => some (taskSemaphoreRelease s)
  | .yield =>
    if !s.switching ∧ s.phase s.current = .outside then
      some { s with state := update s.state s.current .ready, switching := true }
    else none
  | .block => if !s.switching ∧ s.phase s.current = .outside then some (sleep s .outside) else none
  | .unblock t => if s.phase t = .outside then some (taskUnblock s t) else none
  | .dispatch t =>
    if s.switching ∧ s.state t = .ready then
      some { s with state := update s.state t .running, current := t, switching := false }
    else none

/-! ## The protocol -/

/-- Blocked in `task_semaphore_acquire`. -/
def Waits (s : System) (t : Tid) : Prop := s.state t = .blocked ∧ s.phase t = .acquiring

structure Protocol (c : Nat) (s : System) : Prop where
  count : s.semaphore.currentCount + s.acquires = c + s.releases
  queued : ∀ t, Waits s t → t ∈ s.semaphore.waiters

structure Init (c : Nat) (s : System) : Prop where
  semaphore : s.semaphore = taskSemaphoreInit c
  phase : ∀ t, s.phase t = .outside
  releases : s.releases = 0
  acquires : s.acquires = 0

theorem Init.protocol {c : Nat} {s : System} (h : Init c s) : Protocol c s where
  count := by rw [h.semaphore, h.releases, h.acquires]; rfl
  queued t ht := by
    have := ht.2
    rw [h.phase t] at this
    cases this

/-- What a step finds: a woken task its token, a release room to count. -/
def Guarded (s : System) : Op → Prop
  | .resume => s.semaphore.currentCount ≠ 0
  | .release => s.semaphore.currentCount + 1 < 2 ^ 32
  | _ => True

/-- A task's state and phase changed; it does not wait now, or it is in the queue. -/
theorem Protocol.change {c : Nat} {s s' : System} (h : Protocol c s) (t : Tid)
    (hcount : s'.semaphore.currentCount + s'.acquires = c + s'.releases)
    (hqueue : ∀ u, u ≠ t → u ∈ s.semaphore.waiters → u ∈ s'.semaphore.waiters)
    (hstate : ∀ u, u ≠ t → s'.state u = s.state u) (hphase : ∀ u, u ≠ t → s'.phase u = s.phase u)
    (ht : Waits s' t → t ∈ s'.semaphore.waiters) : Protocol c s' where
  count := hcount
  queued u hu := by
    by_cases hut : u = t
    · subst hut
      exact ht hu
    · refine hqueue u hut (h.queued u ⟨?_, ?_⟩)
      · rw [← hstate u hut]; exact hu.1
      · rw [← hphase u hut]; exact hu.2

theorem Protocol.takeToken {c : Nat} {s : System} (h : Protocol c s)
    (hpos : s.semaphore.currentCount ≠ 0) : Protocol c (takeToken s) := by
  have hcount := h.count
  refine h.change s.current ?_ (fun _ _ hu => hu) (fun _ _ => rfl)
    (fun u hu => update_of_ne hu ..) fun hw => ?_
  · dsimp only [Semaphore.takeToken]
    omega
  · have hphase := hw.2
    dsimp only [Semaphore.takeToken] at hphase
    rw [update_self] at hphase
    cases hphase

theorem Protocol.sleep {c : Nat} {s : System} (h : Protocol c s) {phase : Phase}
    (hq : phase = .acquiring → s.current ∈ s.semaphore.waiters) : Protocol c (sleep s phase) := by
  refine h.change s.current h.count (fun _ _ hu => hu) (fun u hu => update_of_ne hu ..)
    (fun u hu => update_of_ne hu ..) fun hw => ?_
  have hphase := hw.2
  dsimp only [Semaphore.sleep] at hphase
  rw [update_self] at hphase
  exact hq hphase

theorem Protocol.taskUnblock {c : Nat} {s : System} (h : Protocol c s) (t : Tid) :
    Protocol c (taskUnblock s t) := by
  unfold Semaphore.taskUnblock
  split
  · refine h.change t h.count (fun _ _ hu => hu) (fun u hu => update_of_ne hu ..)
      (fun _ _ => rfl) fun hw => ?_
    have hstate := hw.1
    dsimp only at hstate
    rw [update_self] at hstate
    cases hstate
  · exact h

theorem taskUnblock_not_blocked (s : System) (t : Tid) : (taskUnblock s t).state t ≠ .blocked := by
  unfold Semaphore.taskUnblock
  split
  · dsimp only
    rw [update_self]
    decide
  · assumption

theorem taskUnblock_other (s : System) {t u : Tid} (hu : u ≠ t) : (taskUnblock s t).state u = s.state u := by
  unfold Semaphore.taskUnblock
  split
  · exact update_of_ne hu ..
  · rfl

theorem taskUnblock_fields (s : System) (t : Tid) : (taskUnblock s t).semaphore = s.semaphore ∧
    (taskUnblock s t).phase = s.phase ∧ (taskUnblock s t).releases = s.releases ∧
      (taskUnblock s t).acquires = s.acquires := by
  unfold Semaphore.taskUnblock
  split
  · exact ⟨rfl, rfl, rfl, rfl⟩
  · exact ⟨rfl, rfl, rfl, rfl⟩

/-- What a release does, whoever waits. -/
theorem taskSemaphoreRelease_spec (s : System) :
    (taskSemaphoreRelease s).semaphore.currentCount = (s.semaphore.currentCount + 1) % 2 ^ 32 ∧
      (taskSemaphoreRelease s).semaphore.waiters = s.semaphore.waiters.tail ∧
      (taskSemaphoreRelease s).phase = s.phase ∧
      (taskSemaphoreRelease s).releases = s.releases + 1 ∧
      (taskSemaphoreRelease s).acquires = s.acquires ∧
      (∀ t, s.semaphore.waiters.head? = some t → (taskSemaphoreRelease s).state t ≠ .blocked) ∧
      ∀ t, s.semaphore.waiters.head? ≠ some t → (taskSemaphoreRelease s).state t = s.state t := by
  unfold taskSemaphoreRelease
  cases hq : s.semaphore.waiters with
  | nil => exact ⟨rfl, hq, rfl, rfl, rfl, (fun _ ht => nomatch ht), fun _ _ => rfl⟩
  | cons t ts =>
    dsimp only
    obtain ⟨hsem, hphase, hrel, hacq⟩ := taskUnblock_fields { s with
      semaphore := { s.semaphore with
        currentCount := (s.semaphore.currentCount + 1) % 2 ^ 32, waiters := ts }
      releases := s.releases + 1 } t
    refine ⟨by rw [hsem], by rw [hsem]; rfl, hphase, hrel, hacq, fun u hu => ?_, fun u hu => ?_⟩
    · cases hu
      exact taskUnblock_not_blocked _ t
    · have hut : u ≠ t := fun he => hu (congrArg some he.symm)
      exact taskUnblock_other _ hut

theorem Protocol.release {c : Nat} {s : System} (h : Protocol c s)
    (hroom : s.semaphore.currentCount + 1 < 2 ^ 32) : Protocol c (taskSemaphoreRelease s) := by
  obtain ⟨hcount, hwaiters, hphase, hrel, hacq, hhead, hother⟩ := taskSemaphoreRelease_spec s
  refine ⟨?_, fun t ht => ?_⟩
  · rw [hcount, hacq, hrel, Nat.mod_eq_of_lt hroom]
    have := h.count
    omega
  · by_cases hh : s.semaphore.waiters.head? = some t
    · exact absurd ht.1 (hhead t hh)
    · have hmem := h.queued t ⟨hother t hh ▸ ht.1, hphase ▸ ht.2⟩
      rw [hwaiters]
      cases hq : s.semaphore.waiters with
      | nil =>
        rw [hq] at hmem
        cases hmem
      | cons u us =>
        rw [hq] at hmem hh
        rcases List.mem_cons.mp hmem with he | hmem
        · exact absurd (congrArg some he.symm) hh
        · exact hmem

theorem Protocol.step {c : Nat} {s s' : System} {op : Op} (h : Protocol c s) (hg : Guarded s op)
    (hs : step s op = some s') : Protocol c s' := by
  cases op with
  | acquire =>
    obtain ⟨-, hs⟩ := ite_none_right_eq_some.mp hs
    cases hs
    unfold taskSemaphoreAcquire
    split
    · have hq : Protocol c (enqueueWaiter s s.current) :=
        h.change s.current h.count (fun _ _ hu => List.mem_append_left _ hu) (fun _ _ => rfl)
          (fun _ _ => rfl) fun _ => List.mem_append_right _ List.mem_cons_self
      exact hq.sleep fun _ => List.mem_append_right _ List.mem_cons_self
    · rename_i hpos
      exact h.takeToken hpos
  | resume =>
    obtain ⟨-, hs⟩ := ite_none_right_eq_some.mp hs
    cases hs
    unfold acquireResumed
    rw [if_neg hg]
    exact h.takeToken hg
  | release =>
    cases hs
    exact h.release hg
  | yield =>
    obtain ⟨-, hs⟩ := ite_none_right_eq_some.mp hs
    cases hs
    refine h.change s.current h.count (fun _ _ hu => hu) (fun u hu => update_of_ne hu ..)
      (fun _ _ => rfl) fun hw => ?_
    have hstate := hw.1
    dsimp only at hstate
    rw [update_self] at hstate
    cases hstate
  | block =>
    obtain ⟨-, hs⟩ := ite_none_right_eq_some.mp hs
    cases hs
    exact h.sleep fun he => nomatch he
  | unblock t =>
    obtain ⟨-, hs⟩ := ite_none_right_eq_some.mp hs
    cases hs
    exact h.taskUnblock t
  | dispatch t =>
    obtain ⟨-, hs⟩ := ite_none_right_eq_some.mp hs
    cases hs
    refine h.change t h.count (fun _ _ hu => hu) (fun u hu => update_of_ne hu ..)
      (fun _ _ => rfl) fun hw => ?_
    have hstate := hw.1
    dsimp only at hstate
    rw [update_self] at hstate
    cases hstate

/-! ## Waiting -/

/-- A run in which `t` waits all the time, with the number of releases in it. -/
inductive Waiting (t : Tid) : System → System → Nat → Prop
  | refl {s : System} (hw : Waits s t) : Waiting t s s 0
  | step {s s' r : System} {k : Nat} {op : Op} (hw : Waits s t) (hg : Guarded s op)
      (hs : Semaphore.step s op = some s') (hrest : Waiting t s' r k) :
      Waiting t s r (if op = .release then k + 1 else k)

theorem Waiting.waits {t : Tid} {s r : System} {k : Nat} (h : Waiting t s r k) : Waits s t := by
  cases h with
  | refl hw => exact hw
  | step hw => exact hw

/-- A release brings a task that goes on waiting one place forward. -/
theorem release_idxOf {c : Nat} {s : System} {t : Tid} (h : Protocol c s) (hw : Waits s t)
    (hw' : Waits (taskSemaphoreRelease s) t) :
    s.semaphore.waiters.idxOf t = (taskSemaphoreRelease s).semaphore.waiters.idxOf t + 1 := by
  obtain ⟨-, hwaiters, -, -, -, hhead, -⟩ := taskSemaphoreRelease_spec s
  have hmem := h.queued t hw
  rw [hwaiters]
  cases hq : s.semaphore.waiters with
  | nil =>
    rw [hq] at hmem
    cases hmem
  | cons u us =>
    have hut : u ≠ t := by
      intro he
      exact hhead t (by rw [hq, he]; rfl) hw'.1
    rw [List.tail_cons, List.idxOf_cons_ne us hut]

/-- Other steps leave it its place. -/
theorem idxOf_step {c : Nat} {s s' : System} {t : Tid} {op : Op} (h : Protocol c s) (hw : Waits s t)
    (hs : step s op = some s') (hop : op ≠ .release) :
    s'.semaphore.waiters.idxOf t = s.semaphore.waiters.idxOf t := by
  have hmem := h.queued t hw
  cases op with
  | acquire =>
    obtain ⟨-, hs⟩ := ite_none_right_eq_some.mp hs
    cases hs
    unfold taskSemaphoreAcquire
    split
    · exact List.idxOf_append_of_mem hmem
    · rfl
  | resume =>
    obtain ⟨-, hs⟩ := ite_none_right_eq_some.mp hs
    cases hs
    unfold acquireResumed
    split
    · rfl
    · rfl
  | release => exact absurd rfl hop
  | yield =>
    obtain ⟨-, hs⟩ := ite_none_right_eq_some.mp hs
    cases hs
    rfl
  | block =>
    obtain ⟨-, hs⟩ := ite_none_right_eq_some.mp hs
    cases hs
    rfl
  | unblock u =>
    obtain ⟨-, hs⟩ := ite_none_right_eq_some.mp hs
    cases hs
    rw [(taskUnblock_fields s u).1]
  | dispatch u =>
    obtain ⟨-, hs⟩ := ite_none_right_eq_some.mp hs
    cases hs
    rfl

theorem Waiting.releases_le {c : Nat} {t : Tid} {s r : System} {k : Nat} (h : Waiting t s r k) :
    Protocol c s → k ≤ s.semaphore.waiters.idxOf t := by
  induction h with
  | refl _ => intro _; exact Nat.zero_le _
  | @step s s' r k op hw hg hs hrest ih =>
    intro hp
    have hle := ih (hp.step hg hs)
    split
    · rename_i hop
      subst hop
      cases hs
      rw [release_idxOf hp hw hrest.waits]
      exact Nat.succ_le_succ hle
    · rename_i hop
      rw [← idxOf_step hp hw hs hop]
      exact hle

/-! ## Runs -/

def Step (s s' : System) : Prop := ∃ op, step s op = some s'

def GuardedStep (s s' : System) : Prop := ∃ op, Guarded s op ∧ step s op = some s'

/-- Task 1 runs, tasks 2 and 3 are ready, and there is no token. -/
def emptySemaphore : System :=
  { semaphore := taskSemaphoreInit 0
    state := fun t => if t = 1 then .running else .ready
    phase := fun _ => .outside
    current := 1
    switching := false
    releases := 0
    acquires := 0 }

theorem emptySemaphore_init : Init 0 emptySemaphore := ⟨rfl, fun _ => rfl, rfl, rfl⟩

end Serotonin.Semaphore
