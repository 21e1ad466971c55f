import Serotonin.Ipc.Calls
import Serotonin.Lib.Run

/-! What user tasks get from reads and writes that may block. A call that completes
at once returns the number of bytes it moved, or an error. A call that had to wait
returns the number of the system call, since that is what the saved context holds
and nothing that wakes the task changes it. -/

namespace Serotonin.Ipc

open Function

/-- The value is the number of bytes moved, or a documented error and none moved. -/
def Honest (r : Result) : Prop :=
  r.value = r.moved.length ∨ (r.value ∈ [-eio, -ebadf, -enomem, -efault, -epipe] ∧ r.moved = [])

structure Init (k : Kernel) : Prop where
  rings : RingsOk k
  mode : k.mode = .user
  inCall : ∀ t, (k.task t).inCall = none
  results : k.results = []

def Step (k k' : Kernel) : Prop := ∃ op, step k op = some k'

/-- A task that is in a call is there because it had to wait, and its saved context
has the number of that call. -/
structure Inv (k : Kernel) : Prop where
  rings : RingsOk k
  user : k.mode = .user → (k.task k.current).inCall = none
  inCall : ∀ t kind waits, (k.task t).inCall = some (kind, waits) →
    (k.task t).eax = kind.number ∧ waits = true
  results : ∀ r ∈ k.results, Honest r ↔ r.waits = false

theorem Init.inv {k : Kernel} (h : Init k) : Inv k where
  rings := h.rings
  user _ := h.inCall k.current
  inCall t _ _ ht := by rw [h.inCall t] at ht; cases ht
  results r hr := by rw [h.results] at hr; cases hr

/-- Steps that leave the calls and the results alone. -/
theorem Inv.keeps {k k' : Kernel} (h : Inv k) (hk : Keeps k k') (hmode : k'.mode = .user → k.mode = .user) :
    Inv k' where
  rings := hk.rings h.rings
  user hm := by rw [hk.inCall, hk.current]; exact h.user (hmode hm)
  inCall t kind waits ht := by
    rw [hk.inCall] at ht
    rw [hk.eax]
    exact h.inCall t kind waits ht
  results := by rw [hk.results]; exact h.results

theorem modify_same (k : Kernel) (t : Tid) (f : Task → Task) : (k.modify t f).task t = f (k.task t) :=
  update_self ..

theorem modify_other (k : Kernel) {t u : Tid} (f : Task → Task) (hu : u ≠ t) :
    (k.modify t f).task u = k.task u := update_of_ne hu ..

/-- A change to the context of a task that is in no call. -/
theorem Inv.setEax {k : Kernel} (h : Inv k) (t : Tid) (f : Task → Task) (ht : (k.task t).inCall = none)
    (hf : ∀ x, (f x).inCall = x.inCall) : Inv (k.modify t f) := by
  have hin : ∀ u, ((k.modify t f).task u).inCall = (k.task u).inCall := by
    intro u
    by_cases hu : u = t
    · rw [hu, modify_same, hf]
    · rw [modify_other k f hu]
  refine ⟨⟨h.rings.pipe, h.rings.pty, h.rings.ptySize⟩, ?_, ?_, h.results⟩
  · intro hm
    rw [hin]
    exact h.user hm
  · intro u kind waits hu
    have hne : u ≠ t := by
      rintro rfl
      rw [hin, ht] at hu
      cases hu
    rw [modify_other k f hne] at hu ⊢
    exact h.inCall u kind waits hu

theorem Inv.saveContext {k : Kernel} (h : Inv k) (hm : k.mode = .user) (kind : Kind) :
    Inv (saveContext k kind) := h.setEax k.current _ (h.user hm) fun _ => rfl

theorem Inv.deliver {k : Kernel} (h : Inv k) {kind : Kind} {value : Int} {moved : List UInt8} {waits : Bool}
    (hr : Honest ⟨k.current, kind, value, moved, waits⟩ ↔ waits = false) :
    Inv (deliver k kind value moved waits) where
  rings := ⟨h.rings.pipe, h.rings.pty, h.rings.ptySize⟩
  user := h.user
  inCall := h.inCall
  results r hmem := by
    rcases List.mem_cons.mp hmem with he | hmem
    · rw [he]; exact hr
    · exact h.results r hmem

/-- The task went to sleep in a call whose number its context holds. -/
theorem Inv.noteCall {k : Kernel} (h : Inv k) (hm : k.mode = .switching) {kind : Kind}
    (he : (k.task k.current).eax = kind.number) : Inv (noteCall k kind true) where
  rings := ⟨h.rings.pipe, h.rings.pty, h.rings.ptySize⟩
  user hu := by
    have hu' : k.mode = .user := hu
    rw [hm] at hu'
    cases hu'
  inCall t kind' waits ht := by
    unfold Ipc.noteCall at ht ⊢
    by_cases hc : t = k.current
    · subst hc
      rw [modify_same] at ht ⊢
      cases ht
      exact ⟨he, rfl⟩
    · rw [modify_other k _ hc] at ht ⊢
      exact h.inCall t kind' waits ht
  results := h.results

theorem Inv.killCurrent {k : Kernel} (h : Inv k) : Inv (killCurrent k) := by
  have hw := (wakes_setState k k.current .terminated).keeps
  refine h.keeps ⟨hw.inCall, hw.eax, hw.current, hw.results, fun hr => ?_⟩ fun hm => ?_
  · obtain ⟨h1, h2, h3⟩ := hw.rings hr
    exact ⟨h1, h2, h3⟩
  · cases hm

/-- A number of a call is no count of the bytes that it moved before it slept. -/
theorem not_honest_number (t : Tid) (kind : Kind) (waits : Bool) :
    ¬Honest ⟨t, kind, kind.number, [], waits⟩ := by
  have h : ¬(kind.number = ([] : List UInt8).length ∨
      (kind.number ∈ [-eio, -ebadf, -enomem, -efault, -epipe] ∧ ([] : List UInt8) = [])) := by
    cases kind with
    | write => decide
    | read => decide
  exact h

theorem saveContext_eax (k : Kernel) (kind : Kind) :
    ((saveContext k kind).task k.current).eax = kind.number := by
  unfold saveContext
  rw [modify_same]

theorem Inv.stepRead {k : Kernel} (h : Inv k) (hm : k.mode = .user) (d : Handle) (size : Nat) (f : Fails) :
    Inv (stepRead k d size f) := by
  have hs := h.saveContext hm .read
  have hok := sysRead_ok hs.rings d size f
  unfold Ipc.stepRead
  cases ho : sysRead (Ipc.saveContext k .read) d size f with
  | returns value given k' =>
    rw [ho] at hok
    obtain ⟨hw, hkeeps, hmode, hgood⟩ := hok
    exact (hs.keeps hkeeps fun _ => hm).deliver ⟨fun _ => hw, fun _ => hgood⟩
  | sleeps k' =>
    rw [ho] at hok
    obtain ⟨hw, hkeeps, hmode⟩ := hok
    have he : (k'.task k'.current).eax = Kind.read.number := by
      rw [hkeeps.eax, hkeeps.current]
      exact saveContext_eax k .read
    have hw' : readWaits k d size f = true := hw
    dsimp only
    rw [hw']
    exact (hs.keeps hkeeps fun hu => by rw [hmode] at hu; cases hu).noteCall hmode he

theorem Inv.stepWrite {k : Kernel} (h : Inv k) (hm : k.mode = .user) (access : Access) (p : Nat)
    (isReadEnd : Bool) (data : List UInt8) (f : Fails) : Inv (stepWrite k access p isReadEnd data f) := by
  have hs := h.saveContext hm .write
  have hok := sysWrite_ok hs.rings access p isReadEnd data f
  unfold Ipc.stepWrite
  cases ho : sysWrite (Ipc.saveContext k .write) access p isReadEnd data f with
  | returns value given k' =>
    rw [ho] at hok
    obtain ⟨hw, hkeeps, hmode, moved, hring, hgood⟩ := hok
    have hk' := hs.keeps hkeeps fun _ => hm
    dsimp only
    split
    · exact hk'.killCurrent
    · refine hk'.deliver ⟨fun _ => hw, fun _ => ?_⟩
      have hdrop : (k'.pipe p).ring.contents.drop (k.pipe p).ring.contents.length = moved := by
        rw [hring]
        exact List.drop_left ..
      rw [hdrop]
      exact hgood
  | sleeps k' =>
    rw [ho] at hok
    obtain ⟨hw, hkeeps, hmode⟩ := hok
    have he : (k'.task k'.current).eax = Kind.write.number := by
      rw [hkeeps.eax, hkeeps.current]
      exact saveContext_eax k .write
    have hw' : writeWaits k access p isReadEnd data f = true := hw
    dsimp only
    rw [hw']
    exact (hs.keeps hkeeps fun hu => by rw [hmode] at hu; cases hu).noteCall hmode he

theorem Inv.runTask {k : Kernel} (h : Inv k) (t : Tid) : Inv (runTask k t) where
  rings := ⟨h.rings.pipe, h.rings.pty, h.rings.ptySize⟩
  user _ := by
    unfold Ipc.runTask
    simp only [update_self]
  inCall u kind waits hu := by
    unfold Ipc.runTask at hu ⊢
    by_cases hut : u = t
    · subst hut
      simp only [update_self] at hu
      cases hu
    · simp only [update_of_ne hut] at hu ⊢
      exact h.inCall u kind waits hu
  results := h.results

theorem Inv.switchTask {k : Kernel} (h : Inv k) (t : Tid) : Inv (switchTask k t) := by
  unfold Ipc.switchTask
  cases hc : (k.task t).inCall with
  | none => exact h.runTask t
  | some c =>
    obtain ⟨kind, waits⟩ := c
    obtain ⟨he, hw⟩ := h.inCall t kind waits hc
    refine (h.runTask t).deliver ⟨fun hh => ?_, fun hf => ?_⟩
    · rw [he] at hh
      exact absurd hh (not_honest_number _ kind waits)
    · rw [hw] at hf
      cases hf

theorem Inv.preempt {k : Kernel} (h : Inv k) (hm : k.mode = .user) (eax : Int) : Inv (preempt k eax) := by
  have hp := h.setEax k.current (fun x => { x with state := .ready, eax := eax }) (h.user hm) fun _ => rfl
  exact ⟨⟨hp.rings.pipe, hp.rings.pty, hp.rings.ptySize⟩, (fun hu => nomatch hu), hp.inCall, hp.results⟩

theorem step_cases {k k' : Kernel} {op : Op} (h : step k op = some k') :
    (∃ t, op = .dispatch t ∧ k.mode = .switching ∧ k' = switchTask k t) ∨
      (k.mode = .user ∧ k' = userStep k op) := by
  unfold Ipc.step at h
  split at h
  · rename_i t hm
    split at h
    · exact .inl ⟨t, rfl, hm, (Option.some.inj h).symm⟩
    · cases h
  · cases h
  · cases h
  · rename_i hm _
    exact .inr ⟨hm, (Option.some.inj h).symm⟩

/-- What one step preserves. -/
theorem Inv.step {k k' : Kernel} (h : Inv k) (hs : Step k k') : Inv k' := by
  obtain ⟨op, hs⟩ := hs
  obtain ⟨t, -, -, rfl⟩ | ⟨hm, rfl⟩ := step_cases hs
  · exact h.switchTask t
  have hwakes : ∀ {l}, Wakes k l → Inv l := fun hw => h.keeps hw.keeps fun _ => hm
  cases op with
  | read d size f => exact h.stepRead hm d size f
  | write access p isReadEnd data f => exact h.stepWrite hm access p isReadEnd data f
  | closePipe p isReadEnd => exact hwakes (wakes_taskIpcPipeClose k p isReadEnd)
  | ptySlaveWrite q data => exact hwakes (wakes_ptyLdiscOutput k q data)
  | ptyEcho q data => exact hwakes (wakes_ptyEcho k q data)
  | ptySlaveClose q => exact hwakes (wakes_ptySlaveClose k q)
  | ptyMasterClose q => exact hwakes (wakes_ptyMasterClose k q)
  | preempt eax => exact h.preempt hm eax
  | dispatch t => exact h

/-! ## Runs in which nothing waits -/

/-- No task is in a call, and no call so far had to wait. -/
structure NoneWaited (k : Kernel) : Prop where
  inCall : ∀ t, (k.task t).inCall = none
  results : ∀ r ∈ k.results, r.waits = false

theorem NoneWaited.keeps {k k' : Kernel} (h : NoneWaited k) (hk : Keeps k k') : NoneWaited k' where
  inCall t := (hk.inCall t).trans (h.inCall t)
  results := by rw [hk.results]; exact h.results

theorem NoneWaited.modify {k : Kernel} (h : NoneWaited k) (t : Tid) (f : Task → Task)
    (hf : ∀ x, (f x).inCall = x.inCall) : NoneWaited (k.modify t f) where
  inCall u := by
    by_cases hu : u = t
    · rw [hu, modify_same, hf]
      exact h.inCall t
    · rw [modify_other k f hu]
      exact h.inCall u
  results := h.results

theorem NoneWaited.deliver {k : Kernel} (h : NoneWaited k) {kind : Kind} {value : Int} {moved : List UInt8}
    {waits : Bool} (hw : waits = false) : NoneWaited (deliver k kind value moved waits) where
  inCall := h.inCall
  results r hmem := by
    rcases List.mem_cons.mp hmem with he | hmem
    · rw [he]; exact hw
    · exact h.results r hmem

/-- What the call finds lets it return at once. -/
def NoWait (k : Kernel) : Op → Prop
  | .read h size f => readWaits k h size f = false
  | .write access p isReadEnd data f => writeWaits k access p isReadEnd data f = false
  | _ => True

theorem NoneWaited.stepRead {k : Kernel} (h : NoneWaited k) (hk : RingsOk k) {d : Handle} {size : Nat}
    {f : Fails} (hg : readWaits k d size f = false) : NoneWaited (stepRead k d size f) := by
  have hs : NoneWaited (Ipc.saveContext k .read) := h.modify k.current _ fun _ => rfl
  have hok := sysRead_ok (k := Ipc.saveContext k .read) ⟨hk.pipe, hk.pty, hk.ptySize⟩ d size f
  unfold Ipc.stepRead
  cases ho : sysRead (Ipc.saveContext k .read) d size f with
  | returns value given k' =>
    rw [ho] at hok
    exact (hs.keeps hok.2.1).deliver hg
  | sleeps k' =>
    rw [ho] at hok
    exact absurd (hg.symm.trans hok.1) Bool.false_ne_true

theorem NoneWaited.stepWrite {k : Kernel} (h : NoneWaited k) (hk : RingsOk k) {access : Access} {p : Nat}
    {isReadEnd : Bool} {data : List UInt8} {f : Fails} (hg : writeWaits k access p isReadEnd data f = false) :
    NoneWaited (stepWrite k access p isReadEnd data f) := by
  have hs : NoneWaited (Ipc.saveContext k .write) := h.modify k.current _ fun _ => rfl
  have hok := sysWrite_ok (k := Ipc.saveContext k .write) ⟨hk.pipe, hk.pty, hk.ptySize⟩ access p isReadEnd
    data f
  unfold Ipc.stepWrite
  cases ho : sysWrite (Ipc.saveContext k .write) access p isReadEnd data f with
  | returns value given k' =>
    rw [ho] at hok
    have hk' := hs.keeps hok.2.1
    dsimp only
    split
    · have hkill := hk'.modify k'.current (fun x => { x with state := .terminated }) fun _ => rfl
      exact ⟨hkill.inCall, hkill.results⟩
    · exact hk'.deliver hg
  | sleeps k' =>
    rw [ho] at hok
    exact absurd (hg.symm.trans hok.1) Bool.false_ne_true

theorem NoneWaited.switchTask {k : Kernel} (h : NoneWaited k) (t : Tid) : NoneWaited (switchTask k t) := by
  unfold Ipc.switchTask
  rw [h.inCall t]
  refine ⟨fun u => ?_, h.results⟩
  dsimp only [Ipc.runTask]
  by_cases hut : u = t
  · subst hut
    simp only [update_self]
  · simp only [update_of_ne hut]
    exact h.inCall u

theorem NoneWaited.step {k k' : Kernel} {op : Op} (h : NoneWaited k) (hi : Inv k) (hg : NoWait k op)
    (hs : step k op = some k') : NoneWaited k' := by
  obtain ⟨t, -, -, rfl⟩ | ⟨hm, rfl⟩ := step_cases hs
  · exact h.switchTask t
  cases op with
  | read d size f => exact h.stepRead hi.rings hg
  | write access p isReadEnd data f => exact h.stepWrite hi.rings hg
  | closePipe p isReadEnd => exact h.keeps (wakes_taskIpcPipeClose k p isReadEnd).keeps
  | ptySlaveWrite q data => exact h.keeps (wakes_ptyLdiscOutput k q data).keeps
  | ptyEcho q data => exact h.keeps (wakes_ptyEcho k q data).keeps
  | ptySlaveClose q => exact h.keeps (wakes_ptySlaveClose k q).keeps
  | ptyMasterClose q => exact h.keeps (wakes_ptyMasterClose k q).keeps
  | preempt eax =>
    have hp := h.modify k.current (fun x => { x with state := .ready, eax := eax }) fun _ => rfl
    exact ⟨hp.inCall, hp.results⟩
  | dispatch t => exact h

/-! ## Runs -/

def NoWaitStep (k k' : Kernel) : Prop := ∃ op, NoWait k op ∧ step k op = some k'

theorem reachable_inv {k : Kernel} (hk : Run.Reachable Init Step k) : Inv k :=
  hk.invariant Inv (fun _ h => h.inv) fun _ _ h hs => h.step hs

/-- In every run, of whatever steps in whatever order, a call returned a right value
if and only if it did not have to wait when it was made; so a run in which no call
has to wait has right values only. -/
theorem honest_iff_noWait (k : Kernel) :
    (Run.Reachable Init Step k → ∀ r ∈ k.results, Honest r ↔ r.waits = false) ∧
      (Run.Reachable Init NoWaitStep k → ∀ r ∈ k.results, Honest r) := by
  refine ⟨fun hk => (reachable_inv hk).results, fun hk r hr => ?_⟩
  obtain ⟨hi, hn⟩ := hk.invariant (fun k => Inv k ∧ NoneWaited k)
    (fun k h => ⟨h.inv, h.inCall, fun r hr => by rw [h.results] at hr; cases hr⟩)
    fun k l ⟨hi, hn⟩ ⟨op, hg, hs⟩ => ⟨hi.step ⟨op, hs⟩, hn.step hi hg hs⟩
  exact (hi.results r hr).mpr (hn.results r hr)

/-! ## A read of an empty pipe -/

def run (k : Kernel) : List Op → Option Kernel
  | [] => some k
  | op :: ops => (step k op).bind fun k' => run k' ops

theorem run_reachable {ops : List Op} : ∀ {k k' : Kernel}, Run.Reachable Init Step k →
    run k ops = some k' → Run.Reachable Init Step k' := by
  induction ops with
  | nil => intro k k' h hr; cases hr; exact h
  | cons op ops ih =>
    intro k k' h hr
    obtain ⟨l, hl, hr⟩ := Option.bind_eq_some_iff.mp hr
    exact ih (h.step ⟨op, hl⟩) hr

def noFails : Fails := ⟨false, false, false⟩

/-- Task 1 runs, task 2 is ready, and the rings are empty. -/
def pipeCreated : Kernel :=
  { task := fun t => ⟨if t = 1 then .running else .ready, 0, false, none⟩
    current := 1
    mode := .user
    pipe := fun _ => ⟨⟨fun _ => 0, 65536, 0, 0, 0⟩, 1, 1, [], []⟩
    pty := fun _ => ⟨⟨fun _ => 0, ptyRingSize, 0, 0, 0⟩, 1, 1, [], true⟩
    results := [] }

theorem pipeCreated_init : Init pipeCreated := by
  have hring : ∀ n, 0 < n → RingOk (⟨fun _ => 0, n, 0, 0, 0⟩ : CircBuf UInt8) := fun n hn =>
    ⟨⟨hn, Nat.zero_le n, (Nat.zero_mod n).symm⟩, hn⟩
  exact ⟨⟨fun _ => hring _ (by decide), fun _ => hring _ (by decide), fun _ => rfl⟩, rfl, fun _ => rfl, rfl⟩

/-- Task 1 reads and sleeps, task 2 writes one byte and wakes it, and task 1 goes on
with 2, the number of the call, though it was given nothing. -/
theorem not_always_honest : ¬∀ k, Run.Reachable Init Step k → ∀ r ∈ k.results, Honest r := by
  intro h
  have hresults : (run pipeCreated [.read ⟨.rdOnly, .pipeEnd 0 true⟩ 16 noFails, .dispatch 2,
      .write .wrOnly 0 false [65] noFails, .preempt 0, .dispatch 1]).map (·.results) =
        some [⟨1, .read, 2, [], true⟩, ⟨2, .write, 1, [65], false⟩] := by decide +kernel
  obtain ⟨k, hrun, hk⟩ := Option.map_eq_some_iff.mp hresults
  have hh := h k (run_reachable (.start pipeCreated_init) hrun) ⟨1, .read, 2, [], true⟩
    (hk ▸ List.mem_cons_self)
  exact not_honest_number 1 .read true hh

/-- A write that finds room, and a read that finds its byte. -/
theorem honest_iff_noWait_write : ∃ k, run pipeCreated [.write .wrOnly 0 false [65] noFails,
    .read ⟨.rdOnly, .pipeEnd 0 true⟩ 16 noFails] = some k ∧
      k.results = [⟨1, .read, 1, [65], false⟩, ⟨1, .write, 1, [65], false⟩] ∧ ∀ r ∈ k.results, Honest r := by
  have hresults : (run pipeCreated [.write .wrOnly 0 false [65] noFails,
      .read ⟨.rdOnly, .pipeEnd 0 true⟩ 16 noFails]).map (·.results) =
        some [⟨1, .read, 1, [65], false⟩, ⟨1, .write, 1, [65], false⟩] := by decide +kernel
  obtain ⟨k, hrun, hk⟩ := Option.map_eq_some_iff.mp hresults
  refine ⟨k, hrun, hk, (honest_iff_noWait k).2 ?_⟩
  obtain ⟨k1, h1, hrun⟩ := Option.bind_eq_some_iff.mp hrun
  obtain ⟨k2, h2, hrun⟩ := Option.bind_eq_some_iff.mp hrun
  cases hrun
  have hg1 : writeWaits pipeCreated .wrOnly 0 false [65] noFails = false := by decide
  have hg2 : (some k1).map (fun k => readWaits k ⟨.rdOnly, .pipeEnd 0 true⟩ 16 noFails) = some false := by
    rw [← h1]
    decide +kernel
  exact ((Run.Reachable.start pipeCreated_init).step ⟨.write .wrOnly 0 false [65] noFails, hg1, h1⟩).step
    ⟨.read ⟨.rdOnly, .pipeEnd 0 true⟩ 16 noFails, Option.some.inj hg2, h2⟩

end Serotonin.Ipc
