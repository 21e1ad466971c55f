import Serotonin.Ipc.Stream
import Serotonin.Lib.WaitRing

/-! Readers of a pipe that sleep while there is something to read. The reader that a writer
wakes takes nothing yet: it reads when it runs again. -/

namespace Serotonin.Ipc

open Function
open WaitRing (Awake)

/-- Fewer readers wait than before, no other task is blocked, and empty pipes are still empty. -/
structure Calmer (k k' : Kernel) : Prop where
  queue : ∀ p, (k'.pipe p).readWaiters ⊆ (k.pipe p).readWaiters
  task : ∀ t, (k'.task t).state = .blocked → (k.task t).state = .blocked
  len : ∀ p, (k.pipe p).ring.dataLen = 0 → (k'.pipe p).ring.dataLen = 0

namespace Calmer

theorem refl (k : Kernel) : Calmer k k := ⟨fun _ => List.Subset.refl _, fun _ h => h, fun _ h => h⟩

theorem trans {k l k' : Kernel} (h : Calmer k l) (h' : Calmer l k') : Calmer k k' where
  queue p := List.Subset.trans (h'.queue p) (h.queue p)
  task t ht := h.task t (h'.task t ht)
  len p hp := h'.len p (h.len p hp)

end Calmer

theorem calmer_setCurrent (k : Kernel) (t : Tid) : Calmer k { k with current := t } :=
  ⟨fun _ => List.Subset.refl _, fun _ h => h, fun _ h => h⟩

theorem setPipe_self (k : Kernel) (p : Nat) (x : Pipe) : (k.setPipe p x).pipe p = x := update_self ..

theorem calmer_setPipe (k : Kernel) {p : Nat} {x : Pipe} (hq : x.readWaiters ⊆ (k.pipe p).readWaiters)
    (hl : (k.pipe p).ring.dataLen = 0 → x.ring.dataLen = 0) : Calmer k (k.setPipe p x) := by
  refine ⟨fun r => ?_, fun _ h => h, fun r hr => ?_⟩
  · by_cases hrp : r = p
    · rw [hrp, setPipe_self]
      exact hq
    · rw [setPipe_other k x hrp]
      exact List.Subset.refl _
  · by_cases hrp : r = p
    · rw [hrp] at hr ⊢
      rw [setPipe_self]
      exact hl hr
    · rw [setPipe_other k x hrp]
      exact hr

theorem task_modify_self (k : Kernel) (t : Tid) (f : Task → Task) : (k.modify t f).task t = f (k.task t) :=
  update_self ..

theorem task_modify_of_ne (k : Kernel) {t u : Tid} (f : Task → Task) (h : u ≠ t) :
    (k.modify t f).task u = k.task u := update_of_ne h ..

theorem state_taskUnblock_self (k : Kernel) (t : Tid) : ((taskUnblock k t).task t).state ≠ .blocked := by
  unfold taskUnblock
  by_cases hb : (k.task t).state = .blocked
  · rw [if_pos hb, task_modify_self]
    exact fun h => nomatch h
  · rw [if_neg hb]
    exact hb

theorem state_taskUnblock_of_ne (k : Kernel) {t u : Tid} (h : u ≠ t) :
    ((taskUnblock k t).task u).state = (k.task u).state := by
  unfold taskUnblock
  split
  · rw [task_modify_of_ne k _ h]
  · rfl

theorem pipe_taskUnblock (k : Kernel) (t : Tid) : (taskUnblock k t).pipe = k.pipe := by
  unfold taskUnblock
  split <;> rfl

theorem calmer_taskUnblock (k : Kernel) (t : Tid) : Calmer k (taskUnblock k t) := by
  refine ⟨fun p => ?_, fun u hu => ?_, fun p hp => ?_⟩
  · rw [pipe_taskUnblock]
    exact List.Subset.refl _
  · by_cases hut : u = t
    · rw [hut] at hu
      exact absurd hu (state_taskUnblock_self k t)
    · rw [state_taskUnblock_of_ne k hut] at hu
      exact hu
  · rw [pipe_taskUnblock]
    exact hp

theorem calmer_foldl (ts : List Tid) (k : Kernel) : Calmer k (ts.foldl taskUnblock k) := by
  induction ts generalizing k with
  | nil => exact .refl k
  | cons t ts ih => exact (calmer_taskUnblock k t).trans (ih _)

theorem calmer_wakeOneWriter (k : Kernel) (p : Nat) : Calmer k (wakeOneWriter k p) := by
  unfold wakeOneWriter
  split
  · exact .refl k
  · rename_i t ts hq
    have hset : Calmer k (k.setPipe p { k.pipe p with writeWaiters := ts }) :=
      calmer_setPipe k (List.Subset.refl _) fun h => h
    exact hset.trans (calmer_taskUnblock _ t)

theorem calmer_wakeAllWriters (k : Kernel) (p : Nat) : Calmer k (wakeAllWriters k p) := by
  have hset : Calmer k (k.setPipe p { k.pipe p with writeWaiters := [] }) :=
    calmer_setPipe k (List.Subset.refl _) fun h => h
  exact hset.trans (calmer_foldl _ _)

theorem calmer_wakeAllReaders (k : Kernel) (p : Nat) : Calmer k (wakeAllReaders k p) := by
  have hset : Calmer k (k.setPipe p { k.pipe p with readWaiters := [] }) :=
    calmer_setPipe k (List.nil_subset _) fun h => h
  exact hset.trans (calmer_foldl _ _)

theorem calmer_taskIpcPipeClose (k : Kernel) (p : Nat) (isReadEnd : Bool) :
    Calmer k (taskIpcPipeClose k p isReadEnd) := by
  have hends : ∀ readers writers, Calmer k (k.setPipe p { k.pipe p with readers := readers, writers := writers }) :=
    fun _ _ => calmer_setPipe k (List.Subset.refl _) fun h => h
  unfold taskIpcPipeClose
  split
  · have hfirst := hends ((k.pipe p).readers - 1) (k.pipe p).writers
    dsimp only
    split
    · exact hfirst.trans (calmer_wakeAllWriters _ p)
    · exact hfirst
  · have hfirst := hends (k.pipe p).readers ((k.pipe p).writers - 1)
    dsimp only
    split
    · exact hfirst.trans (calmer_wakeAllReaders _ p)
    · exact hfirst

namespace Streams

/-- The task is blocked in a read of this pipe. -/
def Asleep (s : Streams) (p : Nat) (t : Tid) : Prop :=
  (s.k.task t).state = .blocked ∧ ∃ size, s.calls t = some (p, true, .read size)

/-- No reader of a pipe sleeps over data. -/
def ReadersAwake (s : Streams) : Prop :=
  ∀ p, Awake (Asleep s p) (s.k.pipe p).readWaiters (s.k.pipe p).ring.dataLen

/-- A call has ended in a calmer state, or none was made. -/
theorem ReadersAwake.calmer {s s' : Streams} (h : ReadersAwake s) (hk : Calmer s.k s'.k)
    (hc : ∀ t p size, s'.calls t = some (p, true, .read size) → s.calls t = some (p, true, .read size)) :
    ReadersAwake s' := by
  intro p
  refine (h p).mono (fun t ht hsleep => ⟨hk.queue p ht, ?_⟩) (hk.len p)
  obtain ⟨hb, size, hcall⟩ := hsleep
  exact ⟨hk.task t hb, size, hc t p size hcall⟩

theorem calls_ended {s : Streams} {t : Tid} {x : Option (Nat × Bool × Call)} (hx : ∀ p size, x ≠ some (p, true, .read size))
    {u : Tid} {p size : Nat} (hu : update s.calls t x u = some (p, true, .read size)) :
    u ≠ t ∧ s.calls u = some (p, true, .read size) := by
  by_cases hut : u = t
  · rw [hut, update_self] at hu
    exact absurd hu (hx p size)
  · rw [update_of_ne hut] at hu
    exact ⟨hut, hu⟩

/-- A reader goes to sleep at an empty pipe. -/
theorem ReadersAwake.wait {s s' : Streams} (h : ReadersAwake s) {t : Tid} {p size : Nat}
    (hempty : (s.k.pipe p).ring.dataLen = 0)
    (hk : s'.k = block ({ s.k with current := t }.setPipe p { s.k.pipe p with
      readWaiters := (s.k.pipe p).readWaiters ++ [t] }))
    (hc : s'.calls = update s.calls t (some (p, true, .read size))) : ReadersAwake s' := by
  intro q u hu ⟨hb, size', hcall⟩
  have hpipe : s'.k.pipe = update s.k.pipe p { s.k.pipe p with
      readWaiters := (s.k.pipe p).readWaiters ++ [t] } := by
    rw [hk]
    rfl
  rw [hpipe] at hu ⊢
  by_cases hqp : q = p
  · rw [hqp, update_self]
    exact hempty
  · rw [update_of_ne hqp] at hu ⊢
    refine h q u hu ?_
    rw [hc] at hcall
    by_cases hut : u = t
    · -- the new reader sleeps at `p`
      rw [hut, update_self] at hcall
      cases hcall
      exact absurd rfl hqp
    · rw [update_of_ne hut] at hcall
      have hstate : s'.k.task u = s.k.task u := by
        rw [hk]
        exact update_of_ne hut ..
      rw [hstate] at hb
      exact ⟨hb, size', hcall⟩

/-- How many bytes a write stores. -/
def stored (s : Streams) (p : Nat) (isReadEnd : Bool) (data : List UInt8) : Nat :=
  if isReadEnd ∨ (s.k.pipe p).readers = 0 then 0
  else min data.length ((s.k.pipe p).ring.size - (s.k.pipe p).ring.dataLen)

/-- The reader that is woken has no room for anything, so nothing is stored if another one
sleeps behind it. -/
def FirstTakes (s : Streams) (p n : Nat) : Prop :=
  WaitRing.FirstTakes id (Asleep s p) (fun _ => 0) (s.k.pipe p).readWaiters n

/-- The writer has stored `n` bytes and wakes a reader. -/
theorem ReadersAwake.store {s s' : Streams} (h : ReadersAwake s) {t : Tid} {p n : Nat} {ring : CircBuf UInt8}
    (hf : FirstTakes s p n) (hlen : ring.dataLen = (s.k.pipe p).ring.dataLen + n)
    (hk : s'.k = wakeOneReader ({ s.k with current := t }.setPipe p { s.k.pipe p with ring := ring }) p)
    (hc : ∀ t p size, s'.calls t = some (p, true, .read size) → s.calls t = some (p, true, .read size)) :
    ReadersAwake s' := by
  have hpipe := setPipe_self { s.k with current := t } p { s.k.pipe p with ring := ring }
  have hother : ∀ q, q ≠ p → ({ s.k with current := t }.setPipe p { s.k.pipe p with ring := ring }).pipe q = s.k.pipe q :=
    fun q => setPipe_other { s.k with current := t } { s.k.pipe p with ring := ring }
  unfold wakeOneReader at hk
  rw [hpipe] at hk
  cases hq : (s.k.pipe p).readWaiters with
  | nil =>
    rw [hq] at hk
    intro q
    rw [hk]
    by_cases hqp : q = p
    · rw [hqp, hpipe]
      dsimp only
      rw [hq]
      exact WaitRing.awake_nil _ _
    · rw [hother q hqp]
      refine (h q).mono (fun u hu hsleep => ⟨hu, ?_⟩) fun hz => hz
      obtain ⟨hb, size, hcall⟩ := hsleep
      rw [hk] at hb
      exact ⟨hb, size, hc u q size hcall⟩
  | cons w ws =>
    rw [hq] at hk
    dsimp only at hk
    have hasleep : ∀ q u, Asleep s' q u → u ≠ w ∧ Asleep s q u := by
      intro q u ⟨hb, size, hcall⟩
      rw [hk] at hb
      have hne : u ≠ w := by
        intro he
        rw [he] at hb
        exact state_taskUnblock_self _ w hb
      rw [state_taskUnblock_of_ne _ hne] at hb
      exact ⟨hne, hb, size, hc u q size hcall⟩
    intro q
    rw [hk, pipe_taskUnblock]
    by_cases hqp : q = p
    · rw [hqp, setPipe_self]
      have hbefore := h p
      unfold FirstTakes at hf
      rw [hq] at hbefore hf
      have hserve : Awake (Asleep s' p) ws _ := hbefore.serve hf fun u _ hu => hasleep p u hu
      rw [Nat.zero_min, Nat.sub_zero] at hserve
      dsimp only
      rw [hlen]
      exact hserve
    · rw [setPipe_other _ _ hqp, hother q hqp]
      exact (h q).mono (fun u hu hsleep => ⟨hu, (hasleep q u hsleep).2⟩) fun hz => hz

/-- A writer goes to sleep at a full pipe. -/
theorem ReadersAwake.waitWrite {s s' : Streams} (h : ReadersAwake s) {t : Tid} {p : Nat} {e : Bool} {data : List UInt8}
    (hk : s'.k = block ({ s.k with current := t }.setPipe p { s.k.pipe p with
      writeWaiters := (s.k.pipe p).writeWaiters ++ [t] }))
    (hc : s'.calls = update s.calls t (some (p, e, .write data))) : ReadersAwake s' := by
  intro q
  have hset : Calmer s.k ({ s.k with current := t }.setPipe p { s.k.pipe p with
      writeWaiters := (s.k.pipe p).writeWaiters ++ [t] }) :=
    (calmer_setCurrent s.k t).trans (calmer_setPipe _ (List.Subset.refl _) fun hz => hz)
  rw [hk]
  refine (h q).mono (fun u hu ⟨hb, size, hcall⟩ => ⟨hset.queue q hu, ?_⟩) (hset.len q)
  rw [hc] at hcall
  obtain ⟨hut, hcall⟩ := calls_ended (x := some (p, e, .write data)) (fun _ _ hx => nomatch hx) hcall
  have hstate : s'.k.task u = s.k.task u := by
    rw [hk]
    exact update_of_ne hut ..
  rw [hstate] at hb
  exact ⟨hb, size, hcall⟩

/-! ## Calls -/

theorem ReadersAwake.performRead {s : Streams} (h : ReadersAwake s) (t : Tid) (p : Nat) (isReadEnd : Bool) (size : Nat)
    (noMem : Bool) : ReadersAwake (s.perform t p isReadEnd (.read size) noMem) := by
  have hended : ∀ k' given, Calmer s.k k' → ReadersAwake { s with
      k := k', calls := update s.calls t none, returned := given } := fun k' given hk =>
    h.calmer hk fun u q size' hu =>
      (calls_ended (x := none) (fun _ _ => (Option.some_ne_none _).symm) hu).2
  have hsame := calmer_setCurrent s.k t
  unfold Streams.perform
  dsimp only
  unfold taskIpcPipeRead
  by_cases hsize : size = 0
  · rw [if_pos hsize]
    exact hended _ _ hsame
  rw [if_neg hsize]
  cases isReadEnd with
  | false => exact hended _ _ hsame
  | true =>
    by_cases hdata : 0 < (s.k.pipe p).ring.dataLen
    · rw [if_neg (by decide), if_pos hdata]
      -- what is read leaves the ring
      have hset : Calmer s.k ({ s.k with current := t }.setPipe p { s.k.pipe p with
          ring := ((s.k.pipe p).ring.get (min size (s.k.pipe p).ring.dataLen)).2 }) := by
        refine hsame.trans (calmer_setPipe _ (List.Subset.refl _) fun hz => ?_)
        show (s.k.pipe p).ring.dataLen - _ = 0
        rw [show (s.k.pipe p).ring.dataLen = 0 from hz, Nat.zero_sub]
      exact hended _ _ (hset.trans (calmer_wakeOneWriter _ p))
    rw [if_neg (by decide), if_neg hdata]
    by_cases hwriters : (s.k.pipe p).writers = 0
    · rw [if_pos hwriters]
      exact hended _ _ hsame
    rw [if_neg hwriters]
    cases noMem with
    | true => exact hended _ _ hsame
    | false => exact h.wait (Nat.eq_zero_of_not_pos hdata) rfl rfl

theorem ReadersAwake.performWrite {s : Streams} (h : ReadersAwake s) (t : Tid) {p : Nat} {isReadEnd : Bool}
    {data : List UInt8} (hf : FirstTakes s p (stored s p isReadEnd data)) (noMem : Bool) :
    ReadersAwake (s.perform t p isReadEnd (.write data) noMem) := by
  have hcalls : ∀ u q size, update s.calls t none u = some (q, true, .read size) →
      s.calls u = some (q, true, .read size) := fun u q size hu =>
    (calls_ended (x := none) (fun _ _ => (Option.some_ne_none _).symm) hu).2
  have hsame := calmer_setCurrent s.k t
  have hended : ∀ given, ReadersAwake { s with
      k := { s.k with current := t }, calls := update s.calls t none, accepted := given } := fun given =>
    h.calmer hsame hcalls
  unfold stored at hf
  unfold Streams.perform
  dsimp only
  unfold taskIpcPipeWrite
  by_cases hdata : data.length = 0
  · rw [if_pos hdata]
    exact hended _
  rw [if_neg hdata]
  cases isReadEnd with
  | true => exact hended _
  | false =>
    rw [if_neg (by decide)]
    by_cases hreaders : (s.k.pipe p).readers = 0
    · rw [if_pos hreaders]
      exact hended _
    rw [if_neg hreaders]
    rw [if_neg (by simp [hreaders])] at hf
    by_cases hroom : (s.k.pipe p).ring.dataLen < (s.k.pipe p).ring.size
    · rw [if_pos hroom]
      refine h.store hf ?_ rfl hcalls
      show (s.k.pipe p).ring.dataLen + (data.take _).length = _
      rw [List.length_take]
      dsimp only
      omega
    rw [if_neg hroom]
    cases noMem with
    | true => exact hended _
    | false => exact h.waitWrite rfl rfl

/-! ## Runs -/

def CallOk (s : Streams) (p : Nat) (isReadEnd : Bool) : Call → Prop
  | .read _ => True
  | .write data => FirstTakes s p (stored s p isReadEnd data)

/-- A write stores nothing while another reader sleeps behind the first one, and a task that is
in a call is put to sleep by that call only. -/
def ReadersGuard (s : Streams) : Op → Prop
  | .call _ p isReadEnd call _ => CallOk s p isReadEnd call
  | .resume t _ => ∀ p isReadEnd call, s.calls t = some (p, isReadEnd, call) → CallOk s p isReadEnd call
  | .setState t state => state = .blocked → s.calls t = none ∨ (s.k.task t).state = .blocked
  | _ => True

theorem ReadersAwake.perform {s : Streams} (h : ReadersAwake s) (t : Tid) {p : Nat} {isReadEnd : Bool} {call : Call}
    (hok : CallOk s p isReadEnd call) (noMem : Bool) : ReadersAwake (s.perform t p isReadEnd call noMem) := by
  cases call with
  | read size => exact h.performRead t p isReadEnd size noMem
  | write data => exact h.performWrite t hok noMem

theorem ReadersAwake.step {s s' : Streams} {op : Op} (h : ReadersAwake s) (hg : ReadersGuard s op)
    (hs : s.step op = some s') : ReadersAwake s' := by
  cases op with
  | pipe addr p garbage f =>
    simp only [Streams.step] at hs
    split at hs
    · cases hs
    cases hs
    obtain ⟨-, hk⟩ | heq := sysPipe_cases s.k addr p garbage f
    · refine h.calmer ?_ fun _ _ _ hc => hc
      show Calmer s.k (sysPipe s.k addr p garbage f).2
      rw [hk]
      exact .refl s.k
    · refine h.calmer ?_ fun _ _ _ hc => hc
      show Calmer s.k (sysPipe s.k addr p garbage f).2
      rw [heq]
      exact calmer_setPipe s.k (List.nil_subset _) fun _ => rfl
  | call t p isReadEnd call noMem =>
    obtain ⟨-, hs⟩ := Option.ite_none_right_eq_some.mp hs
    cases hs
    exact h.perform t hg noMem
  | resume t noMem =>
    simp only [Streams.step] at hs
    split at hs
    · cases hs
    · rename_i p isReadEnd call hc
      obtain ⟨-, hs⟩ := Option.ite_none_right_eq_some.mp hs
      cases hs
      exact h.perform t (hg p isReadEnd call hc) noMem
  | abandon t =>
    cases hs
    exact h.calmer (.refl s.k) fun u q size hu =>
      (calls_ended (x := none) (fun _ _ => (Option.some_ne_none _).symm) hu).2
  | close p isReadEnd =>
    obtain ⟨-, hs⟩ := Option.ite_none_right_eq_some.mp hs
    cases hs
    exact h.calmer (calmer_taskIpcPipeClose s.k p isReadEnd) fun _ _ _ hc => hc
  | setState t state =>
    cases hs
    intro p
    refine (h p).mono (fun u hu hwait => ?_) fun hz => hz
    obtain ⟨hb, size, hcall⟩ := hwait
    refine ⟨hu, ?_, size, hcall⟩
    dsimp only at hb hcall
    by_cases hut : u = t
    · rw [hut, task_modify_self] at hb
      rw [hut] at hcall ⊢
      refine (hg hb).resolve_left fun hnone => ?_
      rw [hnone] at hcall
      cases hcall
    · rw [task_modify_of_ne s.k _ hut] at hb
      exact hb

def ReadersStep (s s' : Streams) : Prop := ∃ op, ReadersGuard s op ∧ s.step op = some s'

theorem Init.readersAwake {s : Streams} (h : Init s) : ReadersAwake s := by
  intro p t _ ⟨_, size, hcall⟩
  rw [h.calls t] at hcall
  cases hcall

end Streams

end Serotonin.Ipc
