import Serotonin.Ipc.Calls
import Serotonin.Lib.Run

/-! The bytes that go through pipes. Any tasks make reads and writes of any sizes, in
any order; a call that waits may be tried again when its task is woken, or be given up
by it. What the reads returned and what is still in the ring are, in order, what the
writes accepted. -/

namespace Serotonin.Ipc

open Function List

def emfile : Int := 24
def pipeBufferSize : Nat := 4096
def userSpaceStart : Nat := 0x00400000
def userSpaceEnd : Nat := 0xBFFFFFFF

/-- Which steps of `sys_pipe` fail. -/
structure PipeFails where
  mem : Bool
  readFd : Bool
  writeFd : Bool
  copy : Bool

def newPipe (garbage : Nat → UInt8) : Pipe := ⟨⟨garbage, pipeBufferSize, 0, 0, 0⟩, 1, 1, [], []⟩

/-- `sys_pipe`: `p` names the memory that was allocated for the pipe, `garbage` is what
its buffer holds. A pipe whose descriptors cannot be handed out is freed again. -/
def sysPipe (k : Kernel) (addr p : Nat) (garbage : Nat → UInt8) (f : PipeFails) : Int × Kernel :=
  if addr < userSpaceStart ∨ userSpaceEnd < (addr + 7) % 2 ^ 32 then (-efault, k)
  else if f.mem then (-enomem, k)
  else if f.readFd ∨ f.writeFd then (-emfile, k)
  else if f.copy then (-efault, k)
  else (0, k.setPipe p (newPipe garbage))

inductive Call where
  | read (size : Nat)
  | write (data : List UInt8)

/-- `calls` has the calls in their loops, asleep or woken; `accepted` and `returned` are
no part of the kernel. -/
structure Streams where
  k : Kernel
  created : Nat → Bool
  calls : Tid → Option (Nat × Bool × Call)
  accepted : Nat → List UInt8
  returned : Nat → List UInt8

namespace Streams

/-- A call is made by `t`, or tried again: nothing of it is left over from before it slept. -/
def perform (s : Streams) (t : Tid) (p : Nat) (isReadEnd : Bool) (call : Call) (noMem : Bool) : Streams :=
  let k := { s.k with current := t }
  match call with
  | .read size =>
    match taskIpcPipeRead k p isReadEnd size noMem with
    | .returns n bytes k' =>
      { s with
        k := k'
        calls := update s.calls t none
        returned := update s.returned p (s.returned p ++ bytes.take n.toNat) }
    | .sleeps k' => { s with k := k', calls := update s.calls t (some (p, isReadEnd, call)) }
  | .write data =>
    match taskIpcPipeWrite k p isReadEnd data noMem with
    | .returns n _ k' =>
      { s with
        k := k'
        calls := update s.calls t none
        accepted := update s.accepted p (s.accepted p ++ data.take n.toNat) }
    | .sleeps k' => { s with k := k', calls := update s.calls t (some (p, isReadEnd, call)) }

inductive Op where
  | pipe (addr p : Nat) (garbage : Nat → UInt8) (f : PipeFails)
  | call (t : Tid) (p : Nat) (isReadEnd : Bool) (call : Call) (noMem : Bool)
  | resume (t : Tid) (noMem : Bool)
  | abandon (t : Tid)
  | close (p : Nat) (isReadEnd : Bool)
  | setState (t : Tid) (state : TaskState)

/-- `abandon`: a user task goes on from its saved context. `setState`: whatever the
scheduler, signals and other code make of the tasks. -/
def step (s : Streams) : Op → Option Streams
  | .pipe addr p garbage f =>
    if s.created p then none
    else
      let (errno, k') := sysPipe s.k addr p garbage f
      some { s with k := k', created := update s.created p (errno = 0) }
  | .call t p isReadEnd call noMem =>
    if s.created p ∧ (s.calls t).isNone then some (s.perform t p isReadEnd call noMem) else none
  | .resume t noMem =>
    match s.calls t with
    | none => none
    | some (p, isReadEnd, call) =>
      if (s.k.task t).state ≠ .blocked then some (s.perform t p isReadEnd call noMem) else none
  | .abandon t => some { s with calls := update s.calls t none }
  | .close p isReadEnd =>
    if s.created p then some { s with k := taskIpcPipeClose s.k p isReadEnd } else none
  | .setState t state => some { s with k := s.k.modify t fun x => { x with state := state } }

end Streams

/-! ## What a call does to the rings -/

/-- From the ring of `p`, `taken` has come out and `put` has gone in. -/
structure Moves (pipe pipe' : Nat → Pipe) (p : Nat) (taken put : List UInt8) : Prop where
  contents : (pipe p).ring.contents ++ put = taken ++ (pipe' p).ring.contents
  ok : RingOk (pipe' p).ring
  size : (pipe' p).ring.size = (pipe p).ring.size
  other : ∀ q, q ≠ p → (pipe' q).ring = (pipe q).ring

theorem Moves.nothing {pipe pipe' : Nat → Pipe} {p : Nat} (h : RingOk (pipe p).ring)
    (hsame : ∀ q, (pipe' q).ring = (pipe q).ring) : Moves pipe pipe' p [] [] where
  contents := by rw [hsame p, append_nil, nil_append]
  ok := by rw [hsame p]; exact h
  size := by rw [hsame p]
  other q _ := hsame q

theorem setPipe_other (k : Kernel) {p q : Nat} (x : Pipe) (hq : q ≠ p) : (k.setPipe p x).pipe q = k.pipe q :=
  update_of_ne hq ..

/-- The ring changed, and then tasks were woken. -/
theorem Moves.setRing {k k' : Kernel} {p : Nat} {x : Pipe} {taken put : List UInt8}
    (hc : (k.pipe p).ring.contents ++ put = taken ++ x.ring.contents) (hx : RingOk x.ring)
    (hs : x.ring.size = (k.pipe p).ring.size) (hw : Wakes (k.setPipe p x) k') :
    Moves k.pipe k'.pipe p taken put where
  contents := by rw [hw.pipe p, setPipe_ring]; exact hc
  ok := by rw [hw.pipe p, setPipe_ring]; exact hx
  size := by rw [hw.pipe p, setPipe_ring]; exact hs
  other q hq := by rw [hw.pipe q, setPipe_other k x hq]

def Outcome.Moves (pipe : Nat → Pipe) (p : Nat) (taken put : Int → List UInt8 → List UInt8) : Outcome → Prop
  | .returns n given k' => Ipc.Moves pipe k'.pipe p (taken n given) (put n given)
  | .sleeps k' => Ipc.Moves pipe k'.pipe p [] []

theorem ring_block_setPipe {k : Kernel} {p : Nat} {x : Pipe} (hx : x.ring = (k.pipe p).ring) (q : Nat) :
    ((block (k.setPipe p x)).pipe q).ring = (k.pipe q).ring := (wakes_setPipe hx).pipe q

/-- Errors and end of file move nothing. -/
theorem take_neg (e : Nat) (data : List UInt8) : data.take (-(e : Int)).toNat = [] := by
  rw [Int.toNat_neg_natCast, take_zero]

theorem taskIpcPipeRead_moves {k : Kernel} {p : Nat} (h : RingOk (k.pipe p).ring) (isReadEnd : Bool)
    (size : Nat) (noMem : Bool) : (taskIpcPipeRead k p isReadEnd size noMem).Moves k.pipe p
      (fun n given => given.take n.toNat) fun _ _ => [] := by
  have hnone : Moves k.pipe k.pipe p [] [] := .nothing h fun _ => rfl
  unfold taskIpcPipeRead
  split
  · exact hnone
  split
  · exact hnone
  split
  · obtain ⟨hc, _, _⟩ := CircBuf.contents_get h.valid h.readPos (Nat.min_le_right size (k.pipe p).ring.dataLen)
    obtain ⟨hlen, hring⟩ := h.get (Nat.min_le_right size (k.pipe p).ring.dataLen)
    rw [← take_of_length_le (Nat.le_of_eq hlen), ← append_nil (k.pipe p).ring.contents] at hc
    refine Moves.setRing ?_ hring (get_size _ _) (wakes_wakeOneWriter ..)
    exact hc
  split
  · exact hnone
  split
  · exact hnone
  · exact Moves.nothing h (ring_block_setPipe rfl)

theorem taskIpcPipeWrite_moves {k : Kernel} {p : Nat} (h : RingOk (k.pipe p).ring) (isReadEnd : Bool)
    (data : List UInt8) (noMem : Bool) : (taskIpcPipeWrite k p isReadEnd data noMem).Moves k.pipe p
      (fun _ _ => []) fun n _ => data.take n.toNat := by
  have hnone : ∀ e : Nat, Moves k.pipe k.pipe p [] (data.take (-(e : Int)).toNat) := fun e => by
    rw [take_neg]
    exact .nothing h fun _ => rfl
  unfold taskIpcPipeWrite
  split
  · exact hnone 0
  split
  · exact hnone 9
  split
  · exact hnone 32
  split
  · rename_i hd
    obtain ⟨_, hroom⟩ := length_take_room data (k.pipe p).ring hd
    obtain ⟨hc, hring⟩ := h.put hroom
    refine Moves.setRing ?_ hring (CircBuf.store_fields _ _).1 (wakes_wakeOneReader ..)
    exact hc.symm
  split
  · exact hnone 12
  · exact Moves.nothing h (ring_block_setPipe rfl)

/-! ## Runs -/

namespace Streams

structure PipeOk (s : Streams) (p : Nat) : Prop where
  ring : RingOk (s.k.pipe p).ring
  size : (s.k.pipe p).ring.size = pipeBufferSize
  bytes : s.returned p ++ (s.k.pipe p).ring.contents = s.accepted p

structure Inv (s : Streams) : Prop where
  pipe : ∀ p, s.created p = true → PipeOk s p
  fresh : ∀ p, s.created p = false → s.returned p = [] ∧ s.accepted p = []
  calls : ∀ t p e c, s.calls t = some (p, e, c) → s.created p = true

/-- The kernel when no pipe has been created. -/
structure Init (s : Streams) : Prop where
  created : ∀ p, s.created p = false
  calls : ∀ t, s.calls t = none
  returned : ∀ p, s.returned p = []
  accepted : ∀ p, s.accepted p = []

theorem Init.inv {s : Streams} (h : Init s) : Inv s where
  pipe p hp := by rw [h.created p] at hp; cases hp
  fresh p _ := ⟨h.returned p, h.accepted p⟩
  calls t p e c ht := by rw [h.calls t] at ht; cases ht

/-- The rings, and what has gone through them, are as before. -/
theorem Inv.sameRings {s s' : Streams} (h : Inv s) (hr : ∀ p, (s'.k.pipe p).ring = (s.k.pipe p).ring)
    (hc : s'.created = s.created) (hret : s'.returned = s.returned) (hacc : s'.accepted = s.accepted)
    (hcalls : ∀ t p e c, s'.calls t = some (p, e, c) → s.created p = true) : Inv s' where
  pipe p hp := by
    rw [hc] at hp
    obtain ⟨h1, h2, h3⟩ := h.pipe p hp
    refine ⟨?_, ?_, ?_⟩
    · rw [hr]; exact h1
    · rw [hr]; exact h2
    · rw [hr, hret, hacc]; exact h3
  fresh p hp := by
    rw [hc] at hp
    rw [hret, hacc]
    exact h.fresh p hp
  calls t p e c ht := by rw [hc]; exact hcalls t p e c ht

/-- A call has ended, having taken bytes out of the ring of `p` or put bytes into it. -/
theorem Inv.moves {s s' : Streams} {p : Nat} {taken put : List UInt8} (h : Inv s) (hp : s.created p = true)
    (hm : Moves s.k.pipe s'.k.pipe p taken put) (hc : s'.created = s.created)
    (hret : s'.returned = update s.returned p (s.returned p ++ taken))
    (hacc : s'.accepted = update s.accepted p (s.accepted p ++ put))
    (hcalls : ∀ t p e c, s'.calls t = some (p, e, c) → s.created p = true) : Inv s' where
  pipe q hq := by
    rw [hc] at hq
    obtain ⟨h1, h2, h3⟩ := h.pipe q hq
    by_cases hqp : q = p
    · subst hqp
      refine ⟨hm.ok, hm.size.trans h2, ?_⟩
      rw [hret, hacc, update_self, update_self, ← h3, append_assoc,
        append_assoc, hm.contents]
    · refine ⟨?_, ?_, ?_⟩
      · rw [hm.other q hqp]; exact h1
      · rw [hm.other q hqp]; exact h2
      · rw [hm.other q hqp, hret, hacc, update_of_ne hqp, update_of_ne hqp]
        exact h3
  fresh q hq := by
    rw [hc] at hq
    have hqp : q ≠ p := by
      intro he
      rw [he, hp] at hq
      cases hq
    rw [hret, hacc, update_of_ne hqp, update_of_ne hqp]
    exact h.fresh q hq
  calls t q e c ht := by rw [hc]; exact hcalls t q e c ht

theorem calls_update {s : Streams} (h : Inv s) {t : Tid} {x : Option (Nat × Bool × Call)}
    (hx : ∀ p e c, x = some (p, e, c) → s.created p = true) :
    ∀ u p e c, update s.calls t x u = some (p, e, c) → s.created p = true := by
  intro u p e c hu
  by_cases hut : u = t
  · subst hut
    rw [update_self] at hu
    exact hx p e c hu
  · rw [update_of_ne hut] at hu
    exact h.calls u p e c hu

theorem Inv.perform {s : Streams} (h : Inv s) (t : Tid) {p : Nat} (hp : s.created p = true)
    (isReadEnd : Bool) (call : Call) (noMem : Bool) : Inv (s.perform t p isReadEnd call noMem) := by
  have hring := (h.pipe p hp).ring
  have hdone := calls_update h (t := t) (x := none) fun _ _ _ hx => nomatch hx
  have hkept := calls_update h (t := t) (x := some (p, isReadEnd, call)) fun q e c hx => by
    cases hx
    exact hp
  cases call with
  | read size =>
    have hm := taskIpcPipeRead_moves (k := { s.k with current := t }) hring isReadEnd size noMem
    unfold Streams.perform
    dsimp only
    cases ho : taskIpcPipeRead { s.k with current := t } p isReadEnd size noMem with
    | returns n given k' =>
      rw [ho] at hm
      exact h.moves hp hm rfl rfl (by rw [append_nil, update_eq_self]) hdone
    | sleeps k' =>
      rw [ho] at hm
      exact h.moves hp hm rfl (by rw [append_nil, update_eq_self])
        (by rw [append_nil, update_eq_self]) hkept
  | write data =>
    have hm := taskIpcPipeWrite_moves (k := { s.k with current := t }) hring isReadEnd data noMem
    unfold Streams.perform
    dsimp only
    cases ho : taskIpcPipeWrite { s.k with current := t } p isReadEnd data noMem with
    | returns n given k' =>
      rw [ho] at hm
      exact h.moves hp hm rfl (by rw [append_nil, update_eq_self]) rfl hdone
    | sleeps k' =>
      rw [ho] at hm
      exact h.moves hp hm rfl (by rw [append_nil, update_eq_self])
        (by rw [append_nil, update_eq_self]) hkept

theorem newPipe_ring (garbage : Nat → UInt8) : RingOk (newPipe garbage).ring :=
  have hsize : 0 < pipeBufferSize := by decide
  ⟨⟨hsize, Nat.zero_le _, rfl⟩, hsize⟩

theorem sysPipe_cases (k : Kernel) (addr p : Nat) (garbage : Nat → UInt8) (f : PipeFails) :
    ((sysPipe k addr p garbage f).1 ≠ 0 ∧ (sysPipe k addr p garbage f).2 = k) ∨
      sysPipe k addr p garbage f =
        (0, k.setPipe p (newPipe garbage)) := by
  have herr : ∀ e : Nat, 0 < e → ((-(e : Int), k) : Int × Kernel).1 ≠ 0 := fun e he h => by
    dsimp only at h
    omega
  unfold sysPipe
  split
  · exact .inl ⟨herr 14 (by decide), rfl⟩
  split
  · exact .inl ⟨herr 12 (by decide), rfl⟩
  split
  · exact .inl ⟨herr 24 (by decide), rfl⟩
  split
  · exact .inl ⟨herr 14 (by decide), rfl⟩
  · exact .inr rfl

/-- A pipe that was just created is empty. -/
theorem Inv.create {s : Streams} (h : Inv s) {p : Nat} (hp : s.created p = false) (garbage : Nat → UInt8) :
    Inv { s with
      k := s.k.setPipe p (newPipe garbage)
      created := update s.created p true } where
  pipe q hq := by
    dsimp only at hq
    by_cases hqp : q = p
    · subst hqp
      obtain ⟨hret, hacc⟩ := h.fresh q hp
      refine ⟨?_, ?_, ?_⟩
      · rw [setPipe_ring]
        exact newPipe_ring garbage
      · rw [setPipe_ring]
        rfl
      · rw [setPipe_ring, hret, hacc]
        rfl
    · rw [update_of_ne hqp] at hq
      obtain ⟨h1, h2, h3⟩ := h.pipe q hq
      refine ⟨?_, ?_, ?_⟩
      · rw [setPipe_other s.k _ hqp]; exact h1
      · rw [setPipe_other s.k _ hqp]; exact h2
      · rw [setPipe_other s.k _ hqp]; exact h3
  fresh q hq := by
    dsimp only at hq
    have hqp : q ≠ p := by
      intro he
      rw [he, update_self] at hq
      cases hq
    rw [update_of_ne hqp] at hq
    exact h.fresh q hq
  calls t q e c ht := by
    have hq := h.calls t q e c ht
    dsimp only
    by_cases hqp : q = p
    · rw [hqp, update_self]
    · rw [update_of_ne hqp]
      exact hq

theorem Inv.step {s s' : Streams} {op : Op} (h : Inv s) (hs : s.step op = some s') : Inv s' := by
  cases op with
  | pipe addr p garbage f =>
    simp only [Streams.step] at hs
    split at hs
    · cases hs
    rename_i hp
    rw [Bool.not_eq_true] at hp
    obtain ⟨he, hk⟩ | heq := sysPipe_cases s.k addr p garbage f
    · have hcreated : update s.created p (decide ((sysPipe s.k addr p garbage f).1 = 0)) =
          s.created := by
        rw [decide_eq_false he, ← hp, update_eq_self]
      rw [hk, hcreated] at hs
      cases hs
      exact h
    · rw [heq] at hs
      cases hs
      exact h.create hp garbage
  | call t p isReadEnd call noMem =>
    obtain ⟨⟨hp, -⟩, hs⟩ := Option.ite_none_right_eq_some.mp hs
    cases hs
    exact h.perform t hp isReadEnd call noMem
  | resume t noMem =>
    simp only [Streams.step] at hs
    split at hs
    · cases hs
    · rename_i p isReadEnd call hc
      obtain ⟨-, hs⟩ := Option.ite_none_right_eq_some.mp hs
      cases hs
      exact h.perform t (h.calls t p isReadEnd call hc) isReadEnd call noMem
  | abandon t =>
    cases hs
    exact h.sameRings (fun _ => rfl) rfl rfl rfl (calls_update h fun _ _ _ hx => nomatch hx)
  | close p isReadEnd =>
    obtain ⟨-, hs⟩ := Option.ite_none_right_eq_some.mp hs
    cases hs
    exact h.sameRings (wakes_taskIpcPipeClose s.k p isReadEnd).pipe rfl rfl rfl h.calls
  | setState t state =>
    cases hs
    exact h.sameRings (wakes_setState s.k t state).pipe rfl rfl rfl h.calls

def Step (s s' : Streams) : Prop := ∃ op, s.step op = some s'

/-- No byte of a pipe is lost, invented or reordered, in any run. -/
theorem pipe_stream {s : Streams} (h : Run.Reachable Init Step s) {p : Nat} (hp : s.created p = true) :
    s.returned p ++ (s.k.pipe p).ring.contents = s.accepted p ∧
      (s.k.pipe p).ring.dataLen ≤ (s.k.pipe p).ring.size ∧
      (s.k.pipe p).ring.readPos < (s.k.pipe p).ring.size ∧
      (s.k.pipe p).ring.writePos < (s.k.pipe p).ring.size ∧
      (s.k.pipe p).ring.writePos =
        ((s.k.pipe p).ring.readPos + (s.k.pipe p).ring.dataLen) % (s.k.pipe p).ring.size := by
  have hinv := h.invariant Inv (fun _ hi => hi.inv) fun _ _ hi ⟨_, hs⟩ => hi.step hs
  obtain ⟨⟨⟨hsize, hlen, hwrite⟩, hread⟩, -, hbytes⟩ := hinv.pipe p hp
  exact ⟨hbytes, hlen, hread, hwrite ▸ Nat.mod_lt _ hsize, hwrite⟩

/-- Before the first `sys_pipe`. -/
def noPipes : Streams :=
  { k :=
      { task := fun _ => ⟨.ready, 0, false, none⟩
        current := 1
        mode := .user
        pipe := fun _ => ⟨⟨fun _ => 0, 0, 0, 0, 0⟩, 0, 0, [], []⟩
        pty := fun _ => ⟨⟨fun _ => 0, 0, 0, 0, 0⟩, 0, 0, [], true⟩
        results := [] }
    created := fun _ => false
    calls := fun _ => none
    accepted := fun _ => []
    returned := fun _ => [] }

/-- Task 2 waits for bytes, task 1 writes three, task 2 is woken and takes two of them. -/
theorem pipe_stream_woken : ∃ s, Run.exec step noPipes [.pipe 0x00400000 0 (fun _ => 0) ⟨false, false, false, false⟩,
    .call 2 0 true (.read 2) false, .call 1 0 false (.write [7, 8, 9]) false, .resume 2 false] = some s ∧
      s.returned 0 = [7, 8] ∧ [7, 8] ++ (s.k.pipe 0).ring.contents = s.accepted 0 := by
  have hrun : (Run.exec step noPipes [.pipe 0x00400000 0 (fun _ => 0) ⟨false, false, false, false⟩,
      .call 2 0 true (.read 2) false, .call 1 0 false (.write [7, 8, 9]) false, .resume 2 false]).map
        (fun s => (s.created 0, s.returned 0)) = some (true, [7, 8]) := by decide +kernel
  obtain ⟨s, hs, heq⟩ := Option.map_eq_some_iff.mp hrun
  obtain ⟨hc, hret⟩ := Prod.mk.inj heq
  have hinit : Init noPipes := ⟨fun _ => rfl, fun _ => rfl, fun _ => rfl, fun _ => rfl⟩
  refine ⟨s, hs, hret, ?_⟩
  rw [← hret]
  exact (pipe_stream ((Run.Reachable.start hinit).exec (fun _ op _ hstep => ⟨op, hstep⟩) hs) hc).1

end Streams

end Serotonin.Ipc
