import Serotonin.Ipc.Model

/-! What the calls do, one lemma for each: a call that has to wait has moved nothing
and leaves the task asleep; one that does not has returned a value that is right for
what it moved. -/

namespace Serotonin.Ipc

open Function

/-! ## What stays as it is -/

structure RingOk (r : CircBuf UInt8) : Prop where
  valid : r.Valid
  readPos : r.readPos < r.size

structure RingsOk (k : Kernel) : Prop where
  pipe : ∀ p, RingOk (k.pipe p).ring
  pty : ∀ q, RingOk (k.pty q).outputRing
  ptySize : ∀ q, (k.pty q).outputRing.size = ptyRingSize

/-- The calls that tasks are in, and what their contexts hold, stay as they are. -/
structure Keeps (k k' : Kernel) : Prop where
  inCall : ∀ t, (k'.task t).inCall = (k.task t).inCall
  eax : ∀ t, (k'.task t).eax = (k.task t).eax
  current : k'.current = k.current
  results : k'.results = k.results
  rings : RingsOk k → RingsOk k'

theorem Keeps.refl (k : Kernel) : Keeps k k :=
  ⟨fun _ => rfl, fun _ => rfl, rfl, rfl, fun h => h⟩

theorem Keeps.trans {k l m : Kernel} (h : Keeps k l) (h' : Keeps l m) : Keeps k m :=
  ⟨fun t => (h'.inCall t).trans (h.inCall t), fun t => (h'.eax t).trans (h.eax t),
    h'.current.trans h.current, h'.results.trans h.results, fun hr => h'.rings (h.rings hr)⟩

/-- Waking tasks changes their states and the lists of waiters. -/
structure Wakes (k k' : Kernel) : Prop where
  keeps : Keeps k k'
  mode : k'.mode = k.mode
  pipe : ∀ p, (k'.pipe p).ring = (k.pipe p).ring

theorem Wakes.refl (k : Kernel) : Wakes k k := ⟨.refl k, rfl, fun _ => rfl⟩

theorem Wakes.trans {k l m : Kernel} (h : Wakes k l) (h' : Wakes l m) : Wakes k m :=
  ⟨h.keeps.trans h'.keeps, h'.mode.trans h.mode, fun p => (h'.pipe p).trans (h.pipe p)⟩

/-- A task's state changed, and nothing else of it. -/
theorem wakes_setState (k : Kernel) (t : Tid) (st : TaskState) :
    Wakes k (k.modify t fun x => { x with state := st }) := by
  have hfield : ∀ {β : Type} (g : Task → β), (∀ x st, g { x with state := st } = g x) →
      ∀ u, g ((k.modify t fun x => { x with state := st }).task u) = g (k.task u) := by
    intro β g hg u
    unfold Kernel.modify
    by_cases hu : u = t
    · subst hu
      simp only [update_self, hg]
    · simp only [update_of_ne hu]
  exact ⟨⟨hfield (·.inCall) fun _ _ => rfl, hfield (·.eax) fun _ _ => rfl,
    rfl, rfl, fun h => ⟨h.pipe, h.pty, h.ptySize⟩⟩,
    rfl, fun _ => rfl⟩

theorem wakes_taskUnblock (k : Kernel) (t : Tid) : Wakes k (taskUnblock k t) := by
  unfold taskUnblock
  split
  · exact wakes_setState k t .ready
  · exact .refl k

theorem wakes_foldl (ts : List Tid) : ∀ k, Wakes k (ts.foldl taskUnblock k) := by
  induction ts with
  | nil => intro k; exact .refl k
  | cons t ts ih => intro k; exact (wakes_taskUnblock k t).trans (ih _)

theorem keeps_setPipe {k : Kernel} {p : Nat} {x : Pipe} (hx : RingsOk k → RingOk x.ring) :
    Keeps k (k.setPipe p x) := by
  refine ⟨fun _ => rfl, fun _ => rfl, rfl, rfl, fun h => ⟨fun p' => ?_, h.pty, h.ptySize⟩⟩
  unfold Kernel.setPipe
  by_cases hp : p' = p
  · subst hp; simpa using hx h
  · simpa [hp] using h.pipe p'

/-- The same ring, with other ends or waiters. -/
theorem wakes_setPipe {k : Kernel} {p : Nat} {x : Pipe} (hx : x.ring = (k.pipe p).ring) :
    Wakes k (k.setPipe p x) := by
  refine ⟨keeps_setPipe fun h => hx ▸ h.pipe p, rfl, fun p' => ?_⟩
  unfold Kernel.setPipe
  by_cases hp : p' = p
  · subst hp; simpa using hx
  · simp [hp]

theorem wakes_setPty {k : Kernel} {q : Nat} {x : Pty}
    (hx : RingsOk k → RingOk x.outputRing ∧ x.outputRing.size = ptyRingSize) : Wakes k (k.setPty q x) := by
  refine ⟨⟨fun _ => rfl, fun _ => rfl, rfl, rfl, fun h => ⟨h.pipe, fun q' => ?_,
    fun q' => ?_⟩⟩, rfl, fun _ => rfl⟩
  · unfold Kernel.setPty
    by_cases hq : q' = q
    · subst hq; simpa using (hx h).1
    · simpa [hq] using h.pty q'
  · unfold Kernel.setPty
    by_cases hq : q' = q
    · subst hq; simpa using (hx h).2
    · simpa [hq] using h.ptySize q'

theorem wakes_setPty_same {k : Kernel} {q : Nat} {x : Pty} (hx : x.outputRing = (k.pty q).outputRing) :
    Wakes k (k.setPty q x) := wakes_setPty fun h => by rw [hx]; exact ⟨h.pty q, h.ptySize q⟩

theorem Wakes.ofSetPipe {k k' : Kernel} {p : Nat} {x : Pipe} (h : Wakes (k.setPipe p x) k')
    (hx : x.ring = (k.pipe p).ring) : Wakes k k' := (wakes_setPipe hx).trans h

theorem Wakes.ofSetPty {k k' : Kernel} {q : Nat} {x : Pty} (h : Wakes (k.setPty q x) k')
    (hx : x.outputRing = (k.pty q).outputRing) : Wakes k k' := (wakes_setPty_same hx).trans h

theorem wakes_wakeOneReader (k : Kernel) (p : Nat) : Wakes k (wakeOneReader k p) := by
  unfold wakeOneReader
  split
  · exact .refl k
  · exact .ofSetPipe (wakes_taskUnblock ..) rfl

theorem wakes_wakeOneWriter (k : Kernel) (p : Nat) : Wakes k (wakeOneWriter k p) := by
  unfold wakeOneWriter
  split
  · exact .refl k
  · exact .ofSetPipe (wakes_taskUnblock ..) rfl

theorem wakes_ptyOutputWakeOne (k : Kernel) (q : Nat) : Wakes k (ptyOutputWakeOne k q) := by
  unfold ptyOutputWakeOne
  split
  · exact .refl k
  · exact .ofSetPty (wakes_taskUnblock ..) rfl

theorem wakes_taskIpcPipeClose (k : Kernel) (p : Nat) (isReadEnd : Bool) :
    Wakes k (taskIpcPipeClose k p isReadEnd) := by
  unfold taskIpcPipeClose wakeAllWriters wakeAllReaders
  split
  · dsimp only
    split
    · exact .ofSetPipe (.ofSetPipe (wakes_foldl ..) rfl) rfl
    · exact wakes_setPipe rfl
  · dsimp only
    split
    · exact .ofSetPipe (.ofSetPipe (wakes_foldl ..) rfl) rfl
    · exact wakes_setPipe rfl

theorem wakes_ptyFreeIfClosed (k : Kernel) (q : Nat) : Wakes k (ptyFreeIfClosed k q) := by
  unfold ptyFreeIfClosed
  split
  · exact .ofSetPty (wakes_foldl ..) rfl
  · exact .refl k

theorem wakes_ptySlaveClose (k : Kernel) (q : Nat) : Wakes k (ptySlaveClose k q) := by
  unfold ptySlaveClose
  exact .ofSetPty (wakes_ptyFreeIfClosed ..) rfl

theorem wakes_ptyMasterClose (k : Kernel) (q : Nat) : Wakes k (ptyMasterClose k q) := by
  unfold ptyMasterClose
  exact .ofSetPty (wakes_ptyFreeIfClosed ..) rfl

/-! ## Rings -/

theorem RingOk.put {r : CircBuf UInt8} (h : RingOk r) {data : List UInt8}
    (hlen : r.dataLen + data.length ≤ r.size) :
    (r.put data).contents = r.contents ++ data ∧ RingOk (r.put data) := by
  obtain ⟨hc, hv⟩ := CircBuf.contents_put h.valid hlen
  obtain ⟨hs, hr, _⟩ := CircBuf.store_fields data r
  refine ⟨hc, hv, ?_⟩
  show (CircBuf.store data r).readPos < (CircBuf.store data r).size
  rw [hs, hr]
  exact h.readPos

theorem get_size (r : CircBuf UInt8) (n : Nat) : (r.get n).2.size = r.size := (CircBuf.fetch_fields n r).2.1

theorem RingOk.get {r : CircBuf UInt8} (h : RingOk r) {n : Nat} (hn : n ≤ r.dataLen) :
    (r.get n).1.length = n ∧ RingOk (r.get n).2 := by
  obtain ⟨_, hv, hr⟩ := CircBuf.contents_get h.valid h.readPos hn
  refine ⟨CircBuf.fetch_length n r, hv, ?_⟩
  rw [get_size]
  exact hr

theorem RingOk.ptyRingWrite {r : CircBuf UInt8} (h : RingOk r) (hs : r.size = ptyRingSize)
    (data : List UInt8) : RingOk (ptyRingWrite r data) ∧ (ptyRingWrite r data).size = ptyRingSize := by
  have hlen : r.dataLen + (data.take (ptyRingSize - r.dataLen)).length ≤ r.size := by
    have := h.valid.len
    rw [List.length_take]
    omega
  refine ⟨(h.put hlen).2, ?_⟩
  show (CircBuf.store _ r).size = _
  rw [(CircBuf.store_fields _ r).1, hs]

theorem RingOk.outputOnlcr (data : List UInt8) : ∀ {r : CircBuf UInt8}, RingOk r →
    r.size = ptyRingSize → RingOk (outputOnlcr r data).1 ∧ (outputOnlcr r data).1.size = ptyRingSize := by
  induction data with
  | nil => intro r h hs; exact ⟨h, hs⟩
  | cons c cs ih =>
    intro r h hs
    obtain ⟨h1, hs1⟩ := h.ptyRingWrite hs (if c = 10 then [13, 10] else [c])
    by_cases hroom : ptyRingSize - r.dataLen < (if c = 10 then [13, 10] else [c]).length
    · simp only [Ipc.outputOnlcr, hroom, if_true]
      exact ⟨h, hs⟩
    · simp only [Ipc.outputOnlcr, hroom, if_false]
      exact ih h1 hs1

theorem wakes_setPty_output {k : Kernel} {q : Nat} {x : Pty} {n : Nat}
    (hx : RingsOk k → RingOk x.outputRing ∧ x.outputRing.size = ptyRingSize) :
    Wakes k (if 0 < n then ptyOutputWakeOne (k.setPty q x) q else k.setPty q x) := by
  split
  · exact (wakes_setPty hx).trans (wakes_ptyOutputWakeOne ..)
  · exact wakes_setPty hx

theorem wakes_ptyLdiscOutput (k : Kernel) (q : Nat) (data : List UInt8) :
    Wakes k (ptyLdiscOutput k q data) := by
  unfold ptyLdiscOutput
  dsimp only
  cases (k.pty q).onlcr with
  | true => exact wakes_setPty_output fun h => (h.pty q).outputOnlcr data (h.ptySize q)
  | false => exact wakes_setPty_output fun h => (h.pty q).ptyRingWrite (h.ptySize q) data

theorem wakes_ptyEcho (k : Kernel) (q : Nat) (data : List UInt8) : Wakes k (ptyEcho k q data) :=
  (wakes_setPty fun h => (h.pty q).ptyRingWrite (h.ptySize q) data).trans (wakes_ptyOutputWakeOne ..)

/-! ## The calls -/

/-- Going to sleep changes the task's state and the mode. -/
theorem keeps_block (k : Kernel) : Keeps k (block k) := by
  have h := (wakes_setState k k.current .blocked).keeps
  exact ⟨h.inCall, h.eax, h.current, h.results, fun hr => by
    obtain ⟨h1, h2, h3⟩ := h.rings hr
    exact ⟨h1, h2, h3⟩⟩

theorem keeps_block_setPipe {k : Kernel} {p : Nat} {x : Pipe} (hx : x.ring = (k.pipe p).ring) :
    Keeps k (block (k.setPipe p x)) := (wakes_setPipe hx).keeps.trans (keeps_block _)

theorem keeps_block_setPty {k : Kernel} {q : Nat} {x : Pty}
    (hx : x.outputRing = (k.pty q).outputRing) : Keeps k (block (k.setPty q x)) :=
  (wakes_setPty_same hx).keeps.trans (keeps_block _)

theorem setPipe_ring (k : Kernel) (p : Nat) (x : Pipe) : ((k.setPipe p x).pipe p).ring = x.ring := by
  unfold Kernel.setPipe
  simp only [update_self]

/-- A ring that changed, and a task on the other side that is woken. -/
theorem keeps_ring_wake {k k' : Kernel} {p : Nat} {x : Pipe} (hx : RingOk x.ring)
    (h : Wakes (k.setPipe p x) k') : Keeps k k' ∧ k'.mode = k.mode ∧ (k'.pipe p).ring = x.ring :=
  ⟨(keeps_setPipe fun _ => hx).trans h.keeps, h.mode, (h.pipe p).trans (setPipe_ring k p x)⟩

/-- What a call can come to: it waits, and has moved nothing, or it returns in user
mode with a value that `good` holds of. -/
def Outcome.Ok (k : Kernel) (waits : Bool) (good : Int → List UInt8 → Kernel → Prop) : Outcome → Prop
  | .returns value given k' => waits = false ∧ Keeps k k' ∧ k'.mode = k.mode ∧ good value given k'
  | .sleeps k' => waits = true ∧ Keeps k k' ∧ k'.mode = .switching

/-- A value that is right for what was read. -/
def ReadOk (value : Int) (given : List UInt8) (_ : Kernel) : Prop :=
  value = given.length ∨ (value ∈ [-eio, -ebadf, -enomem, -efault, -epipe] ∧ given = [])

/-- A value that is right for what has gone into the ring. -/
def WriteOk (p : Nat) (k : Kernel) (value : Int) (_ : List UInt8) (k' : Kernel) : Prop :=
  ∃ moved, (k'.pipe p).ring.contents = (k.pipe p).ring.contents ++ moved ∧
    (value = moved.length ∨ (value ∈ [-eio, -ebadf, -enomem, -efault, -epipe] ∧ moved = []))

/-- The part of a read that depends on the pipe. -/
theorem taskIpcPipeRead_ok {k : Kernel} (hk : RingsOk k) (p : Nat) (isReadEnd : Bool) (size : Nat)
    (noMem : Bool) : (taskIpcPipeRead k p isReadEnd size noMem).Ok k
      (size ≠ 0 && !noMem && (isReadEnd && (k.pipe p).ring.dataLen = 0 && (k.pipe p).writers ≠ 0))
      fun value given k' => ReadOk value given k' ∧ (value < 0 → value ≠ -1 ∧ given = []) := by
  unfold taskIpcPipeRead
  split
  · rename_i hs
    exact ⟨by simp [hs], .refl k, rfl, .inl rfl, fun h => absurd h (by decide)⟩
  rename_i hs
  split
  · rename_i he
    rw [Bool.not_eq_true'] at he
    exact ⟨by simp [he], .refl k, rfl, .inr ⟨by decide, rfl⟩, fun _ => ⟨by decide, rfl⟩⟩
  rename_i he
  split
  · rename_i hd
    obtain ⟨hlen, hring⟩ := (hk.pipe p).get (n := min size (k.pipe p).ring.dataLen) (Nat.min_le_right _ _)
    obtain ⟨hkeeps, hmode, _⟩ := keeps_ring_wake hring (wakes_wakeOneWriter (k.setPipe p { k.pipe p with
      ring := ((k.pipe p).ring.get (min size (k.pipe p).ring.dataLen)).2 }) p)
    refine ⟨by simp [Nat.ne_of_gt hd], hkeeps, hmode, .inl ?_, fun h => ?_⟩
    · exact congrArg Nat.cast hlen.symm
    · exact absurd h (Int.not_lt.mpr (Int.natCast_nonneg _))
  rename_i hd
  split
  · rename_i hw
    exact ⟨by simp [hw], .refl k, rfl, .inl rfl, fun h => absurd h (by decide)⟩
  rename_i hw
  split
  · rename_i hn
    exact ⟨by simp [hn], .refl k, rfl, .inr ⟨by decide, rfl⟩, fun _ => ⟨by decide, rfl⟩⟩
  · rename_i hn
    have he' : isReadEnd = true := by simpa using he
    exact ⟨by simp [hs, hn, he', Nat.eq_zero_of_not_pos hd, hw],
      keeps_block_setPipe rfl, rfl⟩

theorem ptyMasterRead_ok {k : Kernel} (hk : RingsOk k) (q : Nat) (size : Nat) (noMem : Bool) :
    (ptyMasterRead k q size noMem).Ok k
      (size ≠ 0 && !noMem && ((k.pty q).outputRing.dataLen = 0 && (k.pty q).slaveRefcount ≠ 0))
      fun value given k' => ReadOk value given k' ∧ (value < 0 → value ≠ -1 ∧ given = []) := by
  unfold ptyMasterRead
  split
  · rename_i hs
    exact ⟨by simp [hs], .refl k, rfl, .inl rfl, fun h => absurd h (by decide)⟩
  rename_i hs
  split
  · rename_i hd
    obtain ⟨hlen, hring⟩ := (hk.pty q).get (n := min size (k.pty q).outputRing.dataLen) (Nat.min_le_right _ _)
    have hput : Wakes k (k.setPty q { k.pty q with
        outputRing := ((k.pty q).outputRing.get (min size (k.pty q).outputRing.dataLen)).2 }) :=
      wakes_setPty fun h => ⟨hring, (get_size _ _).trans (h.ptySize q)⟩
    refine ⟨by simp [Nat.ne_of_gt hd], hput.keeps, rfl, .inl ?_, fun h => ?_⟩
    · exact congrArg Nat.cast hlen.symm
    · exact absurd h (Int.not_lt.mpr (Int.natCast_nonneg _))
  rename_i hd
  split
  · rename_i hw
    exact ⟨by simp [hw], .refl k, rfl, .inl rfl, fun h => absurd h (by decide)⟩
  rename_i hw
  split
  · rename_i hn
    exact ⟨by simp [hn], .refl k, rfl, .inr ⟨by decide, rfl⟩, fun _ => ⟨by decide, rfl⟩⟩
  · rename_i hn
    exact ⟨by simp [hs, hn, Nat.eq_zero_of_not_pos hd, hw],
      keeps_block_setPty rfl, rfl⟩

theorem length_take_room (data : List UInt8) (r : CircBuf UInt8) (h : r.dataLen < r.size) :
    (data.take (min data.length (r.size - r.dataLen))).length = min data.length (r.size - r.dataLen) ∧
      r.dataLen + (data.take (min data.length (r.size - r.dataLen))).length ≤ r.size := by
  have hlen : (data.take (min data.length (r.size - r.dataLen))).length =
      min data.length (r.size - r.dataLen) := by
    rw [List.length_take]
    omega
  refine ⟨hlen, ?_⟩
  rw [hlen]
  omega

theorem taskIpcPipeWrite_ok {k : Kernel} (hk : RingsOk k) (p : Nat) (isReadEnd : Bool)
    (data : List UInt8) (noMem : Bool) : (taskIpcPipeWrite k p isReadEnd data noMem).Ok k
      (data.length ≠ 0 && !noMem && !isReadEnd && (k.pipe p).readers ≠ 0 &&
        !((k.pipe p).ring.dataLen < (k.pipe p).ring.size))
      fun value given k' => WriteOk p k value given k' ∧ value ≠ -1 := by
  have hnone : ∀ v : Int, v ∈ [-eio, -ebadf, -enomem, -efault, -epipe] → WriteOk p k v [] k := fun v hv =>
    ⟨[], (List.append_nil _).symm, .inr ⟨hv, rfl⟩⟩
  unfold taskIpcPipeWrite
  split
  · rename_i hs
    exact ⟨by simp [hs], .refl k, rfl, ⟨[], (List.append_nil _).symm, .inl rfl⟩, by decide⟩
  rename_i hs
  split
  · rename_i he
    exact ⟨by simp [he], .refl k, rfl, hnone _ (by decide), by decide⟩
  rename_i he
  split
  · rename_i hr
    exact ⟨by simp [hr], .refl k, rfl, hnone _ (by decide), by decide⟩
  rename_i hr
  split
  · rename_i hd
    obtain ⟨hlen, hroom⟩ := length_take_room data (k.pipe p).ring hd
    obtain ⟨hc, hring⟩ := (hk.pipe p).put hroom
    obtain ⟨hkeeps, hmode, hring'⟩ := keeps_ring_wake hring (wakes_wakeOneReader (k.setPipe p { k.pipe p with
      ring := (k.pipe p).ring.put
        (data.take (min data.length ((k.pipe p).ring.size - (k.pipe p).ring.dataLen))) }) p)
    refine ⟨by simp [hd], hkeeps, hmode, ⟨data.take (min data.length ((k.pipe p).ring.size -
      (k.pipe p).ring.dataLen)), ?_, .inl ?_⟩, ?_⟩
    · exact (congrArg CircBuf.contents hring').trans hc
    · exact congrArg Nat.cast hlen.symm
    · exact fun h => absurd (Int.natCast_nonneg (min data.length _)) (by rw [h]; decide)
  rename_i hd
  split
  · rename_i hn
    exact ⟨by simp [hn], .refl k, rfl, hnone _ (by decide), by decide⟩
  · rename_i hn
    exact ⟨by simp [hs, hn, he, hr, hd], keeps_block_setPipe rfl, rfl⟩

theorem readResult_ok {k : Kernel} {waits : Bool} (f : Fails) {o : Outcome}
    (ho : o.Ok k waits fun value given k' => ReadOk value given k' ∧ (value < 0 → value ≠ -1 ∧ given = [])) :
    (readResult f o).Ok k waits ReadOk := by
  cases o with
  | sleeps k' => exact ho
  | returns n bytes k' =>
    obtain ⟨hw, hkeeps, hmode, hgood, hneg⟩ := ho
    dsimp only [readResult]
    by_cases hn : n < 0
    · rw [if_pos hn, if_neg (hneg hn).1]
      exact ⟨hw, hkeeps, hmode, (hneg hn).2 ▸ hgood⟩
    · rw [if_neg hn]
      split
      · exact ⟨hw, hkeeps, hmode, .inr ⟨by decide, rfl⟩⟩
      · exact ⟨hw, hkeeps, hmode, hgood⟩

theorem sysRead_ok {k : Kernel} (hk : RingsOk k) (h : Handle) (size : Nat) (f : Fails) :
    (sysRead k h size f).Ok k (readWaits k h size f) ReadOk := by
  unfold sysRead
  split
  · rename_i ha
    exact ⟨by simp [readWaits, ha], .refl k, rfl, .inr ⟨by decide, rfl⟩⟩
  rename_i ha
  split
  · rename_i hb
    exact ⟨by simp only [readWaits, hb]; simp, .refl k, rfl, .inr ⟨by decide, rfl⟩⟩
  rename_i hb
  cases hn : h.node with
  | pipeEnd p isReadEnd =>
    have hw : readWaits k h size f = (size ≠ 0 && !f.waiter &&
        (isReadEnd && (k.pipe p).ring.dataLen = 0 && (k.pipe p).writers ≠ 0)) := by
      simp [readWaits, ha, hb, hn]
    rw [hw]
    exact readResult_ok f (taskIpcPipeRead_ok hk p isReadEnd size f.waiter)
  | ptyMaster q =>
    have hw : readWaits k h size f = (size ≠ 0 && !f.waiter &&
        ((k.pty q).outputRing.dataLen = 0 && (k.pty q).slaveRefcount ≠ 0)) := by
      simp [readWaits, ha, hb, hn]
    rw [hw]
    exact readResult_ok f (ptyMasterRead_ok hk q size f.waiter)

theorem sysWrite_ok {k : Kernel} (hk : RingsOk k) (access : Access) (p : Nat) (isReadEnd : Bool)
    (data : List UInt8) (f : Fails) : (sysWrite k access p isReadEnd data f).Ok k
      (writeWaits k access p isReadEnd data f) (WriteOk p k) := by
  have hnone : ∀ v : Int, v ∈ [-eio, -ebadf, -enomem, -efault, -epipe] → WriteOk p k v [] k := fun v hv =>
    ⟨[], (List.append_nil _).symm, .inr ⟨hv, rfl⟩⟩
  unfold sysWrite
  split
  · rename_i ha
    exact ⟨by simp [writeWaits, ha], .refl k, rfl, hnone _ (by decide)⟩
  rename_i ha
  split
  · rename_i hb
    exact ⟨by simp only [writeWaits, hb]; simp, .refl k, rfl, hnone _ (by decide)⟩
  rename_i hb
  split
  · rename_i hc
    rw [Bool.and_eq_true] at hc
    exact ⟨by simp [writeWaits, hc.2], .refl k, rfl, hnone _ (by decide)⟩
  rename_i hc
  have hinner := taskIpcPipeWrite_ok hk p isReadEnd data f.waiter
  have hw : writeWaits k access p isReadEnd data f =
      (data.length ≠ 0 && !f.waiter && !isReadEnd && (k.pipe p).readers ≠ 0 &&
        !((k.pipe p).ring.dataLen < (k.pipe p).ring.size)) := by
    rcases Nat.eq_zero_or_pos data.length with hz | hz
    · simp [writeWaits, hz]
    · have hcopy : f.copy = false := by simpa [Nat.ne_of_gt hz] using hc
      simp [writeWaits, ha, hb, hcopy]
  rw [hw]
  cases ho : taskIpcPipeWrite k p isReadEnd data f.waiter with
  | sleeps k' =>
    rw [ho] at hinner
    exact hinner
  | returns n bytes k' =>
    rw [ho] at hinner
    obtain ⟨hwait, hkeeps, hmode, hgood, hne⟩ := hinner
    dsimp only
    by_cases hn : n < 0
    · rw [if_pos hn, if_neg hne]
      exact ⟨hwait, hkeeps, hmode, hgood⟩
    · rw [if_neg hn]
      exact ⟨hwait, hkeeps, hmode, hgood⟩

end Serotonin.Ipc
