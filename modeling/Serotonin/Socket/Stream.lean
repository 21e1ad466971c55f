import Serotonin.Socket.Liveness

/-! The bytes that go through a connected pair of stream sockets. A reader takes them out of
the ring, or has them copied into its memory by the writer that wakes it: what the reads
delivered and what is still in the ring are, in order, what the writes accepted. -/

namespace Serotonin.Socket

open Function List
open Ipc (RingOk get_size)

/-- What a read that ended put into the memory of its task. -/
def Event.deliver (e : Event) (mem : Nat → UInt8) : Nat → UInt8 :=
  match e.call with
  | .read _ buf _ => storeUser mem buf e.bytes
  | _ => mem

def delivered (t : Tid) : List Event → (Nat → UInt8) → Nat → UInt8
  | [], mem => mem
  | e :: es, mem => delivered t es (if e.task = t then e.deliver mem else mem)

def Event.received (s : Sid) (e : Event) : List UInt8 :=
  match e.call with
  | .read s' _ _ => if s' = s then e.bytes else []
  | _ => []

def Event.accepted (s : Sid) (e : Event) : List UInt8 :=
  match e.call with
  | .write s' data => if s' = s then data.take e.value.toNat else []
  | _ => []

/-- The bytes that reads on `s` were given. -/
def received (s : Sid) (es : List Event) : List UInt8 := es.flatMap (Event.received s)

/-- The bytes that writes on `s` have got rid of. -/
def accepted (s : Sid) (es : List Event) : List UInt8 := es.flatMap (Event.accepted s)

/-- The result of a read is the number of bytes it was given, or an error and no bytes. -/
def Event.Counted (e : Event) : Prop :=
  ∀ s buf size, e.call = .read s buf size → (e.bytes.length : Int) = max e.value 0 ∧ e.bytes.length ≤ size

theorem delivered_append (t : Tid) (es es' : List Event) : ∀ mem, delivered t (es ++ es') mem =
    delivered t es' (delivered t es mem) := by
  induction es with
  | nil => intro mem; rfl
  | cons e es ih => intro mem; exact ih _

theorem received_append (s : Sid) (es es' : List Event) :
    received s (es ++ es') = received s es ++ received s es' := flatMap_append

theorem accepted_append (s : Sid) (es es' : List Event) :
    accepted s (es ++ es') = accepted s es ++ accepted s es' := flatMap_append

theorem received_single (s : Sid) (e : Event) : received s [e] = e.received s := flatMap_singleton ..

theorem accepted_single (s : Sid) (e : Event) : accepted s [e] = e.accepted s := flatMap_singleton ..

/-! ## User memory -/

theorem storeUser_nil (mem : Nat → UInt8) (addr : Nat) : storeUser mem addr [] = mem := by
  funext a
  simp [storeUser]

/-- Two stores side by side are one. -/
theorem storeUser_append (mem : Nat → UInt8) (addr : Nat) (xs ys : List UInt8) :
    storeUser (storeUser mem addr xs) (addr + xs.length) ys = storeUser mem addr (xs ++ ys) := by
  funext a
  unfold storeUser
  by_cases ha : addr ≤ a
  · by_cases hb : addr + xs.length ≤ a
    · have hget : (xs ++ ys)[a - addr]? = ys[a - (addr + xs.length)]? := by
        rw [List.getElem?_append_right (by omega)]
        congr 1
        omega
      have hout : xs[a - addr]? = none := List.getElem?_eq_none (by omega)
      simp [ha, hb, hget, hout]
    · have hget : (xs ++ ys)[a - addr]? = xs[a - addr]? := List.getElem?_append_left (by omega)
      simp [ha, hb, hget]
  · have hb : ¬addr + xs.length ≤ a := by omega
    simp [ha, hb]

/-- The chunks that are copied out of the ring are its first `n` bytes. -/
theorem copyOut_spec : ∀ (k : Nat) {r : CircBuf UInt8} {n : Nat} (mem : Nat → UInt8) (addr : Nat), RingOk r →
    n ≤ r.dataLen → n ≤ k → ∃ r' bytes, copyOut r mem addr k n = (r', storeUser mem addr bytes, bytes) ∧
      bytes.length = n ∧ r.contents = bytes ++ r'.contents ∧ RingOk r' ∧ r'.size = r.size := by
  intro k
  induction k with
  | zero =>
    intro r n mem addr hr _ hk
    have hn : n = 0 := Nat.le_zero.mp hk
    refine ⟨r, [], ?_, hn.symm, rfl, hr, rfl⟩
    rw [storeUser_nil]
    rfl
  | succ k ih =>
    intro r n mem addr hr hn hk
    by_cases hz : n = 0
    · refine ⟨r, [], ?_, hz.symm, rfl, hr, rfl⟩
      rw [storeUser_nil]
      unfold copyOut
      rw [if_pos hz]
    · have hchunk : min n 256 ≤ r.dataLen := Nat.le_trans (Nat.min_le_left n 256) hn
      obtain ⟨hc, -, -⟩ := CircBuf.contents_get hr.valid hr.readPos hchunk
      obtain ⟨hlen, hring⟩ := hr.get hchunk
      have hdata : (r.get (min n 256)).2.dataLen = r.dataLen - min n 256 := rfl
      obtain ⟨r', more, heq, hmore, hrest, hok, hsize⟩ := ih (storeUser mem addr (r.get (min n 256)).1)
        (addr + min n 256) hring (n := n - min n 256) (by omega) (by omega)
      refine ⟨r', (r.get (min n 256)).1 ++ more, ?_, ?_, ?_, hok, hsize.trans (get_size _ _)⟩
      · have hstore := storeUser_append mem addr (r.get (min n 256)).1 more
        rw [hlen] at hstore
        unfold copyOut
        rw [if_neg hz, ← hstore]
        dsimp only
        rw [heq]
      · rw [length_append, hlen, hmore]
        omega
      · rw [append_assoc, ← hrest]
        exact hc

/-! ## What an operation notes -/

/-- The calls that have ended, with what they returned and what they put into memory. -/
structure Notes (k k' : Kernel) (es : List Event) : Prop where
  history : k'.history = k.history ++ es
  mem : ∀ t, (k'.task t).mem = delivered t es (k.task t).mem
  counted : ∀ e ∈ es, e.Counted

theorem Notes.nothing {k k' : Kernel} (hh : k'.history = k.history) (hm : ∀ t, (k'.task t).mem = (k.task t).mem) :
    Notes k k' [] :=
  ⟨hh.trans (append_nil _).symm, hm, fun _ he => nomatch he⟩

theorem Notes.trans {k l m : Kernel} {es es' : List Event} (h : Notes k l es) (h' : Notes l m es') :
    Notes k m (es ++ es') where
  history := by rw [h'.history, h.history, append_assoc]
  mem t := by rw [delivered_append, h'.mem, h.mem]
  counted e he := (mem_append.mp he).elim (h.counted e) (h'.counted e)

theorem mem_modifyTask (k : Kernel) (t : Tid) {f : Task → Task} (hf : (f (k.task t)).mem = (k.task t).mem) (u : Tid) :
    ((k.modifyTask t f).task u).mem = (k.task u).mem := by
  by_cases hu : u = t
  · rw [hu]
    exact (congrArg Task.mem (update_self ..)).trans hf
  · exact congrArg Task.mem (task_modifyTask_of_ne k f hu)

theorem notes_modifyTask (k : Kernel) (t : Tid) {f : Task → Task} (hf : (f (k.task t)).mem = (k.task t).mem) :
    Notes k (k.modifyTask t f) [] := .nothing rfl (mem_modifyTask k t hf)

theorem mem_taskUnblock (k : Kernel) (t : Tid) (bytes : List UInt8) (u : Tid) :
    ((taskUnblock k t bytes).task u).mem = (k.task u).mem := by
  unfold taskUnblock
  split
  · exact mem_modifyTask k t (f := fun x => { x with blocked := false, inCall := none }) rfl u
  · rfl

/-- Nothing was read and nothing written. -/
def Silent (es : List Event) : Prop := ∀ s, received s es = [] ∧ accepted s es = []

theorem silent_nil : Silent [] := fun _ => ⟨rfl, rfl⟩

/-- A writer that is woken has written nothing. -/
theorem sockWakeOne_write {k : Kernel} (h : WaitOk k) (s : Sid) :
    ∃ es, Notes k (sockWakeOne k s .write) es ∧ Silent es := by
  unfold sockWakeOne
  split
  · exact ⟨[], .nothing rfl fun _ => rfl, silent_nil⟩
  · rename_i w ws hq
    obtain ⟨hb, c, hc, s', data, rfl⟩ := h.waits s .write w (by rw [hq]; exact mem_cons_self)
    refine ⟨[⟨w.task, .write s' data, 0, []⟩], ⟨history_wake (k := k.setWaiters s .write ws) hb hc, fun u => ?_, fun e he => ?_⟩, fun x => ⟨?_, ?_⟩⟩
    · have hmem := mem_modifyTask (k.setWaiters s .write ws) w.task (f := fun x => { x with eax := 0 }) rfl u
      unfold wake
      rw [mem_taskUnblock]
      refine hmem.trans ?_
      unfold delivered
      by_cases hu : w.task = u
      · rw [if_pos hu]; rfl
      · rw [if_neg hu]; rfl
    · rw [mem_singleton.mp he]
      intro s₁ buf size hcall
      cases hcall
    · rw [received_single]
      rfl
    · rw [accepted_single]
      show (if s' = x then data.take 0 else []) = []
      rw [take_zero, ite_self]

theorem ring_sockWakeOne (k : Kernel) (s : Sid) (q : Queue) (x : Sid) :
    ((sockWakeOne k s q).sock x).ring = (k.sock x).ring := by
  unfold sockWakeOne
  split
  · rfl
  · rename_i w ws _
    rw [sock_wake]
    exact sock_modify_field Sock.ring rfl x

/-! ## What an operation does to the rings -/

/-- Behind what the ring of `s` held, `put` was added; what was given to readers is gone from
its front. No other ring has changed. -/
structure Flow (k k' : Kernel) (s : Sid) (put : List UInt8) (es : List Event) : Prop extends Notes k k' es where
  contents : (k.sock s).ring.contents ++ put = received s es ++ (k'.sock s).ring.contents
  ok : RingOk (k'.sock s).ring
  other : ∀ x, x ≠ s → (k'.sock x).ring = (k.sock x).ring ∧ received x es = []
  written : ∀ x, accepted x es = []

theorem ring_setRing (k : Kernel) (s : Sid) (r : CircBuf UInt8) : ((k.setRing s r).sock s).ring = r := by
  unfold Kernel.setRing
  rw [sock_modify_self]

theorem ring_setRing_of_ne (k : Kernel) {s x : Sid} (r : CircBuf UInt8) (h : x ≠ s) :
    ((k.setRing s r).sock x).ring = (k.sock x).ring := by
  unfold Kernel.setRing
  rw [sock_modify_of_ne k _ h]

theorem ring_setWaiters (k : Kernel) (s : Sid) (q : Queue) (ws : List Waiter) (x : Sid) :
    ((k.setWaiters s q ws).sock x).ring = (k.sock x).ring := sock_modify_field Sock.ring rfl x

/-- The writer serves the reader that has waited longest, out of the ring. -/
theorem sockReadWakeOne_flow {k : Kernel} (h : WaitOk k) {s : Sid} (hr : RingOk (k.sock s).ring) :
    ∃ es, Flow k (sockReadWakeOne k s) s [] es := by
  unfold sockReadWakeOne
  split
  · exact ⟨[], .nothing rfl fun _ => rfl, append_nil _, hr, fun _ _ => ⟨rfl, rfl⟩, fun _ => rfl⟩
  rename_i w ws hq
  obtain ⟨hb, c, hc, rfl, hsize⟩ := h.waits s .read w (by rw [hq]; exact mem_cons_self)
  have hring : ((k.setWaiters s .read ws).sock s).ring = (k.sock s).ring := ring_setWaiters k s .read ws s
  dsimp only
  rw [hring]
  split
  · -- the bytes are copied into the memory of the reader
    obtain ⟨r, bytes, hcopy, hlen, hcontents, hok, -⟩ := copyOut_spec (min w.bufSize (k.sock s).ring.dataLen)
      ((k.setWaiters s .read ws).task w.task).mem w.userBuf hr (Nat.min_le_right ..) (Nat.le_refl _)
    rw [hcopy]
    dsimp only
    have hself : ((((k.setWaiters s .read ws).setRing s r).modifyTask w.task fun x => { x with
        mem := storeUser ((k.setWaiters s .read ws).task w.task).mem w.userBuf bytes
        eax := (min w.bufSize (k.sock s).ring.dataLen : Nat) }).task w.task) = { k.task w.task with
        mem := storeUser (k.task w.task).mem w.userBuf bytes
        eax := (min w.bufSize (k.sock s).ring.dataLen : Nat) } := update_self ..
    have hhist := history_taskUnblock bytes (c := (.read s w.userBuf w.bufSize, s, .read))
      (by rw [hself]; exact hb) (by rw [hself]; exact hc)
    rw [hself] at hhist
    refine ⟨[⟨w.task, .read s w.userBuf w.bufSize, (min w.bufSize (k.sock s).ring.dataLen : Nat), bytes⟩],
      ⟨hhist, fun u => ?_, fun e he => ?_⟩, ?_, ?_, fun x hx => ⟨?_, ?_⟩, fun x => rfl⟩
    · rw [mem_taskUnblock]
      unfold delivered
      by_cases hu : w.task = u
      · rw [if_pos hu, ← hu, hself]
        rfl
      · rw [if_neg hu, task_modifyTask_of_ne _ _ (Ne.symm hu)]
        rfl
    · rw [mem_singleton.mp he]
      intro s' buf size hcall
      cases hcall
      dsimp only
      omega
    · rw [received_single, append_nil, sock_taskUnblock]
      show _ = (if s = s then bytes else []) ++ (((k.setWaiters s .read ws).setRing s r).sock s).ring.contents
      rw [if_pos rfl, ring_setRing]
      exact hcontents
    · rw [sock_taskUnblock]
      show RingOk (((k.setWaiters s .read ws).setRing s r).sock s).ring
      rw [ring_setRing]
      exact hok
    · rw [sock_taskUnblock]
      exact (ring_setRing_of_ne _ r hx).trans (ring_setWaiters k s .read ws x)
    · rw [received_single]
      exact if_neg (Ne.symm hx)
  · -- without a buffer the reader is woken with nothing
    have hhist := history_wake (k := k.setWaiters s .read ws) (w := w) hb hc
    refine ⟨[⟨w.task, .read s w.userBuf w.bufSize, 0, []⟩], ⟨hhist, fun u => ?_, fun e he => ?_⟩, ?_, ?_,
      fun x hx => ⟨?_, ?_⟩, fun x => rfl⟩
    · rw [mem_taskUnblock]
      refine (mem_modifyTask (k.setWaiters s .read ws) w.task (f := fun x => { x with eax := 0 }) rfl u).trans ?_
      unfold delivered
      by_cases hu : w.task = u
      · rw [if_pos hu]
        exact (storeUser_nil _ _).symm
      · rw [if_neg hu]
        rfl
    · rw [mem_singleton.mp he]
      intro s' buf size hcall
      exact ⟨rfl, Nat.zero_le _⟩
    · rw [received_single, append_nil, sock_taskUnblock]
      show _ = (if s = s then [] else []) ++ ((k.setWaiters s .read ws).sock s).ring.contents
      rw [ite_self, hring]
      rfl
    · rw [sock_taskUnblock]
      show RingOk ((k.setWaiters s .read ws).sock s).ring
      rw [hring]
      exact hr
    · rw [sock_taskUnblock]
      exact ring_setWaiters k s .read ws x
    · rw [received_single]
      exact if_neg (Ne.symm hx)

theorem Flow.nothing {k k' : Kernel} {s : Sid} (hr : RingOk (k.sock s).ring)
    (hrings : ∀ x, (k'.sock x).ring = (k.sock x).ring) (hn : Notes k k' []) : Flow k k' s [] [] where
  toNotes := hn
  contents := by
    rw [hrings s, append_nil]
    rfl
  ok := by
    rw [hrings s]
    exact hr
  other x _ := ⟨hrings x, rfl⟩
  written _ := rfl

theorem ring_waitOn (k : Kernel) (s : Sid) (q : Queue) (w : Waiter) (c : Call) (x : Sid) :
    ((waitOn k s q w c).sock x).ring = (k.sock x).ring := ring_setWaiters k s q _ x

theorem notes_waitOn (k : Kernel) (s : Sid) (q : Queue) (w : Waiter) (c : Call) : Notes k (waitOn k s q w c) [] :=
  .nothing rfl (mem_modifyTask (k.setWaiters s q _) w.task
    (f := fun x => { x with blocked := true, inCall := some (c, s, q) }) rfl)

theorem sameWaits_setRing (k : Kernel) (s : Sid) (r : CircBuf UInt8) : SameWaits k (k.setRing s r) :=
  sameWaits_modify k s rfl

/-- A read that has ended has taken `bytes` from the front of the ring. -/
structure Taken (k k' : Kernel) (s : Sid) (size : Nat) (n : Int) (bytes : List UInt8) (es : List Event) : Prop
    extends Notes k k' es where
  silent : Silent es
  contents : (k.sock s).ring.contents = bytes ++ (k'.sock s).ring.contents
  ok : RingOk (k'.sock s).ring
  other : ∀ x, x ≠ s → (k'.sock x).ring = (k.sock x).ring
  count : (bytes.length : Int) = max n 0
  le : bytes.length ≤ size

def Outcome.Reads (k : Kernel) (s : Sid) (size : Nat) : Outcome → Prop
  | .returns n bytes k' => WaitOk k' ∧ ∃ es, Taken k k' s size n bytes es
  | .sleeps k' => WaitOk k' ∧ Flow k k' s [] []

theorem Taken.nothing {k : Kernel} {s : Sid} (hr : RingOk (k.sock s).ring) (size : Nat) {n : Int} (hn : n ≤ 0) :
    Taken k k s size n [] [] where
  toNotes := .nothing rfl fun _ => rfl
  silent := silent_nil
  contents := rfl
  ok := hr
  other _ _ := rfl
  count := (max_eq_right hn).symm
  le := Nat.zero_le _

theorem taskIpcUnixSocketRead_reads {k : Kernel} (h : WaitOk k) {t : Tid} (ht : (k.task t).blocked = false) {s : Sid}
    (hr : RingOk (k.sock s).ring) (size : Nat) (noMem : Bool) :
    (taskIpcUnixSocketRead k t s size noMem).Reads k s size := by
  have hnone : ∀ e : Nat, WaitOk k ∧ ∃ es, Taken k k s size (-(e : Int)) [] es := fun e =>
    ⟨h, [], .nothing hr size (Int.neg_nonpos_of_nonneg (Int.natCast_nonneg e))⟩
  unfold taskIpcUnixSocketRead
  split
  · exact hnone 0
  rename_i hsize
  split
  · exact hnone 128
  split
  · -- the ring has data
    have hn : min size (k.sock s).ring.dataLen ≤ (k.sock s).ring.dataLen := Nat.min_le_right ..
    obtain ⟨hc, -, -⟩ := CircBuf.contents_get hr.valid hr.readPos hn
    obtain ⟨hlen, hok⟩ := hr.get hn
    dsimp only
    generalize (k.sock s).ring.get (min size (k.sock s).ring.dataLen) = got at hc hlen hok ⊢
    obtain ⟨bytes, r⟩ := got
    dsimp only at hc hlen hok ⊢
    have hwaits : WaitOk (k.setRing s r) := h.same (sameWaits_setRing k s r)
    obtain ⟨es, hnotes, hsilent⟩ := sockWakeOne_write hwaits s
    refine ⟨hwaits.sockWakeOne s .write, es, ⟨?_, hnotes.mem, hnotes.counted⟩, hsilent, ?_, ?_, fun x hx => ?_, ?_, ?_⟩
    · exact hnotes.history
    · rw [ring_sockWakeOne, ring_setRing]
      exact hc
    · rw [ring_sockWakeOne, ring_setRing]
      exact hok
    · rw [ring_sockWakeOne, ring_setRing_of_ne k r hx]
    · rw [hlen]
      exact (max_eq_left (Int.natCast_nonneg _)).symm
    · rw [hlen]
      exact Nat.min_le_left ..
  split
  · exact hnone 0
  split
  · exact hnone 12
  · exact ⟨h.waitOn ht ⟨rfl, hsize⟩, .nothing hr (ring_waitOn k s .read _ _) (notes_waitOn k s .read _ _)⟩

/-- The bytes of a read go into the memory of its task, and the call is noted. -/
theorem finish_readResult (t : Tid) (s : Sid) (buf size : Nat) {n : Int} {bytes : List UInt8} {k k' : Kernel}
    (hcount : (bytes.length : Int) = max n 0)
    (hk : finish t (.read s buf size) (readResult t buf false (.returns n bytes k)) = k') :
    k'.history = k.history ++ [⟨t, .read s buf size, n, bytes⟩] ∧ k'.sock = k.sock ∧ SameWaits k k' ∧
      ∀ u, (k'.task u).mem = delivered u [⟨t, .read s buf size, n, bytes⟩] (k.task u).mem := by
  unfold readResult at hk
  dsimp only at hk
  by_cases hn : n ≤ 0
  · have hempty : bytes = [] := by
      rw [max_eq_right hn] at hcount
      exact eq_nil_of_length_eq_zero (by omega)
    rw [if_pos hn, hempty.symm] at hk
    subst hk
    refine ⟨rfl, rfl, ⟨fun _ => rfl, fun _ => rfl, fun _ => rfl⟩, fun u => ?_⟩
    unfold delivered
    by_cases hu : t = u
    · rw [if_pos hu, hempty]
      exact (storeUser_nil _ _).symm
    · rw [if_neg hu]
      rfl
  · rw [if_neg hn, if_neg (by decide)] at hk
    subst hk
    have hsame := sameWaits_modifyTask k t (f := fun x => { x with mem := storeUser x.mem buf bytes }) rfl rfl
    refine ⟨rfl, rfl, ⟨hsame.waiters, hsame.blocked, hsame.inCall⟩, fun u => ?_⟩
    unfold delivered
    by_cases hu : t = u
    · subst hu
      rw [if_pos rfl]
      exact congrArg Task.mem (task_modifyTask_self k t fun x => { x with mem := storeUser x.mem buf bytes })
    · rw [if_neg hu]
      exact congrArg Task.mem (task_modifyTask_of_ne k (fun x => { x with mem := storeUser x.mem buf bytes })
        (Ne.symm hu))

/-- A read, from the call to its end or until the task sleeps. -/
theorem Outcome.Reads.finish {k : Kernel} {s : Sid} {size : Nat} {o : Outcome} (ho : o.Reads k s size) (t : Tid)
    (buf : Nat) : WaitOk (finish t (.read s buf size) (readResult t buf false o)) ∧
      ∃ es, Flow k (finish t (.read s buf size) (readResult t buf false o)) s [] es := by
  cases o with
  | sleeps k' => exact ⟨ho.1, [], ho.2⟩
  | returns n bytes k' =>
    obtain ⟨hw, es, htaken⟩ := ho
    obtain ⟨hhist, hsock, hsame, hmem⟩ := finish_readResult t s buf size htaken.count rfl
    generalize Socket.finish t (.read s buf size) (readResult t buf false (.returns n bytes k')) = l
      at hhist hsock hsame hmem ⊢
    refine ⟨hw.same hsame, es ++ [⟨t, .read s buf size, n, bytes⟩], ⟨?_, fun u => ?_, fun e he => ?_⟩, ?_, ?_,
      fun x hx => ⟨?_, ?_⟩, fun x => ?_⟩
    · rw [hhist, htaken.history, append_assoc]
    · rw [delivered_append, ← htaken.mem u]
      exact hmem u
    · rcases mem_append.mp he with he | he
      · exact htaken.counted e he
      · rw [mem_singleton.mp he]
        intro s' buf' size' hcall
        cases hcall
        exact ⟨htaken.count, htaken.le⟩
    · rw [received_append, (htaken.silent s).1, received_single, hsock, htaken.contents, append_nil]
      show _ = [] ++ (if s = s then bytes else []) ++ _
      rw [if_pos rfl, nil_append]
    · rw [hsock]
      exact htaken.ok
    · rw [hsock]
      exact htaken.other x hx
    · rw [received_append, (htaken.silent x).1, received_single]
      exact if_neg (Ne.symm hx)
    · rw [accepted_append, (htaken.silent x).2, accepted_single]
      rfl

/-! ## Writing -/

def Outcome.Writes (k : Kernel) (p : Sid) (data : List UInt8) : Outcome → Prop
  | .returns n bytes k' => bytes = [] ∧ WaitOk k' ∧ ∃ es, Flow k k' p (data.take n.toNat) es
  | .sleeps k' => WaitOk k' ∧ Flow k k' p [] []

theorem Flow.setRing {k k' : Kernel} {s : Sid} {r : CircBuf UInt8} {put : List UInt8} {es : List Event}
    (hc : r.contents = (k.sock s).ring.contents ++ put) (h : Flow (k.setRing s r) k' s [] es) :
    Flow k k' s put es where
  history := h.history
  mem := h.mem
  counted := h.counted
  contents := by
    have hcontents := h.contents
    rw [ring_setRing, append_nil, hc] at hcontents
    exact hcontents
  ok := h.ok
  other x hx := by
    obtain ⟨hring, hreceived⟩ := h.other x hx
    exact ⟨hring.trans (ring_setRing_of_ne k r hx), hreceived⟩
  written := h.written

theorem taskIpcUnixSocketWrite_writes {k : Kernel} (h : WaitOk k) {t : Tid} (ht : (k.task t).blocked = false)
    {s p : Sid} (htype : (k.sock s).type = .stream) (hp : (k.sock s).peer = some p) (hr : RingOk (k.sock p).ring)
    (data : List UInt8) (noMem : Bool) : (taskIpcUnixSocketWrite k t s data noMem).Writes k p data := by
  have hnone : ∀ e : Nat, ([] : List UInt8) = [] ∧ WaitOk k ∧ ∃ es, Flow k k p (data.take (-(e : Int)).toNat) es := by
    intro e
    rw [Int.toNat_neg_natCast, take_zero]
    exact ⟨rfl, h, [], .nothing hr (fun _ => rfl) (.nothing rfl fun _ => rfl)⟩
  unfold taskIpcUnixSocketWrite
  rw [htype, hp]
  split
  · exact hnone 0
  dsimp only
  split
  · exact hnone 128
  split
  · exact hnone 32
  split
  · -- there is room in the ring
    generalize hput : data.take (min data.length ((k.sock p).ring.size - (k.sock p).ring.dataLen)) = put
    have hlen : (k.sock p).ring.dataLen + put.length ≤ (k.sock p).ring.size := by
      rw [← hput, length_take]
      omega
    obtain ⟨hc, hok⟩ := hr.put hlen
    have hwaits : WaitOk (k.setRing p ((k.sock p).ring.put put)) := h.same (sameWaits_setRing k p _)
    obtain ⟨es, hflow⟩ := sockReadWakeOne_flow hwaits (s := p) (by rw [ring_setRing]; exact hok)
    refine ⟨rfl, hwaits.sockReadWakeOne p, es, ?_⟩
    rw [Int.toNat_natCast, hput]
    exact Flow.setRing hc hflow
  split
  · exact hnone 12
  · exact ⟨h.waitOn ht ⟨s, data, rfl⟩, .nothing hr (ring_waitOn k p .write _ _) (notes_waitOn k p .write _ _)⟩

/-- A write, from the call to its end or until the task sleeps. -/
theorem Outcome.Writes.finish {k : Kernel} {p : Sid} {data : List UInt8} {o : Outcome} (ho : o.Writes k p data)
    (t : Tid) (s : Sid) : WaitOk (finish t (.write s data) o) ∧ ∃ es,
      Notes k (finish t (.write s data) o) es ∧ RingOk ((finish t (.write s data) o).sock p).ring ∧
      (k.sock p).ring.contents ++ accepted s es =
        received p es ++ ((finish t (.write s data) o).sock p).ring.contents ∧
      (∀ x, x ≠ p → ((finish t (.write s data) o).sock x).ring = (k.sock x).ring ∧ received x es = []) ∧
      ∀ x, x ≠ s → accepted x es = [] := by
  cases o with
  | sleeps k' => exact ⟨ho.1, [], ho.2.toNotes, ho.2.ok, ho.2.contents, ho.2.other, fun _ _ => rfl⟩
  | returns n bytes k' =>
    obtain ⟨rfl, hw, es, hflow⟩ := ho
    have hreceived : ∀ x, received x (es ++ [⟨t, .write s data, n, []⟩]) = received x es := by
      intro x
      rw [received_append, received_single]
      exact append_nil _
    have haccepted : ∀ x, accepted x (es ++ [⟨t, .write s data, n, []⟩]) = if s = x then data.take n.toNat else [] := by
      intro x
      rw [accepted_append, hflow.written, accepted_single]
      rfl
    refine ⟨hw.same ⟨fun _ => rfl, fun _ => rfl, fun _ => rfl⟩, es ++ [⟨t, .write s data, n, []⟩], ⟨?_, fun u => ?_,
      fun e he => ?_⟩, hflow.ok, ?_, fun x hx => ?_, fun x hx => ?_⟩
    · rw [finish_history, hflow.history, append_assoc]
    · rw [delivered_append, ← hflow.mem u]
      unfold delivered
      by_cases hu : t = u
      · rw [if_pos hu]
        rfl
      · rw [if_neg hu]
        rfl
    · rcases mem_append.mp he with he | he
      · exact hflow.counted e he
      · rw [mem_singleton.mp he]
        intro s' buf size hcall
        cases hcall
    · rw [hreceived, haccepted, if_pos rfl]
      exact hflow.contents
    · rw [hreceived]
      exact hflow.other x hx
    · rw [haccepted, if_neg (Ne.symm hx)]

/-! ## System calls -/

theorem Outcome.Reads.setUserBuf {k : Kernel} (t : Tid) (buf : Nat) {s : Sid} {size : Nat} {o : Outcome}
    (ho : o.Reads (setUserBuf k t buf) s size) : o.Reads k s size := by
  have hbuf : Notes k (Socket.setUserBuf k t buf) [] := notes_modifyTask k t rfl
  cases o with
  | sleeps k' =>
    obtain ⟨hw, hflow⟩ := ho
    exact ⟨hw, hbuf.trans hflow.toNotes, hflow.contents, hflow.ok, hflow.other, hflow.written⟩
  | returns n bytes k' =>
    obtain ⟨hw, es, htaken⟩ := ho
    exact ⟨hw, es, hbuf.trans htaken.toNotes, htaken.silent, htaken.contents, htaken.ok, htaken.other, htaken.count,
      htaken.le⟩

theorem waitOk_setUserBuf {k : Kernel} (h : WaitOk k) (t : Tid) (buf : Nat) : WaitOk (setUserBuf k t buf) :=
  h.same (sameWaits_modifyTask k t rfl rfl)

theorem blocked_setUserBuf {k : Kernel} {t : Tid} (ht : (k.task t).blocked = false) (buf : Nat) :
    ((setUserBuf k t buf).task t).blocked = false :=
  (congrArg Task.blocked (task_modifyTask_self k t fun x => { x with userBuf := buf })).trans ht

theorem sysRecv_reads {k : Kernel} (h : WaitOk k) {t : Tid} (ht : (k.task t).blocked = false) {s : Sid}
    (hr : RingOk (k.sock s).ring) {buf len : Nat} (hbuf : ¬outsideUser buf len) {f : Fails} (hf : f.copy = false) :
    ∃ o, o.Reads k s len ∧ sysRecv k t s buf len f = readResult t buf false o := by
  unfold sysRecv
  rw [if_neg hbuf]
  split
  · refine ⟨.returns (-enomem) [] (setUserBuf k t buf), Outcome.Reads.setUserBuf t buf
      ⟨waitOk_setUserBuf h t buf, [], ?_⟩, rfl⟩
    exact Taken.nothing (k := setUserBuf k t buf) hr len (n := -enomem) (by decide)
  · rw [hf]
    exact ⟨_, (taskIpcUnixSocketRead_reads (waitOk_setUserBuf h t buf) (blocked_setUserBuf ht buf) hr len
      f.waiter).setUserBuf t buf, rfl⟩

theorem sysRead_reads {k : Kernel} (h : WaitOk k) {t : Tid} (ht : (k.task t).blocked = false) {s : Sid}
    (hr : RingOk (k.sock s).ring) (buf len : Nat) {f : Fails} (hf : f.copy = false) :
    ∃ o, o.Reads k s len ∧ sysRead k t s buf len f = readResult t buf false o := by
  unfold sysRead
  split
  · exact ⟨.returns (-enomem) [] k, ⟨h, [], Taken.nothing hr len (n := -enomem) (by decide)⟩, rfl⟩
  · rw [hf]
    exact ⟨_, (taskIpcUnixSocketRead_reads (waitOk_setUserBuf h t buf) (blocked_setUserBuf ht buf) hr len
      f.waiter).setUserBuf t buf, rfl⟩

/-- Each of the sockets has the other as its peer. -/
structure Faces (k : Kernel) (a b : Sid) : Prop where
  type : (k.sock a).type = .stream
  state : (k.sock a).state = .connected
  peer : (k.sock a).peer = some b

theorem Faces.quiet {k k' : Kernel} {a b : Sid} (h : Faces k a b) (hq : Quiet k k') : Faces k' a b :=
  ⟨(hq.type a).trans h.type, (hq.state a).trans h.state, (hq.peer a).trans h.peer⟩

theorem writes_error {k : Kernel} (h : WaitOk k) {p : Sid} (hr : RingOk (k.sock p).ring) (data : List UInt8) (e : Nat) :
    (Outcome.returns (-(e : Int)) [] k).Writes k p data := by
  refine ⟨rfl, h, [], ?_⟩
  rw [Int.toNat_neg_natCast, take_zero]
  exact .nothing hr (fun _ => rfl) (.nothing rfl fun _ => rfl)

theorem sysSend_writes {k : Kernel} (h : WaitOk k) {t : Tid} (ht : (k.task t).blocked = false) {s p : Sid}
    (hs : Faces k s p) (hr : RingOk (k.sock p).ring) (buf : Nat) (data : List UInt8) (f : Fails) :
    (sysSend k t s buf data f).Writes k p data := by
  unfold sysSend
  split
  · exact writes_error h hr data 14
  split
  · exact writes_error h hr data 12
  split
  · exact writes_error h hr data 14
  · exact taskIpcUnixSocketWrite_writes h ht hs.type hs.peer hr data f.waiter

theorem sysWrite_writes {k : Kernel} (h : WaitOk k) {t : Tid} (ht : (k.task t).blocked = false) {s p : Sid}
    (hs : Faces k s p) (hr : RingOk (k.sock p).ring) (data : List UInt8) (f : Fails) :
    (sysWrite k t s data f).Writes k p data := by
  unfold sysWrite
  split
  · exact writes_error h hr data 12
  split
  · exact writes_error h hr data 14
  · exact taskIpcUnixSocketWrite_writes h ht hs.type hs.peer hr data f.waiter

/-! ## Runs -/

/-- A pair of stream sockets through which nothing has gone yet. -/
structure Connected (a b : Sid) (k : Kernel) : Prop where
  ne : a ≠ b
  left : Faces k a b
  right : Faces k b a
  rings : ∀ s, s = a ∨ s = b → RingOk (k.sock s).ring ∧ (k.sock s).ring.dataLen = 0
  waits : WaitOk k

/-- A read or a write on one of the sockets, the buffer of a read being mapped; or a descriptor
is shared with another task. -/
def Traffic (k : Kernel) (a b : Sid) (t : Tid) : Op → Prop
  | .recv fd buf len f | .read fd buf len f =>
    (sockFromFd k t fd = some a ∨ sockFromFd k t fd = some b) ∧ ¬outsideUser buf len ∧ f.copy = false
  | .send fd _ _ _ | .write fd _ _ => sockFromFd k t fd = some a ∨ sockFromFd k t fd = some b
  | .share _ _ _ => True
  | _ => False

instance (k : Kernel) (a b : Sid) (t : Tid) : (op : Op) → Decidable (Traffic k a b t op)
  | .recv _ _ _ _ | .read _ _ _ _ => inferInstanceAs (Decidable (_ ∧ _ ∧ _))
  | .send _ _ _ _ | .write _ _ _ => inferInstanceAs (Decidable (_ ∨ _))
  | .share _ _ _ => .isTrue trivial
  | .socket _ _ _ _ | .bind _ _ | .listen _ _ | .accept _ _ _ _ | .connect _ _ _ _ _ |
    .socketpair _ _ _ _ _ _ _ | .shutdown _ | .close _ => .isFalse id

def StreamStep (a b : Sid) (k k' : Kernel) : Prop := ∃ t op, Traffic k a b t op ∧ step k t op = some k'

/-- What has gone through the pair since the state `k₀`. -/
structure StreamInv (k₀ : Kernel) (a b : Sid) (k : Kernel) (es : List Event) : Prop extends Notes k₀ k es where
  ne : a ≠ b
  left : Faces k a b
  right : Faces k b a
  ringA : RingOk (k.sock a).ring
  ringB : RingOk (k.sock b).ring
  waits : WaitOk k
  fromA : received b es ++ (k.sock b).ring.contents = accepted a es
  fromB : received a es ++ (k.sock a).ring.contents = accepted b es

namespace StreamInv

variable {k₀ k k' : Kernel} {a b : Sid} {es : List Event}

theorem symm (h : StreamInv k₀ a b k es) : StreamInv k₀ b a k es where
  toNotes := h.toNotes
  ne := h.ne.symm
  left := h.right
  right := h.left
  ringA := h.ringB
  ringB := h.ringA
  waits := h.waits
  fromA := h.fromB
  fromB := h.fromA

theorem start (h : Connected a b k) : StreamInv k a b k [] where
  toNotes := .nothing rfl fun _ => rfl
  ne := h.ne
  left := h.left
  right := h.right
  ringA := (h.rings a (.inl rfl)).1
  ringB := (h.rings b (.inr rfl)).1
  waits := h.waits
  fromA := CircBuf.contents_eq_nil (h.rings b (.inr rfl)).2
  fromB := CircBuf.contents_eq_nil (h.rings a (.inl rfl)).2

/-- A call on the socket `a`. -/
theorem advance {es' : List Event} (h : StreamInv k₀ a b k es) (hq : Quiet k k') (hw : WaitOk k') (hn : Notes k k' es')
    (ha : RingOk (k'.sock a).ring) (hb : RingOk (k'.sock b).ring)
    (hab : (k.sock b).ring.contents ++ accepted a es' = received b es' ++ (k'.sock b).ring.contents)
    (hba : (k.sock a).ring.contents ++ accepted b es' = received a es' ++ (k'.sock a).ring.contents) :
    StreamInv k₀ a b k' (es ++ es') where
  toNotes := h.toNotes.trans hn
  ne := h.ne
  left := h.left.quiet hq
  right := h.right.quiet hq
  ringA := ha
  ringB := hb
  waits := hw
  fromA := by rw [received_append, accepted_append, append_assoc, ← hab, ← h.fromA, append_assoc]
  fromB := by rw [received_append, accepted_append, append_assoc, ← hba, ← h.fromB, append_assoc]

theorem read {t : Tid} {buf len : Nat} {o : Outcome} (h : StreamInv k₀ a b k es) (ho : o.Reads k a len)
    (hq : Quiet k (finish t (.read a buf len) (readResult t buf false o))) :
    ∃ es', StreamInv k₀ a b (finish t (.read a buf len) (readResult t buf false o)) (es ++ es') := by
  obtain ⟨hw, es', hflow⟩ := ho.finish t buf
  obtain ⟨hring, hreceived⟩ := hflow.other b h.ne.symm
  have hb : RingOk ((finish t (.read a buf len) (readResult t buf false o)).sock b).ring := by
    rw [hring]
    exact h.ringB
  refine ⟨es', h.advance hq hw hflow.toNotes hflow.ok hb ?_ ?_⟩
  · rw [hflow.written a, hreceived, hring]
    simp
  · rw [hflow.written b]
    exact hflow.contents

theorem write {t : Tid} {data : List UInt8} {o : Outcome} (h : StreamInv k₀ a b k es) (ho : o.Writes k b data)
    (hq : Quiet k (finish t (.write a data) o)) :
    ∃ es', StreamInv k₀ a b (finish t (.write a data) o) (es ++ es') := by
  obtain ⟨hw, es', hnotes, hok, hcontents, hother, hwritten⟩ := ho.finish t a
  obtain ⟨hring, hreceived⟩ := hother a h.ne
  have ha : RingOk ((finish t (.write a data) o).sock a).ring := by
    rw [hring]
    exact h.ringA
  refine ⟨es', h.advance hq hw hnotes ha hok hcontents ?_⟩
  rw [hwritten b h.ne.symm, hreceived, hring]
  simp

theorem share {t t' : Tid} {fd fd' : Nat} (h : StreamInv k₀ a b k es) (hs : Socket.share k t fd t' fd' = some k') :
    StreamInv k₀ a b k' es := by
  unfold Socket.share at hs
  cases hfrom : sockFromFd k t fd with
  | none =>
    rw [hfrom] at hs
    cases hs
  | some s =>
    rw [hfrom] at hs
    obtain ⟨-, hs⟩ := Option.ite_none_left_eq_some.mp hs
    cases hs
    exact ⟨⟨h.history, h.mem, h.counted⟩, h.ne, ⟨h.left.type, h.left.state, h.left.peer⟩,
      ⟨h.right.type, h.right.state, h.right.peer⟩, h.ringA, h.ringB, ⟨h.waits.waits, h.waits.once⟩, h.fromA, h.fromB⟩

theorem step {t : Tid} {op : Op} (h : StreamInv k₀ a b k es) (ht : Traffic k a b t op)
    (hs : step k t op = some k') : ∃ es', StreamInv k₀ a b k' (es ++ es') := by
  unfold Socket.step at hs
  obtain ⟨hblocked, hs⟩ := Option.ite_none_left_eq_some.mp hs
  rw [Bool.not_eq_true] at hblocked
  cases op with
  | recv fd buf len f =>
    obtain ⟨hfd, hbuf, hf⟩ := ht
    obtain ⟨s, hfrom, rfl⟩ := Option.map_eq_some_iff.mp hs
    have hq := quiet_finish (quiet_sysRecv k t s buf len f) t (.read s buf len)
    rw [hfrom, Option.some.injEq, Option.some.injEq] at hfd
    rcases hfd with rfl | rfl
    · obtain ⟨o, ho, heq⟩ := sysRecv_reads h.waits hblocked h.ringA hbuf hf
      rw [heq] at hq ⊢
      exact h.read ho hq
    · obtain ⟨o, ho, heq⟩ := sysRecv_reads h.waits hblocked h.ringB hbuf hf
      rw [heq] at hq ⊢
      obtain ⟨es', hes⟩ := h.symm.read ho hq
      exact ⟨es', hes.symm⟩
  | read fd buf len f =>
    obtain ⟨hfd, -, hf⟩ := ht
    obtain ⟨s, hfrom, rfl⟩ := Option.map_eq_some_iff.mp hs
    have hq := quiet_finish (quiet_sysRead k t s buf len f) t (.read s buf len)
    rw [hfrom, Option.some.injEq, Option.some.injEq] at hfd
    rcases hfd with rfl | rfl
    · obtain ⟨o, ho, heq⟩ := sysRead_reads h.waits hblocked h.ringA buf len hf
      rw [heq] at hq ⊢
      exact h.read ho hq
    · obtain ⟨o, ho, heq⟩ := sysRead_reads h.waits hblocked h.ringB buf len hf
      rw [heq] at hq ⊢
      obtain ⟨es', hes⟩ := h.symm.read ho hq
      exact ⟨es', hes.symm⟩
  | send fd buf data f =>
    obtain ⟨s, hfrom, rfl⟩ := Option.map_eq_some_iff.mp hs
    have hq := quiet_finish (quiet_sysSend k t s buf data f) t (.write s data)
    have hfd : sockFromFd k t fd = some a ∨ sockFromFd k t fd = some b := ht
    rw [hfrom, Option.some.injEq, Option.some.injEq] at hfd
    rcases hfd with rfl | rfl
    · exact h.write (sysSend_writes h.waits hblocked h.left h.ringB buf data f) hq
    · obtain ⟨es', hes⟩ := h.symm.write (sysSend_writes h.waits hblocked h.right h.ringA buf data f) hq
      exact ⟨es', hes.symm⟩
  | write fd data f =>
    obtain ⟨s, hfrom, rfl⟩ := Option.map_eq_some_iff.mp hs
    have hq := quiet_finish (quiet_sysWrite k t s data f) t (.write s data)
    have hfd : sockFromFd k t fd = some a ∨ sockFromFd k t fd = some b := ht
    rw [hfrom, Option.some.injEq, Option.some.injEq] at hfd
    rcases hfd with rfl | rfl
    · exact h.write (sysWrite_writes h.waits hblocked h.left h.ringB data f) hq
    · obtain ⟨es', hes⟩ := h.symm.write (sysWrite_writes h.waits hblocked h.right h.ringA data f) hq
      exact ⟨es', hes.symm⟩
  | share fd t' fd' =>
    refine ⟨[], ?_⟩
    rw [append_nil]
    exact h.share hs
  | _ => exact absurd ht id

end StreamInv

/-- No byte of a connected pair is lost, invented or reordered: what the reads on each socket
were given, and what its ring holds, is what the writes on the other have accepted; a read
returns the number of bytes it was given, and they are what is in the memory of its task. -/
theorem stream_integrity {k₀ k : Kernel} {a b : Sid} (h₀ : Connected a b k₀)
    (h : Run.Reachable (· = k₀) (StreamStep a b) k) : ∃ es, k.history = k₀.history ++ es ∧
      received b es ++ (k.sock b).ring.contents = accepted a es ∧
      received a es ++ (k.sock a).ring.contents = accepted b es ∧
      (∀ e ∈ es, e.Counted) ∧ (∀ t, (k.task t).mem = delivered t es (k₀.task t).mem) ∧
      (k.sock a).ring.dataLen ≤ (k.sock a).ring.size ∧ (k.sock b).ring.dataLen ≤ (k.sock b).ring.size := by
  have hinv := h.invariant (fun k => ∃ es, StreamInv k₀ a b k es)
    (fun s hs => ⟨[], by subst hs; exact .start h₀⟩) fun _ _ ⟨es, hi⟩ ⟨_, _, ht, hs⟩ => by
      obtain ⟨es', hi'⟩ := hi.step ht hs
      exact ⟨es ++ es', hi'⟩
  obtain ⟨es, hi⟩ := hinv
  exact ⟨es, hi.history, hi.fromA, hi.fromB, hi.counted, hi.mem, hi.ringA.valid.len, hi.ringB.valid.len⟩

/-- What `sys_socketpair` makes is such a pair. -/
theorem connected_of_socketpair {k k' : Kernel} (h : WaitOk k) {t : Tid} {addr : Nat} {m0 m1 : Mem}
    (hm0 : m0.Fresh k) (hm1 : m1.Fresh k) (hne : m0.addr = m1.addr → m0.addr = none) {noMem0 noMem1 copyFails : Bool}
    (hs : sysSocketpair k t (some .stream) addr m0 m1 noMem0 noMem1 copyFails = (0, k')) :
    ∃ a b, m0.addr = some a ∧ m1.addr = some b ∧ Connected a b k' := by
  unfold sysSocketpair at hs
  dsimp only at hs
  split at hs
  · cases hs
  cases ha : sockAlloc k m0 .stream with
  | none =>
    rw [ha] at hs
    cases hs
  | some p =>
    obtain ⟨a, k₀⟩ := p
    have halloc := sockAlloc_allocated hm0 ha
    have haddr := (sockAlloc_some ha).1
    have hm1' : m1.Fresh k₀ := by
      intro s hm
      have hsa : s ≠ a := by
        rintro rfl
        have hn := hne (haddr.trans hm.symm)
        rw [haddr] at hn
        cases hn
      rw [← Bool.not_eq_true]
      intro hl
      have hdead := hm1 s hm
      rw [((halloc.live s).mp hl).resolve_left hsa] at hdead
      cases hdead
    rw [ha] at hs
    dsimp only at hs
    cases hb : sockAlloc k₀ m1 .stream with
    | none =>
      rw [hb] at hs
      cases hs
    | some p =>
      obtain ⟨b, k₁⟩ := p
      have halloc' := sockAlloc_allocated hm1' hb
      have hab : a ≠ b := by
        rintro rfl
        have hdead := halloc'.fresh
        rw [(halloc.live a).mpr (.inl rfl)] at hdead
        cases hdead
      obtain ⟨garbage, hnewA⟩ := halloc.self
      obtain ⟨garbage', hnewB⟩ := halloc'.self
      have hnewA' : k₁.sock a = newSock .stream garbage := (halloc'.other a hab).trans hnewA
      have hwaits : WaitOk k₁ := halloc'.waits (halloc.waits h)
      have hsize : 0 < sockBufferSize := by decide
      have hring : ∀ garbage, RingOk (newSock .stream garbage).ring := fun _ =>
        ⟨⟨hsize, Nat.zero_le _, rfl⟩, hsize⟩
      have hpair : Connected a b ((((k₁.setPeer a (some b)).setPeer b (some a)).setState a .connected).setState b
          .connected) := by
        have hA : ((((k₁.setPeer a (some b)).setPeer b (some a)).setState a .connected).setState b .connected).sock a =
            { newSock .stream garbage with peer := some b, state := .connected } := by
          simp [Kernel.setState, Kernel.setPeer, sock_modify_self, sock_modify_of_ne, hab, hnewA']
        have hB : ((((k₁.setPeer a (some b)).setPeer b (some a)).setState a .connected).setState b .connected).sock b =
            { newSock .stream garbage' with peer := some a, state := .connected } := by
          simp [Kernel.setState, Kernel.setPeer, sock_modify_self, sock_modify_of_ne, hab.symm, hnewB]
        refine ⟨hab, ⟨by rw [hA]; rfl, by rw [hA], by rw [hA]⟩, ⟨by rw [hB]; rfl, by rw [hB], by rw [hB]⟩, ?_, ?_⟩
        · rintro s (rfl | rfl)
          · rw [hA]
            exact ⟨hring garbage, rfl⟩
          · rw [hB]
            exact ⟨hring garbage', rfl⟩
        · exact (((hwaits.same (sameWaits_modify _ a rfl)).same (sameWaits_modify _ b rfl)).same
            (sameWaits_modify _ a rfl)).same (sameWaits_modify _ b rfl)
      rw [hb] at hs
      dsimp only at hs
      generalize (((k₁.setPeer a (some b)).setPeer b (some a)).setState a .connected).setState b .connected = k₂
        at hs hpair
      refine ⟨a, b, haddr, (sockAlloc_some hb).1, ?_⟩
      obtain ⟨hneg, hk⟩ | ⟨fd0, -, -, he0⟩ := sockMakeFdFor_cases k₂ a t noMem0
      · rw [if_pos hneg] at hs
        have hzero := (Prod.mk.inj hs).1
        omega
      rw [he0] at hs
      dsimp only at hs
      rw [if_neg (Int.not_lt.mpr (Int.natCast_nonneg fd0))] at hs
      generalize hk₃ : ({ k₂ with
        fds := ⟨t, fd0, a⟩ :: k₂.fds, refcount := update k₂.refcount a 1 } : Kernel) = k₃ at hs
      obtain ⟨hneg, hk⟩ | ⟨fd1, -, -, he1⟩ := sockMakeFdFor_cases k₃ b t noMem1
      · rw [if_pos hneg] at hs
        have hzero := (Prod.mk.inj hs).1
        omega
      rw [he1] at hs
      dsimp only at hs
      rw [if_neg (Int.not_lt.mpr (Int.natCast_nonneg fd1))] at hs
      split at hs
      · cases hs
      · cases hs
        subst hk₃
        exact ⟨hpair.ne, ⟨hpair.left.type, hpair.left.state, hpair.left.peer⟩,
          ⟨hpair.right.type, hpair.right.state, hpair.right.peer⟩, hpair.rings, hpair.waits.waits, hpair.waits.once⟩

theorem waitOk_noSockets : WaitOk noSockets := ⟨fun _ _ _ hw => (nomatch hw), fun _ _ => nodup_nil⟩

/-- The step, if it is one that the pair allows. -/
def nextTraffic (a b : Sid) (k : Kernel) (op : Tid × Op) : Option Kernel :=
  if Traffic k a b op.1 op.2 then step k op.1 op.2 else none

/-- Task 2 waits for two bytes at the socket 11; task 1 writes three on the socket 10. Two of
them are copied into the memory of task 2, and one is left in the ring. -/
theorem stream_integrity_served : ∃ k : Kernel, received 11 k.history = [7, 8] ∧
    [7, 8] ++ (k.sock 11).ring.contents = accepted 10 k.history := by
  obtain ⟨k₀, hk₀⟩ : ∃ k₀, next noSockets (1, .socketpair (some .stream) 0x400000 ⟨some 10, fun _ => 0⟩
      ⟨some 11, fun _ => 0⟩ false false false) = some k₀ := ⟨_, rfl⟩
  have hmade : sysSocketpair noSockets 1 (some .stream) 0x400000 ⟨some 10, fun _ => 0⟩ ⟨some 11, fun _ => 0⟩ false
      false false = (0, k₀) := Prod.ext rfl (Option.some.inj hk₀)
  obtain ⟨a, b, ha, hb, hconnected⟩ := connected_of_socketpair waitOk_noSockets (fun _ _ => rfl) (fun _ _ => rfl)
    (by decide) hmade
  cases ha
  cases hb
  have hempty : k₀.history = [] := by
    have hhist : (next noSockets (1, .socketpair (some .stream) 0x400000 ⟨some 10, fun _ => 0⟩
      ⟨some 11, fun _ => 0⟩ false false false)).map (·.history) = some [] := rfl
    rw [hk₀] at hhist
    exact Option.some.inj hhist
  have hrun : ((next noSockets (1, .socketpair (some .stream) 0x400000 ⟨some 10, fun _ => 0⟩
      ⟨some 11, fun _ => 0⟩ false false false)).bind fun k => Run.exec (nextTraffic 10 11) k [(1, .share 1 2 1),
        (2, .recv 1 0x500000 2 ⟨false, false, false⟩), (1, .write 0 [7, 8, 9] ⟨false, false, false⟩)]).map
        (fun k => received 11 k.history) = some [7, 8] := by decide +kernel
  rw [hk₀] at hrun
  obtain ⟨k, hk, hreceived⟩ := Option.map_eq_some_iff.mp hrun
  have hstart : Run.Reachable (· = k₀) (StreamStep 10 11) k₀ := .start rfl
  have hreach : Run.Reachable (· = k₀) (StreamStep 10 11) k := by
    refine hstart.exec (fun l op l' hst => ?_) hk
    obtain ⟨htraffic, hst⟩ := Option.ite_none_right_eq_some.mp hst
    exact ⟨op.1, op.2, htraffic, hst⟩
  obtain ⟨es, hes, hbytes, -⟩ := stream_integrity hconnected hreach
  rw [hempty, List.nil_append] at hes
  rw [← hes, hreceived] at hbytes
  exact ⟨k, hreceived, hbytes⟩

end Serotonin.Socket
