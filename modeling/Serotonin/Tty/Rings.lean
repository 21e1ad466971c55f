import Serotonin.Socket.Stream
import Serotonin.Tty.Readers

/-! The rings of the terminals. Every step of the kernel leaves both rings of every terminal in
order, so what each of them holds is a list that is written to at one end and read from at the
other. -/

namespace Serotonin.Tty

open Ipc (ptyRingSize ptyRingWrite outputOnlcr RingOk)

/-- A ring of a terminal whose positions and count agree. -/
structure PtyRing (r : CircBuf UInt8) : Prop where
  ok : RingOk r
  size : r.size = ptyRingSize

namespace PtyRing

variable {r : CircBuf UInt8}

/-- As much is written as there is room for. -/
theorem write (h : PtyRing r) (data : List UInt8) : PtyRing (ptyRingWrite r data) ∧
    (ptyRingWrite r data).contents = r.contents ++ data.take (ptyRingSize - r.dataLen) := by
  obtain ⟨hok, hsize⟩ := h.ok.ptyRingWrite h.size data
  refine ⟨⟨hok, hsize⟩, (h.ok.put ?_).1⟩
  have hlen := h.ok.valid.len
  rw [h.size] at hlen ⊢
  rw [List.length_take]
  omega

theorem write_fits (h : PtyRing r) {data : List UInt8} (hroom : r.dataLen + data.length ≤ ptyRingSize) :
    (ptyRingWrite r data).contents = r.contents ++ data := by
  rw [(h.write data).2, List.take_of_length_le (by omega)]

theorem get (h : PtyRing r) {n : Nat} (hn : n ≤ r.dataLen) : PtyRing (r.get n).2 ∧
    (r.get n).1.length = n ∧ r.contents = (r.get n).1 ++ (r.get n).2.contents := by
  obtain ⟨hlen, hok⟩ := h.ok.get hn
  exact ⟨⟨hok, (Ipc.get_size r n).trans h.size⟩, hlen, (CircBuf.contents_get h.ok.valid h.ok.readPos hn).1⟩

theorem copyOut (h : PtyRing r) (mem : Nat → UInt8) (addr : Nat) {n : Nat} (hn : n ≤ r.dataLen) :
    ∃ r' bytes, Socket.copyOut r mem addr n n = (r', Socket.storeUser mem addr bytes, bytes) ∧
      bytes.length = n ∧ r.contents = bytes ++ r'.contents ∧ PtyRing r' := by
  obtain ⟨r', bytes, heq, hlen, hc, hok, hsize⟩ := Socket.copyOut_spec n mem addr h.ok hn (Nat.le_refl n)
  exact ⟨r', bytes, heq, hlen, hc, hok, hsize.trans h.size⟩

theorem writes (h : PtyRing r) (data : List UInt8) (line : List UInt8) :
    PtyRing (line.foldl (fun r _ => ptyRingWrite r data) r) := by
  induction line generalizing r with
  | nil => exact h
  | cons c cs ih => exact ih (h.write data).1

theorem onlcr (h : PtyRing r) (data : List UInt8) : PtyRing (outputOnlcr r data).1 := by
  obtain ⟨hok, hsize⟩ := h.ok.outputOnlcr data h.size
  exact ⟨hok, hsize⟩

end PtyRing

/-! ## Every step -/

structure Pty.RingsOk (x : Pty) : Prop where
  input : PtyRing x.inputRing
  output : PtyRing x.outputRing

def RingsOk (k : Kernel) : Prop := ∀ q, (k.pty q).RingsOk

namespace RingsOk

variable {k : Kernel}

theorem modify (h : RingsOk k) (q : Nat) {f : Pty → Pty} (hf : (f (k.pty q)).RingsOk) : RingsOk (k.modify q f) := by
  intro r
  by_cases hr : r = q
  · rw [hr, pty_modify_self]
    exact hf
  · rw [pty_modify_of_ne k f hr]
    exact h r

theorem setInput (h : RingsOk k) (q : Nat) {r : CircBuf UInt8} (hr : PtyRing r) :
    RingsOk (k.modify q fun x => { x with inputRing := r }) := h.modify q ⟨hr, (h q).output⟩

theorem setOutput (h : RingsOk k) (q : Nat) {r : CircBuf UInt8} (hr : PtyRing r) :
    RingsOk (k.modify q fun x => { x with outputRing := r }) := h.modify q ⟨(h q).input, hr⟩

theorem modifyTask (h : RingsOk k) (t : Tid) (f : Task → Task) : RingsOk (k.modifyTask t f) := h

theorem taskUnblock (h : RingsOk k) (t : Tid) : RingsOk (taskUnblock k t) := by
  intro r
  rw [pty_taskUnblock]
  exact h r

theorem ptyInputWakeOne (h : RingsOk k) (q : Nat) : RingsOk (ptyInputWakeOne k q) := by
  unfold Tty.ptyInputWakeOne
  split
  · exact h
  · next w ws _ =>
    have hpop : RingsOk (k.modify q fun x => { x with inputWaiters := ws }) := h.modify q ⟨(h q).input, (h q).output⟩
    simp only
    split
    · obtain ⟨r', bytes, heq, _, _, hring⟩ := (hpop q).input.copyOut
        (n := min w.bufSize ((k.modify q fun x => { x with inputWaiters := ws }).pty q).inputRing.dataLen)
        ((k.modify q fun x => { x with inputWaiters := ws }).task w.task).mem w.userBuf (Nat.min_le_right _ _)
      rw [heq]
      exact ((hpop.setInput q hring).modifyTask _ _).taskUnblock _
    · exact (hpop.modifyTask _ _).taskUnblock _

theorem ptyInputWakeAll (h : RingsOk k) (q : Nat) : RingsOk (ptyInputWakeAll k q) := by
  unfold Tty.ptyInputWakeAll
  generalize (k.pty q).inputWaiters = ws
  induction ws generalizing k with
  | nil => exact h
  | cons w ws ih => exact ih (h.ptyInputWakeOne q)

theorem ptyOutputWakeOne (h : RingsOk k) (q : Nat) : RingsOk (ptyOutputWakeOne k q) := by
  unfold Tty.ptyOutputWakeOne
  split
  · exact h
  · exact (h.modify q ⟨(h q).input, (h q).output⟩).taskUnblock _

theorem ptyEcho (h : RingsOk k) (q : Nat) (data : List UInt8) : RingsOk (ptyEcho k q data) := by
  unfold Tty.ptyEcho
  split
  · exact (h.modify q ⟨(h q).input, ((h q).output.write data).1⟩).ptyOutputWakeOne q
  · exact h

theorem setLine (h : RingsOk k) (q : Nat) (f : List UInt8 → List UInt8) :
    RingsOk (k.modify q fun x => { x with lineBuf := f x.lineBuf }) := h.modify q ⟨(h q).input, (h q).output⟩

theorem ptyLdiscFlushLine (h : RingsOk k) (q : Nat) : RingsOk (ptyLdiscFlushLine k q) :=
  (h.modify q ⟨((h q).input.write _).1, (h q).output⟩).ptyInputWakeOne q

theorem ptyKillLine (h : RingsOk k) (q : Nat) : RingsOk (ptyKillLine k q) := by
  have hline := h.setLine q fun _ => []
  unfold Tty.ptyKillLine
  simp only
  split
  · exact (hline.modify q ⟨(hline q).input, (hline q).output.writes _ _⟩).ptyOutputWakeOne q
  · exact hline

theorem taskIpcSignalRaise (h : RingsOk k) (t : Tid) (signal : Nat) : RingsOk (taskIpcSignalRaise k t signal) := by
  unfold Tty.taskIpcSignalRaise
  split
  · exact h
  · exact (h.modifyTask t _).taskUnblock t

theorem ptyInterrupt (h : RingsOk k) (q : Nat) : RingsOk (ptyInterrupt k q) := by
  unfold Tty.ptyInterrupt
  split
  · exact (h.setLine q fun _ => []).ptyInputWakeAll q
  · exact ((h.taskIpcSignalRaise _ _).setLine q fun _ => []).ptyInputWakeAll q

theorem ptyLdiscInput (h : RingsOk k) (q : Nat) (c : UInt8) : RingsOk (ptyLdiscInput k q c) := by
  unfold Tty.ptyLdiscInput
  simp only
  split
  · exact h.ptyInterrupt q
  · split
    · exact h.ptyLdiscFlushLine q
    · split
      · split
        · split
          · exact h
          · exact (h.setLine q List.dropLast).ptyEcho q _
        · split
          · exact h.ptyKillLine q
          · split
            · exact ((h.setLine q fun line => lineAppend line 10).ptyEcho q _).ptyLdiscFlushLine q
            · split
              · exact (h.setLine q (· ++ [c])).ptyEcho q _
              · exact h
      · have hput : RingsOk (k.modify q fun x => { x with inputRing := ptyRingWrite x.inputRing [c] }) :=
          h.modify q ⟨((h q).input.write _).1, (h q).output⟩
        exact (hput.ptyInputWakeOne q).ptyEcho q _

theorem input (h : RingsOk k) (q : Nat) (data : List UInt8) :
    RingsOk (data.foldl (fun k c => Tty.ptyLdiscInput k q c) k) := by
  induction data generalizing k with
  | nil => exact h
  | cons c cs ih => exact ih (h.ptyLdiscInput q c)

theorem ptyLdiscOutput (h : RingsOk k) (q : Nat) (data : List UInt8) : RingsOk (ptyLdiscOutput k q data).2 := by
  have hput : ∀ r n, PtyRing r → RingsOk (if 0 < n then
      Tty.ptyOutputWakeOne (k.modify q fun x => { x with outputRing := r }) q
      else k.modify q fun x => { x with outputRing := r }) := by
    intro r n hr
    split
    · exact (h.setOutput q hr).ptyOutputWakeOne q
    · exact h.setOutput q hr
  unfold Tty.ptyLdiscOutput
  split
  · exact h
  · simp only
    split
    · exact hput _ _ ((h q).output.onlcr data)
    · exact hput _ _ ((h q).output.write data).1

theorem ptySlaveRead (h : RingsOk k) (t : Tid) (q size : Nat) (noMem : Bool) :
    RingsOk (ptySlaveRead k t q size noMem).kernel := by
  unfold Tty.ptySlaveRead
  split
  · exact h
  · split
    · exact h.setInput q ((h q).input.get (Nat.min_le_right _ _)).1
    · split
      · exact h
      · split
        · exact h
        · have hset := h.modify q (f := fun x => { x with inputWaiters := x.inputWaiters ++ [⟨t, (k.task t).userBuf, size⟩] })
            ⟨(h q).input, (h q).output⟩
          exact hset.modifyTask t fun x => { x with blocked := true, reading := some q }

theorem ptyMasterRead (h : RingsOk k) (t : Tid) (q size : Nat) (noMem : Bool) :
    RingsOk (ptyMasterRead k t q size noMem).kernel := by
  unfold Tty.ptyMasterRead
  split
  · exact h
  · split
    · exact h.setOutput q ((h q).output.get (Nat.min_le_right _ _)).1
    · split
      · exact h
      · split
        · exact h
        · have hset := h.modify q (f := fun x => { x with outputWaiters := x.outputWaiters ++ [t] })
            ⟨(h q).input, (h q).output⟩
          exact hset.modifyTask t fun x => { x with blocked := true, reading := none }

theorem vfsRead (h : RingsOk k) (t : Tid) (side : Side) (q size : Nat) (noMem : Bool) :
    RingsOk (vfsRead k t side q size noMem).kernel := by
  cases side with
  | slave => exact h.ptySlaveRead t q size noMem
  | master => exact h.ptyMasterRead t q size noMem

theorem vfsWrite (h : RingsOk k) (side : Side) (q : Nat) (data : List UInt8) :
    RingsOk (vfsWrite k side q data).kernel := by
  cases side with
  | slave =>
    unfold Tty.vfsWrite ptySlaveWrite
    simp only
    split
    · exact h
    · exact h.ptyLdiscOutput q data
  | master =>
    unfold Tty.vfsWrite ptyMasterWrite
    simp only
    split
    · exact h
    · exact h.input q data

theorem readResult {o : Outcome} (h : RingsOk o.kernel) (t : Tid) (buf : Nat) (copyFails : Bool) :
    RingsOk (readResult t buf copyFails o).kernel := by
  cases o with
  | sleeps k => exact h
  | returns n bytes k =>
    unfold Tty.readResult
    simp only
    split
    · exact h
    · split <;> exact h

theorem sysRead (h : RingsOk k) (t : Tid) (side : Side) (q buf len : Nat) (f : Fails) :
    RingsOk (sysRead k t side q buf len f).kernel := by
  have hbuf : RingsOk (setUserBuf k t buf) := h
  unfold Tty.sysRead
  split
  · exact h
  · exact (hbuf.vfsRead t side q len f.waiter).readResult t buf f.copy

theorem sysReadStdin (h : RingsOk k) (t : Tid) (q buf len : Nat) (f : Fails) :
    RingsOk (sysReadStdin k t q buf len f).kernel := by
  have hset := h.modify q (f := fun x => { x with foreground := some t }) ⟨(h q).input, (h q).output⟩
  have hbuf : RingsOk (setUserBuf (k.modify q fun x => { x with foreground := some t }) t buf) := hset.modifyTask t _
  unfold Tty.sysReadStdin
  split
  · exact h
  · split
    · exact h
    · simp only
      split
      · exact hbuf
      · exact (hbuf.ptySlaveRead t q len f.waiter).readResult t buf f.copy

theorem sysWrite (h : RingsOk k) (side : Side) (q : Nat) (data : List UInt8) (f : Fails) :
    RingsOk (sysWrite k side q data f).kernel := by
  unfold Tty.sysWrite
  split
  · exact h
  · split
    · exact h
    · exact h.vfsWrite side q data

theorem step (h : RingsOk k) {op : Op} {k' : Kernel} (hs : step k op = some k') : RingsOk k' := by
  cases op with
  | read t side q buf len f =>
    obtain ⟨-, hs⟩ := Option.ite_none_left_eq_some.mp hs
    cases hs
    exact h.sysRead t side q buf len f
  | readStdin t q buf len f =>
    obtain ⟨-, hs⟩ := Option.ite_none_left_eq_some.mp hs
    cases hs
    exact h.sysReadStdin t q buf len f
  | write t side q data f =>
    obtain ⟨-, hs⟩ := Option.ite_none_left_eq_some.mp hs
    cases hs
    exact h.sysWrite side q data f
  | key q data =>
    cases hs
    exact h.input q data
  | setAttr q attr =>
    cases hs
    exact h.modify q ⟨(h q).input, (h q).output⟩
  | sleep t =>
    obtain ⟨-, hs⟩ := Option.ite_none_left_eq_some.mp hs
    cases hs
    exact h
  | signal t sig =>
    cases hs
    exact h.taskIpcSignalRaise t sig
  | wake t =>
    cases hs
    exact h.taskUnblock t

end RingsOk

/-! ## Runs -/

/-- Nothing was ever written to the ring. -/
structure Unwritten (r : CircBuf UInt8) : Prop where
  size : r.size = ptyRingSize
  readPos : r.readPos = 0
  writePos : r.writePos = 0
  dataLen : r.dataLen = 0

theorem Unwritten.ptyRing {r : CircBuf UInt8} (h : Unwritten r) : PtyRing r := by
  obtain ⟨hsize, hr, hw, hl⟩ := h
  have hpos : 0 < r.size := by rw [hsize]; simp [ptyRingSize]
  exact ⟨⟨⟨hpos, by omega, by simp [hr, hw, hl]⟩, by omega⟩, hsize⟩

/-- As after boot. -/
def Kernel.Unused (k : Kernel) : Prop := ∀ q, Unwritten (k.pty q).inputRing ∧ Unwritten (k.pty q).outputRing

def InUse (k : Kernel) : Prop := Run.Reachable Kernel.Unused Step k

theorem InUse.ringsOk {k : Kernel} (h : InUse k) : RingsOk k :=
  h.invariant RingsOk (fun _ hu q => ⟨(hu q).1.ptyRing, (hu q).2.ptyRing⟩) fun _ _ hi ⟨_, hs⟩ => hi.step hs

theorem quietTerminal_unused : quietTerminal.Unused := fun _ => ⟨⟨rfl, rfl, rfl, rfl⟩, ⟨rfl, rfl, rfl, rfl⟩⟩

end Serotonin.Tty
