import Serotonin.Socket.Connect
import Serotonin.Tty.Readers

/-! `fd_poll_check_task` of `syscall.c` against the calls it speaks for: what it reports of a
descriptor, and whether a read, a write or an accept on it in that state returns at once. -/

namespace Serotonin.Poll

open Ipc (Access)
open Tty (Side)

abbrev Tid := Nat

/-- The bits of `revents` that descriptors in use can get. -/
structure Revents where
  pollin : Bool
  pollout : Bool
  pollerr : Bool
  pollhup : Bool
  deriving DecidableEq

/-- The active terminal is one of the kernel's. -/
structure Kernel where
  pipes : Ipc.Kernel
  socks : Socket.Kernel
  ttys : Tty.Kernel
  activeVty : Nat
  active_kernel : (ttys.pty activeVty).kernelVty = true

/-- What is behind a descriptor. Without a handle, 0 is the active terminal to read from, and
1 and 2 are that to write to. -/
inductive Desc where
  | stdin
  | stdout
  | pipe (access : Access) (p : Nat) (isReadEnd : Bool)
  | socket (s : Socket.Sid)
  | pty (access : Access) (side : Side) (q : Nat)

/-! ## What is reported -/

/-- The loop over the input ring for a newline. -/
def hasNewline (r : CircBuf UInt8) : Bool :=
  (List.range r.dataLen).any fun i => r.buf ((r.readPos + i) % Ipc.ptyRingSize) == 10

def pollStdin (pty : Tty.Pty) : Revents :=
  { pollin := if pty.attr.icanon then hasNewline pty.inputRing else 0 < pty.inputRing.dataLen
    pollout := true
    pollerr := false
    pollhup := false }

def pollPipe (pipe : Ipc.Pipe) (isReadEnd : Bool) : Revents :=
  if isReadEnd then
    { pollin := 0 < pipe.ring.dataLen, pollout := false, pollerr := false, pollhup := pipe.writers = 0 }
  else
    { pollin := false
      pollout := pipe.ring.dataLen < pipe.ring.size
      pollerr := pipe.readers = 0
      pollhup := false }

def pollSocket (k : Socket.Kernel) (s : Socket.Sid) : Revents :=
  if (k.sock s).state = .listening then
    { pollin := 0 < (k.sock s).backlog.length, pollout := false, pollerr := false, pollhup := false }
  else
    { pollin := 0 < (k.sock s).ring.dataLen
      pollout := match (k.sock s).type, (k.sock s).peer with
        | .dgram, _ => true
        | .stream, some p => (k.sock p).ring.dataLen < (k.sock p).ring.size
        | .stream, none => false
      pollerr := false
      pollhup := (k.sock s).state = .closed ∨ (k.sock s).type = .stream ∧ (k.sock s).peer = none }

def pollPty (pty : Tty.Pty) : Side → Revents
  | .master =>
    { pollin := 0 < pty.outputRing.dataLen, pollout := true, pollerr := false, pollhup := pty.slaveRefcount = 0 }
  | .slave => { pollin := 0 < pty.inputRing.dataLen, pollout := true, pollerr := false, pollhup := false }

def fdPollCheckTask (k : Kernel) : Desc → Revents
  | .stdin => pollStdin (k.ttys.pty k.activeVty)
  | .stdout => ⟨false, true, false, false⟩
  | .pipe _ p isReadEnd => pollPipe (k.pipes.pipe p) isReadEnd
  | .socket s => pollSocket k.socks s
  | .pty _ side q => pollPty (k.ttys.pty q) side

def Revents.forRead (r : Revents) : Bool := r.pollin || r.pollhup || r.pollerr

def Revents.forWrite (r : Revents) : Bool := r.pollout || r.pollerr || r.pollhup

/-! ## What the calls do -/

def ipcReturns : Ipc.Outcome → Bool
  | .returns .. => true
  | .sleeps _ => false

def sockReturns : Socket.Outcome → Bool
  | .returns .. => true
  | .sleeps _ => false

def ttyReturns : Tty.Outcome → Bool
  | .returns .. => true
  | .sleeps _ => false

/-- Does `sys_read` return at once? There is memory, and the buffer is the caller's. -/
def readReturns (k : Kernel) (t : Tid) (buf len : Nat) : Desc → Bool
  | .stdin => ttyReturns (Tty.sysReadStdin k.ttys t k.activeVty buf len ⟨false, false, false⟩)
  | .stdout => true
  | .pipe access p isReadEnd =>
    ipcReturns (Ipc.sysRead k.pipes ⟨access, .pipeEnd p isReadEnd⟩ len ⟨false, false, false⟩)
  | .socket s => sockReturns (Socket.sysRead k.socks t s buf len ⟨false, false, false⟩)
  | .pty access side q =>
    access = .wrOnly || ttyReturns (Tty.sysRead k.ttys t side q buf len ⟨false, false, false⟩)

/-- Does `sys_write` return at once? Standard input is refused, standard output goes to the
slave side of the active terminal. -/
def writeReturns (k : Kernel) (t : Tid) (data : List UInt8) : Desc → Bool
  | .stdin => true
  | .stdout => ttyReturns (Tty.ptySlaveWrite k.ttys k.activeVty data)
  | .pipe access p isReadEnd => ipcReturns (Ipc.sysWrite k.pipes access p isReadEnd data ⟨false, false, false⟩)
  | .socket s => sockReturns (Socket.sysWrite k.socks t s data ⟨false, false, false⟩)
  | .pty access side q =>
    access = .rdOnly || ttyReturns (Tty.sysWrite k.ttys side q data ⟨false, false, false⟩)

/-- Does `sys_accept` return at once? -/
def acceptReturns (k : Kernel) (t : Tid) (fd : Nat) (m : Socket.Mem) : Bool :=
  sockReturns (Socket.sysAccept k.socks t fd m false false)

/-- A buffer that `sys_read` takes. -/
structure UserBuffer (buf len : Nat) : Prop where
  pos : 0 < len
  start : Socket.userSpaceStart ≤ buf
  inside : buf + len ≤ Socket.userSpaceEnd

/-- The report on a descriptor is right about reads and about writes of one byte. -/
structure Right (k : Kernel) (d : Desc) : Prop where
  read : ∀ t buf len, UserBuffer buf len → (fdPollCheckTask k d).forRead = readReturns k t buf len d
  write : ∀ t c, (fdPollCheckTask k d).forWrite = writeReturns k t [c] d

/-! ## When the calls return -/

theorem ipcReturns_readResult (f : Ipc.Fails) (o : Ipc.Outcome) : ipcReturns (Ipc.readResult f o) = ipcReturns o := by
  cases o with
  | sleeps k => rfl
  | «returns» n bytes k =>
    unfold Ipc.readResult
    dsimp only
    split
    · rfl
    · split <;> rfl

theorem sockReturns_readResult (t : Tid) (buf : Nat) (copyFails : Bool) (o : Socket.Outcome) :
    sockReturns (Socket.readResult t buf copyFails o) = sockReturns o := by
  cases o with
  | sleeps k => rfl
  | «returns» n bytes k =>
    unfold Socket.readResult
    dsimp only
    split
    · rfl
    · split <;> rfl

theorem ttyReturns_readResult (t : Tid) (buf : Nat) (copyFails : Bool) (o : Tty.Outcome) :
    ttyReturns (Tty.readResult t buf copyFails o) = ttyReturns o := by
  cases o with
  | sleeps k => rfl
  | «returns» n bytes k =>
    unfold Tty.readResult
    dsimp only
    split
    · rfl
    · split <;> rfl

theorem pipeRead_returns (k : Ipc.Kernel) (p : Nat) {len : Nat} (hlen : 0 < len) :
    ipcReturns (Ipc.taskIpcPipeRead k p true len false) =
      (0 < (k.pipe p).ring.dataLen ∨ (k.pipe p).writers = 0 : Bool) := by
  unfold Ipc.taskIpcPipeRead
  rw [if_neg (Nat.ne_of_gt hlen), if_neg (show ¬(!true) = true by decide)]
  by_cases hdata : 0 < (k.pipe p).ring.dataLen
  · rw [if_pos hdata]
    simp [hdata, ipcReturns]
  · rw [if_neg hdata]
    by_cases hw : (k.pipe p).writers = 0
    · rw [if_pos hw]
      simp [hw, ipcReturns]
    · rw [if_neg hw, if_neg Bool.false_ne_true]
      simp [hdata, hw, ipcReturns]

theorem pipeWrite_returns (k : Ipc.Kernel) (p : Nat) (c : UInt8) :
    ipcReturns (Ipc.taskIpcPipeWrite k p false [c] false) =
      ((k.pipe p).ring.dataLen < (k.pipe p).ring.size ∨ (k.pipe p).readers = 0 : Bool) := by
  unfold Ipc.taskIpcPipeWrite
  rw [if_neg (by simp), if_neg Bool.false_ne_true]
  by_cases hr : (k.pipe p).readers = 0
  · rw [if_pos hr]
    simp [hr, ipcReturns]
  · rw [if_neg hr]
    by_cases hroom : (k.pipe p).ring.dataLen < (k.pipe p).ring.size
    · rw [if_pos hroom]
      simp [hroom, ipcReturns]
    · rw [if_neg hroom, if_neg Bool.false_ne_true]
      simp [hroom, hr, ipcReturns]

/-- A socket that is not connected, or whose peer is gone, keeps nobody waiting. -/
theorem socketRead_returns (k : Socket.Kernel) (t : Tid) (s : Socket.Sid) {len : Nat} (hlen : 0 < len)
    (htype : (k.sock s).type = .stream) :
    sockReturns (Socket.taskIpcUnixSocketRead k t s len false) =
      ((k.sock s).state ≠ .connected ∨ 0 < (k.sock s).ring.dataLen ∨ Socket.peerGone k s : Bool) := by
  unfold Socket.taskIpcUnixSocketRead
  rw [if_neg (Nat.ne_of_gt hlen)]
  by_cases hconn : (k.sock s).state = .connected
  · rw [if_neg fun h => h.2 hconn]
    by_cases hdata : 0 < (k.sock s).ring.dataLen
    · rw [if_pos hdata]
      simp [hdata, sockReturns]
    · rw [if_neg hdata]
      by_cases hgone : Socket.peerGone k s = true
      · rw [if_pos ⟨htype, hgone⟩]
        simp [hgone, sockReturns]
      · rw [if_neg fun h => hgone h.2, if_neg Bool.false_ne_true]
        simp [hconn, hdata, hgone, sockReturns]
  · rw [if_pos ⟨htype, hconn⟩]
    simp [hconn, sockReturns]

/-- The room that is asked for is the peer's. -/
def peerHasRoom (k : Socket.Kernel) (s : Socket.Sid) : Bool :=
  match (k.sock s).peer with
  | none => false
  | some p => (k.sock p).ring.dataLen < (k.sock p).ring.size

theorem socketWrite_returns (k : Socket.Kernel) (t : Tid) (s : Socket.Sid) (c : UInt8)
    (htype : (k.sock s).type = .stream) :
    sockReturns (Socket.taskIpcUnixSocketWrite k t s [c] false) =
      ((k.sock s).state ≠ .connected ∨ peerHasRoom k s ∨ Socket.peerGone k s : Bool) := by
  unfold Socket.taskIpcUnixSocketWrite peerHasRoom Socket.peerGone
  rw [if_neg (by simp), htype]
  dsimp only
  cases (k.sock s).peer with
  | none => simp [sockReturns]
  | some p =>
    dsimp only
    by_cases hconn : (k.sock s).state = .connected
    · rw [if_neg fun h => h hconn]
      by_cases hclosed : (k.sock p).state = .closed
      · rw [if_pos hclosed]
        simp [hclosed, sockReturns]
      · rw [if_neg hclosed]
        by_cases hroom : (k.sock p).ring.dataLen < (k.sock p).ring.size
        · rw [if_pos hroom]
          simp [hroom, sockReturns]
        · rw [if_neg hroom, if_neg Bool.false_ne_true]
          simp [hconn, hclosed, hroom, sockReturns]
    · rw [if_pos hconn]
      simp [hconn, sockReturns]

theorem slaveRead_returns (k : Tty.Kernel) (t : Tid) (q : Nat) {len : Nat} (hlen : 0 < len) :
    ttyReturns (Tty.ptySlaveRead k t q len false) =
      (0 < (k.pty q).inputRing.dataLen ∨ (k.pty q).kernelVty = false ∧ (k.pty q).masterRefcount = 0 : Bool) := by
  unfold Tty.ptySlaveRead
  rw [if_neg (Nat.ne_of_gt hlen)]
  by_cases hdata : 0 < (k.pty q).inputRing.dataLen
  · rw [if_pos hdata]
    simp [hdata, ttyReturns]
  · rw [if_neg hdata]
    split
    · rename_i hclosed
      simp only [Bool.and_eq_true, Bool.not_eq_true', decide_eq_true_eq] at hclosed
      simp [hclosed, ttyReturns]
    · rename_i hopen
      rw [if_neg Bool.false_ne_true]
      simp only [Bool.and_eq_true, Bool.not_eq_true', decide_eq_true_eq] at hopen
      simp [hdata, hopen, ttyReturns]

theorem masterRead_returns (k : Tty.Kernel) (t : Tid) (q : Nat) {len : Nat} (hlen : 0 < len) :
    ttyReturns (Tty.ptyMasterRead k t q len false) =
      (0 < (k.pty q).outputRing.dataLen ∨ (k.pty q).slaveRefcount = 0 : Bool) := by
  unfold Tty.ptyMasterRead
  rw [if_neg (Nat.ne_of_gt hlen)]
  by_cases hdata : 0 < (k.pty q).outputRing.dataLen
  · rw [if_pos hdata]
    simp [hdata, ttyReturns]
  · rw [if_neg hdata]
    by_cases hs : (k.pty q).slaveRefcount = 0
    · rw [if_pos hs]
      simp [hs, ttyReturns]
    · rw [if_neg hs, if_neg Bool.false_ne_true]
      simp [hdata, hs, ttyReturns]

/-- Nobody waits to write to a terminal. -/
theorem ttyWrite_returns (k : Tty.Kernel) (side : Side) (q : Nat) (data : List UInt8) :
    ttyReturns (Tty.sysWrite k side q data ⟨false, false, false⟩) = true := by
  have hvfs : ttyReturns (Tty.vfsWrite k side q data) = true := by
    cases side with
    | slave =>
      show ttyReturns (Tty.ptySlaveWrite k q data) = true
      unfold Tty.ptySlaveWrite
      split <;> rfl
    | master =>
      show ttyReturns (Tty.ptyMasterWrite k q data) = true
      unfold Tty.ptyMasterWrite
      split <;> rfl
  unfold Tty.sysWrite
  rw [if_neg fun h => Bool.false_ne_true h.2, if_neg Bool.false_ne_true]
  exact hvfs

/-! ## Where the report is right -/

/-- A stream socket whose state and peer go together: closed, without a peer, or connected
to one that is not closed. A listening socket is none. -/
structure Settled (k : Socket.Kernel) (s : Socket.Sid) : Prop where
  type : (k.sock s).type = .stream
  listening : (k.sock s).state ≠ .listening
  peer : (k.sock s).state = .closed ∨ (k.sock s).peer = none ∨
    (k.sock s).state = .connected ∧ Socket.peerGone k s = false

/-- The descriptor is one to read from, and in none of the states in which a task that
polls it would wait for nothing. -/
def ReadSettled (k : Kernel) : Desc → Prop
  | .stdin =>
    (k.ttys.pty k.activeVty).attr.icanon = true → (k.ttys.pty k.activeVty).inputRing.dataLen = 0 ∨
      hasNewline (k.ttys.pty k.activeVty).inputRing = true
  | .stdout => False
  | .pipe access _ isReadEnd => access ≠ .wrOnly ∧ isReadEnd = true
  | .socket s => Settled k.socks s
  | .pty access .master _ => access ≠ .wrOnly
  | .pty access .slave q =>
    access ≠ .wrOnly ∧ (0 < (k.ttys.pty q).inputRing.dataLen ∨ (k.ttys.pty q).kernelVty = true ∨
      (k.ttys.pty q).masterRefcount ≠ 0)

/-- The descriptor is one to write to. -/
def WriteSettled (k : Kernel) : Desc → Prop
  | .pipe access _ isReadEnd => access ≠ .rdOnly ∧ isReadEnd = false
  | .socket s => Settled k.socks s
  | _ => True

theorem Settled.read {k : Socket.Kernel} {s : Socket.Sid} (h : Settled k s) :
    (pollSocket k s).forRead = ((k.sock s).state ≠ .connected ∨ 0 < (k.sock s).ring.dataLen ∨
      Socket.peerGone k s : Bool) := by
  unfold pollSocket Revents.forRead
  rw [if_neg h.listening, h.type]
  rcases h.peer with hclosed | hnone | ⟨hconn, hgone⟩
  · simp [hclosed]
  · simp [hnone, Socket.peerGone]
  · have hpeer : (k.sock s).peer ≠ none := by
      intro hnone
      rw [Socket.peerGone, hnone] at hgone
      cases hgone
    simp [hconn, hgone, hpeer]

theorem Settled.write {k : Socket.Kernel} {s : Socket.Sid} (h : Settled k s) :
    (pollSocket k s).forWrite = ((k.sock s).state ≠ .connected ∨ peerHasRoom k s ∨ Socket.peerGone k s : Bool) := by
  unfold pollSocket Revents.forWrite peerHasRoom
  rw [if_neg h.listening, h.type]
  rcases h.peer with hclosed | hnone | ⟨hconn, hgone⟩
  · simp [hclosed]
  · simp [hnone, Socket.peerGone]
  · cases hp : (k.sock s).peer with
    | none =>
      rw [Socket.peerGone, hp] at hgone
      cases hgone
    | some p => simp [hconn, hgone]

theorem hasNewline_nonempty {r : CircBuf UInt8} (h : hasNewline r = true) : 0 < r.dataLen := by
  obtain ⟨i, hi, -⟩ := List.any_eq_true.mp h
  exact Nat.lt_of_le_of_lt (Nat.zero_le i) (List.mem_range.mp hi)

/-- A read of standard input returns as soon as there is anything, be it a whole line or
not. -/
theorem stdinRead_returns (k : Kernel) (t : Tid) {buf len : Nat} (h : UserBuffer buf len) :
    readReturns k t buf len .stdin = (0 < (k.ttys.pty k.activeVty).inputRing.dataLen : Bool) := by
  have hstart : 0x00400000 ≤ buf := h.start
  have hend : buf + len ≤ 0xBFFFFFFF := h.inside
  have hpos := h.pos
  have hnowrap : ¬((buf + len - 1) % 2 ^ 32 < buf ∨ Socket.outsideUser buf len) := by
    unfold Socket.outsideUser Socket.userSpaceStart Socket.userSpaceEnd
    omega
  show ttyReturns (Tty.sysReadStdin k.ttys t k.activeVty buf len ⟨false, false, false⟩) = _
  unfold Tty.sysReadStdin
  rw [if_neg (by omega), if_neg hnowrap]
  dsimp only
  rw [if_neg Bool.false_ne_true, ttyReturns_readResult, slaveRead_returns _ _ _ hpos]
  have hpty : ((Tty.setUserBuf (k.ttys.modify k.activeVty fun x => { x with foreground := some t }) t buf).pty
      k.activeVty) = { k.ttys.pty k.activeVty with foreground := some t } := Function.update_self ..
  rw [hpty]
  simp [k.active_kernel]

theorem readSettled_right (k : Kernel) (t : Tid) {buf len : Nat} (h : UserBuffer buf len) {d : Desc}
    (hd : ReadSettled k d) : (fdPollCheckTask k d).forRead = readReturns k t buf len d := by
  cases d with
  | stdin =>
    rw [stdinRead_returns k t h]
    unfold fdPollCheckTask pollStdin Revents.forRead
    dsimp only
    split
    · rename_i hcanon
      rcases hd hcanon with hempty | hline
      · have hno : hasNewline (k.ttys.pty k.activeVty).inputRing = false := by
          rw [hasNewline, hempty]
          rfl
        simp [hno, hempty]
      · simp [hline, hasNewline_nonempty hline]
    · simp
  | stdout => exact hd.elim
  | pipe access p isReadEnd =>
    obtain ⟨hacc, rfl⟩ := hd
    show _ = ipcReturns (Ipc.sysRead k.pipes ⟨access, .pipeEnd p true⟩ len ⟨false, false, false⟩)
    unfold Ipc.sysRead
    rw [if_neg hacc, if_neg (by simp)]
    dsimp only
    rw [ipcReturns_readResult, pipeRead_returns _ _ h.pos]
    simp [fdPollCheckTask, pollPipe, Revents.forRead]
  | socket s =>
    have hs : Settled k.socks s := hd
    show (pollSocket k.socks s).forRead = sockReturns (Socket.sysRead k.socks t s buf len ⟨false, false, false⟩)
    unfold Socket.sysRead
    rw [if_neg fun h => Bool.false_ne_true h.2, sockReturns_readResult]
    exact hs.read.trans (socketRead_returns (Socket.setUserBuf k.socks t buf) t s h.pos hs.type).symm
  | pty access side q =>
    cases side with
    | master =>
      have hacc : access ≠ .wrOnly := hd
      show _ = (_ || ttyReturns (Tty.sysRead k.ttys t .master q buf len ⟨false, false, false⟩))
      unfold Tty.sysRead
      rw [if_neg fun h => Bool.false_ne_true h.2, ttyReturns_readResult]
      show _ = (_ || ttyReturns (Tty.ptyMasterRead _ _ _ _ _))
      rw [masterRead_returns _ _ _ h.pos]
      simp only [fdPollCheckTask, pollPty, Revents.forRead, hacc, decide_false, Bool.false_or, Bool.or_false]
      exact (Bool.decide_or _ _).symm
    | slave =>
      obtain ⟨hacc, hstate⟩ := hd
      show _ = (_ || ttyReturns (Tty.sysRead k.ttys t .slave q buf len ⟨false, false, false⟩))
      unfold Tty.sysRead
      rw [if_neg fun h => Bool.false_ne_true h.2, ttyReturns_readResult]
      show _ = (_ || ttyReturns (Tty.ptySlaveRead _ _ _ _ _))
      rw [slaveRead_returns _ _ _ h.pos]
      rcases hstate with hdata | hvty | hopen
      · simp [fdPollCheckTask, pollPty, Revents.forRead, Tty.setUserBuf, Tty.Kernel.modifyTask, hdata]
      · simp [fdPollCheckTask, pollPty, Revents.forRead, Tty.setUserBuf, Tty.Kernel.modifyTask, hacc, hvty]
      · simp [fdPollCheckTask, pollPty, Revents.forRead, Tty.setUserBuf, Tty.Kernel.modifyTask, hacc, hopen]

theorem writeSettled_right (k : Kernel) (t : Tid) (c : UInt8) {d : Desc} (hd : WriteSettled k d) :
    (fdPollCheckTask k d).forWrite = writeReturns k t [c] d := by
  cases d with
  | stdin => rfl
  | stdout => rfl
  | pipe access p isReadEnd =>
    obtain ⟨hacc, rfl⟩ := hd
    have hwrite : writeReturns k t [c] (.pipe access p false) =
        ipcReturns (Ipc.taskIpcPipeWrite k.pipes p false [c] false) := by
      show ipcReturns (Ipc.sysWrite k.pipes access p false [c] ⟨false, false, false⟩) = _
      unfold Ipc.sysWrite
      rw [if_neg hacc, if_neg (by simp), if_neg (by simp)]
      dsimp only
      cases Ipc.taskIpcPipeWrite k.pipes p false [c] false with
      | sleeps k => rfl
      | «returns» n bytes k =>
        dsimp only
        split <;> rfl
    rw [hwrite, pipeWrite_returns]
    simp [fdPollCheckTask, pollPipe, Revents.forWrite]
  | socket s =>
    show _ = sockReturns (Socket.sysWrite k.socks t s [c] ⟨false, false, false⟩)
    unfold Socket.sysWrite
    rw [if_neg fun h => Bool.false_ne_true h.2, if_neg Bool.false_ne_true, socketWrite_returns _ _ _ _ hd.type]
    exact hd.write
  | pty access side q =>
    have hpoll : (fdPollCheckTask k (.pty access side q)).forWrite = true := by cases side <;> rfl
    rw [hpoll]
    show true = (_ || ttyReturns _)
    rw [ttyWrite_returns, Bool.or_true]

/-- A listening socket has input when a connection waits to be accepted. -/
theorem listening_accept (k : Kernel) (t : Tid) {fd : Nat} (m : Socket.Mem) {s : Socket.Sid}
    (hfd : Socket.sockFromFd k.socks t fd = some s) (hl : (k.socks.sock s).state = .listening) :
    (fdPollCheckTask k (.socket s)).pollin = acceptReturns k t fd m := by
  unfold acceptReturns Socket.sysAccept
  rw [hfd]
  dsimp only
  rw [if_neg fun h => h hl]
  show (pollSocket k.socks s).pollin = _
  unfold pollSocket
  rw [if_pos hl]
  dsimp only
  by_cases hb : (k.socks.sock s).backlog.length = 0
  · rw [if_pos hb, if_neg Bool.false_ne_true, hb]
    rfl
  · rw [if_neg hb]
    exact decide_eq_true (Nat.pos_of_ne_zero hb)

def PipesStart (k : Ipc.Kernel) : Prop := ∀ p, (k.pipe p).readWaiters = [] ∧ (k.pipe p).writeWaiters = []

/-- Each part is in a state that a run of it leads to. -/
structure Reached (k : Kernel) : Prop where
  pipes : Run.Reachable PipesStart (fun k k' => ∃ op, Ipc.step k op = some k') k.pipes
  socks : Run.Reachable Socket.ConnStart (fun k k' => ∃ t op, Socket.step k t op = some k') k.socks
  ttys : Run.Reachable Tty.NoReaders Tty.Step k.ttys

/-- Empty pipes with both ends open. -/
def idlePipes : Ipc.Kernel where
  task := fun _ => ⟨.ready, 0, false, none⟩
  current := 1
  mode := .user
  pipe := fun _ => ⟨⟨fun _ => 0, 4096, 0, 0, 0⟩, 1, 1, [], []⟩
  pty := fun _ => ⟨⟨fun _ => 0, Ipc.ptyRingSize, 0, 0, 0⟩, 1, 1, [], true⟩
  results := []

/-- The kernel's terminals are 0 to 3, and the master side of the others is closed. -/
def idleTerminals : Tty.Kernel :=
  { Tty.quietTerminal with pty := fun q => { Tty.quietTerminal.pty q with kernelVty := q < 4 } }

def withSocks (socks : Socket.Kernel) : Kernel := ⟨idlePipes, socks, idleTerminals, 0, rfl⟩

theorem reached_withSocks {socks : Socket.Kernel} (ops : List (Tid × Socket.Op))
    (h : Run.exec Socket.next Socket.noSockets ops = some socks) : Reached (withSocks socks) where
  pipes := .start fun _ => ⟨rfl, rfl⟩
  socks := (Run.Reachable.start Socket.connStart_noSockets).exec (fun _ op _ hs => ⟨op.1, op.2, hs⟩) h
  ttys := .start fun _ => rfl

theorem userBuffer_one : UserBuffer 0x400000 1 := ⟨by decide, by decide, by decide⟩

/-- A read would return, and nothing is reported. -/
theorem not_right {k : Kernel} {d : Desc} (hpoll : (fdPollCheckTask k d).forRead = false)
    (hread : readReturns k 1 0x400000 1 d = true) : ¬Right k d := by
  intro h
  have heq := h.read 1 0x400000 1 userBuffer_one
  rw [hpoll, hread] at heq
  cases heq

/-- A run of socket calls after which a read of the socket 10 returns unannounced. -/
theorem not_right_socket (ops : List (Tid × Socket.Op)) {state : Socket.SockState}
    (h : (Run.exec Socket.next Socket.noSockets ops).map (fun k => ((k.sock 10).type, (k.sock 10).state,
      (pollSocket k 10).forRead, sockReturns (Socket.sysRead k 1 10 0x400000 1 ⟨false, false, false⟩))) =
      some (.stream, state, false, true)) :
    ∃ k, Reached k ∧ (k.socks.sock 10).type = .stream ∧ (k.socks.sock 10).state = state ∧ ¬Right k (.socket 10) := by
  obtain ⟨socks, hrun, hend⟩ := Option.map_eq_some_iff.mp h
  simp only [Prod.mk.injEq] at hend
  obtain ⟨htype, hstate, hpoll, hread⟩ := hend
  exact ⟨withSocks socks, reached_withSocks ops hrun, htype, hstate, not_right hpoll hread⟩

def pair : Tid × Socket.Op :=
  (1, .socketpair (some .stream) 0x400000 ⟨some 10, fun _ => 0⟩ ⟨some 11, fun _ => 0⟩ false false false)

end Serotonin.Poll
