import Serotonin.Lib.Run
import Serotonin.Poll.Readiness

/-! `sys_select` and `sys_poll` of `syscall.c`, which look at the descriptors at once, against
`poll_waiter_tick`, which looks at them again for the blocked tasks at every timer tick. -/

namespace Serotonin.Select

open Function List
open Poll (Kernel Revents Tid pollStdin pollPipe pollSocket pollPty)

def fdSetsize : Nat := 64

def fdMax : Nat := 64

def enomem : Int := 12
def efault : Int := 14
def einval : Int := 22
def ebadf : Int := 9

/-! ## Descriptors -/

/-- What an open handle leads to. A device here is one whose operations have a `poll`. -/
inductive Handle where
  | noNode
  | unattached
  | pipe (p : Nat) (isReadEnd : Bool)
  | socket (s : Socket.Sid)
  | pty (side : Tty.Side) (q : Nat)
  | device (n : Nat)
  | other

structure Files where
  kernel : Kernel
  devicePoll : Nat → Revents
  fdTable : Tid → Nat → Option Handle

def Handle.revents (f : Files) : Handle → Option Revents
  | .noNode => none
  | .unattached => some ⟨false, false, false, false⟩
  | .pipe p isReadEnd => some (pollPipe (f.kernel.pipes.pipe p) isReadEnd)
  | .socket s => some (pollSocket f.kernel.socks s)
  | .pty side q => some (pollPty (f.kernel.ttys.pty q) side)
  | .device n => some (f.devicePoll n)
  | .other => some ⟨true, true, false, false⟩

/-- The answer `POLLNVAL` is `none`: no other bit comes with it. -/
def fdPollCheckTask (f : Files) (t : Tid) (fd : Int) : Option Revents :=
  if fd = 0 ∧ (f.fdTable t 0).isNone then some (pollStdin (f.kernel.ttys.pty f.kernel.activeVty))
  else if (fd = 1 ∨ fd = 2) ∧ (f.fdTable t fd.toNat).isNone then some ⟨false, true, false, false⟩
  else if fd < 0 ∨ fdMax ≤ fd.toNat then none
  else (f.fdTable t fd.toNat).bind (Handle.revents f)

/-! ## The caller's memory -/

/-- The word at an address of the caller, if its pages are there. -/
abbrev UserMem := UInt32 → Option UInt32

/-- The words that `copy_to_user` is given, with their addresses. -/
abbrev Stores := List (UInt32 × UInt32)

/-- A `kernel_fd_set`, its two words together. -/
abbrev FdSet := BitVec 64

def isSet (fd : Nat) (s : FdSet) : Bool := s.getLsbD fd

def setFd (fd : Nat) (s : FdSet) : FdSet := s ||| BitVec.twoPow 64 fd

structure Timeval where
  tvSec : Int32
  tvUsec : Int32

structure Pollfd where
  fd : Int32
  events : BitVec 16
  revents : BitVec 16

def loadFdSet (u : UserMem) (a : UInt32) : Option FdSet := do
  let low ← u a
  let high ← u (a + 4)
  return high.toBitVec ++ low.toBitVec

def loadTimeval (u : UserMem) (a : UInt32) : Option Timeval := do
  let sec ← u a
  let usec ← u (a + 4)
  return ⟨sec.toInt32, usec.toInt32⟩

def loadPollfd (u : UserMem) (a : UInt32) : Option Pollfd := do
  let fd ← u a
  let bits ← u (a + 4)
  return ⟨fd.toInt32, bits.toBitVec.extractLsb' 0 16, bits.toBitVec.extractLsb' 16 16⟩

def loadPollfds (u : UserMem) (a : UInt32) : Nat → Option (List Pollfd)
  | 0 => some []
  | n + 1 => do
    let p ← loadPollfd u a
    let ps ← loadPollfds u (a + 8) n
    return p :: ps

def storeFdSet (a : UInt32) (s : FdSet) : Stores :=
  [(a, ⟨s.extractLsb' 0 32⟩), (a + 4, ⟨s.extractLsb' 32 32⟩)]

def storePollfds (a : UInt32) : List Pollfd → Stores
  | [] => []
  | p :: ps => (a, p.fd.toUInt32) :: (a + 4, ⟨p.revents ++ p.events⟩) :: storePollfds (a + 8) ps

/-! ## What is waited for -/

structure SelectSets where
  nfds : Nat
  readfds : FdSet
  writefds : FdSet
  exceptfds : FdSet
  readfdsPtr : UInt32
  writefdsPtr : UInt32
  exceptfdsPtr : UInt32

structure SelectCall where
  sets : SelectSets
  timeout : Option Timeval

structure PollCall where
  fdsPtr : UInt32
  pfds : List Pollfd
  timeout : Int32

/-- `poll_waiter_t`, with the fields of its type. -/
inductive Interest where
  | select (sets : SelectSets)
  | poll (fdsPtr : UInt32) (pfds : List Pollfd)

structure Waiter where
  task : Tid
  hasTimeout : Bool
  deadline : UInt64
  what : Interest

inductive Outcome where
  | returns (errno : Int) (stores : Stores)
  | blocks (w : Waiter)

/-- The milliseconds of a `timeval`, in the 64 bits the code computes them in. -/
def Timeval.ms (tv : Timeval) : UInt64 :=
  tv.tvSec.toInt64.toUInt64 * 1000 + (tv.tvUsec / 1000).toInt64.toUInt64

/-! ## Looking at the descriptors of a select -/

def SelectSets.wantR (a : SelectSets) (fd : Nat) : Bool := a.readfdsPtr ≠ 0 && isSet fd a.readfds

def SelectSets.wantW (a : SelectSets) (fd : Nat) : Bool := a.writefdsPtr ≠ 0 && isSet fd a.writefds

def SelectSets.wantE (a : SelectSets) (fd : Nat) : Bool := a.exceptfdsPtr ≠ 0 && isSet fd a.exceptfds

def SelectSets.wants (a : SelectSets) (fd : Nat) : Bool := a.wantR fd || a.wantW fd || a.wantE fd

structure Found where
  resR : FdSet
  resW : FdSet
  resE : FdSet
  ready : Nat

def Found.none : Found := ⟨0, 0, 0, 0⟩

def Found.read (r : Found) (fd : Nat) : Found := { r with resR := setFd fd r.resR, ready := r.ready + 1 }

def Found.write (r : Found) (fd : Nat) : Found := { r with resW := setFd fd r.resW, ready := r.ready + 1 }

def Found.except (r : Found) (fd : Nat) : Found := { r with resE := setFd fd r.resE, ready := r.ready + 1 }

/-- The three tests that both loops make of a descriptor's events. -/
def Found.look (r : Found) (a : SelectSets) (fd : Nat) (ev : Revents) : Found :=
  let r := if a.wantR fd && (ev.pollin || ev.pollhup || ev.pollerr) then r.read fd else r
  let r := if a.wantW fd && ev.pollout then r.write fd else r
  if a.wantE fd && ev.pollerr then r.except fd else r

/-- The loop of `sys_select`: a descriptor that is not open ends it. -/
def selectLoop (f : Files) (t : Tid) (a : SelectSets) : List Nat → Found → Option Found
  | [], r => some r
  | fd :: fds, r =>
    if a.wants fd then
      match fdPollCheckTask f t fd with
      | none => none
      | some ev => selectLoop f t a fds (r.look a fd ev)
    else selectLoop f t a fds r

/-- The loop of `poll_waiter_try_select`, where such a descriptor has no events. -/
def tryLoop (f : Files) (t : Tid) (a : SelectSets) : List Nat → Found → Found
  | [], r => r
  | fd :: fds, r =>
    if a.wants fd then
      match fdPollCheckTask f t fd with
      | none => tryLoop f t a fds r
      | some ev => tryLoop f t a fds (r.look a fd ev)
    else tryLoop f t a fds r

def SelectSets.stores (a : SelectSets) (r : Found) : Stores :=
  (if a.readfdsPtr ≠ 0 then storeFdSet a.readfdsPtr r.resR else []) ++
  (if a.writefdsPtr ≠ 0 then storeFdSet a.writefdsPtr r.resW else []) ++
  if a.exceptfdsPtr ≠ 0 then storeFdSet a.exceptfdsPtr r.resE else []

/-! ## Looking at the descriptors of a poll -/

def pollin : BitVec 16 := 0x0001
def pollout : BitVec 16 := 0x0004
def pollerr : BitVec 16 := 0x0008
def pollhup : BitVec 16 := 0x0010
def pollnval : BitVec 16 := 0x0020

/-- The body of the loops of `sys_poll` and `poll_waiter_try_poll`. -/
def Pollfd.look (f : Files) (t : Tid) (p : Pollfd) : Pollfd :=
  if p.fd < 0 then { p with revents := 0 }
  else
    { p with revents := match fdPollCheckTask f t p.fd.toInt with
        | none => pollnval
        | some ev =>
          (if p.events &&& pollin ≠ 0 ∧ ev.pollin then pollin else 0) |||
          (if p.events &&& pollout ≠ 0 ∧ ev.pollout then pollout else 0) |||
          (if ev.pollerr then pollerr else 0) ||| (if ev.pollhup then pollhup else 0) }

def countReady (ps : List Pollfd) : Nat := ps.countP fun p => p.revents ≠ 0

/-! ## The calls -/

def readSelect (u : UserMem) (nfds : Int32) (argsPtr : UInt32) : Except Int SelectCall := do
  if nfds < 0 ∨ fdSetsize < nfds.toInt.toNat then throw (-einval)
  let word (a : UInt32) := match u a with
    | some w => Except.ok w
    | none => .error (-efault)
  let readfdsPtr ← word argsPtr
  let writefdsPtr ← word (argsPtr + 4)
  let exceptfdsPtr ← word (argsPtr + 8)
  let timeoutPtr ← word (argsPtr + 12)
  let set (a : UInt32) := if a = 0 then Except.ok 0 else match loadFdSet u a with
    | some s => .ok s
    | none => .error (-efault)
  let readfds ← set readfdsPtr
  let writefds ← set writefdsPtr
  let exceptfds ← set exceptfdsPtr
  let timeout ← if timeoutPtr = 0 then Except.ok none else match loadTimeval u timeoutPtr with
    | some tv => .ok (some tv)
    | none => .error (-efault)
  return ⟨⟨nfds.toInt.toNat, readfds, writefds, exceptfds, readfdsPtr, writefdsPtr, exceptfdsPtr⟩, timeout⟩

/-- `sys_select` from the first look at the descriptors. -/
def selectCall (f : Files) (ticks : UInt64) (t : Tid) (c : SelectCall) (mallocFails : Bool) : Outcome :=
  match selectLoop f t c.sets (List.range c.sets.nfds) .none with
  | none => .returns (-ebadf) []
  | some r =>
    if 0 < r.ready ∨ c.timeout.any (·.ms = 0) then .returns r.ready (c.sets.stores r)
    else if mallocFails then .returns (-enomem) []
    else .blocks ⟨t, c.timeout.isSome, (c.timeout.map fun tv => ticks + tv.ms).getD 0, .select c.sets⟩

def sysSelect (f : Files) (ticks : UInt64) (t : Tid) (u : UserMem) (nfds : Int32) (argsPtr : UInt32)
    (mallocFails : Bool) : Outcome :=
  match readSelect u nfds argsPtr with
  | .error e => .returns e []
  | .ok c => selectCall f ticks t c mallocFails

/-- `sys_poll` from the first look at the descriptors. -/
def pollCall (f : Files) (ticks : UInt64) (t : Tid) (c : PollCall) (mallocFails : Bool) : Outcome :=
  let pfds := c.pfds.map (Pollfd.look f t)
  if 0 < countReady pfds ∨ c.timeout = 0 then .returns (countReady pfds) (storePollfds c.fdsPtr pfds)
  else if mallocFails then .returns (-enomem) []
  else
    .blocks ⟨t, 0 ≤ c.timeout, if 0 ≤ c.timeout then ticks + c.timeout.toInt64.toUInt64 else 0, .poll c.fdsPtr pfds⟩

def sysPoll (f : Files) (ticks : UInt64) (t : Tid) (u : UserMem) (fdsPtr nfds : UInt32) (timeout : Int32)
    (mallocFails : Bool) : Outcome :=
  if fdSetsize < nfds.toNat then .returns (-einval) []
  else if nfds = 0 then .returns 0 []
  else match loadPollfds u fdsPtr nfds.toNat with
    | none => .returns (-efault) []
    | some pfds => pollCall f ticks t ⟨fdsPtr, pfds, timeout⟩ mallocFails

def noSets : SelectSets := ⟨0, 0, 0, 0, 0, 0, 0⟩

/-- The waiter of `sys_usleep` is one of a select of nothing. -/
def sysUsleep (ticks : UInt64) (t : Tid) (us : UInt32) (mallocFails : Bool) : Outcome :=
  if us = 0 then .returns 0 []
  else if mallocFails then .returns (-enomem) []
  else .blocks ⟨t, true, ticks + (us.toUInt64 + 999) / 1000, .select noSets⟩

/-! ## The timer tick -/

inductive Tried where
  | done (ready : Nat) (stores : Stores)
  | waits (w : Waiter)

def Waiter.expired (w : Waiter) (ticks : UInt64) : Bool := w.hasTimeout && w.deadline ≤ ticks

def pollWaiterTrySelect (f : Files) (ticks : UInt64) (w : Waiter) (a : SelectSets) : Tried :=
  let r := tryLoop f w.task a (List.range a.nfds) .none
  if 0 < r.ready ∨ w.expired ticks then .done r.ready (a.stores r) else .waits w

/-- The results stay in the waiter's array. -/
def pollWaiterTryPoll (f : Files) (ticks : UInt64) (w : Waiter) (fdsPtr : UInt32) (pfds : List Pollfd) : Tried :=
  let pfds := pfds.map (Pollfd.look f w.task)
  if 0 < countReady pfds ∨ w.expired ticks then .done (countReady pfds) (storePollfds fdsPtr pfds)
  else .waits { w with what := .poll fdsPtr pfds }

def Waiter.try (f : Files) (ticks : UInt64) (w : Waiter) : Tried :=
  match w.what with
  | .select a => pollWaiterTrySelect f ticks w a
  | .poll fdsPtr pfds => pollWaiterTryPoll f ticks w fdsPtr pfds

/-- The call that a blocked task is in. -/
inductive Call where
  | select (c : SelectCall)
  | poll (c : PollCall)
  | usleep (us : UInt32)
  | other

/-- A call with the tick at which the task blocked in it. -/
structure Pending where
  call : Call
  since : UInt64

/-- `eax` is that of the saved context, `stored` what completed calls have stored in the
task's memory. A task with a pending call is blocked. -/
structure Task where
  pending : Option Pending
  eax : Int
  stored : Stores

structure System where
  files : Files
  timerTicks : UInt64
  task : Tid → Task
  waiters : List Waiter

/-- The end of a call: its count and its results, and the task is unblocked. -/
def Task.complete (x : Task) (ready : Nat) (stores : Stores) : Task := ⟨none, ready, x.stored ++ stores⟩

/-- `poll_waiter_tick`: the tasks, and the waiters that are left. -/
def pollWaiterTick (f : Files) (ticks : UInt64) : List Waiter → (Tid → Task) → (Tid → Task) × List Waiter
  | [], task => (task, [])
  | w :: ws, task =>
    match w.try f ticks with
    | .done ready stores =>
      pollWaiterTick f ticks ws (update task w.task ((task w.task).complete ready stores))
    | .waits w' =>
      let rest := pollWaiterTick f ticks ws task
      (rest.1, w' :: rest.2)

/-- The part of the timer interrupt that concerns the waiters. -/
def tick (s : System) : System :=
  let ticks := s.timerTicks + 1
  let after := pollWaiterTick s.files ticks s.waiters s.task
  { s with timerTicks := ticks, task := after.1, waiters := after.2 }

/-! ## Runs -/

/-- `unblock` is a `task_unblock` by a signal or by whoever has the task in a queue of its own,
`block` any other call that blocks. The table of a task changes in its own calls. -/
inductive Op where
  | tick
  | select (t : Tid) (u : UserMem) (nfds : Int32) (argsPtr : UInt32) (mallocFails : Bool)
  | poll (t : Tid) (u : UserMem) (fdsPtr nfds : UInt32) (timeout : Int32) (mallocFails : Bool)
  | usleep (t : Tid) (us : UInt32) (mallocFails : Bool)
  | block (t : Tid)
  | unblock (t : Tid)
  | devices (k : Kernel) (devicePoll : Nat → Revents)
  | table (t : Tid) (fds : Nat → Option Handle)

def System.setPending (s : System) (t : Tid) (p : Option Pending) : System :=
  { s with task := update s.task t { s.task t with pending := p } }

/-- A call that returns leaves its result in the caller's context, one that blocks leaves a waiter. -/
def System.finish (s : System) (t : Tid) (call : Call) : Outcome → System
  | .returns errno stores =>
    { s with task := update s.task t ⟨none, errno, (s.task t).stored ++ stores⟩ }
  | .blocks w => { s.setPending t (some ⟨call, s.timerTicks⟩) with waiters := w :: s.waiters }

def idle (s : System) (t : Tid) : Bool := (s.task t).pending.isNone

def selectOf (u : UserMem) (nfds : Int32) (argsPtr : UInt32) : Call :=
  match readSelect u nfds argsPtr with
  | .error _ => .other
  | .ok c => .select c

def pollOf (u : UserMem) (fdsPtr nfds : UInt32) (timeout : Int32) : Call :=
  match loadPollfds u fdsPtr nfds.toNat with
  | none => .other
  | some pfds => .poll ⟨fdsPtr, pfds, timeout⟩

def step (s : System) : Op → Option System
  | .tick => some (tick s)
  | .select t u nfds argsPtr mallocFails =>
    if idle s t then
      some (s.finish t (selectOf u nfds argsPtr) (sysSelect s.files s.timerTicks t u nfds argsPtr mallocFails))
    else none
  | .poll t u fdsPtr nfds timeout mallocFails =>
    if idle s t then
      some (s.finish t (pollOf u fdsPtr nfds timeout)
        (sysPoll s.files s.timerTicks t u fdsPtr nfds timeout mallocFails))
    else none
  | .usleep t us mallocFails =>
    if idle s t then some (s.finish t (.usleep us) (sysUsleep s.timerTicks t us mallocFails)) else none
  | .block t => if idle s t then some (s.setPending t (some ⟨.other, s.timerTicks⟩)) else none
  | .unblock t => some (s.setPending t none)
  | .devices k devicePoll => some { s with files := { s.files with kernel := k, devicePoll := devicePoll } }
  | .table t fds =>
    if idle s t then some { s with files := { s.files with fdTable := update s.files.fdTable t fds } }
    else none

/-! ## What a tick should do -/

/-- The tick from which on a call is over, whatever is ready. -/
def Pending.deadline (p : Pending) : Option UInt64 :=
  match p.call with
  | .select c => c.timeout.map fun tv => p.since + tv.ms
  | .poll c => if 0 ≤ c.timeout then some (p.since + c.timeout.toInt64.toUInt64) else none
  | .usleep us => some (p.since + (us.toUInt64 + 999) / 1000)
  | .other => none

def Pending.over (p : Pending) (ticks : UInt64) : Bool := p.deadline.any (· ≤ ticks)

/-- A select or a poll issued afresh with zero timeout. -/
def fresh (f : Files) (ticks : UInt64) (t : Tid) : Call → Option Outcome
  | .select c => some (selectCall f ticks t { c with timeout := some ⟨0, 0⟩ } false)
  | .poll c => some (pollCall f ticks t { c with timeout := 0 } false)
  | _ => none

def Call.isSelectOrPoll : Call → Bool
  | .select _ | .poll _ => true
  | _ => false

/-- The next tick completes the call of a task as the fresh one would end, or leaves the task alone. -/
def TickExact (s : System) (t : Tid) (p : Pending) : Prop :=
  let now := s.timerTicks + 1
  ∃ count stores, fresh s.files now t p.call = some (.returns count stores) ∧
    (0 < count ∨ p.over now = true → (tick s).task t = ⟨none, count, (s.task t).stored ++ stores⟩) ∧
    (¬(0 < count ∨ p.over now = true) → (tick s).task t = s.task t)

/-! ## The two looks at the descriptors -/

variable {f g : Files} {t : Tid}

/-- Whether a descriptor is open is a matter of the task's own table. -/
theorem fdPollCheckTask_isSome (h : f.fdTable t = g.fdTable t) (fd : Int) :
    (fdPollCheckTask f t fd).isSome = (fdPollCheckTask g t fd).isSome := by
  unfold fdPollCheckTask
  rw [h]
  split
  · rfl
  · split
    · rfl
    · split
      · rfl
      · cases g.fdTable t fd.toNat with
        | none => rfl
        | some x => cases x <;> rfl

def Open (f : Files) (t : Tid) (a : SelectSets) (fds : List Nat) : Prop :=
  ∀ fd ∈ fds, a.wants fd = true → (fdPollCheckTask f t fd).isSome = true

theorem Open.of_table {a : SelectSets} {fds : List Nat} (h : Open f t a fds) (htable : f.fdTable t = g.fdTable t) :
    Open g t a fds := by
  intro fd hfd hw
  rw [← fdPollCheckTask_isSome htable]
  exact h fd hfd hw

/-- As long as all its descriptors are open, the loop of `sys_select` is the other one. -/
theorem selectLoop_eq {a : SelectSets} : ∀ {fds : List Nat} (r : Found), Open f t a fds →
    selectLoop f t a fds r = some (tryLoop f t a fds r)
  | [], r, _ => rfl
  | fd :: fds, r, h => by
    have hrest : Open f t a fds := fun x hx => h x (mem_cons_of_mem fd hx)
    unfold selectLoop tryLoop
    by_cases hw : a.wants fd = true
    · obtain ⟨ev, hev⟩ := Option.isSome_iff_exists.mp (h fd mem_cons_self hw)
      simp only [hw, hev, if_true]
      exact selectLoop_eq _ hrest
    · simp only [hw]
      exact selectLoop_eq _ hrest

theorem open_of_selectLoop {a : SelectSets} : ∀ {fds : List Nat} {r r' : Found}, selectLoop f t a fds r = some r' →
    Open f t a fds
  | [], _, _, _ => fun _ hfd => absurd hfd not_mem_nil
  | fd :: fds, r, r', h => by
    intro x hx hw
    unfold selectLoop at h
    split at h
    · split at h
      · cases h
      · rename_i ev hev
        rcases mem_cons.mp hx with rfl | hx
        · simp [hev]
        · exact open_of_selectLoop h x hx hw
    · rename_i hno
      rcases mem_cons.mp hx with rfl | hx
      · exact absurd hw hno
      · exact open_of_selectLoop h x hx hw

def Pollfd.cleared (p : Pollfd) : Pollfd := { p with revents := 0 }

@[simp] theorem Pollfd.look_cleared (p : Pollfd) : p.cleared.look f t = p.look f t := rfl

@[simp] theorem Pollfd.cleared_look (p : Pollfd) : (p.look f t).cleared = p.cleared := by
  unfold Pollfd.look
  split <;> rfl

/-- What was found before is forgotten. -/
theorem map_look {ps qs : List Pollfd} (h : ps.map Pollfd.cleared = qs.map Pollfd.cleared) :
    ps.map (Pollfd.look f t) = qs.map (Pollfd.look f t) := by
  have hmap : ∀ l : List Pollfd, l.map (Pollfd.look f t) = (l.map Pollfd.cleared).map (Pollfd.look f t) := by
    intro l
    simp
  rw [hmap, h, ← hmap]

theorem map_cleared_look (ps : List Pollfd) : (ps.map (Pollfd.look f t)).map Pollfd.cleared = ps.map Pollfd.cleared := by
  simp

/-! ## Waiters and calls -/

def Waiter.limit (w : Waiter) : Option UInt64 := if w.hasTimeout then some w.deadline else none

theorem Waiter.expired_eq (w : Waiter) (ticks : UInt64) : w.expired ticks = w.limit.any (· ≤ ticks) := by
  unfold Waiter.expired Waiter.limit
  cases w.hasTimeout <;> rfl

/-- The calls that leave a waiter. -/
def Call.waits : Call → Bool
  | .other => false
  | _ => true

/-- What a waiter of a call looks at. -/
inductive Asks (f : Files) (t : Tid) : Interest → Call → Prop
  | select {c : SelectCall} : Open f t c.sets (List.range c.sets.nfds) → Asks f t (.select c.sets) (.select c)
  | poll {c : PollCall} {pfds : List Pollfd} : pfds.map Pollfd.cleared = c.pfds.map Pollfd.cleared →
      Asks f t (.poll c.fdsPtr pfds) (.poll c)
  | usleep {us : UInt32} : Asks f t (.select noSets) (.usleep us)

theorem Asks.of_table {what : Interest} {call : Call} (h : Asks f t what call) (htable : f.fdTable t = g.fdTable t) :
    Asks g t what call := by
  cases h with
  | select hopen => exact .select (hopen.of_table htable)
  | poll hp => exact .poll hp
  | usleep => exact .usleep

theorem Asks.waits {what : Interest} {call : Call} (h : Asks f t what call) : call.waits = true := by
  cases h <;> rfl

structure Serves (f : Files) (w : Waiter) (p : Pending) : Prop where
  asks : Asks f w.task w.what p.call
  limit : w.limit = p.deadline

/-- Each waiter is that of the call its task is blocked in, and no task has two. -/
structure Inv (s : System) : Prop where
  nodup : (s.waiters.map Waiter.task).Nodup
  serves : ∀ w ∈ s.waiters, ∃ p, (s.task w.task).pending = some p ∧ Serves s.files w p
  queued : ∀ t p, (s.task t).pending = some p → p.call.waits = true → ∃ w ∈ s.waiters, w.task = t

theorem Inv.waiter {s : System} (h : Inv s) {p : Pending} (hp : (s.task t).pending = some p)
    (hw : p.call.waits = true) : ∃ w ∈ s.waiters, w.task = t ∧ Serves s.files w p := by
  obtain ⟨w, hmem, rfl⟩ := h.queued t p hp hw
  obtain ⟨q, hq, hserves⟩ := h.serves w hmem
  rw [hp] at hq
  exact ⟨w, hmem, rfl, Option.some.inj hq ▸ hserves⟩

/-- The task of a waiter is blocked. -/
theorem Inv.not_idle {s : System} (h : Inv s) {w : Waiter} (hw : w ∈ s.waiters) : idle s w.task = false := by
  obtain ⟨p, hp, -⟩ := h.serves w hw
  simp [idle, hp]

/-! ## One tick -/

theorem Waiter.try_task {w w' : Waiter} {ticks : UInt64} (h : w.try f ticks = .waits w') : w'.task = w.task := by
  unfold Waiter.try at h
  split at h
  · unfold pollWaiterTrySelect at h
    dsimp only at h
    split at h
    · cases h
    · cases h
      rfl
  · unfold pollWaiterTryPoll at h
    dsimp only at h
    split at h
    · cases h
    · cases h
      rfl

theorem Serves.try {w w' : Waiter} {p : Pending} {ticks : UInt64} (hs : Serves f w p)
    (h : w.try f ticks = .waits w') : Serves f w' p := by
  obtain ⟨task, hasTimeout, deadline, what⟩ := w
  obtain ⟨asks, limit⟩ := hs
  unfold Waiter.try at h
  dsimp only at asks h
  cases what with
  | select a =>
    dsimp only [pollWaiterTrySelect] at h
    split at h
    · cases h
    · cases h
      exact ⟨asks, limit⟩
  | poll fdsPtr pfds =>
    dsimp only [pollWaiterTryPoll] at h
    split at h
    · cases h
    · cases h
      refine ⟨?_, limit⟩
      generalize hcall : p.call = call at asks
      cases asks with
      | poll hp => exact .poll ((map_cleared_look pfds).trans hp)

section PollWaiterTick

variable {ticks : UInt64}

theorem pollWaiterTick_other : ∀ {ws : List Waiter} (task : Tid → Task), t ∉ ws.map Waiter.task →
    (pollWaiterTick f ticks ws task).1 t = task t
  | [], _, _ => rfl
  | w :: ws, task, ht => by
    obtain ⟨hne, hrest⟩ := not_or.mp (fun h => ht (mem_cons.mpr h))
    unfold pollWaiterTick
    split
    · rw [pollWaiterTick_other _ hrest, update_of_ne hne]
    · exact pollWaiterTick_other task hrest

/-- Only its own waiter has to do with a task. -/
theorem pollWaiterTick_mem : ∀ {ws : List Waiter} (task : Tid → Task), (ws.map Waiter.task).Nodup → ∀ {w : Waiter}, w ∈ ws →
    (pollWaiterTick f ticks ws task).1 w.task = match w.try f ticks with
      | .done ready stores => (task w.task).complete ready stores
      | .waits _ => task w.task
  | v :: ws, task, hnodup, w, hw => by
    obtain ⟨hnotin, hrest⟩ := nodup_cons.mp hnodup
    unfold pollWaiterTick
    rcases mem_cons.mp hw with rfl | hw
    · split
      · rw [pollWaiterTick_other _ hnotin, update_self]
      · exact pollWaiterTick_other task hnotin
    · have hne : w.task ≠ v.task := by
        intro heq
        exact hnotin (heq ▸ mem_map_of_mem hw)
      split
      · rw [pollWaiterTick_mem _ hrest hw, update_of_ne hne]
      · exact pollWaiterTick_mem task hrest hw

theorem mem_pollWaiterTick : ∀ {ws : List Waiter} (task : Tid → Task) {w' : Waiter},
    w' ∈ (pollWaiterTick f ticks ws task).2 ↔ ∃ w ∈ ws, w.try f ticks = .waits w'
  | [], _, w' => by simp [pollWaiterTick]
  | v :: ws, task, w' => by
    unfold pollWaiterTick
    split
    · rename_i hv
      rw [mem_pollWaiterTick]
      simp [hv]
    · rename_i hv
      rw [mem_cons, mem_pollWaiterTick]
      simp [hv, eq_comm]

theorem pollWaiterTick_tasks : ∀ {ws : List Waiter} (task : Tid → Task),
    ((pollWaiterTick f ticks ws task).2.map Waiter.task).Sublist (ws.map Waiter.task)
  | [], _ => List.Sublist.refl _
  | w :: ws, task => by
    unfold pollWaiterTick
    split
    · exact (pollWaiterTick_tasks _).cons _
    · rename_i hw
      simp only [map_cons, Waiter.try_task hw]
      exact (pollWaiterTick_tasks task).cons_cons _

end PollWaiterTick

/-- A tick leaves the pending call of a task as it is, or completes it. -/
theorem tick_task {s : System} (h : Inv s) (t : Tid) :
    (tick s).task t = s.task t ∨ ((tick s).task t).pending = none := by
  show (pollWaiterTick s.files (s.timerTicks + 1) s.waiters s.task).1 t = _ ∨
    ((pollWaiterTick s.files (s.timerTicks + 1) s.waiters s.task).1 t).pending = none
  by_cases ht : t ∈ s.waiters.map Waiter.task
  · obtain ⟨w, hw, rfl⟩ := mem_map.mp ht
    rw [pollWaiterTick_mem s.task h.nodup hw]
    split
    · exact .inr rfl
    · exact .inl rfl
  · exact .inl (pollWaiterTick_other s.task ht)

theorem Inv.tick {s : System} (h : Inv s) : Inv (tick s) where
  nodup := h.nodup.sublist (pollWaiterTick_tasks s.task)
  serves := by
    intro w' hw'
    obtain ⟨w, hw, htry⟩ := (mem_pollWaiterTick s.task).mp hw'
    obtain ⟨p, hp, hserves⟩ := h.serves w hw
    refine ⟨p, ?_, hserves.try htry⟩
    have hsame : (Select.tick s).task w.task = _ := pollWaiterTick_mem s.task h.nodup hw
    rw [htry] at hsame
    rw [Waiter.try_task htry]
    exact (congrArg Task.pending hsame).trans hp
  queued := by
    intro t p hp hwaits
    have hbefore : (s.task t).pending = some p := by
      rcases tick_task h t with heq | hnone
      · rwa [heq] at hp
      · rw [hnone] at hp
        cases hp
    obtain ⟨w, hw, rfl⟩ := h.queued t p hbefore hwaits
    have hsame : (Select.tick s).task w.task = _ := pollWaiterTick_mem s.task h.nodup hw
    cases htry : w.try s.files (s.timerTicks + 1) with
    | done ready stores =>
      rw [htry] at hsame
      rw [show (Select.tick s).task w.task = _ from hsame] at hp
      cases hp
    | waits w' => exact ⟨w', (mem_pollWaiterTick s.task).mpr ⟨w, hw, htry⟩, Waiter.try_task htry⟩

/-! ## The other steps -/

/-- A new waiter is that of its call. -/
theorem serves_selectCall {ticks : UInt64} {c : SelectCall} {m : Bool} {w : Waiter}
    (h : selectCall f ticks t c m = .blocks w) : w.task = t ∧ Serves f w ⟨.select c, ticks⟩ := by
  unfold selectCall at h
  split at h
  · cases h
  · rename_i r hloop
    split at h
    · cases h
    · split at h
      · cases h
      · cases h
        refine ⟨rfl, .select (open_of_selectLoop hloop), ?_⟩
        show (if c.timeout.isSome = true then _ else _) = c.timeout.map _
        cases c.timeout <;> rfl

theorem serves_pollCall {ticks : UInt64} {c : PollCall} {m : Bool} {w : Waiter}
    (h : pollCall f ticks t c m = .blocks w) : w.task = t ∧ Serves f w ⟨.poll c, ticks⟩ := by
  unfold pollCall at h
  dsimp only at h
  split at h
  · cases h
  · split at h
    · cases h
    · cases h
      refine ⟨rfl, .poll (map_cleared_look c.pfds), ?_⟩
      unfold Waiter.limit Pending.deadline
      by_cases hc : 0 ≤ c.timeout <;> simp [hc]

theorem serves_sysUsleep {ticks : UInt64} {us : UInt32} {m : Bool} {w : Waiter}
    (h : sysUsleep ticks t us m = .blocks w) : w.task = t ∧ Serves f w ⟨.usleep us, ticks⟩ := by
  unfold sysUsleep at h
  split at h
  · cases h
  · split at h
    · cases h
    · cases h
      exact ⟨rfl, .usleep, rfl⟩

theorem serves_sysSelect {ticks : UInt64} {u : UserMem} {nfds : Int32} {argsPtr : UInt32} {m : Bool} {w : Waiter}
    (h : sysSelect f ticks t u nfds argsPtr m = .blocks w) :
    w.task = t ∧ Serves f w ⟨selectOf u nfds argsPtr, ticks⟩ := by
  unfold sysSelect at h
  unfold selectOf
  split at h
  · cases h
  · exact serves_selectCall h

theorem serves_sysPoll {ticks : UInt64} {u : UserMem} {fdsPtr nfds : UInt32} {timeout : Int32} {m : Bool} {w : Waiter}
    (h : sysPoll f ticks t u fdsPtr nfds timeout m = .blocks w) :
    w.task = t ∧ Serves f w ⟨pollOf u fdsPtr nfds timeout, ticks⟩ := by
  unfold sysPoll at h
  unfold pollOf
  split at h
  · cases h
  · split at h
    · cases h
    · split at h
      · cases h
      · exact serves_pollCall h

/-- The waiters and the calls of the others do not change when an idle task returns or blocks elsewhere. -/
theorem Inv.update {s : System} (h : Inv s) (hidle : idle s t = true) (x : Task)
    (hx : ∀ p, x.pending = some p → p.call.waits = false) :
    Inv { s with task := update s.task t x } where
  nodup := h.nodup
  serves := by
    intro w hw
    have hne : w.task ≠ t := by
      rintro rfl
      rw [h.not_idle hw] at hidle
      cases hidle
    simp only [update_of_ne hne]
    exact h.serves w hw
  queued := by
    intro u p hp hwaits
    by_cases hut : u = t
    · subst hut
      simp only [update_self] at hp
      rw [hx p hp] at hwaits
      cases hwaits
    · simp only [update_of_ne hut] at hp
      exact h.queued u p hp hwaits

theorem Inv.blocks {s : System} (h : Inv s) {call : Call} {w : Waiter} (hidle : idle s w.task = true)
    (hw : Serves s.files w ⟨call, s.timerTicks⟩) : Inv (s.finish w.task call (.blocks w)) where
  nodup := by
    refine nodup_cons.mpr ⟨?_, h.nodup⟩
    intro hmem
    obtain ⟨v, hv, heq⟩ := mem_map.mp hmem
    rw [← heq, h.not_idle hv] at hidle
    cases hidle
  serves := by
    intro v hv
    rcases mem_cons.mp hv with rfl | hv
    · exact ⟨⟨call, s.timerTicks⟩, by simp [System.finish, System.setPending], hw⟩
    · have hne : v.task ≠ w.task := by
        intro heq
        rw [← heq, h.not_idle hv] at hidle
        cases hidle
      obtain ⟨p, hp, hserves⟩ := h.serves v hv
      exact ⟨p, by simp [System.finish, System.setPending, update_of_ne hne, hp], hserves⟩
  queued := by
    intro u p hp hwaits
    by_cases hut : u = w.task
    · exact ⟨w, mem_cons_self, hut.symm⟩
    · simp only [System.finish, System.setPending, update_of_ne hut] at hp
      obtain ⟨v, hv, heq⟩ := h.queued u p hp hwaits
      exact ⟨v, mem_cons_of_mem w hv, heq⟩

theorem Inv.finish {s : System} (h : Inv s) (hidle : idle s t = true) {call : Call} {o : Outcome}
    (ho : ∀ w, o = .blocks w → w.task = t ∧ Serves s.files w ⟨call, s.timerTicks⟩) : Inv (s.finish t call o) := by
  cases o with
  | «returns» errno stores => exact h.update hidle ⟨none, errno, _⟩ (fun p hp => nomatch hp)
  | blocks w =>
    obtain ⟨rfl, hserves⟩ := ho w rfl
    exact h.blocks hidle hserves

/-- The files may change, except for the tables of the tasks that are blocked. -/
theorem Inv.setFiles {s : System} (h : Inv s) (f : Files)
    (hf : ∀ t, idle s t = false → s.files.fdTable t = f.fdTable t) : Inv { s with files := f } where
  nodup := h.nodup
  serves := by
    intro w hw
    obtain ⟨p, hp, hserves⟩ := h.serves w hw
    exact ⟨p, hp, hserves.asks.of_table (hf w.task (h.not_idle hw)), hserves.limit⟩
  queued := h.queued

/-- No task is unblocked from elsewhere while it is in one of the calls that leave a waiter. -/
def Undisturbed (s : System) : Op → Prop
  | .unblock t => ∀ p, (s.task t).pending = some p → p.call.waits = false
  | _ => True

theorem Inv.unblock {s : System} (h : Inv s) (hq : Undisturbed s (.unblock t)) : Inv (s.setPending t none) where
  nodup := h.nodup
  serves := by
    intro w hw
    obtain ⟨p, hp, hserves⟩ := h.serves w hw
    have hne : w.task ≠ t := by
      rintro rfl
      have hno := hq p hp
      rw [hserves.asks.waits] at hno
      cases hno
    exact ⟨p, by simp [System.setPending, update_of_ne hne, hp], hserves⟩
  queued := by
    intro u p hp hwaits
    by_cases hut : u = t
    · subst hut
      simp [System.setPending] at hp
    · simp only [System.setPending, update_of_ne hut] at hp
      exact h.queued u p hp hwaits

theorem Inv.step {s s' : System} (h : Inv s) {op : Op} (hq : Undisturbed s op) (hs : step s op = some s') : Inv s' := by
  cases op with
  | tick =>
    cases hs
    exact h.tick
  | select t u nfds argsPtr m =>
    dsimp only [Select.step] at hs
    split at hs
    · rename_i hidle
      cases hs
      exact h.finish hidle fun w hw => serves_sysSelect hw
    · cases hs
  | poll t u fdsPtr nfds timeout m =>
    dsimp only [Select.step] at hs
    split at hs
    · rename_i hidle
      cases hs
      exact h.finish hidle fun w hw => serves_sysPoll hw
    · cases hs
  | usleep t us m =>
    dsimp only [Select.step] at hs
    split at hs
    · rename_i hidle
      cases hs
      exact h.finish hidle fun w hw => serves_sysUsleep hw
    · cases hs
  | block t =>
    dsimp only [Select.step] at hs
    split at hs
    · rename_i hidle
      cases hs
      refine h.update hidle _ fun p hp => ?_
      cases hp
      rfl
    · cases hs
  | unblock t =>
    cases hs
    exact h.unblock hq
  | devices k devicePoll =>
    cases hs
    exact h.setFiles _ fun t _ => rfl
  | table t fds =>
    dsimp only [Select.step] at hs
    split at hs
    · rename_i hidle
      cases hs
      refine h.setFiles _ fun u hu => ?_
      have hne : u ≠ t := by
        rintro rfl
        rw [hidle] at hu
        cases hu
      simp [update_of_ne hne]
    · cases hs

/-! ## Every tick of a run -/

/-- Nobody waits yet. -/
def NoWaiters (s : System) : Prop := s.waiters = [] ∧ ∀ t, (s.task t).pending = none

def UndisturbedStep (s s' : System) : Prop := ∃ op, Undisturbed s op ∧ step s op = some s'

theorem Inv.start {s : System} (h : NoWaiters s) : Inv s where
  nodup := by simp [h.1]
  serves := by simp [h.1]
  queued := by simp [h.2]

theorem Inv.reachable {s : System} (h : Run.Reachable NoWaiters UndisturbedStep s) : Inv s :=
  h.invariant Inv (fun _ => Inv.start) fun _ _ hi ⟨_, hq, hs⟩ => hi.step hq hs

theorem Serves.over_eq {w : Waiter} {p : Pending} (h : Serves f w p) (ticks : UInt64) : w.expired ticks = p.over ticks := by
  rw [w.expired_eq, h.limit]
  rfl

theorem zero_ms : (⟨0, 0⟩ : Timeval).ms = 0 := by decide

theorem fresh_select {c : SelectCall} {r : Found} (ticks : UInt64)
    (h : selectLoop f t c.sets (List.range c.sets.nfds) .none = some r) :
    fresh f ticks t (.select c) = some (.returns r.ready (c.sets.stores r)) := by
  unfold fresh selectCall
  dsimp only
  rw [h]
  simp [zero_ms]

theorem fresh_poll (c : PollCall) (ticks : UInt64) : fresh f ticks t (.poll c) =
    some (.returns (countReady (c.pfds.map (Pollfd.look f t))) (storePollfds c.fdsPtr (c.pfds.map (Pollfd.look f t)))) := by
  unfold fresh pollCall
  simp

/-- A waiter is tried as the fresh call would look. -/
theorem Serves.try_eq {w : Waiter} {p : Pending} (h : Serves f w p) (hcall : p.call.isSelectOrPoll = true) (ticks : UInt64) :
    ∃ ready stores, fresh f ticks w.task p.call = some (.returns (ready : Nat) stores) ∧
      (0 < ready ∨ p.over ticks = true → w.try f ticks = .done ready stores) ∧
      (¬(0 < ready ∨ p.over ticks = true) → ∃ w', w.try f ticks = .waits w') := by
  rw [← h.over_eq]
  obtain ⟨task, hasTimeout, deadline, what⟩ := w
  obtain ⟨asks, -⟩ := h
  obtain ⟨call, since⟩ := p
  dsimp only at asks hcall ⊢
  cases asks with
  | select hopen =>
    refine ⟨_, _, fresh_select ticks (selectLoop_eq .none hopen), fun hdone => ?_, fun hno => ?_⟩
    · exact if_pos hdone
    · exact ⟨_, if_neg hno⟩
  | poll hp =>
    refine ⟨_, _, fresh_poll _ ticks, fun hdone => ?_, fun hno => ?_⟩
    · rw [← map_look hp] at hdone ⊢
      exact if_pos hdone
    · rw [← map_look hp] at hno
      exact ⟨_, if_neg hno⟩
  | usleep => cases hcall

/-- Every tick completes the calls that a fresh call would return ready from, and those whose
deadline has passed, with the results of the fresh call, and no others. -/
theorem poll_waiters_exact {s : System} (h : Run.Reachable NoWaiters UndisturbedStep s) {t : Tid} {p : Pending}
    (hp : (s.task t).pending = some p) (hcall : p.call.isSelectOrPoll = true) : TickExact s t p := by
  have hi := Inv.reachable h
  have hwaits : p.call.waits = true := by
    generalize p.call = call at hcall
    cases call <;> first | rfl | cases hcall
  obtain ⟨w, hw, rfl, hserves⟩ := hi.waiter hp hwaits
  obtain ⟨ready, stores, hfresh, hdone, hwait⟩ := hserves.try_eq hcall (s.timerTicks + 1)
  have htick : (tick s).task w.task = _ := pollWaiterTick_mem s.task hi.nodup hw
  refine ⟨ready, stores, hfresh, fun hover => ?_, fun hno => ?_⟩
  · rw [htick, hdone (by simpa using hover)]
    rfl
  · obtain ⟨w', htry⟩ := hwait (by simpa using hno)
    rw [htick, htry]

/-! ## A task with two waiters -/

/-- Every word is zero, except for the pointer to a set to read from and its low half. -/
def asking (set : UInt32) : UserMem := fun a => some (if a = 0x401000 then 0x402000 else if a = 0x402000 then set else 0)

/-- Task 1 has the read ends of two pipes open as 3 and 4. -/
def twoPipes : System where
  files :=
    { kernel := Poll.withSocks Socket.noSockets
      devicePoll := fun _ => ⟨false, false, false, false⟩
      fdTable := fun _ fd => if fd = 3 then some (.pipe 0 true) else if fd = 4 then some (.pipe 1 true) else none }
  timerTicks := 0
  task := fun _ => ⟨none, 0, []⟩
  waiters := []

def byteInPipe0 : Op :=
  .devices
    { Poll.withSocks Socket.noSockets with
      pipes := { Poll.idlePipes with
        pipe := fun p => if p = 0 then ⟨⟨fun _ => 0, 4096, 0, 1, 1⟩, 1, 1, [], []⟩ else Poll.idlePipes.pipe p } }
    fun _ => ⟨false, false, false, false⟩

theorem noWaiters_twoPipes : NoWaiters twoPipes := ⟨rfl, fun _ => rfl⟩

/-- A select of the first pipe, a signal, a select of the second, and then input from the first. -/
def interrupted : List Op :=
  [.select 1 (asking 8) 5 0x401000 false, .unblock 1, .select 1 (asking 16) 5 0x401000 false, byteInPipe0]

/-- The tick completes a call from which a fresh one would return with nothing, before its deadline. -/
def completesUnready (s : System) (t : Tid) : Bool :=
  match (s.task t).pending with
  | none => false
  | some p => p.call.isSelectOrPoll && !p.over (s.timerTicks + 1) && ((tick s).task t).pending.isNone &&
      match fresh s.files (s.timerTicks + 1) t p.call with
      | some (.returns count _) => count = 0
      | _ => false

theorem not_tickExact {s : System} (h : completesUnready s t = true) :
    ∃ p, (s.task t).pending = some p ∧ p.call.isSelectOrPoll = true ∧ ¬TickExact s t p := by
  unfold completesUnready at h
  split at h
  · cases h
  · rename_i p hp
    simp only [Bool.and_eq_true, Bool.not_eq_true'] at h
    obtain ⟨⟨⟨hcall, hover⟩, hnone⟩, hfresh⟩ := h
    refine ⟨p, hp, hcall, ?_⟩
    rintro ⟨count, stores, heq, -, hwait⟩
    rw [heq] at hfresh
    have hcount : count = 0 := by simpa using hfresh
    rw [hwait (by simp [hcount, hover]), hp] at hnone
    cases hnone

/-- The waiter of an interrupted call stays in the list, and completes the next call of its task. -/
theorem not_poll_waiters_exact : ¬∀ s t p, Run.Reachable NoWaiters (fun s s' => ∃ op, step s op = some s') s →
    (s.task t).pending = some p → p.call.isSelectOrPoll = true → TickExact s t p := by
  intro h
  have hrun : (Run.exec step twoPipes interrupted).map (completesUnready · 1) = some true := by decide +kernel
  obtain ⟨s, hexec, hend⟩ := Option.map_eq_some_iff.mp hrun
  obtain ⟨p, hp, hcall, hnot⟩ := not_tickExact hend
  refine hnot (h s 1 p ?_ hp hcall)
  exact Run.Reachable.exec (fun _ op _ hs => ⟨op, hs⟩) (.start noWaiters_twoPipes) hexec

/-- Without the signal, the tick after the byte came ends the call as a fresh one would. -/
theorem poll_waiters_exact_twoPipes : ∃ s p, (s.task 1).pending = some p ∧ p.call.isSelectOrPoll = true ∧ TickExact s 1 p := by
  have hrun : (Run.exec step twoPipes [.select 1 (asking 8) 5 0x401000 false, byteInPipe0]).map
      (fun s => (s.task 1).pending.any (·.call.isSelectOrPoll)) = some true := by decide +kernel
  obtain ⟨s, hexec, hend⟩ := Option.map_eq_some_iff.mp hrun
  obtain ⟨p, hp, hcall⟩ := (Option.any_eq_true _ _).mp hend
  refine ⟨s, p, hp, hcall, poll_waiters_exact (.execOn ?_ (.start noWaiters_twoPipes) hexec) hp hcall⟩
  intro op hop s s' hs
  refine ⟨op, ?_, hs⟩
  simp only [byteInPipe0, List.mem_cons, List.not_mem_nil, or_false] at hop
  rcases hop with rfl | rfl <;> exact trivial

end Serotonin.Select
