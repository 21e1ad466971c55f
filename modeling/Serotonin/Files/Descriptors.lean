import Serotonin.Files.Model

/-! Descriptors as arguments of system calls: the check that each handler of `syscall.c` makes of
its own, and the indexes with which it then goes into the table of the caller. What a call does
with an open descriptor, with a socket or with the terminal is given. -/

namespace Serotonin.Descriptors

open Files (Tid HandleId fdMax ebadf efault einval)

/-! ## The code -/

abbrev Word := BitVec 32

def enotty : Int := 25
def enotsock : Int := 108
def exitSigkill : Int := 9
def fdSetsize : Nat := 64
def pollnval : Nat := 0x20

inductive Call where
  | read (fd buf size : Word)
  | write (fd buf size : Word)
  | close (fd : Word)
  | lseek (fd offset whence : Word)
  | fstat (fd addr : Word)
  | dup (oldfd newfd : Word)
  | bind (fd addr len : Word)
  | listen (fd backlog : Word)
  | accept (fd addr len : Word)
  | connect (fd addr len : Word)
  | send (fd buf len : Word)
  | recv (fd buf len : Word)
  | shutdown (fd how : Word)
  | isatty (fd : Word)
  | ptySetattr (fd attr : Word)
  | ptyGetattr (fd attr : Word)
  | ptyWinsize (fd ws flag : Word)
  | ptySetpgrp (fd : Word)
  | select (nfds args : Word)
  | poll (fds nfds timeout : Word)

/-- `struct kernel_pollfd` as the caller gives it. -/
structure Pollfd where
  fd : Word
  events : Nat

/-- The word at each index from the table of a task on, also where there is no table. `indexed` is no field of the
source: the indexes that a call has used. -/
structure System (K : Type) where
  fdTable : Tid → Int → Option HandleId
  current : Tid
  errno : Int
  revents : List Nat
  exited : Option Int
  kernel : K
  indexed : List Int

/-- What a call on a socket comes to: a result, or a new descriptor for a task that accepts. -/
inductive Served (K : Type) where
  | done (k : K) (errno : Int)
  | deliver (k : K) (t : Tid) (h : HandleId) (ok : Int → Int)

/-- What is done behind the checks. `sockOf` and `pty` look at the node of the handle. -/
structure Work (K : Type) where
  handle : Call → HandleId → K → K × Int
  terminal : Call → K → K × Int
  sockOf : HandleId → K → Option Nat
  socket : Call → Nat → K → Served K
  isPty : HandleId → K → Bool
  pty : Call → Option HandleId → K → K × Int
  retain : HandleId → K → K
  release : HandleId → K → K
  offset : HandleId → K → Nat
  size : HandleId → K → Nat
  setOffset : HandleId → Nat → K → K
  stat : Call → Option HandleId → K → K × Int
  badStat : Word → Bool
  revents : HandleId → K → Option Nat
  stdin : K → Nat
  stdout : Nat
  selectArgs : Call → K → Except Int (Nat → Bool)
  selectEnd : Call → List (Nat × Nat) → K → K × Int
  pollArgs : Call → K → Option (List Pollfd)
  pollMask : Nat → Nat → Nat
  pollBlock : Call → K → K × Int

section
variable {K : Type} (w : Work K)

namespace System

/-- One use of `fd_table[i]`. -/
def touch (s : System K) (i : Int) : System K := { s with indexed := s.indexed ++ [i] }

def put (s : System K) (t : Tid) (i : Int) (h : Option HandleId) : System K :=
  { s.touch i with fdTable := Function.update s.fdTable t (Function.update (s.fdTable t) i h) }

def ret (s : System K) (v : Int) : System K := { s with errno := v }

def work (s : System K) (f : K → K × Int) : System K := { s with kernel := (f s.kernel).1, errno := (f s.kernel).2 }

def change (s : System K) (f : K → K) : System K := { s with kernel := f s.kernel }

end System

/-- `handle_illegal_call`: the caller does not run again. -/
def illegalCall (s : System K) : System K := { s with exited := some exitSigkill }

def allocLoop (t : Tid) (h : HandleId) : Nat → Nat → System K → System K × Int
  | 0, _, s => (s, -1)
  | n + 1, i, s =>
    match s.fdTable t i with
    | some _ => allocLoop t h n (i + 1) (s.touch i)
    | none => (((s.touch i).put t i (some h)).change (w.retain h), i)

def allocFd (s : System K) (t : Tid) (h : HandleId) : System K × Int := allocLoop w t h fdMax 0 s

def closeFd (s : System K) (i : Int) : System K × Int :=
  if i < 0 ∨ fdMax ≤ i then (s, -1)
  else
    match s.fdTable s.current i with
    | none => (s.touch i, -1)
    | some h => ((((s.touch i).touch i).change (w.release h)).put s.current i none, 0)

/-- `sys_read` and `sys_write`: the descriptor is a number without a sign. -/
def sysTransfer (c : Call) (isTerminal : Nat → Bool) (fd : Word) (s : System K) : System K :=
  if fdMax ≤ fd.toNat then s.ret (-ebadf)
  else
    match s.fdTable s.current fd.toNat with
    | some h => ((s.touch fd.toNat).touch fd.toNat).work (w.handle c h)
    | none => if isTerminal fd.toNat then (s.touch fd.toNat).work (w.terminal c) else (s.touch fd.toNat).ret (-ebadf)

def sysRead (fd buf size : Word) : System K → System K := sysTransfer w (.read fd buf size) (fun i => i == 0) fd

def sysWrite (fd buf size : Word) : System K → System K :=
  sysTransfer w (.write fd buf size) (fun i => i == 1 || i == 2) fd

/-- The descriptor has a sign, and only the upper bound is checked here. -/
def sysClose (fd : Word) (s : System K) : System K :=
  if fdMax ≤ fd.toInt then s.ret (-ebadf)
  else
    match s.fdTable s.current fd.toInt with
    | none => (s.touch fd.toInt).ret (-ebadf)
    | some _ => (closeFd w (s.touch fd.toInt) fd.toInt).1

def seekTo (h : HandleId) (offset whence : Word) (k : K) : Option Int :=
  if whence.toNat = 0 then some offset.toInt
  else if whence.toNat = 1 then some (w.offset h k + offset.toInt)
  else if whence.toNat = 2 then some (w.size h k + offset.toInt) else none

/-- As in `sysClose`; and a descriptor that is not open is an illegal call. -/
def sysLseek (fd offset whence : Word) (s : System K) : System K :=
  if fdMax ≤ fd.toInt then illegalCall s
  else
    match s.fdTable s.current fd.toInt with
    | none => illegalCall (s.touch fd.toInt)
    | some h =>
      let s := (s.touch fd.toInt).touch fd.toInt
      match seekTo w h offset whence s.kernel with
      | none => illegalCall s
      | some v =>
        if v < 0 then s.ret (-einval)
        else (s.change (w.setOffset h (v.toNat % 2 ^ 32))).ret (BitVec.ofInt 32 v).toInt

/-- As in `sysClose`, with the terminal for the first three. -/
def sysFstat (fd addr : Word) (s : System K) : System K :=
  if fdMax ≤ fd.toInt then s.ret (-ebadf)
  else
    let h := s.fdTable s.current fd.toInt
    let s := s.touch fd.toInt
    if h = none ∧ 2 < fd.toInt then s.ret (-ebadf)
    else if w.badStat addr then s.ret (-efault)
    else
      let s := if fd.toInt < 3 then s.touch fd.toInt else s
      if fd.toInt < 3 ∧ h = none then s.work (w.stat (.fstat fd addr) none)
      else (s.touch fd.toInt).work (w.stat (.fstat fd addr) h)

def sysDup (oldfd newfd : Word) (s : System K) : System K :=
  if oldfd.toInt < 0 ∨ fdMax ≤ oldfd.toInt then s.ret (-ebadf)
  else
    match s.fdTable s.current oldfd.toInt with
    | none => (s.touch oldfd.toInt).ret (-ebadf)
    | some h =>
      let s := s.touch oldfd.toInt
      if newfd.toInt < 0 then
        let (s, a) := allocFd w (s.touch oldfd.toInt) s.current h
        s.ret a
      else if fdMax ≤ newfd.toInt then s.ret (-ebadf)
      else if newfd = oldfd then s.ret newfd.toInt
      else
        let s :=
          match s.fdTable s.current newfd.toInt with
          | none => s.touch newfd.toInt
          | some _ => (closeFd w (s.touch newfd.toInt) newfd.toInt).1
        let s := (s.touch oldfd.toInt).put s.current newfd.toInt (some h)
        ((s.touch newfd.toInt).change (w.retain h)).ret newfd.toInt

/-- The socket behind a descriptor. -/
def sockFromFd (fd : Word) (s : System K) : Option Nat × System K :=
  if fd.toInt < 0 ∨ fdMax ≤ fd.toInt then (none, s)
  else
    match s.fdTable s.current fd.toInt with
    | none => (none, s.touch fd.toInt)
    | some h => (w.sockOf h s.kernel, (s.touch fd.toInt).touch fd.toInt)

/-- The calls that want a socket. -/
def sysSocketCall (c : Call) (fd : Word) (s : System K) : System K :=
  match sockFromFd w fd s with
  | (none, s) => s.ret (-enotsock)
  | (some sock, s) =>
    match w.socket c sock s.kernel with
    | .done k v => { s with kernel := k, errno := v }
    | .deliver k t h ok =>
      let (s, a) := allocFd w { s with kernel := k } t h
      s.ret (ok a)

def sysBind (fd addr len : Word) : System K → System K := sysSocketCall w (.bind fd addr len) fd

def sysListen (fd backlog : Word) : System K → System K := sysSocketCall w (.listen fd backlog) fd

def sysAccept (fd addr len : Word) : System K → System K := sysSocketCall w (.accept fd addr len) fd

def sysConnect (fd addr len : Word) : System K → System K := sysSocketCall w (.connect fd addr len) fd

def sysShutdown (fd how : Word) : System K → System K := sysSocketCall w (.shutdown fd how) fd

/-- `sys_send` and `sys_recv`. -/
def sysMessage (c : Call) (fd : Word) (s : System K) : System K :=
  if fd.toInt < 0 ∨ fdMax ≤ fd.toInt then s.ret (-ebadf)
  else
    match s.fdTable s.current fd.toInt with
    | none => (s.touch fd.toInt).ret (-ebadf)
    | some h => ((s.touch fd.toInt).touch fd.toInt).work (w.handle c h)

def sysSend (fd buf len : Word) : System K → System K := sysMessage w (.send fd buf len) fd

def sysRecv (fd buf len : Word) : System K → System K := sysMessage w (.recv fd buf len) fd

/-- The terminal that a descriptor leads to: the active one without a handle for the first three. -/
def ptyFromFd (fd : Word) (s : System K) : Option (Option HandleId) × System K :=
  let h := s.fdTable s.current fd.toNat
  let s := if fd.toNat < 3 then s.touch fd.toNat else s
  if fd.toNat < 3 ∧ h = none then (some none, s)
  else if fd.toNat < fdMax then
    match h with
    | none => (none, s.touch fd.toNat)
    | some h => (if w.isPty h s.kernel then some (some h) else none, (s.touch fd.toNat).touch fd.toNat)
  else (none, s)

def sysIsatty (fd : Word) (s : System K) : System K :=
  let (p, s) := ptyFromFd w fd s
  s.ret (if p.isSome then 1 else 0)

def sysPtyCall (c : Call) (fd : Word) (s : System K) : System K :=
  match ptyFromFd w fd s with
  | (none, s) => s.ret (-enotty)
  | (some p, s) => s.work (w.pty c p)

def sysPtySetattr (fd attr : Word) : System K → System K := sysPtyCall w (.ptySetattr fd attr) fd

def sysPtyGetattr (fd attr : Word) : System K → System K := sysPtyCall w (.ptyGetattr fd attr) fd

def sysPtyWinsize (fd ws flag : Word) : System K → System K := sysPtyCall w (.ptyWinsize fd ws flag) fd

def sysPtySetpgrp (fd : Word) : System K → System K := sysPtyCall w (.ptySetpgrp fd) fd

/-- `fd_poll_check_task`; `none` is `POLLNVAL`. -/
def fdPollCheck (fd : Int) (s : System K) : Option Nat × System K :=
  let h := s.fdTable s.current fd
  let s := if fd = 0 then s.touch fd else s
  if fd = 0 ∧ h = none then (some (w.stdin s.kernel), s)
  else
    let s := if fd = 1 ∨ fd = 2 then s.touch fd else s
    if (fd = 1 ∨ fd = 2) ∧ h = none then (some w.stdout, s)
    else if fd < 0 ∨ fdMax ≤ fd then (none, s)
    else
      match h with
      | none => (none, s.touch fd)
      | some h => (w.revents h s.kernel, (s.touch fd).touch fd)

/-- The scan of `sys_select`, with `n` descriptors to go: what it has found, or nothing after a bad descriptor. -/
def selectLoop (want : Nat → Bool) : Nat → Nat → List (Nat × Nat) → System K → Option (List (Nat × Nat)) × System K
  | 0, _, found, s => (some found, s)
  | n + 1, fd, found, s =>
    if want fd then
      match fdPollCheck w fd s with
      | (none, s) => (none, s)
      | (some events, s) => selectLoop want n (fd + 1) (found ++ [(fd, events)]) s
    else selectLoop want n (fd + 1) found s

def sysSelect (nfds args : Word) (s : System K) : System K :=
  if nfds.toInt < 0 ∨ fdSetsize < nfds.toInt then s.ret (-einval)
  else
    match w.selectArgs (.select nfds args) s.kernel with
    | .error e => s.ret e
    | .ok want =>
      match selectLoop w want nfds.toNat 0 [] s with
      | (none, s) => s.ret (-ebadf)
      | (some found, s) => s.work (w.selectEnd (.select nfds args) found)

/-- The scan of `sys_poll`: the `revents` of each record. -/
def pollLoop : List Pollfd → System K → List Nat × System K
  | [], s => ([], s)
  | p :: ps, s =>
    if p.fd.toInt < 0 then
      let (rs, s) := pollLoop ps s
      (0 :: rs, s)
    else
      let (ev, s) := fdPollCheck w p.fd.toInt s
      let (rs, s) := pollLoop ps s
      ((match ev with
        | none => pollnval
        | some ev => w.pollMask p.events ev) :: rs, s)

def sysPoll (fds nfds timeout : Word) (s : System K) : System K :=
  if fdSetsize < nfds.toNat then s.ret (-einval)
  else if nfds.toNat = 0 then s.ret 0
  else
    match w.pollArgs (.poll fds nfds timeout) s.kernel with
    | none => s.ret (-efault)
    | some ps =>
      let (rs, s) := pollLoop w ps s
      let ready := rs.countP fun r => r != 0
      if 0 < ready ∨ timeout = 0 then { s with revents := rs, errno := ready }
      else s.work (w.pollBlock (.poll fds nfds timeout))

def dispatch : Call → System K → System K
  | .read fd buf size => sysRead w fd buf size
  | .write fd buf size => sysWrite w fd buf size
  | .close fd => sysClose w fd
  | .lseek fd offset whence => sysLseek w fd offset whence
  | .fstat fd addr => sysFstat w fd addr
  | .dup oldfd newfd => sysDup w oldfd newfd
  | .bind fd addr len => sysBind w fd addr len
  | .listen fd backlog => sysListen w fd backlog
  | .accept fd addr len => sysAccept w fd addr len
  | .connect fd addr len => sysConnect w fd addr len
  | .send fd buf len => sysSend w fd buf len
  | .recv fd buf len => sysRecv w fd buf len
  | .shutdown fd how => sysShutdown w fd how
  | .isatty fd => sysIsatty w fd
  | .ptySetattr fd attr => sysPtySetattr w fd attr
  | .ptyGetattr fd attr => sysPtyGetattr w fd attr
  | .ptyWinsize fd ws flag => sysPtyWinsize w fd ws flag
  | .ptySetpgrp fd => sysPtySetpgrp w fd
  | .select nfds args => sysSelect w nfds args
  | .poll fds nfds timeout => sysPoll w fds nfds timeout

/-- `system_call`, up to the handler's return. -/
def systemCall (c : Call) (s : System K) : System K := dispatch w c { s with errno := 0, indexed := [] }

end

end Serotonin.Descriptors
