import Mathlib.Data.List.Infix
import Mathlib.Logic.Function.Basic

/-! The init process of `user/init/init.c`: jobs that are started when what they depend on is
ready, each with a pipe from its output. What the kernel and the processes answer is given round
by round: descriptors, process numbers, which pipes are ready, what is read from them. A
descriptor that is in use cannot be given out, so any answer is a possible one. -/

namespace Serotonin.Init

def maxJobs : Nat := 16
def maxArgs : Nat := 8
def maxName : Nat := 32
def maxPath : Nat := 128
def maxPattern : Nat := 64
def maxDepsStr : Nat := 256
def lineBufSize : Nat := 512

/-- The bytes in an array that has room for one more, the final NUL. -/
@[ext] structure Text (size : Nat) where
  bytes : List UInt8
  fits : bytes.length < size
deriving DecidableEq

/-- `strncpy` of all but one byte of an array that was zero before. -/
def Text.cut {size : Nat} (h : 0 < size) (s : List UInt8) : Text size :=
  ⟨s.take (size - 1), by rw [List.length_take]; omega⟩

/-- The string that starts at the first byte. -/
def cstr (s : List UInt8) : List UInt8 := s.takeWhile (· != 0)

inductive ReadyMode
  | exit
  | start
  | stdout
deriving DecidableEq

inductive JobState
  | pending
  | running
  | ready
  | failed
  | exited
deriving DecidableEq

/-- What `parse_job_file` reads. -/
structure Config where
  execLine : Text maxPath
  readyMode : ReadyMode
  readyPattern : Text maxPattern
  after : Text maxDepsStr

/-- A descriptor or a process number of -1 is `none`. -/
structure Job extends Config where
  name : Text maxName
  state : JobState
  pid : Option Nat
  pipeFd : Option Nat
  logFd : Option Nat
  lineBuf : Text lineBufSize
  lastLog : List UInt8

/-- The bytes of the pending line, none so far. -/
def noLine : Text lineBufSize := ⟨[], by decide⟩

/-- A job as `parse_job_file` and its callers leave it. -/
def Job.fresh (c : Config) (name : List UInt8) : Job :=
  { toConfig := c, name := .cut (by decide) name, state := .pending, pid := none, pipeFd := none
    logFd := none, lineBuf := noLine, lastLog := [] }

/-! ## Descriptors -/

/-- The descriptors of init. Each opened file has a number of its own. -/
structure Kernel where
  file : Nat → Option Nat
  made : Nat

def Kernel.give (k : Kernel) (fd : Nat) : Kernel :=
  { file := Function.update k.file fd (some k.made), made := k.made + 1 }

/-- A call that opens one file. -/
def Kernel.opened (k : Kernel) : Option Nat → Kernel × Option Nat
  | none => (k, none)
  | some fd => if k.file fd = none then (k.give fd, some fd) else (k, none)

def Kernel.pipe (k : Kernel) : Option (Nat × Nat) → Option (Kernel × Nat × Nat)
  | none => none
  | some (r, w) => if k.file r = none ∧ k.file w = none ∧ r ≠ w then some ((k.give r).give w, r, w) else none

def Kernel.close (k : Kernel) : Option Nat → Kernel
  | none => k
  | some fd => { k with file := Function.update k.file fd none }

/-! ## Jobs -/

def findJob (jobs : List Job) (name : List UInt8) : Option Nat := jobs.findIdx? (·.name.bytes == name)

/-- Both ends of a word in `after`. -/
def isSep (c : UInt8) : Bool := c == 32 || c == 44

/-- The job that the word names is there and not done. -/
def unmet (jobs : List Job) (word : List UInt8) : Bool :=
  match (findJob jobs word).bind (jobs[·]?) with
  | none => false
  | some dep => dep.state != .ready && dep.state != .exited

/-- The loop of `deps_satisfied`, from `tok` on. -/
def depsFrom (jobs : List Job) : Nat → List UInt8 → Bool
  | 0, _ => true
  | n + 1, tok =>
    let tok := tok.dropWhile isSep
    if tok = [] then true
    else if unmet jobs (tok.takeWhile (!isSep ·)) then false
    else
      match tok.dropWhile (!isSep ·) with
      | [] => true
      | _ :: rest => depsFrom jobs n rest

def depsSatisfied (jobs : List Job) (j : Job) : Bool :=
  if j.after.bytes = [] then true else depsFrom jobs maxDepsStr (j.after.bytes.take (maxDepsStr - 1))

/-- The words of the command, at most `n` of them. -/
def splitArgs : Nat → List UInt8 → List (List UInt8)
  | 0, _ => []
  | n + 1, s =>
    let s := s.dropWhile (· == 32)
    if s = [] then [] else s.takeWhile (· != 32) :: splitArgs n ((s.dropWhile (· != 32)).drop 1)

/-- What the calls of `start_job` answer. -/
structure StartAnswer where
  pipe : Option (Nat × Nat)
  log : Option Nat
  fork : Option Nat

def startJob (k : Kernel) (j : Job) (a : StartAnswer) : Kernel × Job :=
  match k.pipe a.pipe with
  | none => (k, { j with state := .failed })
  | some (k, r, w) =>
    let (k, log) := k.opened a.log
    let j := { j with logFd := log }
    if splitArgs maxArgs (j.execLine.bytes.take (maxPath - 1)) = [] then
      ((k.close (some r)).close (some w), { j with state := .failed })
    else
      match a.fork with
      | none => ((k.close (some r)).close (some w), { j with state := .failed })
      | some pid =>
        (k.close (some w), { j with
          pipeFd := some r
          pid := some pid
          state := if j.readyMode = .start then .ready else .running })

/-! ## Output -/

def maxWidth : Nat := 65

/-- A line in the display, shortened. -/
def logged (line : List UInt8) : List UInt8 :=
  if line.length ≤ maxWidth then cstr line else cstr (line.take maxWidth) ++ [46, 46, 46]

/-- What is done with a line. -/
def report (j : Job) (line : List UInt8) : Job :=
  { j with
    lastLog := if cstr line = [] then j.lastLog else logged line
    state := if j.state = .running ∧ j.readyMode = .stdout ∧ j.readyPattern.bytes <:+: cstr line then .ready
      else j.state }

def endLine (j : Job) : Job := { report j j.lineBuf.bytes with lineBuf := noLine }

/-- One byte of output, and the line that it completes. The byte that does not fit any more is
dropped with the line. -/
def feed (j : Job) (c : UInt8) : Job × Option (List UInt8) :=
  if h : c = 10 ∨ lineBufSize - 1 ≤ j.lineBuf.bytes.length then
    (endLine j, some j.lineBuf.bytes)
  else
    ({ j with lineBuf := ⟨j.lineBuf.bytes ++ [c], by
      rw [List.length_append, List.length_singleton]
      omega⟩ }, none)

def feedAll (j : Job) : List UInt8 → Job × List (List UInt8)
  | [] => (j, [])
  | c :: cs =>
    let (j, line) := feed j c
    let (j, lines) := feedAll j cs
    (j, line.toList ++ lines)

/-- What `read` and `waitpid` answer to `process_pipe`. Nothing is read at the end of the file
and when the read fails. -/
structure PipeAnswer where
  read : List UInt8
  status : Int

def readSize : Nat := 256

def exitedBeforeReady : List UInt8 := "exited before ready".toUTF8.toList

/-- The end of the pipe. -/
def hangUp (j : Job) (status : Int) : Job :=
  let j := { j with pipeFd := none }
  if j.state = .running then
    let status := if j.pid.isSome then status else 0
    let j := match j.readyMode with
      | .exit => { j with state := if status = 0 then .exited else .failed }
      | .stdout => { j with state := .failed, lastLog := exitedBeforeReady }
      | .start => j
    { j with pid := none }
  else j

/-- Nothing is read where there is no pipe. -/
def bytesRead (j : Job) (a : PipeAnswer) : List UInt8 := if j.pipeFd.isSome then a.read.take readSize else []

def processPipe (k : Kernel) (j : Job) (a : PipeAnswer) : Kernel × Job :=
  if bytesRead j a = [] then (k.close j.pipeFd, hangUp j a.status) else (k, (feedAll j (bytesRead j a)).1)

/-! ## The table -/

structure State where
  kernel : Kernel
  jobs : List Job
  ctlFd : Option Nat

/-- A function of init on the job `i`. -/
def State.onJob (s : State) (i : Nat) (f : Kernel → Job → Kernel × Job) : State :=
  match s.jobs[i]? with
  | none => s
  | some j => { s with kernel := (f s.kernel j).1, jobs := s.jobs.set i (f s.kernel j).2 }

def State.pipeOf (s : State) (i : Nat) : Option Nat := s.jobs[i]?.bind (·.pipeFd)

def State.countPending (s : State) : Nat := s.jobs.countP fun j => j.state == .pending || j.state == .running

def State.anyRunning (s : State) : Bool := s.jobs.any (·.state == .running)

/-! ## Control commands -/

inductive Command
  | start
  | stop
  | status
  | other
deriving DecidableEq

/-- A request, with what the calls made for it answer: the job file and the start. -/
structure Request where
  cmd : Command
  name : List UInt8
  file : Option Config
  start : StartAnswer

/-- The job to start, read from its file if it is new. -/
def State.lookUp (s : State) (req : Request) : State × Option Nat :=
  match findJob s.jobs req.name with
  | some i => (s, some i)
  | none =>
    if s.jobs.length < maxJobs then
      match req.file with
      | some c => ({ s with jobs := s.jobs ++ [Job.fresh c req.name] }, some s.jobs.length)
      | none => (s, none)
    else (s, none)

/-- A job that neither runs nor is ready starts over. -/
def restart (a : StartAnswer) (k : Kernel) (j : Job) : Kernel × Job :=
  if j.state = .running ∨ j.state = .ready then (k, j)
  else
    let k := (k.close j.pipeFd).close j.logFd
    startJob k { j with state := .pending, pid := none, pipeFd := none, logFd := none, lineBuf := noLine, lastLog := [] } a

def stopJob (k : Kernel) (j : Job) : Kernel × Job :=
  if j.pid.isSome then
    ((k.close j.pipeFd).close j.logFd, { j with state := .exited, pid := none, pipeFd := none, logFd := none })
  else (k, j)

/-- The commands that only answer change nothing. -/
def State.command (s : State) (req : Request) : State :=
  match req.cmd with
  | .start =>
    match s.lookUp req with
    | (s, some i) => s.onJob i (restart req.start)
    | (s, none) => s
  | .stop =>
    match findJob s.jobs req.name with
    | some i => s.onJob i stopJob
    | none => s
  | .status | .other => s

/-- A client that was accepted, with its descriptor. A request that is too short is `none`. -/
structure Client where
  fd : Nat
  request : Option Request

def State.handleCtlClient (s : State) (c : Client) : State :=
  let s := match c.request with
    | some req => s.command req
    | none => s
  { s with kernel := s.kernel.close (some c.fd) }

/-- What `accept` returns after the poll; `none` too if the socket is not ready. -/
def State.accepted (s : State) (client : Option Client) : Option Client :=
  client.filter fun c => s.ctlFd.isSome && (s.kernel.file c.fd).isNone

def State.serve (s : State) (client : Option Client) : State :=
  match s.accepted client with
  | none => s
  | some c => { s with kernel := s.kernel.give c.fd }.handleCtlClient c

/-! ## The loops -/

/-- The answers in one round of a loop, those on jobs by their numbers. -/
structure Round where
  start : Nat → StartAnswer
  ready : Nat → Bool
  client : Option Client
  pipe : Nat → PipeAnswer

/-- A job that is started, and the table at that moment. -/
structure Start where
  job : Nat
  table : List Job

def startPass (answer : Nat → StartAnswer) : State → List Nat → State × List Start
  | s, [] => (s, [])
  | s, i :: is =>
    if (s.jobs[i]?.any fun j => j.state == .pending && depsSatisfied s.jobs j) then
      let (s', starts) := startPass answer (s.onJob i fun k j => startJob k j (answer i)) is
      (s', ⟨i, s.jobs⟩ :: starts)
    else startPass answer s is

/-- A pipe in `pfds`: the job remembered in `map`, the descriptor, and the file it meant at the
time of the poll. -/
structure Polled where
  job : Nat
  fd : Nat
  file : Option Nat

def State.pfds (s : State) : List Polled :=
  (List.range s.jobs.length).filterMap fun i => (s.pipeOf i).map fun fd => ⟨i, fd, s.kernel.file fd⟩

/-- A call of `process_pipe` after the poll: the descriptor it uses, and the file this means. -/
structure PipeCall where
  polled : Polled
  fd : Option Nat
  file : Option Nat

def pipeLoop (answer : Nat → PipeAnswer) : State → List Polled → State × List PipeCall
  | s, [] => (s, [])
  | s, p :: ps =>
    let fd := s.pipeOf p.job
    let (s', calls) := pipeLoop answer (s.onJob p.job fun k j => processPipe k j (answer p.job)) ps
    (s', ⟨p, fd, fd.bind s.kernel.file⟩ :: calls)

/-- From the poll to the last pipe. -/
def State.afterPoll (s : State) (r : Round) : State × List PipeCall :=
  pipeLoop r.pipe (s.serve r.client) (s.pfds.filter (r.ready ·.job))

/-- What is left when `startup_loop` gives up. -/
def State.failPending (s : State) : State :=
  { s with jobs := s.jobs.map fun j => if j.state = .pending then { j with state := .failed } else j }

/-- The end of a round of `startup_loop`: the new `stall`, or `none` to leave the loop. -/
structure Turn where
  init : State
  starts : List Start
  calls : List PipeCall
  stall : Option Nat

def maxStall : Nat := 6

def State.stalls (s : State) (started : Bool) : Bool := !s.anyRunning && !started && decide (0 < s.countPending)

/-- Gives up if nothing went on for long enough. -/
def endRound (s : State) (stall : Nat) (starts : List Start) (calls : List PipeCall) : Turn :=
  if maxStall ≤ stall then ⟨s.failPending, starts, calls, none⟩ else ⟨s, starts, calls, some stall⟩

def startupRound (s : State) (stall : Nat) (r : Round) : Turn :=
  let (s, starts) := startPass r.start s (List.range s.jobs.length)
  if s.ctlFd = none ∧ s.pfds = [] ∧ starts = [] then ⟨s, starts, [], none⟩
  else
    let (s, calls) := s.afterPoll r
    endRound s (if s.stalls (!starts.isEmpty) then stall + 1 else 0) starts calls

/-- A round of `service_loop`, which waits for any process if there is nothing to poll. -/
def serviceRound (s : State) (r : Round) : State × List PipeCall :=
  if s.ctlFd = none ∧ s.pfds = [] then (s, []) else s.afterPoll r

inductive Phase
  | startup (stall : Nat)
  | service
deriving DecidableEq

/-- Init at the head of a loop, with the starts so far and the pipe calls of the last round. -/
structure Machine where
  init : State
  phase : Phase
  starts : List Start
  calls : List PipeCall

def Machine.next (m : Machine) (r : Round) : Machine :=
  match m.phase with
  | .startup stall =>
    if m.init.countPending = 0 then { m with phase := .service, calls := [] }
    else
      let t := startupRound m.init stall r
      { init := t.init
        phase := match t.stall with
          | some stall => .startup stall
          | none => .service
        starts := m.starts ++ t.starts
        calls := t.calls }
  | .service =>
    let (s, calls) := serviceRound m.init r
    { m with init := s, calls }

/-- The table as `load_jobs` leaves it. -/
structure Loaded (s : State) : Prop where
  fresh : ∀ j ∈ s.jobs, ∃ c name, j = Job.fresh c name
  made : ∀ fd f, s.kernel.file fd = some f → f < s.kernel.made

/-- `main` goes to `service_loop` at once if there are no jobs. -/
structure Booted (m : Machine) : Prop where
  loaded : Loaded m.init
  phase : m.phase = if m.init.jobs = [] then .service else .startup 0
  starts : m.starts = []
  calls : m.calls = []

end Serotonin.Init
