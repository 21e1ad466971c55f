import Mathlib.Data.Nat.Basic
import Mathlib.Logic.Function.Basic
import Serotonin.Lib.Run

/-! Signals. A handler is started at the end of a system call or when a task is switched to, and
ends with `sys_sigret`, which puts back the context that was put aside. A log for each task
records the handlers that were started and the contexts that were gone back to. -/

namespace Serotonin.Signals

open Function

abbrev Tid := Nat

/-- `processor_context_t`. -/
structure Context where
  ds : UInt32
  es : UInt32
  fs : UInt32
  gs : UInt32
  edi : UInt32
  esi : UInt32
  ebp : UInt32
  espAtPushal : UInt32
  ebx : UInt32
  edx : UInt32
  ecx : UInt32
  eax : UInt32
  stubEflags : UInt32
  eip : UInt32
  cs : UInt32
  eflags : UInt32
  espAtTrap : UInt32
  ss : UInt32
  deriving DecidableEq

inductive TaskState where
  | running
  | ready
  | blocked
  | terminated
  deriving DecidableEq

inductive Event where
  | started (sig : Nat) (deliverable : BitVec 32) (context : Context)
  | resumed (context : Context)
  deriving DecidableEq

/-- `log` and `raised` belong to no field of the source: what happened since the image was loaded,
the last first, and how often each signal was raised that was not pending yet. -/
structure Task where
  user : Bool
  state : TaskState
  processorContext : Context
  signalProcessorContext : Context
  signalHandlers : Nat → UInt32
  signalBitmask : BitVec 32
  blockedSignals : BitVec 32
  inSignalHandler : Bool
  stack : UInt32 → UInt32
  log : List Event
  raised : Nat → Nat

def signalTrampolineAddr : UInt32 := 0xBFF00000

/-- The lowest bit that is set, as `__builtin_ctz`. -/
def ctz (m : BitVec 32) : Nat := ((List.range 32).find? fun i => m.getLsbD i).getD 32

/-! ## Raising and delivering -/

def taskIpcSignalRaise (x : Task) (signal : Nat) : Task :=
  if 16 ≤ signal then x
  else
    { x with
      raised := if x.signalBitmask.getLsbD signal then x.raised
        else update x.raised signal (x.raised signal + 1)
      signalBitmask := x.signalBitmask ||| BitVec.twoPow 32 signal
      state := if x.state = .blocked then .ready else x.state }

def taskIpcRegisterSignalHandler (x : Task) (signal : Nat) (handler : UInt32) : Task :=
  if 16 ≤ signal then x else { x with signalHandlers := update x.signalHandlers signal handler }

def Task.deliverable (x : Task) : BitVec 32 := x.signalBitmask &&& ~~~x.blockedSignals

/-- The handler runs below the stack of the code it interrupts, and returns to the trampoline. -/
def startHandler (x : Task) (ctx : Context) (sig : Nat) : Task × Context :=
  let sp := ctx.espAtTrap - 8
  ({ x with
      signalBitmask := x.signalBitmask &&& ~~~BitVec.twoPow 32 sig
      signalProcessorContext := ctx
      stack := update (update x.stack sp signalTrampolineAddr) (sp + 4) (UInt32.ofNat sig)
      inSignalHandler := true
      log := .started sig x.deliverable ctx :: x.log },
    { ctx with espAtTrap := sp, eip := x.signalHandlers sig })

/-- The task and the context with which it goes on. -/
def taskIpcDeliverSignals (x : Task) (ctx : Context) : Task × Context :=
  if !x.user then (x, ctx)
  else if x.inSignalHandler then (x, ctx)
  else if x.deliverable = 0 then (x, ctx)
  else
    let sig := ctz x.deliverable
    if x.signalHandlers sig = 0 then
      -- `task_exit`
      ({ x with
          signalBitmask := x.signalBitmask &&& ~~~BitVec.twoPow 32 sig
          signalProcessorContext := ctx
          state := .terminated }, ctx)
    else startHandler x ctx sig

/-- `sys_sigret`, and the context that the call ends with. -/
def sysSigret (x : Task) : Task × Context :=
  let ctx := x.signalProcessorContext
  ({ x with processorContext := ctx, inSignalHandler := false, log := .resumed ctx :: x.log }, ctx)

def starts (sig : Nat) (log : List Event) : Nat :=
  log.countP fun e => match e with
    | .started s _ _ => s = sig
    | .resumed _ => false

/-- The child of `task_fork`. What the log says of handlers is its own past too. -/
def forked (x : Task) : Task :=
  { x with
    state := .ready
    processorContext := { x.processorContext with eax := 0 }
    signalBitmask := 0
    signalHandlers := fun _ => 0
    raised := fun sig => starts sig x.log }

/-- `sys_execve` once the image is loaded: nothing of the old image is left. -/
def execed (x : Task) (eip esp : UInt32) : Task :=
  { x with
    processorContext := { x.processorContext with eip := eip, espAtTrap := esp }
    signalHandlers := fun _ => 0
    signalBitmask := 0
    inSignalHandler := false
    state := .ready
    log := []
    raised := fun _ => 0 }

/-! ## The system -/

/-- What the processor does: user code of the current task, with its registers, a system call
of it, with the frame on its kernel stack, a kernel task, or the choice of the next task. -/
inductive Mode where
  | user (live : Context)
  | kernel (frame : Context)
  | worker
  | switching
  deriving DecidableEq

structure System where
  current : Tid
  mode : Mode
  task : Tid → Task

def System.cur (s : System) : Task := s.task s.current

def System.set (s : System) (t : Tid) (x : Task) : System := { s with task := update s.task t x }

/-- `task_yield` by the current task, which leaves the choice of the next one. -/
def System.yields (s : System) (x : Task) : System := { s.set s.current x with mode := .switching }

/-- `run` is what user code does to its registers. `wake` is a `task_unblock`, after which the
context may have a result. -/
inductive Op where
  | run (live : Context)
  | enter
  | register (signal : Nat) (handler : UInt32)
  | leave (errno : UInt32)
  | sigret
  | block
  | pause
  | fork (child : Tid)
  | exec (eip esp : UInt32)
  | execFails (frame : Context)
  | exit
  | preempt
  | raise (t : Tid) (signal : Nat)
  | wake (t : Tid) (result : Option UInt32)
  | switchTask (t : Tid)

/-- The end of `system_call`. -/
def System.finish (s : System) (x : Task) (ctx : Context) : System :=
  let after := taskIpcDeliverSignals x ctx
  { s.set s.current after.1 with mode := if after.1.state = .terminated then .switching else .user after.2 }

def Task.wake (x : Task) (result : Option UInt32) : Task :=
  { x with
    processorContext := match result with
      | none => x.processorContext
      | some eax => { x.processorContext with eax := eax }
    state := if x.state = .blocked then .ready else x.state }

def Task.runs (x : Task) (ctx : Context) : Task := { x with processorContext := ctx, state := .running }

/-- `task_yield` for the task it finds: `none` if that is not ready. -/
def System.switchTo (s : System) (t : Tid) : Option System :=
  let x := s.task t
  if x.state ≠ .ready then none
  else if !x.user then some { s.set t (x.runs x.processorContext) with current := t, mode := .worker }
  else
    let after := taskIpcDeliverSignals x x.processorContext
    if after.1.state = .terminated then some (s.set t after.1)
    else some { s.set t (after.1.runs after.2) with current := t, mode := .user after.2 }

def userStep (s : System) (live : Context) : Op → Option System
  | .run live' => some { s with mode := .user live' }
  | .enter => some { s.set s.current { s.cur with processorContext := live } with mode := .kernel live }
  | .preempt => some (s.yields { s.cur with processorContext := live, state := .ready })
  | _ => none

/-- A handler is left by `sigret` only, and `sigret` is called by a handler only. -/
def kernelStep (s : System) (frame : Context) : Op → Option System
  | .register signal handler => some (s.set s.current (taskIpcRegisterSignalHandler s.cur signal handler))
  | .leave errno => some (s.finish s.cur { frame with eax := errno })
  | .sigret => if s.cur.inSignalHandler then some (s.finish (sysSigret s.cur).1 (sysSigret s.cur).2) else none
  | .block => some (s.yields { s.cur with state := .blocked })
  | .pause => some (s.yields { s.cur with state := .ready })
  | .fork child => if (s.task child).state = .terminated then some (s.set child (forked s.cur)) else none
  | .exec eip esp => if s.cur.inSignalHandler then none else some (s.yields (execed s.cur eip esp))
  | .execFails frame => if s.cur.inSignalHandler then none else some { s with mode := .kernel frame }
  | .exit => if s.cur.inSignalHandler then none else some (s.yields { s.cur with state := .terminated })
  | _ => none

def workerStep (s : System) : Op → Option System
  | .block => some (s.yields { s.cur with state := .blocked })
  | .pause => some (s.yields { s.cur with state := .ready })
  | _ => none

def step (s : System) : Op → Option System
  | .raise t signal => some (s.set t (taskIpcSignalRaise (s.task t) signal))
  | .wake t result => some (s.set t ((s.task t).wake result))
  | op => match s.mode with
    | .user live => userStep s live op
    | .kernel frame => kernelStep s frame op
    | .worker => workerStep s op
    | .switching => match op with
      | .switchTask t => s.switchTo t
      | _ => none

/-! ## What handlers promise -/

def Lowest (m : BitVec 32) (sig : Nat) : Prop := m.getLsbD sig = true ∧ ∀ i < sig, m.getLsbD i = false

/-- Handlers are started one after the other, and each is left for the context it was started in.
`waits` is the context that waits for a handler to return. -/
inductive Alternates : List Event → (waits : Option Context) → Prop
  | nil : Alternates [] none
  | started {log : List Event} {sig : Nat} {m : BitVec 32} {c : Context} : Alternates log none → Lowest m sig →
      Alternates (.started sig m c :: log) (some c)
  | resumed {log : List Event} {c : Context} : Alternates log (some c) → Alternates (.resumed c :: log) none

def Task.waits (x : Task) : Option Context := if x.inSignalHandler then some x.signalProcessorContext else none

structure Orderly (x : Task) : Prop where
  alternates : Alternates x.log x.waits
  counts : ∀ sig, x.raised sig = starts sig x.log + if x.signalBitmask.getLsbD sig then 1 else 0
  small : ∀ sig, x.signalBitmask.getLsbD sig = true → sig < 16

/-- How a task goes on that may be sent a signal: with its context, in a handler, or not at all. -/
inductive Outcome (x : Task) (c : Context) : Task → Mode → Prop
  | resumes {x' : Task} : x.inSignalHandler = true ∨ x.deliverable = 0 → x'.log = x.log →
      x'.inSignalHandler = x.inSignalHandler → Outcome x c x' (.user c)
  | starts {x' : Task} {sig : Nat} {live : Context} : x.inSignalHandler = false → Lowest x.deliverable sig →
      x.signalHandlers sig ≠ 0 → x'.log = .started sig x.deliverable c :: x.log → x'.inSignalHandler = true →
      live.eip = x.signalHandlers sig → Outcome x c x' (.user live)
  | ends {x' : Task} {sig : Nat} : x.inSignalHandler = false → Lowest x.deliverable sig → x.signalHandlers sig = 0 →
      x'.state = .terminated → Outcome x c x' .switching

/-- The user task that an operation lets go on, and the context that it would go on with. -/
def goesOn (s : System) : Op → Option (Tid × Task × Context)
  | .leave errno => match s.mode with
    | .kernel frame => some (s.current, s.cur, { frame with eax := errno })
    | _ => none
  | .sigret => some (s.current, (sysSigret s.cur).1, (sysSigret s.cur).2)
  | .switchTask t => if (s.task t).user then some (t, s.task t, (s.task t).processorContext) else none
  | _ => none

/-! ## Delivering -/

theorem lowest_ctz {m : BitVec 32} (hm : m ≠ 0) : Lowest m (ctz m) := by
  unfold ctz
  cases hfind : (List.range 32).find? fun i => m.getLsbD i with
  | none =>
    refine absurd ?_ hm
    refine BitVec.eq_of_getLsbD_eq fun i hi => ?_
    have hno := List.find?_eq_none.mp hfind i (List.mem_range.mpr hi)
    simpa using hno
  | some sig =>
    obtain ⟨hsig, -, hlow⟩ := List.find?_range_eq_some.mp hfind
    exact ⟨hsig, fun i hi => by simpa using hlow i hi⟩

theorem deliverable_pending {x : Task} {sig : Nat} (h : x.deliverable.getLsbD sig = true) :
    x.signalBitmask.getLsbD sig = true := by
  unfold Task.deliverable at h
  rw [BitVec.getLsbD_and, Bool.and_eq_true] at h
  exact h.1

theorem getLsbD_clear (m : BitVec 32) (sig i : Nat) :
    (m &&& ~~~BitVec.twoPow 32 sig).getLsbD i = (m.getLsbD i && i ≠ sig) := by
  by_cases hi : i < 32
  · simp [hi, eq_comm]
  · simp [BitVec.getLsbD_of_ge m i (by omega)]

theorem getLsbD_set (m : BitVec 32) {sig : Nat} (hsig : sig < 16) (i : Nat) :
    (m ||| BitVec.twoPow 32 sig).getLsbD i = (m.getLsbD i || i = sig) := by
  by_cases hi : i < 32
  · simp [hi, eq_comm]
  · have hne : i ≠ sig := by omega
    simp [hne, Ne.symm hne]

theorem startHandler_bit (x : Task) (c : Context) (sig i : Nat) :
    (startHandler x c sig).1.signalBitmask.getLsbD i = (x.signalBitmask.getLsbD i && i ≠ sig) := getLsbD_clear ..

theorem startHandler_starts (x : Task) (c : Context) (sig i : Nat) :
    starts i (startHandler x c sig).1.log = starts i x.log + if i = sig then 1 else 0 := by
  by_cases hi : i = sig
  · simp [startHandler, starts, hi]
  · simp [startHandler, starts, hi, Ne.symm hi]

theorem Orderly.startHandler {x : Task} (h : Orderly x) (hin : x.inSignalHandler = false) {sig : Nat}
    (hlow : Lowest x.deliverable sig) (c : Context) : Orderly (startHandler x c sig).1 where
  alternates := by
    have halt := h.alternates
    rw [Task.waits, hin] at halt
    exact .started halt hlow
  counts := by
    intro i
    have hcount := h.counts i
    rw [startHandler_bit, startHandler_starts]
    show x.raised i = _
    by_cases hi : i = sig
    · subst hi
      rw [if_pos (deliverable_pending hlow.1)] at hcount
      simp [hcount]
    · simp [hcount, hi]
  small := by
    intro i hi
    rw [startHandler_bit, Bool.and_eq_true] at hi
    exact h.small i hi.1

/-- The three ways through `task_ipc_deliver_signals`. -/
theorem deliver_cases {x : Task} (hu : x.user = true) (c : Context) :
    (x.inSignalHandler = true ∨ x.deliverable = 0) ∧ taskIpcDeliverSignals x c = (x, c) ∨
    ∃ sig, x.inSignalHandler = false ∧ Lowest x.deliverable sig ∧
      (x.signalHandlers sig = 0 ∧ (taskIpcDeliverSignals x c).1.state = .terminated ∨
        x.signalHandlers sig ≠ 0 ∧ taskIpcDeliverSignals x c = startHandler x c sig) := by
  unfold taskIpcDeliverSignals
  rw [if_neg (by simp [hu])]
  by_cases hin : x.inSignalHandler = true
  · exact .inl ⟨.inl hin, if_pos hin⟩
  by_cases hd : x.deliverable = 0
  · exact .inl ⟨.inr hd, by rw [if_neg hin, if_pos hd]⟩
  rw [if_neg hin, if_neg hd]
  refine .inr ⟨_, by simpa using hin, lowest_ctz hd, ?_⟩
  dsimp only
  split
  · rename_i hh
    exact .inl ⟨hh, rfl⟩
  · rename_i hh
    exact .inr ⟨hh, rfl⟩

/-! ## What the steps keep -/

/-- Nothing but these fields matters. -/
theorem Orderly.of_eq {x x' : Task} (h : Orderly x) (hlog : x'.log = x.log) (hraised : x'.raised = x.raised)
    (hbits : x'.signalBitmask = x.signalBitmask) (hin : x'.inSignalHandler = x.inSignalHandler)
    (hctx : x'.signalProcessorContext = x.signalProcessorContext) : Orderly x' where
  alternates := by
    unfold Task.waits
    rw [hlog, hin, hctx]
    exact h.alternates
  counts := by
    intro sig
    rw [hraised, hlog, hbits]
    exact h.counts sig
  small := by
    rw [hbits]
    exact h.small

theorem Orderly.raise {x : Task} (h : Orderly x) (signal : Nat) : Orderly (taskIpcSignalRaise x signal) := by
  unfold taskIpcSignalRaise
  split
  · exact h
  · rename_i hlt
    refine ⟨h.alternates, fun sig => ?_, fun sig hsig => ?_⟩
    · have hcount := h.counts sig
      dsimp only
      rw [getLsbD_set _ (Nat.not_le.mp hlt)]
      by_cases heq : sig = signal
      · subst heq
        by_cases hset : x.signalBitmask.getLsbD sig = true
        · simpa [hset] using hcount
        · simpa [hset] using hcount
      · by_cases hset : x.signalBitmask.getLsbD signal = true <;> simpa [hset, heq] using hcount
    · dsimp only at hsig
      rw [getLsbD_set _ (Nat.not_le.mp hlt)] at hsig
      rcases Bool.or_eq_true_iff.mp hsig with hold | heq
      · exact h.small sig hold
      · have hsame : sig = signal := by simpa using heq
        omega

theorem Orderly.register {x : Task} (h : Orderly x) (signal : Nat) (handler : UInt32) :
    Orderly (taskIpcRegisterSignalHandler x signal handler) := by
  unfold taskIpcRegisterSignalHandler
  split
  · exact h
  · exact h.of_eq rfl rfl rfl rfl rfl

/-- The context that waits is the one that is gone back to. -/
theorem Orderly.sigret {x : Task} (h : Orderly x) (hin : x.inSignalHandler = true) : Orderly (sysSigret x).1 where
  alternates := by
    have halt := h.alternates
    rw [Task.waits, if_pos hin] at halt
    exact .resumed halt
  counts := by
    intro sig
    rw [show (sysSigret x).1.raised sig = x.raised sig from rfl, h.counts sig]
    rfl
  small := h.small

theorem Orderly.forked {x : Task} (h : Orderly x) : Orderly (forked x) where
  alternates := h.alternates
  counts := by
    intro sig
    simp [Signals.forked]
  small := by
    intro sig hsig
    simp [Signals.forked] at hsig

/-- A task without a history. -/
theorem orderly_new {x : Task} (hlog : x.log = []) (hin : x.inSignalHandler = false) (hbits : x.signalBitmask = 0)
    (hraised : ∀ sig, x.raised sig = 0) : Orderly x where
  alternates := by
    unfold Task.waits
    rw [hlog, hin]
    exact .nil
  counts := by
    intro sig
    simp [hraised, hlog, hbits, starts]
  small := by
    intro sig hsig
    simp [hbits] at hsig

def Mode.ofUserTask : Mode → Bool
  | .user _ | .kernel _ => true
  | _ => false

structure Inv (s : System) : Prop where
  tasks : ∀ t, (s.task t).state ≠ .terminated → Orderly (s.task t)
  running : s.mode ≠ .switching → s.cur.state = .running ∧ (s.mode.ofUserTask = true → s.cur.user = true)

theorem Inv.cur {s : System} (h : Inv s) (hm : s.mode ≠ .switching) : Orderly s.cur :=
  h.tasks s.current (by rw [show (s.task s.current).state = .running from (h.running hm).1]; decide)

@[simp] theorem System.set_task_self (s : System) (t : Tid) (x : Task) : (s.set t x).task t = x := update_self ..

theorem System.set_task_of_ne (s : System) {t u : Tid} (x : Task) (h : u ≠ t) : (s.set t x).task u = s.task u :=
  update_of_ne h ..

/-- A task changes, and the processor may do something else. -/
theorem Inv.set {s : System} (h : Inv s) (cur : Tid) (mode : Mode) {t : Tid} {x : Task} (hx : x.state ≠ .terminated → Orderly x)
    (hm : mode ≠ .switching → ((s.set t x).task cur).state = .running ∧
      (mode.ofUserTask = true → ((s.set t x).task cur).user = true)) :
    Inv { s.set t x with current := cur, mode := mode } where
  tasks := by
    intro u hu
    by_cases hut : u = t
    · subst hut
      simp only [System.set_task_self] at hu ⊢
      exact hx hu
    · simp only [System.set_task_of_ne s x hut] at hu ⊢
      exact h.tasks u hu
  running := hm

theorem Inv.setCur {s : System} (h : Inv s) {x : Task} (hx : x.state ≠ .terminated → Orderly x) {mode : Mode}
    (hm : mode ≠ .switching → x.state = .running ∧ (mode.ofUserTask = true → x.user = true)) :
    Inv { s.set s.current x with mode := mode } :=
  h.set s.current mode hx (by simpa using hm)

theorem Inv.yields {s : System} (h : Inv s) {x : Task} (hx : x.state ≠ .terminated → Orderly x) : Inv (s.yields x) :=
  h.setCur hx fun hm => absurd rfl hm

/-- Raising a signal and waking do not stop a task, nor make it run. -/
theorem Inv.touch {s : System} (h : Inv s) {t : Tid} {x : Task} (hx : Orderly (s.task t) → Orderly x)
    (hstate : x.state = if (s.task t).state = .blocked then .ready else (s.task t).state)
    (huser : x.user = (s.task t).user) : Inv (s.set t x) := by
  refine h.set s.current s.mode (fun hlive => hx (h.tasks t ?_)) fun hm => ?_
  · intro hdead
    rw [hdead] at hstate
    exact hlive hstate
  · obtain ⟨hrun, hu⟩ := h.running hm
    by_cases hct : s.current = t
    · subst hct
      rw [System.set_task_self, hstate, huser]
      rw [show (s.task s.current).state = .running from hrun]
      exact ⟨rfl, hu⟩
    · rw [System.set_task_of_ne s x hct]
      exact ⟨hrun, hu⟩

theorem Inv.finish {s : System} (h : Inv s) {x : Task} (hx : Orderly x) (hu : x.user = true) (hrun : x.state = .running)
    (c : Context) : Inv (s.finish x c) ∧ Outcome x c ((s.finish x c).task s.current) (s.finish x c).mode := by
  unfold System.finish
  dsimp only
  rcases deliver_cases hu c with ⟨hquiet, heq⟩ | ⟨sig, hin, hlow, ⟨hh, hdead⟩ | ⟨hh, heq⟩⟩
  · rw [heq, if_neg (by simp [hrun])]
    refine ⟨h.setCur (fun _ => hx) fun _ => ⟨hrun, fun _ => hu⟩, ?_⟩
    simpa using Outcome.resumes hquiet rfl rfl
  · rw [if_pos hdead]
    refine ⟨h.setCur (fun hlive => absurd hdead hlive) fun hm => absurd rfl hm, ?_⟩
    simpa using Outcome.ends hin hlow hh hdead
  · have hrun' : (startHandler x c sig).1.state = .running := hrun
    rw [heq, if_neg (by simp [hrun'])]
    refine ⟨h.setCur (fun _ => hx.startHandler hin hlow c) fun _ => ⟨hrun, fun _ => hu⟩, ?_⟩
    simpa using Outcome.starts hin hlow hh rfl rfl rfl

theorem Orderly.runs {x : Task} (h : Orderly x) (c : Context) : Orderly (x.runs c) := h.of_eq rfl rfl rfl rfl rfl

theorem Inv.switchTo {s s' : System} (h : Inv s) (hm : s.mode = .switching) {t : Tid} (hs : s.switchTo t = some s') :
    Inv s' ∧ ((s.task t).user = true → Outcome (s.task t) (s.task t).processorContext (s'.task t) s'.mode) := by
  unfold System.switchTo at hs
  dsimp only at hs
  split at hs
  · cases hs
  rename_i hready
  have hlive : (s.task t).state ≠ .terminated := by
    rw [Decidable.not_not.mp hready]
    decide
  have hx := h.tasks t hlive
  split at hs
  · rename_i hkernel
    cases hs
    refine ⟨h.set _ _ (fun _ => hx.runs _) fun _ => ?_, fun hyes => ?_⟩
    · rw [System.set_task_self]
      exact ⟨rfl, nofun⟩
    · rw [hyes] at hkernel
      cases hkernel
  rename_i hkernel
  have hu : (s.task t).user = true := by simpa using hkernel
  rcases deliver_cases hu (s.task t).processorContext with ⟨hquiet, heq⟩ | ⟨sig, hin, hlow, ⟨hh, hdead⟩ | ⟨hh, heq⟩⟩
  · rw [heq, if_neg hlive] at hs
    cases hs
    refine ⟨h.set _ _ (fun _ => hx.runs _) fun _ => ?_, fun _ => ?_⟩
    · rw [System.set_task_self]
      exact ⟨rfl, fun _ => hu⟩
    · rw [System.set_task_self]
      exact .resumes hquiet rfl rfl
  · rw [if_pos hdead] at hs
    cases hs
    refine ⟨h.set _ _ (fun hlive => absurd hdead hlive) fun hno => absurd hm hno, fun _ => ?_⟩
    · rw [System.set_task_self, show (s.set t _).mode = s.mode from rfl, hm]
      exact .ends hin hlow hh hdead
  · have hlive' : (startHandler (s.task t) (s.task t).processorContext sig).1.state ≠ .terminated := hlive
    rw [heq, if_neg hlive'] at hs
    cases hs
    refine ⟨h.set _ _ (fun _ => (hx.startHandler hin hlow _).runs _) fun _ => ?_, fun _ => ?_⟩
    · rw [System.set_task_self]
      exact ⟨rfl, fun _ => hu⟩
    · rw [System.set_task_self]
      exact .starts hin hlow hh rfl rfl rfl

theorem raise_state {x : Task} (signal : Nat) (hlt : signal < 16) :
    (taskIpcSignalRaise x signal).state = if x.state = .blocked then .ready else x.state := by
  unfold taskIpcSignalRaise
  rw [if_neg (Nat.not_le.mpr hlt)]

theorem Inv.raise {s : System} (h : Inv s) (t : Tid) (signal : Nat) : Inv (s.set t (taskIpcSignalRaise (s.task t) signal)) := by
  by_cases hlt : signal < 16
  · refine h.touch (fun hx => hx.raise signal) (raise_state signal hlt) ?_
    unfold taskIpcSignalRaise
    rw [if_neg (Nat.not_le.mpr hlt)]
  · have hsame : taskIpcSignalRaise (s.task t) signal = s.task t := if_pos (Nat.not_lt.mp hlt)
    have hset : s.set t (s.task t) = s := by simp [System.set]
    rw [hsame, hset]
    exact h

/-- What a step says of the signals of all tasks. -/
structure Steps (s : System) (op : Op) (s' : System) : Prop where
  inv : Inv s'
  goesOn : ∀ t x c, goesOn s op = some (t, x, c) → Outcome x c (s'.task t) s'.mode

/-- A step that is no delivery point. -/
theorem Steps.of_inv {s s' : System} {op : Op} (h : Inv s') (hgo : Signals.goesOn s op = none) : Steps s op s' := by
  refine ⟨h, fun t x c heq => ?_⟩
  rw [hgo] at heq
  cases heq

theorem Inv.userStep {s s' : System} (h : Inv s) {live : Context} (hm : s.mode = .user live) {op : Op}
    (hs : userStep s live op = some s') : Steps s op s' := by
  have hbusy : s.mode ≠ .switching := by simp [hm]
  obtain ⟨hrun, hu⟩ := h.running hbusy
  rw [hm] at hu
  cases op with
  | run live' =>
    cases hs
    exact .of_inv ⟨h.tasks, fun _ => ⟨hrun, hu⟩⟩ rfl
  | enter =>
    cases hs
    have hcur : Orderly { s.cur with processorContext := live } := (h.cur hbusy).of_eq rfl rfl rfl rfl rfl
    exact .of_inv (h.setCur (fun _ => hcur) fun _ => ⟨hrun, hu⟩) rfl
  | preempt =>
    cases hs
    have hcur : Orderly { s.cur with processorContext := live, state := .ready } := (h.cur hbusy).of_eq rfl rfl rfl rfl rfl
    exact .of_inv (h.yields fun _ => hcur) rfl
  | _ => cases hs

theorem Inv.kernelStep {s s' : System} (h : Inv s) {frame : Context} (hm : s.mode = .kernel frame) {op : Op}
    (hs : kernelStep s frame op = some s') : Steps s op s' := by
  have hbusy : s.mode ≠ .switching := by simp [hm]
  have hcur := h.cur hbusy
  obtain ⟨hrun, huser⟩ := h.running hbusy
  have hu : s.cur.user = true := huser (by rw [hm]; rfl)
  have hstop : ∀ state, Orderly { s.cur with state := state } := fun _ => hcur.of_eq rfl rfl rfl rfl rfl
  cases op with
  | register signal handler =>
    cases hs
    refine .of_inv (h.set s.current s.mode (fun _ => hcur.register signal handler) fun _ => ?_) rfl
    rw [System.set_task_self]
    unfold taskIpcRegisterSignalHandler
    split <;> exact ⟨hrun, huser⟩
  | leave errno =>
    cases hs
    obtain ⟨hinv, hout⟩ := h.finish hcur hu hrun { frame with eax := errno }
    refine ⟨hinv, fun t x c hgo => ?_⟩
    simp only [Signals.goesOn, hm] at hgo
    cases hgo
    exact hout
  | sigret =>
    obtain ⟨hin, heq⟩ := Option.ite_none_right_eq_some.mp hs
    cases heq
    obtain ⟨hinv, hout⟩ := h.finish (hcur.sigret hin) hu hrun (sysSigret s.cur).2
    refine ⟨hinv, fun t x c hgo => ?_⟩
    cases hgo
    exact hout
  | block =>
    cases hs
    exact .of_inv (h.yields fun _ => hstop .blocked) rfl
  | pause =>
    cases hs
    exact .of_inv (h.yields fun _ => hstop .ready) rfl
  | fork child =>
    obtain ⟨hdead, heq⟩ := Option.ite_none_right_eq_some.mp hs
    cases heq
    refine .of_inv (h.set s.current s.mode (fun _ => hcur.forked) fun _ => ?_) rfl
    have hne : s.current ≠ child := by
      rintro rfl
      rw [show (s.task s.current).state = .running from hrun] at hdead
      cases hdead
    rw [System.set_task_of_ne _ _ hne]
    exact ⟨hrun, huser⟩
  | exec eip esp =>
    obtain ⟨-, heq⟩ := Option.ite_none_left_eq_some.mp hs
    cases heq
    have hnew : Orderly (execed s.cur eip esp) := orderly_new rfl rfl rfl fun _ => rfl
    exact .of_inv (h.yields fun _ => hnew) rfl
  | execFails frame' =>
    obtain ⟨-, heq⟩ := Option.ite_none_left_eq_some.mp hs
    cases heq
    exact .of_inv ⟨h.tasks, fun _ => ⟨hrun, fun _ => hu⟩⟩ rfl
  | exit =>
    obtain ⟨-, heq⟩ := Option.ite_none_left_eq_some.mp hs
    cases heq
    exact .of_inv (h.yields fun hlive => absurd rfl hlive) rfl
  | _ => cases hs

theorem Inv.workerStep {s s' : System} (h : Inv s) (hm : s.mode = .worker) {op : Op}
    (hs : workerStep s op = some s') : Steps s op s' := by
  have hstop : ∀ state, Orderly { s.cur with state := state } := fun _ =>
    (h.cur (by simp [hm])).of_eq rfl rfl rfl rfl rfl
  cases op with
  | block =>
    cases hs
    exact .of_inv (h.yields fun _ => hstop .blocked) rfl
  | pause =>
    cases hs
    exact .of_inv (h.yields fun _ => hstop .ready) rfl
  | _ => cases hs

theorem Inv.switchStep {s s' : System} (h : Inv s) (hm : s.mode = .switching) {t : Tid} (hs : s.switchTo t = some s') :
    Steps s (.switchTask t) s' := by
  obtain ⟨hinv, hout⟩ := h.switchTo hm hs
  refine ⟨hinv, fun u x c hgo => ?_⟩
  dsimp only [goesOn] at hgo
  obtain ⟨hu, heq⟩ := Option.ite_none_right_eq_some.mp hgo
  cases heq
  exact hout hu

theorem Inv.step {s s' : System} (h : Inv s) {op : Op} (hs : step s op = some s') : Steps s op s' := by
  unfold Signals.step at hs
  split at hs
  · cases hs
    exact .of_inv (h.raise _ _) rfl
  · cases hs
    exact .of_inv (h.touch (fun hx => hx.of_eq rfl rfl rfl rfl rfl) rfl rfl) rfl
  · split at hs
    · rename_i hm
      exact h.userStep hm hs
    · rename_i hm
      exact h.kernelStep hm hs
    · rename_i hm
      exact h.workerStep hm hs
    · rename_i hm
      split at hs
      · exact h.switchStep hm hs
      · cases hs

/-! ## Every run -/

/-- No signal was raised yet, and the first task is chosen. -/
structure Booted (s : System) : Prop where
  mode : s.mode = .switching
  task : ∀ t, (s.task t).state ≠ .terminated → (s.task t).log = [] ∧ (s.task t).inSignalHandler = false ∧
    (s.task t).signalBitmask = 0 ∧ ∀ sig, (s.task t).raised sig = 0

def Step (s s' : System) : Prop := ∃ op, step s op = some s'

theorem Inv.reachable {s : System} (h : Run.Reachable Booted Step s) : Inv s := by
  refine h.invariant Inv (fun s hs => ⟨fun t ht => ?_, fun hm => absurd hs.mode hm⟩) fun _ _ hi ⟨_, hs⟩ => (hi.step hs).inv
  obtain ⟨hlog, hin, hbits, hraised⟩ := hs.task t ht
  exact orderly_new hlog hin hbits hraised

def noRegs : Context := ⟨0, 0, 0, 0, 0, 0, 0, 0, 0, 0, 0, 0, 0, 0, 0, 0, 0, 0⟩

/-- Task 1 is a user task, and no other. -/
def oneTask : System where
  current := 0
  mode := .switching
  task := fun t => ⟨true, if t = 1 then .ready else .terminated, noRegs, noRegs, fun _ => 0, 0, 0, false, fun _ => 0, [], fun _ => 0⟩

/-- The registers in a system call, and with its result. -/
def calling : Context := { noRegs with eip := 0x400100, espAtTrap := 0xB0001000, ebx := 7 }

/-- Both handlers are registered, the signals come during a call that returns 5, and
the second handler starts where the first one ends. -/
def twoSignals : List Op :=
  [.switchTask 1, .enter, .register 10 0x400200, .register 14 0x400300, .leave 0, .run calling, .enter, .raise 1 14, .raise 1 10,
    .raise 1 10, .leave 5, .run noRegs, .enter, .sigret, .run noRegs, .enter]

theorem booted_oneTask : Booted oneTask where
  mode := rfl
  task := fun _ _ => ⟨rfl, rfl, rfl, fun _ => rfl⟩

end Serotonin.Signals
