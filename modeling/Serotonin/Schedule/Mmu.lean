import Serotonin.Schedule.Owners
import Serotonin.Lib.Ownership
import Serotonin.Lib.Run

/-! Address spaces and kernel stacks under the scheduler: what the register CR3 holds, which
address spaces are left, and the list of free kernel stacks. `task_yield` loads the directory
of the task it has chosen, `reap_zombies` gives back stack and address space of every zombie
that is not the current task, and `sys_execve` takes the old address space away. -/

namespace Serotonin.Mmu
open Function
open Schedule

def kernelStackSize : Nat := 16384
def kernelStackTop : Nat := 0xF03FC000
def kernelStackBottom : Nat := 0xF0000000
def eio : Int := 5

/-- An address space is known by the frame of its page directory. `kernelPdir` is the
directory the kernel booted with, which belongs to none. -/
structure Machine where
  sched : Sched
  cr3 : Nat
  kernelPdir : Nat
  addressSpace : Tid → Option Nat
  pcbCr3 : Tid → Nat
  esp0 : Tid → Nat
  addressSpaces : List Nat
  freeKernelStacks : List Nat
  nextKernelStack : Nat
  /-- `oldas` of the `sys_execve` that the current task has come half through. -/
  loading : Option (Option Nat)

/-! ## Kernel stacks -/

/-- There is no way back from a panic. -/
def allocKernelStack (m : Machine) : Option (Nat × Machine) :=
  match m.freeKernelStacks with
  | base :: rest => some (base, { m with freeKernelStacks := rest })
  | [] =>
    if m.nextKernelStack < kernelStackBottom + kernelStackSize then none
    else
      let base := m.nextKernelStack - kernelStackSize
      some (base, { m with nextKernelStack := base })

/-- The base of a task's kernel stack. -/
def kernelStack (m : Machine) (t : Tid) : Nat := m.esp0 t - kernelStackSize

def freeKernelStack (m : Machine) (base : Nat) : Machine :=
  if base = 0 then m else { m with freeKernelStacks := base :: m.freeKernelStacks }

/-! ## Address spaces -/

/-- `alloc_frame` returns a frame that nothing uses. -/
def Fresh (m : Machine) (frame : Nat) : Prop := frame ≠ m.kernelPdir ∧ frame ∉ m.addressSpaces

instance (m : Machine) (frame : Nat) : Decidable (Fresh m frame) := inferInstanceAs (Decidable (_ ∧ _))

def createAddressSpace (m : Machine) (frame : Nat) : Machine :=
  { m with addressSpaces := frame :: m.addressSpaces }

def destroyAddressSpace (m : Machine) : Option Nat → Machine
  | none => m
  | some as => { m with addressSpaces := m.addressSpaces.filter (· != as) }

def switchAddressSpace (m : Machine) : Option Nat → Machine
  | none => m
  | some as => { m with cr3 := as }

/-- From `create_address_space` on: what can fail before it leaves no trace. -/
def kernelLoadElf (m : Machine) (t : Tid) (frame : Nat) : Machine :=
  { createAddressSpace m frame with
    addressSpace := update m.addressSpace t (some frame)
    pcbCr3 := update m.pcbCr3 t frame
    cr3 := frame }

/-! ## Giving up the processor -/

def reapZombie (m : Machine) (t : Tid) : Machine :=
  let m := { m with sched := { m.sched with zombieList := m.sched.zombieList.filter (· != t) } }
  let m := if m.esp0 t = 0 then m else freeKernelStack m (kernelStack m t)
  destroyAddressSpace m (m.addressSpace t)

def reapZombies (m : Machine) : Machine :=
  (m.sched.zombieList.filter (· != m.sched.current)).foldl reapZombie m

/-- The scheduler goes on to `s`; if that is in the loop of `task_yield`, it went through
`reap_zombies`. A system call that yields is not resumed. -/
def follow (m : Machine) (s : Sched) : Machine :=
  if s.mode = .switching then { reapZombies m with sched := s, loading := none }
  else { m with sched := s }

/-- A user task keeps the directory in CR3, a kernel task loads its own. -/
def switchTask (m : Machine) (next : Tid) : Machine :=
  { m with
    sched := Schedule.switchTask m.sched next
    cr3 := if (m.sched.pcb next).priv = .user then m.cr3 else m.pcbCr3 next }

def pickNext (m : Machine) : Option Machine :=
  match dequeue m.sched with
  | (none, _) => none
  | (some next, s) =>
    let m := { m with sched := s }
    if s.state next = .ready then
      let m := if (s.pcb next).priv = .user then switchAddressSpace m (m.addressSpace next) else m
      match taskIpcDeliverSignals s next with
      | (s, some sig) => (taskExit s next sig).map fun s => { m with sched := s }
      | (s, none) => some (switchTask { m with sched := s } next)
    else some m

/-- The last part of `task_exit`. -/
def taskExitNotify (m : Machine) (t : Tid) (exit : Nat) (copyFails : Tid → Bool) : Machine :=
  let s := m.sched
  follow
    { m with sched := { s with
        taskList := s.taskList.filter (· != t), zombieList := t :: s.zombieList } }
    (Schedule.taskExitNotify s t exit copyFails)

/-! ## Tasks -/

def taskCreate (m : Machine) (t : Tid) (priv : CpuMode) (prio : UInt8) : Option Machine :=
  (allocKernelStack m).map fun (base, m) =>
    { m with
      sched := Schedule.taskCreate m.sched t priv prio
      addressSpace := update m.addressSpace t none
      pcbCr3 := update m.pcbCr3 t m.cr3
      esp0 := update m.esp0 t (base + kernelStackSize) }

def sysFork (m : Machine) (t : Tid) (frame : Nat) : Option Machine :=
  (Schedule.sysFork m.sched t).bind fun s =>
    if (m.sched.pcb m.sched.current).priv = .kernel then some { m with sched := s }
    else (allocKernelStack (createAddressSpace m frame)).map fun (base, m) =>
      { m with
        sched := s
        addressSpace := update m.addressSpace t (some frame)
        pcbCr3 := update m.pcbCr3 t frame
        esp0 := update m.esp0 t (base + kernelStackSize) }

/-- How far the loading of the new program comes. -/
inductive Load where
  /-- The call or `kernel_load_elf` fails before there is a new address space. -/
  | rejected (errno : Int)
  /-- No memory for the buffer of the loader. -/
  | noBuffer
  | loaded
deriving DecidableEq, Repr

/-- `sys_execve`, while the program is loaded. -/
def sysExecve (m : Machine) (load : Load) (frame : Nat) : Machine :=
  match load with
  | .rejected errno => { m with sched := { m.sched with errno := -errno } }
  | .noBuffer =>
    let m := destroyAddressSpace (createAddressSpace m frame) (some frame)
    { m with sched := { m.sched with errno := -eio } }
  | .loaded =>
    { kernelLoadElf m m.sched.current frame with
      loading := some (m.addressSpace m.sched.current) }

/-- The rest of a `sys_execve` that has loaded its program. -/
def sysExecveDone (m : Machine) (oldas : Option Nat) : Machine :=
  let m := destroyAddressSpace { m with loading := none } oldas
  follow m (taskYield (m.sched.modify m.sched.current fun x =>
    { x with signalHandlers := fun _ => 0, signalBitmask := 0, inSignalHandler := false }))

/-! ## Boot -/

/-- The addresses of the first control blocks, the frame of init's page directory, and the
stack pointer of the boot stack. -/
structure Boot where
  kernel : Tid
  init : Tid
  idle : Tid
  vbeWorker : Tid
  ideWorker : Tid
  kernelPdir : Nat
  initPdir : Nat
  esp : Nat

def multitaskingInit (b : Boot) : Machine :=
  let unused : Pcb :=
    { pid := 0, state := .unused, priv := .kernel, rqNext := none, priority := 0,
      originalPriority := 0, resetCount := 0, quantaUsed := 0, waitingOn := 0, statusPtr := none,
      statusWord := none, signal := 0, signalHandlers := fun _ => 0, signalBitmask := 0,
      blockedSignals := 0, inSignalHandler := false, alarmTicks := 0, noRequeue := false, eax := 0 }
  { sched :=
      { pcb := update (fun _ => unused) b.kernel { unused with state := .blocked }
        current := b.kernel, taskList := [b.kernel], zombieList := [], nextPid := 1
        prioQ := fun _ => ⟨none, none⟩, topBitmap := 0, prioBitmap := fun _ => 0
        preemptCount := 0, multitaskingReady := false, vbeTicks := 0, lastQuantumTick := 0
        vbeWorkerTask := 0, errno := 0, mode := .running, pending := [] }
    cr3 := b.kernelPdir, kernelPdir := b.kernelPdir, addressSpace := fun _ => none
    pcbCr3 := fun _ => b.kernelPdir, esp0 := fun _ => b.esp, addressSpaces := []
    freeKernelStacks := [], nextKernelStack := kernelStackTop, loading := none }

def enqueue (m : Machine) (t : Tid) : Machine := { m with sched := Schedule.enqueue m.sched t }

/-- `kernel_main_high` from `multitasking_init` to its `task_yield`. -/
def kernelMainHigh (b : Boot) : Option Machine := do
  let m ← taskCreate (multitaskingInit b) b.init .user 254
  let m := kernelLoadElf m b.init b.initPdir
  let m ← taskCreate m b.idle .kernel 0
  let m ← taskCreate (enqueue m b.idle) b.vbeWorker .kernel 255
  let s := m.sched.modify b.vbeWorker fun x => { x with noRequeue := true }
  let m := enqueue { m with sched := { s with vbeWorkerTask := b.vbeWorker } } b.init
  let m ← taskCreate m b.ideWorker .kernel 10
  let m := enqueue m b.ideWorker
  some { m with sched := { m.sched with multitaskingReady := true } }

/-! ## Steps -/

inductive Op where
  | sched (op : Schedule.Op)
  | fork (t : Tid) (frame : Nat)
  | execve (load : Load) (frame : Nat)
  | execveDone

/-- After boot tasks are made by `fork` only. -/
def schedStep (m : Machine) : Schedule.Op → Option Machine
  | .create _ _ _ => none
  | .fork _ => none
  | .pickNext => if m.sched.mode = .switching then pickNext m else none
  | .exitNotify copyFails =>
    match m.sched.mode with
    | .exiting t exit => some (taskExitNotify m t exit copyFails)
    | _ => none
  | op => (Schedule.step m.sched op).map (follow m)

def step (m : Machine) : Op → Option Machine
  | .sched op => schedStep m op
  | .fork t frame =>
    if m.sched.mode = .running ∧ m.loading = none ∧ Unused m.sched t ∧ Fresh m frame then
      sysFork m t frame
    else none
  | .execve load frame =>
    if m.sched.mode = .running ∧ m.loading = none ∧ Fresh m frame ∧
        (m.sched.pcb m.sched.current).priv = .user then
      some (sysExecve m load frame)
    else none
  | .execveDone =>
    match m.loading with
    | some oldas => if m.sched.mode = .running then some (sysExecveDone m oldas) else none
    | none => none

end Serotonin.Mmu
