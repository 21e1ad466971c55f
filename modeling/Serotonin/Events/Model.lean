import Serotonin.Lib.CircBuf
import Serotonin.Lib.Run

/-! The event devices, `dev_keyboard.c` and `dev_mouse.c`, and the way of `sys_read` to them. The
rings and the queues are changed only where interrupts are off: in an interrupt handler, or with the
scheduler locked. So a push and a read are each one step. A task that waits is served when an event
comes, and goes on in user mode with what the handler put into its buffer and its `eax`. -/

namespace Serotonin.Events

open Function

def eio : Int := 5
def ebadf : Int := 9
def eagain : Int := 11
def enomem : Int := 12
def efault : Int := 14
def einval : Int := 22

structure KeyboardEvent where
  scancode : UInt8
  ascii : UInt8
  flags : UInt8
  pad : UInt8
deriving DecidableEq

structure MouseEvent where
  x : BitVec 16
  y : BitVec 16
  buttons : UInt8
  eventType : UInt8
deriving DecidableEq

def keyboardEventBufferSize : Nat := 64
def mouseEventBufferSize : Nat := 64

def mouseEventMove : UInt8 := 0
def mouseEventButtonDown : UInt8 := 1
def mouseEventButtonUp : UInt8 := 2

/-- What the two devices differ in. `coalesces` says of the event that was stored last and of a new
one whether this overwrites that. -/
structure Kind (ε : Type) where
  eventSize : Nat
  bufferSize : Nat
  coalesces : ε → ε → Bool

def keyboardKind : Kind KeyboardEvent := ⟨4, keyboardEventBufferSize, fun _ _ => false⟩

def mouseKind : Kind MouseEvent :=
  ⟨6, mouseEventBufferSize, fun last event => event.eventType == mouseEventMove && last.eventType == mouseEventMove⟩

/-- `devfs_waiter_t`, with addresses in user memory. -/
structure Waiter where
  task : Nat
  buffer : Nat
  bufferSize : Nat

/-- An event that was put into the buffer of a task. -/
structure Delivery (ε : Type) where
  task : Nat
  buffer : Nat
  event : ε

/-- `pushed` and `delivered` are no part of the kernel: what came and what tasks were given so far. -/
structure Device (ε : Type) where
  eventBuffer : Nat → ε
  eventHead : Nat
  eventTail : Nat
  eventCount : Nat
  waitQueue : List Waiter
  pushed : List ε
  delivered : List (Delivery ε)

/-- Of a task, whether it sleeps, and `eax` of its saved context. -/
structure Task where
  blocked : Bool
  eax : Int

/-- The arguments of `sys_read` and the flags of its handle; `kbuf` and `waiter` say whether the
kernel has memory for them. -/
structure Request where
  task : Nat
  buffer : Nat
  size : Nat
  wrOnly : Bool
  nonblock : Bool
  kbuf : Bool
  waiter : Bool

/-- `copy_to_user`, for a task and an address: whether the pages are there. -/
abbrev Copies := Nat → Nat → Bool

variable {ε : Type}

namespace Device

def give (dev : Device ε) (task buffer : Nat) (event : ε) : Device ε :=
  { dev with delivered := dev.delivered ++ [⟨task, buffer, event⟩] }

/-- The oldest event goes. -/
def advance (dev : Device ε) (k : Kind ε) : Device ε :=
  { dev with eventTail := (dev.eventTail + 1) % k.bufferSize, eventCount := dev.eventCount - 1 }

def store (dev : Device ε) (k : Kind ε) (event : ε) : Device ε :=
  { dev with
    eventBuffer := update dev.eventBuffer dev.eventHead event
    eventHead := (dev.eventHead + 1) % k.bufferSize
    eventCount := dev.eventCount + 1 }

def last (dev : Device ε) (k : Kind ε) : Nat := (dev.eventHead + k.bufferSize - 1) % k.bufferSize

/-- What `dev_mouse_push_event` and `dev_keyboard_push_event` do when no task waits. -/
def enqueue (dev : Device ε) (k : Kind ε) (event : ε) : Device ε :=
  if 0 < dev.eventCount ∧ k.coalesces (dev.eventBuffer (dev.last k)) event then
    { dev with eventBuffer := update dev.eventBuffer (dev.last k) event }
  else if k.bufferSize ≤ dev.eventCount then (dev.advance k).store k event
  else dev.store k event

end Device

/-- The device and the tasks after a call. -/
abbrev Effect (ε : Type) := Device ε × (Nat → Task)

def setEax (tasks : Nat → Task) (t : Nat) (eax : Int) : Nat → Task := update tasks t { tasks t with eax }

def sleep (tasks : Nat → Task) (t : Nat) : Nat → Task := update tasks t { tasks t with blocked := true }

def taskUnblock (tasks : Nat → Task) (t : Nat) : Nat → Task := update tasks t { tasks t with blocked := false }

/-- The first task that waits gets the event, if it has room for it; else the event is lost. -/
def serve (k : Kind ε) (copies : Copies) (dev : Device ε) (tasks : Nat → Task) (event : ε) (w : Waiter) : Effect ε :=
  if w.buffer ≠ 0 ∧ k.eventSize ≤ w.bufferSize then
    if copies w.task w.buffer then (dev.give w.task w.buffer event, setEax tasks w.task k.eventSize)
    else (dev, setEax tasks w.task (-eio))
  else (dev, tasks)

def pushEvent (k : Kind ε) (copies : Copies) (dev : Device ε) (tasks : Nat → Task) (event : ε) : Effect ε :=
  let dev := { dev with pushed := dev.pushed ++ [event] }
  match dev.waitQueue with
  | w :: ws =>
    let served := serve k copies { dev with waitQueue := ws } tasks event w
    (served.1, taskUnblock served.2 w.task)
  | [] => (dev.enqueue k event, tasks)

/-- `sys_read` behind `dev_keyboard_read_event` and `dev_mouse_read_event`: the event is out of the
ring when it is copied to the task. -/
def takeEvent (k : Kind ε) (copies : Copies) (dev : Device ε) (tasks : Nat → Task) (r : Request) : Effect ε :=
  let event := dev.eventBuffer dev.eventTail
  if copies r.task r.buffer then ((dev.advance k).give r.task r.buffer event, setEax tasks r.task k.eventSize)
  else (dev.advance k, setEax tasks r.task (-efault))

def readEvent (k : Kind ε) (copies : Copies) (dev : Device ε) (tasks : Nat → Task) (r : Request) : Effect ε :=
  if r.size < k.eventSize then (dev, setEax tasks r.task (-einval))
  else if 0 < dev.eventCount then takeEvent k copies dev tasks r
  else if r.nonblock then (dev, setEax tasks r.task (-eagain))
  else if ¬r.waiter then (dev, setEax tasks r.task (-enomem))
  else ({ dev with waitQueue := dev.waitQueue ++ [⟨r.task, r.buffer, r.size⟩] }, sleep tasks r.task)

/-- `sys_read` of a handle of a device, which is read by `read`. -/
def sysRead (read : Copies → Device ε → (Nat → Task) → Request → Effect ε) (copies : Copies) (dev : Device ε)
    (tasks : Nat → Task) (r : Request) : Effect ε :=
  if r.wrOnly then (dev, setEax tasks r.task (-ebadf))
  else if ¬r.kbuf then (dev, setEax tasks r.task (-enomem))
  else read copies dev tasks r

def devKeyboardPushEvent := pushEvent keyboardKind
def devKeyboardReadEvent := readEvent keyboardKind
def devMousePushEvent := pushEvent mouseKind
def devMouseReadEvent := readEvent mouseKind

/-! ## The devices and the tasks -/

structure Input where
  keyboard : Device KeyboardEvent
  mouse : Device MouseEvent
  task : Nat → Task

inductive Op
  | pushKeyboard (event : KeyboardEvent)
  | pushMouse (event : MouseEvent)
  | readKeyboard (r : Request)
  | readMouse (r : Request)

namespace Input

def setKeyboard (s : Input) (e : Effect KeyboardEvent) : Input := { s with keyboard := e.1, task := e.2 }
def setMouse (s : Input) (e : Effect MouseEvent) : Input := { s with mouse := e.1, task := e.2 }

/-- A task that sleeps calls nothing. -/
def next (copies : Copies) (s : Input) : Op → Option Input
  | .pushKeyboard event => some (s.setKeyboard (devKeyboardPushEvent copies s.keyboard s.task event))
  | .pushMouse event => some (s.setMouse (devMousePushEvent copies s.mouse s.task event))
  | .readKeyboard r =>
    if (s.task r.task).blocked then none else some (s.setKeyboard (sysRead devKeyboardReadEvent copies s.keyboard s.task r))
  | .readMouse r =>
    if (s.task r.task).blocked then none else some (s.setMouse (sysRead devMouseReadEvent copies s.mouse s.task r))

end Input

end Serotonin.Events
