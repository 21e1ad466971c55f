import Serotonin.Files.Model
import Serotonin.Lib.CircBuf
import Serotonin.Lib.Run

/-! The way of a frame from the RTL8139 card to a program: the card's receive ring, the queue of
packets of the tun device, and the readers of the device. -/

namespace Serotonin.Net

open Function
open Files (einval enomem)

abbrev Tid := Nat

def rtlRxRingSize : Nat := 65536
def ethFrameMax : Nat := 1514
def ethAlen : Nat := 6
def rtl8139TunBufferSize : Nat := 4096
def rtl8139TunReadBatchMax : Nat := 4
def syscallStackBuf : Nat := 4096
def systemCallRead : Int := 2
def eagain : Int := 11

/-- `rtl8139_packet_t`. -/
structure Packet where
  srcMac : List UInt8
  dstMac : List UInt8
  length : Nat
  data : List UInt8
deriving DecidableEq

/-- The size of `rtl8139_packet_t`. -/
def packetSize : Nat := 2 * ethAlen + 2 + ethFrameMax

/-- A frame as it lies in the ring, with its CRC, and with what is there up to the next dword. -/
structure Frame where
  status : UInt16
  data : List UInt8
  pad : List UInt8
  data_lt : data.length < 65536
  pad_lt : pad.length < 4
  aligned : (4 + data.length + pad.length) % 4 = 0

namespace Frame

def header (f : Frame) : List UInt8 :=
  [.ofNat f.status.toNat, .ofNat (f.status.toNat / 256), .ofNat f.data.length, .ofNat (f.data.length / 256)]

def bytes (f : Frame) : List UInt8 := f.header ++ f.data ++ f.pad

end Frame

/-! ## The card -/

/-- `cbr` is where the card places the next frame. -/
structure Rtl where
  rxBuffer : Nat → UInt8
  cbr : Nat
  rxOffset : Nat
  rxPackets : UInt32
  rxErrors : UInt32
  rxDropped : UInt32

namespace Rtl

def used (r : Rtl) : Nat := (r.cbr + rtlRxRingSize - r.rxOffset) % rtlRxRingSize

def ring (r : Rtl) : CircBuf UInt8 := ⟨r.rxBuffer, rtlRxRingSize, r.rxOffset, r.cbr, r.used⟩

/-- The card's part. -/
def place (r : Rtl) (f : Frame) : Rtl :=
  { r with rxBuffer := (CircBuf.store f.bytes r.ring).buf, cbr := (CircBuf.store f.bytes r.ring).writePos }

/-- Past `n` bytes, to the next dword. -/
def advance (r : Rtl) (n : Nat) : Rtl := { r with rxOffset := (r.rxOffset + n + 3) / 4 * 4 % rtlRxRingSize }

end Rtl

/-- The bytes that come to be in `dst`. What is left up to the end of the ring is counted with 16
bits. -/
def rtlRxRingCopy (rxBuffer : Nat → UInt8) (off len : Nat) : List UInt8 :=
  let off := off % rtlRxRingSize
  let first := min ((rtlRxRingSize - off) % 65536) len
  (List.range first).map (fun i => rxBuffer (off + i)) ++ (List.range (len - first)).map rxBuffer

/-! ## The tun device -/

/-- A woken task goes on in user mode, with the registers it came with. -/
inductive TaskState where
  | running
  | blocked
  | woken
deriving DecidableEq

/-- A read that has come back: its value, and the packets in its buffer. -/
structure Result where
  task : Tid
  value : Int
  stored : List Packet
deriving DecidableEq

/-- `eax` is the register of a task that waits. The last three fields are no part of the kernel: the
frames that the card has placed, whether the queue was full each time the driver looked at a
frame, and the reads that have come back. -/
structure Kernel where
  rtl : Rtl
  tunBuffer : CircBuf Packet
  tunDropFull : UInt32
  waitQueue : List Tid
  task : Tid → TaskState
  eax : Tid → Int
  placed : List Frame
  fulls : List Bool
  results : List Result

namespace Kernel

def full (s : Kernel) : Bool := decide (rtl8139TunBufferSize ≤ s.tunBuffer.dataLen)

def wake (s : Kernel) : Kernel :=
  match s.waitQueue with
  | [] => s
  | t :: ts =>
    { s with waitQueue := ts, task := if s.task t = .blocked then update s.task t .woken else s.task }

/-- The slot as `dev_rtl8139_push_packet` fills it. -/
def slotOf (data : List UInt8) : Packet :=
  let length := min (if 12 < data.length then data.length - 12 else 0) ethFrameMax
  { dstMac := data.take ethAlen
    srcMac := (data.drop ethAlen).take ethAlen
    length := length
    data := (data.drop 12).take length ++ List.replicate (ethFrameMax - length) 0 }

def pushPacket (s : Kernel) (data : List UInt8) : Kernel :=
  if data.length < 12 then s
  else if rtl8139TunBufferSize ≤ s.tunBuffer.dataLen then { s with tunDropFull := s.tunDropFull + 1 }
  else { s with tunBuffer := s.tunBuffer.put [slotOf data] }.wake

def halfWord (lo hi : UInt8) : Nat := lo.toNat + 256 * hi.toNat

/-- One round of `rtl8139_receive`. -/
def receive (s : Kernel) : Kernel :=
  let hdr := rtlRxRingCopy s.rtl.rxBuffer s.rtl.rxOffset 4
  let status := halfWord (hdr.getD 0 0) (hdr.getD 1 0)
  let length := halfWord (hdr.getD 2 0) (hdr.getD 3 0)
  let r := s.rtl
  let s := { s with fulls := s.fulls ++ [s.full] }
  if length < 4 ∨ ethFrameMax + 4 < length then { s with rtl := { r with rxErrors := r.rxErrors + 1 }.advance 4 }
  else if status % 2 = 0 then { s with rtl := { r with rxErrors := r.rxErrors + 1 }.advance (length + 4) }
  else
    let pktLen := length - 4
    if 0 < pktLen ∧ pktLen ≤ ethFrameMax then
      { s with rtl := { r with rxPackets := r.rxPackets + 1 }.advance (length + 4) }.pushPacket
        (rtlRxRingCopy r.rxBuffer (r.rxOffset + 4) pktLen)
    else { s with rtl := { r with rxDropped := r.rxDropped + 1 }.advance (length + 4) }

/-- The read comes back. -/
def back (s : Kernel) (t : Tid) (value : Int) (stored : List Packet) : Kernel :=
  { s with results := s.results ++ [⟨t, value, stored⟩] }

/-- The task is switched away from. Its registers were saved when it entered the kernel. -/
def block (s : Kernel) (t : Tid) : Kernel :=
  { s with
    waitQueue := s.waitQueue ++ [t]
    task := update s.task t .blocked
    eax := update s.eax t systemCallRead }

/-- `sys_read` with `dev_rtl8139_read_tun`. The last two arguments say that there is no memory for
the buffer, or for a waiter. -/
def readTun (s : Kernel) (t : Tid) (size : Nat) (nonblock noBuf noWaiter : Bool) : Kernel :=
  if syscallStackBuf < size ∧ noBuf then s.back t (-enomem) []
  else if size < packetSize then s.back t (-einval) []
  else if 0 < s.tunBuffer.dataLen then
    let toCopy := min s.tunBuffer.dataLen (min (size / packetSize) rtl8139TunReadBatchMax)
    let (stored, q) := s.tunBuffer.get toCopy
    { s with tunBuffer := q }.back t (toCopy * packetSize : Nat) stored
  else if nonblock then s.back t (-eagain) []
  else if noWaiter then s.back t (-enomem) []
  else s.block t

/-- Nothing is stored for a reader that was woken, and nobody sets its `eax`. -/
def resume (s : Kernel) (t : Tid) : Kernel := { s with task := update s.task t .running }.back t (s.eax t) []

end Kernel

/-! ## Runs -/

inductive Op where
  | place (f : Frame)
  | receive
  | read (t : Tid) (size : Nat) (nonblock noBuf noWaiter : Bool)
  | resume (t : Tid)

/-- `none`: the step is not possible in this state. The card does not place a frame that the
driver has no room for, and the driver stops where the ring is empty. -/
def step (s : Kernel) : Op → Option Kernel
  | .place f =>
    if s.rtl.used + f.bytes.length < rtlRxRingSize then some { s with rtl := s.rtl.place f, placed := s.placed ++ [f] } else none
  | .receive => if s.rtl.cbr = s.rtl.rxOffset then none else some s.receive
  | .read t size nonblock noBuf noWaiter =>
    if s.task t = .running then some (s.readTun t size nonblock noBuf noWaiter) else none
  | .resume t => if s.task t = .woken then some (s.resume t) else none

/-- The driver has just been set up, with whatever is in its memory. -/
structure Start (s : Kernel) : Prop where
  cbr : s.rtl.cbr = 0
  rxOffset : s.rtl.rxOffset = 0
  size : s.tunBuffer.size = rtl8139TunBufferSize
  readPos : s.tunBuffer.readPos = 0
  writePos : s.tunBuffer.writePos = 0
  dataLen : s.tunBuffer.dataLen = 0
  waitQueue : s.waitQueue = []
  task : ∀ t, s.task t = .running
  placed : s.placed = []
  fulls : s.fulls = []
  results : s.results = []

end Serotonin.Net
