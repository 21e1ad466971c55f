import Serotonin.Lib.ByteMem

/-! The kernel heap of `kernel/kernel.c`: a list of blocks laid out in address
order, each a 16-byte header, its payload and, in debug mode, a guard word after
the payload. Headers and guards live in byte memory, next to what the callers
write, so nothing here keeps them apart but the allocator's own arithmetic.
Addresses and sizes are 32-bit words. -/

namespace Serotonin.Heap
open ByteMem

def kernelHeapVma : Nat := 0xC1000000
def kernelHeapSize : Nat := 256 * 1024 * 1024
def heapStart : Nat := kernelHeapVma
def heapEnd : Nat := kernelHeapVma + kernelHeapSize
def heapSize : Nat := kernelHeapSize
def heapMagic : Nat := 0x48454150
def heapGuard : Nat := 0xDEADC0DE
def heapGuardSize : Nat := 4
def blockAlign : Nat := 8
def pageSize : Nat := 4096

/-- `sizeof(block_header_t)`: magic, size, the free and guard flags, two bytes
of padding, next. -/
def headerSize : Nat := 16

/-- The allocator's static variables and the memory it manages. -/
structure HeapState where
  mem : Mem
  heapList : Option Nat
  rover : Option Nat
  currentHeap : Nat
  debugMode : Bool

/-- Why a call does not return. A loop over the list that outlives `heapFuel`
steps has met more blocks than the heap has room for, so it never ends. -/
inductive Stop where
  | panic (msg : String)
  | hang
deriving DecidableEq, Repr

abbrev Result := Except Stop

def heapFuel : Nat := kernelHeapSize / 16 + 1

/-- A pointer word: zero is `NULL`. -/
def toPtr (n : Nat) : Option Nat := if n = 0 then none else some n

def ptrWord (p : Option Nat) : Nat := p.getD 0

/-! ## The fields of `block_header_t` -/

def magic (m : Mem) (b : Nat) : Nat := load32 m b
def size (m : Mem) (b : Nat) : Nat := load32 m (b + 4)
def free (m : Mem) (b : Nat) : Bool := m (b + 8) != 0
def guard (m : Mem) (b : Nat) : Bool := m (b + 9) != 0
def next (m : Mem) (b : Nat) : Option Nat := toPtr (load32 m (b + 12))

def setMagic (m : Mem) (b v : Nat) : Mem := store32 m b v
def setSize (m : Mem) (b v : Nat) : Mem := store32 m (b + 4) v
def setFree (m : Mem) (b : Nat) (v : Bool) : Mem := store8 m (b + 8) (if v then 1 else 0)
def setGuard (m : Mem) (b : Nat) (v : Bool) : Mem := store8 m (b + 9) (if v then 1 else 0)
def setNext (m : Mem) (b : Nat) (p : Option Nat) : Mem := store32 m (b + 12) (ptrWord p)

/-- `block->guard ? HEAP_GUARD_SIZE : 0`, and the size a new guard takes. -/
def guardBytes (g : Bool) : Nat := if g then heapGuardSize else 0

/-! ## Guards and checks -/

def align (size : Nat) : Nat := u32 (size + blockAlign - 1) / blockAlign * blockAlign

def pageAlign (addr : Nat) : Nat := u32 (addr + pageSize - 1) / pageSize * pageSize

def kernelHeapGuardSize (h : HeapState) : Nat := guardBytes h.debugMode

def kernelHeapSetGuard (m : Mem) (b : Nat) : Mem :=
  if guard m b then store32 m (b + headerSize + size m b) heapGuard else m

def kernelHeapInitGuard (debugMode : Bool) (m : Mem) (b : Nat) : Mem :=
  kernelHeapSetGuard (setGuard m b debugMode) b

def kernelHeapCheckBlock (m : Mem) (b : Nat) : Result Unit :=
  if b < heapStart ∨ heapEnd < u32 (b + headerSize) then
    throw (.panic "heap block out of range")
  else if magic m b ≠ heapMagic then
    throw (.panic "heap block corrupted")
  else if heapSize < size m b ∨
      heapEnd < u32 (b + headerSize + size m b + guardBytes (guard m b)) then
    throw (.panic "heap block size corrupted")
  else if guard m b ∧ load32 m (b + headerSize + size m b) ≠ heapGuard then
    throw (.panic "heap block overflow")
  else match next m b with
    | none => pure ()
    | some n =>
      if n < heapStart ∨ heapEnd < u32 (n + headerSize) then
        throw (.panic "heap next pointer corrupted")
      else pure ()

/-! ## Allocation -/

/-- What a scan of the list ends with: a free block of sufficient size, or the
last block it saw. -/
inductive Scan where
  | found (curr : Nat)
  | miss (tail : Option Nat)
deriving DecidableEq, Repr

/-- Phase 1: from the rover to the end of the list. -/
def scanToTail (m : Mem) (want : Nat) : Nat → Option Nat → Result Scan
  | _, none => pure (.miss none)
  | 0, some _ => throw .hang
  | fuel + 1, some curr => do
    kernelHeapCheckBlock m curr
    if free m curr && decide (want ≤ size m curr) then pure (.found curr)
    else if next m curr = none then pure (.miss (some curr))
    else scanToTail m want fuel (next m curr)

/-- Phase 2: from the head of the list to the rover. -/
def scanToRover (m : Mem) (want : Nat) (rover : Option Nat) : Nat → Option Nat → Result Scan
  | _, none => pure (.miss none)
  | 0, some _ => throw .hang
  | fuel + 1, some curr =>
    if some curr = rover then pure (.miss none) else do
    kernelHeapCheckBlock m curr
    if free m curr && decide (want ≤ size m curr) then pure (.found curr)
    else if next m curr = none then pure (.miss none)
    else scanToRover m want rover fuel (next m curr)

/-- The last block of the list, for an append without a tail from phase 1. -/
def lastBlock (m : Mem) : Nat → Nat → Result Nat
  | 0, _ => throw .hang
  | fuel + 1, tail =>
    match next m tail with
    | none => pure tail
    | some n => lastBlock m fuel n

/-- Cut `curr` down to `want` bytes; the rest becomes a free block behind it. -/
def splitBlock (debugMode : Bool) (m : Mem) (want curr : Nat) : Mem :=
  let guardSize := guardBytes debugMode
  let split := u32 (curr + headerSize + want + guardSize)
  let leftover := size m curr - want
  let m := setMagic m split heapMagic
  let m := setSize m split (leftover - headerSize - guardSize)
  let m := setFree m split true
  let m := setNext m split (next m curr)
  let m := kernelHeapInitGuard debugMode m split
  let m := setSize m curr want
  setNext m curr (some split)

/-- The block `curr` handed out for `want` bytes, split if what is left over
can hold a block of its own. Both phases run this same code. -/
def takeBlock (h : HeapState) (want curr : Nat) : HeapState :=
  let leftover := size h.mem curr - want
  let minSplit := headerSize + kernelHeapGuardSize h + blockAlign
  let m := if minSplit ≤ leftover then splitBlock h.debugMode h.mem want curr else h.mem
  let rover := if next m curr = none then h.heapList else next m curr
  let m := setFree m curr false
  { h with mem := kernelHeapSetGuard m curr, rover := rover }

/-- The header that a fresh block at `b` gets; the first block and an appended
one differ only in who points at it. -/
def initBlock (m : Mem) (b want : Nat) : Mem :=
  let m := setMagic m b heapMagic
  let m := setSize m b want
  let m := setFree m b false
  setNext m b none

/-- A new block at the end of the list. -/
def appendBlock (h : HeapState) (want tail : Nat) : Result (HeapState × Nat) :=
  let base := if pageSize ≤ want then pageAlign h.currentHeap else h.currentHeap
  let currentHeap := u32 (base + (headerSize + u32 (want + kernelHeapGuardSize h)))
  if heapEnd < currentHeap then throw (.panic "out of kernel heap memory")
  else
    let m := initBlock h.mem base want
    let m := setNext m tail (some base)
    let m := kernelHeapInitGuard h.debugMode m base
    pure ({ h with mem := m, currentHeap := currentHeap }, u32 (base + headerSize))

/-- The first allocation of the run makes the list. -/
def firstBlock (h : HeapState) (want : Nat) : Result (HeapState × Nat) :=
  let base := h.currentHeap
  let m := initBlock h.mem base want
  let currentHeap := u32 (base + (headerSize + u32 (want + kernelHeapGuardSize h)))
  if heapEnd < currentHeap then throw (.panic "out of kernel heap memory")
  else
    pure ({ h with
      mem := kernelHeapInitGuard h.debugMode m base, heapList := some base,
      rover := some base, currentHeap := currentHeap }, u32 (base + headerSize))

def kernelMalloc (h : HeapState) (requested : Nat) : Result (HeapState × Nat) :=
  let want := align requested
  match h.heapList with
  | none => firstBlock h want
  | some head => do
    -- `if (!rover) rover = heap_list`
    let h := { h with rover := some (h.rover.getD head) }
    match ← scanToTail h.mem want heapFuel h.rover with
    | .found curr => pure (takeBlock h want curr, u32 (curr + headerSize))
    | .miss tail =>
      match ← scanToRover h.mem want h.rover heapFuel h.heapList with
      | .found curr => pure (takeBlock h want curr, u32 (curr + headerSize))
      | .miss _ =>
        match tail with
        | some t => appendBlock h want t
        | none => do
          let t ← lastBlock h.mem heapFuel head
          appendBlock h want t

/-! ## Release -/

/-- Merge the block with the free blocks that follow it physically. -/
def coalesce (b : Nat) : Nat → Mem → Option Nat → Result (Mem × Option Nat)
  | 0, _, _ => throw .hang
  | fuel + 1, m, rover =>
    match next m b with
    | none => pure (m, rover)
    | some n =>
      if !free m n then pure (m, rover)
      else if n ≠ u32 (b + headerSize + size m b + guardBytes (guard m b)) then pure (m, rover)
      else
        let m' := setSize m b (size m b + (headerSize + size m n + guardBytes (guard m n)))
        let m' := setNext m' b (next m' n)
        coalesce b fuel m' (if rover = some n then some b else rover)

def kernelFree (h : HeapState) (ptr : Nat) : Result HeapState :=
  if ptr = 0 then pure h
  else if ptr < heapStart + headerSize ∨ heapEnd ≤ ptr then
    throw (.panic "kernel_free: pointer out of heap range")
  else do
    let b := ptr - headerSize
    kernelHeapCheckBlock h.mem b
    if free h.mem b then throw (.panic "kernel_free: double free")
    let (m, rover) ← coalesce b heapFuel (setFree h.mem b true) h.rover
    pure { h with mem := m, rover := rover }

end Serotonin.Heap
