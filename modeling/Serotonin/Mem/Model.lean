import Mathlib.Logic.Function.Basic

/-! `memcpy` and `memmove` of `stdlib/mem.c`, with the order in which they read and write.
Addresses and sizes are machine words. -/

namespace Serotonin.Mem

open Function

/-- The byte at each address. -/
abbrev Memory := UInt32 → UInt8

/-- The pointers and the size that are left, as the code moves them on. -/
structure Copy where
  mem : Memory
  dst : UInt32
  src : UInt32
  size : UInt32

/-! ## Bytes -/

/-- The switches of `memcpy`, which fall through from the last byte to the first. -/
def copyDown (m : Memory) (dst src : UInt32) : Nat → Memory
  | 0 => m
  | n + 1 => copyDown (update m (dst + .ofNat n) (m (src + .ofNat n))) dst src n

/-- `for (i = 0; i < tail; i++) dend[i] = send[i]`, with `n` bytes to go. -/
def copyUp (m : Memory) (dend send : UInt32) (i : Nat) : Nat → Memory
  | 0 => m
  | n + 1 => copyUp (update m (dend + .ofNat i) (m (send + .ofNat i))) dend send (i + 1) n

/-- `while (size--) *--dend = *--send`. -/
def copyBack (m : Memory) (dend send : UInt32) : Nat → Memory
  | 0 => m
  | n + 1 => copyBack (update m (dend - 1) (m (send - 1))) (dend - 1) (send - 1) n

/-! ## Registers -/

abbrev Xmm := Fin 16 → UInt8

/-- `movdqa` faults where `movdqu` does not. -/
def faults (aligned : Bool) (a : UInt32) : Prop := aligned = true ∧ a &&& 15 ≠ 0

instance (aligned : Bool) (a : UInt32) : Decidable (faults aligned a) := inferInstanceAs (Decidable (_ ∧ _))

def loadXmm (aligned : Bool) (m : Memory) (a : UInt32) : Option Xmm :=
  if faults aligned a then none else some fun i => m (a + .ofNat i)

def storeXmm (aligned : Bool) (m : Memory) (a : UInt32) (x : Xmm) : Option Memory :=
  if faults aligned a then none
  else some fun b => if h : (b - a).toNat < 16 then x ⟨(b - a).toNat, h⟩ else m b

def loadXmms (aligned : Bool) (m : Memory) (a : UInt32) : Nat → Option (List Xmm)
  | 0 => some []
  | n + 1 => do
    let x ← loadXmm aligned m a
    let xs ← loadXmms aligned m (a + 16) n
    some (x :: xs)

def storeXmms (aligned : Bool) (m : Memory) (a : UInt32) : List Xmm → Option Memory
  | [] => some m
  | x :: xs => do
    let m ← storeXmm aligned m a x
    storeXmms aligned m (a + 16) xs

/-- All registers are loaded before the first is stored. -/
def moveXmms (alignedSrc alignedDst : Bool) (regs : Nat) (m : Memory) (dst src : UInt32) : Option Memory := do
  let xs ← loadXmms alignedSrc m src regs
  storeXmms alignedDst m dst xs

/-- A loop of `memcpy` over blocks of 16, 64 or 128 bytes. -/
def copyXmms (alignedSrc alignedDst : Bool) (regs : Nat) : Nat → Copy → Option Copy
  | 0, c => some c
  | n + 1, c =>
    let step : UInt32 := .ofNat (16 * regs)
    if step ≤ c.size then do
      let m ← moveXmms alignedSrc alignedDst regs c.mem c.dst c.src
      copyXmms alignedSrc alignedDst regs n
        { mem := m, dst := c.dst + step, src := c.src + step, size := c.size - step }
    else some c

/-- The loop of `memmove`, downwards. -/
def copyXmmsBack : Nat → Copy → Option Copy
  | 0, c => some c
  | n + 1, c =>
    if 16 ≤ c.size then do
      let m ← moveXmms false true 1 c.mem (c.dst - 16) (c.src - 16)
      copyXmmsBack n { mem := m, dst := c.dst - 16, src := c.src - 16, size := c.size - 16 }
    else some c

/-! ## memcpy -/

def copyHead (c : Copy) : Copy :=
  let mis := c.dst &&& 15
  if mis ≠ 0 then
    let head := if c.size < 16 - mis then c.size else 16 - mis
    { mem := copyDown c.mem c.dst c.src head.toNat, dst := c.dst + head, src := c.src + head, size := c.size - head }
  else c

def copyBlocks (c : Copy) : Option Copy :=
  let n := c.size.toNat
  if c.dst &&& 15 = 0 ∧ c.src &&& 15 = 0 then do
    let c ← copyXmms true true 8 n c
    let c ← copyXmms true true 4 n c
    copyXmms false true 1 n c
  else do
    let c ← copyXmms false false 8 n c
    let c ← copyXmms false false 4 n c
    copyXmms false false 1 n c

/-- The pointer returned, and memory. -/
def memcpy (m : Memory) (dst src size : UInt32) : Option (UInt32 × Memory) := do
  let c ← copyBlocks (copyHead { mem := m, dst, src, size })
  some (dst, copyDown c.mem c.dst c.src c.size.toNat)

/-! ## memmove -/

/-- The pointers stand at the ends. -/
def peelTail (c : Copy) : Copy :=
  let mis := c.dst &&& 15
  if mis ≠ 0 then
    let tail := if c.size < mis then c.size else mis
    { mem := copyUp c.mem (c.dst - tail) (c.src - tail) 0 tail.toNat
      dst := c.dst - tail, src := c.src - tail, size := c.size - tail }
  else c

def memmove (m : Memory) (dst src size : UInt32) : Option (UInt32 × Memory) :=
  if dst < src ∨ src + size ≤ dst then memcpy m dst src size
  else do
    let c := peelTail { mem := m, dst := dst + size, src := src + size, size }
    let c ← copyXmmsBack c.size.toNat c
    some (dst, copyBack c.mem c.dst c.src c.size.toNat)

/-! ## Snapshots -/

/-- The bytes that were at `src` are at `dst`, and nothing else changed. -/
structure Copied (dst src size : UInt32) (m m' : Memory) : Prop where
  moved : ∀ i, i < size → m' (dst + i) = m (src + i)
  kept : ∀ a, (∀ i, i < size → a ≠ dst + i) → m' a = m a

end Serotonin.Mem
