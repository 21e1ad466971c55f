import Mathlib.Logic.Function.Basic

/-! The page directories of `kernel/vmm/vmm.c`. The code reaches tables through
virtual addresses only: those of the current directory through its own last entry,
all others through the one window that `kmap` moves. So the model has physical
memory and the walk the processor makes, and every access of the code goes
through that walk. The frame allocator is a parameter. -/

namespace Serotonin.Vmm

def pageEntries : Nat := 1024
def pageMask : UInt32 := 0xFFFFF000
def pagePresent : UInt32 := 0x1
def pageUser : UInt32 := 0x4
def pageFlags : UInt32 := 0x3
def kernelPdeBase : Nat := 768
def selfPdeBase : Nat := 1023
def kmapPdeBase : Nat := 1022
def kmapPteBase : Nat := 0
def selfPdVa : UInt32 := 0xFFFFF000
def selfPtBaseVa : UInt32 := 0xFFC00000
def kmapBase : UInt32 := 0xFF800000

/-- Physical memory: the words of the page at an address. -/
abbrev Memory := UInt32 → Nat → UInt32

def Memory.set (m : Memory) (page : UInt32) (i : Nat) (x : UInt32) : Memory :=
  Function.update m page (Function.update (m page) i x)

def present (entry : UInt32) : Bool := entry &&& pagePresent != 0

/-- The page address in an entry, or in CR3. -/
def frameOf (entry : UInt32) : UInt32 := entry &&& pageMask

def vmmPdi (va : UInt32) : Nat := (va >>> 22).toNat
def vmmPti (va : UInt32) : Nat := ((va >>> 12) &&& 0x3FF).toNat
def vmmWord (va : UInt32) : Nat := ((va >>> 2) &&& 0x3FF).toNat

/-- The walk of the processor: directory, table, page. -/
def translate (m : Memory) (cr3 va : UInt32) : Option (UInt32 × Nat) :=
  let pde := m (frameOf cr3) (vmmPdi va)
  if present pde then
    let pte := m (frameOf pde) (vmmPti va)
    if present pte then some (frameOf pte, vmmWord va) else none
  else none

/-- `alloc_frame` and `free_frame`. An allocation that fails panics in the allocator. -/
structure FrameAlloc (α : Type) where
  allocFrame : α → Option (UInt32 × α)
  freeFrame : UInt32 → α → α

/-- A call of the allocator, by what the frame is for. -/
inductive Event where
  | allocTable (frame : UInt32)
  | freeTable (frame : UInt32)
  | freePage (frame : UInt32)
  deriving DecidableEq

/-- `log` is no part of the program: the calls of the allocator so far, last first. -/
structure Machine (α : Type) where
  mem : Memory
  cr3 : UInt32
  kmapPtPhys : UInt32
  frames : α
  log : List Event

inductive Stop where
  | pageFault
  | panic
  deriving DecidableEq

variable {α : Type}

namespace Machine

def poke (s : Machine α) (page : UInt32) (i : Nat) (x : UInt32) : Machine α :=
  { s with mem := s.mem.set page i x }

def freeTable (A : FrameAlloc α) (s : Machine α) (frame : UInt32) : Machine α :=
  { s with frames := A.freeFrame frame s.frames, log := .freeTable frame :: s.log }

def freePage (A : FrameAlloc α) (s : Machine α) (frame : UInt32) : Machine α :=
  { s with frames := A.freeFrame frame s.frames, log := .freePage frame :: s.log }

end Machine

/-- The frame for a page table. -/
def allocTable (A : FrameAlloc α) (s : Machine α) : Except Stop (UInt32 × Machine α) :=
  match A.allocFrame s.frames with
  | none => .error .panic
  | some (frame, a) =>
    if frame = 0 then .error .panic
    else .ok (frame, { s with frames := a, log := .allocTable frame :: s.log })

/-! ## Accesses through virtual addresses -/

/-- The word `i` of an array of words. -/
def word (base : UInt32) (i : Nat) : UInt32 := base + UInt32.ofNat i * 4

def ptVa (pdi : Nat) : UInt32 := selfPtBaseVa + UInt32.ofNat pdi * 4096

def load (s : Machine α) (va : UInt32) : Except Stop UInt32 :=
  match translate s.mem s.cr3 va with
  | none => .error .pageFault
  | some (page, i) => .ok (s.mem page i)

def store (s : Machine α) (va x : UInt32) : Except Stop (Machine α) :=
  match translate s.mem s.cr3 va with
  | none => .error .pageFault
  | some (page, i) => .ok (s.poke page i x)

/-- `memset(base, 0, n * 4)`. -/
def memset (base : UInt32) : Nat → Machine α → Except Stop (Machine α)
  | 0, s => .ok s
  | n + 1, s => do
    let s ← memset base n s
    store s (word base n) 0

/-- Is none of the entries from `i` on, `n` in number, present? -/
def isEmpty (s : Machine α) (pt : UInt32) (i : Nat) : Nat → Except Stop Bool
  | 0 => .ok true
  | n + 1 => do
    if present (← load s (word pt i)) then .ok false else isEmpty s pt (i + 1) n

/-- The window at `kmapBase` moved to a page. -/
def kmap (s : Machine α) (phys : UInt32) : Except Stop (Machine α) :=
  if s.kmapPtPhys = 0 then .error .panic
  else store s (word (ptVa kmapPdeBase) kmapPteBase) (frameOf phys ||| pageFlags)

def kunmap (s : Machine α) : Except Stop (Machine α) :=
  store s (word (ptVa kmapPdeBase) kmapPteBase) 0

/-! ## map_page -/

def tableEntry (ptPhys pdeFlags : UInt32) : UInt32 := frameOf ptPhys ||| pdeFlags ||| pagePresent

def pageEntry (paddr flags : UInt32) : UInt32 := paddr ||| (flags &&& 0xFFF) ||| pagePresent

/-- The entry `pti` of the table at `pt` set, for both paths. -/
def setEntry (s : Machine α) (pt : UInt32) (pti : Nat) (entry : UInt32) (overwrite : Bool) :
    Except Stop (Machine α) := do
  let old ← load s (word pt pti)
  if present old && !overwrite then .error .panic else store s (word pt pti) entry

/-- A table for the directory entry `pdi`, if there is none. -/
def needTable (A : FrameAlloc α) (s : Machine α) (pdi : Nat) (pdeFlags : UInt32) :
    Except Stop (Machine α) := do
  if present (← load s (word selfPdVa pdi)) then .ok s
  else do
    let (ptPhys, s) ← allocTable A s
    let s ← store s (word selfPdVa pdi) (tableEntry ptPhys pdeFlags)
    memset (ptVa pdi) pageEntries s

def mapCurrent (A : FrameAlloc α) (s : Machine α) (pdi pti : Nat) (pdeFlags entry : UInt32)
    (overwrite : Bool) : Except Stop (Machine α) := do
  let s ← needTable A s pdi pdeFlags
  setEntry s (ptVa pdi) pti entry overwrite

/-- The same in a directory that is not in CR3, with the entry found or made. -/
def needTableForeign (A : FrameAlloc α) (s : Machine α) (asCr3 : UInt32) (pdi : Nat)
    (pdeFlags : UInt32) : Except Stop (UInt32 × Machine α) := do
  let s ← kmap s asCr3
  let pde ← load s (word kmapBase pdi)
  if present pde then do
    let s ← kunmap s
    .ok (pde, s)
  else do
    let (ptPhys, s) ← allocTable A s
    let s ← store s (word kmapBase pdi) (tableEntry ptPhys pdeFlags)
    let s ← kunmap s
    let s ← kmap s ptPhys
    let s ← memset kmapBase pageEntries s
    let s ← kunmap s
    .ok (tableEntry ptPhys pdeFlags, s)

def mapForeign (A : FrameAlloc α) (s : Machine α) (asCr3 : UInt32) (pdi pti : Nat)
    (pdeFlags entry : UInt32) (overwrite : Bool) : Except Stop (Machine α) := do
  let (pde, s) ← needTableForeign A s asCr3 pdi pdeFlags
  let s ← kmap s (frameOf pde)
  let s ← setEntry s kmapBase pti entry overwrite
  kunmap s

def pdeFlagsOf (flags : UInt32) : UInt32 :=
  if flags &&& pageUser != 0 then pageFlags ||| pageUser else pageFlags

def mapPage (A : FrameAlloc α) (s : Machine α) (as vaddr paddr flags : UInt32) (overwrite : Bool) :
    Except Stop (Machine α) :=
  let vaddr := vaddr &&& pageMask
  let paddr := paddr &&& pageMask
  let pdi := vmmPdi vaddr
  let pti := vmmPti vaddr
  if frameOf s.cr3 = frameOf as then
    mapCurrent A s pdi pti (pdeFlagsOf flags) (pageEntry paddr flags) overwrite
  else mapForeign A s (frameOf as) pdi pti (pdeFlagsOf flags) (pageEntry paddr flags) overwrite

/-! ## unmap_page -/

def freeMapped (A : FrameAlloc α) (s : Machine α) (entry : UInt32) (freeFrameFlag : Bool) : Machine α :=
  if freeFrameFlag then s.freePage A (frameOf entry) else s

/-- The table of a user slot goes back when it is empty. -/
def reclaimCurrent (A : FrameAlloc α) (s : Machine α) (pdi : Nat) : Except Stop (Machine α) :=
  if pdi < kernelPdeBase then do
    if ← isEmpty s (ptVa pdi) 0 pageEntries then do
      let pde ← load s (word selfPdVa pdi)
      let s ← store s (word selfPdVa pdi) 0
      .ok (s.freeTable A (frameOf pde))
    else .ok s
  else .ok s

def unmapCurrent (A : FrameAlloc α) (s : Machine α) (pdi pti : Nat) (freeFrameFlag : Bool) :
    Except Stop (Machine α) := do
  if present (← load s (word selfPdVa pdi)) then do
    let entry ← load s (word (ptVa pdi) pti)
    if present entry then do
      let s := freeMapped A s entry freeFrameFlag
      let s ← store s (word (ptVa pdi) pti) 0
      reclaimCurrent A s pdi
    else .ok s
  else .ok s

def reclaimForeign (A : FrameAlloc α) (s : Machine α) (asCr3 : UInt32) (pdi : Nat) (ptPhys : UInt32) :
    Except Stop (Machine α) :=
  if pdi < kernelPdeBase then do
    let empty ← isEmpty s kmapBase 0 pageEntries
    let s ← kunmap s
    if empty then do
      let s ← kmap s asCr3
      let s ← store s (word kmapBase pdi) 0
      let s ← kunmap s
      .ok (s.freeTable A ptPhys)
    else .ok s
  else kunmap s

def unmapForeign (A : FrameAlloc α) (s : Machine α) (asCr3 : UInt32) (pdi pti : Nat)
    (freeFrameFlag : Bool) : Except Stop (Machine α) := do
  let s ← kmap s asCr3
  let pde ← load s (word kmapBase pdi)
  let s ← kunmap s
  if present pde then do
    let s ← kmap s (frameOf pde)
    let entry ← load s (word kmapBase pti)
    if present entry then do
      let s := freeMapped A s entry freeFrameFlag
      let s ← store s (word kmapBase pti) 0
      reclaimForeign A s asCr3 pdi (frameOf pde)
    else kunmap s
  else .ok s

def unmapPage (A : FrameAlloc α) (s : Machine α) (as vaddr : UInt32) (freeFrameFlag : Bool) :
    Except Stop (Machine α) :=
  let vaddr := vaddr &&& pageMask
  let pdi := vmmPdi vaddr
  let pti := vmmPti vaddr
  if frameOf s.cr3 = frameOf as then unmapCurrent A s pdi pti freeFrameFlag
  else unmapForeign A s (frameOf as) pdi pti freeFrameFlag

/-! ## get_mapping -/

def entryFrame (pte : UInt32) : UInt32 := if present pte then frameOf pte else 0

def getCurrent (s : Machine α) (pdi pti : Nat) : Except Stop (UInt32 × Machine α) := do
  if present (← load s (word selfPdVa pdi)) then do
    let pte ← load s (word (ptVa pdi) pti)
    .ok (entryFrame pte, s)
  else .ok (0, s)

def getForeign (s : Machine α) (asCr3 : UInt32) (pdi pti : Nat) : Except Stop (UInt32 × Machine α) := do
  let s ← kmap s asCr3
  let pde ← load s (word kmapBase pdi)
  let s ← kunmap s
  if present pde then do
    let s ← kmap s (frameOf pde)
    let pte ← load s (word kmapBase pti)
    let s ← kunmap s
    .ok (entryFrame pte, s)
  else .ok (0, s)

def getMapping (s : Machine α) (as vaddr : UInt32) : Except Stop (UInt32 × Machine α) :=
  let vaddr := vaddr &&& pageMask
  let pdi := vmmPdi vaddr
  let pti := vmmPti vaddr
  if frameOf s.cr3 = frameOf as then getCurrent s pdi pti else getForeign s (frameOf as) pdi pti

def switchAddressSpace (s : Machine α) (as : UInt32) : Machine α :=
  if frameOf s.cr3 ≠ frameOf as then { s with cr3 := frameOf as } else s

end Serotonin.Vmm
