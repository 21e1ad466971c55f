import Serotonin.Lib.Returns
import Serotonin.Syscall.UserCopy
import Serotonin.Files.Permission

/-! `kernel_load_elf` of `kernel.c`: the checks of the ELF header, the segments that are mapped
and filled in a new address space, and the stack of the new program. Memory is shown by address,
as the processor sees it under the new page directory. -/

namespace Serotonin.Exec

open ByteMem (Mem u32 load16 load32)
open Syscall (userSpaceStart userSpaceEnd pageSize)

def elfChunkSize : Nat := 512 * 1024
def ptLoad : Nat := 1
def userStackTop : Nat := 0xBF000000
def userStackSize : Nat := 0x00100000
def signalTrampolineAddr : Nat := 0xBFF00000
def ehdrSize : Nat := 52
def phdrSize : Nat := 32
def kernelPdeBase : Nat := 768
def kmapPdeBase : Nat := 1022
def selfPdeBase : Nat := 1023
def shmemStart : Nat := 0x60000000
def shmemEnd : Nat := 0x9FFFFFFF

/-- `movl $19, %eax; int $0x80`. -/
def signalTrampoline : List UInt8 := [0xB8, 19, 0, 0, 0, 0xCD, 0x80]

/-- The kernel stops here: it panics, or it touches a page that is not present. -/
inductive Stop where
  | panic
  | fault
deriving DecidableEq

/-- What is read of a program header. -/
structure Phdr where
  type : Nat
  offset : Nat
  vaddr : Nat
  filesz : Nat
  memsz : Nat
  vaddr_lt : vaddr < 2 ^ 32
deriving DecidableEq

namespace Phdr

def segBase (h : Phdr) : Nat := h.vaddr / pageSize * pageSize

def segEnd (h : Phdr) : Nat := u32 (h.vaddr + h.memsz + pageSize - 1) / pageSize * pageSize

/-- The pages that the loader maps for the segment. -/
def pages (h : Phdr) : List Nat := List.range' (h.segBase / pageSize) (h.segEnd / pageSize - h.segBase / pageSize)

end Phdr

/-- What the loader did in the new address space; no part of the kernel. -/
inductive Event where
  | map (page : Nat)
  | zero (addr len : Nat)
  | file (h : Phdr) (addr len : Nat)
  | code (addr len : Nat)
  | args (addr len : Nat)
deriving DecidableEq

/-- Pages by number, page tables by the number of the directory entry. -/
structure Space where
  page : Nat → Bool
  table : Nat → Bool
  mem : Mem
  table_of_page : ∀ p, page p = true → table (p / 1024) = true

/-- An address space that is being filled, and the frames that are free. -/
structure Build where
  space : Space
  frames : Nat
  log : List Event

def Space.addPage (sp : Space) (p : Nat) : Space where
  page := fun q => q == p || sp.page q
  table := fun t => t == p / 1024 || sp.table t
  mem := sp.mem
  table_of_page q hq := by
    simp only [Bool.or_eq_true, beq_iff_eq] at hq ⊢
    exact hq.imp (fun h => by rw [h]) (sp.table_of_page q)

def Space.setMem (sp : Space) (mem : Mem) : Space := { sp with mem := mem }

@[simp] theorem Space.setMem_page (sp : Space) (mem : Mem) : (sp.setMem mem).page = sp.page := rfl

@[simp] theorem Space.setMem_table (sp : Space) (mem : Mem) : (sp.setMem mem).table = sp.table := rfl

@[simp] theorem Space.setMem_mem (sp : Space) (mem : Mem) : (sp.setMem mem).mem = mem := rfl

namespace Build

def addPage (s : Build) (p : Nat) (frames : Nat) : Build :=
  { space := s.space.addPage p, frames := frames, log := s.log ++ [.map p] }

/-- `alloc_frame` and `map_page` without `overwrite`. -/
def mapPage (s : Build) (p : Nat) : Except Stop Build :=
  if s.frames = 0 then .error .panic
  else if s.space.table (p / 1024) = false then
    if s.frames = 1 then .error .panic else .ok (s.addPage p (s.frames - 2))
  else if s.space.page p then .error .panic
  else .ok (s.addPage p (s.frames - 1))

def mapList : List Nat → Build → Except Stop Build
  | [], s => .ok s
  | p :: ps, s => do mapList ps (← s.mapPage p)

end Build

/-- The pages of `len` bytes from `addr` on. Addresses wrap. -/
def touched (addr len : Nat) : List Nat :=
  if len = 0 then []
  else (List.range ((addr % pageSize + (len - 1)) / pageSize + 1)).map fun k => (addr / pageSize + k) % 2 ^ 20

/-- `len` bytes from `addr` on, as a store leaves them. -/
def storeMem (mem : Mem) (addr len : Nat) (bytes : Mem) : Mem := fun a =>
  if u32 (a + 2 ^ 32 - addr) < len then bytes (u32 (a + 2 ^ 32 - addr)) else mem a

namespace Build

def store (s : Build) (e : Event) (addr len : Nat) (bytes : Mem) : Except Stop Build :=
  if len = 0 then .ok s
  else if (touched addr len).all s.space.page then
    .ok { s with space := s.space.setMem (storeMem s.space.mem addr len bytes), log := s.log ++ [e] }
  else .error .fault

def memset (s : Build) (addr len : Nat) : Except Stop Build := s.store (.zero addr len) addr len fun _ => 0

end Build

/-! ## The file -/

/-- As far as the file goes. -/
def vfsRead (file : List UInt8) (offset size : Nat) : List UInt8 := (file.drop offset).take size

/-- A buffer after bytes were read into it. -/
def overlay (bytes : List UInt8) (buf : Mem) : Mem := fun i => bytes.getD i (buf i)

/-- Sizes of files are 32 bits wide. -/
structure ElfFile where
  bytes : List UInt8
  size_lt : bytes.length < 2 ^ 32

/-- What `kernel_load_elf` is called with and answered: the file, unless it is not there; whether
the two reads of headers go well; what is in the memory that it is given for the program headers
and for the chunks, in two tries, if it is given any; the frame of the new page directory, and what
the other frames hold. -/
structure Request where
  pname : List UInt8
  argv : List (List UInt8)
  envp : List (List UInt8)
  file : Option ElfFile
  ehdrRead : Bool
  phdrRead : Bool
  phdrBuf : Option Mem
  chunkBuf : Option Mem
  pageBuf : Option Mem
  pdir : Nat
  mem : Mem

/-- What the loader reads of the ELF header. -/
structure Ehdr where
  ident : List UInt8
  type : Nat
  machine : Nat
  entry : Nat
  phoff : Nat
  phnum : Nat

def readEhdr (file : List UInt8) : Ehdr :=
  let m : Mem := overlay (vfsRead file 0 ehdrSize) fun _ => 0
  { ident := [m 0, m 1, m 2, m 3, m 4, m 5], type := load16 m 16, machine := load16 m 18, entry := load32 m 24
    phoff := load32 m 28, phnum := load16 m 44 }

/-- `ELFMAG`, `ELFCLASS32`, `ELFDATA2LSB`, `ET_EXEC` and `EM_386`. -/
def Ehdr.valid (e : Ehdr) : Bool :=
  e.ident == [0x7F, 0x45, 0x4C, 0x46, 1, 1] && e.type == 2 && e.machine == 3

def readPhdr (m : Mem) (i : Nat) : Phdr :=
  { type := load32 m (phdrSize * i), offset := load32 m (phdrSize * i + 4), vaddr := load32 m (phdrSize * i + 8)
    filesz := load32 m (phdrSize * i + 16), memsz := load32 m (phdrSize * i + 20)
    vaddr_lt := ByteMem.load32_lt _ _ }

/-- The program headers of the segments that are loaded. What the file does not have of them is
what was in the memory. -/
def loadable (file : List UInt8) (buf : Mem) : List Phdr :=
  let e := readEhdr file
  let m := overlay (vfsRead file e.phoff (e.phnum * phdrSize)) buf
  ((List.range e.phnum).map (readPhdr m)).filter fun h => h.type == ptLoad

/-! ## The segments -/

/-- The file's bytes in chunks. What is in the buffer stays there when a read is short. -/
def copyChunks (file : List UInt8) (size : Nat) (h : Phdr) : Nat → Nat → Build → Mem → Except Stop (Build × Mem)
  | 0, _, s, chunk => .ok (s, chunk)
  | n + 1, done, s, chunk =>
    if done < h.filesz then do
      let rlen := min (h.filesz - done) size
      let chunk := overlay (vfsRead file (u32 (h.offset + done)) rlen) chunk
      let s ← s.store (.file h (u32 (h.vaddr + done)) rlen) (u32 (h.vaddr + done)) rlen chunk
      copyChunks file size h n (done + rlen) s chunk
    else .ok (s, chunk)

def loadSegment (file : List UInt8) (size : Nat) (h : Phdr) (s : Build) (chunk : Mem) : Except Stop (Build × Mem) := do
  let s ← s.mapList h.pages
  let s ← s.memset h.segBase (u32 (h.segEnd + 2 ^ 32 - h.segBase))
  copyChunks file size h h.filesz 0 s chunk

def loadSegments (file : List UInt8) (size : Nat) : List Phdr → Build → Mem → Except Stop Build
  | [], s, _ => .ok s
  | h :: hs, s, chunk => do
    let (s, chunk) ← loadSegment file size h s chunk
    loadSegments file size hs s chunk

/-! ## The stack -/

def stackPages : List Nat := List.range' (userStackTop / pageSize) (userStackSize / pageSize)

def stackTop : Nat := userStackTop + userStackSize - 4

/-- Strings with their ends. -/
def stringBytes (ss : List (List UInt8)) : List UInt8 := ss.flatMap fun s => s ++ [0]

/-- `count_total_string_bytes` of both vectors. -/
def stringsSz (r : Request) : Nat := u32 ((stringBytes r.envp).length + (stringBytes r.argv).length)

def ptrsSz (r : Request) : Nat := u32 (4 * (1 + r.argv.length + 1 + r.envp.length + 1))

def stackPointer (r : Request) : Nat := u32 (stackTop + 2 * 2 ^ 32 - stringsSz r - ptrsSz r) / 16 * 16

/-- Where each of the strings starts. -/
def pointers (start : Nat) : List (List UInt8) → List Nat
  | [] => []
  | s :: ss => start :: pointers (start + s.length + 1) ss

def le32 (n : Nat) : List UInt8 := [.ofNat n, .ofNat (n / 256), .ofNat (n / 65536), .ofNat (n / 16777216)]

/-- `argc`, the pointers and the strings. -/
def argBytes (r : Request) : List UInt8 :=
  let start := stackPointer r + ptrsSz r
  ([r.argv.length] ++ pointers start r.argv ++ [0] ++ pointers (start + (stringBytes r.argv).length) r.envp ++ [0]).flatMap le32 ++
    stringBytes r.argv ++ stringBytes r.envp

def setUpStack (r : Request) (s : Build) : Except Stop Build := do
  let s ← s.mapList stackPages
  let s ← s.memset userStackTop userStackSize
  let s ← s.mapPage (signalTrampolineAddr / pageSize)
  let s ← s.store (.code signalTrampolineAddr signalTrampoline.length) signalTrampolineAddr signalTrampoline.length
    fun i => signalTrampoline.getD i 0
  s.store (.args (stackPointer r) (argBytes r).length) (stackPointer r) (argBytes r).length fun i => (argBytes r).getD i 0

/-! ## The call -/

/-- The registers that are restored when the task goes on in user mode. -/
structure Context where
  ds : Nat
  es : Nat
  fs : Nat
  gs : Nat
  edi : Nat
  esi : Nat
  ebp : Nat
  espAtPushal : Nat
  ebx : Nat
  edx : Nat
  ecx : Nat
  eax : Nat
  stubEflags : Nat
  eip : Nat
  cs : Nat
  eflags : Nat
  espAtTrap : Nat
  ss : Nat
deriving DecidableEq

/-- `address_space_t`. -/
structure AddressSpace where
  physPdir : Nat
  space : Space

/-- The calling task. -/
structure Pcb where
  name : List UInt8
  cwd : List UInt8
  processorContext : Context
  cr3 : Nat
  esp : Nat
  espMin : Nat
  espMax : Nat
  entry : Nat
  argv : Nat
  envp : Nat
  addressSpace : AddressSpace
  brkStart : Nat
  brkEnd : Nat
  cred : Files.Cred
  signalHandlers : List Nat
  signalBitmask : Nat
  inSignalHandler : Bool

/-- What the kernel allocates in the two calls. -/
inductive Buf where
  | path
  | argv
  | envp
  | arg (i : Nat)
  | env (i : Nat)
  | phdr
  | chunk
  | addressSpace
deriving DecidableEq

/-- `log` is what the last load did, and no part of the kernel; `kernelPage` and `kernelTable` are
what the current page directory has for every address space. -/
structure Kernel where
  pcb : Pcb
  cr3 : Nat
  frames : Nat
  bufs : List Buf
  log : List Event
  kernelPage : Nat → Bool
  kernelTable : Nat → Bool
  kernelTable_of_page : ∀ p, kernelPage p = true → kernelTable (p / 1024) = true

namespace Kernel

def alloc (k : Kernel) (b : Buf) : Kernel := { k with bufs := b :: k.bufs }

def free (k : Kernel) (b : Buf) : Kernel := { k with bufs := k.bufs.erase b }

/-- An address space without pages for the user. -/
def emptySpace (k : Kernel) (mem : Mem) : Space where
  page := fun p => (p / 1024 == 0 || decide (kernelPdeBase ≤ p / 1024)) && k.kernelPage p
  table := fun t => t == 0 || decide (kernelPdeBase ≤ t) && (t == kmapPdeBase || t == selfPdeBase || k.kernelTable t)
  mem := mem
  table_of_page p hp := by
    simp only [Bool.and_eq_true, Bool.or_eq_true, beq_iff_eq, decide_eq_true_eq] at hp ⊢
    exact hp.1.imp_right fun h => ⟨h, .inr (k.kernelTable_of_page p hp.2)⟩

def createAddressSpace (k : Kernel) (pdir : Nat) (mem : Mem) : Except Stop (AddressSpace × Kernel) :=
  if k.frames = 0 then .error .panic
  else .ok ({ physPdir := pdir, space := k.emptySpace mem }, { k.alloc .addressSpace with frames := k.frames - 1 })

end Kernel

namespace Space

/-- Is the page one of the user's own? Frames of shared memory belong to the shared object. -/
def ownPage (sp : Space) (p : Nat) : Bool :=
  sp.page p && !(decide (shmemStart / 2 ^ 22 ≤ p / 1024) && decide (p / 1024 ≤ shmemEnd / 2 ^ 22))

/-- The frames that `destroy_address_space` gives back: of pages, of page tables, and of the
directory. -/
def frames (sp : Space) : Nat :=
  ((List.range' 1024 (1024 * (kernelPdeBase - 1))).filter sp.ownPage).length +
    ((List.range' 1 (kernelPdeBase - 1)).filter sp.table).length + 1

end Space

def Kernel.destroyAddressSpace (k : Kernel) (as : AddressSpace) : Kernel :=
  { k.free .addressSpace with frames := k.frames + as.space.frames }

/-- The buffer for the chunks, with its size. -/
def Request.chunk (r : Request) : Option (Nat × Mem) :=
  match r.chunkBuf with
  | some m => some (elfChunkSize, m)
  | none => r.pageBuf.map fun m => (pageSize, m)

def envpUserArray (r : Request) : Nat := u32 (stackPointer r + 4 + 4 * (r.argv.length + 1))

/-- What becomes of the task when the new program is in place. -/
def Pcb.start (p : Pcb) (r : Request) (entry : Nat) (as : AddressSpace) : Pcb :=
  { p with
    name := r.pname.take 32
    esp := stackPointer r
    processorContext := { p.processorContext with espAtTrap := stackPointer r, eip := entry }
    cr3 := as.physPdir
    addressSpace := as
    espMin := userStackTop
    espMax := stackTop
    entry := entry
    argv := u32 (stackPointer r + 4)
    envp := envpUserArray r }

def Kernel.start (k : Kernel) (r : Request) (entry : Nat) (as : AddressSpace) (b : Build) : Kernel :=
  { k with
    pcb := k.pcb.start r entry { as with space := b.space }
    cr3 := as.physPdir
    frames := b.frames
    log := b.log }

/-- The part that fills the address space. -/
def loadImage (r : Request) (file : List UInt8) (hs : List Phdr) (size : Nat) (chunk : Mem) (sp : Space) (frames : Nat) :
    Except Stop Build := do
  setUpStack r (← loadSegments file size hs { space := sp, frames := frames, log := [] } chunk)

/-- With the return value. -/
def kernelLoadElf (r : Request) (k : Kernel) : Except Stop (Nat × Kernel) :=
  match r.file with
  | none => .ok (1, k)
  | some file =>
    if file.bytes.length < ehdrSize ∨ r.ehdrRead = false then .ok (1, k)
    else if (readEhdr file.bytes).valid = false then .ok (1, k)
    else match r.phdrBuf with
    | none => .ok (1, k)
    | some phdr =>
      let k := k.alloc .phdr
      if r.phdrRead = false then .ok (1, k.free .phdr)
      else do
        let (as, k) ← k.createAddressSpace r.pdir r.mem
        match r.chunk with
        | none => .ok (1, (k.destroyAddressSpace as).free .phdr)
        | some (size, chunk) =>
          let k := k.alloc .chunk
          let b ← loadImage r file.bytes (loadable file.bytes phdr) size chunk as.space k.frames
          .ok (0, ((k.free .chunk).free .phdr).start r (readEhdr file.bytes).entry as b)

end Serotonin.Exec
