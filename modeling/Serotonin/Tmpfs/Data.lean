import Serotonin.Files.Model
import Serotonin.Lib.ByteMem
import Serotonin.Lib.Padded

/-! The bytes of a file of `tmpfs.c`: the block in the heap that holds them, and the two sizes, that
of the node and that of `tmpfs_file_t`. An access outside the block has no result. -/

namespace Serotonin.Tmpfs.Data

open ByteMem (u32 u32_of_lt int32 int32_of_lt)
open Files (vfsFlagFile)
open Padded (patch slice)

/-- `KERNEL_HEAP_SIZE` -/
def kernelHeapSize : Nat := 256 * 1024 * 1024

inductive Stop where
  | outOfBlock
deriving DecidableEq

/-- A node with its `tmpfs_file_t`; without a block `data` is NULL. -/
structure File where
  flags : BitVec 32
  nodeSize : Nat
  size : Nat
  data : Option (List UInt8)
deriving DecidableEq

/-- `kernel_malloc` and `memset`: a block of the heap, if it has room. -/
def newBlock (room : Bool) (n : Nat) : Option (List UInt8) :=
  if room ∧ n ≤ kernelHeapSize then some (List.replicate n 0) else none

def File.bytes (f : File) : List UInt8 := f.data.getD []

/-- `memcpy` out of a block. -/
def load (block : List UInt8) (offset n : Nat) : Except Stop (List UInt8) :=
  if n = 0 ∨ offset + n ≤ block.length then .ok (slice block offset n) else .error .outOfBlock

/-- `memcpy` into the block of a file. -/
def File.store (f : File) (offset : Nat) (new : List UInt8) : Except Stop File :=
  if new = [] ∨ offset + new.length ≤ f.bytes.length then
    .ok { f with data := f.data.map fun block => patch block offset new }
  else .error .outOfBlock

def tmpfsRead (f : File) (offset size : Nat) : Except Stop (Int × List UInt8) :=
  if f.flags &&& vfsFlagFile = 0 then .ok (-1, [])
  else if f.size ≤ offset then .ok (0, [])
  else do
    let bytesToRead := if f.size < u32 (offset + size) then f.size - offset else size
    let bytes ← load f.bytes offset bytesToRead
    return (int32 bytesToRead, bytes)

/-- The old data in a new block. -/
def File.moved (f : File) (block : List UInt8) (n : Nat) : Except Stop (List UInt8) :=
  match f.data with
  | none => .ok block
  | some old => do
    let copy ← load old 0 n
    return patch block 0 copy

/-- `room` is the answer of `kernel_malloc`, which is not checked here. -/
def tmpfsWrite (room : Bool) (f : File) (offset : Nat) (new : List UInt8) : Except Stop (Int × File) :=
  if f.flags &&& vfsFlagFile = 0 then .ok (-1, f)
  else do
    let newSize := u32 (offset + new.length)
    let f ←
      if f.size < newSize then
        match newBlock room newSize with
        | none => .error .outOfBlock
        | some block => do
          let block ← f.moved block f.size
          pure { f with data := some block, size := newSize, nodeSize := newSize }
      else pure f
    let f ← f.store offset new
    return (int32 new.length, f)

def tmpfsTruncate (room : Bool) (f : File) (size : Nat) : Except Stop (Int × File) :=
  if f.flags &&& vfsFlagFile = 0 then .ok (-1, f)
  else if size = f.size then .ok (0, { f with nodeSize := size })
  else if size = 0 then .ok (0, { f with data := none, size := 0, nodeSize := 0 })
  else
    match newBlock room size with
    | none => .ok (-1, f)
    | some block => do
      let block ← f.moved block (min f.size size)
      return (0, { f with data := some block, size := size, nodeSize := size })

/-- The file that `tmpfs_create_file` makes. -/
def newFile : File where
  flags := vfsFlagFile
  nodeSize := 0
  size := 0
  data := none

/-! ## Calls -/

inductive Call where
  | read (offset size : Nat)
  | write (offset : Nat) (new : List UInt8) (room : Bool)
  | truncate (size : Nat) (room : Bool)

/-- What a call returns, and what a read leaves in the caller's buffer. -/
structure Result where
  ret : Int
  bytes : List UInt8
deriving DecidableEq

def step (f : File) : Call → Except Stop (Result × File)
  | .read offset size => do
    let (ret, bytes) ← tmpfsRead f offset size
    return (⟨ret, bytes⟩, f)
  | .write offset new room => do
    let (ret, f) ← tmpfsWrite room f offset new
    return (⟨ret, []⟩, f)
  | .truncate size room => do
    let (ret, f) ← tmpfsTruncate room f size
    return (⟨ret, []⟩, f)

def run (f : File) : List Call → Except Stop (List Result × File)
  | [] => .ok ([], f)
  | c :: cs => do
    let (r, f) ← step f c
    let (rs, f) ← run f cs
    return (r :: rs, f)

/-- A call on an array of bytes. -/
def arrayStep (xs : List UInt8) : Call → Result × List UInt8
  | .read offset size => (⟨(min size (xs.length - offset) : Nat), slice xs offset size⟩, xs)
  | .write offset new _ => (⟨new.length, []⟩, Padded.write 0 xs offset new)
  | .truncate size _ => (⟨0, []⟩, Padded.resize 0 xs size)

def arrayRun (xs : List UInt8) : List Call → List Result × List UInt8
  | [] => ([], xs)
  | c :: cs =>
    let (r, xs) := arrayStep xs c
    let (rs, xs) := arrayRun xs cs
    (r :: rs, xs)

/-- No sum wraps, and the block that the call asks for is given. -/
def Call.Fits (f : File) : Call → Prop
  | .read offset size => offset + size < 2 ^ 32
  | .write offset new room =>
    offset + new.length < 2 ^ 32 ∧ (f.size < offset + new.length → newBlock room (offset + new.length) ≠ none)
  | .truncate size room => size < 2 ^ 32 ∧ (size ≠ f.size → size ≠ 0 → newBlock room size ≠ none)

def AllFit (f : File) : List Call → Prop
  | [] => True
  | c :: cs => c.Fits f ∧ ∀ r f', step f c = .ok (r, f') → AllFit f' cs

/-! ## Files as arrays -/

/-- The file holds the array. -/
structure Holds (f : File) (xs : List UInt8) : Prop where
  file : f.flags &&& vfsFlagFile ≠ 0
  nodeSize : f.nodeSize = xs.length
  size : f.size = xs.length
  bytes : f.bytes = xs
  inHeap : xs.length ≤ kernelHeapSize

theorem newFile_holds : Holds newFile [] where
  file := by decide
  nodeSize := rfl
  size := rfl
  bytes := rfl
  inHeap := Nat.zero_le _

variable {f : File} {xs block new : List UInt8} {offset size n : Nat} {room : Bool}

@[simp] theorem int32_of_le (h : n ≤ kernelHeapSize) : int32 n = n :=
  int32_of_lt (Nat.lt_of_le_of_lt h (by decide))

theorem newBlock_eq (h : newBlock room n ≠ none) : n ≤ kernelHeapSize ∧ newBlock room n = some (List.replicate n 0) := by
  unfold newBlock at *
  split at h
  · next hroom => exact ⟨hroom.2, if_pos hroom⟩
  · exact absurd rfl h

theorem load_of_le (h : offset + n ≤ block.length) : load block offset n = .ok (slice block offset n) := if_pos (.inr h)

/-- A copy of the first `n` bytes, whether there is a block or not. -/
theorem moved_eq (hn : n ≤ f.bytes.length) : f.moved block n = .ok (patch block 0 (f.bytes.take n)) := by
  unfold File.moved
  cases hdata : f.data with
  | none => simp [File.bytes, hdata]
  | some old =>
    have hbytes : f.bytes = old := by simp [File.bytes, hdata]
    rw [hbytes] at hn ⊢
    dsimp only
    rw [load_of_le (by omega)]
    rfl

theorem store_eq (h : offset + new.length ≤ f.bytes.length) :
    ∃ data, f.store offset new = .ok { f with data := data } ∧ data.getD [] = patch f.bytes offset new := by
  refine ⟨_, if_pos (.inr h), ?_⟩
  cases hdata : f.data with
  | some block => simp [File.bytes, hdata]
  | none =>
    have hnil : new = [] := by
      simp only [File.bytes, hdata, Option.getD_none, List.length_nil] at h
      exact List.eq_nil_of_length_eq_zero (by omega)
    subst hnil
    simp [File.bytes, hdata]

namespace Holds

variable (h : Holds f xs)

include h

theorem read (hsum : offset + size < 2 ^ 32) :
    tmpfsRead f offset size = .ok ((min size (xs.length - offset) : Nat), slice xs offset size) := by
  have hheap := h.inHeap
  unfold tmpfsRead
  rw [if_neg h.file, h.size, h.bytes, u32_of_lt hsum]
  by_cases hend : xs.length ≤ offset
  · have hno : xs.length - offset = 0 := by omega
    rw [if_pos hend]
    simp [hno, slice, List.drop_eq_nil_of_le hend]
  · rw [if_neg hend]
    have hmin : (if xs.length < offset + size then xs.length - offset else size) = min size (xs.length - offset) := by
      split <;> omega
    have hslice : slice xs offset (min size (xs.length - offset)) = slice xs offset size := by
      simp only [slice]
      rw [List.take_eq_take_iff, List.length_drop]
      omega
    dsimp only
    rw [hmin, load_of_le (by omega), hslice]
    have hint : int32 (min size (xs.length - offset)) = (min size (xs.length - offset) : Nat) := int32_of_le (by omega)
    simp only [bind, Except.bind, pure, Except.pure, hint]

/-- A write into the block that the file has. -/
theorem write_inside (hin : offset + new.length ≤ xs.length) :
    ∃ f', tmpfsWrite room f offset new = .ok (new.length, f') ∧ Holds f' (Padded.write 0 xs offset new) := by
  have hheap := h.inHeap
  obtain ⟨data, hstore, hdata⟩ := store_eq (f := f) (h.bytes.symm ▸ hin)
  refine ⟨{ f with data := data }, ?_, ?_⟩
  · have hsum : u32 (offset + new.length) = offset + new.length :=
      u32_of_lt (Nat.lt_of_le_of_lt (Nat.le_trans hin hheap) (by decide))
    unfold tmpfsWrite
    dsimp only
    rw [if_neg h.file, hsum, if_neg (by rw [h.size]; omega)]
    simp only [bind, Except.bind, pure, Except.pure, hstore]
    rw [int32_of_le (by omega)]
  · rw [Padded.write_of_le hin]
    have hlen := Padded.length_patch hin
    exact ⟨h.file, h.nodeSize.trans hlen.symm, h.size.trans hlen.symm, hdata.trans (h.bytes ▸ rfl), hlen ▸ hheap⟩

/-- A write that moves the file to a larger block. -/
theorem write_grows (hsum : offset + new.length < 2 ^ 32) (hout : xs.length < offset + new.length)
    (hroom : newBlock room (offset + new.length) ≠ none) :
    ∃ f', tmpfsWrite room f offset new = .ok (new.length, f') ∧ Holds f' (Padded.write 0 xs offset new) := by
  obtain ⟨hheap, hblock⟩ := newBlock_eq hroom
  have hmoved : f.moved (List.replicate (offset + new.length) 0) f.size = .ok (xs.rightpad (offset + new.length) 0) := by
    rw [moved_eq (Nat.le_of_eq (by rw [h.size, h.bytes])), h.bytes, h.size, List.take_length, Padded.patch_replicate]
  have hlen : (xs.rightpad (offset + new.length) 0).length = offset + new.length := by simp [List.rightpad]; omega
  obtain ⟨data, hstore, hdata⟩ := store_eq
    (f := { f with data := some (xs.rightpad (offset + new.length) 0), size := offset + new.length,
                   nodeSize := offset + new.length }) (Nat.le_of_eq hlen.symm)
  have hwrite : (Padded.write 0 xs offset new).length = offset + new.length := by
    rw [Padded.length_write]
    omega
  refine ⟨{ f with data := data, size := offset + new.length, nodeSize := offset + new.length }, ?_,
    h.file, hwrite.symm, hwrite.symm, hdata, hwrite ▸ hheap⟩
  unfold tmpfsWrite
  dsimp only
  rw [if_neg h.file, u32_of_lt hsum, if_pos (by rw [h.size]; exact hout), hblock]
  simp only [bind, Except.bind, pure, Except.pure, hmoved, hstore]
  rw [int32_of_le (by omega)]

theorem write (hfits : (Call.write offset new room).Fits f) :
    ∃ f', tmpfsWrite room f offset new = .ok (new.length, f') ∧ Holds f' (Padded.write 0 xs offset new) := by
  obtain ⟨hsum, hroom⟩ := hfits
  rw [h.size] at hroom
  by_cases hin : offset + new.length ≤ xs.length
  · exact h.write_inside hin
  · exact h.write_grows hsum (Nat.lt_of_not_le hin) (hroom (Nat.lt_of_not_le hin))

theorem truncate (hfits : (Call.truncate size room).Fits f) :
    ∃ f', tmpfsTruncate room f size = .ok (0, f') ∧ Holds f' (Padded.resize 0 xs size) := by
  have hlen : (Padded.resize 0 xs size).length = size := Padded.length_resize
  unfold tmpfsTruncate
  rw [if_neg h.file, h.size]
  by_cases hsame : size = xs.length
  · subst hsame
    rw [if_pos rfl, Padded.resize_length]
    exact ⟨_, rfl, h.file, rfl, rfl, h.bytes, h.inHeap⟩
  by_cases hzero : size = 0
  · subst hzero
    rw [if_neg hsame, if_pos rfl, Padded.resize_zero]
    exact ⟨_, rfl, h.file, rfl, rfl, rfl, Nat.zero_le _⟩
  · obtain ⟨hheap, hblock⟩ := newBlock_eq (hfits.2 (by rw [h.size]; exact hsame) hzero)
    have hmoved : f.moved (List.replicate size 0) (min xs.length size) = .ok (Padded.resize 0 xs size) := by
      rw [moved_eq (by rw [h.bytes]; omega), h.bytes, Padded.patch_replicate_take]
    rw [if_neg hsame, if_neg hzero, hblock]
    simp only [bind, Except.bind, pure, Except.pure, hmoved]
    exact ⟨_, rfl, h.file, hlen.symm, hlen.symm, rfl, hlen.symm ▸ hheap⟩

/-- A call on the file is a call on the array. -/
theorem step {c : Call} (hfits : c.Fits f) :
    ∃ f', Data.step f c = .ok ((arrayStep xs c).1, f') ∧ Holds f' (arrayStep xs c).2 := by
  cases c with
  | read offset size =>
    refine ⟨f, ?_, h⟩
    rw [Data.step, h.read hfits]
    rfl
  | write offset new room =>
    obtain ⟨f', hrun, h'⟩ := h.write hfits
    refine ⟨f', ?_, h'⟩
    rw [Data.step, hrun]
    rfl
  | truncate size room =>
    obtain ⟨f', hrun, h'⟩ := h.truncate hfits
    refine ⟨f', ?_, h'⟩
    rw [Data.step, hrun]
    rfl

end Holds

/-- The calls on a file give what they give on an array of bytes, and leave the file with the bytes
and the sizes of the array. -/
theorem run_refines_array : ∀ {cs : List Call} {f : File} {xs : List UInt8}, Holds f xs → AllFit f cs →
    ∃ f', run f cs = .ok ((arrayRun xs cs).1, f') ∧ Holds f' (arrayRun xs cs).2
  | [], f, _, h, _ => ⟨f, rfl, h⟩
  | c :: cs, f, xs, h, hfit => by
    obtain ⟨f₁, hstep, h₁⟩ := h.step hfit.1
    obtain ⟨f₂, hrun, h₂⟩ := run_refines_array h₁ (hfit.2 _ _ hstep)
    refine ⟨f₂, ?_, h₂⟩
    rw [run, hstep]
    simp only [bind, Except.bind, hrun]
    rfl

theorem AllFit.cons {c : Call} {cs : List Call} {r : Result} {f' : File} (hfits : c.Fits f)
    (hstep : step f c = .ok (r, f')) (hrest : AllFit f' cs) : AllFit f (c :: cs) := by
  refine ⟨hfits, fun r₂ f₂ hstep₂ => ?_⟩
  cases hstep.symm.trans hstep₂
  exact hrest

/-- A gap, a cut and a read past the end. -/
def gapCalls : List Call := [.write 3 [97, 98] true, .truncate 4 true, .read 2 8]

theorem gapCalls_fit : AllFit newFile gapCalls := by
  have hwrite : step newFile (.write 3 [97, 98] true) = .ok (⟨2, []⟩, ⟨vfsFlagFile, 5, 5, some [0, 0, 0, 97, 98]⟩) := by decide
  have hcut : step ⟨vfsFlagFile, 5, 5, some [0, 0, 0, 97, 98]⟩ (.truncate 4 true) =
      .ok (⟨0, []⟩, ⟨vfsFlagFile, 4, 4, some [0, 0, 0, 97]⟩) := by decide
  have hread : step ⟨vfsFlagFile, 4, 4, some [0, 0, 0, 97]⟩ (.read 2 8) =
      .ok (⟨2, [0, 97]⟩, ⟨vfsFlagFile, 4, 4, some [0, 0, 0, 97]⟩) := by decide
  have hsum : (Call.read 2 8).Fits ⟨vfsFlagFile, 4, 4, some [0, 0, 0, 97]⟩ := by
    show 2 + 8 < 2 ^ 32
    decide
  exact .cons ⟨by decide, fun _ => by decide⟩ hwrite
    (.cons ⟨by decide, fun _ _ => by decide⟩ hcut (.cons hsum hread trivial))

theorem run_refines_array_gapCalls : ∃ f', run newFile gapCalls = .ok ([⟨2, []⟩, ⟨0, []⟩, ⟨2, [0, 97]⟩], f') ∧
    Holds f' [0, 0, 0, 97] := run_refines_array newFile_holds gapCalls_fit

end Serotonin.Tmpfs.Data
