import Mathlib.Algebra.Group.Nat.Defs
import Serotonin.Lib.Chain

/-! The buddy allocator of `kernel/vmm/vmm.c`: one zone of page frames, with a list of
free blocks for each order, linked through the descriptors of the blocks' first pages.
A page descriptor is known by the index of its page. -/

namespace Serotonin.Buddy

def maxOrderLimit : Nat := 20
def pageShift : Nat := 12
def pageSize : Nat := 4096

structure PageDesc where
  order : Nat
  used : Bool
  next : Option Nat

structure Zone where
  basePhys : Nat
  numPages : Nat
  pages : Nat → PageDesc
  freeList : Nat → Option Nat
  maxOrder : Nat

namespace Zone

def modify (z : Zone) (i : Nat) (f : PageDesc → PageDesc) : Zone :=
  { z with pages := Function.update z.pages i (f (z.pages i)) }

def next (z : Zone) (i : Nat) : Option Nat := (z.pages i).next

def setNext (z : Zone) (i : Nat) (n : Option Nat) : Zone := z.modify i fun x => { x with next := n }

/-- The order is stored as a `uint8_t`. -/
def setOrder (z : Zone) (i o : Nat) : Zone := z.modify i fun x => { x with order := o % 256 }

def setUsed (z : Zone) (i : Nat) (used : Bool) : Zone := z.modify i fun x => { x with used := used }

def setFreeList (z : Zone) (o : Nat) (head : Option Nat) : Zone :=
  { z with freeList := Function.update z.freeList o head }

end Zone

/-! ## Building -/

/-- The largest power of two that fits, up to `maxOrder`: the first loop. -/
def growOrder (remain maxOrder : Nat) : Nat → Nat → Nat
  | 0, o => o
  | k + 1, o => if o < maxOrder ∧ 2 ^ (o + 1) ≤ remain then growOrder remain maxOrder k (o + 1) else o

/-- Down to the alignment of the index: the second loop. -/
def alignOrder (idx : Nat) : Nat → Nat
  | 0 => 0
  | o + 1 => if idx &&& (2 ^ (o + 1) - 1) ≠ 0 then alignOrder idx o else o + 1

def largestOrderFit (idx limit maxOrder : Nat) : Option Nat :=
  let remain := limit - idx
  let o := alignOrder idx (growOrder remain maxOrder maxOrder 0)
  if remain < 2 ^ o then none else some o

def zonePushFree (z : Zone) (headIdx order : Nat) : Zone :=
  let z := (z.setOrder headIdx order).setUsed headIdx false
  (z.setNext headIdx (z.freeList order)).setFreeList order (some headIdx)

def zonePopFree (z : Zone) (order : Nat) : Option (Nat × Zone) :=
  match z.freeList order with
  | none => none
  | some h => some (h, (z.setFreeList order (z.next h)).setNext h none)

/-- The largest order of at most `mo` of which the zone has a block. -/
def zoneMaxOrder (numPages : Nat) : Nat → Nat
  | 0 => 0
  | mo + 1 => if numPages < 2 ^ (mo + 1) then zoneMaxOrder numPages mo else mo + 1

/-- The loop of `zone_build`; each turn takes in at least one page. -/
def zoneBuildFrom : Nat → Zone → Nat → Zone
  | 0, z, _ => z
  | k + 1, z, idx =>
    if idx < z.numPages then
      match largestOrderFit idx z.numPages z.maxOrder with
      | none => z
      | some o => zoneBuildFrom k (zonePushFree z idx o) (idx + 2 ^ o)
    else z

def zoneBuild (z : Zone) : Zone :=
  zoneBuildFrom z.numPages
    { z with
      freeList := fun _ => none
      maxOrder := zoneMaxOrder z.numPages maxOrderLimit
      pages := fun i => if i < z.numPages then ⟨0, false, none⟩ else z.pages i } 0

/-! ## Allocating -/

/-- The loop of `zone_split_to`: the right half goes back to its list. -/
def zoneSplitLoop (idx want : Nat) : Nat → Zone → Zone
  | 0, z => z
  | o + 1, z =>
    if want < o + 1 then zoneSplitLoop idx want o (zonePushFree z (idx + 2 ^ o) o) else z

def zoneSplitTo (z : Zone) (idx haveOrder wantOrder : Nat) : Zone :=
  (zoneSplitLoop idx wantOrder haveOrder z).setOrder idx wantOrder

/-- The first list from order `o` on that has a block. -/
def popFirst (z : Zone) : Nat → Nat → Option (Nat × Nat × Zone)
  | 0, _ => none
  | k + 1, o =>
    if o ≤ z.maxOrder then
      match zonePopFree z o with
      | some (i, z) => some (i, o, z)
      | none => popFirst z k (o + 1)
    else none

def physOf (z : Zone) (idx : Nat) : Nat := (z.basePhys + idx * pageSize % 2 ^ 32) % 2 ^ 32

/-- The physical address, 0 being `NULL`. -/
def zoneAllocPages (z : Zone) (order : Nat) : Nat × Zone :=
  if z.maxOrder < order then (0, z)
  else
    match popFirst z (z.maxOrder + 1 - order) order with
    | none => (0, z)
    | some (idx, o, z) =>
      let z := if order < o then zoneSplitTo z idx o order else z
      (physOf z idx, (z.setUsed idx true).setOrder idx order)

/-! ## Freeing -/

def buddyIndex (idx order : Nat) : Nat := idx ^^^ 2 ^ order

/-- `*pp = buddy->next`, where `pp` is the link of `prev`, or the list's own. -/
def unlinkFree (z : Zone) (o : Nat) (prev : Option Nat) (buddy : Nat) : Zone :=
  let n := z.next buddy
  let z := match prev with
    | some p => z.setNext p n
    | none => z.setFreeList o n
  z.setNext buddy none

/-- The loop of `zone_free_pages`, from order `o` on and `k` turns at most: the block
that is left to push. `none`: a list that never ends. -/
def coalesce : Nat → Zone → Nat → Nat → Option (Zone × Nat × Nat)
  | 0, z, idx, o => some (z, idx, o)
  | k + 1, z, idx, o =>
    if z.maxOrder ≤ o then some (z, idx, o)
    else
      let bidx := buddyIndex idx o
      if z.numPages ≤ bidx then some (z, idx, o)
      else if (z.pages bidx).used || (z.pages bidx).order ≠ o then some (z, idx, o)
      else
        match Chain.walk z.next bidx z.numPages none (z.freeList o) with
        | none => none
        | some none => some (z, idx, o)
        | some (some prev) =>
          let idx := min idx bidx
          coalesce k ((unlinkFree z o prev bidx).setOrder idx (o + 1)) idx (o + 1)

def zoneFreePages (z : Zone) (phys order : Nat) : Option Zone :=
  if phys < z.basePhys then some z
  else
    let off := phys - z.basePhys
    if off &&& (pageSize - 1) ≠ 0 then some z
    else
      let idx := off >>> pageShift
      if z.numPages ≤ idx then some z
      else
        (coalesce (z.maxOrder - order) ((z.setUsed idx false).setOrder idx order) idx order).map
          fun (z, idx, o) => zonePushFree z idx o

end Serotonin.Buddy
