import Mathlib.Data.List.GetD
import Mathlib.Tactic.Common

/-! Arrays that grow on demand. A write past the end of the array first extends it with a default
value; an array can also be cut or extended to a given length. -/

namespace Padded

open List

variable {α : Type*}

/-- `new` in place of the elements from `i` on. -/
def patch (xs : List α) (i : Nat) (new : List α) : List α := xs.take i ++ new ++ xs.drop (i + new.length)

def slice (xs : List α) (i n : Nat) : List α := (xs.drop i).take n

def write (z : α) (xs : List α) (i : Nat) (new : List α) : List α := patch (xs.rightpad (i + new.length) z) i new

def resize (z : α) (xs : List α) (n : Nat) : List α := (xs.take n).rightpad n z

variable {z : α} {xs new : List α} {i n : Nat}

theorem length_patch (h : i + new.length ≤ xs.length) : (patch xs i new).length = xs.length := by
  simp [patch]
  omega

@[simp] theorem patch_nil : patch xs i [] = xs := by simp [patch]

theorem slice_patch (h : i ≤ xs.length) : slice (patch xs i new) i new.length = new := by
  have htake : (xs.take i).length = i := length_take_of_le h
  unfold slice patch
  rw [append_assoc, drop_append_of_le_length (Nat.le_of_eq htake.symm), drop_eq_nil_of_le (Nat.le_of_eq htake)]
  simp

/-- Nothing of the extended array is behind the old and the new elements. -/
theorem length_write : (write z xs i new).length = max xs.length (i + new.length) := by
  have hle : i + new.length ≤ (xs.rightpad (i + new.length) z).length := by simp [List.rightpad]; omega
  rw [write, length_patch hle]
  simp [List.rightpad]
  omega

theorem slice_write : slice (write z xs i new) i new.length = new :=
  slice_patch (by simp [List.rightpad]; omega)

theorem length_resize : (resize z xs n).length = n := by
  simp only [resize, List.rightpad, length_append, length_take, length_replicate]
  omega

theorem resize_zero : resize z xs 0 = [] := eq_nil_of_length_eq_zero length_resize

theorem resize_length : resize z xs xs.length = xs := by simp [resize, List.rightpad]

/-- A write inside the array needs no extension. -/
theorem write_of_le (h : i + new.length ≤ xs.length) : write z xs i new = patch xs i new := by
  have hno : i + new.length - xs.length = 0 := by omega
  simp [write, List.rightpad, hno]

/-- A copy to the start of an array of default values. -/
theorem patch_replicate : patch (List.replicate n z) 0 xs = xs.rightpad n z := by
  simp [patch, List.rightpad]

theorem patch_replicate_take : patch (List.replicate n z) 0 (xs.take (min xs.length n)) = resize z xs n := by
  have htake : xs.take (min xs.length n) = xs.take n := by
    rw [take_eq_take_iff]
    omega
  rw [htake, patch_replicate]
  rfl

/-- After a write that leaves no gap. -/
theorem getD_write {p : Nat} (h : i ≤ xs.length) :
    (write z xs i new).getD p z = if i ≤ p ∧ p < i + new.length then new.getD (p - i) z else xs.getD p z := by
  have htake : ((xs.rightpad (i + new.length) z).take i).length = i := length_take_of_le (by simp [List.rightpad]; omega)
  have hpad : ∀ q, (xs.rightpad (i + new.length) z).getD q z = xs.getD q z := by
    intro q
    simp only [List.rightpad, getD_eq_getElem?_getD]
    by_cases hq : q < xs.length
    · rw [List.getElem?_append_left hq]
    · rw [List.getElem?_append_right (Nat.le_of_not_lt hq), List.getElem?_eq_none (Nat.le_of_not_lt hq), List.getElem?_replicate]
      split <;> rfl
  unfold write patch
  rw [append_assoc]
  by_cases hlo : i ≤ p
  · rw [getD_append_right _ _ _ _ (by omega), htake]
    by_cases hhi : p < i + new.length
    · rw [if_pos ⟨hlo, hhi⟩, getD_append _ _ _ _ (by omega)]
    · rw [if_neg (by omega), getD_append_right _ _ _ _ (by omega), getD_eq_getElem?_getD, List.getElem?_drop,
        ← getD_eq_getElem?_getD, ← hpad p]
      congr 1
      omega
  · rw [if_neg (by omega), getD_append _ _ _ _ (by omega), getD_eq_getElem?_getD,
      List.getElem?_take_of_lt (by omega), ← getD_eq_getElem?_getD, hpad]

theorem resize_of_le (h : n ≤ xs.length) : resize z xs n = xs.take n := by
  simp [resize, List.rightpad, Nat.min_eq_left h]

end Padded
