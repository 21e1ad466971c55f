import Mathlib.Logic.Function.Basic
import Mathlib.Data.List.Nodup

/-! Reference counts. A table of references maps each place to the thing it refers to, if
any; the places are listed without repetition, and a thing is referred to as often as
places lead to it. Changing one place moves one reference. -/

namespace RefCount

open Function List

variable {ι κ : Type*} [DecidableEq κ]

/-- How many of the places refer to the thing. -/
def refs (places : List ι) (f : ι → Option κ) (a : κ) : Nat := places.countP fun i => f i = some a

@[simp] theorem refs_nil (f : ι → Option κ) (a : κ) : refs [] f a = 0 := rfl

theorem refs_cons (i : ι) (is : List ι) (f : ι → Option κ) (a : κ) :
    refs (i :: is) f a = refs is f a + if f i = some a then 1 else 0 := by
  simp [refs, countP_cons]

theorem refs_append (is js : List ι) (f : ι → Option κ) (a : κ) :
    refs (is ++ js) f a = refs is f a + refs js f a := countP_append

theorem refs_map {ι' : Type*} (g : ι' → ι) (is : List ι') (f : ι → Option κ) (a : κ) :
    refs (is.map g) f a = refs is (fun i => f (g i)) a := countP_map

theorem refs_congr {is : List ι} {f g : ι → Option κ} (h : ∀ i ∈ is, f i = g i) (a : κ) :
    refs is f a = refs is g a :=
  countP_congr fun i hi => by simp [h i hi]

theorem refs_pos {is : List ι} {f : ι → Option κ} {a : κ} :
    0 < refs is f a ↔ ∃ i ∈ is, f i = some a := by
  simp [refs, countP_pos_iff]

theorem refs_eq_zero {is : List ι} {f : ι → Option κ} {a : κ} :
    refs is f a = 0 ↔ ∀ i ∈ is, f i ≠ some a := by
  simp [refs, countP_eq_zero]

theorem refs_perm {is js : List ι} (h : is.Perm js) (f : ι → Option κ) (a : κ) :
    refs is f a = refs js f a := h.countP_eq _

section Update

variable [DecidableEq ι]

theorem refs_update_of_notMem {is : List ι} {f : ι → Option κ} {i : ι} (hi : i ∉ is) (v : Option κ) (a : κ) :
    refs is (update f i v) a = refs is f a :=
  refs_congr (fun j hj => update_of_ne (fun e : j = i => hi (e ▸ hj)) v f) a

/-- A place that referred to `f i` and now refers to `v`. -/
theorem refs_update {is : List ι} {f : ι → Option κ} {i : ι} (hn : is.Nodup) (hi : i ∈ is)
    (v : Option κ) (a : κ) :
    refs is (update f i v) a + (if f i = some a then 1 else 0) =
      refs is f a + if v = some a then 1 else 0 := by
  induction is with
  | nil => exact absurd hi not_mem_nil
  | cons j js ih =>
    obtain ⟨hj, hn⟩ := nodup_cons.mp hn
    simp only [refs_cons]
    by_cases hij : i = j
    · subst hij
      rw [refs_update_of_notMem hj, update_self]
      omega
    · have ih := ih hn ((mem_cons.mp hi).resolve_left hij)
      rw [update_of_ne (Ne.symm hij)]
      omega

theorem refs_erase {is : List ι} {i : ι} (hi : i ∈ is) (f : ι → Option κ) (a : κ) :
    refs is f a = refs (is.erase i) f a + if f i = some a then 1 else 0 := by
  rw [refs_perm (perm_cons_erase hi), refs_cons]

end Update

end RefCount
