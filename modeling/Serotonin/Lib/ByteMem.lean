import Mathlib.Algebra.Group.Int.Defs
import Mathlib.Algebra.Group.Nat.Defs
import Mathlib.Tactic.Common

/-! Byte-addressed memory with little-endian words. A memory is a total function
from addresses to bytes; a store changes only the bytes of its own range, so
every frame fact below is one about ranges of addresses. Programs that lay out
records in raw memory read and write their fields through these operations. -/

namespace ByteMem

/-- A memory: the byte at each address. -/
abbrev Mem := Nat → UInt8

/-- The value of an unsigned 32-bit machine word. -/
def u32 (n : Nat) : Nat := n % 2 ^ 32

theorem u32_lt (n : Nat) : u32 n < 2 ^ 32 := Nat.mod_lt _ (by decide)

theorem u32_of_lt {n : Nat} (h : n < 2 ^ 32) : u32 n = n := Nat.mod_eq_of_lt h

/-- The value of an unsigned word as a signed one. -/
def int32 (n : Nat) : Int := if n < 2 ^ 31 then n else n - 2 ^ 32

theorem int32_of_lt {n : Nat} (h : n < 2 ^ 31) : int32 n = n := if_pos h

theorem int32_neg {n : Nat} (h : 2 ^ 31 ≤ n) (hlt : n < 2 ^ 32) : int32 n < 0 := by
  rw [int32, if_neg (Nat.not_lt.mpr h)]
  omega

def store8 (m : Mem) (a : Nat) (v : UInt8) : Mem := fun x => if x = a then v else m x

def load16 (m : Mem) (a : Nat) : Nat := (m a).toNat + 256 * (m (a + 1)).toNat

def store16 (m : Mem) (a v : Nat) : Mem := fun x =>
  if x = a then .ofNat v else if x = a + 1 then .ofNat (v / 256) else m x

def load32 (m : Mem) (a : Nat) : Nat := load16 m a + 65536 * load16 m (a + 2)

def store32 (m : Mem) (a v : Nat) : Mem := store16 (store16 m a v) (a + 2) (v / 65536)

/-- Copy of `n` bytes from address `s` of `src` to address `d`. -/
def blit (m : Mem) (d : Nat) (src : Mem) (s n : Nat) : Mem := fun x =>
  if d ≤ x ∧ x < d + n then src (s + (x - d)) else m x

/-- `n` bytes at `d` set to `v`. -/
def fill (m : Mem) (d : Nat) (v : UInt8) (n : Nat) : Mem := fun x =>
  if d ≤ x ∧ x < d + n then v else m x

/-- Two memories with the same bytes on `[lo, hi)`. -/
def AgreeOn (m m' : Mem) (lo hi : Nat) : Prop := ∀ x, lo ≤ x → x < hi → m' x = m x

theorem AgreeOn.refl (m : Mem) (lo hi : Nat) : AgreeOn m m lo hi := fun _ _ _ => rfl

theorem AgreeOn.trans {m m' m'' : Mem} {lo hi : Nat} (h : AgreeOn m m' lo hi)
    (h' : AgreeOn m' m'' lo hi) : AgreeOn m m'' lo hi :=
  fun x hl hh => (h' x hl hh).trans (h x hl hh)

theorem AgreeOn.mono {m m' : Mem} {lo hi lo' hi' : Nat} (h : AgreeOn m m' lo hi)
    (hl : lo ≤ lo') (hh : hi' ≤ hi) : AgreeOn m m' lo' hi' :=
  fun x h1 h2 => h x (Nat.le_trans hl h1) (Nat.lt_of_lt_of_le h2 hh)

theorem AgreeOn.load16 {m m' : Mem} {lo hi a : Nat} (h : AgreeOn m m' lo hi)
    (hl : lo ≤ a) (hh : a + 2 ≤ hi) : ByteMem.load16 m' a = ByteMem.load16 m a := by
  simp only [ByteMem.load16]
  rw [h a hl (by omega), h (a + 1) (by omega) (by omega)]

theorem AgreeOn.load32 {m m' : Mem} {lo hi a : Nat} (h : AgreeOn m m' lo hi)
    (hl : lo ≤ a) (hh : a + 4 ≤ hi) : ByteMem.load32 m' a = ByteMem.load32 m a := by
  simp only [ByteMem.load32]
  rw [h.load16 hl (by omega), h.load16 (a := a + 2) (by omega) (by omega)]

theorem store8_agree {m : Mem} {a : Nat} {v : UInt8} {lo hi : Nat}
    (h : hi ≤ a ∨ a + 1 ≤ lo) : AgreeOn m (store8 m a v) lo hi := by
  intro x hl hh
  simp only [store8]
  rw [if_neg (by omega)]

theorem store16_agree {m : Mem} {a v lo hi : Nat} (h : hi ≤ a ∨ a + 2 ≤ lo) :
    AgreeOn m (store16 m a v) lo hi := by
  intro x hl hh
  simp only [store16]
  rw [if_neg (by omega), if_neg (by omega)]

theorem store32_agree {m : Mem} {a v lo hi : Nat} (h : hi ≤ a ∨ a + 4 ≤ lo) :
    AgreeOn m (store32 m a v) lo hi :=
  (store16_agree (by omega)).trans (store16_agree (by omega))

theorem blit_agree {m src : Mem} {d s n lo hi : Nat} (h : hi ≤ d ∨ d + n ≤ lo) :
    AgreeOn m (blit m d src s n) lo hi := by
  intro x hl hh
  simp only [blit]
  rw [if_neg (by omega)]

theorem fill_agree {m : Mem} {d n lo hi : Nat} {v : UInt8} (h : hi ≤ d ∨ d + n ≤ lo) :
    AgreeOn m (fill m d v n) lo hi := by
  intro x hl hh
  simp only [fill]
  rw [if_neg (by omega)]

@[simp] theorem store8_self (m : Mem) (a : Nat) (v : UInt8) : store8 m a v a = v := by
  simp [store8]

theorem store8_ne {m : Mem} {a x : Nat} {v : UInt8} (h : x ≠ a) : store8 m a v x = m x := by
  simp [store8, h]

theorem load16_lt (m : Mem) (a : Nat) : load16 m a < 65536 := by
  have h1 := (m a).toNat_lt
  have h2 := (m (a + 1)).toNat_lt
  simp only [load16]
  omega

theorem load32_lt (m : Mem) (a : Nat) : load32 m a < 2 ^ 32 := by
  have h1 := load16_lt m a
  have h2 := load16_lt m (a + 2)
  simp only [load32]
  omega

theorem load16_store16 (m : Mem) (a v : Nat) : load16 (store16 m a v) a = v % 65536 := by
  simp only [load16, store16, if_true, Nat.add_eq_left, Nat.one_ne_zero, if_false,
    UInt8.toNat_ofNat']
  omega

theorem load32_store32 (m : Mem) (a v : Nat) : load32 (store32 m a v) a = v % 2 ^ 32 := by
  have hframe : AgreeOn (store16 m a v) (store32 m a v) a (a + 2) := store16_agree (by omega)
  have hlo : load16 (store32 m a v) a = v % 65536 := by
    rw [hframe.load16 (Nat.le_refl _) (Nat.le_refl _), load16_store16]
  have hhi : load16 (store32 m a v) (a + 2) = v / 65536 % 65536 := load16_store16 _ _ _
  rw [load32, hlo, hhi]
  omega

theorem load32_store32_disjoint {m : Mem} {a b v : Nat} (h : a + 4 ≤ b ∨ b + 4 ≤ a) :
    load32 (store32 m b v) a = load32 m a :=
  (store32_agree (by omega : a + 4 ≤ b ∨ _)).load32 (Nat.le_refl a) (Nat.le_refl _)

theorem load32_store8_disjoint {m : Mem} {a b : Nat} {v : UInt8} (h : a + 4 ≤ b ∨ b + 1 ≤ a) :
    load32 (store8 m b v) a = load32 m a :=
  (store8_agree (by omega : a + 4 ≤ b ∨ _)).load32 (Nat.le_refl a) (Nat.le_refl _)

theorem store32_apply_disjoint {m : Mem} {a b v : Nat} (h : a + 1 ≤ b ∨ b + 4 ≤ a) :
    store32 m b v a = m a :=
  store32_agree (by omega : a + 1 ≤ b ∨ _) a (Nat.le_refl a) (Nat.lt_succ_self a)

theorem blit_inside {m src : Mem} {d s n x : Nat} (h1 : d ≤ x) (h2 : x < d + n) :
    blit m d src s n x = src (s + (x - d)) := by
  simp [blit, h1, h2]

theorem blit_outside {m src : Mem} {d s n x : Nat} (h : x < d ∨ d + n ≤ x) :
    blit m d src s n x = m x := by
  simp only [blit]
  rw [if_neg (by omega)]

theorem blit_zero (m src : Mem) (d s : Nat) : blit m d src s 0 = m :=
  funext fun _ => blit_outside (Nat.lt_or_ge _ _)

/-- Two copies side by side. -/
theorem blit_append (m src : Mem) (d n k : Nat) :
    blit (blit m d src 0 n) (d + n) (fun x => src (n + x)) 0 k = blit m d src 0 (n + k) := by
  funext x
  by_cases h : d + n ≤ x ∧ x < d + n + k
  · have hat : n + (0 + (x - (d + n))) = 0 + (x - d) := by omega
    rw [blit_inside h.1 h.2, blit_inside (by omega) (by omega), hat]
  · rw [blit_outside (by omega)]
    by_cases h' : d ≤ x ∧ x < d + n
    · rw [blit_inside h'.1 h'.2, blit_inside h'.1 (by omega)]
    · rw [blit_outside (by omega), blit_outside (by omega)]

end ByteMem
