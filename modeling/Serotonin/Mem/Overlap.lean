import Mathlib.Algebra.Group.Nat.Defs
import Serotonin.Lib.Copying
import Serotonin.Mem.Model

/-! When `memmove` is a snapshot copy. Both directions copy in units that go the way they
should, but the bytes before the first block, or after the last one, go the other way. -/

namespace Serotonin.Mem

open Function
open Copying
open UInt32 (toNat_add toNat_ofNat' ofNat_add ofNat_toNat toNat_sub lt_iff_toNat_lt
  toNat_inj toNat_and le_iff_toNat_le toNat_sub_of_le)

/-- The byte `i` of a range. -/
def cell (base : UInt32) {n : Nat} (i : Fin n) : UInt32 := base + .ofNat i

theorem toNat_add_ofNat (base : UInt32) (i : Nat) : (base + .ofNat i).toNat = (base.toNat + i) % 2 ^ 32 := by
  rw [toNat_add, toNat_ofNat']
  omega

theorem add_ofNat_ofNat (base : UInt32) (i j : Nat) : base + .ofNat i + .ofNat j = base + .ofNat (i + j) := by
  rw [UInt32.add_assoc, ofNat_add]

variable {dst src size : UInt32}

theorem sub_add_word (a b c : UInt32) : a - (b + c) = a - b - c := by
  refine UInt32.toBitVec_inj.mp ?_
  exact (BitVec.sub_sub a.toBitVec b.toBitVec c.toBitVec).symm

theorem add_ofNat_add {base x : UInt32} {i j : Nat} (h : x.toNat = j - i) (hij : i ≤ j) :
    base + .ofNat i + x = base + .ofNat j := by
  rw [← ofNat_toNat (x := x), h, add_ofNat_ofNat, Nat.add_sub_cancel' hij]

theorem cell_toNat (base : UInt32) (i : Fin size.toNat) : (cell base i).toNat = (base.toNat + i) % 2 ^ 32 :=
  toNat_add_ofNat base i

theorem cell_injective (base : UInt32) : Function.Injective (cell base : Fin size.toNat → UInt32) := by
  intro i j h
  have hnat := congrArg UInt32.toNat h
  rw [cell_toNat, cell_toNat] at hnat
  have hsize := size.toNat_lt
  exact Fin.ext (by omega)

/-- The byte of a range that an address is, if it is one. -/
theorem cell_sub (base a : UInt32) (h : (a - base).toNat < size.toNat) :
    cell base (⟨(a - base).toNat, h⟩ : Fin size.toNat) = a := by
  show base + .ofNat (a - base).toNat = a
  rw [ofNat_toNat, UInt32.add_comm, UInt32.sub_add_cancel]

theorem sub_cell (base : UInt32) (i : Fin size.toNat) : (cell base i - base).toNat = i := by
  have hi := i.2
  have hsize := size.toNat_lt
  have hb := base.toNat_lt
  rw [toNat_sub, cell_toNat]
  omega

/-- What the claim of a copy says is what the snapshot does. -/
theorem copied_iff (m m' : Memory) :
    Copied dst src size m m' ↔ m' = snapshot (cell dst : Fin size.toNat → UInt32) (cell src) m := by
  have hcell : ∀ i : UInt32, (h : i < size) → ∀ base, base + i = cell base (⟨i.toNat, h⟩ : Fin size.toNat) := by
    intro i _ base
    show base + i = base + .ofNat i.toNat
    rw [ofNat_toNat]
  have hsnap : ∀ i : Fin size.toNat, snapshot (cell dst) (cell src) m (cell dst i) = m (cell src i) :=
    fun i => (cell_injective dst).extend_apply _ _ i
  have hlt : ∀ i : Fin size.toNat, UInt32.ofNat i < size := by
    intro i
    rw [lt_iff_toNat_lt, toNat_ofNat']
    exact Nat.lt_of_le_of_lt (Nat.mod_le _ _) i.2
  constructor
  · intro ⟨hmoved, hkept⟩
    funext a
    by_cases ha : ∃ i, cell dst (i : Fin size.toNat) = a
    · obtain ⟨i, rfl⟩ := ha
      rw [hsnap i]
      exact hmoved (.ofNat i) (hlt i)
    · refine (hkept a ?_).trans (Function.extend_apply' _ _ _ ha).symm
      intro i hi he
      exact ha ⟨⟨i.toNat, hi⟩, (hcell i hi dst).symm.trans he.symm⟩
  · intro h
    rw [h]
    constructor
    · intro i hi
      rw [hcell i hi dst, hcell i hi src]
      exact hsnap _
    · intro a ha
      refine Function.extend_apply' _ _ _ ?_
      intro ⟨i, hi⟩
      exact ha (.ofNat i) (hlt i) hi.symm

/-! ## Bytes in turn -/

section
variable {m : Memory} {time : Fin size.toNat → Nat}

/-- Memory before time `T`. -/
noncomputable def before (dst src : UInt32) (time : Fin size.toNat → Nat) (m : Memory) (T : Nat) : Memory :=
  upTo (cell dst) (cell src) time m T

theorem before_single {T o : Nat} (ho : o < size.toNat) (h : ∀ j, time j = T ↔ (j : Nat) = o) :
    before dst src time m (T + 1) = update (before dst src time m T) (dst + .ofNat o)
      (before dst src time m T (src + .ofNat o)) := by
  show step (cell dst) (cell src) time T _ = _
  funext a
  by_cases ha : ∃ j, cell dst (j : Fin size.toNat) = a
  · obtain ⟨j, rfl⟩ := ha
    rw [step_apply (cell_injective dst)]
    by_cases hj : (j : Nat) = o
    · have hcell : dst + .ofNat o = cell dst j := hj ▸ rfl
      rw [if_pos ((h j).mpr hj), hcell, update_self, ← hj]
      rfl
    · rw [if_neg (mt (h j).mp hj), update_of_ne]
      · rfl
      · intro he
        exact hj (Fin.ext_iff.mp (cell_injective dst (he.trans (show _ = cell dst ⟨o, ho⟩ from rfl))))
  · rw [step_outside fun j hj => ha ⟨j, hj⟩, update_of_ne]
    · rfl
    · intro he
      exact ha ⟨⟨o, ho⟩, he.symm⟩

theorem copyDown_before {o k T : Nat} (hk : o + k ≤ size.toNat)
    (h : ∀ j : Fin size.toNat, ∀ r, r < k → (time j = T + r ↔ j + r + 1 = o + k)) :
    copyDown (before dst src time m T) (dst + .ofNat o) (src + .ofNat o) k = before dst src time m (T + k) := by
  induction k generalizing T with
  | zero => rfl
  | succ k ih =>
    have hlast : ∀ j, time j = T ↔ (j : Nat) = o + k := by
      intro j
      have hj := h j 0 (by omega)
      omega
    show copyDown (update _ (dst + .ofNat o + .ofNat k) (before _ _ _ _ _ (src + .ofNat o + .ofNat k))) _ _ k = _
    rw [add_ofNat_ofNat, add_ofNat_ofNat, ← before_single (by omega) hlast, ih (by omega), Nat.add_right_comm,
      Nat.add_assoc]
    intro j r hr
    have hj := h j (r + 1) (by omega)
    omega

theorem copyUp_before {o i k T : Nat} (hk : o + i + k ≤ size.toNat)
    (h : ∀ j : Fin size.toNat, ∀ r, r < k → (time j = T + r ↔ (j : Nat) = o + i + r)) :
    copyUp (before dst src time m T) (dst + .ofNat o) (src + .ofNat o) i k = before dst src time m (T + k) := by
  induction k generalizing T i with
  | zero => rfl
  | succ k ih =>
    have hfirst : ∀ j, time j = T ↔ (j : Nat) = o + i := by
      intro j
      have hj := h j 0 (by omega)
      omega
    show copyUp (update _ (dst + .ofNat o + .ofNat i) (before _ _ _ _ _ (src + .ofNat o + .ofNat i))) _ _ _ k = _
    rw [add_ofNat_ofNat, add_ofNat_ofNat, ← before_single (by omega) hfirst, ih (by omega), Nat.add_right_comm,
      Nat.add_assoc]
    intro j r hr
    have hj := h j (r + 1) (by omega)
    omega

theorem copyBack_eq (m : Memory) (d s : UInt32) (n : Nat) :
    copyBack m (d + .ofNat n) (s + .ofNat n) n = copyDown m d s n := by
  induction n generalizing m with
  | zero => rfl
  | succ n ih =>
    have hpred : ∀ x : UInt32, x + .ofNat (n + 1) - 1 = x + .ofNat n := by
      intro x
      rw [ofNat_add, ← UInt32.add_assoc]
      exact UInt32.add_sub_cancel _ _
    show copyBack (update m (d + .ofNat (n + 1) - 1) (m (s + .ofNat (n + 1) - 1))) _ _ n = _
    rw [hpred, hpred, ih]
    rfl

end

/-! ## Blocks -/

/-- The bytes of the registers. -/
def xmms (m : Memory) (a : UInt32) : Nat → List Xmm
  | 0 => []
  | n + 1 => (fun i => m (a + .ofNat i)) :: xmms m (a + 16) n

theorem and_fifteen (x : UInt32) : x &&& 15 = 0 ↔ x.toNat % 16 = 0 := by
  rw [← toNat_inj, toNat_and]
  exact iff_of_eq (congrArg (· = 0) (Nat.and_two_pow_sub_one_eq_mod x.toNat 4))

theorem not_faults {aligned : Bool} {a : UInt32} (h : aligned = true → a.toNat % 16 = 0) : ¬faults aligned a :=
  fun ⟨h1, h2⟩ => h2 ((and_fifteen a).mpr (h h1))

theorem add_sixteen_mod (a : UInt32) : (a + 16).toNat % 16 = a.toNat % 16 := by
  rw [toNat_add]
  show (a.toNat + 16) % 2 ^ 32 % 16 = _
  omega

theorem loadXmms_eq {aligned : Bool} {m : Memory} {n : Nat} : ∀ {a : UInt32}, (aligned = true → a.toNat % 16 = 0) →
    loadXmms aligned m a n = some (xmms m a n) := by
  induction n with
  | zero => intro a h; rfl
  | succ n ih =>
    intro a h
    unfold loadXmms loadXmm
    rw [if_neg (not_faults h), ih fun ht => (add_sixteen_mod a).trans (h ht)]
    rfl

theorem storeXmms_xmms {aligned : Bool} {m0 : Memory} {n : Nat} (hn : 16 * n < 2 ^ 32) : ∀ {m : Memory} {a s : UInt32},
    (aligned = true → a.toNat % 16 = 0) →
      storeXmms aligned m a (xmms m0 s n) =
        some fun b => if (b - a).toNat < 16 * n then m0 (s + (b - a)) else m b := by
  induction n with
  | zero => intro m a s h; rfl
  | succ n ih =>
    intro m a s h
    unfold xmms storeXmms storeXmm
    rw [if_neg (not_faults h)]
    show storeXmms aligned _ (a + 16) _ = _
    rw [ih (by omega) fun ht => (add_sixteen_mod a).trans (h ht)]
    congr 1
    funext b
    have hsub : (b - (a + 16)).toNat = (2 ^ 32 - 16 + (b - a).toNat) % 2 ^ 32 := by
      rw [sub_add_word, toNat_sub]
      rfl
    have hlt := (b - a).toNat_lt
    by_cases h1 : (b - a).toNat < 16
    · rw [if_neg (by omega), dif_pos h1, if_pos (by omega)]
      show m0 (s + .ofNat (b - a).toNat) = _
      rw [ofNat_toNat]
    · by_cases h2 : (b - a).toNat < 16 * (n + 1)
      · rw [if_pos (by omega), if_pos h2]
        congr 1
        rw [sub_add_word, UInt32.add_assoc, UInt32.add_comm 16, UInt32.sub_add_cancel]
      · rw [if_neg (by omega), dif_neg h1, if_neg h2]

theorem moveXmms_eq {ld st : Bool} {regs : Nat} (hregs : 16 * regs < 2 ^ 32) {m : Memory} {d s : UInt32}
    (hd : st = true → d.toNat % 16 = 0) (hs : ld = true → s.toNat % 16 = 0) :
    moveXmms ld st regs m d s =
      some fun b => if (b - d).toNat < 16 * regs then m (s + (b - d)) else m b := by
  unfold moveXmms
  rw [loadXmms_eq hs]
  exact storeXmms_xmms hregs hd

theorem sub_offset (a base : UInt32) (o : Nat) :
    (a - (base + .ofNat o)).toNat = (2 ^ 32 - o % 2 ^ 32 + (a - base).toNat) % 2 ^ 32 := by
  rw [sub_add_word, toNat_sub, toNat_ofNat']

section
variable {m : Memory} {time : Fin size.toNat → Nat}

/-- One block, all of whose bytes have one time. -/
theorem moveXmms_before {ld st : Bool} {regs o T : Nat} (hregs : 0 < regs) (ho : o + 16 * regs ≤ size.toNat)
    (hin : ∀ j, time j = T ↔ o ≤ (j : Nat) ∧ j < o + 16 * regs) (hgap : ∀ j, time j ≤ T ∨ T + 16 * regs ≤ time j)
    (hd : st = true → (dst + .ofNat o).toNat % 16 = 0) (hs : ld = true → (src + .ofNat o).toNat % 16 = 0) :
    moveXmms ld st regs (before dst src time m T) (dst + .ofNat o) (src + .ofNat o) =
      some (before dst src time m (T + 16 * regs)) := by
  have hsize := size.toNat_lt
  rw [moveXmms_eq (by omega) hd hs]
  have hskip : before dst src time m (T + 16 * regs) = before dst src time m (T + 1) := by
    rw [show T + 16 * regs = T + 1 + (16 * regs - 1) by omega]
    refine upTo_skip m ?_
    intro j
    have hj := hgap j
    omega
  rw [hskip]
  congr 1
  funext b
  show _ = step (cell dst) (cell src) time T _ b
  have hsub := sub_offset b dst o
  by_cases hb : ∃ j, cell dst (j : Fin size.toNat) = b
  · obtain ⟨j, rfl⟩ := hb
    rw [step_apply (cell_injective dst)]
    rw [sub_cell] at hsub
    by_cases ht : time j = T
    · have hrange := (hin j).mp ht
      rw [if_pos ht, if_pos (by omega), add_ofNat_add]
      · rfl
      · omega
      · exact hrange.1
    · have hrange := mt (hin j).mpr ht
      rw [if_neg ht, if_neg (by omega)]
      rfl
  · rw [step_outside fun j hj => hb ⟨j, hj⟩, if_neg]
    · rfl
    · have hout : ¬(b - dst).toNat < size.toNat := fun hlt => hb ⟨_, cell_sub dst b hlt⟩
      have hlt := (b - dst).toNat_lt
      omega

/-- The pointers are `o` bytes into the ranges, and so is the copy. -/
structure At (dst src : UInt32) (time : Fin size.toNat → Nat) (m : Memory) (o : Nat) (c : Copy) : Prop where
  mem : c.mem = before dst src time m o
  dstAt : c.dst = dst + .ofNat o
  srcAt : c.src = src + .ofNat o
  left : c.size.toNat = size.toNat - o
  le : o ≤ size.toNat

theorem next_block {x w : Nat} (hw : 0 < w) (h : w ≤ x) : x / w * w = (x - w) / w * w + w := by
  have hx : x = x - w + w := (Nat.sub_add_cancel h).symm
  rw [hx, Nat.add_div_right _ hw, Nat.succ_mul, Nat.add_sub_cancel]

theorem aligned_next {base : UInt32} {o w : Nat} (hw : w % 16 = 0) (h : (base + .ofNat o).toNat % 16 = 0) :
    (base + .ofNat (o + w)).toNat % 16 = 0 := by
  rw [toNat_add_ofNat] at h ⊢
  omega

/-- The loop over `k` blocks. -/
theorem copyXmms_before {ld st : Bool} {regs w : Nat} (hw : w = 16 * regs) (hpos : 0 < w) (hmax : w < 2 ^ 32) :
    ∀ {k fuel o : Nat} {c : Copy}, k ≤ fuel → At dst src time m o c → o + k * w ≤ size.toNat →
      size.toNat < o + k * w + w → (∀ j : Fin size.toNat, (j : Nat) < o ↔ time j < o) →
      (∀ j : Fin size.toNat, (j : Nat) < o + k * w ↔ time j < o + k * w) →
      (∀ j : Fin size.toNat, o ≤ (j : Nat) → j < o + k * w → time j = o + (j - o) / w * w) →
      (st = true → (dst + .ofNat o).toNat % 16 = 0) → (ld = true → (src + .ofNat o).toNat % 16 = 0) →
      ∃ c', copyXmms ld st regs fuel c = some c' ∧ At dst src time m (o + k * w) c' := by
  intro k
  induction k with
  | zero =>
    intro fuel o c _ hc _ hend _ _ _ _ _
    have hstop : ¬UInt32.ofNat (16 * regs) ≤ c.size := by
      have hsize := hc.left
      rw [le_iff_toNat_le, toNat_ofNat', ← hw, Nat.mod_eq_of_lt hmax]
      omega
    refine ⟨c, ?_, by rw [Nat.zero_mul]; exact hc⟩
    cases fuel with
    | zero => rfl
    | succ fuel => exact if_neg hstop
  | succ k ih =>
    intro fuel o c hfuel hc hle hend hlo hhi hin hd hs
    obtain ⟨fuel, rfl⟩ : ∃ n, fuel = n + 1 := ⟨fuel - 1, by omega⟩
    rw [Nat.succ_mul] at hle hend hhi hin ⊢
    have hstep : (UInt32.ofNat (16 * regs)).toNat = w := by
      rw [toNat_ofNat', ← hw, Nat.mod_eq_of_lt hmax]
    have hgo : UInt32.ofNat (16 * regs) ≤ c.size := by
      rw [le_iff_toNat_le, hstep, hc.left]
      omega
    have htime : ∀ j : Fin size.toNat, o ≤ (j : Nat) → j < o + (k * w + w) →
        (j < o + w → time j = o) ∧ (o + w ≤ j → time j = o + w + (j - (o + w)) / w * w) := by
      intro j h1 h2
      have hj := hin j h1 h2
      constructor
      · intro h3
        rw [hj, Nat.div_eq_of_lt (by omega), Nat.zero_mul, Nat.add_zero]
      · intro h3
        rw [hj, next_block hpos (by omega), Nat.sub_sub]
        omega
    have hcut : ∀ j : Fin size.toNat, (j : Nat) < o + w ↔ time j < o + w := by
      intro j
      have h1 := hlo j
      have h2 := hhi j
      have h3 := htime j
      omega
    have hmove : moveXmms ld st regs c.mem c.dst c.src = some (before dst src time m (o + 16 * regs)) := by
      rw [hc.mem, hc.dstAt, hc.srcAt]
      refine moveXmms_before (by omega) (by omega) ?_ ?_ hd hs
      · intro j
        have h1 := hlo j
        have h2 := hhi j
        have h3 := htime j
        omega
      · intro j
        have h1 := hlo j
        have h2 := hhi j
        have h3 := htime j
        omega
    have hnext : At dst src time m (o + w)
        { mem := before dst src time m (o + 16 * regs), dst := c.dst + .ofNat (16 * regs),
          src := c.src + .ofNat (16 * regs), size := c.size - .ofNat (16 * regs) } := by
      refine ⟨by rw [hw], ?_, ?_, ?_, by omega⟩
      · rw [hc.dstAt, add_ofNat_ofNat, hw]
      · rw [hc.srcAt, add_ofNat_ofNat, hw]
      · show (c.size - .ofNat (16 * regs)).toNat = _
        rw [toNat_sub_of_le _ _ hgo, hstep, hc.left]
        omega
    obtain ⟨c', hrun, hc'⟩ := ih (show k ≤ fuel by omega) hnext (by omega) (by omega) hcut
      (fun j => by have h := hhi j; omega) (fun j h1 h2 => (htime j (by omega) (by omega)).2 h1)
      (fun ht => aligned_next (by omega) (hd ht)) (fun ht => aligned_next (by omega) (hs ht))
    refine ⟨c', ?_, by rw [Nat.add_comm (k * w), ← Nat.add_assoc]; exact hc'⟩
    unfold copyXmms
    dsimp only
    rw [if_pos hgo, hmove]
    exact hrun

end

/-! ## memcpy -/

/-- The bytes up to the first aligned one. -/
def headLen (dst size : UInt32) : Nat := min ((16 - dst.toNat % 16) % 16) size.toNat

/-- When `memcpy` copies the byte `i` of `n`, with `h` bytes before the first block. -/
def upTime (h n i : Nat) : Nat :=
  if i < h then h - 1 - i
  else if i - h < (n - h) / 128 * 128 then h + (i - h) / 128 * 128
  else if i - h < (n - h) / 64 * 64 then h + (i - h) / 64 * 64
  else if i - h < (n - h) / 16 * 16 then h + (i - h) / 16 * 16
  else h + (n - h) / 16 * 16 + (n - 1 - i)

theorem upTime_head {h n i : Nat} (h1 : i < h) : upTime h n i = h - 1 - i := if_pos h1

/-- The blocks of one loop begin at their offsets. -/
theorem upTime_block {h n i w : Nat} (h1 : h ≤ i) (h2 : i - h < (n - h) / w * w)
    (hw : w = 128 ∨ (w = 64 ∧ (n - h) / 128 * 128 ≤ i - h) ∨ (w = 16 ∧ (n - h) / 64 * 64 ≤ i - h)) :
    upTime h n i = h + (i - h) / w * w := by
  unfold upTime
  rw [if_neg (by omega)]
  obtain rfl | ⟨rfl, h3⟩ | ⟨rfl, h3⟩ := hw
  · rw [if_pos h2]
  · rw [if_neg (by omega), if_pos h2]
  · rw [if_neg (by omega), if_neg (by omega), if_pos h2]

theorem upTime_tail {h n i : Nat} (h1 : h + (n - h) / 16 * 16 ≤ i) :
    upTime h n i = h + (n - h) / 16 * 16 + (n - 1 - i) := by
  unfold upTime
  rw [if_neg (by omega), if_neg (by omega), if_neg (by omega), if_neg (by omega)]

/-- Where a loop begins and ends in the range, it begins and ends in time. -/
theorem upTime_cut {h n i e : Nat} (hi : i < n) (he : e = h ∨ e = h + (n - h) / 128 * 128 ∨
    e = h + (n - h) / 64 * 64 ∨ e = h + (n - h) / 16 * 16) : i < e ↔ upTime h n i < e := by
  unfold upTime
  by_cases h1 : i < h
  · rw [if_pos h1]
    omega
  rw [if_neg h1]
  by_cases h2 : i - h < (n - h) / 128 * 128
  · rw [if_pos h2]
    have hlow : (i - h) / 128 * 128 ≤ i - h := Nat.div_mul_le_self _ _
    have hhigh : (n - h) / 128 * 128 ≤ (n - h) / 64 * 64 ∧ (n - h) / 64 * 64 ≤ (n - h) / 16 * 16 := by omega
    omega
  rw [if_neg h2]
  by_cases h3 : i - h < (n - h) / 64 * 64
  · rw [if_pos h3]
    omega
  rw [if_neg h3]
  by_cases h4 : i - h < (n - h) / 16 * 16
  · rw [if_pos h4]
    omega
  · rw [if_neg h4]
    omega

section
variable {m : Memory} {h : Nat}

/-- The time of each byte of a range. -/
def upTimes (size : UInt32) (h : Nat) (i : Fin size.toNat) : Nat := upTime h size.toNat i

theorem copyHead_before (m : Memory) (dst src size : UInt32) :
    At dst src (upTimes size (headLen dst size)) m (headLen dst size) (copyHead { mem := m, dst, src, size }) := by
  have hzero : ∀ x : UInt32, x + .ofNat 0 = x := UInt32.add_zero
  have hmis : (dst &&& 15).toNat = dst.toNat % 16 := by
    rw [toNat_and]
    exact Nat.and_two_pow_sub_one_eq_mod dst.toNat 4
  unfold copyHead
  dsimp only
  by_cases hal : dst &&& 15 = 0
  · have hlen : headLen dst size = 0 := by
      unfold headLen
      rw [(and_fifteen dst).mp hal]
      exact Nat.zero_min _
    rw [if_neg (not_not.mpr hal), hlen]
    exact ⟨rfl, (hzero dst).symm, (hzero src).symm, rfl, Nat.zero_le _⟩
  · rw [if_pos hal]
    have hne := mt (and_fifteen dst).mpr hal
    have hsub : (16 - (dst &&& 15)).toNat = 16 - dst.toNat % 16 := by
      rw [toNat_sub, hmis]
      show (2 ^ 32 - dst.toNat % 16 + 16) % 2 ^ 32 = _
      omega
    obtain ⟨head, hhead⟩ : ∃ x, x = if size < 16 - (dst &&& 15) then size else 16 - (dst &&& 15) := ⟨_, rfl⟩
    have hlen : head.toNat = headLen dst size := by
      unfold headLen
      rw [hhead]
      by_cases hlt : size < 16 - (dst &&& 15)
      · rw [if_pos hlt]
        rw [lt_iff_toNat_lt, hsub] at hlt
        omega
      · rw [if_neg hlt, hsub]
        rw [lt_iff_toNat_lt, hsub] at hlt
        omega
    have hle : headLen dst size ≤ size.toNat := Nat.min_le_right _ _
    rw [← hhead, ← hlen]
    rw [← hlen] at hle
    refine ⟨?_, by rw [ofNat_toNat], by rw [ofNat_toNat], ?_, hle⟩
    · show copyDown m dst src head.toNat = _
      have hrun : copyDown (before dst src (upTimes size head.toNat) m 0) (dst + .ofNat 0) (src + .ofNat 0) head.toNat =
          before dst src (upTimes size head.toNat) m (0 + head.toNat) := by
        refine copyDown_before (by omega) ?_
        intro j r hr
        have hcut := upTime_cut (h := head.toNat) j.2 (.inl rfl)
        have hin := fun hj => upTime_head (h := head.toNat) (n := size.toNat) (i := j) hj
        show upTime head.toNat size.toNat j = _ ↔ _
        omega
      rw [hzero, hzero, Nat.zero_add] at hrun
      exact hrun
    · exact toNat_sub_of_le _ _ (le_iff_toNat_le.mpr hle)

/-- The three loops, up to the last bytes. -/
theorem loops_before {ld st : Bool} {c : Copy} (hc : At dst src (upTimes size h) m h c)
    (hd : st = true → (dst + .ofNat h).toNat % 16 = 0) (hs : ld = true → (src + .ofNat h).toNat % 16 = 0) :
    ∃ c1 c2 c3, copyXmms ld st 8 c.size.toNat c = some c1 ∧ copyXmms ld st 4 c.size.toNat c1 = some c2 ∧
      copyXmms false st 1 c.size.toNat c2 = some c3 ∧
        At dst src (upTimes size h) m (h + (size.toNat - h) / 16 * 16) c3 := by
  have hle := hc.le
  have hleft := hc.left
  have h128 : h + (size.toNat - h) / 128 * 128 ≤ size.toNat := by omega
  have hcut0 : ∀ j : Fin size.toNat, (j : Nat) < h ↔ upTimes size h j < h :=
    fun j => upTime_cut j.2 (.inl rfl)
  have hcut1 : ∀ j : Fin size.toNat, (j : Nat) < h + (size.toNat - h) / 128 * 128 ↔
      upTimes size h j < h + (size.toNat - h) / 128 * 128 := fun j => upTime_cut j.2 (.inr (.inl rfl))
  have hcut2 : ∀ j : Fin size.toNat, (j : Nat) < h + (size.toNat - h) / 64 * 64 ↔
      upTimes size h j < h + (size.toNat - h) / 64 * 64 := fun j => upTime_cut j.2 (.inr (.inr (.inl rfl)))
  have hcut3 : ∀ j : Fin size.toNat, (j : Nat) < h + (size.toNat - h) / 16 * 16 ↔
      upTimes size h j < h + (size.toNat - h) / 16 * 16 := fun j => upTime_cut j.2 (.inr (.inr (.inr rfl)))
  obtain ⟨c1, hrun1, hc1⟩ := copyXmms_before (show 128 = 16 * 8 from rfl) (by decide) (by decide)
    (show (size.toNat - h) / 128 ≤ c.size.toNat by omega) hc h128 (by omega) hcut0 hcut1
    (fun j hj1 hj2 => upTime_block hj1 (by omega) (.inl rfl)) hd hs
  have heq2 : h + (size.toNat - h) / 128 * 128 + (size.toNat - h) / 64 % 2 * 64 =
      h + (size.toNat - h) / 64 * 64 := by omega
  obtain ⟨c2, hrun2, hc2⟩ := copyXmms_before (show 64 = 16 * 4 from rfl) (by decide) (by decide)
    (show (size.toNat - h) / 64 % 2 ≤ c.size.toNat by omega) hc1 (by omega) (by omega) hcut1
    (by rw [heq2]; exact hcut2)
    (fun j hj1 hj2 => by
      have hblock : upTimes size h j = h + (j - h) / 64 * 64 :=
        upTime_block (by omega) (by omega) (.inr (.inl ⟨rfl, by omega⟩))
      omega)
    (fun ht => aligned_next (by omega) (hd ht)) (fun ht => aligned_next (by omega) (hs ht))
  rw [heq2] at hc2
  have heq3 : h + (size.toNat - h) / 64 * 64 + (size.toNat - h) / 16 % 4 * 16 =
      h + (size.toNat - h) / 16 * 16 := by omega
  obtain ⟨c3, hrun3, hc3⟩ := copyXmms_before (show 16 = 16 * 1 from rfl) (by decide) (by decide)
    (show (size.toNat - h) / 16 % 4 ≤ c.size.toNat by omega) hc2 (by omega) (by omega) hcut2
    (by rw [heq3]; exact hcut3)
    (fun j hj1 hj2 => by
      have hblock : upTimes size h j = h + (j - h) / 16 * 16 :=
        upTime_block (by omega) (by omega) (.inr (.inr ⟨rfl, by omega⟩))
      omega)
    (fun ht => aligned_next (by omega) (hd ht)) (fun ht : false = true => nomatch ht)
  rw [heq3] at hc3
  exact ⟨c1, c2, c3, hrun1, hrun2, hrun3, hc3⟩

theorem memcpy_eq (m : Memory) : memcpy m dst src size =
    some (dst, before dst src (upTimes size (headLen dst size)) m size.toNat) := by
  have hhead := copyHead_before m dst src size
  obtain ⟨c, hc⟩ : ∃ c, c = copyHead { mem := m, dst, src, size } := ⟨_, rfl⟩
  rw [← hc] at hhead
  have hblocks : ∃ c', copyBlocks c = some c' ∧ At dst src (upTimes size (headLen dst size)) m
      (headLen dst size + (size.toNat - headLen dst size) / 16 * 16) c' := by
    unfold copyBlocks
    dsimp only
    by_cases hal : c.dst &&& 15 = 0 ∧ c.src &&& 15 = 0
    · rw [if_pos hal]
      rw [hhead.dstAt, hhead.srcAt, and_fifteen, and_fifteen] at hal
      obtain ⟨c1, c2, c3, h1, h2, h3, hc3⟩ := loops_before hhead (fun _ : true = true => hal.1)
        (fun _ : true = true => hal.2)
      refine ⟨c3, ?_, hc3⟩
      simp only [h1, Option.bind_eq_bind, Option.bind_some, h2, h3]
    · rw [if_neg hal]
      obtain ⟨c1, c2, c3, h1, h2, h3, hc3⟩ := loops_before hhead (fun ht : false = true => nomatch ht)
        (fun ht : false = true => nomatch ht)
      refine ⟨c3, ?_, hc3⟩
      simp only [h1, Option.bind_eq_bind, Option.bind_some, h2, h3]
  obtain ⟨c', hrun, hc'⟩ := hblocks
  have hle := hc'.le
  unfold memcpy
  rw [← hc, hrun]
  show some (dst, copyDown c'.mem c'.dst c'.src c'.size.toNat) = _
  rw [hc'.mem, hc'.dstAt, hc'.srcAt, hc'.left, copyDown_before (by omega), Nat.add_sub_cancel' hle]
  intro j r hr
  have hcut := upTime_cut (h := headLen dst size) j.2 (.inr (.inr (.inr rfl)))
  have htail := fun hj => upTime_tail (h := headLen dst size) (n := size.toNat) (i := j) hj
  show upTime (headLen dst size) size.toNat j = _ ↔ _
  omega

end

/-! ## memmove, downwards -/

/-- The bytes from the last aligned one. -/
def peelLen (dst size : UInt32) : Nat := min ((dst + size).toNat % 16) size.toNat

/-- When `memmove` copies the byte `i` of `n` downwards, with `t` bytes after the last block. -/
def downTime (t n i : Nat) : Nat :=
  if n - t ≤ i then i - (n - t)
  else if (n - t) % 16 ≤ i then t + (n - t - 1 - i) / 16 * 16
  else n - 1 - i

theorem downTime_peel {t n i : Nat} (h : n - t ≤ i) : downTime t n i = i - (n - t) := if_pos h

theorem downTime_block {t n i : Nat} (h1 : i < n - t) (h2 : (n - t) % 16 ≤ i) :
    downTime t n i = t + (n - t - 1 - i) / 16 * 16 := by
  unfold downTime
  rw [if_neg (by omega), if_pos h2]

theorem downTime_rest {t n i : Nat} (h1 : i < n - t) (h2 : i < (n - t) % 16) : downTime t n i = n - 1 - i := by
  unfold downTime
  rw [if_neg (by omega), if_neg (by omega)]

theorem downTime_cut {t n i e : Nat} (hi : i < n) (ht : t ≤ n) (he : e = n - t ∨ e = (n - t) % 16) :
    e ≤ i ↔ downTime t n i < n - e := by
  unfold downTime
  by_cases h1 : n - t ≤ i
  · rw [if_pos h1]
    omega
  rw [if_neg h1]
  by_cases h2 : (n - t) % 16 ≤ i
  · rw [if_pos h2]
    omega
  · rw [if_neg h2]
    omega

/-- The pointers are at the end of the first `e` bytes, and the others are copied. -/
structure Back (dst src : UInt32) (time : Fin size.toNat → Nat) (m : Memory) (e : Nat) (c : Copy) : Prop where
  mem : c.mem = before dst src time m (size.toNat - e)
  dstAt : c.dst = dst + .ofNat e
  srcAt : c.src = src + .ofNat e
  left : c.size.toNat = e
  le : e ≤ size.toNat

section
variable {m : Memory} {t : Nat}

def downTimes (size : UInt32) (t : Nat) (i : Fin size.toNat) : Nat := downTime t size.toNat i

theorem ofNat_sub {base x : UInt32} {n : Nat} (h : x.toNat ≤ n) :
    base + .ofNat n - x = base + .ofNat (n - x.toNat) := by
  have hn : n = n - x.toNat + x.toNat := (Nat.sub_add_cancel h).symm
  rw [hn, ← add_ofNat_ofNat, ofNat_toNat, UInt32.add_sub_cancel, Nat.add_sub_cancel]

theorem peelTail_before (m : Memory) (dst src size : UInt32) :
    Back dst src (downTimes size (peelLen dst size)) m (size.toNat - peelLen dst size)
      (peelTail { mem := m, dst := dst + size, src := src + size, size }) := by
  have hmis : ((dst + size) &&& 15).toNat = (dst + size).toNat % 16 := by
    rw [toNat_and]
    exact Nat.and_two_pow_sub_one_eq_mod (dst + size).toNat 4
  have hend : ∀ x : UInt32, x + size = x + .ofNat size.toNat := fun x => by rw [ofNat_toNat]
  unfold peelTail
  dsimp only
  by_cases hal : (dst + size) &&& 15 = 0
  · have hlen : peelLen dst size = 0 := by
      unfold peelLen
      rw [(and_fifteen _).mp hal]
      exact Nat.zero_min _
    rw [if_neg (not_not.mpr hal), hlen]
    refine ⟨?_, hend dst, hend src, rfl, Nat.le_refl _⟩
    rw [Nat.sub_zero, Nat.sub_self]
    rfl
  · rw [if_pos hal]
    obtain ⟨tail, htail⟩ : ∃ x, x = if size < (dst + size) &&& 15 then size else (dst + size) &&& 15 := ⟨_, rfl⟩
    have hlen : tail.toNat = peelLen dst size := by
      unfold peelLen
      rw [htail]
      by_cases hlt : size < (dst + size) &&& 15
      · rw [if_pos hlt]
        rw [lt_iff_toNat_lt, hmis] at hlt
        omega
      · rw [if_neg hlt, hmis]
        rw [lt_iff_toNat_lt, hmis] at hlt
        omega
    have hle : peelLen dst size ≤ size.toNat := Nat.min_le_right _ _
    rw [← htail, ← hlen]
    rw [← hlen] at hle
    have hback : ∀ x : UInt32, x + size - tail = x + .ofNat (size.toNat - tail.toNat) := by
      intro x
      rw [hend x]
      exact ofNat_sub hle
    refine ⟨?_, hback dst, hback src, toNat_sub_of_le _ _ (le_iff_toNat_le.mpr hle), Nat.sub_le _ _⟩
    rw [hback dst, hback src, Nat.sub_sub_self hle]
    have hrun : copyUp (before dst src (downTimes size tail.toNat) m 0) (dst + .ofNat (size.toNat - tail.toNat))
        (src + .ofNat (size.toNat - tail.toNat)) 0 tail.toNat =
          before dst src (downTimes size tail.toNat) m (0 + tail.toNat) := by
      refine copyUp_before (by omega) ?_
      intro j r hr
      have hcut := downTime_cut j.2 hle (.inl rfl)
      have hin := fun hj => downTime_peel (t := tail.toNat) (n := size.toNat) (i := j) hj
      show downTime tail.toNat size.toNat j = _ ↔ _
      omega
    rw [Nat.zero_add] at hrun
    exact hrun

/-- The loop over `k` blocks. -/
theorem copyXmmsBack_before (hle : t ≤ size.toNat) : ∀ {k fuel e : Nat} {c : Copy}, k ≤ fuel →
    Back dst src (downTimes size t) m e c → e = (size.toNat - t) % 16 + 16 * k → e ≤ size.toNat - t →
      (16 ≤ e → (dst + .ofNat e).toNat % 16 = 0) →
        ∃ c', copyXmmsBack fuel c = some c' ∧ Back dst src (downTimes size t) m ((size.toNat - t) % 16) c' := by
  intro k
  induction k with
  | zero =>
    intro fuel e c _ hc he _ _
    have hleft := hc.left
    have hstop : ¬16 ≤ c.size := by
      rw [le_iff_toNat_le]
      show ¬16 ≤ c.size.toNat
      omega
    refine ⟨c, ?_, by rw [← show e = (size.toNat - t) % 16 by omega]; exact hc⟩
    cases fuel with
    | zero => rfl
    | succ fuel => exact if_neg hstop
  | succ k ih =>
    intro fuel e c hfuel hc he hin hal
    obtain ⟨fuel, rfl⟩ : ∃ n, fuel = n + 1 := ⟨fuel - 1, by omega⟩
    have hleft := hc.left
    have hgo : 16 ≤ c.size := by
      rw [le_iff_toNat_le]
      show 16 ≤ c.size.toNat
      omega
    have hback : ∀ x : UInt32, x + .ofNat e - 16 = x + .ofNat (e - 16) := fun x =>
      ofNat_sub (show (16 : UInt32).toNat ≤ e by show 16 ≤ e; omega)
    have halign : (dst + .ofNat (e - 16)).toNat % 16 = 0 := by
      have h := hal (by omega)
      rw [toNat_add_ofNat] at h ⊢
      omega
    have htime : ∀ j : Fin size.toNat, (e - 16 ≤ (j : Nat) ∧ j < e → downTimes size t j = size.toNat - e) ∧
        (e ≤ (j : Nat) → downTimes size t j < size.toNat - e) ∧
        ((j : Nat) < e - 16 → size.toNat - e + 16 ≤ downTimes size t j) := by
      intro j
      have hj := j.2
      show (_ → downTime t size.toNat j = _) ∧ (_ → downTime t size.toNat j < _) ∧ (_ → _ ≤ downTime t size.toNat j)
      refine ⟨fun ⟨h1, h2⟩ => ?_, fun h1 => ?_, fun h1 => ?_⟩
      · rw [downTime_block (by omega) (by omega)]
        omega
      · by_cases hp : size.toNat - t ≤ j
        · rw [downTime_peel hp]
          omega
        · rw [downTime_block (by omega) (by omega)]
          omega
      · by_cases hr : (size.toNat - t) % 16 ≤ j
        · rw [downTime_block (by omega) hr]
          omega
        · rw [downTime_rest (by omega) (by omega)]
          omega
    have hmove : moveXmms false true 1 c.mem (c.dst - 16) (c.src - 16) =
        some (before dst src (downTimes size t) m (size.toNat - e + 16 * 1)) := by
      rw [hc.mem, hc.dstAt, hc.srcAt, hback, hback]
      refine moveXmms_before (by decide) (by omega) ?_ ?_ (fun _ => halign) (fun ht => nomatch ht)
      · intro j
        have h := htime j
        omega
      · intro j
        have h := htime j
        omega
    have hnext : Back dst src (downTimes size t) m (e - 16)
        { mem := before dst src (downTimes size t) m (size.toNat - e + 16 * 1), dst := c.dst - 16,
          src := c.src - 16, size := c.size - 16 } := by
      refine ⟨?_, ?_, ?_, ?_, by have h := hc.le; omega⟩
      · rw [show size.toNat - (e - 16) = size.toNat - e + 16 * 1 by omega]
      · rw [hc.dstAt, hback]
      · rw [hc.srcAt, hback]
      · show (c.size - 16).toNat = _
        rw [toNat_sub_of_le _ _ hgo, hleft]
        rfl
    obtain ⟨c', hrun, hc'⟩ := ih (show k ≤ fuel by omega) hnext (by omega) (by omega) (fun _ => halign)
    refine ⟨c', ?_, hc'⟩
    unfold copyXmmsBack
    rw [if_pos hgo, hmove]
    exact hrun

theorem memmove_down (m : Memory) (hdir : ¬(dst < src ∨ src + size ≤ dst)) : memmove m dst src size =
    some (dst, before dst src (downTimes size (peelLen dst size)) m size.toNat) := by
  have hpeel := peelTail_before m dst src size
  obtain ⟨c, hc⟩ : ∃ c, c = peelTail { mem := m, dst := dst + size, src := src + size, size } := ⟨_, rfl⟩
  rw [← hc] at hpeel
  have hle : peelLen dst size ≤ size.toNat := Nat.min_le_right _ _
  have hleft := hpeel.left
  obtain ⟨c', hrun, hc'⟩ := copyXmmsBack_before hle
    (show (size.toNat - peelLen dst size) / 16 ≤ c.size.toNat by omega) hpeel (by omega) (by omega) (by
      intro h
      have hlen : peelLen dst size = (dst.toNat + size.toNat) % 2 ^ 32 % 16 := by
        unfold peelLen at h ⊢
        rw [toNat_add] at h ⊢
        omega
      rw [toNat_add_ofNat]
      omega)
  have hr := hc'.le
  unfold memmove
  rw [if_neg hdir, ← hc]
  show ((copyXmmsBack c.size.toNat c).bind fun c => some (dst, copyBack c.mem c.dst c.src c.size.toNat)) = _
  rw [hrun, Option.bind_some, hc'.mem, hc'.dstAt, hc'.srcAt, hc'.left, copyBack_eq]
  have hzero : ∀ x : UInt32, x = x + .ofNat 0 := fun x => (UInt32.add_zero x).symm
  have hrest : copyDown (before dst src (downTimes size (peelLen dst size)) m
      (size.toNat - (size.toNat - peelLen dst size) % 16)) (dst + .ofNat 0) (src + .ofNat 0)
        ((size.toNat - peelLen dst size) % 16) =
      before dst src (downTimes size (peelLen dst size)) m (size.toNat - (size.toNat - peelLen dst size) % 16 +
        (size.toNat - peelLen dst size) % 16) := by
    refine copyDown_before (by omega) ?_
    intro j r hr'
    have hj := j.2
    have hcut := downTime_cut j.2 hle (.inr rfl)
    have hin := fun h1 h2 => downTime_rest (t := peelLen dst size) (n := size.toNat) (i := j) h1 h2
    show downTime (peelLen dst size) size.toNat j = _ ↔ _
    omega
  rw [← hzero, ← hzero, Nat.sub_add_cancel hr] at hrest
  rw [hrest]

end

/-! ## Overlaps -/

theorem upTime_lt {h n i : Nat} (hi : i < n) (hh : h ≤ n) : upTime h n i < n := by
  by_cases he : i < h + (n - h) / 16 * 16
  · have hcut := (upTime_cut hi (.inr (.inr (.inr rfl)))).mp he
    omega
  · rw [upTime_tail (Nat.not_lt.mp he)]
    omega

theorem downTime_lt {t n i : Nat} (hi : i < n) (ht : t ≤ n) : downTime t n i < n := by
  unfold downTime
  by_cases h1 : n - t ≤ i
  · rw [if_pos h1]
    omega
  rw [if_neg h1]
  by_cases h2 : (n - t) % 16 ≤ i
  · rw [if_pos h2]
    omega
  · rw [if_neg h2]
    omega

/-- Going up, a byte is only copied before a lower one among the bytes before the first
block and among those after the last. -/
theorem upTime_inversion {h n i j : Nat} (hi : i < n) (hji : j < i) (ht : upTime h n i < upTime h n j) :
    i < h ∨ h + (n - h) / 16 * 16 ≤ j := by
  by_contra hnot
  obtain ⟨h1, h2⟩ := not_or.mp hnot
  have hj : j < n := Nat.lt_trans hji hi
  have hcut0 := upTime_cut (h := h) hj (.inl rfl)
  have hcut0' := upTime_cut (h := h) hi (.inl rfl)
  have hcut1 := upTime_cut (h := h) hj (.inr (.inl rfl))
  have hcut1' := upTime_cut (h := h) hi (.inr (.inl rfl))
  have hcut2 := upTime_cut (h := h) hj (.inr (.inr (.inl rfl)))
  have hcut2' := upTime_cut (h := h) hi (.inr (.inr (.inl rfl)))
  have hcut3 := upTime_cut (h := h) hj (.inr (.inr (.inr rfl)))
  have hcut3' := upTime_cut (h := h) hi (.inr (.inr (.inr rfl)))
  have hjh : h ≤ j := by omega
  by_cases h128 : i < h + (n - h) / 128 * 128
  · have ei := upTime_block (w := 128) (Nat.not_lt.mp h1) (by omega) (.inl rfl) (n := n)
    have ej := upTime_block (w := 128) hjh (by omega) (.inl rfl) (n := n)
    omega
  by_cases h128' : j < h + (n - h) / 128 * 128
  · omega
  by_cases h64 : i < h + (n - h) / 64 * 64
  · have ei := upTime_block (w := 64) (Nat.not_lt.mp h1) (by omega) (.inr (.inl ⟨rfl, by omega⟩)) (n := n)
    have ej := upTime_block (w := 64) hjh (by omega) (.inr (.inl ⟨rfl, by omega⟩)) (n := n)
    omega
  by_cases h64' : j < h + (n - h) / 64 * 64
  · omega
  by_cases h16 : i < h + (n - h) / 16 * 16
  · have ei := upTime_block (w := 16) (Nat.not_lt.mp h1) (by omega) (.inr (.inr ⟨rfl, by omega⟩)) (n := n)
    have ej := upTime_block (w := 16) hjh (by omega) (.inr (.inr ⟨rfl, by omega⟩)) (n := n)
    omega
  · omega

/-- Going down, a byte is only copied before a higher one among the bytes after the last block. -/
theorem downTime_inversion {t n i j : Nat} (hj : j < n) (hij : i < j) (ht : downTime t n i < downTime t n j) :
    n - t ≤ i := by
  by_contra hnot
  unfold downTime at ht
  rw [if_neg hnot] at ht
  by_cases h1 : n - t ≤ j
  · rw [if_pos h1] at ht
    by_cases h2 : (n - t) % 16 ≤ i
    · rw [if_pos h2] at ht
      omega
    · rw [if_neg h2] at ht
      omega
  rw [if_neg h1] at ht
  by_cases h2 : (n - t) % 16 ≤ i
  · rw [if_pos h2, if_pos (by omega)] at ht
    omega
  rw [if_neg h2] at ht
  by_cases h3 : (n - t) % 16 ≤ j
  · rw [if_pos h3] at ht
    omega
  · rw [if_neg h3] at ht
    omega

/-- The bytes of two ranges that are one. -/
theorem cell_eq_iff (i j : Fin size.toNat) : cell dst i = cell src j ↔
    (j : Nat) = i + (dst - src).toNat ∨ (i : Nat) = j + (src - dst).toNat := by
  rw [← toNat_inj, cell_toNat, cell_toNat, toNat_sub, toNat_sub]
  have hi := i.2
  have hj := j.2
  have hsize := size.toNat_lt
  have hd := dst.toNat_lt
  have hs := src.toNat_lt
  omega

end Serotonin.Mem
