import Serotonin.Mem.Overlap

/-! `memmove` against a snapshot. Ranges that overlap by a little go wrong: by less than the
bytes that are copied against the direction. -/

namespace Serotonin.Mem

open Copying

/-- The bytes after the last block, going up. -/
def tailLen (dst size : UInt32) : Nat := (size.toNat - headLen dst size) % 16

/-- All bytes are copied downwards, or in one block. -/
def OneUnit (dst size : UInt32) : Prop :=
  headLen dst size = size.toNat ∨
    headLen dst size = 0 ∧ (size.toNat < 16 ∨ size.toNat = 16 ∨ size.toNat = 64 ∨ size.toNat = 128)

/-- The source is at the destination or as far above as the longer of head and tail; and the
destination is not above the source but outside it. The distances are those of the machine
words: only a range that wraps around can break the second part. -/
def UpOk (dst src size : UInt32) : Prop :=
  ((src - dst).toNat = 0 ∨ headLen dst size ≤ (src - dst).toNat ∧ tailLen dst size ≤ (src - dst).toNat) ∧
    ((dst - src).toNat = 0 ∨ size.toNat ≤ (dst - src).toNat ∨ OneUnit dst size)

/-- The same going down. -/
def DownOk (dst src size : UInt32) : Prop :=
  ((dst - src).toNat = 0 ∨ peelLen dst size ≤ (dst - src).toNat) ∧
    ((src - dst).toNat = 0 ∨ size.toNat ≤ (src - dst).toNat)

def MoveOk (dst src size : UInt32) : Prop :=
  if dst < src ∨ src + size ≤ dst then UpOk dst src size else DownOk dst src size

instance (dst size : UInt32) : Decidable (OneUnit dst size) := inferInstanceAs (Decidable (_ ∨ _))
instance (dst src size : UInt32) : Decidable (UpOk dst src size) := inferInstanceAs (Decidable (_ ∧ _))
instance (dst src size : UInt32) : Decidable (DownOk dst src size) := inferInstanceAs (Decidable (_ ∧ _))
instance (dst src size : UInt32) : Decidable (MoveOk dst src size) :=
  inferInstanceAs (Decidable (if dst < src ∨ src + size ≤ dst then UpOk dst src size else DownOk dst src size))

variable {dst src size : UInt32}

/-! ## Upwards -/

/-- Where the first unit ends, unless it is all there is. -/
theorem exists_cut_up (h : ¬OneUnit dst size) (hpos : 0 < size.toNat) :
    ∃ b, 0 < b ∧ b < size.toNat ∧ ∀ i, i < size.toNat →
      (i < b ↔ upTime (headLen dst size) size.toNat i < b) := by
  obtain ⟨h1, h2⟩ := not_or.mp h
  have hle : headLen dst size ≤ size.toNat := Nat.min_le_right _ _
  by_cases hzero : headLen dst size = 0
  · have hsizes := fun hn => h2 ⟨hzero, hn⟩
    rw [hzero]
    have hblock : ∀ w, (w = 128 ∨ (w = 64 ∧ size.toNat / 128 = 0) ∨ (w = 16 ∧ size.toNat / 64 = 0)) →
        w < size.toNat → ∀ i, i < size.toNat → (i < w ↔ upTime 0 size.toNat i < w) := by
      intro w hw hlt i hi
      have hcut := upTime_cut (h := 0) (e := 0 + size.toNat / 16 * 16) hi (.inr (.inr (.inr rfl)))
      have hcut2 := upTime_cut (h := 0) (e := 0 + size.toNat / 64 * 64) hi (.inr (.inr (.inl rfl)))
      have hcut1 := upTime_cut (h := 0) (e := 0 + size.toNat / 128 * 128) hi (.inr (.inl rfl))
      obtain rfl | ⟨rfl, h0⟩ | ⟨rfl, h0⟩ := hw
      · by_cases hin : i < size.toNat / 128 * 128
        · have ht := upTime_block (h := 0) (n := size.toNat) (Nat.zero_le i) hin (.inl rfl)
          omega
        · omega
      · by_cases hin : i < size.toNat / 64 * 64
        · have ht := upTime_block (h := 0) (n := size.toNat) (Nat.zero_le i) hin (.inr (.inl ⟨rfl, by omega⟩))
          omega
        · omega
      · by_cases hin : i < size.toNat / 16 * 16
        · have ht := upTime_block (h := 0) (n := size.toNat) (Nat.zero_le i) hin (.inr (.inr ⟨rfl, by omega⟩))
          omega
        · omega
    by_cases h128 : 128 ≤ size.toNat
    · exact ⟨128, by decide, by omega, hblock 128 (.inl rfl) (by omega)⟩
    by_cases h64 : 64 ≤ size.toNat
    · exact ⟨64, by decide, by omega, hblock 64 (.inr (.inl ⟨rfl, by omega⟩)) (by omega)⟩
    · exact ⟨16, by decide, by omega, hblock 16 (.inr (.inr ⟨rfl, by omega⟩)) (by omega)⟩
  · exact ⟨headLen dst size, by omega, by omega, fun i hi => upTime_cut hi (.inl rfl)⟩

theorem ordered_up_iff : Ordered (cell dst) (cell src) (upTimes size (headLen dst size)) ↔ UpOk dst src size := by
  have hle : headLen dst size ≤ size.toNat := Nat.min_le_right _ _
  have htail : tailLen dst size = (size.toNat - headLen dst size) % 16 := rfl
  constructor
  · intro hord
    have hno : ∀ i j, (hi : i < size.toNat) → (hj : j < size.toNat) →
        upTime (headLen dst size) size.toNat i < upTime (headLen dst size) size.toNat j →
          ¬(j = i + (dst - src).toNat ∨ i = j + (src - dst).toNat) :=
      fun i j hi hj ht he => hord ⟨i, hi⟩ ⟨j, hj⟩ ht ((cell_eq_iff _ _).mpr he)
    refine ⟨?_, ?_⟩
    · by_cases hpos : (src - dst).toNat = 0
      · exact .inl hpos
      refine .inr ⟨?_, ?_⟩
      · by_contra hlt
        refine hno (src - dst).toNat 0 (by omega) (by omega) ?_ (.inr (Nat.zero_add _).symm)
        rw [upTime_head (by omega), upTime_head (by omega)]
        omega
      · by_contra hlt
        refine hno (size.toNat - 1) (size.toNat - 1 - (src - dst).toNat) (by omega) (by omega) ?_ (.inr (by omega))
        rw [upTime_tail (by omega), upTime_tail (by omega)]
        omega
    · by_contra hnot
      obtain ⟨h1, h2⟩ := not_or.mp hnot
      obtain ⟨h2, h3⟩ := not_or.mp h2
      obtain ⟨b, hb0, hbn, hcut⟩ := exists_cut_up h3 (by omega)
      by_cases hfar : b - 1 + (dst - src).toNat < size.toNat
      · refine hno (b - 1) (b - 1 + (dst - src).toNat) (by omega) hfar ?_ (.inl rfl)
        have hc1 := hcut (b - 1) (by omega)
        have hc2 := hcut (b - 1 + (dst - src).toNat) hfar
        omega
      · refine hno (size.toNat - 1 - (dst - src).toNat) (size.toNat - 1) (by omega) (by omega) ?_ (.inl (by omega))
        have hc1 := hcut (size.toNat - 1 - (dst - src).toNat) (by omega)
        have hc2 := hcut (size.toNat - 1) (by omega)
        omega
  · intro ⟨hup, hdown⟩ i j ht he
    have hi := i.2
    have hj := j.2
    have ht' : upTime (headLen dst size) size.toNat i < upTime (headLen dst size) size.toNat j := ht
    rcases (cell_eq_iff i j).mp he with hij | hij
    · by_cases heq : (j : Nat) = i
      · rw [heq] at ht'
        exact Nat.lt_irrefl _ ht'
      obtain hz | hz | hone := hdown
      · omega
      · omega
      · obtain hall | ⟨h0, hsize⟩ := hone
        · rw [upTime_head (by omega), upTime_head (by omega)] at ht'
          omega
        · rw [h0] at ht'
          obtain hs | hs | hs | hs := hsize
          · rw [upTime_tail (by omega), upTime_tail (by omega)] at ht'
            omega
          · rw [upTime_block (w := 16) (by omega) (by omega) (by omega),
              upTime_block (w := 16) (by omega) (by omega) (by omega)] at ht'
            omega
          · rw [upTime_block (w := 64) (by omega) (by omega) (by omega),
              upTime_block (w := 64) (by omega) (by omega) (by omega)] at ht'
            omega
          · rw [upTime_block (w := 128) (by omega) (by omega) (by omega),
              upTime_block (w := 128) (by omega) (by omega) (by omega)] at ht'
            omega
    · by_cases heq : (i : Nat) = j
      · rw [heq] at ht'
        exact Nat.lt_irrefl _ ht'
      have hinv := upTime_inversion hi (by omega) ht'
      omega

/-! ## Downwards -/

theorem ordered_down_iff (hdir : ¬(dst < src ∨ src + size ≤ dst)) :
    Ordered (cell dst) (cell src) (downTimes size (peelLen dst size)) ↔ DownOk dst src size := by
  have hle : peelLen dst size ≤ size.toNat := Nat.min_le_right _ _
  have hshort : peelLen dst size < 16 := by
    unfold peelLen
    omega
  constructor
  · intro hord
    have hno : ∀ i j, (hi : i < size.toNat) → (hj : j < size.toNat) →
        downTime (peelLen dst size) size.toNat i < downTime (peelLen dst size) size.toNat j →
          ¬(j = i + (dst - src).toNat ∨ i = j + (src - dst).toNat) :=
      fun i j hi hj ht he => hord ⟨i, hi⟩ ⟨j, hj⟩ ht ((cell_eq_iff _ _).mpr he)
    refine ⟨?_, ?_⟩
    · by_contra hnot
      obtain ⟨h1, h2⟩ := not_or.mp hnot
      refine hno (size.toNat - peelLen dst size) (size.toNat - peelLen dst size + (dst - src).toNat) (by omega)
        (by omega) ?_ (.inl rfl)
      rw [downTime_peel (by omega), downTime_peel (by omega)]
      omega
    · by_contra hnot
      obtain ⟨h1, h2⟩ := not_or.mp hnot
      -- the destination wraps around, so the ranges are long
      have hlong : 16 < size.toNat := by
        rw [UInt32.lt_iff_toNat_lt, UInt32.le_iff_toNat_le, UInt32.toNat_add] at hdir
        rw [UInt32.toNat_sub] at h1 h2
        have hd := dst.toNat_lt
        have hs := src.toNat_lt
        have hn := size.toNat_lt
        omega
      obtain ⟨b, hb0, hbn, hcut⟩ : ∃ b, 0 < b ∧ b < size.toNat ∧ ∀ i, i < size.toNat →
          (b ≤ i ↔ downTime (peelLen dst size) size.toNat i < size.toNat - b) := by
        by_cases hzero : peelLen dst size = 0
        · refine ⟨size.toNat - 16, by omega, by omega, fun i hi => ?_⟩
          rw [hzero]
          by_cases hr : size.toNat % 16 ≤ i
          · rw [downTime_block (by omega) (by omega)]
            omega
          · rw [downTime_rest (by omega) (by omega)]
            omega
        · exact ⟨size.toNat - peelLen dst size, by omega, by omega, fun i hi => downTime_cut hi hle (.inl rfl)⟩
      by_cases hfar : b - 1 + (src - dst).toNat < size.toNat
      · refine hno (b - 1 + (src - dst).toNat) (b - 1) hfar (by omega) ?_ (.inr rfl)
        have hc1 := hcut (b - 1) (by omega)
        have hc2 := hcut (b - 1 + (src - dst).toNat) hfar
        omega
      · refine hno (size.toNat - 1) (size.toNat - 1 - (src - dst).toNat) (by omega) (by omega) ?_ (.inr (by omega))
        have hc1 := hcut (size.toNat - 1 - (src - dst).toNat) (by omega)
        have hc2 := hcut (size.toNat - 1) (by omega)
        omega
  · intro ⟨hdown, hup⟩ i j ht he
    have hi := i.2
    have hj := j.2
    have ht' : downTime (peelLen dst size) size.toNat i < downTime (peelLen dst size) size.toNat j := ht
    by_cases heq : (i : Nat) = j
    · rw [heq] at ht'
      exact Nat.lt_irrefl _ ht'
    rcases (cell_eq_iff i j).mp he with hij | hij
    · have hinv := downTime_inversion hj (by omega) ht'
      omega
    · omega

/-! ## The claim -/

theorem memmove_before (dst src size : UInt32) : ∃ time : Fin size.toNat → Nat, (∀ i, time i < size.toNat) ∧
    (∀ m, memmove m dst src size = some (dst, before dst src time m size.toNat)) ∧
      (Ordered (cell dst) (cell src) time ↔ MoveOk dst src size) := by
  unfold MoveOk
  by_cases hdir : dst < src ∨ src + size ≤ dst
  · rw [if_pos hdir]
    refine ⟨_, fun i => upTime_lt i.2 (Nat.min_le_right _ _), fun m => ?_, ordered_up_iff⟩
    unfold memmove
    rw [if_pos hdir]
    exact memcpy_eq m
  · rw [if_neg hdir]
    exact ⟨_, fun i => downTime_lt i.2 (Nat.min_le_right _ _), fun m => memmove_down m hdir, ordered_down_iff hdir⟩

/-- `memmove` copies a snapshot, whatever memory holds, exactly for the ranges that do not
overlap by less than the bytes it copies against its direction. -/
theorem memmove_copied_iff (dst src size : UInt32) :
    (∀ m, ∃ m', memmove m dst src size = some (dst, m') ∧ Copied dst src size m m') ↔ MoveOk dst src size := by
  obtain ⟨time, htime, hrun, hord⟩ := memmove_before dst src size
  have htwo : Nontrivial UInt8 := ⟨0, 1, by decide⟩
  rw [← hord, ← snapshot_iff (B := UInt8) (cell_injective dst) (cell_injective src) htime]
  refine forall_congr' fun m => ?_
  constructor
  · intro ⟨m', hm, hcopied⟩
    rw [hrun m] at hm
    obtain ⟨-, rfl⟩ := Prod.mk.inj (Option.some.inj hm)
    exact (copied_iff m _).mp hcopied
  · intro h
    exact ⟨_, hrun m, (copied_iff m _).mpr h⟩

/-- The move of the kernel's own test, with the buffer at a page. -/
theorem not_always_copied :
    ¬∀ m dst src size, ∃ m', memmove m dst src size = some (dst, m') ∧ Copied dst src size m m' := by
  intro h
  obtain ⟨m', hrun, hcopied⟩ := h (fun a => .ofNat a.toNat) 0x1002 0x1000 13
  have hbyte : (memmove (fun a => .ofNat a.toNat) 0x1002 0x1000 13).map (fun r => r.2 (0x1002 + 2)) = some 0 := by
    decide +kernel
  rw [hrun] at hbyte
  have hzero : m' (0x1002 + 2) = 0 := Option.some.inj hbyte
  have hmoved := hcopied.moved 2 (by decide)
  rw [hzero] at hmoved
  exact absurd hmoved (by decide)

end Serotonin.Mem
