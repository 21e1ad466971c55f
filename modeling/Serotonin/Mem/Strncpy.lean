import Serotonin.Mem.Overlap

/-! `strncpy` of `stdlib/stdlib.c`. Both loops count the same word down, and each counts it once
more when it stops. So the padding starts from the right count only if the first loop stopped
at the end of the string. -/

namespace Serotonin.Mem

open Function List

/-- Memory, with the addresses written so far, the last one first. -/
structure Written where
  mem : Memory
  addrs : List UInt32

def Written.store (s : Written) (a : UInt32) (c : UInt8) : Written :=
  ⟨update s.mem a c, a :: s.addrs⟩

/-- `while (n-- && (*dest++ = *src++))`: what was written, `dest` and `n`. -/
def copyChars (s : Written) (dest src : UInt32) : Nat → Written × UInt32 × UInt32
  | 0 => (s, dest, 0 - 1)
  | n + 1 =>
    let c := s.mem src
    if c = 0 then (s.store dest c, dest + 1, .ofNat n) else copyChars (s.store dest c) (dest + 1) (src + 1) n

/-- `while (n-- > 0) *dest++ = '\0'`. -/
def padZeros (s : Written) (dest : UInt32) : Nat → Written
  | 0 => s
  | n + 1 => padZeros (s.store dest 0) (dest + 1) n

def strncpy (m : Memory) (dest src n : UInt32) : UInt32 × Written :=
  let (s, d, left) := copyChars ⟨m, []⟩ dest src n.toNat
  (dest, padZeros s d left.toNat)

/-! ## The contract -/

/-- A string of `len` characters. -/
structure IsString (m : Memory) (src : UInt32) (len : Nat) : Prop where
  chars : ∀ i, i < len → m (src + .ofNat i) ≠ 0
  nul : m (src + .ofNat len) = 0

/-- No byte of the string is written before it is read. -/
def ReadFirst (dest src : UInt32) (len n : Nat) : Prop :=
  ∀ i j, i < n → i < j → j ≤ len → dest + .ofNat i ≠ src + .ofNat j

/-- Exactly `n` bytes are written: the string as far as it fits, and zero bytes behind it. -/
structure CopiedPadded (m : Memory) (dest src : UInt32) (len n : Nat) (r : UInt32 × Written) : Prop where
  returned : r.1 = dest
  chars : ∀ i, i < n → i < len → r.2.mem (dest + .ofNat i) = m (src + .ofNat i)
  zeros : ∀ i, i < n → len ≤ i → r.2.mem (dest + .ofNat i) = 0
  kept : ∀ a, (∀ i, i < n → a ≠ dest + .ofNat i) → r.2.mem a = m a
  written : ∀ a, a ∈ r.2.addrs ↔ ∃ i, i < n ∧ a = dest + .ofNat i

/-! ## Bytes in a row -/

/-- The bytes one after the other, from `d` on. -/
def Written.storeAll (s : Written) (d : UInt32) : List UInt8 → Written
  | [] => s
  | c :: cs => (s.store d c).storeAll (d + 1) cs

def bytesAt (m : Memory) (a : UInt32) : Nat → List UInt8
  | 0 => []
  | n + 1 => m a :: bytesAt m (a + 1) n

@[simp] theorem length_bytesAt (m : Memory) (a : UInt32) (n : Nat) : (bytesAt m a n).length = n := by
  induction n generalizing a with
  | zero => rfl
  | succ n ih => simp [bytesAt, ih]

theorem add_one_ofNat (a : UInt32) (i : Nat) : a + 1 + .ofNat i = a + .ofNat (i + 1) := by
  rw [Nat.add_comm]
  exact add_ofNat_ofNat a 1 i

theorem add_ofNat_inj {a : UInt32} {i j : Nat} (hi : i < 2 ^ 32) (hj : j < 2 ^ 32)
    (h : a + .ofNat i = a + .ofNat j) : i = j := by
  have hnat := congrArg UInt32.toNat h
  rw [toNat_add_ofNat, toNat_add_ofNat] at hnat
  omega

theorem getElem?_bytesAt (m : Memory) (a : UInt32) {n i : Nat} (h : i < n) :
    (bytesAt m a n)[i]? = some (m (a + .ofNat i)) := by
  induction n generalizing a i with
  | zero => omega
  | succ n ih =>
    cases i with
    | zero => exact congrArg (some ∘ m) (UInt32.add_zero a).symm
    | succ i =>
      rw [← add_one_ofNat]
      exact ih (a + 1) (by omega)

variable {s : Written} {d : UInt32} {m : Memory} {dest src : UInt32} {len : Nat}

theorem storeAll_append (cs cs' : List UInt8) :
    s.storeAll d (cs ++ cs') = (s.storeAll d cs).storeAll (d + .ofNat cs.length) cs' := by
  induction cs generalizing s d with
  | nil => exact congrArg (s.storeAll · cs') (UInt32.add_zero d).symm
  | cons c cs ih =>
    rw [length_cons, ← add_one_ofNat]
    exact ih

theorem mem_addrs_storeAll (cs : List UInt8) (a : UInt32) :
    a ∈ (s.storeAll d cs).addrs ↔ a ∈ s.addrs ∨ ∃ i, i < cs.length ∧ a = d + .ofNat i := by
  induction cs generalizing s d with
  | nil => simp [Written.storeAll]
  | cons c cs ih =>
    rw [Written.storeAll, ih]
    constructor
    · intro h
      obtain h | ⟨i, hi, rfl⟩ := h
      · obtain rfl | h := mem_cons.mp h
        · exact .inr ⟨0, by simp, (UInt32.add_zero a).symm⟩
        · exact .inl h
      · exact .inr ⟨i + 1, by simpa using hi, add_one_ofNat d i⟩
    · intro h
      obtain h | ⟨i, hi, rfl⟩ := h
      · exact .inl (mem_cons_of_mem _ h)
      · cases i with
        | zero => exact .inl (mem_cons.mpr (.inl (UInt32.add_zero d)))
        | succ i => exact .inr ⟨i, by simpa using hi, (add_one_ofNat d i).symm⟩

theorem storeAll_other {cs : List UInt8} {a : UInt32} (h : ∀ i, i < cs.length → a ≠ d + .ofNat i) :
    (s.storeAll d cs).mem a = s.mem a := by
  induction cs generalizing s d with
  | nil => rfl
  | cons c cs ih =>
    have hd : a ≠ d := by
      have h0 := h 0 (by simp)
      rwa [show d + UInt32.ofNat 0 = d from UInt32.add_zero d] at h0
    have hrest : (s.storeAll d (c :: cs)).mem a = (s.store d c).mem a := by
      refine ih fun i hi => ?_
      rw [add_one_ofNat]
      exact h (i + 1) (by simpa using hi)
    rw [hrest]
    exact update_of_ne hd c s.mem

theorem storeAll_at {cs : List UInt8} (hlen : cs.length < 2 ^ 32) {i : Nat} (hi : i < cs.length) :
    (s.storeAll d cs).mem (d + .ofNat i) = cs[i] := by
  induction cs generalizing s d i with
  | nil => simp at hi
  | cons c cs ih =>
    rw [length_cons] at hlen hi
    cases i with
    | zero =>
      have hrest : (s.storeAll d (c :: cs)).mem (d + .ofNat 0) = (s.store d c).mem (d + .ofNat 0) := by
        refine storeAll_other (d := d + 1) fun i hi he => ?_
        rw [add_one_ofNat] at he
        exact absurd (add_ofNat_inj (by decide) (by omega) he) (by omega)
      rw [hrest, show d + UInt32.ofNat 0 = d from UInt32.add_zero d]
      exact update_self d c s.mem
    | succ i =>
      rw [← add_one_ofNat]
      exact ih (by omega) (by omega)

/-! ## The loops -/

theorem padZeros_eq (n : Nat) : padZeros s d n = s.storeAll d (List.replicate n 0) := by
  induction n generalizing s d with
  | zero => rfl
  | succ n ih => exact ih

/-- The first loop stops behind the end of the string, or at a count of zero that it takes one
further. -/
theorem copyChars_eq (n : Nat) (hstr : IsString m src len) (hmem : ∀ i, i ≤ len → s.mem (src + .ofNat i) = m (src + .ofNat i))
    (hread : ReadFirst dest src len n) :
    copyChars s dest src n =
      if len < n then (s.storeAll dest (bytesAt m src (len + 1)), dest + .ofNat (len + 1), .ofNat (n - (len + 1)))
      else (s.storeAll dest (bytesAt m src n), dest + .ofNat n, 0 - 1) := by
  induction n generalizing s dest src len with
  | zero =>
    rw [if_neg (Nat.not_lt_zero _)]
    exact congrArg (fun a => (s, a, (0 : UInt32) - 1)) (UInt32.add_zero dest).symm
  | succ n ih =>
    have hzero : src + .ofNat 0 = src := UInt32.add_zero src
    have hfirst : s.mem src = m src := by
      have h0 := hmem 0 (Nat.zero_le _)
      rwa [hzero] at h0
    rw [copyChars]
    cases len with
    | zero =>
      have hnul : m src = 0 := by
        have h0 := hstr.nul
        rwa [hzero] at h0
      rw [if_pos (Nat.succ_pos n), hfirst, if_pos hnul]
      rfl
    | succ len =>
      have hchar : m src ≠ 0 := by
        have h0 := hstr.chars 0 (Nat.succ_pos _)
        rwa [hzero] at h0
      have hstr' : IsString m (src + 1) len := by
        refine ⟨fun i hi => ?_, ?_⟩
        · rw [add_one_ofNat]
          exact hstr.chars (i + 1) (by omega)
        · rw [add_one_ofNat]
          exact hstr.nul
      have hmem' : ∀ i, i ≤ len → (s.store dest (m src)).mem (src + 1 + .ofNat i) = m (src + 1 + .ofNat i) := by
        intro i hi
        have hne := hread 0 (i + 1) (Nat.succ_pos _) (Nat.succ_pos _) (by omega)
        rw [show dest + UInt32.ofNat 0 = dest from UInt32.add_zero dest] at hne
        rw [add_one_ofNat, ← hmem (i + 1) (by omega)]
        exact update_of_ne hne.symm _ _
      have hread' : ReadFirst (dest + 1) (src + 1) len n := by
        intro i j hi hij hj
        rw [add_one_ofNat, add_one_ofNat]
        exact hread (i + 1) (j + 1) (by omega) (by omega) (by omega)
      rw [hfirst, if_neg hchar, ih hstr' hmem' hread']
      by_cases hlt : len < n
      · rw [if_pos hlt, if_pos (Nat.succ_lt_succ hlt), add_one_ofNat, Nat.add_sub_add_right]
        rfl
      · rw [if_neg hlt, if_neg (by omega), add_one_ofNat]
        rfl

theorem strncpy_eq (n : UInt32) (hstr : IsString m src len) (hread : ReadFirst dest src len n.toNat) :
    strncpy m dest src n = (dest, (Written.mk m []).storeAll dest
      (if len < n.toNat then bytesAt m src (len + 1) ++ List.replicate (n.toNat - (len + 1)) 0
      else bytesAt m src n.toNat ++ List.replicate (2 ^ 32 - 1) 0)) := by
  have hn := n.toNat_lt
  rw [strncpy, copyChars_eq n.toNat hstr (fun _ _ => rfl) hread]
  by_cases hlt : len < n.toNat
  · have hleft : (UInt32.ofNat (n.toNat - (len + 1))).toNat = n.toNat - (len + 1) :=
      UInt32.toNat_ofNat_of_lt' (Nat.lt_of_le_of_lt (Nat.sub_le _ _) hn)
    rw [if_pos hlt, if_pos hlt, storeAll_append, length_bytesAt]
    simp only [padZeros_eq, hleft]
  · rw [if_neg hlt, if_neg hlt, storeAll_append, length_bytesAt]
    simp only [padZeros_eq]
    rfl

/-! ## Strings that fit -/

theorem getElem?_padded {n i : Nat} (hstr : IsString m src len) (hlt : len < n) (hi : i < n) :
    (bytesAt m src (len + 1) ++ List.replicate (n - (len + 1)) 0)[i]? =
      some (if i < len then m (src + .ofNat i) else 0) := by
  by_cases hchar : i < len
  · rw [if_pos hchar, getElem?_append_left (by simpa using Nat.lt_succ_of_lt hchar),
      getElem?_bytesAt m src (by omega)]
  · rw [if_neg hchar]
    by_cases hnul : i = len
    · subst hnul
      rw [getElem?_append_left (by simp), getElem?_bytesAt m src (Nat.lt_succ_self _)]
      exact congrArg some hstr.nul
    · rw [getElem?_append_right (by simp; omega), getElem?_replicate, if_pos (by simp; omega)]

theorem copiedPadded_of_fits {n : UInt32} (hstr : IsString m src len) (hread : ReadFirst dest src len n.toNat)
    (hlt : len < n.toNat) : CopiedPadded m dest src len n.toNat (strncpy m dest src n) := by
  have hn := n.toNat_lt
  rw [strncpy_eq n hstr hread, if_pos hlt]
  have hlen : (bytesAt m src (len + 1) ++ List.replicate (n.toNat - (len + 1)) 0).length = n.toNat := by
    simp
    omega
  have hat : ∀ i, i < n.toNat → ((Written.mk m []).storeAll dest
      (bytesAt m src (len + 1) ++ List.replicate (n.toNat - (len + 1)) 0)).mem (dest + .ofNat i) =
        if i < len then m (src + .ofNat i) else 0 := by
    intro i hi
    have hi' : i < (bytesAt m src (len + 1) ++ List.replicate (n.toNat - (len + 1)) 0).length := hlen.symm ▸ hi
    rw [storeAll_at (by omega) hi']
    exact Option.some_inj.mp ((getElem?_eq_getElem hi').symm.trans (getElem?_padded hstr hlt hi))
  refine ⟨rfl, fun i hi hc => ?_, fun i hi hz => ?_, fun a ha => ?_, fun a => ?_⟩
  · rw [hat i hi, if_pos hc]
  · rw [hat i hi, if_neg (Nat.not_lt.mpr hz)]
  · exact storeAll_other fun i hi => ha i (hlen ▸ hi)
  · rw [mem_addrs_storeAll, hlen]
    simp

/-- The byte behind the range is the first that the padding writes. -/
theorem written_behind {n : UInt32} (hstr : IsString m src len) (hread : ReadFirst dest src len n.toNat)
    (hge : n.toNat ≤ len) : dest + .ofNat n.toNat ∈ (strncpy m dest src n).2.addrs := by
  rw [strncpy_eq n hstr hread, if_neg (Nat.not_lt.mpr hge), mem_addrs_storeAll]
  refine .inr ⟨n.toNat, ?_, rfl⟩
  rw [length_append, length_bytesAt, length_replicate]
  omega

theorem not_written {n : UInt32} {r : UInt32 × Written} (h : dest + .ofNat n.toNat ∈ r.2.addrs) :
    ¬CopiedPadded m dest src len n.toNat r := by
  intro hc
  obtain ⟨i, hi, he⟩ := (hc.written _).mp h
  have hn := n.toNat_lt
  exact absurd (add_ofNat_inj hn (by omega) he) (by omega)

/-- Exactly the strings with fewer than `n` characters are copied as they should be. -/
theorem strncpy_padded_iff {m : Memory} {dest src n : UInt32} {len : Nat} (hstr : IsString m src len)
    (hread : ReadFirst dest src len n.toNat) :
    CopiedPadded m dest src len n.toNat (strncpy m dest src n) ↔ len < n.toNat := by
  constructor
  · intro h
    by_contra hge
    exact not_written (written_behind hstr hread (Nat.not_lt.mp hge)) h
  · exact copiedPadded_of_fits hstr hread

/-- The bytes of a text at an address, and zero bytes around them. -/
def textAt (base : UInt32) (text : List UInt8) : Memory := fun a => text.getD (a - base).toNat 0

/-- The text of the kernel's own test. -/
def hello : List UInt8 := [104, 101, 108, 108, 111]

theorem hello_isString : IsString (textAt 0x1000 hello) 0x1000 5 := ⟨by decide, by decide⟩

theorem hello_readFirst {n : Nat} (hn : n ≤ 64) : ReadFirst 0x2000 0x1000 5 n := by
  intro i j hi _ hj he
  have hnat := congrArg UInt32.toNat he
  rw [toNat_add_ofNat, toNat_add_ofNat] at hnat
  have hd : (0x2000 : UInt32).toNat = 0x2000 := rfl
  have hs : (0x1000 : UInt32).toNat = 0x1000 := rfl
  omega

theorem strncpy_padded_hello : CopiedPadded (textAt 0x1000 hello) 0x2000 0x1000 5 10
    (strncpy (textAt 0x1000 hello) 0x2000 0x1000 10) :=
  (strncpy_padded_iff (n := 10) hello_isString (hello_readFirst (by decide))).mpr (by decide)

/-- Three characters of five: the padding goes on from the fourth byte. -/
theorem not_strncpy_padded : ¬CopiedPadded (textAt 0x1000 hello) 0x2000 0x1000 5 3
    (strncpy (textAt 0x1000 hello) 0x2000 0x1000 3) :=
  not_written (n := 3) (written_behind (n := 3) hello_isString (hello_readFirst (by decide)) (by decide))

end Serotonin.Mem
