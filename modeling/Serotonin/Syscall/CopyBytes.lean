import Serotonin.Syscall.UserCopy
import Mathlib.Data.List.GetD

/-! Which bytes a copy between the kernel and user memory moves: those of the range, one after the
other, and no others. -/

namespace Serotonin.Syscall

open List
open ByteMem (Mem u32 store8)

/-- Where the page map puts a user address. -/
def physAt (sp : Space) (a : Nat) : Nat := getMapping sp a + a % pageSize

/-- The bytes stored at user addresses from `a` on, in order. -/
def storeAt (sp : Space) (m : Mem) (a : Nat) : List UInt8 → Mem
  | [] => m
  | b :: bytes => storeAt sp (store8 m (physAt sp a) b) (a + 1) bytes

/-- The bytes at user addresses from `a` on. -/
def bytesAt (sp : Space) (m : Mem) (a len : Nat) : List UInt8 := (List.range len).map fun i => m (physAt sp (a + i))

variable {sp : Space} {m : Mem} {a len : Nat}

theorem storeAt_append (bs cs : List UInt8) : ∀ (m : Mem) (a : Nat),
    storeAt sp m a (bs ++ cs) = storeAt sp (storeAt sp m a bs) (a + bs.length) cs := by
  induction bs with
  | nil => exact fun m a => rfl
  | cons b bs ih =>
    intro m a
    show storeAt sp (store8 m (physAt sp a) b) (a + 1) (bs ++ cs) = _
    rw [ih, length_cons, Nat.add_assoc, Nat.add_comm 1]
    rfl

/-- Nothing changes elsewhere. -/
theorem storeAt_other : ∀ {bs : List UInt8} {m : Mem} {a x : Nat}, (∀ i, i < bs.length → x ≠ physAt sp (a + i)) →
    storeAt sp m a bs x = m x
  | [], _, _, _, _ => rfl
  | b :: bs, m, a, x, h => by
    have h0 : x ≠ physAt sp a := h 0 (Nat.succ_pos _)
    have htail : ∀ i, i < bs.length → x ≠ physAt sp (a + 1 + i) := fun i hi => by
      rw [Nat.add_assoc, Nat.add_comm 1]
      exact h (i + 1) (Nat.succ_lt_succ hi)
    show storeAt sp (store8 m (physAt sp a) b) (a + 1) bs x = m x
    rw [storeAt_other htail]
    exact if_neg h0

/-- No two addresses of the range are the same byte. -/
def Separate (sp : Space) (a len : Nat) : Prop :=
  ∀ i j, i < len → j < len → physAt sp (a + i) = physAt sp (a + j) → i = j

theorem Separate.tail {n : Nat} (h : Separate sp a (n + 1)) : Separate sp (a + 1) n := by
  intro i j hi hj he
  rw [Nat.add_assoc, Nat.add_comm 1, Nat.add_assoc, Nat.add_comm 1] at he
  exact Nat.succ.inj (h (i + 1) (j + 1) (Nat.succ_lt_succ hi) (Nat.succ_lt_succ hj) he)

/-- What was stored is there, when no two addresses are the same byte. -/
theorem storeAt_get : ∀ {bs : List UInt8} {m : Mem} {a i : Nat}, Separate sp a bs.length → i < bs.length →
    storeAt sp m a bs (physAt sp (a + i)) = bs.getD i 0
  | [], _, _, _, _, hi => absurd hi (Nat.not_lt_zero _)
  | b :: bs, m, a, 0, h, _ => by
    show storeAt sp (store8 m (physAt sp a) b) (a + 1) bs (physAt sp a) = b
    rw [storeAt_other fun i hi he => ?_]
    · exact if_pos rfl
    · rw [Nat.add_assoc, Nat.add_comm 1] at he
      exact absurd (h 0 (i + 1) (Nat.succ_pos _) (Nat.succ_lt_succ hi) he) (Nat.succ_ne_zero i).symm
  | b :: bs, m, a, i + 1, h, hi => by
    show storeAt sp (store8 m (physAt sp a) b) (a + 1) bs (physAt sp (a + (i + 1))) = bs.getD i 0
    rw [← storeAt_get (m := store8 m (physAt sp a) b) h.tail (Nat.lt_of_succ_lt_succ hi), Nat.add_assoc, Nat.add_comm 1]

theorem bytesAt_storeAt {bs : List UInt8} (h : Separate sp a bs.length) :
    bytesAt sp (storeAt sp m a bs) a bs.length = bs := by
  refine ext_getElem (by simp [bytesAt]) fun i hi hi' => ?_
  have hget := storeAt_get (m := m) h hi'
  rw [getD_eq_getElem _ _ hi'] at hget
  simpa [bytesAt] using hget

/-! ## One page -/

theorem physAt_add {i : Nat} (hi : a % pageSize + i < pageSize) : physAt sp (a + i) = physAt sp a + i := by
  have hpage : (a + i) / pageSize = a / pageSize := by
    unfold pageSize at *
    omega
  have hoff : (a + i) % pageSize = a % pageSize + i := by
    unfold pageSize at *
    omega
  unfold physAt getMapping
  rw [hpage, hoff, Nat.add_assoc]

/-- What is copied within a page lies in one piece. -/
theorem storeAt_page {bs : List UInt8} (h : a % pageSize + bs.length ≤ pageSize) :
    storeAt sp m a bs = ByteMem.blit m (physAt sp a) (fun i => bs.getD i 0) 0 bs.length := by
  have hadd : ∀ i, i < bs.length → physAt sp (a + i) = physAt sp a + i := fun i hi => physAt_add (by omega)
  funext x
  show _ = if _ then _ else _
  split
  · next hx =>
    have hi : x - physAt sp a < bs.length := by omega
    have hsep : Separate sp a bs.length := fun i j hi hj he => by
      rw [hadd i hi, hadd j hj] at he
      omega
    have hget := storeAt_get (m := m) hsep hi
    rw [hadd _ hi, Nat.add_sub_cancel' hx.1] at hget
    rw [hget, Nat.zero_add]
  · next hx =>
    refine storeAt_other fun i hi he => hx ?_
    rw [hadd i hi] at he
    omega

theorem getMapping_of_page {p : Page} (hp : sp.page (a / pageSize) = some p) : getMapping sp a = p.frame := by
  unfold getMapping
  rw [hp]

theorem write_mem {s : Machine} {p : Page} {bs : List UInt8} (hp : sp.page (a / pageSize) = some p)
    (h : a % pageSize + bs.length ≤ pageSize) : (s.write p a bs).mem = storeAt sp s.mem a bs := by
  rw [storeAt_page h]
  unfold physAt
  rw [getMapping_of_page hp]
  rfl

/-! ## Whole copies -/

/-- What a copy to user memory did: the first `n` bytes, which are all where it returns 0. -/
structure CopiedTo (sp : Space) (dst : Nat) (src : List UInt8) (m m' : Mem) (ok : Bool) : Prop where
  ok_iff : ok = true ↔ Copyable sp dst src.length
  mem : ∃ n, n ≤ src.length ∧ (ok = true → n = src.length) ∧ Copyable sp dst n ∧ m' = storeAt sp m dst (src.take n)

theorem copyable_zero : Copyable sp a 0 := fun i hi => absurd hi (Nat.not_lt_zero i)

theorem copyToUserLoop_mem (sp : Space) (n : Nat) : ∀ (dst : Nat) (src : List UInt8) (s : Machine), src.length ≤ n →
    userSpaceStart ≤ dst → dst + src.length - 1 ≤ userSpaceEnd → ∃ ok s', copyToUserLoop sp n dst src s = (ok, s') ∧
      ∃ k, k ≤ src.length ∧ (ok = true → k = src.length) ∧ Copyable sp dst k ∧ s'.mem = storeAt sp s.mem dst (src.take k) := by
  induction n with
  | zero =>
    intro dst src s hn _ _
    obtain rfl := length_eq_zero_iff.mp (Nat.le_zero.mp hn)
    exact ⟨true, s, rfl, 0, Nat.le_refl _, fun _ => rfl, copyable_zero, rfl⟩
  | succ n ih =>
    intro dst src s hn hlo hhi
    rw [copyToUserLoop]
    by_cases hsrc : src = []
    · subst hsrc
      exact ⟨true, s, rfl, 0, Nat.le_refl _, fun _ => rfl, copyable_zero, rfl⟩
    rw [if_neg hsrc]
    have hpos : 0 < src.length := length_pos_iff.mpr hsrc
    cases hp : sp.page (dst / pageSize) with
    | none => exact ⟨false, s.refuse, rfl, 0, Nat.zero_le _, fun h => absurd h Bool.false_ne_true, copyable_zero, rfl⟩
    | some p =>
      have hframe := (page_user hp hlo (by omega)).2
      dsimp only
      rw [if_neg hframe]
      generalize hc : min (pageSize - dst % pageSize) src.length = chunk
      have hchunk : 0 < chunk ∧ chunk ≤ src.length ∧ dst % pageSize + chunk ≤ pageSize := by
        unfold pageSize at *
        omega
      have htake : (src.take chunk).length = chunk := length_take_of_le hchunk.2.1
      obtain ⟨ok, s', heq, k, hk, hall, hcopy, hmem⟩ := ih (dst + chunk) (src.drop chunk) (s.write p dst (src.take chunk))
        (by rw [length_drop]; omega) (by omega) (by rw [length_drop]; omega)
      rw [length_drop] at hk hall
      rw [heq]
      refine ⟨ok, s', rfl, chunk + k, by omega, fun h => by have := hall h; omega, copyable_add.mpr ⟨?_, hcopy⟩, ?_⟩
      · intro i hi
        have hpage : (dst + i) / pageSize = dst / pageSize := by
          unfold pageSize at *
          omega
        rw [hpage, hp]
        exact ⟨by omega, by omega, rfl⟩
      · rw [hmem, write_mem hp (by omega), take_add, storeAt_append, htake]

theorem copyToUser_mem (sp : Space) (dst : Nat) {src : List UInt8} (hlen : src.length < 2 ^ 32) (s : Machine) :
    ∃ ok s', copyToUser sp dst src s = some (ok, s') ∧ CopiedTo sp dst src s.mem s'.mem ok := by
  obtain ⟨ok, s', heq, -, -, hiff, -⟩ := copyToUser_spec sp dst src s
  rw [ByteMem.u32_of_lt hlen] at hiff
  refine ⟨ok, s', heq, hiff, ?_⟩
  unfold copyToUser at heq
  simp only [ByteMem.u32_of_lt hlen] at heq
  split at heq
  · next h0 =>
    obtain ⟨rfl, rfl⟩ := Prod.mk.inj (Option.some.inj heq)
    obtain rfl := length_eq_zero_iff.mp h0
    exact ⟨0, Nat.le_refl _, fun _ => rfl, copyable_zero, rfl⟩
  next h0 =>
  split at heq
  · next hr =>
    obtain ⟨hlo, hhi⟩ := (inUserSpace_iff h0 hlen).mp hr
    obtain ⟨ok', t, ht, hmem⟩ := copyToUserLoop_mem sp src.length dst src s (Nat.le_refl _) hlo hhi
    rw [take_length, ht] at heq
    obtain ⟨rfl, rfl⟩ := Prod.mk.inj (Option.some.inj heq)
    exact hmem
  · obtain ⟨rfl, rfl⟩ := Prod.mk.inj (Option.some.inj heq)
    exact ⟨0, Nat.zero_le _, fun h => absurd h Bool.false_ne_true, copyable_zero, rfl⟩

theorem bytesAt_add (k l : Nat) : bytesAt sp m a (k + l) = bytesAt sp m a k ++ bytesAt sp m (a + k) l := by
  unfold bytesAt
  rw [range_add, map_append, map_map]
  congr 1
  exact map_congr_left fun i _ => by
    show m (physAt sp (a + (k + i))) = _
    rw [Nat.add_assoc]

theorem copyFromUserLoop_bytes (sp : Space) (m : Mem) (n : Nat) : ∀ (src len : Nat) (bytes : List UInt8), len ≤ n →
    copyFromUserLoop sp m n src len = some bytes → bytes = bytesAt sp m src len := by
  induction n with
  | zero =>
    intro src len bytes hn h
    cases h
    rw [Nat.le_zero.mp hn]
    rfl
  | succ n ih =>
    intro src len bytes hn h
    rw [copyFromUserLoop] at h
    split at h
    · next h0 =>
      cases h
      rw [h0]
      rfl
    split at h
    · cases h
    obtain ⟨rest, hrest, rfl⟩ := Option.map_eq_some_iff.mp h
    generalize hc : min (pageSize - src % pageSize) len = chunk at hrest ⊢
    have hchunk : 0 < chunk ∧ chunk ≤ len ∧ src % pageSize + chunk ≤ pageSize := by
      unfold pageSize at *
      omega
    obtain rfl := ih _ _ rest (by omega) hrest
    have hsplit := @bytesAt_add sp m src chunk (len - chunk)
    rw [Nat.add_sub_cancel' hchunk.2.1] at hsplit
    rw [hsplit]
    congr 1
    refine map_congr_left fun i hi => ?_
    have hi := mem_range.mp hi
    show _ = m (physAt sp (src + i))
    rw [physAt_add (by omega)]
    rfl

theorem copyFromUser_bytes (sp : Space) (src : Nat) (hlen : len < 2 ^ 32) (s : Machine) : ∃ r,
    copyFromUser sp src len s = some (r, s) ∧ (Copyable sp src len → r = some (bytesAt sp s.mem src len)) ∧
      (¬Copyable sp src len → r = none) := by
  obtain ⟨r, heq, hiff, -⟩ := copyFromUser_spec sp src len hlen s
  refine ⟨r, heq, fun hcopy => ?_, fun hcopy => ?_⟩
  · obtain ⟨bytes, rfl⟩ := Option.isSome_iff_exists.mp (hiff.mpr hcopy)
    unfold copyFromUser at heq
    split at heq
    · next h0 =>
      cases heq
      rw [h0]
      rfl
    split at heq
    · have hbytes := (Prod.mk.inj (Option.some.inj heq)).1
      rw [copyFromUserLoop_bytes sp s.mem len src len bytes (Nat.le_refl _) hbytes]
    · cases heq
  · cases r with
    | none => rfl
    | some bytes => exact absurd (hiff.mp rfl) hcopy

/-- The pages of the range lie in frames, and no two of them in the same one. -/
structure DistinctFrames (sp : Space) (a len : Nat) : Prop where
  aligned : ∀ i < len, getMapping sp (a + i) % pageSize = 0
  distinct : ∀ i < len, ∀ j < len, getMapping sp (a + i) = getMapping sp (a + j) → (a + i) / pageSize = (a + j) / pageSize

theorem DistinctFrames.separate (h : DistinctFrames sp a len) : Separate sp a len := by
  intro i j hi hj he
  have hai := h.aligned i hi
  have haj := h.aligned j hj
  unfold physAt at he
  have hframe : getMapping sp (a + i) = getMapping sp (a + j) := by
    unfold pageSize at *
    omega
  have hpage := h.distinct i hi j hj hframe
  rw [hframe] at he
  unfold pageSize at *
  omega

/-- A copy to user memory stores the bytes of the range in order, all of them where it returns 0, and it
returns 0 just when the range is in user space and mapped; a copy from user memory gives these bytes;
and what was copied to distinct frames is read back. -/
theorem user_copies (sp : Space) (a : Nat) {src : List UInt8} (hlen : src.length < 2 ^ 32) (s : Machine) :
    (∃ ok s', copyToUser sp a src s = some (ok, s') ∧ CopiedTo sp a src s.mem s'.mem ok ∧
      (∀ x, (∀ i < src.length, x ≠ physAt sp (a + i)) → s'.mem x = s.mem x) ∧
      (ok = true → DistinctFrames sp a src.length → copyFromUser sp a src.length s' = some (some src, s'))) ∧
    ∃ r, copyFromUser sp a src.length s = some (r, s) ∧
      (Copyable sp a src.length → r = some (bytesAt sp s.mem a src.length)) ∧ (¬Copyable sp a src.length → r = none) := by
  refine ⟨?_, copyFromUser_bytes sp a hlen s⟩
  obtain ⟨ok, s', heq, hcopied⟩ := copyToUser_mem sp a hlen s
  obtain ⟨n, hn, hall, -, hmem⟩ := hcopied.mem
  refine ⟨ok, s', heq, hcopied, fun x hx => ?_, fun hok hframes => ?_⟩
  · rw [hmem]
    refine storeAt_other fun i hi => hx i ?_
    rw [List.length_take] at hi
    omega
  · obtain ⟨r, hr, hsome, -⟩ := copyFromUser_bytes sp a hlen s'
    rw [hr, hsome (hcopied.ok_iff.mp hok), hmem, hall hok, List.take_length, bytesAt_storeAt hframes.separate]

/-- Two pages that are neighbours, in frames that are not. -/
def twoPages : Space where
  page n := if n = 0x401 then some ⟨0x700000, true⟩ else if n = 0x402 then some ⟨0x500000, true⟩ else none
  user_of_range := by
    intro n p hp _ _
    split at hp
    · cases hp
      decide
    · split at hp
      · cases hp
        decide
      · cases hp

/-- Three bytes across a page boundary are read back. -/
theorem user_copies_across : ∃ s', copyToUser twoPages 0x401FFE [1, 2, 3] ⟨fun _ => 0, [], false⟩ = some (true, s') ∧
    copyFromUser twoPages 0x401FFE 3 s' = some (some [1, 2, 3], s') := by
  have h := user_copies twoPages 0x401FFE (by decide : ([1, 2, 3] : List UInt8).length < 2 ^ 32) ⟨fun _ => 0, [], false⟩
  obtain ⟨⟨ok, s', heq, hcopied, -, hback⟩, -⟩ := h
  have hok : ok = true := hcopied.ok_iff.mpr <| by
    unfold Copyable
    decide
  have hframes : DistinctFrames twoPages 0x401FFE 3 := ⟨by decide, by decide⟩
  subst hok
  exact ⟨s', heq, hback rfl hframes⟩

end Serotonin.Syscall
