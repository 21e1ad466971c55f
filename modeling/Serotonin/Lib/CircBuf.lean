import Mathlib.Data.List.Basic
import Mathlib.Data.Nat.ModEq
import Mathlib.Tactic.Common

/-! Circular buffers. A ring is an array with a position to read from, a position to
write to and a count; what it holds is the list of `dataLen` cells from the read
position on, wrapping round. Putting elements in, one cell after the other, appends
them to that list, and getting elements out takes them from its front. -/

structure CircBuf (α : Type*) where
  buf : Nat → α
  size : Nat
  readPos : Nat
  writePos : Nat
  dataLen : Nat

namespace CircBuf

open Function List

variable {α : Type*}

/-- `n` cells from `start` on. -/
def window (buf : Nat → α) (size start n : Nat) : List α :=
  (List.range n).map fun i => buf ((start + i) % size)

/-- What the ring holds, oldest first. -/
def contents (r : CircBuf α) : List α := window r.buf r.size r.readPos r.dataLen

structure Valid (r : CircBuf α) : Prop where
  size : 0 < r.size
  len : r.dataLen ≤ r.size
  write : r.writePos = (r.readPos + r.dataLen) % r.size

def store1 (r : CircBuf α) (x : α) : CircBuf α :=
  { r with buf := update r.buf r.writePos x, writePos := (r.writePos + 1) % r.size }

/-- The loop that stores elements one by one. -/
def store : List α → CircBuf α → CircBuf α
  | [], r => r
  | x :: xs, r => store xs (r.store1 x)

def put (r : CircBuf α) (xs : List α) : CircBuf α :=
  { store xs r with dataLen := r.dataLen + xs.length }

def advance (r : CircBuf α) : CircBuf α := { r with readPos := (r.readPos + 1) % r.size }

/-- The loop that fetches `n` elements. -/
def fetch : Nat → CircBuf α → List α × CircBuf α
  | 0, r => ([], r)
  | n + 1, r => (r.buf r.readPos :: (fetch n r.advance).1, (fetch n r.advance).2)

def get (r : CircBuf α) (n : Nat) : List α × CircBuf α :=
  ((fetch n r).1, { (fetch n r).2 with dataLen := r.dataLen - n })

@[simp] theorem window_length (buf : Nat → α) (size start n : Nat) :
    (window buf size start n).length = n := by simp [window]

@[simp] theorem contents_length (r : CircBuf α) : r.contents.length = r.dataLen := window_length ..

theorem contents_eq_nil {r : CircBuf α} (h : r.dataLen = 0) : r.contents = [] :=
  eq_nil_of_length_eq_zero ((contents_length r).trans h)

theorem window_snoc (buf : Nat → α) (size start n : Nat) :
    window buf size start (n + 1) = window buf size start n ++ [buf ((start + n) % size)] := by
  unfold window
  rw [range_succ, map_append]
  rfl

theorem window_cons (buf : Nat → α) (size start n : Nat) :
    window buf size start (n + 1) = buf (start % size) :: window buf size (start + 1) n := by
  unfold window
  rw [range_succ_eq_map, map_cons, map_map]
  congr 1
  refine map_congr_left fun i _ => ?_
  show buf ((start + (i + 1)) % size) = buf ((start + 1 + i) % size)
  rw [Nat.add_assoc, Nat.add_comm 1 i]

theorem window_mod (buf : Nat → α) (size start n : Nat) :
    window buf size (start % size) n = window buf size start n := by
  refine map_congr_left fun i _ => ?_
  rw [Nat.mod_add_mod]

/-- Distinct offsets of less than one round are distinct cells. -/
theorem index_ne {size start i n : Nat} (hi : i < n) (hn : n < size) :
    (start + i) % size ≠ (start + n) % size := by
  intro h
  have hmod : i ≡ n [MOD size] := Nat.ModEq.add_left_cancel' start h
  exact Nat.ne_of_lt hi (Nat.ModEq.eq_of_lt_of_lt hmod (Nat.lt_trans hi hn) hn)

/-- The cell behind the window is not part of it. -/
theorem window_update {buf : Nat → α} {size start n : Nat} (hn : n < size) (x : α) :
    window (update buf ((start + n) % size) x) size start n = window buf size start n := by
  refine map_congr_left fun i hi => ?_
  rw [update_of_ne (index_ne (mem_range.mp hi) hn)]

theorem store_fields (xs : List α) : ∀ r : CircBuf α, (store xs r).size = r.size ∧
    (store xs r).readPos = r.readPos ∧ (store xs r).dataLen = r.dataLen := by
  induction xs with
  | nil => intro r; exact ⟨rfl, rfl, rfl⟩
  | cons x xs ih => intro r; exact ih _

/-- Storing behind a window of `n` cells. -/
theorem store_window (xs : List α) : ∀ {r : CircBuf α} {n : Nat}, 0 < r.size →
    r.writePos = (r.readPos + n) % r.size → n + xs.length ≤ r.size →
    window (store xs r).buf r.size r.readPos (n + xs.length) =
      window r.buf r.size r.readPos n ++ xs ∧
    (store xs r).writePos = (r.readPos + (n + xs.length)) % r.size := by
  induction xs with
  | nil =>
    intro r n _ hw _
    exact ⟨(append_nil _).symm, hw⟩
  | cons x xs ih =>
    intro r n hs hw hlen
    rw [length_cons] at hlen ⊢
    have hlen' : n + 1 + xs.length ≤ r.size := by omega
    have hw' : (r.writePos + 1) % r.size = (r.readPos + (n + 1)) % r.size := by
      rw [hw, Nat.mod_add_mod, Nat.add_assoc]
    obtain ⟨h1, h2⟩ := @ih (r.store1 x) (n + 1) hs hw' hlen'
    rw [Nat.add_assoc, Nat.add_comm 1 xs.length] at h1 h2
    refine ⟨h1.trans ?_, h2⟩
    show window (update r.buf r.writePos x) r.size r.readPos (n + 1) ++ xs = _
    rw [window_snoc, hw, window_update (by omega) x, update_self, append_assoc]
    rfl

/-- Elements put in are behind those that are there. -/
theorem contents_put {r : CircBuf α} (h : r.Valid) {xs : List α} (hlen : r.dataLen + xs.length ≤ r.size) :
    (r.put xs).contents = r.contents ++ xs ∧ (r.put xs).Valid := by
  obtain ⟨hs, hr, _⟩ := store_fields xs r
  obtain ⟨h1, h2⟩ := store_window xs h.size h.write hlen
  refine ⟨?_, ?_, ?_, ?_⟩
  · show window (store xs r).buf (store xs r).size (store xs r).readPos (r.dataLen + xs.length) = _
    rw [hs, hr]
    exact h1
  · show 0 < (store xs r).size
    rw [hs]
    exact h.size
  · show r.dataLen + xs.length ≤ (store xs r).size
    rw [hs]
    exact hlen
  · show (store xs r).writePos = ((store xs r).readPos + (r.dataLen + xs.length)) % (store xs r).size
    rw [hs, hr]
    exact h2

theorem fetch_fields : ∀ (n : Nat) (r : CircBuf α), (fetch n r).2.buf = r.buf ∧
    (fetch n r).2.size = r.size ∧ (fetch n r).2.writePos = r.writePos
  | 0, _ => ⟨rfl, rfl, rfl⟩
  | n + 1, r => fetch_fields n r.advance

theorem fetch_window : ∀ (n : Nat) {r : CircBuf α}, r.readPos < r.size →
    (fetch n r).1 = window r.buf r.size r.readPos n ∧
    (fetch n r).2.readPos = (r.readPos + n) % r.size
  | 0, r, h => ⟨rfl, (Nat.mod_eq_of_lt h).symm⟩
  | n + 1, r, h => by
    have hlt : (r.readPos + 1) % r.size < r.size := Nat.mod_lt _ (Nat.lt_of_le_of_lt (Nat.zero_le _) h)
    obtain ⟨h1, h2⟩ := @fetch_window n r.advance hlt
    refine ⟨?_, ?_⟩
    · rw [window_cons, Nat.mod_eq_of_lt h, ← window_mod r.buf r.size (r.readPos + 1) n]
      exact congrArg (r.buf r.readPos :: ·) h1
    · refine h2.trans ?_
      show ((r.readPos + 1) % r.size + n) % r.size = _
      rw [Nat.mod_add_mod, Nat.add_assoc, Nat.add_comm 1 n]

@[simp] theorem fetch_length : ∀ (n : Nat) (r : CircBuf α), (fetch n r).1.length = n
  | 0, _ => rfl
  | n + 1, r => congrArg Nat.succ (fetch_length n r.advance)

theorem window_split (buf : Nat → α) (size start n : Nat) : ∀ k, window buf size start (n + k) =
    window buf size start n ++ window buf size (start + n) k
  | 0 => (append_nil _).symm
  | k + 1 => by
    rw [← Nat.add_assoc, window_snoc, window_split buf size start n k, append_assoc, window_snoc,
      Nat.add_assoc]

/-- Elements got out come from the front. -/
theorem contents_get {r : CircBuf α} (h : r.Valid) (hr : r.readPos < r.size) {n : Nat}
    (hn : n ≤ r.dataLen) : r.contents = (r.get n).1 ++ (r.get n).2.contents ∧ (r.get n).2.Valid ∧
      (r.get n).2.readPos < r.size := by
  obtain ⟨hb, hs, hw⟩ := fetch_fields n r
  obtain ⟨h1, h2⟩ := fetch_window n hr
  have hlen : r.dataLen = n + (r.dataLen - n) := by omega
  refine ⟨?_, ⟨?_, ?_, ?_⟩, ?_⟩
  · show _ = (fetch n r).1 ++ window (fetch n r).2.buf (fetch n r).2.size (fetch n r).2.readPos
      (r.dataLen - n)
    rw [hb, hs, h1, h2, window_mod, ← window_split, ← hlen]
    rfl
  · show 0 < (fetch n r).2.size
    rw [hs]
    exact h.size
  · show r.dataLen - n ≤ (fetch n r).2.size
    rw [hs]
    exact Nat.le_trans (Nat.sub_le _ _) h.len
  · show (fetch n r).2.writePos = ((fetch n r).2.readPos + (r.dataLen - n)) % (fetch n r).2.size
    rw [hw, hs, h2, Nat.mod_add_mod, Nat.add_assoc, ← hlen]
    exact h.write
  · show (fetch n r).2.readPos < r.size
    rw [h2]
    exact Nat.mod_lt _ h.size

end CircBuf
