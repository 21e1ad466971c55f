import Serotonin.Lib.ByteMem

/-! Registers of 128 bits, and the operations on their lanes. A register is the list of its
sixteen bytes, lowest first; an operation on lanes of two or four bytes takes the bytes
together and puts the results back. -/

namespace Sse

open List
open ByteMem (Mem)

abbrev M128 := List Nat

/-- The lanes of sixteen bits. -/
def words : M128 → List Nat
  | lo :: hi :: rest => (lo + 256 * hi) :: words rest
  | _ => []

def ofWords (ws : List Nat) : M128 := ws.flatMap fun w => [w % 256, w / 256 % 256]

/-- The lanes of thirty-two bits. -/
def dwords : M128 → List Nat
  | a :: b :: c :: d :: rest => (a + 256 * b + 65536 * c + 16777216 * d) :: dwords rest
  | _ => []

def ofDwords (ds : List Nat) : M128 :=
  ds.flatMap fun d => [d % 256, d / 256 % 256, d / 65536 % 256, d / 16777216 % 256]

def interleave : List Nat → List Nat → List Nat
  | a :: as, b :: bs => a :: b :: interleave as bs
  | _, _ => []

def setzero : M128 := List.replicate 16 0

def set1Epi16 (x : Nat) : M128 := ofWords (List.replicate 8 x)

def set1Epi32 (x : Nat) : M128 := ofDwords (List.replicate 4 x)

def srliEpi32 (v : M128) (n : Nat) : M128 := ofDwords ((dwords v).map (· / 2 ^ n))

def addEpi32 (v w : M128) : M128 := ofDwords (List.zipWith (fun x y => (x + y) % 2 ^ 32) (dwords v) (dwords w))

/-- All bits of a lane are set where the lanes are the same. -/
def cmpeqEpi32 (v w : M128) : M128 :=
  ofDwords (List.zipWith (fun x y => if x = y then 2 ^ 32 - 1 else 0) (dwords v) (dwords w))

/-- The highest bit of each byte. -/
def movemaskEpi8 : M128 → Nat
  | [] => 0
  | b :: bs => b / 128 + 2 * movemaskEpi8 bs

def subEpi16 (v w : M128) : M128 := ofWords (List.zipWith (fun x y => (x + 2 ^ 16 - y) % 2 ^ 16) (words v) (words w))

def mulloEpi16 (v w : M128) : M128 := ofWords (List.zipWith (fun x y => x * y % 2 ^ 16) (words v) (words w))

def unpackloEpi8 (v w : M128) : M128 := interleave (v.take 8) (w.take 8)

def unpackhiEpi8 (v w : M128) : M128 := interleave (v.drop 8) (w.drop 8)

def unpackloEpi16 (v w : M128) : M128 := ofWords (interleave ((words v).take 4) ((words w).take 4))

def unpackhiEpi16 (v w : M128) : M128 := ofWords (interleave ((words v).drop 4) ((words w).drop 4))

/-- Two bits of `imm` choose the lane for each of four. -/
def shuffle4 (ws : List Nat) (imm : Nat) : List Nat :=
  [imm % 4, imm / 4 % 4, imm / 16 % 4, imm / 64 % 4].map fun i => ws.getD i 0

def shuffleloEpi16 (v : M128) (imm : Nat) : M128 :=
  ofWords (shuffle4 ((words v).take 4) imm ++ (words v).drop 4)

def shufflehiEpi16 (v : M128) (imm : Nat) : M128 :=
  ofWords ((words v).take 4 ++ shuffle4 ((words v).drop 4) imm)

/-- From a signed lane of 32 bits to a signed one of 16. -/
def saturate16 (x : Nat) : Nat :=
  if x < 2 ^ 31 then min x (2 ^ 15 - 1)
  else if x < 2 ^ 32 - 2 ^ 15 then 2 ^ 15 else x % 2 ^ 16

/-- From a signed lane of 16 bits to an unsigned byte. -/
def saturate8 (x : Nat) : Nat := if x < 2 ^ 15 then min x 255 else 0

def packsEpi32 (v w : M128) : M128 := ofWords ((dwords v ++ dwords w).map saturate16)

def packusEpi16 (v w : M128) : M128 := (words v ++ words w).map saturate8

/-- Sixteen bytes from an address on. -/
def load (m : Mem) (a : Nat) : M128 := (List.range 16).map fun i => (m (a + i)).toNat

def store (m : Mem) (a : Nat) (v : M128) : Mem := fun x =>
  if a ≤ x ∧ x < a + 16 then UInt8.ofNat (v.getD (x - a) 0) else m x

/-! ## Lanes put together and taken apart -/

theorem words_ofWords (ws : List Nat) (h : ∀ w ∈ ws, w < 2 ^ 16) : words (ofWords ws) = ws := by
  induction ws with
  | nil => rfl
  | cons w ws ih =>
    have hw := h w mem_cons_self
    have hlane : w % 256 + 256 * (w / 256 % 256) = w := by omega
    show (w % 256 + 256 * (w / 256 % 256)) :: words (ofWords ws) = _
    rw [hlane, ih fun x hx => h x (mem_cons_of_mem _ hx)]

theorem dwords_ofDwords (ds : List Nat) (h : ∀ d ∈ ds, d < 2 ^ 32) : dwords (ofDwords ds) = ds := by
  induction ds with
  | nil => rfl
  | cons d ds ih =>
    have hd := h d mem_cons_self
    have hlane : d % 256 + 256 * (d / 256 % 256) + 65536 * (d / 65536 % 256) + 16777216 * (d / 16777216 % 256) = d := by
      omega
    show (_ + _ + _ + _) :: dwords (ofDwords ds) = _
    rw [hlane, ih fun x hx => h x (mem_cons_of_mem _ hx)]

/-- Lanes of sixteen bits that are widened with zeros. -/
theorem dwords_ofWords_interleave (ws : List Nat) (h : ∀ w ∈ ws, w < 2 ^ 16) :
    dwords (ofWords (interleave ws (List.replicate ws.length 0))) = ws := by
  induction ws with
  | nil => rfl
  | cons w ws ih =>
    have hw := h w mem_cons_self
    have hlane : w % 256 + 256 * (w / 256 % 256) + 65536 * (0 % 256) + 16777216 * (0 / 256 % 256) = w := by omega
    show (_ + _ + _ + _) :: dwords (ofWords (interleave ws (List.replicate ws.length 0))) = _
    rw [hlane, ih fun x hx => h x (mem_cons_of_mem _ hx)]

/-! ## Operations as functions of the lane -/

/-- The lane `i` of sixteen bits is `f i`, a number of sixteen bits. -/
structure Words (v : M128) (f : Nat → Nat) : Prop where
  words : words v = (List.range 8).map f
  lt : ∀ i, f i < 2 ^ 16

/-- The lane `i` of thirty-two bits is `f i`. -/
structure Dwords (v : M128) (f : Nat → Nat) : Prop where
  dwords : dwords v = (List.range 4).map f
  lt : ∀ i, f i < 2 ^ 32

variable {v w : M128} {f g : Nat → Nat}

theorem zipWith_range (op : Nat → Nat → Nat) (f g : Nat → Nat) (n : Nat) :
    List.zipWith op ((List.range n).map f) ((List.range n).map g) = (List.range n).map fun i => op (f i) (g i) := by
  rw [zipWith_map, zipWith_self]

theorem words_of_range {ws : List Nat} (hw : ws = (List.range 8).map f) (h : ∀ i, f i < 2 ^ 16) :
    Words (ofWords ws) f := by
  refine ⟨?_, h⟩
  rw [hw, words_ofWords]
  intro x hx
  obtain ⟨i, _, rfl⟩ := mem_map.mp hx
  exact h i

theorem dwords_of_range {ds : List Nat} (hd : ds = (List.range 4).map f) (h : ∀ i, f i < 2 ^ 32) :
    Dwords (ofDwords ds) f := by
  refine ⟨?_, h⟩
  rw [hd, dwords_ofDwords]
  intro x hx
  obtain ⟨i, _, rfl⟩ := mem_map.mp hx
  exact h i

theorem Words.congr (hv : Words v f) (h : ∀ i < 8, f i = g i) (hg : ∀ i, g i < 2 ^ 16) : Words v g := by
  refine ⟨?_, hg⟩
  rw [hv.words]
  exact map_congr_left fun i hi => h i (mem_range.mp hi)

theorem Words.mullo (hv : Words v f) (hw : Words w g) (h : ∀ i, f i * g i < 2 ^ 16) :
    Words (mulloEpi16 v w) fun i => f i * g i := by
  refine words_of_range ?_ h
  rw [hv.words, hw.words, zipWith_range]
  exact map_congr_left fun i _ => Nat.mod_eq_of_lt (h i)

theorem Words.sub (hv : Words v f) (hw : Words w g) (h : ∀ i, g i ≤ f i) : Words (subEpi16 v w) fun i => f i - g i := by
  have hlt : ∀ i, f i - g i < 2 ^ 16 := fun i => Nat.lt_of_le_of_lt (Nat.sub_le _ _) (hv.lt i)
  refine words_of_range ?_ hlt
  rw [hv.words, hw.words, zipWith_range]
  refine map_congr_left fun i _ => ?_
  have hle := h i
  have hf := hv.lt i
  omega

theorem Dwords.add (hv : Dwords v f) (hw : Dwords w g) (h : ∀ i, f i + g i < 2 ^ 32) :
    Dwords (addEpi32 v w) fun i => f i + g i := by
  refine dwords_of_range ?_ h
  rw [hv.dwords, hw.dwords, zipWith_range]
  exact map_congr_left fun i _ => Nat.mod_eq_of_lt (h i)

theorem Dwords.srli (hv : Dwords v f) (n : Nat) : Dwords (srliEpi32 v n) fun i => f i / 2 ^ n := by
  refine dwords_of_range ?_ fun i => Nat.lt_of_le_of_lt (Nat.div_le_self _ _) (hv.lt i)
  rw [hv.dwords, map_map]
  rfl

theorem Words.unpacklo (hv : Words v f) : Dwords (unpackloEpi16 v setzero) f := by
  refine ⟨?_, fun i => Nat.lt_trans (hv.lt i) (by simp)⟩
  have htake : (Sse.words v).take 4 = (List.range 4).map f := by
    rw [hv.words]
    rfl
  unfold unpackloEpi16
  rw [htake]
  refine dwords_ofWords_interleave ((List.range 4).map f) fun x hx => ?_
  obtain ⟨i, _, rfl⟩ := mem_map.mp hx
  exact hv.lt i

theorem Words.unpackhi (hv : Words v f) : Dwords (unpackhiEpi16 v setzero) fun i => f (4 + i) := by
  refine ⟨?_, fun i => Nat.lt_trans (hv.lt _) (by simp)⟩
  have hdrop : (Sse.words v).drop 4 = (List.range 4).map fun i => f (4 + i) := by
    rw [hv.words]
    rfl
  unfold unpackhiEpi16
  rw [hdrop]
  refine dwords_ofWords_interleave ((List.range 4).map fun i => f (4 + i)) fun x hx => ?_
  obtain ⟨i, _, rfl⟩ := mem_map.mp hx
  exact hv.lt _

/-- Lanes that need no saturation. -/
theorem Dwords.packs (hv : Dwords v f) (hw : Dwords w fun i => f (4 + i)) (h : ∀ i, f i < 2 ^ 15) :
    Words (packsEpi32 v w) f := by
  refine words_of_range ?_ fun i => Nat.lt_trans (h i) (by simp)
  have hsat : ∀ i, saturate16 (f i) = f i := by
    intro i
    have hi := h i
    unfold saturate16
    rw [if_pos (by omega)]
    omega
  rw [hv.dwords, hw.dwords, map_append, map_map, map_map]
  simp only [Function.comp_def, hsat]
  rfl

theorem Words.packus (hv : Words v f) (hw : Words w fun i => f (8 + i)) (h : ∀ i, f i < 256) :
    packusEpi16 v w = (List.range 16).map f := by
  have hsat : ∀ i, saturate8 (f i) = f i := by
    intro i
    have hi := h i
    unfold saturate8
    rw [if_pos (by omega)]
    omega
  unfold packusEpi16
  rw [hv.words, hw.words, map_append, map_map, map_map]
  simp only [Function.comp_def, hsat]
  rfl

/-! ## Bytes -/

/-- The byte `i` is `f i`. -/
structure Bytes (v : M128) (f : Nat → Nat) : Prop where
  bytes : v = (List.range 16).map f
  lt : ∀ i, f i < 256

theorem bytes_load (m : Mem) (a : Nat) : Bytes (load m a) fun i => (m (a + i)).toNat :=
  ⟨rfl, fun i => (m (a + i)).toNat_lt⟩

theorem Bytes.unpacklo (hv : Bytes v f) : Words (unpackloEpi8 v setzero) f := by
  refine ⟨?_, fun i => Nat.lt_trans (hv.lt i) (by simp)⟩
  rw [hv.bytes]
  rfl

theorem Bytes.unpackhi (hv : Bytes v f) : Words (unpackhiEpi8 v setzero) fun i => f (8 + i) := by
  refine ⟨?_, fun i => Nat.lt_trans (hv.lt _) (by simp)⟩
  rw [hv.bytes]
  rfl

theorem Bytes.dwords (hv : Bytes v f) :
    Dwords v fun i => f (4 * i) + 256 * f (4 * i + 1) + 65536 * f (4 * i + 2) + 16777216 * f (4 * i + 3) := by
  refine ⟨?_, fun i => ?_⟩
  · rw [hv.bytes]
    rfl
  · have h0 := hv.lt (4 * i)
    have h1 := hv.lt (4 * i + 1)
    have h2 := hv.lt (4 * i + 2)
    have h3 := hv.lt (4 * i + 3)
    omega

/-- A byte of each lane, in all four words of a lane of the unpacked register. -/
theorem shuffle_unpack {a b c d : Nat} (ha : a < 256) (hb : b < 256) (hc : c < 256) (hd : d < 256) :
    Words (shufflehiEpi16 (shuffleloEpi16 (unpackloEpi8 (ofDwords [a, b, c, d]) setzero) 0) 0)
        (fun i => if i < 4 then a else b) ∧
      Words (shufflehiEpi16 (shuffleloEpi16 (unpackhiEpi8 (ofDwords [a, b, c, d]) setzero) 0) 0)
        (fun i => if i < 4 then c else d) := by
  have hshuffle : ∀ {v : M128} {x y : Nat}, x < 256 → y < 256 → words v = [x, 0, 0, 0, y, 0, 0, 0] →
      Words (shufflehiEpi16 (shuffleloEpi16 v 0) 0) (fun i => if i < 4 then x else y) := by
    intro v x y hx hy hv
    have hlo : words (shuffleloEpi16 v 0) = [x, x, x, x, y, 0, 0, 0] := by
      unfold shuffleloEpi16
      rw [hv, words_ofWords]
      · rfl
      · intro z hz
        simp [shuffle4] at hz
        omega
    refine words_of_range ?_ fun i => ?_
    · rw [hlo]
      rfl
    · split <;> omega
  have hlane : ∀ x < 256, x % 256 = x ∧ x / 256 % 256 = 0 ∧ x / 65536 % 256 = 0 ∧ x / 16777216 % 256 = 0 := by
    intro x hx
    omega
  have hbytes : ofDwords [a, b, c, d] = [a, 0, 0, 0, b, 0, 0, 0, c, 0, 0, 0, d, 0, 0, 0] := by
    simp only [ofDwords, flatMap_cons, flatMap_nil, append_nil, cons_append, nil_append]
    rw [(hlane a ha).1, (hlane a ha).2.1, (hlane a ha).2.2.1, (hlane a ha).2.2.2, (hlane b hb).1, (hlane b hb).2.1,
      (hlane b hb).2.2.1, (hlane b hb).2.2.2, (hlane c hc).1, (hlane c hc).2.1, (hlane c hc).2.2.1, (hlane c hc).2.2.2,
      (hlane d hd).1, (hlane d hd).2.1, (hlane d hd).2.2.1, (hlane d hd).2.2.2]
  rw [hbytes]
  exact ⟨hshuffle ha hb rfl, hshuffle hc hd rfl⟩

theorem words_set1 {x : Nat} (hx : x < 2 ^ 16) : Words (set1Epi16 x) fun _ => x := words_of_range rfl fun _ => hx

theorem dwords_set1 {x : Nat} (hx : x < 2 ^ 32) : Dwords (set1Epi32 x) fun _ => x := dwords_of_range rfl fun _ => hx

/-- All bits are set exactly when all lanes are the same. -/
theorem movemask_cmpeq (hv : Dwords v f) (hw : Dwords w g) :
    movemaskEpi8 (cmpeqEpi32 v w) = 0xFFFF ↔ ∀ i < 4, f i = g i := by
  unfold cmpeqEpi32
  rw [hv.dwords, hw.dwords, zipWith_range]
  have hrange : (∀ i < 4, f i = g i) ↔ f 0 = g 0 ∧ f 1 = g 1 ∧ f 2 = g 2 ∧ f 3 = g 3 := by
    constructor
    · intro h
      exact ⟨h 0 (by simp), h 1 (by simp), h 2 (by simp), h 3 (by simp)⟩
    · intro ⟨h0, h1, h2, h3⟩ i hi
      match i, hi with
      | 0, _ => exact h0
      | 1, _ => exact h1
      | 2, _ => exact h2
      | 3, _ => exact h3
  rw [hrange]
  by_cases h0 : f 0 = g 0 <;> by_cases h1 : f 1 = g 1 <;> by_cases h2 : f 2 = g 2 <;> by_cases h3 : f 3 = g 3 <;>
    simp [h0, h1, h2, h3, range_succ, ofDwords, movemaskEpi8]

/-! ## Stores -/

theorem store_of_bytes {m : Mem} {a : Nat} (hv : Bytes v f) {i : Nat} (hi : i < 16) :
    store m a v (a + i) = UInt8.ofNat (f i) := by
  unfold store
  rw [if_pos (by omega), Nat.add_sub_cancel_left, hv.bytes]
  simp [getD_eq_getElem?_getD, hi]

end Sse
