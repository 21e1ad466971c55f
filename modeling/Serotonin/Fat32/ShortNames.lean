import Mathlib.Data.Finset.Card
import Mathlib.Data.List.DropRight
import Serotonin.Fat32.Listing
import Serotonin.Fat32.Termination

/-! Generated short names. The key is changed in place from one tail to the next. The keys differ
in their tails, so of more keys than there are names in the directory one is free, and the first
one of these is found. -/

namespace Serotonin.Fat32

open List
open Prog (Ends ends_bind ends_const steady_const)

variable {g : Geometry} {v : Volume} {parts : List UInt8 × List UInt8} {key : List UInt8} {c : Nat}

/-! ## The key, in place -/

/-- `tailstr`. -/
def tailstr (tail : Nat) : List UInt8 := 126 :: digits 5 tail

/-- One tail is put over the last one; `pos` is the length of the base. -/
def putTail (pos : Nat) (key : List UInt8) (tail : Nat) : List UInt8 :=
  let baseMax := min pos (8 - (tailstr tail).length)
  key.take baseMax ++ tailstr tail ++ List.replicate (8 - (baseMax + (tailstr tail).length)) 32 ++ key.drop 8

/-- The key before the first tail. -/
def plainKey (parts : List UInt8 × List UInt8) : List UInt8 := padTo 8 parts.1 ++ padTo 3 parts.2

/-- The loop over the tails from `tail` on, `left` in number, as it changes the key. -/
def putTails (g : Geometry) (rounds pos cluster : Nat) : Nat → Nat → List UInt8 → FatM (List UInt8)
  | 0, _, key => return key
  | left + 1, tail, key => do
    if ← takenFrom g (putTail pos key tail) rounds cluster then
      putTails g rounds pos cluster left (tail + 1) (putTail pos key tail)
    else return putTail pos key tail

/-- `fat32_generate_short_name`, with one key all the time. -/
def generateInPlace (g : Geometry) (rounds : Nat) (fname : List UInt8) (dirCluster : Nat) : FatM (List UInt8) :=
  let parts := shortNameParts fname
  putTails g rounds parts.1.length dirCluster 9999 1 (plainKey parts)

theorem length_digits_mono (n : Nat) {x y : Nat} (h : x ≤ y) : (digits n x).length ≤ (digits n y).length := by
  induction n generalizing x y with
  | zero => exact Nat.le_refl _
  | succ n ih =>
    unfold digits
    by_cases hx : x = 0
    · rw [if_pos hx]
      exact Nat.zero_le _
    · rw [if_neg hx, if_neg (by omega), length_append, length_append]
      exact Nat.add_le_add_right (ih (Nat.div_le_div_right h)) 1

theorem length_digits_le (n x : Nat) : (digits n x).length ≤ n := by
  induction n generalizing x with
  | zero => exact Nat.le_refl 0
  | succ n ih =>
    unfold digits
    split
    · exact Nat.zero_le _
    · rw [length_append, length_singleton]
      exact Nat.succ_le_succ (ih (x / 10))

theorem length_tailstr_le (tail : Nat) : (tailstr tail).length ≤ 6 := Nat.succ_le_succ (length_digits_le 5 tail)

theorem length_tailstr_mono {t t' : Nat} (h : t ≤ t') : (tailstr t).length ≤ (tailstr t').length :=
  Nat.succ_le_succ (length_digits_mono 5 h)

/-- The first eight bytes of a key. -/
def tailedBase (base : List UInt8) (tail : Nat) : List UInt8 :=
  base.take (8 - (tailstr tail).length) ++ tailstr tail ++
    List.replicate (8 - (min base.length (8 - (tailstr tail).length) + (tailstr tail).length)) 32

@[simp] theorem length_tailedBase (base : List UInt8) (tail : Nat) : (tailedBase base tail).length = 8 := by
  have hlen := length_tailstr_le tail
  simp only [tailedBase, length_append, length_take, length_replicate]
  omega

theorem tailedKey_eq (parts : List UInt8 × List UInt8) (tail : Nat) :
    tailedKey parts tail = tailedBase parts.1 tail ++ padTo 3 parts.2 := by
  have hlen := length_tailstr_le tail
  have hfill : (parts.1.take (8 - (tailstr tail).length) ++ tailstr tail).length =
      min parts.1.length (8 - (tailstr tail).length) + (tailstr tail).length := by
    rw [length_append, length_take, Nat.min_comm]
  have hshort : (parts.1.take (8 - (tailstr tail).length) ++ tailstr tail).length ≤ 8 := by omega
  show padTo 8 (parts.1.take (8 - (tailstr tail).length) ++ tailstr tail) ++ padTo 3 parts.2 = _
  rw [padTo, take_of_length_le hshort, hfill]
  rfl

/-- The key has the base as far as the tail lets it, and the extension. -/
structure HasBase (parts : List UInt8 × List UInt8) (tail : Nat) (key : List UInt8) : Prop where
  base : key.take (min parts.1.length (8 - (tailstr tail).length)) = parts.1.take (8 - (tailstr tail).length)
  ext : key.drop 8 = padTo 3 parts.2

theorem putTail_eq {tail : Nat} (h : HasBase parts tail key) : putTail parts.1.length key tail = tailedKey parts tail := by
  rw [tailedKey_eq]
  unfold putTail tailedBase
  dsimp only
  rw [h.base, h.ext]

theorem take_min_length (base : List UInt8) (m : Nat) : base.take (min base.length m) = base.take m := by
  rw [Nat.min_comm, ← take_take, take_length]

/-- A tail leaves what the longer ones keep. -/
theorem tailedKey_hasBase (parts : List UInt8 × List UInt8) {t t' : Nat} (h : t ≤ t') :
    HasBase parts t' (tailedKey parts t) := by
  have hmono := length_tailstr_mono h
  refine ⟨?_, ?_⟩
  · have hfits : min parts.1.length (8 - (tailstr t').length) ≤ (parts.1.take (8 - (tailstr t).length)).length := by
      rw [length_take]
      omega
    rw [tailedKey_eq, tailedBase, append_assoc, append_assoc, take_append_of_le_length hfits, take_take,
      Nat.min_eq_left (by rw [length_take] at hfits; omega), take_min_length]
  · rw [tailedKey_eq]
    exact drop_left' (length_tailedBase _ _)

theorem plainKey_hasBase (hlong : parts.1.length ≤ 8) (t : Nat) : HasBase parts t (plainKey parts) := by
  have hpad : (padTo 8 parts.1).length = 8 := by
    simp only [padTo, length_append, length_take, length_replicate]
    omega
  refine ⟨?_, ?_⟩
  · rw [plainKey, padTo, take_of_length_le hlong, append_assoc,
      take_append_of_le_length (Nat.min_le_left _ _), take_min_length]
  · exact drop_left' hpad

theorem putTails_eq (rounds cluster : Nat) {left tail : Nat} (h : HasBase parts tail key) :
    putTails g rounds parts.1.length cluster (left + 1) tail key = tryTails g rounds parts cluster (left + 1) tail := by
  induction left generalizing tail key with
  | zero =>
    rw [putTails, tryTails, putTail_eq h]
    rfl
  | succ left ih =>
    rw [putTails, tryTails, putTail_eq h, ih (tailedKey_hasBase parts (Nat.le_succ tail))]

theorem length_shortNameParts (fname : List UInt8) : (shortNameParts fname).1.length ≤ 6 := by
  unfold shortNameParts
  dsimp only
  generalize ((List.filter _ _).map toupper) = base
  split
  · exact Nat.le_add_left 1 5
  · exact length_take_le 6 base

/-- Changing the key in place is the same as making it anew for each tail. -/
theorem generateInPlace_eq (g : Geometry) (rounds : Nat) (fname : List UInt8) (dirCluster : Nat) :
    generateInPlace g rounds fname dirCluster = fat32GenerateShortName g rounds fname dirCluster :=
  putTails_eq rounds dirCluster (plainKey_hasBase (Nat.le_trans (length_shortNameParts fname) (by decide)) 1)

/-! ## Different tails, different keys -/

/-- The number that the digits stand for. -/
def digitsValue (ds : List UInt8) : Nat := ds.foldl (fun n d => 10 * n + (d.toNat - 48)) 0

theorem digit_toNat {d : Nat} (hd : d < 10) : (UInt8.ofNat (48 + d)).toNat = 48 + d := by
  rw [UInt8.toNat_ofNat']
  omega

theorem digitsValue_digits {n x : Nat} (hx : x < 10 ^ n) : digitsValue (digits n x) = x := by
  induction n generalizing x with
  | zero =>
    obtain rfl : x = 0 := by simpa using hx
    rfl
  | succ n ih =>
    unfold digits
    by_cases h0 : x = 0
    · rw [if_pos h0, h0]
      rfl
    · have hdiv : x / 10 < 10 ^ n := Nat.div_lt_of_lt_mul (by rwa [Nat.pow_succ, Nat.mul_comm] at hx)
      rw [if_neg h0, digitsValue, foldl_append]
      show 10 * digitsValue (digits n (x / 10)) + ((UInt8.ofNat (48 + x % 10)).toNat - 48) = x
      rw [ih hdiv, digit_toNat (Nat.mod_lt x (by decide))]
      omega

theorem mem_digits {n x : Nat} {d : UInt8} (hd : d ∈ digits n x) : 48 ≤ d.toNat ∧ d.toNat < 58 := by
  induction n generalizing x with
  | zero => cases hd
  | succ n ih =>
    unfold digits at hd
    split at hd
    · cases hd
    · obtain hd | hd := mem_append.mp hd
      · exact ih hd
      · have hmod := Nat.mod_lt x (by decide : 0 < 10)
        rw [mem_singleton.mp hd, digit_toNat hmod]
        omega

/-- The number behind the last `~` before the blanks. -/
def tailOf (key : List UInt8) : Nat :=
  digitsValue (((key.take 8).reverse.dropWhile (· == 32)).takeWhile (· != 126)).reverse

theorem tailOf_tailedKey (parts : List UInt8 × List UInt8) {tail : Nat} (h : tail < 10 ^ 5) :
    tailOf (tailedKey parts tail) = tail := by
  have hdigits : ∀ d ∈ (digits 5 tail).reverse, (d != 126) = true ∧ (d == 32) = false := by
    intro d hd
    have hrange := mem_digits (mem_reverse.mp hd)
    have hne : ∀ c : UInt8, c.toNat < 48 ∨ 58 ≤ c.toNat → d ≠ c := fun c hc he => by
      subst he
      omega
    exact ⟨bne_iff_ne.mpr (hne 126 (by decide)), beq_eq_false_iff_ne.mpr (hne 32 (by decide))⟩
  have hkey : ((tailedKey parts tail).take 8).reverse =
      List.replicate (8 - (min parts.1.length (8 - (tailstr tail).length) + (tailstr tail).length)) 32 ++
        ((digits 5 tail).reverse ++ 126 :: (parts.1.take (8 - (tailstr tail).length)).reverse) := by
    rw [tailedKey_eq, take_left' (length_tailedBase _ _), tailedBase, reverse_append, reverse_append,
      reverse_replicate, tailstr, reverse_cons, append_assoc]
    rfl
  have hblank : ∀ d ∈ List.replicate (8 - (min parts.1.length (8 - (tailstr tail).length) + (tailstr tail).length)) (32 : UInt8),
      (d == 32) = true := fun d hd => by rw [eq_of_mem_replicate hd]; rfl
  have hkept : ∀ rest : List UInt8, ((digits 5 tail).reverse ++ 126 :: rest).dropWhile (· == 32) =
      (digits 5 tail).reverse ++ 126 :: rest := by
    intro rest
    cases hd : (digits 5 tail).reverse with
    | nil => rfl
    | cons d ds => exact dropWhile_cons_of_neg (by simp [(hdigits d (hd ▸ mem_cons_self)).2])
  unfold tailOf
  rw [hkey, dropWhile_append_of_pos hblank, hkept, takeWhile_append_of_pos fun d hd => (hdigits d hd).1,
    takeWhile_cons_of_neg (by decide), append_nil, reverse_reverse]
  exact digitsValue_digits h

/-! ## What is in the directory -/

/-- The names of the entries that are in use: those before the first end mark. -/
def usedNames (slots : List Slot) : List (List UInt8) :=
  ((slots.takeWhile (·.entry.first != 0)).filter (·.entry.isShort)).map (·.entry.name)

theorem takenStep_eq (key : List UInt8) (x : Slot) : takenStep key () x =
    if x.entry.first = 0 then .done false
    else if x.entry.isShort = true ∧ x.entry.name = key then .done true else .next () := by
  unfold takenStep Entry.isShort
  dsimp only
  by_cases h0 : x.entry.first = 0
  · rw [if_pos h0, if_pos h0]
  · rw [if_neg h0, if_neg h0]
    by_cases hdel : x.entry.first = 0xE5
    · simp [hdel]
    · cases hlfn : x.entry.isLfn <;> simp [h0, hdel]

/-- The search finds a key if and only if it is in use. -/
theorem scan_takenStep_iff (key : List UInt8) (slots : List Slot) :
    Round.scan (takenStep key) () slots = .done true ↔ key ∈ usedNames slots := by
  induction slots with
  | nil => simp [Round.scan, usedNames]
  | cons x slots ih =>
    rw [Round.scan, takenStep_eq]
    by_cases h0 : x.entry.first = 0
    · simp [h0, usedNames]
    · rw [if_neg h0]
      by_cases hkey : x.entry.isShort = true ∧ x.entry.name = key
      · simp [hkey, h0, usedNames]
      · rw [if_neg hkey]
        dsimp only
        rw [ih]
        unfold usedNames
        rw [takeWhile_cons_of_pos (by simpa using h0), filter_cons]
        split
        · next hshort =>
          have hne : ¬key = x.entry.name := fun he => hkey ⟨hshort, he.symm⟩
          simp [hne]
        · rfl

/-- The chain of a directory, which has `k` clusters. -/
structure FiniteChain (v : Volume) (c k : Nat) : Prop where
  isOpen : OpenFor v c k
  ends : fat32ClusterEnd ≤ along v.fat c k

/-- The search of a finite directory ends, with the right answer. -/
theorem taken_finite {k : Nat} (h : FiniteChain v c k) (key : List UInt8) :
    TakenEnds g v key c (decide (key ∈ usedNames (slotsAlong g v c k))) v := by
  refine ((taken_isLoop g key).ends_iff (s := ())).mpr ⟨k, h.isOpen, ?_⟩
  have hiff := scan_takenStep_iff key (slotsAlong g v c k)
  cases hs : Round.scan (takenStep key) () (slotsAlong g v c k) with
  | done b =>
    rw [hs, Round.done.injEq] at hiff
    cases b with
    | true => simp [hiff.mp rfl]
    | false =>
      have hfree : key ∉ usedNames (slotsAlong g v c k) := fun hmem => Bool.noConfusion (hiff.mpr hmem)
      simp [hfree]
  | next _ =>
    have hfree : key ∉ usedNames (slotsAlong g v c k) := fun hmem => by
      have hdone := hiff.mpr hmem
      rw [hs] at hdone
      cases hdone
    simp [hfree, h.ends]

/-- The tails are tried until a key is free. -/
theorem tryTails_finite {k : Nat} (h : FiniteChain v c k) (parts : List UInt8 × List UInt8) (left tail : Nat) :
    ∃ key, Ends onImage (fun n => tryTails g n parts c left tail) v key v ∧
      ((∃ t, tail ≤ t ∧ t < tail + left ∧ tailedKey parts t ∉ usedNames (slotsAlong g v c k)) →
        key ∉ usedNames (slotsAlong g v c k)) := by
  induction left generalizing tail with
  | zero => exact ⟨_, ends_const.mpr rfl, fun ⟨t, hle, hlt, _⟩ => absurd hlt (by omega)⟩
  | succ left ih =>
    obtain ⟨key, hends, hfree⟩ := ih (tail + 1)
    have htaken := taken_finite (g := g) h (tailedKey parts tail)
    have hsteady := fun b : Bool => Prog.Steady.ite (c := b = true) (tryTails_steady (g := g) parts c left (tail + 1))
      (steady_const (.ret (tailedKey parts tail)))
    by_cases hmem : tailedKey parts tail ∈ usedNames (slotsAlong g v c k)
    · rw [decide_eq_true hmem] at htaken
      refine ⟨key, (ends_bind (taken_steady _ c) hsteady).mpr ⟨true, v, htaken, hends⟩, fun ⟨t, hle, hlt, hnot⟩ => hfree ?_⟩
      have hne : t ≠ tail := fun he => hnot (he ▸ hmem)
      exact ⟨t, by omega, by omega, hnot⟩
    · rw [decide_eq_false hmem] at htaken
      exact ⟨_, (ends_bind (taken_steady _ c) hsteady).mpr ⟨false, v, htaken, 0, rfl⟩, fun _ => hmem⟩

/-! ## The result -/

/-- The names that are tried. -/
def candidates (fname : List UInt8) : Finset (List UInt8) :=
  (Finset.Icc 1 9999).image (tailedKey (shortNameParts fname))

theorem card_candidates (fname : List UInt8) : (candidates fname).card = 9999 := by
  refine (Finset.card_image_of_injOn fun t ht t' ht' he => ?_).trans (Nat.card_Icc 1 9999)
  have hlt := (Finset.mem_Icc.mp (Finset.mem_coe.mp ht)).2
  have hlt' := (Finset.mem_Icc.mp (Finset.mem_coe.mp ht')).2
  rw [← tailOf_tailedKey (shortNameParts fname) (by omega : t < 10 ^ 5), he, tailOf_tailedKey _ (by omega)]

/-- If not all of the names are in use, one of them is free. -/
theorem exists_free {fname : List UInt8} {names : List (List UInt8)} (h : {key ∈ candidates fname | key ∈ names}.card < 9999) :
    ∃ t, 1 ≤ t ∧ t < 1 + 9999 ∧ tailedKey (shortNameParts fname) t ∉ names := by
  by_contra hnone
  have hall : ∀ key ∈ candidates fname, key ∈ names := by
    intro key hkey
    obtain ⟨t, ht, rfl⟩ := Finset.mem_image.mp hkey
    have hrange := Finset.mem_Icc.mp ht
    by_contra hnot
    exact hnone ⟨t, hrange.1, by omega, hnot⟩
  rw [Finset.filter_true_of_mem hall, card_candidates] at h
  exact absurd h (Nat.lt_irrefl _)

/-- On a finite chain the search ends, and unless all names that are tried are in use the key is
the name of no entry. -/
theorem short_name_unique {k : Nat} (h : FiniteChain v c k) (fname : List UInt8) :
    ∃ key, Ends onImage (fun n => generateInPlace g n fname c) v key v ∧
      ({name ∈ candidates fname | name ∈ usedNames (slotsAlong g v c k)}.card < 9999 →
        ∀ name ∈ usedNames (slotsAlong g v c k), key ≠ name) := by
  obtain ⟨key, hends, hfree⟩ := tryTails_finite (g := g) h (shortNameParts fname) 9999 1
  refine ⟨key, ?_, fun hcard name hname he => hfree (exists_free hcard) (he ▸ hname)⟩
  simpa only [generateInPlace_eq] using (show Ends onImage (fun n => fat32GenerateShortName g n fname c) v key v from hends)

/-- No more candidates are in use than there are names. -/
theorem card_inUse_le (fname : List UInt8) (names : List (List UInt8)) :
    {name ∈ candidates fname | name ∈ names}.card ≤ names.length := by
  have hsub : {name ∈ candidates fname | name ∈ names} ⊆ names.toFinset := fun name hname => by
    simpa using (Finset.mem_filter.mp hname).2
  exact (Finset.card_le_card hsub).trans (toFinset_card_le names)

/-- A name whose first candidate is in the directory. -/
theorem short_name_unique_two : ∃ key, Ends onImage (fun n => generateInPlace oneSector n longfilename 2) (rootVolume twoFiles) key
    (rootVolume twoFiles) ∧ ∀ name ∈ usedNames (slotsAlong oneSector (rootVolume twoFiles) 2 1), key ≠ name := by
  have hfinite : FiniteChain (rootVolume twoFiles) 2 1 := by
    refine ⟨fun j hj => ?_, Nat.le_of_eq (rootVolume_fat twoFiles).symm⟩
    obtain rfl : j = 0 := Nat.lt_one_iff.mp hj
    decide
  have hfew : (usedNames (slotsAlong oneSector (rootVolume twoFiles) 2 1)).length < 9999 := by decide +kernel
  obtain ⟨key, hends, hunique⟩ := short_name_unique (g := oneSector) hfinite longfilename
  exact ⟨key, hends, hunique (Nat.lt_of_le_of_lt (card_inUse_le _ _) hfew)⟩

end Serotonin.Fat32
