import Serotonin.Lib.Sse
import Mathlib.Tactic.Ring

/-! Blending of a layer over the picture below it: `vbe_blend_area_stride`. A pixel at a time
where the addresses of both rows are not aligned and at the end of a row, and four at a time in
between. Rows of pixels are in memory, lowest byte blue, then green, red and alpha. -/

namespace Serotonin.Vbe

open ByteMem (Mem u32 u32_of_lt load32 store32 AgreeOn)
open Sse

/-! ## The code -/

/-- The mix of two pixels with the alpha of the second. -/
def mixPixel (dpx spx : Nat) : Nat :=
  let a := spx >>> 24
  let ia := 255 - a
  let rb := u32 ((dpx &&& 0x00FF00FF) * ia + (spx &&& 0x00FF00FF) * a + 0x00800080) >>> 8
  let g := u32 ((dpx &&& 0x0000FF00) * ia + (spx &&& 0x0000FF00) * a + 0x00008000) >>> 8
  (spx &&& 0xFF000000) ||| (rb &&& 0x00FF00FF) ||| (g &&& 0x0000FF00)

/-- What the loops for one pixel make of it. -/
def scalarPixel (dpx spx : Nat) : Nat :=
  if spx >>> 24 = 0 then dpx else if spx >>> 24 = 255 then spx else mixPixel dpx spx

/-- One turn of these loops. -/
def scalarAt (m : Mem) (d s x : Nat) : Mem :=
  let spx := load32 m (s + 4 * x)
  if spx >>> 24 = 0 then m
  else if spx >>> 24 = 255 then store32 m (d + 4 * x) spx
  else store32 m (d + 4 * x) (mixPixel (load32 m (d + 4 * x)) spx)

/-- Four pixels that are not all transparent or all opaque. -/
def vectorMix (spx dpx : M128) : M128 :=
  let vz := setzero
  let v255 := set1Epi16 255
  let vrnd := set1Epi32 128
  let sLo := unpackloEpi8 spx vz
  let sHi := unpackhiEpi8 spx vz
  let dLo := unpackloEpi8 dpx vz
  let dHi := unpackhiEpi8 dpx vz
  let a := srliEpi32 spx 24
  let aLo := shufflehiEpi16 (shuffleloEpi16 (unpackloEpi8 a vz) 0x00) 0x00
  let aHi := shufflehiEpi16 (shuffleloEpi16 (unpackhiEpi8 a vz) 0x00) 0x00
  let iaLo := subEpi16 v255 aLo
  let iaHi := subEpi16 v255 aHi
  let psLo := mulloEpi16 sLo aLo
  let pdLo := mulloEpi16 dLo iaLo
  let psHi := mulloEpi16 sHi aHi
  let pdHi := mulloEpi16 dHi iaHi
  let sum0 := addEpi32 (unpackloEpi16 psLo vz) (unpackloEpi16 pdLo vz)
  let sum1 := addEpi32 (unpackhiEpi16 psLo vz) (unpackhiEpi16 pdLo vz)
  let sum2 := addEpi32 (unpackloEpi16 psHi vz) (unpackloEpi16 pdHi vz)
  let sum3 := addEpi32 (unpackhiEpi16 psHi vz) (unpackhiEpi16 pdHi vz)
  let sum0 := srliEpi32 (addEpi32 sum0 vrnd) 8
  let sum1 := srliEpi32 (addEpi32 sum1 vrnd) 8
  let sum2 := srliEpi32 (addEpi32 sum2 vrnd) 8
  let sum3 := srliEpi32 (addEpi32 sum3 vrnd) 8
  packusEpi16 (packsEpi32 sum0 sum1) (packsEpi32 sum2 sum3)

/-- One turn of the loop for four pixels. -/
def vectorAt (m : Mem) (d s x : Nat) : Mem :=
  let spx := load m (s + 4 * x)
  let dpx := load m (d + 4 * x)
  let a32 := srliEpi32 spx 24
  if movemaskEpi8 (cmpeqEpi32 a32 setzero) = 0xFFFF then m
  else if movemaskEpi8 (cmpeqEpi32 a32 (set1Epi32 0x000000FF)) = 0xFFFF then store m (d + 4 * x) spx
  else store m (d + 4 * x) (vectorMix spx dpx)

/-- Both rows are at a multiple of sixteen. -/
def aligned (d s x : Nat) : Bool := (d + 4 * x ||| s + 4 * x) &&& 0xF == 0

/-- The first loop, with `n` pixels to go from `x` on: where it stops, and the memory. -/
def headLoop (d s : Nat) : Nat → Nat → Mem → Nat × Mem
  | 0, x, m => (x, m)
  | n + 1, x, m => if aligned d s x then (x, m) else headLoop d s n (x + 1) (scalarAt m d s x)

def vectorLoop (d s w : Nat) : Nat → Nat → Mem → Nat × Mem
  | 0, x, m => (x, m)
  | n + 1, x, m => if x + 4 ≤ w then vectorLoop d s w n (x + 4) (vectorAt m d s x) else (x, m)

def tailLoop (d s : Nat) : Nat → Nat → Mem → Mem
  | 0, _, m => m
  | n + 1, x, m => tailLoop d s n (x + 1) (scalarAt m d s x)

/-- One row of `w` pixels. -/
def blendRow (m : Mem) (d s w : Nat) : Mem :=
  let (x, m) := headLoop d s w 0 m
  let (x, m) := vectorLoop d s w w x m
  tailLoop d s (w - x) x m

/-- The place of the pixel `x` in the row `y`. -/
def rowAddr (base pitch x y : Nat) : Nat := u32 (base + y * pitch + x * 4)

def blendAreaStride (m : Mem) (dst dstPitch src srcPitch dstX dstY srcX srcY w h : Nat) : Mem :=
  if dst = 0 ∨ src = 0 ∨ w = 0 ∨ h = 0 then m
  else
    (List.range h).foldl (fun m y =>
      blendRow m (rowAddr dst dstPitch dstX (u32 (dstY + y))) (rowAddr src srcPitch srcX (u32 (srcY + y))) w) m

/-! ## Pixels as four channels -/

/-- The channel `c` of a pixel. -/
def chan (px c : Nat) : Nat := px / 256 ^ c % 256

def pixel (b g r a : Nat) : Nat := b + 256 * g + 65536 * r + 16777216 * a

/-- One channel of two pixels, mixed. -/
def mix (s d a : Nat) : Nat := (d * (255 - a) + s * a + 128) / 256

theorem mix_sum_le {s d a : Nat} (hs : s < 256) (hd : d < 256) (ha : a < 256) : d * (255 - a) + s * a ≤ 65025 := by
  calc d * (255 - a) + s * a ≤ 255 * (255 - a) + 255 * a :=
        Nat.add_le_add (Nat.mul_le_mul_right _ (by omega)) (Nat.mul_le_mul_right _ (by omega))
    _ = 65025 := by omega

theorem mix_lt {s d a : Nat} (hs : s < 256) (hd : d < 256) (ha : a < 256) : mix s d a < 255 := by
  have hsum := mix_sum_le hs hd ha
  unfold mix
  omega

/-- Eight channels of two pixels, with an alpha for each. -/
theorem half_mix {sv dv av : M128} {f g α : Nat → Nat} (hf : ∀ i, f i < 256) (hg : ∀ i, g i < 256)
    (hα : ∀ i, α i < 256) (hs : Words sv f) (hd : Words dv g) (hav : Words av α) :
    Words (packsEpi32
        (srliEpi32 (addEpi32 (addEpi32 (unpackloEpi16 (mulloEpi16 sv av) setzero)
          (unpackloEpi16 (mulloEpi16 dv (subEpi16 (set1Epi16 255) av)) setzero)) (set1Epi32 128)) 8)
        (srliEpi32 (addEpi32 (addEpi32 (unpackhiEpi16 (mulloEpi16 sv av) setzero)
          (unpackhiEpi16 (mulloEpi16 dv (subEpi16 (set1Epi16 255) av)) setzero)) (set1Epi32 128)) 8))
      fun i => mix (f i) (g i) (α i) := by
  have hsum : ∀ i, f i * α i + g i * (255 - α i) ≤ 65025 := by
    intro i
    have h := mix_sum_le (hf i) (hg i) (hα i)
    omega
  have hmix : ∀ i, (f i * α i + g i * (255 - α i) + 128) / 2 ^ 8 = mix (f i) (g i) (α i) := by
    intro i
    exact congrArg (fun x => (x + 128) / 256) (Nat.add_comm _ _)
  have hps := hs.mullo hav fun i => by have h := hsum i; omega
  have hia := (words_set1 (x := 255) (by simp)).sub hav fun i => Nat.le_of_lt_succ (hα i)
  have hpd := hd.mullo hia fun i => by have h := hsum i; omega
  have hrnd := dwords_set1 (x := 128) (by simp)
  have hlo := ((hps.unpacklo.add hpd.unpacklo fun i => by have h := hsum i; omega).add hrnd
    fun i => by have h := hsum i; omega).srli 8
  have hhi := ((hps.unpackhi.add hpd.unpackhi fun i => by have h := hsum (4 + i); omega).add hrnd
    fun i => by have h := hsum (4 + i); omega).srli 8
  simp only [hmix] at hlo hhi
  exact hlo.packs hhi fun i => Nat.lt_trans (mix_lt (hf i) (hg i) (hα i)) (by simp)

/-- The sixteen channels of four pixels, each with the alpha of its pixel. -/
theorem vectorMix_eq {sv dv : M128} {f g : Nat → Nat} (hs : Bytes sv f) (hd : Bytes dv g) :
    Bytes (vectorMix sv dv) fun i => mix (f i) (g i) (f (i / 4 * 4 + 3)) := by
  have halpha : srliEpi32 sv 24 = ofDwords [f 3, f 7, f 11, f 15] := by
    have hlane : ∀ i, (f (4 * i) + 256 * f (4 * i + 1) + 65536 * f (4 * i + 2) + 16777216 * f (4 * i + 3)) / 2 ^ 24 =
        f (4 * i + 3) := by
      intro i
      have h0 := hs.lt (4 * i)
      have h1 := hs.lt (4 * i + 1)
      have h2 := hs.lt (4 * i + 2)
      omega
    unfold srliEpi32
    rw [hs.dwords.dwords, List.map_map]
    simp only [Function.comp_def, hlane]
    rfl
  obtain ⟨hlo, hhi⟩ := shuffle_unpack (hs.lt 3) (hs.lt 7) (hs.lt 11) (hs.lt 15)
  rw [← halpha] at hlo hhi
  have hlo := hlo.congr (g := fun i => f (i / 4 * 4 + 3)) (fun i hi => by split <;> congr 1 <;> omega)
    fun i => Nat.lt_trans (hs.lt _) (by simp)
  have hhi := hhi.congr (g := fun i => f ((8 + i) / 4 * 4 + 3)) (fun i hi => by split <;> congr 1 <;> omega)
    fun i => Nat.lt_trans (hs.lt _) (by simp)
  have hmixLo := half_mix hs.lt hd.lt (fun i => hs.lt (i / 4 * 4 + 3)) hs.unpacklo hd.unpacklo hlo
  have hmixHi := half_mix (fun i => hs.lt (8 + i)) (fun i => hd.lt (8 + i)) (fun i => hs.lt ((8 + i) / 4 * 4 + 3))
    hs.unpackhi hd.unpackhi hhi
  have hlt : ∀ i, mix (f i) (g i) (f (i / 4 * 4 + 3)) < 256 := fun i =>
    Nat.lt_trans (mix_lt (hs.lt i) (hd.lt i) (hs.lt _)) (by simp)
  exact ⟨hmixLo.packus hmixHi hlt, hlt⟩

/-! ## The mix of one pixel -/

/-- A mask that leaves one byte. -/
theorem and_byte (n k : Nat) : n &&& 255 <<< k = (n / 2 ^ k % 256) <<< k := by
  apply Nat.eq_of_testBit_eq
  intro i
  have h255 : (255 : Nat) = 2 ^ 8 - 1 := rfl
  have h256 : (256 : Nat) = 2 ^ 8 := rfl
  rw [Nat.testBit_and, Nat.testBit_shiftLeft, Nat.testBit_shiftLeft, h255, h256, Nat.testBit_two_pow_sub_one,
    Nat.testBit_mod_two_pow, Nat.testBit_div_two_pow]
  by_cases hki : k ≤ i
  · simp [hki, Bool.and_comm]
  · simp [hki]

theorem and_rb (n : Nat) : n &&& 0x00FF00FF = n % 256 + 65536 * (n / 65536 % 256) := by
  have hmask : 0x00FF00FF = 255 <<< 16 ||| 255 <<< 0 := rfl
  have hlt : n / 2 ^ 0 % 256 < 2 ^ 16 := by omega
  rw [hmask, Nat.and_or_distrib_left, and_byte, and_byte, Nat.shiftLeft_zero, ← Nat.shiftLeft_add_eq_or_of_lt hlt,
    Nat.shiftLeft_eq]
  omega

theorem and_g (n : Nat) : n &&& 0x0000FF00 = 256 * (n / 256 % 256) := by
  have hmask : 0x0000FF00 = 255 <<< 8 := rfl
  rw [hmask, and_byte, Nat.shiftLeft_eq, Nat.mul_comm]
  rfl

theorem and_a (n : Nat) : n &&& 0xFF000000 = 16777216 * (n / 16777216 % 256) := by
  have hmask : 0xFF000000 = 255 <<< 24 := rfl
  rw [hmask, and_byte, Nat.shiftLeft_eq, Nat.mul_comm]
  rfl

/-- The channels put together. -/
theorem or_pixel {b g r a : Nat} (hb : b < 256) (hg : g < 256) (hr : r < 256) :
    16777216 * a ||| (b + 65536 * r) ||| 256 * g = pixel b g r a := by
  have h16 : b + 65536 * r = r <<< 16 ||| b := by
    rw [← Nat.shiftLeft_add_eq_or_of_lt (by omega), Nat.shiftLeft_eq]
    omega
  have h8 : g <<< 8 ||| b = g <<< 8 + b := (Nat.shiftLeft_add_eq_or_of_lt (i := 8) hb g).symm
  have ha : 16777216 * a = a <<< 24 := by rw [Nat.shiftLeft_eq, Nat.mul_comm]
  have hg' : 256 * g = g <<< 8 := by rw [Nat.shiftLeft_eq, Nat.mul_comm]
  have hlt8 : g <<< 8 + b < 2 ^ 16 := by
    rw [Nat.shiftLeft_eq]
    omega
  have hlt16 : r <<< 16 + (g <<< 8 + b) < 2 ^ 24 := by
    rw [Nat.shiftLeft_eq r]
    omega
  calc 16777216 * a ||| (b + 65536 * r) ||| 256 * g = a <<< 24 ||| (r <<< 16 ||| (g <<< 8 ||| b)) := by
        rw [ha, h16, hg', Nat.or_assoc, Nat.or_assoc, Nat.or_comm b]
    _ = a <<< 24 + (r <<< 16 + (g <<< 8 + b)) := by
        rw [h8, ← Nat.shiftLeft_add_eq_or_of_lt hlt8, ← Nat.shiftLeft_add_eq_or_of_lt hlt16]
    _ = pixel b g r a := by
        unfold pixel
        rw [Nat.shiftLeft_eq, Nat.shiftLeft_eq, Nat.shiftLeft_eq]
        omega


theorem chan_pixel {b g r a : Nat} (hb : b < 256) (hg : g < 256) (hr : r < 256) (ha : a < 256) :
    chan (pixel b g r a) 0 = b ∧ chan (pixel b g r a) 1 = g ∧ chan (pixel b g r a) 2 = r ∧
      chan (pixel b g r a) 3 = a := by
  unfold chan pixel
  refine ⟨?_, ?_, ?_, ?_⟩ <;> omega

/-- For one pixel the products are made in two halves, which do not run into each other. -/
theorem mixPixel_eq {dpx spx : Nat} (hs : spx < 2 ^ 32) :
    mixPixel dpx spx = pixel (mix (chan spx 0) (chan dpx 0) (spx >>> 24)) (mix (chan spx 1) (chan dpx 1) (spx >>> 24))
      (mix (chan spx 2) (chan dpx 2) (spx >>> 24)) (spx >>> 24) := by
  have hchan : ∀ px c, chan px c < 256 := fun px c => Nat.mod_lt _ (by simp)
  have ha : spx >>> 24 < 256 := by
    rw [Nat.shiftRight_eq_div_pow]
    omega
  have hb := mix_sum_le (hchan spx 0) (hchan dpx 0) ha
  have hg := mix_sum_le (hchan spx 1) (hchan dpx 1) ha
  have hr := mix_sum_le (hchan spx 2) (hchan dpx 2) ha
  have halpha : spx &&& 0xFF000000 = 16777216 * (spx >>> 24) := by
    rw [and_a, Nat.shiftRight_eq_div_pow]
    omega
  have hrb : u32 ((dpx &&& 0x00FF00FF) * (255 - spx >>> 24) + (spx &&& 0x00FF00FF) * (spx >>> 24) + 0x00800080) >>> 8 &&&
      0x00FF00FF = mix (chan spx 0) (chan dpx 0) (spx >>> 24) + 65536 * mix (chan spx 2) (chan dpx 2) (spx >>> 24) := by
    have hsum : (dpx &&& 0x00FF00FF) * (255 - spx >>> 24) + (spx &&& 0x00FF00FF) * (spx >>> 24) + 0x00800080 =
        (chan dpx 0 * (255 - spx >>> 24) + chan spx 0 * (spx >>> 24) + 128) +
          65536 * (chan dpx 2 * (255 - spx >>> 24) + chan spx 2 * (spx >>> 24) + 128) := by
      simp only [and_rb, chan, pow_zero, Nat.div_one, Nat.reducePow]
      ring
    rw [hsum, u32_of_lt (by omega), and_rb, Nat.shiftRight_eq_div_pow]
    unfold mix
    omega
  have hgg : u32 ((dpx &&& 0x0000FF00) * (255 - spx >>> 24) + (spx &&& 0x0000FF00) * (spx >>> 24) + 0x00008000) >>> 8 &&&
      0x0000FF00 = 256 * mix (chan spx 1) (chan dpx 1) (spx >>> 24) := by
    have hsum : (dpx &&& 0x0000FF00) * (255 - spx >>> 24) + (spx &&& 0x0000FF00) * (spx >>> 24) + 0x00008000 =
        256 * (chan dpx 1 * (255 - spx >>> 24) + chan spx 1 * (spx >>> 24) + 128) := by
      simp only [and_g, chan, pow_one]
      ring
    rw [hsum, u32_of_lt (by omega), and_g, Nat.shiftRight_eq_div_pow]
    unfold mix
    omega
  unfold mixPixel
  dsimp only
  rw [halpha, hrb, hgg]
  exact or_pixel (Nat.lt_succ_of_lt (mix_lt (hchan _ _) (hchan _ _) ha))
    (Nat.lt_succ_of_lt (mix_lt (hchan _ _) (hchan _ _) ha)) (Nat.lt_succ_of_lt (mix_lt (hchan _ _) (hchan _ _) ha))

/-! ## Four pixels at a time -/

/-- What the loop for four pixels makes of one that it mixes: the alpha is mixed like the colours. -/
def blendPixel (dpx spx : Nat) : Nat :=
  let a := spx >>> 24
  pixel (mix (chan spx 0) (chan dpx 0) a) (mix (chan spx 1) (chan dpx 1) a) (mix (chan spx 2) (chan dpx 2) a)
    (mix (chan spx 3) (chan dpx 3) a)

/-- All four pixels from `x` on have the alpha `a`. -/
def AllAlpha (m : Mem) (s x a : Nat) : Prop := ∀ k < 4, load32 m (s + 4 * (x + k)) >>> 24 = a

instance (m : Mem) (s x a : Nat) : Decidable (AllAlpha m s x a) :=
  inferInstanceAs (Decidable (∀ k < 4, load32 m (s + 4 * (x + k)) >>> 24 = a))

/-- What it makes of the pixel `x + i`. -/
def vectorPixel (m : Mem) (d s x i : Nat) : Nat :=
  let dpx := load32 m (d + 4 * (x + i))
  let spx := load32 m (s + 4 * (x + i))
  if AllAlpha m s x 0 then dpx
  else if AllAlpha m s x 255 then spx
  else blendPixel dpx spx

/-- The mix of four pixels leaves `dpx` with the value that it has alone. A transparent pixel is scaled by
255/256, which a channel above 128 does not survive; of an opaque one nothing survives the alpha; and the
alpha of any other is the mix of both. -/
def Agrees (dpx spx : Nat) : Prop :=
  let a := spx >>> 24
  if a = 0 then ∀ c < 4, chan dpx c ≤ 128
  else a ≠ 255 ∧ a * (256 - a) ≤ chan dpx 3 * (255 - a) + 128 ∧ chan dpx 3 * (255 - a) < a * (256 - a) + 128

theorem load32_pixel (m : Mem) (a : Nat) :
    load32 m a = pixel (m a).toNat (m (a + 1)).toNat (m (a + 2)).toNat (m (a + 3)).toNat := by
  unfold load32 ByteMem.load16 pixel
  have h : a + 2 + 1 = a + 3 := rfl
  rw [h]
  omega

theorem chan_load (m : Mem) (a : Nat) : chan (load32 m a) 0 = (m a).toNat ∧ chan (load32 m a) 1 = (m (a + 1)).toNat ∧
    chan (load32 m a) 2 = (m (a + 2)).toNat ∧ chan (load32 m a) 3 = (m (a + 3)).toNat := by
  rw [load32_pixel]
  exact chan_pixel (m a).toNat_lt (m _).toNat_lt (m _).toNat_lt (m _).toNat_lt

theorem shift_load (m : Mem) (a : Nat) : load32 m a >>> 24 = (m (a + 3)).toNat := by
  rw [← (chan_load m a).2.2.2, Nat.shiftRight_eq_div_pow]
  have hlt := ByteMem.load32_lt m a
  unfold chan
  omega

theorem chan_lt (px c : Nat) : chan px c < 256 := Nat.mod_lt _ (by simp)

theorem pixel_chan {px : Nat} (h : px < 2 ^ 32) : pixel (chan px 0) (chan px 1) (chan px 2) (chan px 3) = px := by
  unfold pixel chan
  omega

theorem pixel_inj {b g r a b' g' r' a' : Nat} (hb : b < 256) (hg : g < 256) (hr : r < 256)
    (hb' : b' < 256) (hg' : g' < 256) (hr' : r' < 256) :
    pixel b g r a = pixel b' g' r' a' ↔ b = b' ∧ g = g' ∧ r = r' ∧ a = a' := by
  unfold pixel
  omega

/-- Scaled by 255/256. -/
theorem mix_zero {s d : Nat} (hd : d < 256) : mix s d 0 = d ↔ d ≤ 128 := by
  unfold mix
  omega

/-- A mixed alpha that is the source's. -/
theorem mix_alpha {d a : Nat} (ha : a < 256) :
    mix a d a = a ↔ a * (256 - a) ≤ d * (255 - a) + 128 ∧ d * (255 - a) < a * (256 - a) + 128 := by
  have hsq : a * (256 - a) + a * a = 256 * a := by
    rw [← Nat.mul_add, Nat.sub_add_cancel (Nat.le_of_lt ha), Nat.mul_comm]
  unfold mix
  generalize a * (256 - a) = x at hsq ⊢
  generalize a * a = y at hsq ⊢
  omega

theorem blendPixel_eq_scalar {dpx spx : Nat} (hd : dpx < 2 ^ 32) (hs : spx < 2 ^ 32) :
    blendPixel dpx spx = scalarPixel dpx spx ↔ Agrees dpx spx := by
  have ha : spx >>> 24 = chan spx 3 := by
    rw [Nat.shiftRight_eq_div_pow]
    unfold chan
    omega
  have hlt : ∀ c, mix (chan spx c) (chan dpx c) (spx >>> 24) < 256 := fun c =>
    Nat.lt_succ_of_lt (mix_lt (chan_lt _ _) (chan_lt _ _) (ha ▸ chan_lt spx 3))
  unfold blendPixel scalarPixel Agrees
  dsimp only
  by_cases h0 : spx >>> 24 = 0
  · have hpx := @pixel_inj _ _ _ (mix (chan spx 3) (chan dpx 3) (spx >>> 24)) _ _ _ (chan dpx 3) (hlt 0) (hlt 1) (hlt 2)
      (chan_lt dpx 0) (chan_lt dpx 1) (chan_lt dpx 2)
    rw [pixel_chan hd, h0, mix_zero (chan_lt dpx 0), mix_zero (chan_lt dpx 1), mix_zero (chan_lt dpx 2),
      mix_zero (chan_lt dpx 3)] at hpx
    rw [if_pos h0, if_pos h0, h0, hpx]
    constructor
    · intro ⟨hb, hg, hr, hda⟩ c hc
      match c, hc with
      | 0, _ => exact hb
      | 1, _ => exact hg
      | 2, _ => exact hr
      | 3, _ => exact hda
    · intro h
      exact ⟨h 0 (by simp), h 1 (by simp), h 2 (by simp), h 3 (by simp)⟩
  rw [if_neg h0, if_neg h0]
  by_cases h255 : spx >>> 24 = 255
  · rw [if_pos h255]
    refine ⟨fun h => ?_, fun h => absurd h255 h.1⟩
    have hpx := @pixel_inj _ _ _ (mix (chan spx 3) (chan dpx 3) (spx >>> 24)) _ _ _ (chan spx 3) (hlt 0) (hlt 1) (hlt 2)
      (chan_lt spx 0) (chan_lt spx 1) (chan_lt spx 2)
    rw [pixel_chan hs] at hpx
    have halpha := (hpx.mp h).2.2.2
    have hmix := mix_lt (chan_lt spx 3) (chan_lt dpx 3) (ha ▸ chan_lt spx 3)
    omega
  rw [if_neg h255, mixPixel_eq hs]
  rw [pixel_inj (hlt 0) (hlt 1) (hlt 2) (hlt 0) (hlt 1) (hlt 2)]
  have hlta : spx >>> 24 < 256 := ha ▸ chan_lt spx 3
  simp only [true_and, h255, ne_eq, not_false_eq_true]
  rw [← ha]
  exact mix_alpha hlta

theorem dwords_alpha (m : Mem) (s x : Nat) :
    Dwords (srliEpi32 (load m (s + 4 * x)) 24) fun i => load32 m (s + 4 * (x + i)) >>> 24 := by
  have h := (bytes_load m (s + 4 * x)).dwords.srli 24
  have hlane : ∀ i, ((m (s + 4 * x + 4 * i)).toNat + 256 * (m (s + 4 * x + (4 * i + 1))).toNat +
      65536 * (m (s + 4 * x + (4 * i + 2))).toNat + 16777216 * (m (s + 4 * x + (4 * i + 3))).toNat) / 2 ^ 24 =
        load32 m (s + 4 * (x + i)) >>> 24 := by
    intro i
    have hat : s + 4 * (x + i) = s + 4 * x + 4 * i := by omega
    rw [hat, load32_pixel, Nat.shiftRight_eq_div_pow]
    rfl
  simp only [hlane] at h
  exact h

/-- The comparison with a constant. -/
theorem movemask_alpha (m : Mem) (s x : Nat) {a : Nat} {v : M128} (hv : Dwords v fun _ => a) :
    movemaskEpi8 (cmpeqEpi32 (srliEpi32 (load m (s + 4 * x)) 24) v) = 0xFFFF ↔ AllAlpha m s x a :=
  movemask_cmpeq (dwords_alpha m s x) hv

theorem load32_store {m : Mem} {d x i : Nat} {v : M128} {f : Nat → Nat} (hv : Bytes v f) (hi : i < 4) :
    load32 (store m (d + 4 * x) v) (d + 4 * (x + i)) =
      pixel (f (4 * i)) (f (4 * i + 1)) (f (4 * i + 2)) (f (4 * i + 3)) := by
  have hbyte : ∀ k < 4, (store m (d + 4 * x) v (d + 4 * (x + i) + k)).toNat = f (4 * i + k) := by
    intro k hk
    have hat : d + 4 * (x + i) + k = d + 4 * x + (4 * i + k) := by omega
    rw [hat, store_of_bytes hv (by omega)]
    exact Nat.mod_eq_of_lt (hv.lt _)
  rw [load32_pixel]
  exact congr (congr (congr (congrArg pixel (hbyte 0 (by simp))) (hbyte 1 (by simp))) (hbyte 2 (by simp)))
    (hbyte 3 (by simp))

/-- A turn of the loop for four pixels. -/
theorem load32_vectorAt (m : Mem) (d s x : Nat) {i : Nat} (hi : i < 4) :
    load32 (vectorAt m d s x) (d + 4 * (x + i)) = vectorPixel m d s x i := by
  have hzero := movemask_alpha m s x (v := setzero) (a := 0) (dwords_set1 (x := 0) (by simp))
  have hfull := movemask_alpha m s x (dwords_set1 (x := 255) (by simp))
  have hat : ∀ k, s + 4 * x + (4 * i + k) = s + 4 * (x + i) + k := by omega
  have hat0 : s + 4 * x + 4 * i = s + 4 * (x + i) := hat 0
  have hatD : ∀ k, d + 4 * x + (4 * i + k) = d + 4 * (x + i) + k := by omega
  have hatD0 : d + 4 * x + 4 * i = d + 4 * (x + i) := hatD 0
  unfold vectorAt vectorPixel
  dsimp only
  by_cases h0 : AllAlpha m s x 0
  · rw [if_pos (hzero.mpr h0), if_pos h0]
  rw [if_neg (mt hzero.mp h0), if_neg h0]
  by_cases h255 : AllAlpha m s x 255
  · rw [if_pos (hfull.mpr h255), if_pos h255, load32_store (bytes_load m _) hi, load32_pixel]
    simp only [hat, hat0]
  rw [if_neg (mt hfull.mp h255), if_neg h255, load32_store (vectorMix_eq (bytes_load m _) (bytes_load m _)) hi]
  have hlane : ∀ k < 4, (4 * i + k) / 4 * 4 + 3 = 4 * i + 3 := by omega
  obtain ⟨hs0, hs1, hs2, hs3⟩ := chan_load m (s + 4 * (x + i))
  obtain ⟨hd0, hd1, hd2, hd3⟩ := chan_load m (d + 4 * (x + i))
  unfold blendPixel
  rw [hs0, hs1, hs2, hs3, hd0, hd1, hd2, hd3, shift_load]
  have hlane0 : 4 * i / 4 * 4 + 3 = 4 * i + 3 := hlane 0 (by simp)
  simp only [hlane0, hlane 1 (by simp), hlane 2 (by simp), hlane 3 (by simp), hat, hat0, hatD, hatD0]

/-- The mix of four pixels leaves each with the value that it has alone, or there is no mix. -/
def GroupOk (m : Mem) (d s x : Nat) : Prop :=
  AllAlpha m s x 0 ∨ AllAlpha m s x 255 ∨ ∀ i < 4, Agrees (load32 m (d + 4 * (x + i))) (load32 m (s + 4 * (x + i)))

theorem groupOk_iff (m : Mem) (d s x : Nat) :
    (∀ i < 4, vectorPixel m d s x i = scalarPixel (load32 m (d + 4 * (x + i))) (load32 m (s + 4 * (x + i)))) ↔
      GroupOk m d s x := by
  unfold GroupOk vectorPixel scalarPixel
  dsimp only
  by_cases h0 : AllAlpha m s x 0
  · refine ⟨fun _ => Or.inl h0, fun _ i hi => ?_⟩
    rw [if_pos h0, if_pos (h0 i hi)]
  by_cases h255 : AllAlpha m s x 255
  · refine ⟨fun _ => Or.inr (Or.inl h255), fun _ i hi => ?_⟩
    have hne : ¬ 255 = 0 := by simp
    rw [if_neg h0, if_pos h255, if_pos (h255 i hi), h255 i hi, if_neg hne]
  have hmix : ∀ i, blendPixel (load32 m (d + 4 * (x + i))) (load32 m (s + 4 * (x + i))) =
      scalarPixel (load32 m (d + 4 * (x + i))) (load32 m (s + 4 * (x + i))) ↔
        Agrees (load32 m (d + 4 * (x + i))) (load32 m (s + 4 * (x + i))) := fun i =>
    blendPixel_eq_scalar (ByteMem.load32_lt _ _) (ByteMem.load32_lt _ _)
  simp only [h0, h255, if_false, false_or, ← hmix]
  rfl

/-! ## The loops -/

theorem aligned_iff (d s x : Nat) : aligned d s x = true ↔ (d + 4 * x) % 16 = 0 ∧ (s + 4 * x) % 16 = 0 := by
  have hand : (d + 4 * x ||| s + 4 * x) &&& 0xF = (d + 4 * x) % 16 ||| (s + 4 * x) % 16 :=
    (Nat.and_two_pow_sub_one_eq_mod _ 4).trans (Nat.or_mod_two_pow (n := 4))
  unfold aligned
  rw [hand, beq_iff_eq, Nat.or_eq_zero_iff]

/-- A place where the loop for four pixels takes its turn. -/
def Grouped (d s w x : Nat) : Prop := aligned d s x = true ∧ x + 4 ≤ w

/-- What a row makes of the pixel `j`, from the memory before. -/
def RowPixel (m : Mem) (d s w j p : Nat) : Prop :=
  (∃ x i, i < 4 ∧ j = x + i ∧ Grouped d s w x ∧ p = vectorPixel m d s x i) ∨
    (∀ x i, i < 4 → j = x + i → ¬ Grouped d s w x) ∧ p = scalarPixel (load32 m (d + 4 * j)) (load32 m (s + 4 * j))

/-- The pixels before `x` are done, and nothing else has changed. -/
structure Upto (m m' : Mem) (d s w x : Nat) : Prop where
  pixels : ∀ j < x, RowPixel m d s w j (load32 m' (d + 4 * j))
  frame : ∀ a, a < d ∨ d + 4 * x ≤ a → m' a = m a

section
variable {m m' : Mem} {d s w x : Nat}

theorem mixPixel_lt {dpx spx : Nat} (hs : spx < 2 ^ 32) : mixPixel dpx spx < 2 ^ 32 := by
  have ha : spx >>> 24 < 256 := by
    rw [Nat.shiftRight_eq_div_pow]
    omega
  have hmix : ∀ c, mix (chan spx c) (chan dpx c) (spx >>> 24) < 255 := fun c => mix_lt (chan_lt _ _) (chan_lt _ _) ha
  have h0 := hmix 0
  have h1 := hmix 1
  have h2 := hmix 2
  rw [mixPixel_eq hs]
  unfold pixel
  omega

theorem load32_scalarAt (m : Mem) (d s x : Nat) :
    load32 (scalarAt m d s x) (d + 4 * x) = scalarPixel (load32 m (d + 4 * x)) (load32 m (s + 4 * x)) := by
  have hs := ByteMem.load32_lt m (s + 4 * x)
  unfold scalarAt scalarPixel
  dsimp only
  split
  · rfl
  split
  · rw [ByteMem.load32_store32, Nat.mod_eq_of_lt hs]
  · rw [ByteMem.load32_store32, Nat.mod_eq_of_lt (mixPixel_lt hs)]

theorem scalarAt_frame (m : Mem) (d s x : Nat) {a : Nat} (h : a < d + 4 * x ∨ d + 4 * (x + 1) ≤ a) :
    scalarAt m d s x a = m a := by
  have hstore : ∀ v, store32 m (d + 4 * x) v a = m a := fun v => ByteMem.store32_apply_disjoint (by omega)
  unfold scalarAt
  split
  · rfl
  split
  · exact hstore _
  · exact hstore _

theorem vectorAt_frame (m : Mem) (d s x : Nat) {a : Nat} (h : a < d + 4 * x ∨ d + 4 * (x + 4) ≤ a) :
    vectorAt m d s x a = m a := by
  have hstore : ∀ v, store m (d + 4 * x) v a = m a := by
    intro v
    unfold store
    rw [if_neg (by omega)]
  unfold vectorAt
  split
  · rfl
  split
  · exact hstore _
  · exact hstore _

/-- What has not been reached is as before, in both rows. -/
theorem Upto.load (h : Upto m m' d s w x) {j : Nat} (hj : x ≤ j) : load32 m' (d + 4 * j) = load32 m (d + 4 * j) :=
  @AgreeOn.load32 _ _ (d + 4 * j) (d + 4 * j + 4) _ (fun a hl _ => h.frame a (by omega)) (by omega) (by omega)

theorem Upto.load_source (h : Upto m m' d s w x) (hx : x ≤ w) (hapart : d + 4 * w ≤ s ∨ s + 4 * w ≤ d) {j : Nat}
    (hj : j < w) : load32 m' (s + 4 * j) = load32 m (s + 4 * j) :=
  @AgreeOn.load32 _ _ (s + 4 * j) (s + 4 * j + 4) _ (fun a hl hh => h.frame a (by omega)) (by omega) (by omega)

/-- The pixels that are done stay so. -/
theorem Upto.keep (h : Upto m m' d s w x) {m'' : Mem} (hm : ∀ a, a < d + 4 * x → m'' a = m' a) {j : Nat} (hj : j < x) :
    RowPixel m d s w j (load32 m'' (d + 4 * j)) := by
  have hload : load32 m'' (d + 4 * j) = load32 m' (d + 4 * j) :=
    @AgreeOn.load32 _ _ (d + 4 * j) (d + 4 * j + 4) _ (fun a _ hh => hm a (by omega)) (by omega) (by omega)
  rw [hload]
  exact h.pixels j hj

theorem Upto.scalarAt (h : Upto m m' d s w x) (hapart : d + 4 * w ≤ s ∨ s + 4 * w ≤ d) (hx : x < w)
    (halone : ∀ y i, i < 4 → x = y + i → ¬ Grouped d s w y) : Upto m (scalarAt m' d s x) d s w (x + 1) := by
  constructor
  · intro j hj
    by_cases hjx : j < x
    · exact h.keep (fun a ha => scalarAt_frame m' d s x (Or.inl ha)) hjx
    obtain rfl : j = x := by omega
    refine Or.inr ⟨halone, ?_⟩
    rw [load32_scalarAt, h.load (Nat.le_refl _), h.load_source (Nat.le_of_lt hx) hapart hx]
  · intro a ha
    rw [scalarAt_frame m' d s x (by omega)]
    exact h.frame a (by omega)

theorem Upto.vectorAt (h : Upto m m' d s w x) (hapart : d + 4 * w ≤ s ∨ s + 4 * w ≤ d) (hx : Grouped d s w x) :
    Upto m (vectorAt m' d s x) d s w (x + 4) := by
  have hw := hx.2
  have hsource : ∀ i < 4, load32 m' (s + 4 * (x + i)) = load32 m (s + 4 * (x + i)) := fun i hi =>
    h.load_source (by omega) hapart (by omega)
  have halpha : ∀ a, AllAlpha m' s x a ↔ AllAlpha m s x a := fun a =>
    forall₂_congr fun i hi => by rw [hsource i hi]
  constructor
  · intro j hj
    by_cases hjx : j < x
    · exact h.keep (fun a ha => vectorAt_frame m' d s x (Or.inl ha)) hjx
    obtain ⟨i, rfl⟩ := Nat.exists_eq_add_of_le (Nat.le_of_not_lt hjx)
    have hi : i < 4 := by omega
    refine Or.inl ⟨x, i, hi, rfl, hx, ?_⟩
    rw [load32_vectorAt m' d s x hi]
    unfold vectorPixel
    rw [h.load (Nat.le_add_right x i), hsource i hi]
    simp only [halpha]
  · intro a ha
    rw [vectorAt_frame m' d s x (by omega)]
    exact h.frame a (by omega)

/-- It depends on the two rows alone. -/
theorem RowPixel.congr {j p : Nat} (h : RowPixel m' d s w j p)
    (hd : ∀ j < w, load32 m' (d + 4 * j) = load32 m (d + 4 * j))
    (hs : ∀ j < w, load32 m' (s + 4 * j) = load32 m (s + 4 * j)) (hj : j < w) : RowPixel m d s w j p := by
  obtain ⟨x, i, hi, hji, hg, hp⟩ | ⟨halone, hp⟩ := h
  · have hw := hg.2
    have halpha : ∀ a, AllAlpha m' s x a ↔ AllAlpha m s x a := fun a =>
      forall₂_congr fun i hi => by rw [hs _ (by omega)]
    refine Or.inl ⟨x, i, hi, hji, hg, ?_⟩
    rw [hp]
    unfold vectorPixel
    rw [hd _ (by omega), hs _ (by omega)]
    simp only [halpha]
  · refine Or.inr ⟨halone, ?_⟩
    rw [hp, hd j hj, hs j hj]

/-- The first loop ends at the first place where both rows are aligned. -/
theorem headLoop_upto (hapart : d + 4 * w ≤ s ∨ s + 4 * w ≤ d) (n : Nat) (hx : x + n = w) (h : Upto m m' d s w x)
    (hbefore : ∀ j < x, ¬ aligned d s j = true) :
    Upto m (headLoop d s n x m').2 d s w (headLoop d s n x m').1 ∧ (headLoop d s n x m').1 ≤ w ∧
      (aligned d s (headLoop d s n x m').1 = true ∨ (headLoop d s n x m').1 = w) := by
  induction n generalizing x m' with
  | zero => exact ⟨h, Nat.le_of_eq hx, Or.inr hx⟩
  | succ n ih =>
    unfold headLoop
    by_cases ha : aligned d s x = true
    · rw [if_pos ha]
      exact ⟨h, by omega, Or.inl ha⟩
    rw [if_neg ha]
    have hupto : ∀ j < x + 1, ¬ aligned d s j = true := by
      intro j hj
      by_cases hjx : j < x
      · exact hbefore j hjx
      obtain rfl : j = x := by omega
      exact ha
    exact ih (by omega) (h.scalarAt hapart (by omega) fun y i _ hy hg => hupto y (by omega) hg.1) hupto

/-- The places of the second loop are four pixels apart, and so they are aligned as well. -/
theorem vectorLoop_upto (hapart : d + 4 * w ≤ s ∨ s + 4 * w ≤ d) (n : Nat) (hn : w ≤ x + 4 * n) (hx : x ≤ w)
    (h : Upto m m' d s w x) (ha : aligned d s x = true ∨ x = w) :
    Upto m (vectorLoop d s w n x m').2 d s w (vectorLoop d s w n x m').1 ∧ (vectorLoop d s w n x m').1 ≤ w ∧
      w < (vectorLoop d s w n x m').1 + 4 ∧
        (aligned d s (vectorLoop d s w n x m').1 = true ∨ (vectorLoop d s w n x m').1 = w) := by
  induction n generalizing x m' with
  | zero => exact ⟨h, hx, show w < x + 4 by omega, ha⟩
  | succ n ih =>
    unfold vectorLoop
    by_cases hw : x + 4 ≤ w
    · rw [if_pos hw]
      have hax : aligned d s x = true := ha.resolve_right (by omega)
      have hnext : aligned d s (x + 4) = true := by
        rw [aligned_iff] at hax ⊢
        omega
      exact ih (by omega) hw (h.vectorAt hapart ⟨hax, hw⟩) (Or.inl hnext)
    · rw [if_neg hw]
      exact ⟨h, hx, by omega, ha⟩

theorem tailLoop_upto (hapart : d + 4 * w ≤ s ∨ s + 4 * w ≤ d) (n : Nat) (hx : x + n = w) (h : Upto m m' d s w x)
    (halone : ∀ j, x ≤ j → j < w → ∀ y i, i < 4 → j = y + i → ¬ Grouped d s w y) :
    Upto m (tailLoop d s n x m') d s w w := by
  induction n generalizing x m' with
  | zero =>
    obtain rfl : x = w := hx
    exact h
  | succ n ih =>
    exact ih (by omega) (h.scalarAt hapart (by omega) (halone x (Nat.le_refl x) (by omega)))
      fun j hj => halone j (by omega)

/-- Every pixel of a row, by the loop that it falls to. -/
theorem blendRow_upto (m : Mem) (hapart : d + 4 * w ≤ s ∨ s + 4 * w ≤ d) : Upto m (blendRow m d s w) d s w w := by
  have hstart : Upto m m d s w 0 := ⟨fun j hj => absurd hj (Nat.not_lt_zero j), fun _ _ => rfl⟩
  obtain ⟨hhead, hheadLe, hheadAt⟩ := headLoop_upto hapart w (Nat.zero_add w) hstart fun j hj =>
    absurd hj (Nat.not_lt_zero j)
  obtain ⟨hvector, hvectorLe, hlast, hvectorAt⟩ := vectorLoop_upto hapart w (by omega) hheadLe hhead hheadAt
  refine tailLoop_upto hapart _ (Nat.add_sub_cancel' hvectorLe) hvector fun j hj hjw y i hi hy hg => ?_
  -- a place from where the second loop would have reached `j` lies before its end
  obtain ⟨hgy, hgw⟩ := hg
  rw [aligned_iff] at hgy hvectorAt
  omega

end

/-- The rows of the destination do not overlap each other or a row of the source. -/
structure RowsApart (dst dstPitch src srcPitch dstX dstY srcX srcY w h : Nat) : Prop where
  rows : ∀ y < h, ∀ z < h, y ≠ z →
    rowAddr dst dstPitch dstX (u32 (dstY + y)) + 4 * w ≤ rowAddr dst dstPitch dstX (u32 (dstY + z)) ∨
      rowAddr dst dstPitch dstX (u32 (dstY + z)) + 4 * w ≤ rowAddr dst dstPitch dstX (u32 (dstY + y))
  source : ∀ y < h, ∀ z < h,
    rowAddr dst dstPitch dstX (u32 (dstY + y)) + 4 * w ≤ rowAddr src srcPitch srcX (u32 (srcY + z)) ∨
      rowAddr src srcPitch srcX (u32 (srcY + z)) + 4 * w ≤ rowAddr dst dstPitch dstX (u32 (dstY + y))

/-- One row need only be apart from its source. -/
theorem RowsApart.one {dst dstPitch src srcPitch dstX dstY srcX srcY w : Nat}
    (h : rowAddr dst dstPitch dstX (u32 dstY) + 4 * w ≤ rowAddr src srcPitch srcX (u32 srcY) ∨
      rowAddr src srcPitch srcX (u32 srcY) + 4 * w ≤ rowAddr dst dstPitch dstX (u32 dstY)) :
    RowsApart dst dstPitch src srcPitch dstX dstY srcX srcY w 1 where
  rows y hy z hz hyz := absurd ((Nat.lt_one_iff.mp hy).trans (Nat.lt_one_iff.mp hz).symm) hyz
  source y hy z hz := by
    rw [Nat.lt_one_iff.mp hy, Nat.lt_one_iff.mp hz]
    exact h

/-- The rows before `n` of a picture with the rows `D` over the rows `S`. -/
theorem blendRows_spec {D S : Nat → Nat} {w h : Nat}
    (hrows : ∀ y < h, ∀ z < h, y ≠ z → D y + 4 * w ≤ D z ∨ D z + 4 * w ≤ D y)
    (hsource : ∀ y < h, ∀ z < h, D y + 4 * w ≤ S z ∨ S z + 4 * w ≤ D y) (m : Mem) (n : Nat) (hn : n ≤ h) :
    (∀ y < n, ∀ x < w, RowPixel m (D y) (S y) w x
        (load32 ((List.range n).foldl (fun m y => blendRow m (D y) (S y) w) m) (D y + 4 * x))) ∧
      ∀ a, (∀ y < n, a < D y ∨ D y + 4 * w ≤ a) →
        (List.range n).foldl (fun m y => blendRow m (D y) (S y) w) m a = m a := by
  induction n with
  | zero => exact ⟨fun y hy => absurd hy (Nat.not_lt_zero y), fun _ _ => rfl⟩
  | succ n ih =>
    obtain ⟨hpixels, hframe⟩ := ih (Nat.le_of_succ_le hn)
    rw [List.range_succ, List.foldl_append, List.foldl_cons, List.foldl_nil]
    generalize (List.range n).foldl (fun m y => blendRow m (D y) (S y) w) m = m' at hpixels hframe ⊢
    have hrow := blendRow_upto m' (hsource n hn n hn)
    have hload : ∀ b, (∀ y < n, b + 4 * w ≤ D y ∨ D y + 4 * w ≤ b) → ∀ x < w,
        load32 m' (b + 4 * x) = load32 m (b + 4 * x) := by
      intro b hb x hx
      refine @AgreeOn.load32 _ _ b (b + 4 * w) _ (fun a hl hh => hframe a fun y hy => ?_) (by omega) (by omega)
      have h := hb y hy
      omega
    have hdest := hload (D n) fun y hy => hrows n hn y (by omega) (by omega)
    have hsrc := hload (S n) fun y hy => (hsource y (by omega) n hn).symm
    constructor
    · intro y hy x hx
      by_cases hyn : y < n
      · have hkeep : load32 (blendRow m' (D n) (S n) w) (D y + 4 * x) = load32 m' (D y + 4 * x) := by
          have hap := hrows y (by omega) n hn (by omega)
          exact @AgreeOn.load32 _ _ (D y) (D y + 4 * w) _ (fun a hl hh => hrow.frame a (by omega)) (by omega) (by omega)
        rw [hkeep]
        exact hpixels y hyn x hx
      obtain rfl : y = n := by omega
      exact (hrow.pixels x hx).congr hdest hsrc hx
    · intro a ha
      rw [hrow.frame a (ha n (Nat.lt_succ_self n))]
      exact hframe a fun y hy => ha y (Nat.lt_succ_of_lt hy)

/-! ## The picture -/

/-- A picture over another, with the alpha of the upper one: a rounded mix of each colour. -/
def overPixel (dpx spx : Nat) : Nat :=
  let a := spx >>> 24
  if a = 0 then dpx
  else if a = 255 then spx
  else pixel (mix (chan spx 0) (chan dpx 0) a) (mix (chan spx 1) (chan dpx 1) a) (mix (chan spx 2) (chan dpx 2) a) a

theorem scalarPixel_eq_over {dpx spx : Nat} (hs : spx < 2 ^ 32) : scalarPixel dpx spx = overPixel dpx spx := by
  unfold scalarPixel overPixel
  rw [mixPixel_eq hs]

/-- Every pixel gets the value of the loop for one pixel exactly when the loop for four pixels finds only groups
where its mix is the same. -/
theorem blendAreaStride_scalar (m : Mem) {dst dstPitch src srcPitch dstX dstY srcX srcY w h : Nat} (hdst : dst ≠ 0)
    (hsrc : src ≠ 0) (hapart : RowsApart dst dstPitch src srcPitch dstX dstY srcX srcY w h) :
    (∀ y < h, ∀ x < w,
        load32 (blendAreaStride m dst dstPitch src srcPitch dstX dstY srcX srcY w h)
            (rowAddr dst dstPitch dstX (u32 (dstY + y)) + 4 * x) =
          scalarPixel (load32 m (rowAddr dst dstPitch dstX (u32 (dstY + y)) + 4 * x))
            (load32 m (rowAddr src srcPitch srcX (u32 (srcY + y)) + 4 * x)) ∧
        load32 (blendAreaStride m dst dstPitch src srcPitch dstX dstY srcX srcY w h)
            (rowAddr dst dstPitch dstX (u32 (dstY + y)) + 4 * x) =
          overPixel (load32 m (rowAddr dst dstPitch dstX (u32 (dstY + y)) + 4 * x))
            (load32 m (rowAddr src srcPitch srcX (u32 (srcY + y)) + 4 * x))) ↔
      ∀ y < h, ∀ x,
        Grouped (rowAddr dst dstPitch dstX (u32 (dstY + y))) (rowAddr src srcPitch srcX (u32 (srcY + y))) w x →
          GroupOk m (rowAddr dst dstPitch dstX (u32 (dstY + y))) (rowAddr src srcPitch srcX (u32 (srcY + y))) x := by
  have hspec : ∀ y < h, ∀ x < w, RowPixel m (rowAddr dst dstPitch dstX (u32 (dstY + y)))
      (rowAddr src srcPitch srcX (u32 (srcY + y))) w x
        (load32 (blendAreaStride m dst dstPitch src srcPitch dstX dstY srcX srcY w h)
          (rowAddr dst dstPitch dstX (u32 (dstY + y)) + 4 * x)) := by
    intro y hy x hx
    unfold blendAreaStride
    rw [if_neg (by omega)]
    exact (blendRows_spec hapart.rows hapart.source m h (Nat.le_refl h)).1 y hy x hx
  constructor
  · intro hscalar y hy x hx
    rw [← groupOk_iff]
    intro i hi
    have hw := hx.2
    obtain ⟨x', i', hi', hxi, hg, hp⟩ | ⟨halone, _⟩ := hspec y hy (x + i) (by omega)
    · -- the groups do not overlap
      have hsame : x' = x := by
        have hax := hx.1
        have hax' := hg.1
        rw [aligned_iff] at hax hax'
        omega
      obtain rfl := hsame
      obtain rfl : i' = i := by omega
      rw [← hp]
      exact (hscalar y hy (x' + i') (by omega)).1
    · exact absurd hx (halone x i hi rfl)
  · intro hok y hy x hx
    have hpixel : load32 (blendAreaStride m dst dstPitch src srcPitch dstX dstY srcX srcY w h)
        (rowAddr dst dstPitch dstX (u32 (dstY + y)) + 4 * x) =
          scalarPixel (load32 m (rowAddr dst dstPitch dstX (u32 (dstY + y)) + 4 * x))
            (load32 m (rowAddr src srcPitch srcX (u32 (srcY + y)) + 4 * x)) := by
      obtain ⟨x', i, hi, hxi, hg, hp⟩ | ⟨_, hp⟩ := hspec y hy x hx
      · rw [hp, (groupOk_iff _ _ _ _).mpr (hok y hy x' hg) i hi, hxi]
      · exact hp
    exact ⟨hpixel, hpixel.trans (scalarPixel_eq_over (ByteMem.load32_lt _ _))⟩

/-- Opaque pixels: three before the rows are aligned, and a group of four. -/
theorem blendAreaStride_scalar_opaque :
    load32 (blendAreaStride (fun a => if 8192 ≤ a then 255 else 7) 4096 32 8192 32 1 0 1 0 7 1) (4100 + 4 * 6) =
      0xFFFFFFFF := by
  have hapart : RowsApart 4096 32 8192 32 1 0 1 0 7 1 := .one (Or.inl (by decide))
  have h := (blendAreaStride_scalar (fun a => if 8192 ≤ a then 255 else 7) (by simp) (by simp)
    hapart).mpr fun y hy x hx => by
    refine Or.inr (Or.inl fun k hk => ?_)
    obtain rfl : y = 0 := by omega
    have hrow : rowAddr 8192 32 1 (u32 (0 + 0)) = 8196 := rfl
    rw [shift_load, hrow, if_pos (by omega)]
    rfl
  exact (h 0 (by simp) 6 (by simp)).1

/-- One opaque pixel between transparent ones, over white: it loses its alpha, and they their white. -/
theorem blendAreaStride_mixed_group :
    ¬ ∀ (m : Mem) (dst dstPitch src srcPitch dstX dstY srcX srcY w h : Nat), dst ≠ 0 → src ≠ 0 →
      RowsApart dst dstPitch src srcPitch dstX dstY srcX srcY w h → ∀ y < h, ∀ x < w,
        load32 (blendAreaStride m dst dstPitch src srcPitch dstX dstY srcX srcY w h)
            (rowAddr dst dstPitch dstX (u32 (dstY + y)) + 4 * x) =
          scalarPixel (load32 m (rowAddr dst dstPitch dstX (u32 (dstY + y)) + 4 * x))
            (load32 m (rowAddr src srcPitch srcX (u32 (srcY + y)) + 4 * x)) := by
  intro h
  have hapart : RowsApart 4096 16 8192 16 0 0 0 0 4 1 := .one (Or.inl (by decide))
  have hpx := h (fun a => if a < 8196 then 255 else 0) 4096 16 8192 16 0 0 0 0 4 1 (by simp) (by simp)
    hapart 0 (by simp) 1 (by simp)
  revert hpx
  decide +kernel

end Serotonin.Vbe
