import Mathlib.Data.List.TakeWhile
import Mathlib.Tactic.Common
import Serotonin.Stdio.Model

/-! What a format is, apart from the loop that reads it: characters and conversions one after the
other, and the text that they stand for. The loop puts out that text, unless the format ends inside
a conversion or asks for a width that is no `int`. -/

namespace Serotonin.Stdio

variable {m : Machine} {args : Nat → BitVec 32} {stop : Nat}

/-! ## Pieces -/

inductive Piece
  | plain (c : UInt8)
  | conversion (f : Options) (letter : UInt8)

/-- The number that digits stand for. -/
def widthOf (digits : List UInt8) (width : Nat) : Nat := digits.foldl (fun w c => w * 10 + (c.toNat - 48)) width

/-- The options at the start of a string, and what is left behind them. -/
def options (p : List UInt8) : Options × List UInt8 :=
  let digits := if peek p = 48 then p.tail else p
  let (length, rest) := scanLength (digits.dropWhile isWidthDigit)
  (⟨if peek p = 48 then 48 else 32, widthOf (digits.takeWhile isWidthDigit) 0, length⟩, rest)

theorem length_options (p : List UInt8) : (options p).2.length ≤ p.length := by
  have htail : (if peek p = 48 then p.tail else p).length ≤ p.length := by split <;> simp
  exact Nat.le_trans (length_scanLength _) (Nat.le_trans (List.length_dropWhile_le _ _) htail)

/-- The pieces of a format, if it does not end inside one of them. -/
def pieces : List UInt8 → Option (List Piece)
  | [] => some []
  | c :: p =>
    if c = 37 ∧ p ≠ [] then
      match _hrest : (options p).2 with
      | [] => none
      | letter :: rest => (pieces rest).map (.conversion (options p).1 letter :: ·)
    else (pieces p).map (.plain c :: ·)
termination_by p => p.length
decreasing_by
  · have hle := length_options p
    rw [_hrest] at hle
    simp only [List.length_cons] at hle ⊢
    omega
  · simp

/-- The width of a conversion is an `int`. -/
def Piece.fits : Piece → Bool
  | .plain _ => true
  | .conversion f _ => f.width < 2 ^ 31

/-! ## Text -/

/-- A number, with fill characters before it up to a width. -/
def filled (padChar : UInt8) (width : Nat) (number : List UInt8) : List UInt8 :=
  List.replicate (width - number.length) padChar ++ number

/-- The text of a conversion, and the number of words that it takes. -/
def convertText (m : Machine) (f : Options) (letter : UInt8) (args : Nat → BitVec 32) (i : Nat) : List UInt8 × Nat :=
  match Char.ofNat letter.toNat with
  | 'd' => (filled f.padChar f.width (lltoa (signedArg f.length (args i))), 1)
  | 'u' => (filled f.padChar f.width (ulltoa (unsignedArg f.length (args i))), 1)
  | 'x' => (filled f.padChar f.width (ulltoaHex (unsignedArg f.length (args i))), 1)
  | 's' => (if args i = 0 then nullText else m.string (args i), 1)
  | 'c' => ([.ofNat (args i).toNat], 1)
  | 'p' => ([48, 120] ++ filled f.padChar f.width (ulltoaHex (args i).toNat), 1)
  | 'f' => (m.ftoa (args i) (args (i + 1)), 1)
  | '%' => ([37], 0)
  | _ => ([37, letter], 0)

def text (m : Machine) (args : Nat → BitVec 32) (i : Nat) : List Piece → List UInt8
  | [] => []
  | .plain c :: ps => c :: text m args i ps
  | .conversion f letter :: ps => (convertText m f letter args i).1 ++ text m args (i + (convertText m f letter args i).2) ps

/-! ## The loop puts out the text -/

theorem bufPuts_append (o : Out) (stop : Nat) (s t : List UInt8) : bufPuts o stop (s ++ t) = bufPuts (bufPuts o stop s) stop t :=
  List.foldl_append

theorem padLoop_eq (stop : Nat) (padChar : UInt8) (len : Nat) (o : Out) (width : Nat) :
    padLoop o stop padChar len width = bufPuts o stop (List.replicate (width - len) padChar) := by
  induction width generalizing o with
  | zero => simp [padLoop, bufPuts]
  | succ width ih =>
    unfold padLoop
    split
    · next hlt =>
      rw [ih, Nat.succ_sub (Nat.le_of_lt_succ hlt), List.replicate_succ]
      rfl
    · next hge =>
      rw [Nat.sub_eq_zero_of_le (Nat.le_of_not_lt hge)]
      rfl

theorem putNumber_eq (o : Out) (stop : Nat) (padChar : UInt8) (width : Nat) (number : List UInt8) :
    putNumber o stop padChar width number = bufPuts o stop (filled padChar width number) := by
  rw [putNumber, padLoop_eq, filled, bufPuts_append]

theorem convert_eq (o : Out) (f : Options) (letter : UInt8) (i : Nat) : convert m o stop f letter args i =
    (bufPuts o stop (convertText m f letter args i).1, (convertText m f letter args i).2) := by
  unfold convert convertText
  generalize Char.ofNat letter.toNat = c
  simp only [putNumber_eq]
  split
  · rfl
  · rfl
  · rfl
  · rfl
  · rfl
  · exact congrArg (·, 1) (bufPuts_append _ _ _ _).symm
  · rfl
  · rfl
  · simp [*, bufPuts]

theorem le_widthOf (digits : List UInt8) (width : Nat) : width ≤ widthOf digits width := by
  induction digits generalizing width with
  | nil => exact Nat.le_refl _
  | cons c digits ih =>
    refine Nat.le_trans ?_ (ih (width * 10 + (c.toNat - 48)))
    omega

/-- The digits are read up to the first that makes the width too large. -/
theorem scanWidth_eq (p : List UInt8) (width : Nat) (h : width < 2 ^ 31) : scanWidth width p =
    if widthOf (p.takeWhile isWidthDigit) width < 2 ^ 31 then
      some (widthOf (p.takeWhile isWidthDigit) width, p.dropWhile isWidthDigit)
    else none := by
  induction p generalizing width with
  | nil => exact (if_pos h).symm
  | cons c p ih =>
    by_cases hdigit : isWidthDigit c
    · rw [scanWidth, if_pos hdigit, List.takeWhile_cons_of_pos hdigit, List.dropWhile_cons_of_pos hdigit]
      by_cases hfits : width * 10 + (c.toNat - 48) < 2 ^ 31
      · rw [if_pos hfits, ih _ hfits]
        rfl
      · have hle := le_widthOf (p.takeWhile isWidthDigit) (width * 10 + (c.toNat - 48))
        rw [if_neg hfits]
        exact (if_neg fun hlt => hfits (Nat.lt_of_le_of_lt hle hlt)).symm
    · rw [scanWidth, if_neg hdigit, List.takeWhile_cons_of_neg hdigit, List.dropWhile_cons_of_neg hdigit]
      exact (if_pos h).symm

theorem scanOptions_eq (p : List UInt8) : scanOptions p = if (options p).1.width < 2 ^ 31 then some (options p) else none := by
  unfold scanOptions
  dsimp only
  rw [scanWidth_eq _ 0 (by decide)]
  by_cases hfits : (options p).1.width < 2 ^ 31
  · rw [if_pos hfits]
    have hfits' : widthOf ((if peek p = 48 then p.tail else p).takeWhile isWidthDigit) 0 < 2 ^ 31 := hfits
    rw [if_pos hfits']
    rfl
  · rw [if_neg hfits]
    have hfits' : ¬widthOf ((if peek p = 48 then p.tail else p).takeWhile isWidthDigit) 0 < 2 ^ 31 := hfits
    rw [if_neg hfits']

theorem formatLoop_percent {p : List UInt8} (hp : p ≠ []) (o : Out) (i : Nat) : formatLoop m stop args i o (37 :: p) =
    (scanOptions p).bind fun r => match r.2 with
      | [] => none
      | letter :: p' => formatLoop m stop args (i + (convert m o stop r.1 letter args i).2)
          (convert m o stop r.1 letter args i).1 p' := by
  rw [formatLoop, if_pos ⟨rfl, hp⟩]
  split
  · next hscan => rw [hscan, Option.bind_none]
  · next hscan => rw [hscan, Option.bind_some]
  · next hscan => rw [hscan, Option.bind_some]

theorem formatLoop_plain {c : UInt8} {p : List UInt8} (h : ¬(c = 37 ∧ p ≠ [])) (o : Out) (i : Nat) :
    formatLoop m stop args i o (c :: p) = formatLoop m stop args i (bufPutchar o stop c) p := by
  rw [formatLoop, if_neg h]

/-- The loop puts out the text of the pieces. -/
theorem formatLoop_eq (p : List UInt8) (o : Out) (i : Nat) : formatLoop m stop args i o p =
    ((pieces p).filter (·.all Piece.fits)).map fun ps => bufPuts o stop (text m args i ps) := by
  fun_induction pieces p generalizing o i with
  | case1 =>
    rw [formatLoop]
    rfl
  | case2 c p hpercent hend =>
    rw [hpercent.1, formatLoop_percent hpercent.2, scanOptions_eq]
    split
    · rw [Option.bind_some, hend]
      rfl
    · rfl
  | case3 c p hpercent letter rest hrest ih =>
    rw [hpercent.1, formatLoop_percent hpercent.2, scanOptions_eq]
    split
    · next hfits =>
      rw [Option.bind_some, hrest]
      dsimp only
      rw [ih, convert_eq]
      cases pieces rest with
      | none => rfl
      | some ps =>
        have hhead : (Piece.conversion (options p).1 letter).fits = true := decide_eq_true hfits
        simp [Option.filter, hhead, text, bufPuts_append]
    · next hlarge =>
      cases pieces rest with
      | none => rfl
      | some ps =>
        have hhead : (Piece.conversion (options p).1 letter).fits = false := decide_eq_false hlarge
        simp [Option.filter, hhead]
  | case4 c p hplain ih =>
    rw [formatLoop_plain hplain, ih]
    cases pieces p with
    | none => rfl
    | some ps => simp [Option.filter, Piece.fits, text, bufPuts]

end Serotonin.Stdio
