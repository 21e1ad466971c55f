import Serotonin.Lib.ByteMem

/-! Formatted output into memory, `sprintf_internal` of `stdio/stdio.c`. The format is its bytes
before the terminator, and a position in it is what is left of it: at the terminator that is
nothing, and behind it there is no position. The arguments are the words of the stack behind the
format, and `Machine` has what the words that are pointers stand for. -/

namespace Serotonin.Stdio

open ByteMem (u32 int32)

/-- The string at an address, and the text that `ftoa` makes of two words. -/
structure Machine where
  string : BitVec 32 → List UInt8
  ftoa : BitVec 32 → BitVec 32 → List UInt8

/-! ## Numbers -/

/-- The loop of `lltoa`, `ulltoa` and `ulltoa_hex`: the digits from the last one on, in an array of
`n` of them. -/
def digitLoop (base : Nat) (digit : Nat → UInt8) : Nat → Nat → List UInt8
  | 0, _ => []
  | n + 1, value => digit (value % base) :: if value / base = 0 then [] else digitLoop base digit n (value / base)

def decimalDigit (d : Nat) : UInt8 := .ofNat (48 + d)

def hexDigit (d : Nat) : UInt8 := .ofNat (if d < 10 then 48 + d else 87 + d)

def ulltoa (value : Nat) : List UInt8 := (digitLoop 10 decimalDigit 32 value).reverse

def lltoa (value : Int) : List UInt8 := if value < 0 then 45 :: ulltoa value.natAbs else ulltoa value.natAbs

def ulltoaHex (value : Nat) : List UInt8 := (digitLoop 16 hexDigit 16 value).reverse

/-! ## The buffer -/

/-- Memory and the place in it to write to. `written` is no part of the program: the addresses
written so far. -/
structure Out where
  out : Nat
  mem : Nat → UInt8
  written : List Nat

def Out.store (o : Out) (a : Nat) (c : UInt8) : Out :=
  { o with mem := fun x => if x = a then c else o.mem x, written := a :: o.written }

def bufPutchar (o : Out) (stop : Nat) (c : UInt8) : Out :=
  let o' := if o.out < stop then o.store o.out c else o
  { o' with out := u32 (o.out + 1) }

def bufPuts (o : Out) (stop : Nat) (s : List UInt8) : Out := s.foldl (bufPutchar · stop ·) o

/-- The loop that counts the width down to the length. -/
def padLoop (o : Out) (stop : Nat) (padChar : UInt8) (len : Nat) : Nat → Out
  | 0 => o
  | width + 1 => if len < width + 1 then padLoop (bufPutchar o stop padChar) stop padChar len width else o

/-- A number in `tmpbuf`, filled up to the width. -/
def putNumber (o : Out) (stop : Nat) (padChar : UInt8) (width : Nat) (tmpbuf : List UInt8) : Out :=
  bufPuts (padLoop o stop padChar tmpbuf.length width) stop tmpbuf

/-! ## Conversions -/

inductive Length
  | none
  | hh
  | h
  | l
  | ll
deriving DecidableEq

/-- What is at the place: the terminator, if nothing is left. -/
def peek (p : List UInt8) : UInt8 := p.headD 0

def isWidthDigit (c : UInt8) : Bool := 48 ≤ c && c ≤ 57

/-- The digits of the width; it is an `int`, which must not overflow. -/
def scanWidth (width : Nat) : List UInt8 → Option (Nat × List UInt8)
  | [] => some (width, [])
  | c :: p =>
    if isWidthDigit c then
      if width * 10 + (c.toNat - 48) < 2 ^ 31 then scanWidth (width * 10 + (c.toNat - 48)) p else none
    else some (width, c :: p)

def scanLength (p : List UInt8) : Length × List UInt8 :=
  if peek p = 104 then if peek p.tail = 104 then (.hh, p.drop 2) else (.h, p.tail)
  else if peek p = 108 then if peek p.tail = 108 then (.ll, p.drop 2) else (.l, p.tail)
  else (.none, p)

/-- What stands between the percent sign and the letter of a conversion. -/
structure Options where
  padChar : UInt8
  width : Nat
  length : Length

def scanOptions (p : List UInt8) : Option (Options × List UInt8) :=
  let padChar : UInt8 := if peek p = 48 then 48 else 32
  match scanWidth 0 (if peek p = 48 then p.tail else p) with
  | .none => .none
  | some (width, p) => some (⟨padChar, width, (scanLength p).1⟩, (scanLength p).2)

/-- The value of a word under `%d`. -/
def signedArg (length : Length) (arg : BitVec 32) : Int :=
  match length with
  | .hh => (arg.truncate 8).toInt
  | .h => (arg.truncate 16).toInt
  | .l | .ll | .none => arg.toInt

def unsignedArg (length : Length) (arg : BitVec 32) : Nat :=
  match length with
  | .hh => (arg.truncate 8).toNat
  | .h => (arg.truncate 16).toNat
  | .l | .ll | .none => arg.toNat

/-- `(null)`. -/
def nullText : List UInt8 := [40, 110, 117, 108, 108, 41]

/-- The `switch` over the letter, with the number of words that it takes. -/
def convert (m : Machine) (o : Out) (stop : Nat) (f : Options) (letter : UInt8) (args : Nat → BitVec 32) (i : Nat) : Out × Nat :=
  match Char.ofNat letter.toNat with
  | 'd' => (putNumber o stop f.padChar f.width (lltoa (signedArg f.length (args i))), 1)
  | 'u' => (putNumber o stop f.padChar f.width (ulltoa (unsignedArg f.length (args i))), 1)
  | 'x' => (putNumber o stop f.padChar f.width (ulltoaHex (unsignedArg f.length (args i))), 1)
  | 's' => (bufPuts o stop (if args i = 0 then nullText else m.string (args i)), 1)
  | 'c' => (bufPutchar o stop (.ofNat (args i).toNat), 1)
  | 'p' => (putNumber (bufPuts o stop [48, 120]) stop f.padChar f.width (ulltoaHex (args i).toNat), 1)
  | 'f' => (bufPuts o stop (m.ftoa (args i) (args (i + 1))), 1)
  | '%' => (bufPutchar o stop 37, 0)
  | _ => (bufPutchar (bufPutchar o stop 37) stop letter, 0)

theorem length_scanWidth {width : Nat} {p : List UInt8} {r : Nat × List UInt8} (h : scanWidth width p = some r) :
    r.2.length ≤ p.length := by
  induction p generalizing width with
  | nil =>
    cases h
    exact Nat.le_refl _
  | cons c p ih =>
    simp only [scanWidth] at h
    split at h
    · split at h
      · exact Nat.le_succ_of_le (ih h)
      · cases h
    · cases h
      exact Nat.le_refl _

theorem length_scanLength (p : List UInt8) : (scanLength p).2.length ≤ p.length := by
  unfold scanLength
  repeat' split
  all_goals simp

theorem length_scanOptions {p : List UInt8} {r : Options × List UInt8} (h : scanOptions p = some r) : r.2.length ≤ p.length := by
  unfold scanOptions at h
  dsimp only at h
  split at h
  · cases h
  · next width p' hwidth =>
    cases h
    have htail : (if peek p = 48 then p.tail else p).length ≤ p.length := by split <;> simp
    exact Nat.le_trans (length_scanLength p') (Nat.le_trans (length_scanWidth hwidth) htail)

/-- The loop of `sprintf_internal`. If the format ends inside a conversion, the terminator is taken
for its letter, and the next byte that is read is behind it. -/
def formatLoop (m : Machine) (stop : Nat) (args : Nat → BitVec 32) (i : Nat) (o : Out) : List UInt8 → Option Out
  | [] => some o
  | c :: p =>
    if c = 37 ∧ p ≠ [] then
      match _hscan : scanOptions p with
      | none => none
      | some (_, []) => none
      | some (f, letter :: p') =>
        let (o, n) := convert m o stop f letter args i
        formatLoop m stop args (i + n) o p'
    else formatLoop m stop args i (bufPutchar o stop c) p
termination_by p => p.length
decreasing_by
  · have hle := length_scanOptions _hscan
    simp only [List.length_cons] at hle ⊢
    omega
  · simp

/-- `sprintf_internal`: memory with what was written, and the `int` that is returned. -/
def sprintfInternal (m : Machine) (mem : Nat → UInt8) (buf size : Nat) (p : List UInt8) (args : Nat → BitVec 32) :
    Option (Out × Int) :=
  let stop := if 0 < size then u32 (buf + size - 1) else 2 ^ 32 - 1
  (formatLoop m stop args 0 ⟨buf, mem, []⟩ p).map fun o =>
    let end_ := if 0 < size then if o.out ≤ stop then o.store o.out 0 else o.store stop 0
      else if buf ≠ 0 then o.store o.out 0 else o
    (end_, int32 (u32 (o.out + 2 ^ 32 - buf)))

def sprintf (m : Machine) (mem : Nat → UInt8) (str : Nat) (fmt : List UInt8) (args : Nat → BitVec 32) : Option (Out × Int) :=
  sprintfInternal m mem str 0 fmt args

def snprintf (m : Machine) (mem : Nat → UInt8) (str size : Nat) (fmt : List UInt8) (args : Nat → BitVec 32) :
    Option (Out × Int) :=
  if str = 0 ∨ size = 0 then some (⟨str, mem, []⟩, 0) else sprintfInternal m mem str size fmt args

end Serotonin.Stdio
