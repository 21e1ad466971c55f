import Serotonin.Fat32.Model

/-! Names in a directory: a long name in pieces of 13 bytes, and a short name of 8 and 3. A
name is a string without its last byte, 0. -/

namespace Serotonin.Fat32

def toupper (c : UInt8) : UInt8 := if 97 ≤ c ∧ c ≤ 122 then c - 32 else c

def tolower (c : UInt8) : UInt8 := if 65 ≤ c ∧ c ≤ 90 then c + 32 else c

/-- 0 for names that differ in case only. -/
def fat32Strcasecmp : List UInt8 → List UInt8 → Int
  | a :: as, b :: bs =>
    if toupper a ≠ toupper b then (toupper a).toNat - (toupper b).toNat else fat32Strcasecmp as bs
  | as, bs => (toupper (as.headD 0)).toNat - (toupper (bs.headD 0)).toNat

def fat32LfnChecksum (name : List UInt8) : UInt8 :=
  name.foldl (fun (sum c : UInt8) => (if sum &&& 1 ≠ 0 then (0x80 : UInt8) else 0) + (sum >>> 1) + c) 0

/-- The part before the first dot, and the part after it. -/
def splitAtDot (name : List UInt8) : List UInt8 × Option (List UInt8) :=
  match name.dropWhile (· ≠ 46) with
  | [] => (name, none)
  | _ :: ext => (name.takeWhile (· ≠ 46), some ext)

/-- A byte that a short name may have, other than the dot. -/
def shortChar (c : UInt8) : Bool :=
  !(97 ≤ c && c ≤ 122) &&
    ((65 ≤ c && c ≤ 90) || (48 ≤ c && c ≤ 57) ||
      [33, 35, 36, 37, 38, 39, 40, 41, 45, 64, 94, 95, 96, 123, 125, 126].contains c || 128 ≤ c)

def fat32NameIs8dot3 (name : List UInt8) : Bool :=
  let (base, ext) := splitAtDot name
  1 ≤ base.length && base.length ≤ 8 &&
    (match ext with
      | none => true
      | some ext => 1 ≤ ext.length && ext.length ≤ 3 && !ext.contains 46) &&
    name.all fun c => c == 46 || shortChar c

/-- `n` bytes, with blanks at the end. -/
def padTo (n : Nat) (bytes : List UInt8) : List UInt8 := bytes.take n ++ List.replicate (n - bytes.length) 32

/-- The 11 bytes that a name is looked up by. -/
def fat32BuildNameKey (name : List UInt8) : List UInt8 :=
  let (base, ext) := splitAtDot name
  padTo 8 (base.map toupper) ++ padTo 3 ((ext.getD []).map toupper)

/-- The readable form of a short name. -/
def fat32NameFromEntry (raw : List UInt8) : List UInt8 :=
  let base := (raw.take 8).takeWhile (· ≠ 32)
  let ext := raw.drop 8
  base.map tolower ++ if ext.all (· == 32) then [] else 46 :: (ext.takeWhile (· ≠ 32)).map tolower

/-! ## Generated short names -/

/-- Base and extension that a generated short name starts from. -/
def shortNameParts (name : List UInt8) : List UInt8 × List UInt8 :=
  let fname := name.dropWhile fun c => c == 46 || c == 32
  let rev := fname.reverse
  let hasDot := fname.contains 46
  let base := if hasDot then (rev.dropWhile (· ≠ 46)).tail.reverse else fname
  let ext := if hasDot then (rev.takeWhile (· ≠ 46)).reverse else []
  let base := ((base.filter fun c => !(c == 32 || c == 46)).map toupper).take 6
  (if base = [] then [95] else base, ((ext.filter (· ≠ 32)).map toupper).take 3)

/-- The digits of a number, the first one first; `n` bounds how many. -/
def digits : Nat → Nat → List UInt8
  | 0, _ => []
  | n + 1, x => if x = 0 then [] else digits n (x / 10) ++ [.ofNat (48 + x % 10)]

/-- The short name with the tail `~tail`. -/
def tailedKey (parts : List UInt8 × List UInt8) (tail : Nat) : List UInt8 :=
  let tailstr := 126 :: digits 5 tail
  let base := parts.1.take (8 - tailstr.length)
  padTo 8 (base ++ tailstr) ++ padTo 3 parts.2

/-! ## Long names -/

/-- The two bytes of the unit `i` of a long name: a byte of the name, the end mark, or
filling. -/
def lfnUnit (name : List UInt8) (i : Nat) : List UInt8 :=
  if i < name.length then [name.getD i 0, 0]
  else if i = name.length then [0, 0]
  else [0xFF, 0xFF]

/-- The units from `i` on, `n` in number. -/
def lfnUnits (name : List UInt8) (i n : Nat) : List UInt8 := (List.range n).flatMap fun k => lfnUnit name (i + k)

/-- The byte that a unit with these two bytes stands for. -/
def lfnChar (lo hi : UInt8) : UInt8 := if (lo = 0xFF ∧ hi = 0xFF) ∨ (lo = 0 ∧ hi = 0) then 0 else lo

end Serotonin.Fat32
