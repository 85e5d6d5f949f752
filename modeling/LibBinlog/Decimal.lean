import LibBinlog.Util

/-!
# Packed decimals

The part of `decimal.c` that reads MySQL's binary decimals: the size of the stored form,
`bin2decimal` and `decimal2string`. Both conversions presuppose `0 < precision` and
`scale ≤ precision`, the condition the source states in its assertions and its caller checks in no
other way. `decimal2string` is called with `fixed_precision = 0` and a 512-byte buffer only, which a
precision of at most 255 digits cannot fill, so fixed width and truncation are left out.
-/

namespace LibBinlog

open Machine Memory

inductive DecStatus
  | ok
  | truncated
  | overflow
  | badNum
  deriving DecidableEq, Repr

def digPerDec1 : ℕ := 9

def digMask : ℕ := 100000000

def digMax : ℕ := 999999999

def roundUp (x : ℕ) : ℕ := (x + digPerDec1 - 1) / digPerDec1

def powers10 (i : ℕ) : ℕ := 10 ^ i

def dig2bytes (i : ℕ) : ℕ := [0, 1, 1, 2, 2, 3, 3, 4, 4, 4].getD i 0

structure Decimal where
  intg : ℕ
  frac : ℕ
  sign : Bool
  buf : List ℕ
  deriving DecidableEq, Repr

def Decimal.zero : Decimal := ⟨1, 0, false, [0]⟩

def decimalBinSize (precision scale : ℕ) : ℕ :=
  let intg := precision - scale
  let intg0 := intg / digPerDec1
  let frac0 := scale / digPerDec1
  let intg0x := intg - intg0 * digPerDec1
  let frac0x := scale - frac0 * digPerDec1
  intg0 * 4 + dig2bytes intg0x + frac0 * 4 + dig2bytes frac0x

/-- `mi_sint1korr` to `mi_sint4korr`: a big-endian signed number. -/
def miSintKorr (bs : List UInt8) : ℤ := signed (8 * bs.length) (beNat bs)

/-- A stored group of `k` bytes, `xor`ed with the mask `0` or `-1`. -/
def maskedGroup (mask : Bool) (src : List UInt8) (k : ℕ) : ℤ :=
  let x := miSintKorr (src.take k)
  if mask then -x - 1 else x

/-- What `bin2decimal` carries from group to group. -/
structure GroupState where
  src : List UInt8
  buf : List ℕ
  intg : ℕ

/-- Stores an integer group; zero groups at the very start are dropped with their digits. -/
def GroupState.pushIntg (st : GroupState) (k digits : ℕ) (x : ℤ) : GroupState :=
  if st.buf ≠ [] ∨ x ≠ 0 then { st with src := st.src.drop k, buf := st.buf ++ [x.toNat] }
  else { st with src := st.src.drop k, intg := st.intg - digits }

def GroupState.pushFrac (st : GroupState) (k : ℕ) (x : ℤ) : GroupState :=
  { st with src := st.src.drop k, buf := st.buf ++ [x.toNat] }

def leadingGroup (mask : Bool) (intg0x : ℕ) (st : GroupState) : Option GroupState :=
  if intg0x = 0 then some st
  else
    let x := maskedGroup mask st.src (dig2bytes intg0x)
    if x < 0 ∨ (powers10 (intg0x + 1) : ℤ) ≤ x then none
    else some (st.pushIntg (dig2bytes intg0x) intg0x x)

def intgGroups (mask : Bool) : ℕ → GroupState → Option GroupState
  | 0, st => some st
  | k + 1, st =>
    let x := maskedGroup mask st.src 4
    if x < 0 ∨ (digMax : ℤ) < x then none
    else intgGroups mask k (st.pushIntg 4 digPerDec1 x)

def fracGroups (mask : Bool) : ℕ → GroupState → Option GroupState
  | 0, st => some st
  | k + 1, st =>
    let x := maskedGroup mask st.src 4
    if x < 0 ∨ (digMax : ℤ) < x then none
    else fracGroups mask k (st.pushFrac 4 x)

def trailingGroup (mask : Bool) (frac0x : ℕ) (st : GroupState) : Option GroupState :=
  if frac0x = 0 then some st
  else
    let x := toInt32 (maskedGroup mask st.src (dig2bytes frac0x) * powers10 (digPerDec1 - frac0x))
    if x < 0 ∨ (digMax : ℤ) < x then none
    else some (st.pushFrac (dig2bytes frac0x) x)

/-- `d_copy[0] ^= 0x80`. -/
def flipTopBit : List UInt8 → List UInt8
  | [] => []
  | b :: bs => (b ^^^ 0x80) :: bs

/-- `FIX_INTG_FRAC_ERROR`: cuts the group counts to the target's length. -/
def fixIntgFrac (len intg1 frac1 : ℕ) : ℕ × ℕ × DecStatus :=
  if intg1 + frac1 > len then
    if intg1 > len then (len, 0, .overflow) else (intg1, len - intg1, .truncated)
  else (intg1, frac1, .ok)

def bin2decimal (m : Mem) (p : ℤ) (len precision scale : ℕ) : DecStatus × Decimal :=
  let intg := precision - scale
  let intg0 := intg / digPerDec1
  let frac0 := scale / digPerDec1
  let intg0x := intg - intg0 * digPerDec1
  let frac0x := scale - frac0 * digPerDec1
  let mask := (m p).toNat < 128
  let dCopy := flipTopBit (slice m p (decimalBinSize precision scale))
  let wanted := intg0 + (if intg0x > 0 then 1 else 0)
  let (intg1, frac1, error) := fixIntgFrac len wanted (frac0 + (if frac0x > 0 then 1 else 0))
  let (src, intg0, intg0x, frac0, frac0x) :=
    if error = .ok then (dCopy, intg0, intg0x, frac0, frac0x)
    else if intg1 < wanted then
      (dCopy.drop (dig2bytes intg0x + 4 * (intg0 - intg1)), intg1, 0, 0, 0)
    else (dCopy, intg0, intg0x, frac1, 0)
  let groups := leadingGroup mask intg0x ⟨src, [], intg0 * digPerDec1 + intg0x⟩
    |>.bind (intgGroups mask intg0)
    |>.bind (fracGroups mask frac0)
    |>.bind (trailingGroup mask frac0x)
  match groups with
  | none => (.badNum, .zero)
  | some st => (error, ⟨st.intg, frac0 * digPerDec1 + frac0x, mask, st.buf⟩)

/-! ## Printing -/

def skipZeroGroups : ℕ → ℕ → List ℕ → ℕ × List ℕ
  | _, intg, [] => (intg, [])
  | i, intg, b :: bs =>
    if intg > 0 ∧ b = 0 then skipZeroGroups digPerDec1 (intg - i) bs else (intg, b :: bs)

def skipZeroDigits (x : ℕ) : ℕ → ℕ → ℕ
  | 0, intg => intg
  | i + 1, intg => if x < powers10 (i + 1) then skipZeroDigits x i (intg - 1) else intg

def removeLeadingZeroes (d : Decimal) : ℕ × List ℕ :=
  let (intg, buf0) := skipZeroGroups ((d.intg - 1) % digPerDec1 + 1) d.intg d.buf
  if intg > 0 then (skipZeroDigits (buf0.headD 0) ((intg - 1) % digPerDec1) intg, buf0)
  else (0, buf0)

def digitChar (d : ℕ) : UInt8 := UInt8.ofNat (48 + d)

/-- The last `n` digits of a group in front of the text after them. -/
def intgGroupText : ℕ → ℕ → List UInt8 → List UInt8
  | 0, _, text => text
  | n + 1, x, text => intgGroupText n (x / 10) (digitChar (x % 10) :: text)

/-- The integer digits, from the last group to the first. -/
def intgText : List ℕ → ℕ → List UInt8 → List UInt8
  | [], _, text => text
  | x :: groups, intg, text =>
    intgText groups (intg - digPerDec1) (intgGroupText (min intg digPerDec1) x text)

def fracGroupText : ℕ → ℕ → List UInt8
  | 0, _ => []
  | n + 1, x =>
    let y := x / digMask
    digitChar y :: fracGroupText n ((x - y * digMask) * 10)

def fracText : List ℕ → ℕ → List UInt8
  | [], _ => []
  | x :: groups, frac =>
    if frac = 0 then []
    else fracGroupText (min frac digPerDec1) x ++ fracText groups (frac - digPerDec1)

/-- The text and the length it is said to have. -/
def decimal2string (d : Decimal) : List UInt8 × ℕ :=
  let (intg, buf0) := removeLeadingZeroes d
  let (intg, buf0) := if intg + d.frac = 0 then (1, [0]) else (intg, buf0)
  let intgLen := if intg = 0 then 1 else intg
  let len := d.sign.toNat + intgLen + (if d.frac = 0 then 0 else 1) + d.frac
  ((if d.sign then ascii "-" else []) ++
    (if intg = 0 then ascii "0" else intgText (buf0.take (roundUp intg)).reverse intg []) ++
    (if d.frac = 0 then [] else ascii "." ++ fracText (buf0.drop (roundUp intg)) d.frac), len)

end LibBinlog
