import LibBinlog.Lib.Digits

/-!
# `sprintf` with one `int`

The directives that the C and POSIX standards have for an argument of type `int`, in the C locale
and for a value that is not negative. What the standards leave undefined has no text: a directive
for an argument of another type or for a second argument, a flag, precision or length that the
conversion does not take, a conversion that they do not know, and a directive that the format ends
in.
-/

namespace Printf

open Machine

/-- What stands between `%` and the conversion: `1$`, the flags, the least width, the precision and
the bits that the length modifier leaves of the argument. -/
structure Spec where
  numbered : Bool
  flags : List UInt8
  width : ℕ
  precision : Option ℕ
  bits : ℕ
  deriving DecidableEq, Repr

/-- A width or a precision: a number, or the argument itself under its own number. -/
def readAmount (arg : ℕ) (numbered : Bool) : List UInt8 → ℕ × List UInt8
  | 42 :: 49 :: 36 :: spec => if numbered then (arg, spec) else (0, 42 :: 49 :: 36 :: spec)
  | spec => (readNumber (spec.takeWhile isDigit), spec.dropWhile isDigit)

def readPrecision (arg : ℕ) (numbered : Bool) : List UInt8 → Option ℕ × List UInt8
  | 46 :: spec => ((readAmount arg numbered spec).1, (readAmount arg numbered spec).2)
  | spec => (none, spec)

def readBits (modifier : List UInt8) : Option ℕ :=
  if modifier = [] then some 32
  else if modifier = ascii "h" then some 16
  else if modifier = ascii "hh" then some 8
  else none

def readSpec (arg : ℕ) (spec : List UInt8) : Option Spec :=
  let numbered := spec.take 2 = ascii "1$"
  let spec := if numbered then spec.drop 2 else spec
  let flags := spec.takeWhile (· ∈ ascii "-+ #0'")
  let (width, spec) := readAmount arg numbered (spec.drop flags.length)
  let (precision, modifier) := readPrecision arg numbered spec
  (readBits modifier).map fun bits => ⟨numbered, flags, width, precision, bits⟩

namespace Spec

variable (spec : Spec)

/-- The digits of `v`, at least as many as the precision says and one without it. -/
def digits (base v : ℕ) : List UInt8 :=
  let text := if v = 0 then [] else (Nat.toDigits base v).map fun c => UInt8.ofNat c.toNat
  List.replicate (spec.precision.getD 1 - text.length) 48 ++ text

def sign (v : ℤ) : List UInt8 :=
  if v < 0 then ascii "-"
  else if 43 ∈ spec.flags then ascii "+"
  else if 32 ∈ spec.flags then ascii " "
  else []

/-- Padding to the width: behind the text, between its lead and its digits, or before it. -/
def pad (lead text : List UInt8) : List UInt8 :=
  let missing := spec.width - (lead.length + text.length)
  if 45 ∈ spec.flags then lead ++ text ++ List.replicate missing 32
  else if 48 ∈ spec.flags ∧ spec.precision = none then lead ++ List.replicate missing 48 ++ text
  else List.replicate missing 32 ++ (lead ++ text)

/-- The alternative form of an octal number begins with a zero. -/
def octal (v : ℕ) : List UInt8 :=
  let text := spec.digits 8 v
  if 35 ∈ spec.flags ∧ text.head? ≠ some 48 then 48 :: text else text

def upper (b : UInt8) : UInt8 := if 97 ≤ b.toNat then b - 32 else b

def convert (arg : ℕ) (conversion : UInt8) : Option (List UInt8) :=
  let v := arg % 2 ^ spec.bits
  if conversion ∈ ascii "di" ∧ 35 ∉ spec.flags then
    some (spec.pad (spec.sign (signed spec.bits v)) (spec.digits 10 (signed spec.bits v).natAbs))
  else if conversion ∈ ascii "u" ∧ 35 ∉ spec.flags then some (spec.pad [] (spec.digits 10 v))
  else if conversion ∈ ascii "o" ∧ 39 ∉ spec.flags then some (spec.pad [] (spec.octal v))
  else if conversion ∈ ascii "xX" ∧ 39 ∉ spec.flags then
    some (spec.pad (if 35 ∈ spec.flags ∧ v ≠ 0 then [48, conversion] else [])
      (if conversion ∈ ascii "X" then (spec.digits 16 v).map upper else spec.digits 16 v))
  else if conversion ∈ ascii "c" ∧ spec.bits = 32 ∧ spec.precision = none ∧
      spec.flags.all (· ∈ ascii "-+ ") then
    some (spec.pad [] [UInt8.ofNat arg])
  else none

end Spec

/-- Prints the format. `taken` says if the argument was taken, and if by its number, since a
numbered argument can be taken again but not mixed with others; `spec` is what was read of a
directive. -/
def sprintfFrom (arg : ℕ) :
    Option Bool → Option (List UInt8) → List UInt8 → Option (List UInt8)
  | _, none, [] => some []
  | _, some _, [] => none
  | taken, none, b :: fmt =>
    if b = 37 then sprintfFrom arg taken (some []) fmt
    else (sprintfFrom arg taken none fmt).map (b :: ·)
  | taken, some spec, b :: fmt =>
    if b ∈ ascii "-+ #0'123456789.h$*" then sprintfFrom arg taken (some (spec ++ [b])) fmt
    else if b = 37 then
      if spec = [] then (sprintfFrom arg taken none fmt).map (37 :: ·) else none
    else
      match readSpec arg spec with
      | none => none
      | some spec =>
        if taken = none ∨ taken = some true ∧ spec.numbered then
          match spec.convert arg b with
          | none => none
          | some text => (sprintfFrom arg (some spec.numbered) none fmt).map (text ++ ·)
        else none

def sprintf (fmt : List UInt8) (arg : ℕ) : Option (List UInt8) := sprintfFrom arg none none fmt

/-- A text without `%` prints as it stands. -/
theorem sprintf_plain {fmt : List UInt8} (h : 37 ∉ fmt) (arg : ℕ) : sprintf fmt arg = some fmt := by
  rw [sprintf]
  induction fmt with
  | nil => rfl
  | cons b fmt ih =>
    rw [List.mem_cons, not_or] at h
    rw [sprintfFrom, if_neg (Ne.symm h.1), ih h.2, Option.map_some]

example : sprintf (ascii "%d of %d") 255 = none := by decide

example : sprintf (ascii "100%% [%-+6.4hhi]") 255 = some (ascii "100% [-0001 ]") := by decide

example : sprintf (ascii "%1$o, %1$#X, %1$05u") 255 = some (ascii "377, 0XFF, 00255") := by decide

end Printf
