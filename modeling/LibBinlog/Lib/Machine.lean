import Mathlib.Data.Int.Basic
import Mathlib.Data.Nat.Digits.Defs

/-!
# Machine integers, printed numbers and faults

Fixed-width values are kept as `ℕ` and `ℤ`; the conversions below are the places where a C program
wraps. Text is a list of byte codes. A `Fault` is an execution that does not return: a failed
assertion, an access outside a block, or a loop that comes back to where it was. A block reaches as
far as was asked for, and never less far than the 16 bytes that an allocator hands out at the least.
-/

namespace Machine

inductive Fault
  | assertion
  | memory
  | divergence
  deriving DecidableEq, Repr

theorem ok_bind {α β : Type} {x : Except Fault α} {a : α} {f : α → Except Fault β}
    (h : x = .ok a) : (x >>= f) = f a := by
  rw [h]
  rfl

theorem error_bind {α β : Type} {x : Except Fault α} {e : Fault} {f : α → Except Fault β}
    (h : x = .error e) : (x >>= f) = .error e := by
  rw [h]
  rfl

theorem bind_ok_iff {α β : Type} {x : Except Fault α} {f : α → Except Fault β} {b : β} :
    (x >>= f) = .ok b ↔ ∃ a, x = .ok a ∧ f a = .ok b := by
  cases x with
  | error e => exact ⟨nofun, nofun⟩
  | ok a => exact ⟨fun h => ⟨a, rfl, h⟩, fun ⟨_, ha, h⟩ => by cases ha; exact h⟩

/-- Conversion to a signed integer of `bits` bits. -/
def signed (bits : ℕ) (x : ℤ) : ℤ := x.bmod (2 ^ bits)

/-- Conversion to an unsigned integer of `bits` bits. -/
def unsigned (bits : ℕ) (x : ℤ) : ℕ := (x % 2 ^ bits).toNat

abbrev toInt32 (x : ℤ) : ℤ := signed 32 x

abbrev toUInt32 (x : ℤ) : ℕ := unsigned 32 x

theorem toInt32_of_range {x : ℤ} (h0 : -2 ^ 31 ≤ x) (h1 : x < 2 ^ 31) : toInt32 x = x := by
  apply Int.bmod_eq_of_le <;> omega

theorem toNat_toInt32_le (n : ℕ) : (toInt32 n).toNat ≤ n := by
  rw [toInt32, signed, Int.bmod_def]
  split_ifs <;> omega

theorem toUInt32_of_range {x : ℤ} (h0 : 0 ≤ x) (h1 : x < 2 ^ 32) : (toUInt32 x : ℤ) = x := by
  rw [toUInt32, unsigned, Int.emod_eq_of_lt h0 (by simpa using h1), Int.toNat_of_nonneg h0]

theorem toUInt32_natCast {n : ℕ} (h : n < 2 ^ 32) : toUInt32 n = n := by
  have hr := toUInt32_of_range (x := n) (by omega) (by exact_mod_cast h)
  exact_mod_cast hr

theorem toUInt32_eq {x : ℤ} {n : ℕ} (hx : x = n) (hn : n < 2 ^ 32) : toUInt32 x = n := by
  rw [hx, toUInt32_natCast hn]

theorem unsigned_lt (bits : ℕ) (x : ℤ) : unsigned bits x < 2 ^ bits := by
  have hp : (0 : ℤ) < 2 ^ bits := by positivity
  have hl := Int.emod_lt_of_pos x hp
  have hn := Int.emod_nonneg x hp.ne'
  rw [unsigned]
  zify
  rwa [Int.toNat_of_nonneg hn]

/-! ## Text -/

def ascii (s : String) : List UInt8 := s.toList.map fun c => UInt8.ofNat c.toNat

def decimalText (n : ℕ) : List UInt8 :=
  if n = 0 then [48] else (Nat.digits 10 n).reverse.map fun d => UInt8.ofNat (48 + d)

/-- `printf`'s `%0wd`: the sign counts in the width. -/
def zeroPadded (w : ℕ) (v : ℤ) : List UInt8 :=
  if v < 0 then 45 :: (decimalText v.natAbs).leftpad (w - 1) 48
  else (decimalText v.natAbs).leftpad w 48

/-- `printf`'s `%d`. -/
def signedText (v : ℤ) : List UInt8 := zeroPadded 0 v

/-- The bytes of a string up to its terminating zero. -/
def cstring : List UInt8 → List UInt8
  | [] => []
  | b :: bs => if b = 0 then [] else b :: cstring bs

theorem cstring_of_not_mem {bs : List UInt8} (h : 0 ∉ bs) : cstring bs = bs := by
  induction bs with
  | nil => rfl
  | cons b bs ih =>
    rw [List.mem_cons, not_or] at h
    rw [cstring, if_neg (Ne.symm h.1), ih h.2]

theorem cstring_append_zero {bs : List UInt8} (h : 0 ∉ bs) (rest : List UInt8) :
    cstring (bs ++ 0 :: rest) = bs := by
  induction bs with
  | nil => rfl
  | cons b bs ih =>
    rw [List.mem_cons, not_or] at h
    rw [List.cons_append, cstring, if_neg (Ne.symm h.1), ih h.2]

theorem length_cstring_le (bs : List UInt8) : (cstring bs).length ≤ bs.length := by
  induction bs with
  | nil => exact le_rfl
  | cons b bs ih =>
    rw [cstring]
    split_ifs
    · exact Nat.zero_le _
    · exact Nat.succ_le_succ ih

theorem length_cstring_lt {bs : List UInt8} (h : 0 ∈ bs) : (cstring bs).length < bs.length := by
  induction bs with
  | nil => cases h
  | cons b bs ih =>
    rw [cstring]
    split_ifs with hb
    · exact Nat.succ_pos _
    · have htail : 0 ∈ bs := (List.mem_cons.mp h).resolve_left (Ne.symm hb)
      rw [List.length_cons, List.length_cons]
      exact Nat.succ_lt_succ (ih htail)

end Machine
