import LibBinlog.Lib.Machine
import Mathlib.Data.List.TakeWhile
import Mathlib.Data.Nat.Digits.Lemmas

/-!
# Decimal digits

The last digits of a number as text, how they split and join, and how printed numbers are built from
them and read back.
-/

namespace Machine

variable {k n w : ℕ} {b : UInt8} {bs : List UInt8}

/-- The last `k` decimal digits of `n`, leading zeros included. -/
def lastDigits : ℕ → ℕ → List UInt8
  | 0, _ => []
  | k + 1, n => lastDigits k (n / 10) ++ [UInt8.ofNat (48 + n % 10)]

@[simp] theorem length_lastDigits (k n : ℕ) : (lastDigits k n).length = k := by
  induction k generalizing n with
  | zero => rfl
  | succ k ih => rw [lastDigits, List.length_append, ih, List.length_singleton]

theorem lastDigits_add (a b n : ℕ) :
    lastDigits (a + b) n = lastDigits a (n / 10 ^ b) ++ lastDigits b n := by
  induction b generalizing n with
  | zero => simp [lastDigits]
  | succ b ih =>
    rw [← Nat.add_assoc, lastDigits, ih, lastDigits, Nat.div_div_eq_div_mul, ← pow_succ',
      List.append_assoc]

theorem lastDigits_mod (k n : ℕ) : lastDigits k (n % 10 ^ k) = lastDigits k n := by
  induction k generalizing n with
  | zero => rfl
  | succ k ih =>
    have hdiv : n % 10 ^ (k + 1) / 10 = n / 10 % 10 ^ k := by
      rw [pow_succ', Nat.mod_mul_right_div_self]
    have hmod : n % 10 ^ (k + 1) % 10 = n % 10 :=
      Nat.mod_mod_of_dvd n (dvd_pow_self 10 k.succ_ne_zero)
    rw [lastDigits, lastDigits, hdiv, hmod, ih]

theorem lastDigits_zero (k : ℕ) : lastDigits k 0 = List.replicate k 48 := by
  induction k with
  | zero => rfl
  | succ k ih =>
    rw [lastDigits, Nat.zero_div, ih, List.replicate_succ']
    rfl

/-- A positive number is printed with just its digits. -/
theorem decimalText_of_pos (h : 0 < n) :
    decimalText n = lastDigits (Nat.digits 10 n).length n := by
  rw [decimalText, if_neg h.ne']
  induction n using Nat.strong_induction_on with
  | _ n ih =>
    rw [Nat.digits_def' (by norm_num) h, List.reverse_cons, List.map_append, List.length_cons,
      lastDigits]
    congr 1
    by_cases hdiv : n / 10 = 0
    · rw [hdiv]
      rfl
    · exact ih (n / 10) (by omega) (by omega)

/-- A number of at most `w` digits is padded to just its last `w` digits. -/
theorem zeroPadded_of_lt (hw : 0 < w) (h : n < 10 ^ w) : zeroPadded w n = lastDigits w n := by
  have hnonneg : ¬((n : ℤ) < 0) := by omega
  rw [zeroPadded, if_neg hnonneg, Int.natAbs_natCast, List.leftpad]
  by_cases hn : n = 0
  · subst hn
    obtain ⟨w, rfl⟩ := Nat.exists_eq_succ_of_ne_zero hw.ne'
    rw [lastDigits_zero, List.replicate_succ']
    rfl
  · have hlen : (Nat.digits 10 n).length ≤ w := (Nat.digits_length_le_iff (by norm_num) n).mpr h
    have hlt : n < 10 ^ (Nat.digits 10 n).length := Nat.lt_base_pow_length_digits (by norm_num)
    rw [decimalText_of_pos (Nat.pos_of_ne_zero hn), length_lastDigits]
    conv_rhs => rw [← Nat.sub_add_cancel hlen, lastDigits_add, Nat.div_eq_of_lt hlt,
      lastDigits_zero]

/-! ## Reading numbers -/

def isDigit (b : UInt8) : Bool := 48 ≤ b.toNat ∧ b.toNat ≤ 57

def readNumber (bs : List UInt8) : ℕ := bs.foldl (fun v b => 10 * v + (b.toNat - 48)) 0

theorem readNumber_append_digit (bs : List UInt8) (hd : n < 10) :
    readNumber (bs ++ [UInt8.ofNat (48 + n)]) = 10 * readNumber bs + n := by
  have hb : (UInt8.ofNat (48 + n)).toNat = 48 + n := by
    rw [UInt8.toNat_ofNat']
    omega
  rw [readNumber, List.foldl_append, List.foldl_cons, List.foldl_nil, hb, Nat.add_sub_cancel_left]
  rfl

theorem readNumber_append_lastDigits (bs : List UInt8) (k n : ℕ) :
    readNumber (bs ++ lastDigits k n) = readNumber bs * 10 ^ k + n % 10 ^ k := by
  induction k generalizing n with
  | zero => simp [lastDigits, Nat.mod_one]
  | succ k ih =>
    have hd : n % 10 < 10 := Nat.mod_lt n (by norm_num)
    rw [lastDigits, ← List.append_assoc, readNumber_append_digit _ hd, ih, pow_succ',
      Nat.mod_mul]
    ring

theorem readNumber_replicate_zero (k : ℕ) : readNumber (List.replicate k 48) = 0 := by
  rw [← lastDigits_zero, ← List.nil_append (lastDigits k 0), readNumber_append_lastDigits]
  simp [readNumber]

theorem readNumber_decimalText (k n : ℕ) :
    readNumber (List.replicate k 48 ++ decimalText n) = n := by
  by_cases hn : n = 0
  · subst hn
    rw [show decimalText 0 = [48] from rfl, ← List.replicate_succ', readNumber_replicate_zero]
  · rw [decimalText_of_pos (Nat.pos_of_ne_zero hn), readNumber_append_lastDigits,
      readNumber_replicate_zero, zero_mul, zero_add,
      Nat.mod_eq_of_lt (Nat.lt_base_pow_length_digits (by norm_num))]

/-- Padded numbers are read back, also those that need more than the width. -/
theorem readNumber_zeroPadded (w n : ℕ) : readNumber (zeroPadded w n) = n := by
  have hnonneg : ¬((n : ℤ) < 0) := by omega
  rw [zeroPadded, if_neg hnonneg, Int.natAbs_natCast, List.leftpad, readNumber_decimalText]

theorem isDigit_ofNat (hd : n < 10) : isDigit (UInt8.ofNat (48 + n)) = true := by
  have hb : (UInt8.ofNat (48 + n)).toNat = 48 + n := by
    rw [UInt8.toNat_ofNat']
    omega
  rw [isDigit, hb, decide_eq_true_iff]
  omega

theorem isDigit_of_mem_lastDigits (hb : b ∈ lastDigits k n) : isDigit b = true := by
  induction k generalizing n with
  | zero => contradiction
  | succ k ih =>
    rw [lastDigits, List.mem_append, List.mem_singleton] at hb
    rcases hb with hb | rfl
    · exact ih hb
    · exact isDigit_ofNat (Nat.mod_lt n (by norm_num))

theorem isDigit_of_mem_zeroPadded (hb : b ∈ zeroPadded w (n : ℤ)) : isDigit b = true := by
  have hnonneg : ¬((n : ℤ) < 0) := by omega
  rw [zeroPadded, if_neg hnonneg, Int.natAbs_natCast, List.leftpad, List.mem_append] at hb
  rcases hb with hb | hb
  · rw [(List.mem_replicate.mp hb).2]
    rfl
  · by_cases hn : n = 0
    · subst hn
      obtain rfl := List.mem_singleton.mp hb
      rfl
    · rw [decimalText_of_pos (Nat.pos_of_ne_zero hn)] at hb
      exact isDigit_of_mem_lastDigits hb

theorem zeroPadded_eq_cons (w n : ℕ) :
    ∃ b bs, zeroPadded w (n : ℤ) = b :: bs ∧ isDigit b = true := by
  have hmem (b : UInt8) (hb : b ∈ zeroPadded w (n : ℤ)) := isDigit_of_mem_zeroPadded hb
  have hnonneg : ¬((n : ℤ) < 0) := by omega
  have hne : zeroPadded w (n : ℤ) ≠ [] := by
    rw [zeroPadded, if_neg hnonneg, Int.natAbs_natCast, List.leftpad, ne_eq,
      List.append_eq_nil_iff, not_and]
    intro _ hnil
    have hlen := readNumber_decimalText 0 n
    rw [decimalText] at hnil
    split_ifs at hnil with hn
    rw [List.map_eq_nil_iff, List.reverse_eq_nil_iff, Nat.digits_eq_nil_iff_eq_zero] at hnil
    exact hn hnil
  obtain ⟨b, bs, hcons⟩ := List.exists_cons_of_ne_nil hne
  exact ⟨b, bs, hcons, hmem b (hcons ▸ List.mem_cons_self)⟩

/-- The numbers in a text, whatever separates them. -/
def numbersIn (text : List UInt8) : List ℕ :=
  ((text.splitOnP fun b => !isDigit b).filter (· ≠ [])).map readNumber

theorem numbersIn_cons {sep : UInt8} (hsep : isDigit sep = false) (text : List UInt8) :
    numbersIn (sep :: text) = numbersIn text := by
  have hnone : ∀ b ∈ ([] : List UInt8), (!isDigit b) = false := by simp
  have hsplit := List.splitOnP_append_cons_of_forall_mem hnone sep (by simpa using hsep) text
  rw [numbersIn, ← List.nil_append (sep :: text), hsplit]
  simp [numbersIn]

theorem numbersIn_zeroPadded (w n : ℕ) : numbersIn (zeroPadded w (n : ℤ)) = [n] := by
  obtain ⟨b, bs, hcons, -⟩ := zeroPadded_eq_cons w n
  have hdigits : ∀ b ∈ zeroPadded w (n : ℤ), (!isDigit b) = false := fun b hb => by
    rw [isDigit_of_mem_zeroPadded hb]
    rfl
  have hsplit := List.splitOnP_eq_singleton hdigits
  rw [numbersIn, hsplit, List.filter_cons_of_pos (by simp [hcons])]
  simp [readNumber_zeroPadded]

theorem numbersIn_zeroPadded_append {sep : UInt8} (hsep : isDigit sep = false) (w n : ℕ)
    (text : List UInt8) :
    numbersIn (zeroPadded w (n : ℤ) ++ sep :: text) = n :: numbersIn text := by
  obtain ⟨b, bs, hcons, -⟩ := zeroPadded_eq_cons w n
  have hdigits : ∀ b ∈ zeroPadded w (n : ℤ), (!isDigit b) = false := fun b hb => by
    rw [isDigit_of_mem_zeroPadded hb]
    rfl
  have hsplit := List.splitOnP_append_cons_of_forall_mem hdigits sep (by simpa using hsep) text
  rw [numbersIn, hsplit, List.filter_cons_of_pos (by simp [hcons])]
  simp [readNumber_zeroPadded, numbersIn]

/-! ## `atoi` -/

def isSpace (b : UInt8) : Bool := b = 32 ∨ (9 ≤ b.toNat ∧ b.toNat ≤ 13)

/-- The value is that of `strtol`, which stays within 64 bits, as an `int`. -/
def atoi (bs : List UInt8) : ℤ :=
  let value : List UInt8 → ℤ := fun bs => readNumber (bs.takeWhile isDigit)
  toInt32 (max (-2 ^ 63) (min (2 ^ 63 - 1) (match bs.dropWhile isSpace with
    | [] => 0
    | b :: bs => if b = 45 then -value bs else if b = 43 then value bs else value (b :: bs))))

theorem atoi_digits (h : ∀ b ∈ bs, isDigit b = true) (hne : bs ≠ []) :
    atoi bs = toInt32 (min (2 ^ 63 - 1) (readNumber bs)) := by
  obtain ⟨b, rest, rfl⟩ := List.exists_cons_of_ne_nil hne
  have hb : 48 ≤ b.toNat ∧ b.toNat ≤ 57 := of_decide_eq_true (h b List.mem_cons_self)
  have hspace : isSpace b = false := by
    apply decide_eq_false
    rintro (rfl | hrange)
    · exact absurd hb.1 (by decide)
    · omega
  have hminus : b ≠ 45 := by
    rintro rfl
    exact absurd hb.1 (by decide)
  have hplus : b ≠ 43 := by
    rintro rfl
    exact absurd hb.1 (by decide)
  have htake : (b :: rest).takeWhile isDigit = b :: rest := List.takeWhile_eq_self_iff.mpr h
  have hmax (v : ℕ) : max (-2 ^ 63) (min (2 ^ 63 - 1) (v : ℤ)) = min (2 ^ 63 - 1) (v : ℤ) := by
    omega
  rw [atoi, List.dropWhile_cons_of_neg (by simp [hspace])]
  dsimp only
  rw [if_neg hminus, if_neg hplus, htake, hmax]

/-- Exactly the numbers of 31 bits are read back. -/
theorem atoi_eq_iff (h : ∀ b ∈ bs, isDigit b = true) (hne : bs ≠ []) :
    atoi bs = readNumber bs ↔ readNumber bs < 2 ^ 31 := by
  rw [atoi_digits h hne, toInt32, signed]
  constructor
  · intro heq
    have hlt := Int.bmod_lt (x := min (2 ^ 63 - 1) (readNumber bs : ℤ)) (m := 2 ^ 32) (by decide)
    rw [heq] at hlt
    omega
  · intro hlt
    have hmin : min (2 ^ 63 - 1) (readNumber bs : ℤ) = readNumber bs := by omega
    rw [hmin]
    exact Int.bmod_eq_of_le (by omega) (by omega)

end Machine
