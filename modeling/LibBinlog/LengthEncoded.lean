import LibBinlog.LogEvent

/-!
# Length-encoded integers

The first byte is the number itself, or it announces the bytes of the number behind it. What the
bytes stand for is said here without regard to where they are read from.
-/

namespace LibBinlog

open Machine Memory

variable {ev : Mem} {cur n : ℕ} {bs : List UInt8}

/-- The bytes that a length-encoded number takes, by its first one. -/
def encodedWidth (first : ℕ) : ℕ :=
  if first = 252 then 3 else if first = 253 then 4 else if first = 254 then 9 else 1

theorem one_le_encodedWidth (first : ℕ) : 1 ≤ encodedWidth first := by
  unfold encodedWidth
  split_ifs <;> omega

/-- The forms in which a number can be written, not only the shortest. -/
inductive LengthEncodes : ℕ → List UInt8 → Prop
  | one (n : ℕ) (h : n < 251) : LengthEncodes n [UInt8.ofNat n]
  | two (n : ℕ) (h : n < 2 ^ 16) : LengthEncodes n (252 :: leBytes 2 n)
  | three (n : ℕ) (h : n < 2 ^ 24) : LengthEncodes n (253 :: leBytes 3 n)
  | eight (n : ℕ) (h : n < 2 ^ 64) : LengthEncodes n (254 :: leBytes 8 n)

/-- Bytes that are enough for the form that the first one announces. -/
structure LengthBytes where
  first : UInt8
  rest : List UInt8
  enough : encodedWidth first.toNat ≤ rest.length + 1

namespace LengthBytes

def bytes (b : LengthBytes) : List UInt8 := b.first :: b.rest

def width (b : LengthBytes) : ℕ := encodedWidth b.first.toNat

/-- 251 and 255 announce no bytes and stand for zero. -/
def value (b : LengthBytes) : ℕ :=
  if b.first.toNat < 251 then b.first.toNat else leNat (b.rest.take (b.width - 1))

theorem width_le (b : LengthBytes) : b.width ≤ b.bytes.length := b.enough

/-- The forms: the number itself, zero, and a number of two, three or eight bytes. -/
theorem cases (b : LengthBytes) :
    (b.first.toNat < 251 ∧ b.width = 1 ∧ b.value = b.first.toNat) ∨
    ((b.first.toNat = 251 ∨ b.first.toNat = 255) ∧ b.width = 1 ∧ b.value = 0) ∨
    ∃ k, (b.first.toNat = 252 ∧ k = 2 ∨ b.first.toNat = 253 ∧ k = 3 ∨
        b.first.toNat = 254 ∧ k = 8) ∧
      b.width = k + 1 ∧ k ≤ b.rest.length ∧ b.value = leNat (b.rest.take k) := by
  have henough : b.width ≤ b.rest.length + 1 := b.enough
  have hbyte := b.first.toNat_lt
  by_cases hlt : b.first.toNat < 251
  · have hwidth : b.width = 1 := by
      rw [width, encodedWidth, if_neg (by omega), if_neg (by omega), if_neg (by omega)]
    exact .inl ⟨hlt, hwidth, if_pos hlt⟩
  right
  have hvalue : b.value = leNat (b.rest.take (b.width - 1)) := if_neg hlt
  by_cases hform : b.first.toNat = 252 ∨ b.first.toNat = 253 ∨ b.first.toNat = 254
  · right
    rcases hform with h | h | h
    · have hwidth : b.width = 3 := by rw [width, encodedWidth, if_pos h]
      rw [hwidth] at henough hvalue
      exact ⟨2, .inl ⟨h, rfl⟩, hwidth, by omega, hvalue⟩
    · have hwidth : b.width = 4 := by rw [width, encodedWidth, if_neg (by omega), if_pos h]
      rw [hwidth] at henough hvalue
      exact ⟨3, .inr (.inl ⟨h, rfl⟩), hwidth, by omega, hvalue⟩
    · have hwidth : b.width = 9 := by
        rw [width, encodedWidth, if_neg (by omega), if_neg (by omega), if_pos h]
      rw [hwidth] at henough hvalue
      exact ⟨8, .inr (.inr ⟨h, rfl⟩), hwidth, by omega, hvalue⟩
  · left
    have hwidth : b.width = 1 := by
      rw [width, encodedWidth, if_neg (by omega), if_neg (by omega), if_neg (by omega)]
    rw [hwidth, Nat.sub_self, List.take_zero] at hvalue
    exact ⟨by omega, hwidth, hvalue⟩

/-- With nothing behind it, the number is all that follows the first byte. -/
theorem value_of_full (b : LengthBytes) (hwide : ¬b.first.toNat < 251)
    (h : b.width = b.rest.length + 1) : b.value = leNat b.rest := by
  rw [value, if_neg hwide, h, Nat.add_sub_cancel, List.take_length]

end LengthBytes

/-! ## Numbers in an event -/

theorem decodeint_bytes (b : LengthBytes) (hev : Holds ev cur b.bytes) :
    decodeint ev cur = (b.value, toUInt32 (cur + b.width)) := by
  obtain ⟨hfirst, hrest⟩ := holds_cons.mp hev
  have hbyte : getUint8 ev cur = b.first.toNat := congrArg UInt8.toNat hfirst
  rcases b.cases with ⟨hlt, hwidth, hvalue⟩ | ⟨hzero, hwidth, hvalue⟩ |
      ⟨k, hform, hwidth, hk, hvalue⟩
  · rw [decodeint, hbyte, hwidth, hvalue]
    exact if_pos hlt
  · rw [hwidth, hvalue]
    rcases hzero with h | h <;> rw [decodeint, hbyte, h] <;> rfl
  · have htaken : leNat (slice ev (cur + 1) k) = b.value := by
      rw [hvalue, hrest.slice_take hk]
    have hcur : ((cur : ℤ) + b.width) = cur + 1 + k := by
      rw [hwidth]
      push_cast
      ring
    rw [hcur, ← htaken]
    rcases hform with ⟨h, rfl⟩ | ⟨h, rfl⟩ | ⟨h, rfl⟩
    · rw [decodeint, hbyte, h]
      rfl
    · rw [decodeint, hbyte, h, ← getUint24_eq]
      rfl
    · rw [decodeint, hbyte, h]
      rfl

/-- The encodings of a number are such bytes. -/
theorem LengthEncodes.exists_bytes (h : LengthEncodes n bs) :
    ∃ b : LengthBytes, b.bytes = bs ∧ b.value = n ∧ b.width = bs.length := by
  have hwide {first : UInt8} {k : ℕ} (hfirst : ¬first.toNat < 251)
      (hwidth : encodedWidth first.toNat = k + 1) (hn : n < 256 ^ k) :
      ∃ b : LengthBytes, b.bytes = first :: leBytes k n ∧ b.value = n ∧
        b.width = (first :: leBytes k n).length := by
    have hlength : encodedWidth first.toNat = (leBytes k n).length + 1 := by
      rw [hwidth, length_leBytes]
    have hvalue := LengthBytes.value_of_full ⟨first, leBytes k n, hlength.le⟩ hfirst hlength
    exact ⟨_, rfl, hvalue.trans (leNat_leBytes_of_lt hn), hlength⟩
  cases h with
  | one hn =>
    have hfirst : (UInt8.ofNat n).toNat = n := by
      rw [UInt8.toNat_ofNat']
      omega
    have hwidth : encodedWidth (UInt8.ofNat n).toNat = 1 := by
      rw [hfirst, encodedWidth, if_neg (by omega), if_neg (by omega), if_neg (by omega)]
    refine ⟨⟨UInt8.ofNat n, [], hwidth.le⟩, rfl, ?_, hwidth⟩
    rw [LengthBytes.value, if_pos (by rw [hfirst]; exact hn), hfirst]
  | two hn => exact hwide (by decide) rfl hn
  | three hn => exact hwide (by decide) rfl hn
  | eight hn => exact hwide (by decide) rfl hn

theorem decodeint_of_lengthEncodes (h : LengthEncodes n bs) (hev : Holds ev cur bs)
    (hcur : cur + bs.length < 2 ^ 32) : decodeint ev cur = (n, cur + bs.length) := by
  obtain ⟨b, rfl, rfl, hwidth⟩ := h.exists_bytes
  have hend : toUInt32 (cur + b.width) = cur + b.width := by
    rw [hwidth]
    exact_mod_cast toUInt32_natCast hcur
  rw [decodeint_bytes b hev, hend, hwidth]

end LibBinlog
