import LibBinlog.ColumnFormat
import LibBinlog.Lib.Digits

/-!
# Dates and times as text

The packed form of `DATETIME`, `DATE`, `TIME` and `YEAR` values and the numbers in the text of their
cells. All come back, except the negative times, whose sign is read as a high bit, and the year
0000.
-/

namespace LibBinlog

open Machine Memory

inductive Temporal
  | datetime (year month day hour minute second : ℕ)
    (h : year ≤ 9999 ∧ month ≤ 12 ∧ day ≤ 31 ∧ hour ≤ 23 ∧ minute ≤ 59 ∧ second ≤ 59)
  | date (year month day : ℕ) (h : year < 2 ^ 15 ∧ month < 16 ∧ day < 32)
  | time (neg : Bool) (hour minute second : ℕ) (h : hour ≤ 838 ∧ minute ≤ 59 ∧ second ≤ 59)
    (hneg : neg = true → 0 < hour ∨ 0 < minute ∨ 0 < second)
  | year (y : ℕ) (h : y = 0 ∨ 1901 ≤ y ∧ y ≤ 2155)

namespace Temporal

def type : Temporal → UInt8
  | datetime .. => FieldType.datetime.toByte
  | date .. => FieldType.date.toByte
  | time .. => FieldType.time.toByte
  | year .. => FieldType.year.toByte

/-- The bytes of the value in a row image. -/
def encode : Temporal → List UInt8
  | datetime y month day hour minute second _ =>
    leBytes 8 (((((y * 100 + month) * 100 + day) * 100 + hour) * 100 + minute) * 100 + second)
  | date y month day _ => leBytes 3 (y * 2 ^ 9 + month * 2 ^ 5 + day)
  | time neg hour minute second _ _ =>
    leBytes 3 (unsigned 24 ((if neg then -1 else 1) * (hour * 10000 + minute * 100 + second : ℕ)))
  | year y _ => leBytes 1 (if y = 0 then 0 else y - 1900)

/-- The value as its sign and its numbers. -/
def value : Temporal → Bool × List ℕ
  | datetime y month day hour minute second _ => (false, [y, month, day, hour, minute, second])
  | date y month day _ => (false, [y, month, day])
  | time neg hour minute second _ _ => (neg, [hour, minute, second])
  | year y _ => (false, [y])

end Temporal

/-- The sign and the numbers of a text; quotes do not count. -/
def readTemporal (text : List UInt8) : Bool × List ℕ :=
  ((text.filter (· ≠ 39)).head? = some 45, numbersIn text)

/-- From wherever the value stands, the text of its cell reads as the value. -/
def Temporal.ReadsBack (t : Temporal) : Prop :=
  ∀ (ev : Mem) (p : ℤ) (word : ℕ), Holds ev p t.encode → ∃ cell evcur text,
    value2Cell ⟨ev, p⟩ t.type word = .ok (cell, evcur) ∧ cell.ctype = .string ∧
      cell.value = some (text ++ [0]) ∧ readTemporal text = t.value

/-- A text that starts with a number has no sign. -/
theorem readTemporal_zeroPadded_append (w n : ℕ) (text : List UInt8) :
    readTemporal (zeroPadded w (n : ℤ) ++ text) =
      (false, numbersIn (zeroPadded w (n : ℤ) ++ text)) := by
  obtain ⟨b, bs, hcons, hdigit⟩ := zeroPadded_eq_cons w n
  have hquote : b ≠ 39 := by
    rintro rfl
    exact absurd hdigit (by decide)
  have hminus : b ≠ 45 := by
    rintro rfl
    exact absurd hdigit (by decide)
  rw [readTemporal, hcons, List.cons_append, List.filter_cons_of_pos (by simpa using hquote)]
  simp [hminus]

theorem readTemporal_quote (text : List UInt8) :
    readTemporal (39 :: text) = readTemporal text := by
  rw [readTemporal, readTemporal, numbersIn_cons (by decide)]
  rfl

/-! ## The texts -/

/-- A number made of three groups of two digits comes apart by division. -/
theorem twoDigitGroups (a : ℕ) {b c : ℕ} (hb : b < 100) (hc : c < 100) :
    (((a * 100 + b) * 100 + c : ℕ) : ℤ).tdiv 10000 = a ∧
      ((((a * 100 + b) * 100 + c : ℕ) : ℤ).tmod 10000).tdiv 100 = b ∧
      (((a * 100 + b) * 100 + c : ℕ) : ℤ).tmod 100 = c := by
  have hnonneg : (0 : ℤ) ≤ (((a * 100 + b) * 100 + c : ℕ) : ℤ) := Int.natCast_nonneg _
  refine ⟨?_, ?_, ?_⟩
  · rw [Int.tdiv_eq_ediv_of_nonneg hnonneg]
    omega
  · rw [Int.tmod_eq_emod_of_nonneg hnonneg, Int.tdiv_eq_ediv_of_nonneg (by omega)]
    omega
  · rw [Int.tmod_eq_emod_of_nonneg hnonneg]
    omega

theorem readTemporal_datetimeText {year month day hour minute second : ℕ}
    (h : year ≤ 9999 ∧ month ≤ 12 ∧ day ≤ 31 ∧ hour ≤ 23 ∧ minute ≤ 59 ∧ second ≤ 59) :
    readTemporal (datetimeText
      (((((year * 100 + month) * 100 + day) * 100 + hour) * 100 + minute) * 100 + second)) =
        (false, [year, month, day, hour, minute, second]) := by
  obtain ⟨hyear, hmonth, hday, hhour, hminute, hsecond⟩ := h
  have hd : toInt32 ((((((year * 100 + month) * 100 + day) * 100 + hour) * 100 + minute) * 100 +
      second) / 1000000 : ℕ) = ((year * 100 + month) * 100 + day : ℕ) := by
    rw [toInt32_of_range (by omega) (by omega)]
    omega
  have ht : toInt32 ((((((year * 100 + month) * 100 + day) * 100 + hour) * 100 + minute) * 100 +
      second) % 1000000 : ℕ) = ((hour * 100 + minute) * 100 + second : ℕ) := by
    rw [toInt32_of_range (by omega) (by omega)]
    omega
  have htext : datetimeText
      (((((year * 100 + month) * 100 + day) * 100 + hour) * 100 + minute) * 100 + second) =
      zeroPadded 4 year ++ 45 :: (zeroPadded 2 month ++ 45 :: (zeroPadded 2 day ++
        32 :: (zeroPadded 2 hour ++
          58 :: (zeroPadded 2 minute ++ 58 :: zeroPadded 2 second)))) := by
    obtain ⟨hd1, hd2, hd3⟩ := twoDigitGroups year (b := month) (c := day) (by omega) (by omega)
    obtain ⟨ht1, ht2, ht3⟩ := twoDigitGroups hour (b := minute) (c := second) (by omega) (by omega)
    simp only [datetimeText, hd, ht, hd1, hd2, hd3, ht1, ht2, ht3]
    simp [ascii]
  rw [htext, readTemporal_zeroPadded_append, numbersIn_zeroPadded_append (by decide),
    numbersIn_zeroPadded_append (by decide), numbersIn_zeroPadded_append (by decide),
    numbersIn_zeroPadded_append (by decide), numbersIn_zeroPadded_append (by decide),
    numbersIn_zeroPadded]

theorem readTemporal_dateText {year month day : ℕ} (hmonth : month < 16) (hday : day < 32) :
    readTemporal (dateText (year * 2 ^ 9 + month * 2 ^ 5 + day)) =
      (false, [year, month, day]) := by
  have hy : (year * 2 ^ 9 + month * 2 ^ 5 + day) / (16 * 32) = year := by omega
  have hm : (year * 2 ^ 9 + month * 2 ^ 5 + day) / 32 % 16 = month := by omega
  have hd : (year * 2 ^ 9 + month * 2 ^ 5 + day) % 32 = day := by omega
  have htext : dateText (year * 2 ^ 9 + month * 2 ^ 5 + day) =
      zeroPadded 4 year ++ 45 :: (zeroPadded 2 month ++ 45 :: zeroPadded 2 day) := by
    rw [dateText, hy, hm, hd]
    simp [ascii]
  rw [htext, readTemporal_zeroPadded_append, numbersIn_zeroPadded_append (by decide),
    numbersIn_zeroPadded_append (by decide), numbersIn_zeroPadded]

/-- A time is printed from an unsigned number. -/
theorem readTemporal_timeText (v : ℕ) :
    readTemporal (timeText v) = (false, [v / 10000, v % 10000 / 100, v % 100]) := by
  have htext : timeText v = 39 :: (zeroPadded 2 (v / 10000 : ℕ) ++
      58 :: (zeroPadded 2 (v % 10000 / 100 : ℕ) ++
        58 :: (zeroPadded 2 (v % 100 : ℕ) ++ [39]))) := by
    simp [timeText, ascii]
  rw [htext, readTemporal_quote, readTemporal_zeroPadded_append,
    numbersIn_zeroPadded_append (by decide), numbersIn_zeroPadded_append (by decide),
    numbersIn_zeroPadded_append (by decide)]
  rfl

theorem readTemporal_zeroPadded (w n : ℕ) : readTemporal (zeroPadded w (n : ℤ)) = (false, [n]) := by
  have h := readTemporal_zeroPadded_append w n []
  rwa [List.append_nil, numbersIn_zeroPadded] at h

/-! ## The cells -/

namespace Temporal

variable (t : Temporal)

/-- The text of the value's cell. -/
def text : List UInt8 :=
  match t with
  | datetime .. => datetimeText (leNat t.encode)
  | date .. => dateText (leNat t.encode)
  | time .. => timeText (leNat t.encode)
  | year .. => zeroPadded 4 (leNat t.encode + 1900)

theorem value2Cell_eq {ev : Mem} {p : ℤ} (word : ℕ) (hev : Holds ev p t.encode) :
    ∃ cell evcur, value2Cell ⟨ev, p⟩ t.type word = .ok (cell, evcur) ∧
      cell.ctype = .string ∧ cell.value = some (t.text ++ [0]) := by
  have hread (f : FieldType) (n : ℕ) (hf : f.fixedWidth = some n) (hn : n = t.encode.length) :
      value2Cell ⟨ev, p⟩ f.toByte word =
        .ok (fixedCell f t.encode, EventCursor.advance ⟨ev, p⟩ n) := by
    rw [value2Cell_fixed f hf, hev.slice_eq hn]
  cases t with
  | datetime => exact ⟨_, _, hread .datetime 8 rfl (length_leBytes 8 _).symm, rfl, rfl⟩
  | date => exact ⟨_, _, hread .date 3 rfl (length_leBytes 3 _).symm, rfl, rfl⟩
  | time => exact ⟨_, _, hread .time 3 rfl (length_leBytes 3 _).symm, rfl, rfl⟩
  | year => exact ⟨_, _, hread .year 1 rfl (length_leBytes 1 _).symm, rfl, rfl⟩

theorem readsBack_iff : t.ReadsBack ↔ readTemporal t.text = t.value := by
  constructor
  · intro h
    obtain ⟨cell, evcur, text, hcell, -, hvalue, hread⟩ :=
      h (ofBytes t.encode) 0 0 (holds_ofBytes _)
    obtain ⟨cell', evcur', hcell', -, hvalue'⟩ := t.value2Cell_eq 0 (holds_ofBytes _)
    rw [hcell] at hcell'
    cases hcell'
    rw [hvalue, Option.some_inj] at hvalue'
    rwa [List.append_cancel_right hvalue'] at hread
  · intro h ev p word hev
    obtain ⟨cell, evcur, hcell, hctype, hvalue⟩ := t.value2Cell_eq word hev
    exact ⟨cell, evcur, t.text, hcell, hctype, hvalue, h⟩

/-- Is the value a time before zero or the year 0000? -/
def NegativeOrZeroYear : Temporal → Prop
  | time neg .. => neg = true
  | year y _ => y = 0
  | _ => False

/-- All values come back but the negative times and the year 0000. -/
theorem readsBack_iff_not_negativeOrZeroYear : t.ReadsBack ↔ ¬t.NegativeOrZeroYear := by
  rw [readsBack_iff]
  cases t with
  | datetime y month day hour minute second h =>
    have hle : leNat (encode (datetime y month day hour minute second h)) =
        ((((y * 100 + month) * 100 + day) * 100 + hour) * 100 + minute) * 100 + second := by
      apply leNat_leBytes_of_lt
      omega
    rw [text, hle, readTemporal_datetimeText h]
    simp [value, NegativeOrZeroYear]
  | date y month day h =>
    have hle : leNat (encode (date y month day h)) = y * 2 ^ 9 + month * 2 ^ 5 + day := by
      apply leNat_leBytes_of_lt
      omega
    rw [text, hle, readTemporal_dateText h.2.1 h.2.2]
    simp [value, NegativeOrZeroYear]
  | time neg hour minute second h hneg =>
    rw [text, readTemporal_timeText]
    cases neg with
    | false =>
      have hle : leNat (encode (time false hour minute second h hneg)) =
          hour * 10000 + minute * 100 + second := by
        have hv : unsigned 24 (1 * (hour * 10000 + minute * 100 + second : ℕ)) =
            hour * 10000 + minute * 100 + second := by
          rw [one_mul, unsigned]
          omega
        rw [encode, if_neg Bool.false_ne_true, hv]
        apply leNat_leBytes_of_lt
        omega
      have h1 : (hour * 10000 + minute * 100 + second) / 10000 = hour := by omega
      have h2 : (hour * 10000 + minute * 100 + second) % 10000 / 100 = minute := by omega
      have h3 : (hour * 10000 + minute * 100 + second) % 100 = second := by omega
      rw [hle, h1, h2, h3]
      simp [value, NegativeOrZeroYear]
    | true => simp [value, NegativeOrZeroYear]
  | year y h =>
    have hle : leNat (encode (year y h)) = if y = 0 then 0 else y - 1900 := by
      apply leNat_leBytes_of_lt
      split_ifs <;> omega
    have htext : text (year y h) = zeroPadded 4 (leNat (encode (year y h)) + 1900 : ℕ) := by
      rw [text, Nat.cast_add]
      rfl
    rw [htext, readTemporal_zeroPadded, hle]
    by_cases hy : y = 0
    · subst hy
      simp [value, NegativeOrZeroYear]
    · have hback : y - 1900 + 1900 = y := by omega
      rw [if_neg hy, hback]
      simp [value, NegativeOrZeroYear, hy]

/-- The time -00:00:01 is printed as `'1677:72:15'`. -/
theorem negativeSecond_not_readsBack :
    ¬(time true 0 0 1 (by decide) (by decide)).ReadsBack := by
  rw [readsBack_iff, text, readTemporal_timeText]
  simp [value]

end Temporal

end LibBinlog
