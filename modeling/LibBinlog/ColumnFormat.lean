import LibBinlog.DecimalFormat
import LibBinlog.LogEvent

/-!
# The stored form of column values

What stands in a row image for one value, column type by column type: fixed-width numbers and
dates, strings and blobs behind their length, bit fields and packed decimals. `value2Cell` takes
exactly these bytes from the event, wherever they stand, and its cell depends on nothing else.
-/

namespace LibBinlog

open Machine Memory

variable {type : UInt8} {word n : ℕ} {bs content : List UInt8} {ev : Mem} {p : ℤ}

namespace FieldType

/-- The width of the types whose values all take the same number of bytes. -/
def fixedWidth : FieldType → Option ℕ
  | tiny => some 1
  | short => some 2
  | int24 => some 3
  | long => some 4
  | longlong => some 8
  | timestamp => some 4
  | date => some 3
  | time => some 3
  | datetime => some 8
  | year => some 1
  | float => some 4
  | double => some 8
  | _ => none

end FieldType

/-- The metadata of `CHAR` columns of at most `max` bytes: the two high bits of the length hide in
the type byte. -/
def charWord (max : ℕ) : ℕ := (254 ^^^ ((max &&& 0x300) >>> 4)) * 256 + max % 256

/-- The length in front of a string of at most `max` bytes takes one byte or two. -/
def lengthWidth (max : ℕ) : ℕ := if max < 256 then 1 else 2

/-- `bs` is a value of a column with this type and metadata. -/
inductive Stored : UInt8 → ℕ → List UInt8 → Prop
  | fixed (t : FieldType) (word : ℕ) (bs : List UInt8) (h : t.fixedWidth = some bs.length) :
    Stored t.toByte word bs
  | varchar (max : ℕ) (content : List UInt8) (hmax : max < 65536) (h : content.length ≤ max) :
    Stored FieldType.varchar.toByte max (leBytes (lengthWidth max) content.length ++ content)
  | char (max : ℕ) (content : List UInt8) (hmax : max ≤ 1023) (h : content.length ≤ max) :
    Stored FieldType.string.toByte (charWord max)
      (leBytes (lengthWidth max) content.length ++ content)
  | enum (bs : List UInt8) (h : bs.length = 1 ∨ bs.length = 2) :
    Stored FieldType.string.toByte (247 * 256 + bs.length) bs
  | blob (k : ℕ) (content : List UInt8) (hk : 1 ≤ k) (hk' : k ≤ 4)
    (h : content.length < 256 ^ k) :
    Stored FieldType.blob.toByte k (leBytes k content.length ++ content)
  | bit (word : ℕ) (bs : List UInt8) (h : bs.length = bitBytes word) :
    Stored FieldType.bit.toByte word bs
  | newdecimal (precision scale : ℕ) (d : DecimalValue precision scale) (hp : 1 ≤ precision)
    (hp' : precision ≤ 65) (hs : scale ≤ 30) (hsp : scale ≤ precision) :
    Stored FieldType.newdecimal.toByte (precision * 256 + scale) d.stored

/-- The bytes `bs` alone decide the cell, and the cursor moves past them. From wherever the same
cell is read, the cursor moves by as much. -/
structure Decodes (type : UInt8) (word : ℕ) (bs : List UInt8) (cell : Cell) : Prop where
  ne_empty : cell ≠ .empty
  reads : ∀ (ev : Mem) (p : ℤ), 0 ≤ p → p + bs.length < 2 ^ 31 → Holds ev p bs →
    value2Cell ⟨ev, p⟩ type word = .ok (cell, ⟨ev, p + bs.length⟩)
  consumes : ∀ evcur evcur' : EventCursor, value2Cell evcur type word = .ok (cell, evcur') →
    evcur' = evcur.advance bs.length

theorem stringType_of_ne (h : type ≠ FieldType.string.toByte) :
    stringType type word = (type, 0) := if_neg h

theorem value2Cell_decimal (word : ℕ) (evcur : EventCursor) :
    value2Cell evcur FieldType.newdecimal.toByte word = newdecimalCell word evcur := by
  rw [value2Cell, stringType_of_ne (by decide)]
  dsimp only
  rw [FieldType.ofByte_toByte]

theorem and_low_byte (n : ℕ) : n &&& 0xFF = n % 256 := by
  have hmask : 0xFF = 2 ^ 8 - 1 := rfl
  rw [hmask, Nat.and_two_pow_sub_one_eq_mod]

/-- The two high bits of the length, at their places in the type byte. -/
theorem high_bits {max : ℕ} (h : max ≤ 1023) : (max &&& 0x300) >>> 4 = max / 256 * 16 := by
  have hdiv : (max &&& 0x300) / 2 ^ 8 = max / 2 ^ 8 &&& 2 ^ 2 - 1 := Nat.and_div_two_pow
  have hmod : (max &&& 0x300) % 2 ^ 8 = max % 2 ^ 8 &&& 0 := Nat.and_mod_two_pow
  rw [Nat.and_two_pow_sub_one_eq_mod] at hdiv
  rw [Nat.and_zero] at hmod
  rw [Nat.shiftRight_eq_div_pow]
  omega

/-- The type byte over the low byte of the length. -/
theorem charWord_eq {max : ℕ} (h : max ≤ 1023) : ∃ top, top = 254 ^^^ max / 256 * 16 ∧
    1 ≤ top ∧ top < 256 ∧ charWord max = top * 256 + max % 256 := by
  have htop : ∀ k < 4, 1 ≤ 254 ^^^ k * 16 ∧ 254 ^^^ k * 16 < 256 := by decide
  obtain ⟨hpos, hlt⟩ := htop (max / 256) (by omega)
  refine ⟨_, rfl, hpos, hlt, ?_⟩
  rw [charWord, high_bits h]

theorem stringType_charWord {max : ℕ} (h : max ≤ 1023) :
    stringType FieldType.string.toByte (charWord max) = (FieldType.string.toByte, max) := by
  obtain ⟨top, htop, hpos, -, hword⟩ := charWord_eq h
  have hlow : charWord max &&& 0xFF = max % 256 := by
    rw [and_low_byte, hword]
    omega
  have hhigh : charWord max >>> 8 = top := by
    rw [Nat.shiftRight_eq_div_pow, hword]
    omega
  have hmax : max % 256 ||| 2 ^ 8 * (max / 256) = max := by
    rw [Nat.or_comm, ← Nat.two_pow_add_eq_or_of_lt (Nat.mod_lt _ (by norm_num))]
    exact Nat.div_add_mod max 256
  have hfour : max / 256 < 4 := by omega
  rw [stringType, if_pos rfl, if_pos (by omega), hlow, hhigh, htop]
  generalize max / 256 = k at hfour hmax
  interval_cases k
  · rw [Nat.mul_zero, Nat.or_zero] at hmax
    exact congrArg (Prod.mk 254) hmax
  all_goals exact congrArg (Prod.mk 254) hmax

/-- An empty cell comes only from a branch that reads nothing. -/
theorem value2Cell_empty {evcur evcur' : EventCursor}
    (h : value2Cell evcur type word = .ok (.empty, evcur')) : evcur' = evcur := by
  have hmtype {c : Cell} {cur : EventCursor}
      (he : (.ok (c, cur) : Except Fault _) = .ok (.empty, evcur')) (hc : c.mtype ≠ .decimal) :
      evcur' = evcur := by
    cases he
    exact absurd rfl hc
  rw [value2Cell] at h
  generalize stringType type word = st at h
  obtain ⟨ty, k⟩ := st
  cases hty : FieldType.ofByte ty with
  | none =>
    simp only [hty] at h
    cases h
    rfl
  | some t =>
    cases t <;> simp only [hty] at h
    case newdecimal =>
      rw [newdecimalCell] at h
      split_ifs at h
      split at h
      · exact hmtype h (by rintro ⟨⟩)
      · cases h
        rfl
    case set =>
      simp only [setCell] at h
      split_ifs at h
      exact hmtype h (by rintro ⟨⟩)
    case enum =>
      unfold enumCell at h
      split at h <;> exact hmtype h (by rintro ⟨⟩)
    case blob =>
      unfold blobCell at h
      split at h <;> exact hmtype h (by rintro ⟨⟩)
    all_goals first
      | (cases h; rfl)
      | exact hmtype h (by rintro ⟨⟩)

/-! ## Reads of a block that stands at the cursor -/

theorem getUint8_eq (m : Mem) (p : ℤ) : getUint8 m p = leNat (slice m p 1) := by
  simp [getUint8, slice_succ, leNat]

theorem getInt24_eq (m : Mem) (p : ℤ) : getInt24 m p = signed 24 (leNat (slice m p 3)) := by
  have hs : slice m p 3 = [m p, m (p + 1), m (p + 2)] := by
    simp only [slice, add_assoc, Int.reduceAdd]
  have h0 := (m p).toNat_lt
  have h1 := (m (p + 1)).toNat_lt
  have h2 := (m (p + 2)).toNat_lt
  rw [hs, getInt24, getInt8, getUint8]
  simp only [leNat, byteShl, Nat.shiftLeft_eq, signed, toInt32, Int.bmod_def]
  push_cast
  split_ifs <;> omega

/-- The cell of a fixed-width value. -/
def fixedCell (t : FieldType) (bs : List UInt8) : Cell :=
  match t with
  | .tiny => intCell .tiny .int8 1 (signed 8 (leNat bs))
  | .short => intCell .short .int16 2 (signed 16 (leNat bs))
  | .int24 => intCell .int24 .int32 4 (signed 24 (leNat bs))
  | .long => intCell .long .int32 4 (signed 32 (leNat bs))
  | .longlong => intCell .longlong .int64 8 (signed 64 (leNat bs))
  | .timestamp => intCell .timestamp .uint32 4 (leNat bs)
  | .date => textCell .date (dateText (leNat bs))
  | .time => textCell .time (timeText (leNat bs))
  | .datetime => textCell .datetime (datetimeText (leNat bs))
  | .year => textCell .year (zeroPadded 4 (leNat bs + 1900))
  | .float => ⟨.float, .float, 4, some bs⟩
  | .double => ⟨.double, .double, 8, some bs⟩
  | _ => .empty

theorem value2Cell_fixed (t : FieldType) (h : t.fixedWidth = some n) (evcur : EventCursor) :
    value2Cell evcur t.toByte word =
      .ok (fixedCell t (slice evcur.ev evcur.cur n), evcur.advance n) := by
  have hne : t.toByte ≠ FieldType.string.toByte := by
    intro he
    cases t <;> first | exact absurd he (by decide) | cases h
  simp only [value2Cell, stringType_of_ne hne, FieldType.ofByte_toByte]
  cases t <;> cases h <;>
    simp only [readUint8, readInt8, readInt16, readInt24, readInt32, readInt64, readUint24,
      readUint32, readUint64, rawCell, readBytes, getInt8, getInt16, getInt32, getInt64,
      getUint16, getUint32, getUint64, getUint8_eq, getUint24_eq, getInt24_eq, fixedCell]
  · rfl
  · rfl

theorem fixedCell_mtype (t : FieldType) (h : t.fixedWidth = some n) (bs : List UInt8) :
    (fixedCell t bs).mtype = t := by
  cases t <;> first | rfl | cases h

theorem fixedCell_ne_empty (t : FieldType) (h : t.fixedWidth = some n) (bs : List UInt8) :
    fixedCell t bs ≠ .empty := by
  intro he
  have hm := fixedCell_mtype t h bs
  rw [he] at hm
  subst hm
  cases h

/-- A length of `k` bytes and the content behind it. -/
theorem readBytes_of_holds {k : ℕ} (h0 : 0 ≤ p)
    (h1 : p + (leBytes k content.length ++ content).length < 2 ^ 31)
    (hev : Holds ev p (leBytes k content.length ++ content)) :
    EventCursor.advance ⟨ev, p⟩ k = ⟨ev, p + k⟩ ∧
      readBytes ⟨ev, p + k⟩ content.length =
        (content, ⟨ev, p + (leBytes k content.length ++ content).length⟩) := by
  rw [List.length_append, length_leBytes] at h1 ⊢
  have hright := hev.right
  rw [length_leBytes] at hright
  refine ⟨EventCursor.advance_mk h0 (by omega), ?_⟩
  rw [readBytes, hright.slice_eq rfl, EventCursor.advance_mk (by omega) (by omega)]
  push_cast
  rw [add_assoc]

/-- A string behind its length. -/
theorem stringCell_eq {max : ℕ} {mtype : FieldType} (hmax : max < 65536)
    (hlen : content.length ≤ max) (h0 : 0 ≤ p)
    (h1 : p + (leBytes (lengthWidth max) content.length ++ content).length < 2 ^ 31)
    (hev : Holds ev p (leBytes (lengthWidth max) content.length ++ content)) :
    stringCell mtype max ⟨ev, p⟩ =
      (⟨.string, mtype, content.length, some (content ++ [0])⟩,
        ⟨ev, p + (leBytes (lengthWidth max) content.length ++ content).length⟩) := by
  obtain ⟨hadv, hcontent⟩ := readBytes_of_holds h0 h1 hev
  have h32 : toInt32 (content.length : ℤ) = content.length :=
    toInt32_of_range (by omega) (by omega)
  by_cases hshort : max < 256
  · have hw : lengthWidth max = 1 := if_pos hshort
    rw [hw] at hadv hcontent hev ⊢
    have hn : getUint8 ev p = content.length := by
      rw [getUint8_eq]
      exact hev.left.leNat_slice (by omega)
    rw [stringCell, if_pos hshort, readUint8, hn, hadv]
    rw [Nat.cast_one] at hcontent
    simp only [hcontent, h32, Nat.cast_one]
  · have hw : lengthWidth max = 2 := if_neg hshort
    rw [hw] at hadv hcontent hev ⊢
    have hn : getUint16 ev p = content.length := hev.left.leNat_slice (by omega)
    rw [stringCell, if_neg hshort, readUint16, hn, hadv]
    simp only [hcontent, h32]

theorem blobCell_eq {k : ℕ} (hk : 1 ≤ k) (hk' : k ≤ 4) (hlen : content.length < 256 ^ k)
    (h0 : 0 ≤ p) (h1 : p + (leBytes k content.length ++ content).length < 2 ^ 31)
    (hev : Holds ev p (leBytes k content.length ++ content)) :
    blobCell k ⟨ev, p⟩ =
      (⟨.binary, .blob, content.length, some content⟩,
        ⟨ev, p + (leBytes k content.length ++ content).length⟩) := by
  obtain ⟨hadv, hcontent⟩ := readBytes_of_holds h0 h1 hev
  have h32 : toInt32 (content.length : ℤ) = content.length := by
    rw [List.length_append] at h1
    exact toInt32_of_range (by omega) (by omega)
  have hraw : rawCell .blob .binary content.length ⟨ev, p + k⟩ =
      (⟨.binary, .blob, content.length, some content⟩,
        ⟨ev, p + (leBytes k content.length ++ content).length⟩) := by
    rw [rawCell, hcontent, h32]
  have hn := hev.left.leNat_slice hlen
  rw [← hraw]
  obtain rfl | rfl | rfl | rfl : k = 1 ∨ k = 2 ∨ k = 3 ∨ k = 4 := by omega
  · rw [← getUint8_eq] at hn
    rw [blobCell, readUint8, hn, hadv]
  · rw [blobCell, readUint16, getUint16, hn, hadv]
  · rw [blobCell, readUint24, getUint24_eq, hn, hadv]
  · rw [blobCell, readUint32, getUint32, hn, hadv]

/-- How far the cursor went shows in the content. -/
theorem stringCell_consumes {max : ℕ} {mtype : FieldType} {length : ℤ}
    {evcur evcur' : EventCursor} (h : stringCell mtype max evcur =
      (⟨.string, mtype, length, some (content ++ [0])⟩, evcur')) :
    evcur' = evcur.advance (leBytes (lengthWidth max) content.length ++ content).length := by
  rw [List.length_append, length_leBytes]
  have hread {n : ℕ} {cur : EventCursor} (hs : slice cur.ev cur.cur n ++ [0] = content ++ [0]) :
      n = content.length := by
    rw [← length_slice cur.ev cur.cur n, (List.append_inj_left' hs rfl)]
  by_cases hshort : max < 256
  · have hw : lengthWidth max = 1 := if_pos hshort
    simp only [stringCell, if_pos hshort, readUint8, readBytes, Prod.mk.injEq, Cell.mk.injEq,
      Option.some.injEq, true_and] at h
    rw [← h.2, hread h.1.2, hw, EventCursor.advance_advance]
  · have hw : lengthWidth max = 2 := if_neg hshort
    simp only [stringCell, if_neg hshort, readUint16, readBytes, Prod.mk.injEq, Cell.mk.injEq,
      Option.some.injEq, true_and] at h
    rw [← h.2, hread h.1.2, hw, EventCursor.advance_advance]

theorem blobCell_consumes {k : ℕ} (hk : 1 ≤ k) (hk' : k ≤ 4) {length : ℤ}
    {evcur evcur' : EventCursor}
    (h : blobCell k evcur = (⟨.binary, .blob, length, some content⟩, evcur')) :
    evcur' = evcur.advance (leBytes k content.length ++ content).length := by
  rw [List.length_append, length_leBytes]
  have hraw {n : ℕ} {cur : EventCursor}
      (hs : rawCell .blob .binary n cur = (⟨.binary, .blob, length, some content⟩, evcur')) :
      evcur' = cur.advance content.length := by
    simp only [rawCell, readBytes, Prod.mk.injEq, Cell.mk.injEq, Option.some.injEq,
      true_and] at hs
    rw [← hs.2, ← hs.1.2, length_slice]
  obtain rfl | rfl | rfl | rfl : k = 1 ∨ k = 2 ∨ k = 3 ∨ k = 4 := by omega
  all_goals
    rw [hraw h]
    exact EventCursor.advance_advance evcur _ _

theorem stringType_enum (h : n = 1 ∨ n = 2) :
    stringType FieldType.string.toByte (247 * 256 + n) = (FieldType.enum.toByte, n) := by
  obtain rfl | rfl := h <;> rfl

theorem enumCell_snd (h : n = 1 ∨ n = 2) (evcur : EventCursor) :
    (enumCell (247 * 256 + n) evcur).2 = evcur.advance n := by
  obtain rfl | rfl := h <;> rfl

theorem enumCell_eq (h : bs.length = 1 ∨ bs.length = 2) (h0 : 0 ≤ p)
    (h1 : p + bs.length < 2 ^ 31) (hev : Holds ev p bs) :
    enumCell (247 * 256 + bs.length) ⟨ev, p⟩ =
      (intCell .enum .int32 4 (leNat bs), ⟨ev, p + bs.length⟩) := by
  have hadv := @EventCursor.advance_mk ev _ _ h0 h1
  have hs := hev.slice_eq rfl
  obtain hlen | hlen := h
  · rw [hlen] at hadv hs ⊢
    rw [← hadv, ← hs, ← getUint8_eq]
    rfl
  · rw [hlen] at hadv hs ⊢
    rw [← hadv, ← hs]
    rfl

theorem newdecimal_word {precision scale : ℕ} (hp' : precision ≤ 65) (hs : scale ≤ 30) :
    ((precision * 256 + scale) >>> 8) % 256 = precision ∧
      (precision * 256 + scale) &&& 0xFF = scale := by
  rw [Nat.shiftRight_eq_div_pow, and_low_byte]
  omega

theorem newdecimalCell_eq {precision scale : ℕ} (d : DecimalValue precision scale)
    (hp : 1 ≤ precision) (hp' : precision ≤ 65) (hs : scale ≤ 30) (hsp : scale ≤ precision)
    (h0 : 0 ≤ p) (h1 : p + d.stored.length < 2 ^ 31) (hev : Holds ev p d.stored) :
    newdecimalCell (precision * 256 + scale) ⟨ev, p⟩ =
      .ok (decimalCell d.decoded, ⟨ev, p + d.stored.length⟩) := by
  obtain ⟨hprec, hscale⟩ := newdecimal_word hp' hs
  simp only [newdecimalCell, hprec, hscale]
  rw [if_pos ⟨by omega, hsp⟩, d.bin2decimal_stored (by omega) hp' hsp hev, ← d.length_stored hsp]
  rw [EventCursor.advance_mk h0 h1]

theorem newdecimalCell_consumes {precision scale : ℕ} {cell : Cell} (hne : cell ≠ .empty)
    (hs : scale ≤ 30) (hp' : precision ≤ 65) {evcur evcur' : EventCursor}
    (h : newdecimalCell (precision * 256 + scale) evcur = .ok (cell, evcur')) :
    evcur' = evcur.advance (decimalBinSize precision scale) := by
  obtain ⟨hprec, hscale⟩ := newdecimal_word hp' hs
  simp only [newdecimalCell, hprec, hscale] at h
  split_ifs at h
  split at h
  · cases h
    rfl
  · cases h
    exact absurd rfl hne

theorem Stored.decodes (h : Stored type word bs) : ∃ cell, Decodes type word bs cell := by
  cases h with
  | fixed t word bs h =>
    refine ⟨fixedCell t bs, fixedCell_ne_empty t h bs, fun ev p h0 h1 hev => ?_,
      fun evcur evcur' hcell => ?_⟩
    · rw [value2Cell_fixed t h, hev.slice_eq rfl, EventCursor.advance_mk h0 h1]
    · rw [value2Cell_fixed t h] at hcell
      exact (congrArg Prod.snd (Except.ok.inj hcell)).symm
  | varchar max content hmax hlen =>
    refine ⟨⟨.string, .varchar, content.length, some (content ++ [0])⟩, nofun,
      fun ev p h0 h1 hev => ?_, fun evcur evcur' hcell => ?_⟩
    · rw [← stringCell_eq hmax hlen h0 h1 hev]
      rfl
    · exact stringCell_consumes (Except.ok.inj hcell)
  | char max content hmax hlen =>
    have hstring : ∀ evcur, value2Cell evcur FieldType.string.toByte (charWord max) =
        .ok (stringCell .string max evcur) := by
      intro evcur
      rw [value2Cell, stringType_charWord hmax]
      rfl
    refine ⟨⟨.string, .string, content.length, some (content ++ [0])⟩, nofun,
      fun ev p h0 h1 hev => ?_, fun evcur evcur' hcell => ?_⟩
    · rw [hstring, ← stringCell_eq (by omega) hlen h0 h1 hev]
    · rw [hstring] at hcell
      exact stringCell_consumes (Except.ok.inj hcell)
  | enum bs h =>
    have henum : ∀ evcur, value2Cell evcur FieldType.string.toByte (247 * 256 + bs.length) =
        .ok (enumCell (247 * 256 + bs.length) evcur) := by
      intro evcur
      rw [value2Cell, stringType_enum h]
      rfl
    refine ⟨intCell .enum .int32 4 (leNat bs), nofun, fun ev p h0 h1 hev => ?_,
      fun evcur evcur' hcell => ?_⟩
    · rw [henum, ← enumCell_eq h h0 h1 hev]
    · rw [henum] at hcell
      rw [← enumCell_snd h, Except.ok.inj hcell]
  | blob k content hk hk' hlen =>
    refine ⟨⟨.binary, .blob, content.length, some content⟩, nofun, fun ev p h0 h1 hev => ?_,
      fun evcur evcur' hcell => ?_⟩
    · rw [← blobCell_eq hk hk' hlen h0 h1 hev]
      rfl
    · exact blobCell_consumes hk hk' (Except.ok.inj hcell)
  | bit word bs hlen =>
    have hraw : ∀ evcur, value2Cell evcur FieldType.bit.toByte word =
        .ok (rawCell .bit .binary (bitBytes word) evcur) := fun _ => rfl
    refine ⟨⟨.binary, .bit, toInt32 bs.length, some bs⟩, nofun, fun ev p h0 h1 hev => ?_,
      fun evcur evcur' hcell => ?_⟩
    · rw [hraw, rawCell, readBytes, ← hlen, hev.slice_eq rfl, EventCursor.advance_mk h0 h1]
    · rw [hraw, ← hlen] at hcell
      exact (congrArg Prod.snd (Except.ok.inj hcell)).symm
  | newdecimal precision scale d hp hp' hs hsp =>
    have hne : decimalCell d.decoded ≠ .empty := nofun
    refine ⟨decimalCell d.decoded, hne, fun ev p h0 h1 hev => ?_,
      fun evcur evcur' hcell => ?_⟩
    · rw [value2Cell_decimal, newdecimalCell_eq d hp hp' hs hsp h0 h1 hev]
    · rw [value2Cell_decimal] at hcell
      rw [d.length_stored hsp]
      exact newdecimalCell_consumes hne hs hp' hcell

/-- The cell that `value2Cell` makes of a value's own bytes, standing alone. -/
def standaloneCell (type : UInt8) (word : ℕ) (bs : List UInt8) : Cell :=
  match value2Cell ⟨ofBytes bs, 0⟩ type word with
  | .ok (cell, _) => cell
  | .error _ => .empty

theorem Stored.decodes_standalone (h : Stored type word bs) (hlen : bs.length < 2 ^ 31) :
    Decodes type word bs (standaloneCell type word bs) := by
  obtain ⟨cell, hcell⟩ := h.decodes
  have halone : standaloneCell type word bs = cell := by
    rw [standaloneCell, hcell.reads (ofBytes bs) 0 le_rfl (by omega) (holds_ofBytes bs)]
  rwa [halone]

end LibBinlog
