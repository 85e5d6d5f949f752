import LibBinlog.ColumnFormat

/-!
# How far a column's value reaches

Of the column types that have metadata, the row format says how many bytes a value takes.
`value2Cell` moves its cursor by as many, except for the blob types other than `BLOB` itself and for
`GEOMETRY`, which its switch does not know, and for decimals whose digits are rejected.
-/

namespace LibBinlog

open Machine Memory

variable {ev : Mem} {p : ℤ} {type : UInt8} {word n : ℕ}

/-- A length of `w` bytes and as many bytes as it says. -/
def prefixedSize (ev : Mem) (p : ℤ) (w : ℕ) : ℕ := w + leNat (slice ev p w)

/-- The blob types, of which the switch of `value2Cell` has one. -/
def blobTypes : List FieldType := [.tinyBlob, .mediumBlob, .longBlob, .blob, .geometry]

/-- A value at `p` of a column with this type and metadata takes `n` bytes. Sets and enumerations
are carried as strings, with their own type in the metadata. -/
inductive ValueTakes (ev : Mem) (p : ℤ) : UInt8 → ℕ → ℕ → Prop
  | blob (t : FieldType) (k : ℕ) (ht : t ∈ blobTypes) (hk : 1 ≤ k) (hk' : k ≤ 4) :
    ValueTakes ev p t.toByte k (prefixedSize ev p k)
  | float (word : ℕ) : ValueTakes ev p FieldType.float.toByte word 4
  | double (word : ℕ) : ValueTakes ev p FieldType.double.toByte word 8
  | set (t : FieldType) (n : ℕ) (ht : t = .set ∨ t = .string) (hn : 1 ≤ n) (hn' : n ≤ 8) :
    ValueTakes ev p t.toByte (248 * 256 + n) n
  | enum (t : FieldType) (n : ℕ) (ht : t = .enum ∨ t = .string) (hn : n = 1 ∨ n = 2) :
    ValueTakes ev p t.toByte (247 * 256 + n) n
  | char (max : ℕ) (hmax : max ≤ 1023) :
    ValueTakes ev p FieldType.string.toByte (charWord max) (prefixedSize ev p (lengthWidth max))
  | varchar (max : ℕ) (hmax : max < 65536) :
    ValueTakes ev p FieldType.varchar.toByte max (prefixedSize ev p (lengthWidth max))
  | bit (word : ℕ) : ValueTakes ev p FieldType.bit.toByte word (bitBytes word)
  | newdecimal (precision scale : ℕ) (hp : 1 ≤ precision) (hp' : precision ≤ 65)
    (hs : scale ≤ 30) (hsp : scale ≤ precision) :
    ValueTakes ev p FieldType.newdecimal.toByte (precision * 256 + scale)
      (decimalBinSize precision scale)

/-- These are types for which `decodeMetadata` takes metadata bytes. -/
theorem ValueTakes.hasMetadata (h : ValueTakes ev p type word n) (m : Mem) (metadata : ℤ)
    (index : ℕ) : index < (columnMetadata m metadata type index).2 := by
  cases h with
  | blob t k ht hk hk' =>
    simp only [blobTypes, List.mem_cons, List.not_mem_nil, or_false] at ht
    rcases ht with rfl | rfl | rfl | rfl | rfl <;> exact Nat.lt_succ_self index
  | set t n ht hn hn' =>
    rcases ht with rfl | rfl <;> exact Nat.lt_add_of_pos_right Nat.two_pos
  | enum t n ht hn =>
    rcases ht with rfl | rfl <;> exact Nat.lt_add_of_pos_right Nat.two_pos
  | float word => exact Nat.lt_succ_self index
  | double word => exact Nat.lt_succ_self index
  | char max hmax => exact Nat.lt_add_of_pos_right Nat.two_pos
  | varchar max hmax => exact Nat.lt_add_of_pos_right Nat.two_pos
  | bit word => exact Nat.lt_add_of_pos_right Nat.two_pos
  | newdecimal precision scale => exact Nat.lt_add_of_pos_right Nat.two_pos

/-! ## The cursor, branch by branch -/

theorem stringCell_snd (mtype : FieldType) (max : ℕ) (evcur : EventCursor) :
    (stringCell mtype max evcur).2 =
      evcur.advance (prefixedSize evcur.ev evcur.cur (lengthWidth max)) := by
  unfold stringCell prefixedSize lengthWidth
  by_cases hshort : max < 256
  · simp only [if_pos hshort, readUint8, readBytes, getUint8_eq]
    rw [EventCursor.advance_advance]
  · simp only [if_neg hshort, readUint16, readBytes, getUint16]
    rw [EventCursor.advance_advance]

theorem blobCell_snd {k : ℕ} (hk : 1 ≤ k) (hk' : k ≤ 4) (evcur : EventCursor) :
    (blobCell k evcur).2 = evcur.advance (prefixedSize evcur.ev evcur.cur k) := by
  unfold prefixedSize
  obtain rfl | rfl | rfl | rfl : k = 1 ∨ k = 2 ∨ k = 3 ∨ k = 4 := by omega
  · simp only [blobCell, rawCell, readUint8, readBytes, getUint8_eq]
    rw [EventCursor.advance_advance]
  · simp only [blobCell, rawCell, readUint16, readBytes, getUint16]
    rw [EventCursor.advance_advance]
  · simp only [blobCell, rawCell, readUint24, readBytes, getUint24_eq]
    rw [EventCursor.advance_advance]
  · simp only [blobCell, rawCell, readUint32, readBytes, getUint32]
    rw [EventCursor.advance_advance]

theorem setCell_snd {k : ℕ} (hn : n ≤ 32) (evcur : EventCursor) :
    ∃ cell, setCell (k * 256 + n) evcur = .ok (cell, evcur.advance n) := by
  have hlow : (k * 256 + n) &&& 0xFF = n := by
    rw [and_low_byte]
    omega
  simp only [setCell, hlow]
  rw [if_pos hn]
  exact ⟨_, rfl⟩

theorem decimalBinSize_pos {precision scale : ℕ} (hp : 1 ≤ precision) (hsp : scale ≤ precision) :
    0 < decimalBinSize precision scale := by
  have hmod : ∀ n, n % 9 < 9 := fun n => Nat.mod_lt n (by norm_num)
  have hl : precision - scale - (precision - scale) / 9 * 9 = (precision - scale) % 9 := by omega
  have ht : scale - scale / 9 * 9 = scale % 9 := by omega
  simp only [decimalBinSize, digPerDec1, hl, ht, dig2bytes_eq (hmod _)]
  omega

theorem EventCursor.advance_eq_iff :
    EventCursor.advance ⟨ev, p⟩ n = ⟨ev, p + n⟩ ↔ -2 ^ 31 ≤ p + n ∧ p + n < 2 ^ 31 := by
  simp only [EventCursor.advance, EventCursor.mk.injEq, true_and]
  constructor
  · intro h
    rw [← h, toInt32, signed]
    have hlow := Int.le_bmod (x := p + n) (m := 2 ^ 32) (by norm_num)
    have hhigh := Int.bmod_lt (x := p + n) (m := 2 ^ 32) (by norm_num)
    omega
  · rintro ⟨hlow, hhigh⟩
    exact toInt32_of_range hlow hhigh

/-! ## Agreement with the format -/

/-- The blob types that the switch does not know. -/
def SkippedType (type : UInt8) : Prop :=
  type ∈ [FieldType.tinyBlob, .mediumBlob, .longBlob, .geometry].map FieldType.toByte

/-- The bytes at `p` are no decimal of this precision and scale. -/
def RejectedDecimal (ev : Mem) (p : ℤ) (type : UInt8) (word : ℕ) : Prop :=
  type = FieldType.newdecimal.toByte ∧
    (bin2decimal ev p 128 ((word >>> 8) % 256) (word &&& 0xFF)).1 ≠ .ok

theorem ValueTakes.moves (h : ValueTakes ev p type word n) (hskip : ¬SkippedType type)
    (hdec : ¬RejectedDecimal ev p type word) :
    ∃ cell, value2Cell ⟨ev, p⟩ type word = .ok (cell, .advance ⟨ev, p⟩ n) := by
  cases h with
  | blob t k ht hk hk' =>
    have hblob : t = .blob := by
      simp only [blobTypes, List.mem_cons, List.not_mem_nil, or_false] at ht
      rcases ht with rfl | rfl | rfl | rfl | rfl
      all_goals first | rfl | exact absurd (by unfold SkippedType; decide) hskip
    subst hblob
    exact ⟨(blobCell word ⟨ev, p⟩).1, by rw [← blobCell_snd hk hk' ⟨ev, p⟩]; rfl⟩
  | float => exact ⟨_, rfl⟩
  | double => exact ⟨_, rfl⟩
  | bit => exact ⟨_, rfl⟩
  | set t n ht hn hn' =>
    obtain ⟨cell, hcell⟩ := @setCell_snd n 248 (by omega) ⟨ev, p⟩
    refine ⟨cell, ?_⟩
    rcases ht with rfl | rfl
    · exact hcell
    · have htype : stringType FieldType.string.toByte (248 * 256 + n) =
          (FieldType.set.toByte, n) := by
        interval_cases n <;> rfl
      rw [value2Cell, htype]
      exact hcell
  | enum t n ht hn =>
    have hsnd := enumCell_snd hn ⟨ev, p⟩
    refine ⟨(enumCell (247 * 256 + n) ⟨ev, p⟩).1, ?_⟩
    rw [← hsnd]
    rcases ht with rfl | rfl
    · rfl
    · rw [value2Cell, stringType_enum hn]
      rfl
  | char max hmax =>
    have hsnd := stringCell_snd .string max ⟨ev, p⟩
    refine ⟨(stringCell .string max ⟨ev, p⟩).1, ?_⟩
    rw [value2Cell, stringType_charWord hmax, ← hsnd]
    rfl
  | varchar max hmax =>
    exact ⟨(stringCell .varchar word ⟨ev, p⟩).1,
      by rw [← stringCell_snd .varchar word ⟨ev, p⟩]; rfl⟩
  | newdecimal precision scale hp hp' hs hsp =>
    obtain ⟨hprec, hscale⟩ := newdecimal_word hp' hs
    have hok : (bin2decimal ev p 128 precision scale).1 = .ok := by
      by_contra hbad
      exact hdec ⟨rfl, by rwa [hprec, hscale]⟩
    rw [value2Cell_decimal]
    simp only [newdecimalCell, hprec, hscale]
    rw [if_pos ⟨by omega, hsp⟩]
    generalize bin2decimal ev p 128 precision scale = read at hok ⊢
    obtain ⟨status, d⟩ := read
    obtain rfl : status = .ok := hok
    exact ⟨decimalCell d, rfl⟩

theorem ValueTakes.stays (h : ValueTakes ev p type word n)
    (hstay : SkippedType type ∨ RejectedDecimal ev p type word) :
    value2Cell ⟨ev, p⟩ type word = .ok (.empty, ⟨ev, p⟩) ∧ 0 < n := by
  cases h with
  | blob t k ht hk hk' =>
    have hpos : 0 < prefixedSize ev p word := Nat.add_pos_left hk _
    simp only [blobTypes, List.mem_cons, List.not_mem_nil, or_false] at ht
    rcases ht with rfl | rfl | rfl | rfl | rfl
    · exact ⟨rfl, hpos⟩
    · exact ⟨rfl, hpos⟩
    · exact ⟨rfl, hpos⟩
    · rcases hstay with hskip | ⟨htype, -⟩
      · exact absurd hskip (by unfold SkippedType; decide)
      · exact absurd htype (by decide)
    · exact ⟨rfl, hpos⟩
  | newdecimal precision scale hp hp' hs hsp =>
    refine ⟨?_, decimalBinSize_pos hp hsp⟩
    obtain ⟨hprec, hscale⟩ := newdecimal_word hp' hs
    obtain hskip | ⟨-, hbad⟩ := hstay
    · exact absurd hskip (by unfold SkippedType; decide)
    rw [hprec, hscale] at hbad
    rw [value2Cell_decimal]
    simp only [newdecimalCell, hprec, hscale]
    rw [if_pos ⟨by omega, hsp⟩]
    generalize bin2decimal ev p 128 precision scale = read at hbad ⊢
    obtain ⟨status, d⟩ := read
    cases status with
    | ok => exact absurd rfl hbad
    | truncated | overflow | badNum => rfl
  | set t n ht hn hn' =>
    rcases ht with rfl | rfl <;> rcases hstay with hskip | ⟨htype, -⟩ <;>
      first | exact absurd hskip (by unfold SkippedType; decide) | exact absurd htype (by decide)
  | enum t n ht hn =>
    rcases ht with rfl | rfl <;> rcases hstay with hskip | ⟨htype, -⟩ <;>
      first | exact absurd hskip (by unfold SkippedType; decide) | exact absurd htype (by decide)
  | float | double | char | varchar | bit =>
    rcases hstay with hskip | ⟨htype, -⟩
    · exact absurd hskip (by unfold SkippedType; decide)
    · exact absurd htype (by decide)

/-- `value2Cell` moves the cursor by the size of the value exactly if its switch knows the type, the
value is no rejected decimal, and the place behind it is an `int`. -/
theorem value2Cell_moves_iff (h : ValueTakes ev p type word n) :
    (∃ cell, value2Cell ⟨ev, p⟩ type word = .ok (cell, ⟨ev, p + n⟩)) ↔
      ¬SkippedType type ∧ ¬RejectedDecimal ev p type word ∧ -2 ^ 31 ≤ p + n ∧ p + n < 2 ^ 31 := by
  by_cases hstay : SkippedType type ∨ RejectedDecimal ev p type word
  · obtain ⟨hcell, hpos⟩ := h.stays hstay
    constructor
    · rintro ⟨cell, hmoved⟩
      rw [hcell] at hmoved
      simp only [Except.ok.injEq, Prod.mk.injEq, EventCursor.mk.injEq, true_and] at hmoved
      omega
    · rintro ⟨hskip, hdec, -⟩
      exact absurd hstay (not_or.mpr ⟨hskip, hdec⟩)
  · rw [not_or] at hstay
    obtain ⟨cell, hcell⟩ := h.moves hstay.1 hstay.2
    rw [hcell, ← EventCursor.advance_eq_iff]
    constructor
    · rintro ⟨cell', hmoved⟩
      exact ⟨hstay.1, hstay.2, (Prod.mk.inj (Except.ok.inj hmoved)).2⟩
    · rintro ⟨-, -, hfits⟩
      exact ⟨cell, by rw [hfits]⟩

/-- A `BLOB` with a two-byte length, and what stands behind it. -/
theorem value2Cell_moves_blob : ∃ cell,
    value2Cell ⟨ofBytes [1, 0, 65, 66], 0⟩ FieldType.blob.toByte 2 =
      .ok (cell, ⟨ofBytes [1, 0, 65, 66], 0 + (3 : ℕ)⟩) :=
  (value2Cell_moves_iff (ValueTakes.blob .blob 2 (by decide) (by norm_num) (by norm_num))).mpr
    ⟨by unfold SkippedType; decide, fun h => absurd h.1 (by decide), by decide, by decide⟩

/-- A `GEOMETRY` value of one byte behind its four-byte length. -/
theorem geometry_not_moves :
    ValueTakes (ofBytes [1, 0, 0, 0, 65]) 0 FieldType.geometry.toByte 4 5 ∧
      ¬∃ cell, value2Cell ⟨ofBytes [1, 0, 0, 0, 65], 0⟩ FieldType.geometry.toByte 4 =
        .ok (cell, ⟨ofBytes [1, 0, 0, 0, 65], 0 + (5 : ℕ)⟩) := by
  have htakes : ValueTakes (ofBytes [1, 0, 0, 0, 65]) 0 FieldType.geometry.toByte 4 5 :=
    .blob .geometry 4 (by decide) (by norm_num) le_rfl
  refine ⟨htakes, ?_⟩
  rintro ⟨cell, hmoved⟩
  rw [(htakes.stays (.inl (by unfold SkippedType; decide))).1] at hmoved
  simp at hmoved

end LibBinlog
