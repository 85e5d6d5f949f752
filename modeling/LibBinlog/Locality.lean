import LibBinlog.ValueSize

/-!
# Cells depend on their own bytes only

Two places in two events that hold the same stored value give the same cell and move the cursor by
as much, whatever stands around them. Sets are the exception: their bytes are taken from the start
of the event.
-/

namespace LibBinlog

open Machine Memory

variable {ev ev' : Mem} {p p' : ℤ} {type : UInt8} {word n : ℕ}

/-- The type that the switch of `value2Cell` branches on. -/
def switchType (type : UInt8) (word : ℕ) : Option FieldType :=
  FieldType.ofByte (stringType type word).1

/-- The size of the value at `p` in the branch for this type and metadata, `none` where the switch
has no branch. -/
def valueSize (ev : Mem) (p : ℤ) (type : UInt8) (word : ℕ) : Option ℕ :=
  match switchType type word with
  | some .varchar | some .varString => some (prefixedSize ev p (lengthWidth word))
  | some .string => some (prefixedSize ev p (lengthWidth (stringType type word).2))
  | some .blob => if 1 ≤ word ∧ word ≤ 4 then some (prefixedSize ev p word) else none
  | some .enum =>
    if word &&& 0xFF = 1 ∨ word &&& 0xFF = 2 then some (word &&& 0xFF) else none
  | some .set => some (word &&& 0xFF)
  | some .bit => some (bitBytes word)
  | some .newdecimal =>
    if 0 < (word >>> 8) % 256 ∧ word &&& 0xFF ≤ (word >>> 8) % 256 then
      some (decimalBinSize ((word >>> 8) % 256) (word &&& 0xFF))
    else none
  | some .newdate => some 3
  | some t => t.fixedWidth
  | none => none

/-- The `n` bytes at `p` in one event and at `p'` in another are the same; an `int` reaches the end
of either. -/
structure SameBytes (ev : Mem) (p : ℤ) (ev' : Mem) (p' : ℤ) (n : ℕ) : Prop where
  nonneg : 0 ≤ p
  lt : p + n < 2 ^ 31
  nonneg' : 0 ≤ p'
  lt' : p' + n < 2 ^ 31
  slice_eq : slice ev p n = slice ev' p' n

/-- The stored value decides the cell and how far the cursor moves. -/
def Local (type : UInt8) (word : ℕ) : Prop :=
  ∀ ev p ev' p' n, valueSize ev p type word = some n → SameBytes ev p ev' p' n →
    ∃ cell k, value2Cell ⟨ev, p⟩ type word = .ok (cell, .advance ⟨ev, p⟩ k) ∧
      value2Cell ⟨ev', p'⟩ type word = .ok (cell, .advance ⟨ev', p'⟩ k)

namespace SameBytes

/-- A length and the bytes behind it. -/
theorem prefixed {w : ℕ} (h : SameBytes ev p ev' p' (prefixedSize ev p w)) :
    slice ev p w = slice ev' p' w ∧
      slice ev (p + w) (leNat (slice ev p w)) = slice ev' (p' + w) (leNat (slice ev p w)) ∧
      EventCursor.advance ⟨ev, p⟩ w = ⟨ev, p + w⟩ ∧
      EventCursor.advance ⟨ev', p'⟩ w = ⟨ev', p' + w⟩ := by
  obtain ⟨h0, h1, h0', h1', hs⟩ := h
  rw [prefixedSize] at h1 h1' hs
  obtain ⟨hleft, hright⟩ := slice_eq_split hs
  exact ⟨hleft, hright, EventCursor.advance_mk h0 (by omega),
    EventCursor.advance_mk h0' (by omega)⟩

theorem stringCell_eq {mtype : FieldType} {max : ℕ}
    (h : SameBytes ev p ev' p' (prefixedSize ev p (lengthWidth max))) :
    ∃ cell k, stringCell mtype max ⟨ev, p⟩ = (cell, .advance ⟨ev, p⟩ k) ∧
      stringCell mtype max ⟨ev', p'⟩ = (cell, .advance ⟨ev', p'⟩ k) := by
  obtain ⟨hlen, hcontent, hadv, hadv'⟩ := h.prefixed
  have hsnd := stringCell_snd mtype max ⟨ev, p⟩
  have hsnd' := stringCell_snd mtype max ⟨ev', p'⟩
  have hsize : prefixedSize ev' p' (lengthWidth max) = prefixedSize ev p (lengthWidth max) := by
    rw [prefixedSize, prefixedSize, hlen]
  rw [hsize] at hsnd'
  refine ⟨(stringCell mtype max ⟨ev, p⟩).1, prefixedSize ev p (lengthWidth max),
    Prod.ext rfl hsnd, Prod.ext ?_ hsnd'⟩
  by_cases hshort : max < 256
  · have hw : lengthWidth max = 1 := if_pos hshort
    rw [hw] at hlen hcontent hadv hadv'
    simp only [stringCell, if_pos hshort, readUint8, readBytes, getUint8_eq, hadv, hadv', ← hlen,
      hcontent]
  · have hw : lengthWidth max = 2 := if_neg hshort
    rw [hw] at hlen hcontent hadv hadv'
    simp only [stringCell, if_neg hshort, readUint16, readBytes, getUint16, hadv, hadv', ← hlen,
      hcontent]

theorem blobCell_eq {k : ℕ} (hk : 1 ≤ k) (hk' : k ≤ 4)
    (h : SameBytes ev p ev' p' (prefixedSize ev p k)) :
    ∃ cell j, blobCell k ⟨ev, p⟩ = (cell, .advance ⟨ev, p⟩ j) ∧
      blobCell k ⟨ev', p'⟩ = (cell, .advance ⟨ev', p'⟩ j) := by
  obtain ⟨hlen, hcontent, hadv, hadv'⟩ := h.prefixed
  have hsnd := blobCell_snd hk hk' ⟨ev, p⟩
  have hsnd' := blobCell_snd hk hk' ⟨ev', p'⟩
  have hsize : prefixedSize ev' p' k = prefixedSize ev p k := by
    rw [prefixedSize, prefixedSize, hlen]
  rw [hsize] at hsnd'
  refine ⟨(blobCell k ⟨ev, p⟩).1, prefixedSize ev p k, Prod.ext rfl hsnd, Prod.ext ?_ hsnd'⟩
  obtain rfl | rfl | rfl | rfl : k = 1 ∨ k = 2 ∨ k = 3 ∨ k = 4 := by omega
  · simp only [blobCell, rawCell, readUint8, readBytes, getUint8_eq, hadv, hadv', ← hlen, hcontent]
  · simp only [blobCell, rawCell, readUint16, readBytes, getUint16, hadv, hadv', ← hlen, hcontent]
  · simp only [blobCell, rawCell, readUint24, readBytes, getUint24_eq, hadv, hadv', ← hlen,
      hcontent]
  · simp only [blobCell, rawCell, readUint32, readBytes, getUint32, hadv, hadv', ← hlen, hcontent]

theorem bin2decimal_eq {len precision scale : ℕ} (hp : 1 ≤ precision) (hsp : scale ≤ precision)
    (h : SameBytes ev p ev' p' (decimalBinSize precision scale)) :
    bin2decimal ev p len precision scale = bin2decimal ev' p' len precision scale := by
  have hhead : ev p = ev' p' := by
    have hs := h.slice_eq
    obtain ⟨k, hk⟩ := Nat.exists_eq_succ_of_ne_zero (decimalBinSize_pos hp hsp).ne'
    rw [hk, slice_succ, slice_succ] at hs
    exact (List.cons.inj hs).1
  simp only [bin2decimal, h.slice_eq, hhead]

end SameBytes

/-! ## The branches of the switch -/

theorem value2Cell_switch {t : FieldType} (h : switchType type word = some t) (ht : t ≠ .string)
    (evcur : EventCursor) : value2Cell evcur type word = value2Cell evcur t.toByte word := by
  have hne : t.toByte ≠ FieldType.string.toByte := by
    intro he
    have hof := congrArg FieldType.ofByte he
    rw [FieldType.ofByte_toByte, FieldType.ofByte_toByte] at hof
    exact ht (Option.some.inj hof)
  rw [switchType] at h
  rw [value2Cell, value2Cell, stringType_of_ne hne]
  generalize stringType type word = st at h ⊢
  obtain ⟨ty, len⟩ := st
  simp only [h, FieldType.ofByte_toByte]
  cases t <;> first | exact absurd rfl ht | dsimp only

theorem value2Cell_string (h : switchType type word = some .string) (evcur : EventCursor) :
    value2Cell evcur type word = .ok (stringCell .string (stringType type word).2 evcur) := by
  rw [switchType] at h
  rw [value2Cell]
  generalize stringType type word = st at h ⊢
  obtain ⟨ty, len⟩ := st
  simp only [h]

theorem enumCell_local (hn : word &&& 0xFF = 1 ∨ word &&& 0xFF = 2)
    (h : slice ev p (word &&& 0xFF) = slice ev' p' (word &&& 0xFF)) :
    ∃ cell k, enumCell word ⟨ev, p⟩ = (cell, .advance ⟨ev, p⟩ k) ∧
      enumCell word ⟨ev', p'⟩ = (cell, .advance ⟨ev', p'⟩ k) := by
  rcases hn with hn | hn
  · rw [hn] at h
    simp only [enumCell, hn, readUint8, getUint8_eq, h]
    exact ⟨_, _, rfl, rfl⟩
  · rw [hn] at h
    simp only [enumCell, hn, readUint16, getUint16, h]
    exact ⟨_, _, rfl, rfl⟩

theorem newdecimalCell_local (hp : 0 < (word >>> 8) % 256)
    (hsp : word &&& 0xFF ≤ (word >>> 8) % 256)
    (h : SameBytes ev p ev' p' (decimalBinSize ((word >>> 8) % 256) (word &&& 0xFF))) :
    ∃ cell k, newdecimalCell word ⟨ev, p⟩ = .ok (cell, .advance ⟨ev, p⟩ k) ∧
      newdecimalCell word ⟨ev', p'⟩ = .ok (cell, .advance ⟨ev', p'⟩ k) := by
  simp only [newdecimalCell, if_pos (And.intro hp hsp), h.bin2decimal_eq hp hsp]
  have hstay : EventCursor.advance ⟨ev, p⟩ 0 = ⟨ev, p⟩ :=
    EventCursor.advance_eq_iff.mpr ⟨by have := h.nonneg; omega, by have := h.lt; omega⟩ |>.trans
      (by simp)
  have hstay' : EventCursor.advance ⟨ev', p'⟩ 0 = ⟨ev', p'⟩ :=
    EventCursor.advance_eq_iff.mpr ⟨by have := h.nonneg'; omega, by have := h.lt'; omega⟩ |>.trans
      (by simp)
  generalize bin2decimal ev' p' 128 ((word >>> 8) % 256) (word &&& 0xFF) = read
  obtain ⟨status, d⟩ := read
  cases status with
  | ok => exact ⟨_, _, rfl, rfl⟩
  | truncated | overflow | badNum =>
    exact ⟨.empty, 0, by rw [hstay], by rw [hstay']⟩

theorem fixed_local {t : FieldType} (hwidth : t.fixedWidth = some n)
    (h : slice ev p n = slice ev' p' n) :
    ∃ cell k, value2Cell ⟨ev, p⟩ t.toByte word = .ok (cell, .advance ⟨ev, p⟩ k) ∧
      value2Cell ⟨ev', p'⟩ t.toByte word = .ok (cell, .advance ⟨ev', p'⟩ k) := by
  rw [value2Cell_fixed t hwidth, value2Cell_fixed t hwidth, ← h]
  exact ⟨_, _, rfl, rfl⟩

theorem newdate_local (h : slice ev p 3 = slice ev' p' 3) :
    ∃ cell k, value2Cell ⟨ev, p⟩ FieldType.newdate.toByte word = .ok (cell, .advance ⟨ev, p⟩ k) ∧
      value2Cell ⟨ev', p'⟩ FieldType.newdate.toByte word =
        .ok (cell, .advance ⟨ev', p'⟩ k) := by
  have hread : getUint24 ev p = getUint24 ev' p' := by rw [getUint24_eq, getUint24_eq, h]
  refine ⟨textCell .newdate (newdateText (getUint24 ev p)), 3, rfl, ?_⟩
  rw [hread]
  rfl

theorem bit_local (h : slice ev p (bitBytes word) = slice ev' p' (bitBytes word)) :
    ∃ cell k, value2Cell ⟨ev, p⟩ FieldType.bit.toByte word = .ok (cell, .advance ⟨ev, p⟩ k) ∧
      value2Cell ⟨ev', p'⟩ FieldType.bit.toByte word = .ok (cell, .advance ⟨ev', p'⟩ k) := by
  refine ⟨⟨.binary, .bit, toInt32 (bitBytes word), some (slice ev p (bitBytes word))⟩,
    bitBytes word, rfl, ?_⟩
  rw [h]
  rfl

/-- Outside sets a cell comes from the bytes of its value alone. -/
theorem local_of_ne_set (h : switchType type word ≠ some .set) : Local type word := by
  intro ev p ev' p' n hsize hsame
  rw [valueSize] at hsize
  have hlift {x y : Cell × EventCursor}
      (hcell : ∃ cell k, x = (cell, .advance ⟨ev, p⟩ k) ∧ y = (cell, .advance ⟨ev', p'⟩ k)) :
      ∃ cell k, (.ok x : Except Fault _) = .ok (cell, .advance ⟨ev, p⟩ k) ∧
        (.ok y : Except Fault _) = .ok (cell, .advance ⟨ev', p'⟩ k) := by
    obtain ⟨cell, k, rfl, rfl⟩ := hcell
    exact ⟨cell, k, rfl, rfl⟩
  cases hty : switchType type word with
  | none =>
    rw [hty] at hsize
    cases hsize
  | some t =>
    rw [hty] at hsize
    by_cases hstring : t = .string
    · subst hstring
      obtain rfl := Option.some.inj hsize
      rw [value2Cell_string hty, value2Cell_string hty]
      exact hlift hsame.stringCell_eq
    · rw [value2Cell_switch hty hstring, value2Cell_switch hty hstring]
      cases t with
      | set => exact absurd hty h
      | string => exact absurd rfl hstring
      | varchar | varString =>
        obtain rfl := Option.some.inj hsize
        exact hlift hsame.stringCell_eq
      | blob =>
        dsimp only at hsize
        split_ifs at hsize with hword
        obtain rfl := Option.some.inj hsize
        exact hlift (hsame.blobCell_eq hword.1 hword.2)
      | enum =>
        dsimp only at hsize
        split_ifs at hsize with hword
        obtain rfl := Option.some.inj hsize
        exact hlift (enumCell_local hword hsame.slice_eq)
      | newdecimal =>
        dsimp only at hsize
        split_ifs at hsize with hword
        obtain rfl := Option.some.inj hsize
        rw [value2Cell_decimal, value2Cell_decimal]
        exact newdecimalCell_local hword.1 hword.2 hsame
      | bit =>
        obtain rfl := Option.some.inj hsize
        exact bit_local hsame.slice_eq
      | newdate =>
        obtain rfl := Option.some.inj hsize
        exact newdate_local hsame.slice_eq
      | decimal | null | tinyBlob | mediumBlob | longBlob | geometry => cases hsize
      | tiny | short | long | float | double | timestamp | longlong | int24 | date | time
      | datetime | year => exact fixed_local hsize hsame.slice_eq

/-! ## Sets -/

theorem value2Cell_set (h : switchType type word = some .set) (evcur : EventCursor) :
    value2Cell evcur type word = setCell word evcur :=
  (value2Cell_switch h nofun evcur).trans rfl

/-- An empty set value has nothing to copy. -/
theorem local_of_set_zero (h : switchType type word = some .set) (hn : word &&& 0xFF = 0) :
    Local type word := by
  intro ev p ev' p' n hsize hsame
  rw [value2Cell_set h, value2Cell_set h]
  simp only [setCell, hn]
  exact ⟨_, _, rfl, rfl⟩

/-- Two events that differ in their first byte only, with the value behind it. -/
theorem not_local_of_set (h : switchType type word = some .set) (hn : word &&& 0xFF ≠ 0) :
    ¬Local type word := by
  intro hlocal
  let ev : Mem := fun _ => 0
  let ev' : Mem := fun i => if i = 0 then 1 else 0
  have hsame : SameBytes ev 1 ev' 1 (word &&& 0xFF) := by
    have hle : word &&& 0xFF ≤ 255 := Nat.and_le_right
    refine ⟨by norm_num, by omega, by norm_num, by omega, ?_⟩
    apply List.ext_getElem (by simp)
    intro i hi _
    rw [getElem_slice, getElem_slice]
    exact (if_neg (by omega)).symm
  obtain ⟨cell, k, hcell, hcell'⟩ := hlocal ev 1 ev' 1 _ (by rw [valueSize, h]) hsame
  rw [value2Cell_set h] at hcell hcell'
  simp only [setCell] at hcell hcell'
  split_ifs at hcell hcell'
  simp only [Except.ok.injEq, Prod.mk.injEq] at hcell hcell'
  have hvalue := congrArg Cell.value (hcell.1.trans hcell'.1.symm)
  obtain ⟨j, hj⟩ := Nat.exists_eq_succ_of_ne_zero hn
  simp only [hj, slice_succ, Option.some.injEq, List.cons.injEq] at hvalue
  exact absurd hvalue.1 (by decide)

/-- The cell and the step of the cursor depend on the stored value alone, exactly for the columns
that are no sets. -/
theorem value2Cell_local_iff (type : UInt8) (word : ℕ) :
    Local type word ↔ ¬(switchType type word = some .set ∧ word &&& 0xFF ≠ 0) := by
  constructor
  · rintro hlocal ⟨hset, hn⟩
    exact not_local_of_set hset hn hlocal
  · intro h
    by_cases hset : switchType type word = some .set
    · exact local_of_set_zero hset (by_contra fun hn => h ⟨hset, hn⟩)
    · exact local_of_ne_set hset

/-- The same set value behind two different first bytes gives these bytes. -/
theorem set_not_local : SameBytes (ofBytes [0, 1]) 1 (ofBytes [2, 1]) 1 1 ∧
    valueSize (ofBytes [0, 1]) 1 FieldType.string.toByte (248 * 256 + 1) = some 1 ∧
    (value2Cell ⟨ofBytes [0, 1], 1⟩ FieldType.string.toByte (248 * 256 + 1)).map Prod.fst =
      .ok ⟨.binary, .set, 1, some [0]⟩ ∧
    (value2Cell ⟨ofBytes [2, 1], 1⟩ FieldType.string.toByte (248 * 256 + 1)).map Prod.fst =
      .ok ⟨.binary, .set, 1, some [2]⟩ ∧
    ¬Local FieldType.string.toByte (248 * 256 + 1) :=
  ⟨⟨by norm_num, by norm_num, by norm_num, by norm_num, rfl⟩, rfl, rfl, rfl,
    not_local_of_set rfl (by decide)⟩

end LibBinlog
