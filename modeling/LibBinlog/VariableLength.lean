import LibBinlog.ColumnFormat
import LibBinlog.TableMapFormat

/-!
# Values of variable length

Strings, blobs and bit fields as a server writes them: the metadata bytes of the column in the table
map, and the value behind its length in the row image. The metadata decoder and `value2Cell`
together give the value back.
-/

namespace LibBinlog

open Machine Memory

variable {ev m : Mem} {p q : ℤ} {v : List UInt8}

/-- `CHAR` columns are carried as `STRING`; `max` counts bytes. -/
inductive VariableColumn
  | varchar (max : ℕ) (h : max < 65536)
  | char (max : ℕ) (h : max ≤ 1023)
  | blob (k : ℕ) (h : 1 ≤ k) (h' : k ≤ 4)
  | bit (bits : ℕ) (h : bits < 2048)

namespace VariableColumn

def type : VariableColumn → UInt8
  | varchar .. => FieldType.varchar.toByte
  | char .. => FieldType.string.toByte
  | blob .. => FieldType.blob.toByte
  | bit .. => FieldType.bit.toByte

def metadata : VariableColumn → List UInt8
  | varchar max _ => [UInt8.ofNat (max % 256), UInt8.ofNat (max / 256)]
  | char max _ => [UInt8.ofNat (254 ^^^ ((max &&& 0x300) >>> 4)), UInt8.ofNat (max &&& 0xFF)]
  | blob k _ _ => [UInt8.ofNat k]
  | bit bits _ => [UInt8.ofNat (bits % 8), UInt8.ofNat (bits / 8)]

/-- The values a column can hold. -/
def Admits (v : List UInt8) : VariableColumn → Prop
  | varchar max _ => v.length ≤ max
  | char max _ => v.length ≤ max
  | blob k _ _ => v.length < 256 ^ k
  | bit bits _ => v.length = (bits + 7) / 8

/-- The value in a row image, behind its length if it has one. -/
def encode (v : List UInt8) : VariableColumn → List UInt8
  | varchar max _ => leBytes (if max < 256 then 1 else 2) v.length ++ v
  | char max _ => leBytes (if max < 256 then 1 else 2) v.length ++ v
  | blob k _ _ => leBytes k v.length ++ v
  | bit _ _ => v

/-- The bytes of the cell; those of strings end in a zero. -/
def content (v : List UInt8) : VariableColumn → List UInt8
  | varchar .. => v ++ [0]
  | char .. => v ++ [0]
  | blob .. => v
  | bit .. => v

/-- The metadata bytes give the word, and the value gives back the bytes. -/
def RoundTrips (c : VariableColumn) (m : Mem) (q : ℤ) (ev : Mem) (p : ℤ) (v : List UInt8) : Prop :=
  ∃ word cell, decodeMetadata 1 [c.type] m q = [word] ∧
    value2Cell ⟨ev, p⟩ c.type word = .ok (cell, ⟨ev, p + (c.encode v).length⟩) ∧
    cell.length = v.length ∧ cell.value = some (c.content v)

/-- The metadata word of the column. -/
def word : VariableColumn → ℕ
  | varchar max _ => max
  | char max _ => charWord max
  | blob k _ _ => k
  | bit bits _ => bits / 8 * 256 + bits % 8

theorem charWord_bytes {max : ℕ} (h : max ≤ 1023) :
    charWord max < 256 ^ 2 ∧ beBytes 2 (charWord max) =
      [UInt8.ofNat (254 ^^^ ((max &&& 0x300) >>> 4)), UInt8.ofNat (max &&& 0xFF)] := by
  obtain ⟨top, htop, -, hlt, hword⟩ := charWord_eq h
  have hhigh : charWord max / 256 = top := by omega
  have hlow : UInt8.ofNat (charWord max) = UInt8.ofNat (max &&& 0xFF) := by
    apply UInt8.toNat_inj.mp
    rw [UInt8.toNat_ofNat', UInt8.toNat_ofNat', and_low_byte]
    omega
  refine ⟨by omega, ?_⟩
  rw [high_bits h, ← htop, ← hlow, ← hhigh]
  rfl

theorem bit_bytes (bits : ℕ) :
    leBytes 2 (bits / 8 * 256 + bits % 8) =
      [UInt8.ofNat (bits % 8), UInt8.ofNat (bits / 8)] := by
  have hlow : UInt8.ofNat (bits / 8 * 256 + bits % 8) = UInt8.ofNat (bits % 8) := by
    apply UInt8.toNat_inj.mp
    rw [UInt8.toNat_ofNat', UInt8.toNat_ofNat']
    omega
  have hhigh : (bits / 8 * 256 + bits % 8) / 256 = bits / 8 := by omega
  rw [leBytes, leBytes, leBytes, hlow, hhigh]

/-- Each column's metadata bytes are those of a column definition with its word. -/
theorem columnDef (c : VariableColumn) :
    ∃ d : ColumnDef, d.type = c.type ∧ d.word = c.word ∧ d.metaBytes = c.metadata := by
  cases c with
  | varchar max h =>
    refine ⟨⟨FieldType.varchar.toByte, max, h⟩, rfl, rfl, ?_⟩
    have hlow : UInt8.ofNat max = UInt8.ofNat (max % 256) := by
      apply UInt8.toNat_inj.mp
      rw [UInt8.toNat_ofNat', UInt8.toNat_ofNat']
      omega
    show leBytes 2 max = [UInt8.ofNat (max % 256), UInt8.ofNat (max / 256)]
    rw [leBytes, leBytes, leBytes, hlow]
  | char max h =>
    obtain ⟨hlt, hbytes⟩ := charWord_bytes h
    exact ⟨⟨FieldType.string.toByte, charWord max, hlt⟩, rfl, rfl, hbytes⟩
  | blob k h h' =>
    have hlt : k < 256 ^ 1 := by omega
    exact ⟨⟨FieldType.blob.toByte, k, hlt⟩, rfl, rfl, rfl⟩
  | bit bits h =>
    have hlt : bits / 8 * 256 + bits % 8 < 256 ^ 2 := by omega
    exact ⟨⟨FieldType.bit.toByte, bits / 8 * 256 + bits % 8, hlt⟩, rfl, rfl, bit_bytes bits⟩

theorem decodeMetadata_eq (c : VariableColumn) (h : Holds m q c.metadata) :
    decodeMetadata 1 [c.type] m q = [c.word] := by
  obtain ⟨d, htype, hword, hbytes⟩ := c.columnDef
  have hfrom := @decodeMetadataFrom_eq m q [d] 0 (by
    rw [Nat.cast_zero, add_zero]
    simpa [hbytes] using h)
  simp only [List.map_cons, List.map_nil, htype, hword] at hfrom
  exact hfrom

theorem bitBytes_word (bits : ℕ) :
    bitBytes (bits / 8 * 256 + bits % 8) = (bits + 7) / 8 := by
  rw [bitBytes, Nat.shiftRight_eq_div_pow, and_low_byte]
  omega

/-- The value at the cursor, in a column of this word. -/
theorem value2Cell_encode (c : VariableColumn) (hv : c.Admits v) (hev : Holds ev p (c.encode v))
    (h0 : 0 ≤ p) (h1 : p + (c.encode v).length < 2 ^ 31) : ∃ cell,
    value2Cell ⟨ev, p⟩ c.type c.word = .ok (cell, ⟨ev, p + (c.encode v).length⟩) ∧
      cell.length = v.length ∧ cell.value = some (c.content v) := by
  cases c with
  | varchar max h =>
    exact ⟨⟨.string, .varchar, v.length, some (v ++ [0])⟩,
      congrArg Except.ok (stringCell_eq h hv h0 h1 hev), rfl, rfl⟩
  | char max h =>
    refine ⟨⟨.string, .string, v.length, some (v ++ [0])⟩, ?_, rfl, rfl⟩
    show value2Cell _ FieldType.string.toByte (charWord max) = _
    rw [value2Cell, stringType_charWord h]
    exact congrArg Except.ok (stringCell_eq (by omega) hv h0 h1 hev)
  | blob k h h' =>
    exact ⟨⟨.binary, .blob, v.length, some v⟩,
      congrArg Except.ok (blobCell_eq h h' hv h0 h1 hev), rfl, rfl⟩
  | bit bits h =>
    have hlen : bitBytes (bits / 8 * 256 + bits % 8) = v.length :=
      (bitBytes_word bits).trans hv.symm
    have hfits : p + v.length < 2 ^ 31 := h1
    have h32 : toInt32 (v.length : ℤ) = v.length := toInt32_of_range (by omega) (by omega)
    refine ⟨⟨.binary, .bit, v.length, some v⟩, ?_, rfl, rfl⟩
    have hraw : value2Cell ⟨ev, p⟩ FieldType.bit.toByte (bits / 8 * 256 + bits % 8) =
      .ok (rawCell .bit .binary (bitBytes (bits / 8 * 256 + bits % 8)) ⟨ev, p⟩) := rfl
    refine hraw.trans ?_
    have hslice : slice ev p v.length = v := hev
    rw [rawCell, readBytes, hlen, hslice, EventCursor.advance_mk h0 hfits, h32]
    rfl

end VariableColumn

/-- A value of variable length that ends below offset `2 ^ 31` comes back with its bytes, and the
cursor stands behind it. -/
theorem value2Cell_roundTrips (c : VariableColumn) (hv : c.Admits v)
    (hmeta : Holds m q c.metadata) (hev : Holds ev p (c.encode v)) (h0 : 0 ≤ p)
    (h1 : p + (c.encode v).length < 2 ^ 31) : c.RoundTrips m q ev p v := by
  obtain ⟨cell, hcell, hlen, hvalue⟩ := c.value2Cell_encode hv hev h0 h1
  exact ⟨c.word, cell, c.decodeMetadata_eq hmeta, hcell, hlen, hvalue⟩

/-- Two bytes in a `CHAR` column of at most 600 bytes: the length is a two-byte one and the column's
type byte is 222. -/
theorem value2Cell_roundTrips_char :
    (VariableColumn.char 600 (by decide)).metadata = [222, 88] ∧
    (VariableColumn.char 600 (by decide)).RoundTrips (ofBytes [222, 88]) 0
      (ofBytes [2, 0, 65, 66]) 0 [65, 66] :=
  ⟨rfl, value2Cell_roundTrips (.char 600 (by decide)) (by decide : 2 ≤ 600) rfl rfl le_rfl
    (by decide)⟩

/-! ## A blob too long for the cell -/

def zeros (n : ℕ) : List UInt8 := List.replicate n 0

theorem length_zeros (n : ℕ) : (zeros n).length = n := List.length_replicate

theorem holds_zeros (bs : List UInt8) (n : ℕ) : Holds (ofBytes bs) bs.length (zeros n) := by
  have hlen := length_zeros n
  apply List.ext_getElem (by simp)
  intro i hi hi'
  have hz : (zeros n)[i] = 0 := List.getElem_replicate ..
  rw [getElem_slice, hz]
  exact store_of_ge _ (by omega)

/-- A `LONGBLOB` of `2 ^ 31` zeros behind its length. -/
def longBlob : Mem := ofBytes [0, 0, 0, 128]

theorem longBlob_holds (hfour : (4 : ℕ) ≤ 4) :
    Holds longBlob 0 ((VariableColumn.blob 4 (by decide) hfour).encode (zeros (2 ^ 31))) := by
  have hlength : leBytes 4 (2 ^ 31) = [0, 0, 0, 128] := by decide
  rw [VariableColumn.encode, length_zeros, hlength]
  exact holds_append.mpr ⟨rfl, holds_zeros [0, 0, 0, 128] (2 ^ 31)⟩

theorem longBlob_length {cell : Cell} {evcur : EventCursor}
    (h : value2Cell ⟨longBlob, 0⟩ FieldType.blob.toByte 4 = .ok (cell, evcur)) :
    cell.length = -2 ^ 31 := by
  have hread : getUint32 longBlob 0 = 2 ^ 31 := by decide
  have hwrap : toInt32 ((2 ^ 31 : ℕ) : ℤ) = -2 ^ 31 := by decide
  have hcell : value2Cell ⟨longBlob, 0⟩ FieldType.blob.toByte 4 =
      .ok (rawCell .blob .binary (getUint32 longBlob 0) (.advance ⟨longBlob, 0⟩ 4)) := rfl
  rw [hcell, rawCell, hread, hwrap] at h
  simp only [Except.ok.injEq, Prod.mk.injEq] at h
  rw [← h.1]

theorem longBlob_not_roundTrips :
    (VariableColumn.blob 4 (by decide) le_rfl).Admits (zeros (2 ^ 31)) ∧
    Holds (ofBytes [4]) 0 (VariableColumn.blob 4 (by decide) le_rfl).metadata ∧
    Holds longBlob 0
      ((VariableColumn.blob 4 (by decide) le_rfl).encode (zeros (2 ^ 31))) ∧
    ¬(VariableColumn.blob 4 (by decide) le_rfl).RoundTrips (ofBytes [4]) 0 longBlob 0
      (zeros (2 ^ 31)) := by
  refine ⟨?_, rfl, longBlob_holds le_rfl, ?_⟩
  · rw [VariableColumn.Admits, length_zeros]
    norm_num
  · rintro ⟨word, cell, hword, hcell, hlength, -⟩
    have hdecoded : decodeMetadata 1 [FieldType.blob.toByte] (ofBytes [4]) 0 = [4] := rfl
    obtain rfl : 4 = word := (List.cons.inj (hdecoded.symm.trans hword)).1
    rw [longBlob_length hcell, length_zeros] at hlength
    norm_num at hlength

end LibBinlog
