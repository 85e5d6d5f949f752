import LibBinlog.Decimal

/-!
# Cells and the column decoder

The enumerations of `logevent.h`, the bitmap and metadata readers, and `value2Cell`, which turns the
bytes of one column into a cell and moves the cursor past them.
-/

namespace LibBinlog

open Machine Memory

inductive FieldType
  | decimal | tiny | short | long | float | double | null | timestamp | longlong | int24 | date
  | time | datetime | year | newdate | varchar | bit | newdecimal | enum | set | tinyBlob
  | mediumBlob | longBlob | blob | varString | string | geometry
  deriving DecidableEq, Repr

namespace FieldType

def toByte : FieldType → UInt8
  | decimal => 0 | tiny => 1 | short => 2 | long => 3 | float => 4 | double => 5 | null => 6
  | timestamp => 7 | longlong => 8 | int24 => 9 | date => 10 | time => 11 | datetime => 12
  | year => 13 | newdate => 14 | varchar => 15 | bit => 16 | newdecimal => 246 | enum => 247
  | set => 248 | tinyBlob => 249 | mediumBlob => 250 | longBlob => 251 | blob => 252
  | varString => 253 | string => 254 | geometry => 255

/-- The enumerator with the given value, `none` for the values between 17 and 245. -/
def ofByte (b : UInt8) : Option FieldType :=
  match b.toNat with
  | 0 => some decimal | 1 => some tiny | 2 => some short | 3 => some long | 4 => some float
  | 5 => some double | 6 => some null | 7 => some timestamp | 8 => some longlong
  | 9 => some int24 | 10 => some date | 11 => some time | 12 => some datetime | 13 => some year
  | 14 => some newdate | 15 => some varchar | 16 => some bit | 246 => some newdecimal
  | 247 => some enum | 248 => some set | 249 => some tinyBlob | 250 => some mediumBlob
  | 251 => some longBlob | 252 => some blob | 253 => some varString | 254 => some string
  | 255 => some geometry
  | _ => none

@[simp] theorem ofByte_toByte (t : FieldType) : ofByte t.toByte = some t := by
  cases t <;> rfl

end FieldType

inductive CType
  | int32 | int8 | int16 | int64 | uint32 | uint64 | float | double | string | binary
  deriving DecidableEq, Repr

/-- `value` is the allocated block, `none` for a null pointer. -/
structure Cell where
  ctype : CType
  mtype : FieldType
  length : ℤ
  value : Option (List UInt8)
  deriving DecidableEq, Repr

/-- A cell with all members zero. -/
def Cell.empty : Cell := ⟨.int32, .decimal, 0, none⟩

/-- A length-encoded integer at `ev + cur`, and `cur` past it. -/
def decodeint (ev : Mem) (cur : ℕ) : ℕ × ℕ :=
  let v := getUint8 ev cur
  if v < 251 then (v, toUInt32 (cur + 1))
  else if v = 251 then (0, toUInt32 (cur + 1))
  else if v = 252 then (getUint16 ev (cur + 1), toUInt32 (cur + 1 + 2))
  else if v = 253 then (getUint24 ev (cur + 1), toUInt32 (cur + 1 + 3))
  else if v = 254 then (getUint64 ev (cur + 1), toUInt32 (cur + 1 + 8))
  else (0, toUInt32 (cur + 1))

/-- Is bit `idx` of the bitmap at offset `bitmap` set? -/
def isSet (ev : Mem) (bitmap : ℤ) (idx : ℕ) : Bool :=
  (ev (bitmap + (idx / 8 : ℕ))).toNat.testBit (idx % 8)

/-- The metadata of one column at `metadata + index`, and the index past it. -/
def columnMetadata (ev : Mem) (metadata : ℤ) (type : UInt8) (index : ℕ) : ℕ × ℕ :=
  match FieldType.ofByte type with
  | some .tinyBlob | some .blob | some .mediumBlob | some .longBlob | some .double | some .float
  | some .geometry => (getUint8 ev (metadata + index), index + 1)
  | some .set | some .enum | some .string | some .newdecimal =>
    ((getUint8 ev (metadata + index) <<< 8) + getUint8 ev (metadata + (index + 1 : ℕ)), index + 2)
  | some .bit =>
    (getUint8 ev (metadata + index) + (getUint8 ev (metadata + (index + 1 : ℕ)) <<< 8), index + 2)
  | some .varchar => (getUint16 ev (metadata + index), index + 2)
  | _ => (0, index)

def decodeMetadataFrom (ev : Mem) (metadata : ℤ) : List UInt8 → ℕ → List ℕ
  | [], _ => []
  | type :: types, index =>
    let (x, index) := columnMetadata ev metadata type index
    x :: decodeMetadataFrom ev metadata types index

/-- One fixed-width metadata word for each of the first `nfields` types. -/
def decodeMetadata (nfields : ℤ) (types : List UInt8) (ev : Mem) (metadata : ℤ) : List ℕ :=
  decodeMetadataFrom ev metadata (types.take nfields.toNat) 0

/-! ## value2Cell -/

/-- The type and field length hidden in a `STRING` column's metadata. -/
def stringType (type : UInt8) (metaWord : ℕ) : UInt8 × ℕ :=
  if type = FieldType.string.toByte then
    if metaWord ≥ 256 then
      let byte0 := UInt8.ofNat (metaWord >>> 8)
      let byte1 := metaWord &&& 0xFF
      match FieldType.ofByte byte0 with
      | some .set | some .enum | some .string => (byte0, byte1)
      | _ =>
        if byte0 &&& 0x30 ≠ 0x30 then
          (byte0 ||| 0x30, byte1 ||| (((byte0 &&& 0x30) ^^^ 0x30).toNat <<< 4))
        else (type, byte1)
    else (type, metaWord)
  else (type, 0)

/-- A cell with the `n` bytes of an integer. -/
def intCell (mtype : FieldType) (ctype : CType) (n : ℕ) (v : ℤ) : Cell :=
  ⟨ctype, mtype, n, some (leBytes n (unsigned (8 * n) v))⟩

/-- A `strdup`ed text: the block holds the terminating zero, `strlen` does not count it. -/
def textCell (mtype : FieldType) (text : List UInt8) : Cell :=
  ⟨.string, mtype, text.length, some (text ++ [0])⟩

def datetimeText (v : ℕ) : List UInt8 :=
  let d := toInt32 (v / 1000000 : ℕ)
  let t := toInt32 (v % 1000000 : ℕ)
  zeroPadded 4 (d.tdiv 10000) ++ ascii "-" ++ zeroPadded 2 ((d.tmod 10000).tdiv 100) ++
    ascii "-" ++ zeroPadded 2 (d.tmod 100) ++ ascii " " ++ zeroPadded 2 (t.tdiv 10000) ++
    ascii ":" ++ zeroPadded 2 ((t.tmod 10000).tdiv 100) ++ ascii ":" ++ zeroPadded 2 (t.tmod 100)

def timeText (v : ℕ) : List UInt8 :=
  ascii "'" ++ zeroPadded 2 (v / 10000 : ℕ) ++ ascii ":" ++ zeroPadded 2 (v % 10000 / 100 : ℕ) ++
    ascii ":" ++ zeroPadded 2 (v % 100 : ℕ) ++ ascii "'"

def newdateText (tmp : ℕ) : List UInt8 :=
  let day := tmp &&& 31
  let month := (tmp >>> 5) &&& 15
  let year := tmp >>> 9
  [digitChar (year / 1000), digitChar (year / 100 % 10), digitChar (year / 10 % 10),
      digitChar (year % 10)] ++ ascii ":" ++
    [digitChar (month / 10), digitChar (month % 10)] ++ ascii ":" ++
    [digitChar (day / 10), digitChar (day % 10)]

def dateText (v : ℕ) : List UInt8 :=
  zeroPadded 4 (v / (16 * 32) : ℕ) ++ ascii "-" ++ zeroPadded 2 (v / 32 % 16 : ℕ) ++ ascii "-" ++
    zeroPadded 2 (v % 32 : ℕ)

/-- `CHAR` and `VARCHAR`: a length of one byte if the field is shorter than 256, else of two. -/
def stringCell (mtype : FieldType) (fieldLength : ℕ) (evcur : EventCursor) : Cell × EventCursor :=
  let (nLength, evcur) := if fieldLength < 256 then readUint8 evcur else readUint16 evcur
  let (content, evcur) := readBytes evcur nLength
  (⟨.string, mtype, toInt32 nLength, some (content ++ [0])⟩, evcur)

/-- A raw copy of `n` bytes. -/
def rawCell (mtype : FieldType) (ctype : CType) (n : ℕ) (evcur : EventCursor) :
    Cell × EventCursor :=
  let (content, evcur) := readBytes evcur n
  (⟨ctype, mtype, toInt32 n, some content⟩, evcur)

def blobCell (metaWord : ℕ) (evcur : EventCursor) : Cell × EventCursor :=
  match metaWord with
  | 1 => let (nLength, evcur) := readUint8 evcur; rawCell .blob .binary nLength evcur
  | 2 => let (nLength, evcur) := readUint16 evcur; rawCell .blob .binary nLength evcur
  | 3 => let (nLength, evcur) := readUint24 evcur; rawCell .blob .binary nLength evcur
  | 4 => let (nLength, evcur) := readUint32 evcur; rawCell .blob .binary nLength evcur
  | _ => (⟨.binary, .blob, 0, none⟩, evcur)

/-- The block of the two-byte branch is asked for with one byte and takes four, which the least
block of an allocator holds. -/
def enumCell (metaWord : ℕ) (evcur : EventCursor) : Cell × EventCursor :=
  match metaWord &&& 0xFF with
  | 1 => let (v, evcur) := readUint8 evcur; (intCell .enum .int32 4 v, evcur)
  | 2 => let (v, evcur) := readUint16 evcur; (intCell .enum .int32 4 v, evcur)
  | _ => (⟨.int32, .enum, 0, none⟩, evcur)

/-- The set's bytes are copied from the start of the event, not from the cursor, into a block of 32
bytes. -/
def setCell (metaWord : ℕ) (evcur : EventCursor) : Except Fault (Cell × EventCursor) :=
  let n := metaWord &&& 0xFF
  if n ≤ 32 then .ok (⟨.binary, .set, n, some (slice evcur.ev 0 n)⟩, evcur.advance n)
  else .error .memory

def bitBytes (metaWord : ℕ) : ℕ := ((metaWord >>> 8) * 8 + (metaWord &&& 0xFF) + 7) / 8

def decimalCell (d : Decimal) : Cell :=
  let (text, len) := decimal2string d
  ⟨.string, .newdecimal, len, some (text ++ [0])⟩

/-- A decimal that is rejected gives the empty cell and leaves the cursor where it was. Metadata
outside the precondition of `decimal.c` reads outside its tables and blocks. -/
def newdecimalCell (metaWord : ℕ) (evcur : EventCursor) : Except Fault (Cell × EventCursor) :=
  let precision := (metaWord >>> 8) % 256
  let decimals := metaWord &&& 0xFF
  if 0 < precision ∧ decimals ≤ precision then
    match bin2decimal evcur.ev evcur.cur 128 precision decimals with
    | (.ok, d) =>
      .ok (decimalCell d, evcur.advance (decimalBinSize precision decimals))
    | _ => .ok (.empty, evcur)
  else .error .memory

def value2Cell (evcur : EventCursor) (type : UInt8) (metaWord : ℕ) :
    Except Fault (Cell × EventCursor) :=
  let (type, nLength) := stringType type metaWord
  match FieldType.ofByte type with
  | some .long => let (v, evcur) := readInt32 evcur; .ok (intCell .long .int32 4 v, evcur)
  | some .tiny => let (v, evcur) := readInt8 evcur; .ok (intCell .tiny .int8 1 v, evcur)
  | some .short => let (v, evcur) := readInt16 evcur; .ok (intCell .short .int16 2 v, evcur)
  | some .longlong => let (v, evcur) := readInt64 evcur; .ok (intCell .longlong .int64 8 v, evcur)
  | some .int24 => let (v, evcur) := readInt24 evcur; .ok (intCell .int24 .int32 4 v, evcur)
  | some .timestamp =>
    let (v, evcur) := readUint32 evcur; .ok (intCell .timestamp .uint32 4 v, evcur)
  | some .datetime =>
    let (v, evcur) := readUint64 evcur; .ok (textCell .datetime (datetimeText v), evcur)
  | some .time => let (v, evcur) := readUint24 evcur; .ok (textCell .time (timeText v), evcur)
  | some .newdate =>
    let (v, evcur) := readUint24 evcur; .ok (textCell .newdate (newdateText v), evcur)
  | some .date => let (v, evcur) := readUint24 evcur; .ok (textCell .date (dateText v), evcur)
  | some .year =>
    let (v, evcur) := readUint8 evcur; .ok (textCell .year (zeroPadded 4 (v + 1900)), evcur)
  | some .enum => .ok (enumCell metaWord evcur)
  | some .set => setCell metaWord evcur
  | some .blob => .ok (blobCell metaWord evcur)
  | some .varchar | some .varString => .ok (stringCell .varchar metaWord evcur)
  | some .string => .ok (stringCell .string nLength evcur)
  | some .bit => .ok (rawCell .bit .binary (bitBytes metaWord) evcur)
  | some .float => .ok (rawCell .float .float 4 evcur)
  | some .double => .ok (rawCell .double .double 8 evcur)
  | some .newdecimal => newdecimalCell metaWord evcur
  | _ => .ok (.empty, evcur)

end LibBinlog
